import CopyPatch.Proofs.Enumeration.Order

/-! What a walk does, call by call. Without refusals the calls of predicate and provider form one
list, in the dictionary order of the prefixes they are made on; a walk makes them one after another
and stops behind the first refusal. -/
namespace CopyPatch

namespace Enumeration

variable {ε α : Type}

/-- One call during a walk: a prefix is tested, or a full tuple is asked for. -/
inductive Event where
  | test (chosen : Tuple)
  | ask (tuple : Tuple)

namespace Event

def tuple : Event → Tuple
  | test chosen => chosen
  | ask tuple => tuple

/-- The same call with some values chosen before. -/
def under (chosen : Tuple) : Event → Event
  | test t => test (chosen ++ t)
  | ask t => ask (chosen ++ t)

def tested? : Event → Option Tuple
  | test chosen => some chosen
  | ask _ => none

def asked? : Event → Option Tuple
  | test _ => none
  | ask tuple => some tuple

/-- What a call adds to a walk. -/
def act (provide : Tuple → Except ε α) : Event → Enumeration ε α → Enumeration ε α
  | test chosen, walk => walk.test chosen
  | ask tuple, walk => walk.ask provide tuple

@[simp] theorem under_nil (event : Event) : event.under [] = event := by
  cases event <;> rfl

@[simp] theorem under_under (first second : Tuple) (event : Event) :
    (event.under second).under first = event.under (first ++ second) := by
  cases event <;> simp [under]

@[simp] theorem tuple_under (chosen : Tuple) (event : Event) :
    (event.under chosen).tuple = chosen ++ event.tuple := by
  cases event <;> rfl

end Event

/-- The calls of a walk in which nothing is refused. -/
def events (accepts : Tuple → Bool) : List Axis → List Event
  | [] => [.ask []]
  | axis :: axes => axis.values.flatMap fun v =>
    .test [v] :: if accepts [v] then
      (events (fun s => accepts (v :: s)) axes).map (Event.under [v]) else []

/-- Make calls in order until one is refused. -/
def replay (provide : Tuple → Except ε α) : List Event → Enumeration ε α → Enumeration ε α
  | [], walk => walk
  | event :: rest, walk =>
    if walk.refusal.isSome then walk else replay provide rest (event.act provide walk)

theorem replay_refused (provide : Tuple → Except ε α) (calls : List Event)
    {walk : Enumeration ε α} (refused : walk.refusal.isSome = true) :
    replay provide calls walk = walk := by
  cases calls with
  | nil => rfl
  | cons event rest => simp [replay, refused]

theorem replay_append (provide : Tuple → Except ε α) (first second : List Event)
    (walk : Enumeration ε α) :
    replay provide (first ++ second) walk =
      replay provide second (replay provide first walk) := by
  induction first generalizing walk with
  | nil => rfl
  | cons event rest ih =>
    by_cases refused : walk.refusal.isSome = true
    · rw [replay_refused provide _ refused, replay_refused provide _ refused,
        replay_refused provide _ refused]
    · simp only [List.cons_append, replay, refused, Bool.false_eq_true, if_false]
      exact ih _

/-- Visits that each make some calls make all of them in order. -/
theorem overList_eq_replay {provide : Tuple → Except ε α}
    {visit : UInt64 → Enumeration ε α → Enumeration ε α} {calls : UInt64 → List Event}
    (each : ∀ v walk, walk.refusal = none → visit v walk = replay provide (calls v) walk)
    (values : List UInt64) (walk : Enumeration ε α) :
    overList visit values walk = replay provide (values.flatMap calls) walk := by
  induction values generalizing walk with
  | nil => rfl
  | cons v rest ih =>
    by_cases refused : walk.refusal.isSome = true
    · rw [overList_refused visit _ refused, replay_refused provide _ refused]
    · have going : walk.refusal = none := by simpa using refused
      simp only [overList, going, Option.isSome_none, Bool.false_eq_true, if_false]
      rw [List.flatMap_cons, replay_append, ← each v walk going, ih]

/-- A walk makes the calls of its axes under the values chosen before. -/
theorem extend_eq_replay (accepts : Tuple → Bool) (provide : Tuple → Except ε α)
    (axes : List Axis) (chosen : Tuple) {walk : Enumeration ε α} (going : walk.refusal = none) :
    extend accepts provide axes chosen walk =
      replay provide ((events (fun s => accepts (chosen ++ s)) axes).map (Event.under chosen))
        walk := by
  induction axes generalizing chosen walk with
  | nil => simp [extend, events, replay, going, Event.under, Event.act]
  | cons axis axes ih =>
    rw [extend, overAxis_eq, events, List.map_flatMap]
    refine overList_eq_replay (fun v walk going => ?_) axis.values walk
    have tested : (walk.test (chosen ++ [v])).refusal = none := going
    simp only [List.map_cons, replay, going, Option.isSome_none, Bool.false_eq_true, if_false,
      Event.under, Event.act]
    split
    · rw [ih (chosen ++ [v]) tested, List.map_map]
      simp [Function.comp_def]
    · rfl

/-- The calls of the predicate. -/
def tests (calls : List Event) : List Tuple := calls.filterMap Event.tested?

/-- The calls of the provider. -/
def asks (calls : List Event) : List Tuple := calls.filterMap Event.asked?

@[simp] theorem tests_test (q : Tuple) (calls : List Event) :
    tests (.test q :: calls) = q :: tests calls := rfl

@[simp] theorem tests_ask (t : Tuple) (calls : List Event) :
    tests (.ask t :: calls) = tests calls := rfl

@[simp] theorem asks_test (q : Tuple) (calls : List Event) :
    asks (.test q :: calls) = asks calls := rfl

@[simp] theorem asks_ask (t : Tuple) (calls : List Event) :
    asks (.ask t :: calls) = t :: asks calls := rfl

theorem asks_under (chosen : Tuple) (calls : List Event) :
    asks (calls.map (Event.under chosen)) = (asks calls).map (chosen ++ ·) := by
  induction calls with
  | nil => rfl
  | cons event rest ih => cases event <;> simp [Event.under, ih]

theorem mem_tests {calls : List Event} {q : Tuple} : q ∈ tests calls ↔ .test q ∈ calls := by
  simp only [tests, List.mem_filterMap]
  constructor
  · rintro ⟨event, member, read⟩
    cases event with
    | test chosen => exact Option.some.inj read ▸ member
    | ask tuple => cases read
  · intro member
    exact ⟨_, member, rfl⟩

/-- Calls that are all answered are all made. -/
theorem replay_answered {provide : Tuple → Except ε α} {calls : List Event}
    (answered : ∀ t ∈ asks calls, ∃ a, provide t = .ok a) {walk : Enumeration ε α}
    (going : walk.refusal = none) :
    (replay provide calls walk).refusal = none ∧
      (replay provide calls walk).tested.toList = walk.tested.toList ++ tests calls ∧
      (replay provide calls walk).asked.toList = walk.asked.toList ++ asks calls := by
  induction calls generalizing walk with
  | nil => simp [replay, going, tests, asks]
  | cons event rest ih =>
    simp only [replay, going, Option.isSome_none, Bool.false_eq_true, if_false]
    cases event with
    | test chosen =>
      have still : (walk.test chosen).refusal = none := going
      obtain ⟨ended, tested, asked⟩ := ih answered still
      refine ⟨ended, tested.trans ?_, asked⟩
      simp [test]
    | ask tuple =>
      obtain ⟨a, given⟩ := answered tuple List.mem_cons_self
      have still : (walk.ask provide tuple).refusal = none := by simpa [ask, given] using going
      obtain ⟨ended, tested, asked⟩ := ih (fun t ht => answered t (List.mem_cons_of_mem _ ht)) still
      refine ⟨ended, tested.trans ?_, asked.trans ?_⟩
      · simp [ask, given]
      · simp [ask, given]

/-- Refused or not, a walk has made the first of its tests. -/
theorem replay_tested_initial (provide : Tuple → Except ε α) (calls : List Event)
    (walk : Enumeration ε α) : ∃ part, part <+: tests calls ∧
      (replay provide calls walk).tested.toList = walk.tested.toList ++ part := by
  induction calls generalizing walk with
  | nil => exact ⟨[], List.prefix_refl [], by simp [replay]⟩
  | cons event rest ih =>
    by_cases refused : walk.refusal.isSome = true
    · exact ⟨[], List.nil_prefix, by simp [replay, refused]⟩
    · simp only [replay, refused, Bool.false_eq_true, if_false]
      obtain ⟨part, initial, tested⟩ := ih (event.act provide walk)
      cases event with
      | test chosen =>
        refine ⟨chosen :: part, List.cons_prefix_cons.mpr ⟨rfl, initial⟩, tested.trans ?_⟩
        simp [Event.act, test]
      | ask tuple =>
        refine ⟨part, initial, tested.trans ?_⟩
        simp only [Event.act, ask]
        split <;> rfl

/-- The first call that is refused is made, and none behind it. -/
theorem replay_until_refusal {provide : Tuple → Except ε α} {before : List Event} {t : Tuple}
    {cause : ε} (answered : ∀ s ∈ asks before, ∃ a, provide s = .ok a)
    (refused : provide t = .error cause) (after : List Event) {walk : Enumeration ε α}
    (going : walk.refusal = none) :
    (replay provide (before ++ .ask t :: after) walk).tested.toList =
        walk.tested.toList ++ tests before ∧
      (replay provide (before ++ .ask t :: after) walk).asked.toList =
        walk.asked.toList ++ asks before ++ [t] := by
  obtain ⟨still, tested, asked⟩ := replay_answered answered going
  rw [replay_append]
  simp only [replay, still, Option.isSome_none, Bool.false_eq_true, if_false, Event.act]
  rw [replay_refused provide after (by simp [ask, refused])]
  simp [ask, refused, tested, asked]

/-- One call is made on an earlier prefix than another, or both are made on the same full tuple,
which is tested before it is asked for. -/
def Event.Precedes (axes : List Axis) : Event → Event → Prop
  | test s, ask t => Earlier axes s t ∨ s = t
  | e, f => Earlier axes e.tuple f.tuple

theorem Event.Precedes.under {axes : List Axis} {e f : Event} (h : e.Precedes axes f)
    (axis : Axis) (v : UInt64) : (e.under [v]).Precedes (axis :: axes) (f.under [v]) := by
  cases e <;> cases f <;> simp_all [Precedes, Event.under, Event.tuple, Earlier]

theorem Event.precedes_of_idxOf {axis : Axis} {axes : List Axis} {e f : Event} {v w : UInt64}
    {s t : Tuple} (first : e.tuple = v :: s) (second : f.tuple = w :: t)
    (before : axis.values.idxOf v < axis.values.idxOf w) : e.Precedes (axis :: axes) f := by
  cases e <;> cases f <;> simp_all [Precedes, Event.tuple, Earlier]

theorem tuple_of_mem_block {accepts : Tuple → Bool} {axes : List Axis} {v : UInt64} {e : Event}
    (member : e ∈ Event.test [v] :: if accepts [v] then
      (events (fun s => accepts (v :: s)) axes).map (Event.under [v]) else []) :
    ∃ s, e.tuple = v :: s := by
  rcases List.mem_cons.mp member with rfl | later
  · exact ⟨[], rfl⟩
  · split at later
    · obtain ⟨f, _, rfl⟩ := List.mem_map.mp later
      exact ⟨f.tuple, Event.tuple_under [v] f⟩
    · cases later

theorem ne_nil_of_test_mem {accepts : Tuple → Bool} {axes : List Axis} {q : Tuple}
    (member : .test q ∈ events accepts axes) : q ≠ [] := by
  rintro rfl
  cases axes with
  | nil => simp [events] at member
  | cons axis axes =>
    obtain ⟨v, _, block⟩ := List.mem_flatMap.mp member
    obtain ⟨s, empty⟩ := tuple_of_mem_block block
    cases empty

/-- The calls are made in dictionary order. -/
theorem events_sorted (accepts : Tuple → Bool) {axes : List Axis}
    (distinct : ∀ axis ∈ axes, axis.values.Nodup) :
    (events accepts axes).Pairwise (Event.Precedes axes) := by
  induction axes generalizing accepts with
  | nil => exact List.pairwise_singleton _ _
  | cons axis axes ih =>
    have later : ∀ axis ∈ axes, axis.values.Nodup :=
      fun a ha => distinct a (List.mem_cons_of_mem axis ha)
    refine List.pairwise_flatMap.mpr ⟨fun v _ => ?_, ?_⟩
    · refine List.pairwise_cons.mpr ⟨?_, ?_⟩
      · -- The value is tested before anything is called with it.
        intro e member
        split at member
        · obtain ⟨f, hf, rfl⟩ := List.mem_map.mp member
          cases f with
          | test q =>
            obtain ⟨w, r, rfl⟩ := List.exists_cons_of_ne_nil (ne_nil_of_test_mem hf)
            simp [Event.Precedes, Event.under, Event.tuple, Earlier]
          | ask t => cases t <;> simp [Event.Precedes, Event.under, Earlier]
        · cases member
      · split
        · exact List.pairwise_map.mpr ((ih _ later).imp fun before => before.under axis v)
        · exact .nil
    · refine (pairwise_idxOf (distinct axis List.mem_cons_self)).imp ?_
      intro v w before e he f hf
      obtain ⟨s, first⟩ := tuple_of_mem_block he
      obtain ⟨t, second⟩ := tuple_of_mem_block hf
      exact Event.precedes_of_idxOf first second before

theorem test_cons_mem_events {accepts : Tuple → Bool} {axis : Axis} {axes : List Axis}
    {v : UInt64} {t : Tuple} :
    .test (v :: t) ∈ events accepts (axis :: axes) ↔ v ∈ axis.values ∧
      (t = [] ∨ accepts [v] = true ∧ .test t ∈ events (fun s => accepts (v :: s)) axes) := by
  constructor
  · intro member
    obtain ⟨w, hw, found⟩ := List.mem_flatMap.mp member
    rcases List.mem_cons.mp found with same | later
    · cases same
      exact ⟨hw, Or.inl rfl⟩
    · split at later
      · rename_i accepted
        obtain ⟨f, hf, same⟩ := List.mem_map.mp later
        cases f with
        | test r =>
          cases same
          exact ⟨hw, Or.inr ⟨accepted, hf⟩⟩
        | ask r => cases same
      · cases later
  · rintro ⟨hv, rest⟩
    refine List.mem_flatMap.mpr ⟨v, hv, ?_⟩
    rcases rest with rfl | ⟨accepted, later⟩
    · exact List.mem_cons_self
    · refine List.mem_cons_of_mem _ ?_
      rw [if_pos accepted]
      exact List.mem_map_of_mem later

/-- Without refusals a prefix within the axes is tested if all shorter ones are accepted. -/
theorem test_mem_events {accepts : Tuple → Bool} {axes : List Axis} {q : Tuple} :
    .test q ∈ events accepts axes ↔
      q ≠ [] ∧ Within axes q ∧ ∀ r, r ≠ [] → r <+: q → r ≠ q → accepts r = true := by
  induction axes generalizing accepts q with
  | nil => cases q <;> simp [events, Within]
  | cons axis axes ih =>
    cases q with
    | nil => exact ⟨fun member => absurd rfl (ne_nil_of_test_mem member), fun h => absurd rfl h.1⟩
    | cons v t =>
      rw [test_cons_mem_events, ih, forall_prefix_cons]
      constructor
      · rintro ⟨hv, rfl | ⟨accepted, _, within, shorter⟩⟩
        · exact ⟨by simp, ⟨hv, by simp [Within]⟩, fun short => absurd rfl short,
            fun r nonempty hr => absurd (List.prefix_nil.mp hr) nonempty⟩
        · exact ⟨by simp, ⟨hv, within⟩, fun _ => accepted, fun r nonempty hr different =>
            shorter r nonempty hr fun same => different (by rw [same])⟩
      · rintro ⟨_, ⟨hv, within⟩, alone, longer⟩
        refine ⟨hv, ?_⟩
        cases t with
        | nil => exact Or.inl rfl
        | cons w t =>
          exact Or.inr ⟨alone (by simp), by simp, within, fun r nonempty hr different =>
            longer r nonempty hr (by simpa using different)⟩

theorem asks_events (accepts : Tuple → Bool) (axes : List Axis) :
    asks (events accepts axes) = (crossProduct axes).filter (passes accepts) := by
  induction axes generalizing accepts with
  | nil => simp [events, asks, Event.asked?, crossProduct, List.filter_cons, passes]
  | cons axis axes ih =>
    simp only [events, crossProduct, asks, List.filterMap_flatMap, List.filter_flatMap]
    congr 1
    funext v
    change asks _ = _
    rw [asks_test]
    split
    · rename_i accepted
      rw [asks_under, ih, List.filter_map]
      simp [Function.comp_def, passes, accepted]
    · rename_i rejected
      simp [List.filter_map, Function.comp_def, passes, rejected, asks]

theorem checked_mid {lo hi width mid : Nat} (below : ¬ hi ≤ lo)
    (hwidth : Checked.sub hi lo = .ok width) (wide : width ≠ 1)
    (hmid : Checked.add 64 lo (width / 2) = .ok mid) : lo < mid ∧ mid < hi := by
  obtain ⟨_, rfl⟩ := Checked.sub_eq_ok.mp hwidth
  obtain ⟨_, rfl⟩ := Checked.add_eq_ok.mp hmid
  omega

/-- The visits of an interval, every difference and every sum of words checked. -/
def overChecked (visit : UInt64 → Enumeration ε α → Enumeration ε α) (lo hi : Nat)
    (walk : Enumeration ε α) : Except Fault (Enumeration ε α) :=
  if walk.refusal.isSome then .ok walk
  else if _below : hi ≤ lo then .ok walk
  else match _hwidth : Checked.sub hi lo with
    | .error fault => .error fault
    | .ok width =>
      if _one : width = 1 then .ok (visit (UInt64.ofNat lo) walk)
      else match _hmid : Checked.add 64 lo (width / 2) with
        | .error fault => .error fault
        | .ok mid => do overChecked visit mid hi (← overChecked visit lo mid walk)
termination_by hi - lo
decreasing_by
  · have := checked_mid _below _hwidth _one _hmid
    omega
  · have := checked_mid _below _hwidth _one _hmid
    omega

/-- Halving never leaves the words: checked arithmetic makes the same visits without a fault. -/
theorem overChecked_eq (visit : UInt64 → Enumeration ε α → Enumeration ε α) (lo hi : UInt64)
    (walk : Enumeration ε α) :
    overChecked visit lo.toNat hi.toNat walk = .ok (overInterval visit lo hi walk) := by
  fun_induction overInterval visit lo hi walk with
  | case1 lo hi walk refused =>
    rw [overChecked, if_pos refused]
  | case2 lo hi walk going wide ihLow ihHigh =>
    have bound := hi.toNat_lt
    have width : Checked.sub hi.toNat lo.toNat = .ok (hi.toNat - lo.toNat) :=
      Checked.sub_eq_ok.mpr ⟨by omega, rfl⟩
    have mid : Checked.add 64 lo.toNat ((hi.toNat - lo.toNat) / 2) =
        .ok (lo + (hi - lo) / 2).toNat :=
      Checked.add_eq_ok.mpr ⟨by omega, toNat_mid (by omega)⟩
    rw [overChecked, if_neg going, dif_neg (by omega)]
    split
    · rename_i fault failed
      rw [width] at failed
      cases failed
    · rename_i found hfound
      rw [width] at hfound
      cases hfound
      rw [dif_neg (by omega)]
      split
      · rename_i fault failed
        rw [mid] at failed
        cases failed
      · rename_i found hfound
        rw [mid] at hfound
        cases hfound
        rw [ihLow]
        exact ihHigh
  | case3 lo hi walk going narrow less =>
    have := UInt64.lt_iff_toNat_lt.mp less
    have width : Checked.sub hi.toNat lo.toNat = .ok 1 :=
      Checked.sub_eq_ok.mpr ⟨by omega, by omega⟩
    rw [overChecked, if_neg going, dif_neg (by omega)]
    split
    · rename_i fault failed
      rw [width] at failed
      cases failed
    · rename_i found hfound
      rw [width] at hfound
      cases hfound
      rw [dif_pos rfl, UInt64.ofNat_toNat]
  | case4 lo hi walk going narrow notLess =>
    have := mt UInt64.lt_iff_toNat_lt.mpr notLess
    rw [overChecked, if_neg going, dif_pos (by omega)]

theorem provided_answered {provide : Tuple → Except ε α} {tuples : List Tuple}
    (answered : ∀ t ∈ tuples, ∃ a, provide t = .ok a) :
    ∃ found, provided provide tuples = .ok found := by
  cases given : provided provide tuples with
  | ok found => exact ⟨found, rfl⟩
  | error cause =>
    obtain ⟨t, member, failed⟩ := Outcome.mapM_eq_error given
    obtain ⟨a, ok⟩ := answered t member
    rw [ok] at failed
    cases failed

theorem provided_refused {provide : Tuple → Except ε α} {before after : List Tuple} {t : Tuple}
    {cause : ε} (answered : ∀ s ∈ before, ∃ a, provide s = .ok a)
    (refused : provide t = .error cause) :
    provided provide (before ++ t :: after) = .error cause := by
  obtain ⟨found, given⟩ := provided_answered answered
  rw [provided_append, given]
  simp [provided, refused, Except.map, bind, Except.bind]

theorem tests_sorted {axes : List Axis} {calls : List Event}
    (sorted : calls.Pairwise (Event.Precedes axes)) : (tests calls).Pairwise (Earlier axes) := by
  refine List.pairwise_filterMap.mpr (sorted.imp ?_)
  intro e f before s hs t ht
  cases e with
  | ask _ => cases hs
  | test q =>
    cases f with
    | ask _ => cases ht
    | test r =>
      cases hs
      cases ht
      exact before

/-- The tests made before a tuple is asked for are those on no later prefix. -/
theorem mem_tests_before {axes : List Axis} {before after : List Event} {t q : Tuple}
    (sorted : (before ++ .ask t :: after).Pairwise (Event.Precedes axes)) :
    q ∈ tests before ↔ .test q ∈ before ++ .ask t :: after ∧ (Earlier axes q t ∨ q = t) := by
  obtain ⟨_, behind, across⟩ := List.pairwise_append.mp sorted
  rw [mem_tests]
  constructor
  · intro member
    exact ⟨List.mem_append_left _ member, across _ member (.ask t) List.mem_cons_self⟩
  · rintro ⟨member, reached⟩
    rcases List.mem_append.mp member with here | later
    · exact here
    · rcases List.mem_cons.mp later with same | later
      · cases same
      · have after : Earlier axes t q := (List.pairwise_cons.mp behind).1 _ later
        rcases reached with before | rfl
        · exact absurd after before.asymm
        · exact absurd after (Earlier.irrefl axes q)

/-- Where the tuples asked for are cut, so are the calls. -/
theorem exists_calls_of_asks {calls : List Event} {before after : List Tuple} {t : Tuple}
    (h : asks calls = before ++ t :: after) :
    ∃ first second, calls = first ++ .ask t :: second ∧ asks first = before := by
  obtain ⟨first, rest, rfl, hfirst, hrest⟩ := List.filterMap_eq_append_iff.mp h
  obtain ⟨skipped, event, second, rfl, none_asked, here, _⟩ := List.filterMap_eq_cons_iff.mp hrest
  cases event with
  | test q => cases here
  | ask u =>
    cases here
    refine ⟨first ++ skipped, second, by simp, ?_⟩
    rw [asks, List.filterMap_append, hfirst, List.filterMap_eq_nil_iff.mpr none_asked,
      List.append_nil]

end Enumeration

/-- The walk over well-formed axes makes their calls. -/
theorem enumerate_eq_replay {ε α : Type} {axes : List Axis} (accepts : Tuple → Bool)
    (provide : Tuple → Except ε α) (valid : Axis.validate axes = .ok ()) :
    enumerate axes accepts provide =
      .ok (Enumeration.replay provide (Enumeration.events accepts axes) .start) := by
  rw [enumerate, valid]
  have same : Enumeration.Event.under [] = id := funext Enumeration.Event.under_nil
  refine congrArg Except.ok ((Enumeration.extend_eq_replay accepts provide axes [] rfl).trans ?_)
  rw [same, List.map_id]
  rfl

namespace Axis

/-- A type axis comes after one of another kind, or it lists a member twice. -/
def Malformed (axes : List Axis) : Prop :=
  (∃ (i j : Nat) (a b : Axis), i < j ∧ axes[i]? = some a ∧ axes[j]? = some b ∧
    a.isType = false ∧ b.isType = true) ∨
  ∃ domain, Axis.type domain ∈ axes ∧ ¬ domain.Nodup

theorem validate_eq_ok_iff {axes : List Axis} : validate axes = .ok () ↔ ¬ Malformed axes := by
  rw [validate, validateFrom_eq_ok_iff, List.pairwise_iff_getElem, Malformed, not_or]
  constructor
  · rintro ⟨_, ordered, distinct⟩
    refine ⟨?_, fun ⟨domain, member, twice⟩ => twice (distinct domain member)⟩
    rintro ⟨i, j, a, b, lt, hi, hj, plain, typed⟩
    obtain ⟨hi', rfl⟩ := List.getElem?_eq_some_iff.mp hi
    obtain ⟨hj', rfl⟩ := List.getElem?_eq_some_iff.mp hj
    rw [ordered i j hi' hj' lt typed] at plain
    cases plain
  · rintro ⟨ordered, distinct⟩
    refine ⟨by simp, ?_, ?_⟩
    · intro i j hi hj lt typed
      by_contra plain
      exact ordered ⟨i, j, _, _, lt, List.getElem?_eq_getElem hi, List.getElem?_eq_getElem hj,
        by simpa using plain, typed⟩
    · intro domain member
      by_contra twice
      exact distinct ⟨domain, member, twice⟩

end Axis

/-- A nonempty prefix within the axes of which every shorter one is accepted. -/
def Testable (accepts : Tuple → Bool) (axes : List Axis) (q : Tuple) : Prop :=
  q ≠ [] ∧ Within axes q ∧ ∀ r, r ≠ [] → r <+: q → r ≠ q → accepts r = true

/-- A full tuple within the axes of which every nonempty prefix is accepted. -/
def Legal (accepts : Tuple → Bool) (axes : List Axis) (t : Tuple) : Prop :=
  Within axes t ∧ t.length = axes.length ∧ ∀ r, r ≠ [] → r <+: t → accepts r = true

end CopyPatch
