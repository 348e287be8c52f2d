import CopyPatch.Frame.Planner
import CopyPatch.Proofs.Outcome
import Mathlib.Data.List.Perm.Basic
import Mathlib.Data.List.Nodup

/-! Everything a frame hands out stays apart. A ledger keeps what the callers of a planner hold:
the temps not given back, the open local variables, and every region ever handed out. It never
looks into the planner, so the planner's own lists are checked against it. -/
namespace CopyPatch

namespace Frame

/-- A stretch of the frame. -/
structure Region where
  start : Nat
  size : Nat
  deriving DecidableEq, Repr

namespace Region

def stop (r : Region) : Nat := r.start + r.size

/-- Whether a byte of the frame lies in the region. -/
def Holds (r : Region) (byte : Nat) : Prop := r.start ≤ byte ∧ byte < r.stop

/-- No byte lies in both regions. -/
def Apart (r s : Region) : Prop := ∀ byte, r.Holds byte → ¬ s.Holds byte

theorem start_le_stop (r : Region) : r.start ≤ r.stop := Nat.le_add_right _ _

theorem apart_of_le {r s : Region} (h : r.stop ≤ s.start ∨ s.stop ≤ r.start) : r.Apart s := by
  intro byte hr hs
  unfold Holds at hr hs
  omega

/-- The region of a temp. -/
def ofTemp (offset : Nat) : Region := ⟨offset, tempSize⟩

end Region

/-- The end of the highest among some regions. -/
def highest (regions : List Region) : Nat := (regions.map Region.stop).foldr max 0

@[simp] theorem highest_cons (r : Region) (regions : List Region) :
    highest (r :: regions) = max r.stop (highest regions) := rfl

/-- An open local variable, with the alignment it was asked for. -/
structure Variable extends Region where
  alignment : Nat
  deriving DecidableEq, Repr

inductive Call where
  | takeTemp
  | freeTemp (offset : Nat)
  | openLocal (size alignment : Nat)
  | closeLocal
  deriving DecidableEq, Repr

structure Ledger where
  planner : Planner
  /-- Temps handed out and not given back. -/
  temps : List Nat
  /-- Open local variables, innermost first. -/
  locals : List Variable
  /-- Every region ever handed out. -/
  handed : List Region
  deriving DecidableEq, Repr

namespace Ledger

def empty : Ledger := ⟨.empty, [], [], []⟩

/-- Make one call and write down its answer. A fault ends the run. -/
def step (l : Ledger) : Call → Except Fault Ledger
  | .takeTemp => match l.planner.takeTemp with
    | (.ok offset, planner) => .ok { l with
        planner, temps := offset :: l.temps, handed := .ofTemp offset :: l.handed }
    | (.error fault, _) => .error fault
  | .freeTemp offset => match l.planner.freeTemp offset with
    | (.ok (), planner) => .ok { l with planner, temps := l.temps.erase offset }
    | (.error fault, _) => .error fault
  | .openLocal size alignment => match l.planner.openLocal size alignment with
    | (.ok offset, planner) => .ok { l with
        planner, locals := ⟨⟨offset, size⟩, alignment⟩ :: l.locals
        handed := ⟨offset, size⟩ :: l.handed }
    | (.error fault, _) => .error fault
  | .closeLocal => match l.planner.closeLocal with
    | (.ok (), planner) => .ok { l with planner, locals := l.locals.drop 1 }
    | (.error fault, _) => .error fault

/-- Make calls one after another. -/
def runFrom (l : Ledger) (calls : List Call) : Except Fault Ledger := calls.foldlM step l

def run (calls : List Call) : Except Fault Ledger := empty.runFrom calls

/-- The regions in use: those of the temps and of the open local variables. -/
def regions (l : Ledger) : List Region :=
  l.temps.map Region.ofTemp ++ l.locals.map Variable.toRegion

end Ledger

theorem alignUp_eq_ok {value alignment aligned : Nat} :
    alignUp value alignment = .ok aligned ↔
      value + alignment < 2 ^ 32 ∧ aligned = (value + alignment - 1) / alignment * alignment := by
  simp only [alignUp, Outcome.bind_eq_ok, Checked.add_eq_ok]
  constructor
  · rintro ⟨raised, ⟨fits, rfl⟩, h⟩
    exact ⟨fits, (Except.ok.inj h).symm⟩
  · rintro ⟨fits, rfl⟩
    exact ⟨value + alignment, ⟨fits, rfl⟩, rfl⟩

theorem alignUp_le {value alignment aligned : Nat} (positive : 0 < alignment)
    (h : alignUp value alignment = .ok aligned) : value ≤ aligned ∧ alignment ∣ aligned := by
  obtain ⟨_, rfl⟩ := alignUp_eq_ok.mp h
  refine ⟨?_, Nat.dvd_mul_left _ _⟩
  have split := Nat.div_add_mod (value + alignment - 1) alignment
  have rest := Nat.mod_lt (value + alignment - 1) positive
  rw [Nat.mul_comm] at split
  omega

theorem pos_of_isPowerOfTwo {n : Nat} (h : isPowerOfTwo n = true) : 0 < n := by
  simp only [isPowerOfTwo, Bool.and_eq_true, decide_eq_true_eq] at h
  omega

/-- Distinct multiples of the temp size are whole temps apart. -/
theorem temps_apart {s t : Nat} (hs : tempSize ∣ s) (ht : tempSize ∣ t) (different : s ≠ t) :
    (Region.ofTemp s).Apart (Region.ofTemp t) := by
  apply Region.apart_of_le
  obtain ⟨a, rfl⟩ := hs
  obtain ⟨b, rfl⟩ := ht
  have : a ≠ b := fun same => different (by rw [same])
  simp only [Region.ofTemp, Region.stop, tempSize]
  omega

/-- The open variables and the saved tops under a given top, clear of the given slots. Each variable
starts at or above the top that was saved when it was opened and ends below the top that follows. A
slot lies below that saved top or above the variable, whether it is live or idle. -/
inductive Nested (slots : List Nat) : Nat → List Variable → List Nat → Prop
  | bottom (top : Nat) : Nested slots top [] []
  | inside {top base : Nat} {v : Variable} {locals : List Variable} {bases : List Nat}
      (above : base ≤ v.start) (below : v.stop ≤ top) (aligned : v.alignment ∣ v.start)
      (clear : ∀ s ∈ slots, s + tempSize ≤ base ∨ v.stop ≤ s)
      (outer : Nested slots base locals bases) : Nested slots top (v :: locals) (base :: bases)

namespace Nested

variable {slots : List Nat} {top : Nat} {locals : List Variable} {bases : List Nat}

theorem raise (h : Nested slots top locals bases) {higher : Nat} (le : top ≤ higher) :
    Nested slots higher locals bases := by
  cases h with
  | bottom => exact .bottom higher
  | inside above below aligned clear outer =>
    exact .inside above (Nat.le_trans below le) aligned clear outer

theorem fewer (h : Nested slots top locals bases) {kept : List Nat}
    (sub : ∀ s ∈ kept, s ∈ slots) : Nested kept top locals bases := by
  induction h with
  | bottom top => exact .bottom top
  | inside above below aligned clear _ ih =>
    exact .inside above below aligned (fun s hs => clear s (sub s hs)) ih

/-- A slot above the top is clear of every open variable. -/
theorem addSlot (h : Nested slots top locals bases) {slot : Nat} (le : top ≤ slot) :
    Nested (slot :: slots) top locals bases := by
  induction h with
  | bottom top => exact .bottom top
  | @inside _ _ v _ _ above below aligned clear _ ih =>
    have low := v.start_le_stop
    refine .inside above below aligned ?_ (ih (by omega))
    intro s hs
    rcases List.mem_cons.mp hs with rfl | hs
    · exact Or.inr (Nat.le_trans below le)
    · exact clear s hs

theorem stop_le (h : Nested slots top locals bases) {v : Variable} (hv : v ∈ locals) :
    v.stop ≤ top := by
  induction h with
  | bottom => cases hv
  | @inside top base w _ _ above below _ _ _ ih =>
    rcases List.mem_cons.mp hv with rfl | hv
    · exact below
    · have inner : base ≤ w.stop := Nat.le_trans above w.start_le_stop
      exact Nat.le_trans (ih hv) (Nat.le_trans inner below)

theorem aligned (h : Nested slots top locals bases) {v : Variable} (hv : v ∈ locals) :
    v.alignment ∣ v.start := by
  induction h with
  | bottom => cases hv
  | inside _ _ aligned _ _ ih =>
    rcases List.mem_cons.mp hv with rfl | hv
    · exact aligned
    · exact ih hv

theorem locals_apart (h : Nested slots top locals bases) :
    (locals.map Variable.toRegion).Pairwise Region.Apart := by
  induction h with
  | bottom => exact .nil
  | inside above _ _ _ outer ih =>
    refine List.pairwise_cons.mpr ⟨?_, ih⟩
    intro r hr
    obtain ⟨w, hw, rfl⟩ := List.mem_map.mp hr
    exact Region.apart_of_le (Or.inr (Nat.le_trans (outer.stop_le hw) above))

theorem slot_apart (h : Nested slots top locals bases) {slot : Nat} (hs : slot ∈ slots)
    {v : Variable} (hv : v ∈ locals) : (Region.ofTemp slot).Apart v.toRegion := by
  induction h with
  | bottom => cases hv
  | inside above _ _ clear _ ih =>
    rcases List.mem_cons.mp hv with rfl | hv
    · apply Region.apart_of_le
      rcases clear slot hs with low | high
      · exact Or.inl (Nat.le_trans low above)
      · exact Or.inr high
    · exact ih hv

end Nested

/-- The slots a planner knows, in use or not. -/
def slots (p : Planner) : List Nat := p.live ++ p.idle

/-- What holds between a planner and the ledger of its callers. -/
structure Ledger.Sound (l : Ledger) : Prop where
  live : l.planner.live = l.temps
  distinct : (slots l.planner).Nodup
  whole : ∀ s ∈ slots l.planner, tempSize ∣ s
  under : ∀ s ∈ slots l.planner, s + tempSize ≤ l.planner.top
  nested : Nested (slots l.planner) l.planner.top l.locals l.planner.bases
  topLe : l.planner.top ≤ l.planner.peak
  peak : l.planner.peak = highest l.handed

theorem Ledger.empty_sound : Ledger.empty.Sound where
  live := rfl
  distinct := List.nodup_nil
  whole := by intro s hs; cases hs
  under := by intro s hs; cases hs
  nested := .bottom 0
  topLe := Nat.le_refl 0
  peak := rfl

theorem grow_eq_ok {p q : Planner} {offset : Nat} (h : p.grow = .ok (offset, q)) :
    alignUp p.top tempSize = .ok offset ∧
      q = { p with top := offset + tempSize, peak := max p.peak (offset + tempSize) } := by
  simp only [Planner.grow, Outcome.bind_eq_ok, Checked.add_eq_ok] at h
  obtain ⟨slot, aligned, top, ⟨_, rfl⟩, h⟩ := h
  cases h
  exact ⟨aligned, rfl⟩

theorem grow_eq_error {p : Planner} {fault : Fault} (h : p.grow = .error fault) :
    fault = .sumOverflow := by
  simp only [Planner.grow, alignUp, Outcome.bind_eq_error] at h
  rcases h with (h | ⟨_, _, h⟩) | ⟨_, _, h | ⟨_, _, h⟩⟩
  · exact Checked.add_eq_error h
  · cases h
  · exact Checked.add_eq_error h
  · cases h

theorem takeTemp_eq_ok {p q : Planner} {offset : Nat} (h : p.takeTemp = (.ok offset, q)) :
    (∃ rest, p.idle = offset :: rest ∧ q = { p with idle := rest, live := offset :: p.live }) ∨
    (alignUp p.top tempSize = .ok offset ∧
      q = { p with top := offset + tempSize, peak := max p.peak (offset + tempSize),
                   live := offset :: p.live }) := by
  unfold Planner.takeTemp at h
  split at h
  · rename_i slot rest idle
    unfold Planner.occupy at h
    split at h
    · cases h
    · cases h
      exact Or.inl ⟨rest, idle, rfl⟩
  · split at h
    · rename_i slot grown hgrow
      unfold Planner.occupy at h
      split at h
      · cases h
      · cases h
        obtain ⟨aligned, rfl⟩ := grow_eq_ok hgrow
        exact Or.inr ⟨aligned, rfl⟩
    · cases h

theorem freeTemp_eq_ok {p q : Planner} {offset : Nat} (h : p.freeTemp offset = (.ok (), q)) :
    offset ∈ p.live ∧
      q = { p with live := p.live.erase offset, idle := offset :: p.idle } := by
  unfold Planner.freeTemp at h
  split at h
  · cases h
  · split at h
    · rename_i member
      cases h
      exact ⟨member, rfl⟩
    · cases h

theorem openLocal_eq_ok {p q : Planner} {size alignment offset : Nat}
    (h : p.openLocal size alignment = (.ok offset, q)) :
    p.live = [] ∧ isPowerOfTwo alignment = true ∧ alignUp p.top alignment = .ok offset ∧
      q = { p with top := offset + size, peak := max p.peak (offset + size),
                   bases := p.top :: p.bases } := by
  unfold Planner.openLocal at h
  split at h
  · cases h
  · rename_i quiet
    split at h
    · cases h
    · rename_i power
      split at h
      · rename_i opened start top found
        simp only [Outcome.bind_eq_ok, Checked.add_eq_ok] at found
        obtain ⟨_, aligned, _, ⟨_, rfl⟩, found⟩ := found
        cases found
        cases h
        exact ⟨by simpa using quiet, by simpa using power, aligned, rfl⟩
      · cases h

theorem closeLocal_eq_ok {p q : Planner} (h : p.closeLocal = (.ok (), q)) :
    p.live = [] ∧ ∃ base rest, p.bases = base :: rest ∧
      q = { p with top := base, bases := rest,
                   idle := p.idle.filter fun offset => offset + tempSize ≤ base } := by
  unfold Planner.closeLocal at h
  split at h
  · cases h
  · rename_i quiet
    split at h
    · cases h
    · rename_i base rest bases
      cases h
      exact ⟨by simpa using quiet, base, rest, bases, rfl⟩

namespace Ledger

namespace Sound

variable {l : Ledger}

/-- Handing out an idle slot moves it from one list to the other. -/
theorem takeIdle (sound : l.Sound) {offset : Nat} {rest : List Nat}
    (idle : l.planner.idle = offset :: rest) :
    Sound { l with
      planner := { l.planner with idle := rest, live := offset :: l.planner.live }
      temps := offset :: l.temps
      handed := .ofTemp offset :: l.handed } := by
  have moved : (slots { l.planner with idle := rest, live := offset :: l.planner.live }).Perm
      (slots l.planner) := by
    simp only [slots, idle, List.cons_append]
    exact List.perm_middle.symm
  have known : offset ∈ slots l.planner := moved.subset List.mem_cons_self
  refine ⟨congrArg (offset :: ·) sound.live, moved.nodup_iff.mpr sound.distinct,
    fun s hs => sound.whole s (moved.subset hs), fun s hs => sound.under s (moved.subset hs),
    sound.nested.fewer fun s hs => moved.subset hs, sound.topLe, ?_⟩
  -- The slot was handed out before, so it does not reach beyond the peak.
  have low : (Region.ofTemp offset).stop ≤ highest l.handed := by
    rw [← sound.peak]
    exact Nat.le_trans (sound.under offset known) sound.topLe
  rw [highest_cons, Nat.max_eq_right low]
  exact sound.peak

/-- A slot grown at the top lies above everything else. -/
theorem takeGrown (sound : l.Sound) {offset : Nat}
    (aligned : alignUp l.planner.top tempSize = .ok offset) :
    Sound { l with
      planner := { l.planner with
        top := offset + tempSize
        peak := max l.planner.peak (offset + tempSize)
        live := offset :: l.planner.live }
      temps := offset :: l.temps
      handed := .ofTemp offset :: l.handed } := by
  obtain ⟨above, whole⟩ := alignUp_le (by decide) aligned
  have fresh : offset ∉ slots l.planner := by
    intro known
    have := sound.under offset known
    simp only [tempSize] at this
    omega
  refine ⟨congrArg (offset :: ·) sound.live, List.nodup_cons.mpr ⟨fresh, sound.distinct⟩,
    ?_, ?_, (sound.nested.addSlot above).raise (Nat.le_add_right_of_le above),
    Nat.le_max_right _ _, ?_⟩
  · intro s hs
    rcases List.mem_cons.mp hs with rfl | hs
    · exact whole
    · exact sound.whole s hs
  · intro s hs
    rcases List.mem_cons.mp hs with rfl | hs
    · exact Nat.le_refl _
    · have := sound.under s hs
      simp only at this ⊢
      omega
  · rw [highest_cons, ← sound.peak]
    exact Nat.max_comm _ _

theorem freed (sound : l.Sound) {offset : Nat} (member : offset ∈ l.planner.live) :
    Sound { l with
      planner := { l.planner with
        live := l.planner.live.erase offset, idle := offset :: l.planner.idle }
      temps := l.temps.erase offset } := by
  have moved : (slots { l.planner with
      live := l.planner.live.erase offset, idle := offset :: l.planner.idle }).Perm
      (slots l.planner) := by
    refine List.perm_middle.trans ?_
    exact (List.perm_cons_erase member).symm.append_right l.planner.idle
  exact ⟨congrArg (List.erase · offset) sound.live, moved.nodup_iff.mpr sound.distinct,
    fun s hs => sound.whole s (moved.subset hs), fun s hs => sound.under s (moved.subset hs),
    sound.nested.fewer fun s hs => moved.subset hs, sound.topLe, sound.peak⟩

/-- A variable opens above every slot, since all slots lie below the top. -/
theorem opened (sound : l.Sound) {size alignment offset : Nat}
    (power : isPowerOfTwo alignment = true)
    (aligned : alignUp l.planner.top alignment = .ok offset) :
    Sound { l with
      planner := { l.planner with
        top := offset + size
        peak := max l.planner.peak (offset + size)
        bases := l.planner.top :: l.planner.bases }
      locals := ⟨⟨offset, size⟩, alignment⟩ :: l.locals
      handed := ⟨offset, size⟩ :: l.handed } := by
  obtain ⟨above, divides⟩ := alignUp_le (pos_of_isPowerOfTwo power) aligned
  refine ⟨sound.live, sound.distinct, sound.whole, ?_, ?_, Nat.le_max_right _ _, ?_⟩
  · intro s hs
    have := sound.under s hs
    simp only at this ⊢
    omega
  · exact .inside above (Nat.le_refl _) divides (fun s hs => Or.inl (sound.under s hs))
      sound.nested
  · rw [highest_cons, ← sound.peak]
    exact Nat.max_comm _ _

/-- Closing a variable gives its saved top back, and the idle slots above it are forgotten. -/
theorem closed (sound : l.Sound) {base : Nat} {rest : List Nat} (quiet : l.planner.live = [])
    (bases : l.planner.bases = base :: rest) :
    Sound { l with
      planner := { l.planner with
        top := base, bases := rest
        idle := l.planner.idle.filter fun offset => offset + tempSize ≤ base }
      locals := l.locals.drop 1 } := by
  have kept : ∀ s, s ∈ slots { l.planner with
      top := base, bases := rest
      idle := l.planner.idle.filter fun offset => offset + tempSize ≤ base } →
      s ∈ slots l.planner ∧ s + tempSize ≤ base := by
    intro s hs
    simp only [slots, quiet, List.nil_append, List.mem_filter, decide_eq_true_eq] at hs ⊢
    exact hs
  have distinct : (slots l.planner).Nodup := sound.distinct
  have nested := sound.nested
  rw [bases] at nested
  cases hlocals : l.locals with
  | nil => rw [hlocals] at nested; cases nested
  | cons v outer =>
    rw [hlocals] at nested
    cases nested with
    | inside above below _ _ outside =>
      refine ⟨sound.live, ?_, fun s hs => sound.whole s (kept s hs).1,
        fun s hs => (kept s hs).2, outside.fewer fun s hs => (kept s hs).1, ?_, sound.peak⟩
      · simp only [slots, quiet, List.nil_append] at distinct ⊢
        exact distinct.filter _
      · have low := v.start_le_stop
        have := sound.topLe
        simp only at this ⊢
        omega

end Sound

/-- What a call that answers writes down. -/
theorem step_cases {l next : Ledger} {call : Call} (h : l.step call = .ok next) :
    (∃ offset planner, l.planner.takeTemp = (.ok offset, planner) ∧
      next = { l with
        planner, temps := offset :: l.temps, handed := .ofTemp offset :: l.handed }) ∨
    (∃ offset planner, l.planner.freeTemp offset = (.ok (), planner) ∧
      next = { l with planner, temps := l.temps.erase offset }) ∨
    (∃ size alignment offset planner,
      l.planner.openLocal size alignment = (.ok offset, planner) ∧
      next = { l with
        planner, locals := ⟨⟨offset, size⟩, alignment⟩ :: l.locals
        handed := ⟨offset, size⟩ :: l.handed }) ∨
    ∃ planner, l.planner.closeLocal = (.ok (), planner) ∧
      next = { l with planner, locals := l.locals.drop 1 } := by
  cases call with
  | takeTemp =>
    simp only [step] at h
    split at h
    · rename_i offset planner taken
      exact Or.inl ⟨offset, planner, taken, (Except.ok.inj h).symm⟩
    · cases h
  | freeTemp offset =>
    simp only [step] at h
    split at h
    · rename_i planner given
      exact Or.inr (Or.inl ⟨offset, planner, given, (Except.ok.inj h).symm⟩)
    · cases h
  | openLocal size alignment =>
    simp only [step] at h
    split at h
    · rename_i offset planner found
      exact Or.inr (Or.inr (Or.inl ⟨size, alignment, offset, planner, found,
        (Except.ok.inj h).symm⟩))
    · cases h
  | closeLocal =>
    simp only [step] at h
    split at h
    · rename_i planner found
      exact Or.inr (Or.inr (Or.inr ⟨planner, found, (Except.ok.inj h).symm⟩))
    · cases h

theorem step_sound {l next : Ledger} {call : Call} (sound : l.Sound)
    (h : l.step call = .ok next) : next.Sound := by
  rcases step_cases h with ⟨offset, planner, taken, rfl⟩ | ⟨offset, planner, given, rfl⟩ |
    ⟨size, alignment, offset, planner, found, rfl⟩ | ⟨planner, found, rfl⟩
  · rcases takeTemp_eq_ok taken with ⟨rest, idle, rfl⟩ | ⟨aligned, rfl⟩
    · exact sound.takeIdle idle
    · exact sound.takeGrown aligned
  · obtain ⟨member, rfl⟩ := freeTemp_eq_ok given
    exact sound.freed member
  · obtain ⟨_, power, aligned, rfl⟩ := openLocal_eq_ok found
    exact sound.opened power aligned
  · obtain ⟨quiet, base, rest, bases, rfl⟩ := closeLocal_eq_ok found
    exact sound.closed quiet bases

/-- The regions handed out are never taken back from the record. -/
theorem step_highest_le {l next : Ledger} {call : Call} (h : l.step call = .ok next) :
    highest l.handed ≤ highest next.handed := by
  rcases step_cases h with ⟨_, _, _, rfl⟩ | ⟨_, _, _, rfl⟩ | ⟨_, _, _, _, _, rfl⟩ | ⟨_, _, rfl⟩
  · exact Nat.le_max_right _ _
  · exact Nat.le_refl _
  · exact Nat.le_max_right _ _
  · exact Nat.le_refl _

theorem runFrom_sound {l last : Ledger} {calls : List Call} (sound : l.Sound)
    (h : l.runFrom calls = .ok last) : last.Sound := by
  induction calls generalizing l with
  | nil => cases h; exact sound
  | cons call rest ih =>
    obtain ⟨next, hstep, hrest⟩ := Outcome.bind_eq_ok.mp h
    exact ih (step_sound sound hstep) hrest

theorem runFrom_highest_le {l last : Ledger} {calls : List Call}
    (h : l.runFrom calls = .ok last) : highest l.handed ≤ highest last.handed := by
  induction calls generalizing l with
  | nil => cases h; exact Nat.le_refl _
  | cons call rest ih =>
    obtain ⟨next, hstep, hrest⟩ := Outcome.bind_eq_ok.mp h
    exact Nat.le_trans (step_highest_le hstep) (ih hrest)

namespace Sound

variable {l : Ledger}

theorem regions_apart (sound : l.Sound) : l.regions.Pairwise Region.Apart := by
  have live : ∀ t ∈ l.temps, t ∈ slots l.planner := fun t ht =>
    List.mem_append_left _ (sound.live ▸ ht)
  have distinct : l.temps.Nodup := sound.live ▸ (List.nodup_append.mp sound.distinct).1
  refine List.pairwise_append.mpr ⟨?_, sound.nested.locals_apart, ?_⟩
  · refine List.pairwise_map.mpr (distinct.imp_of_mem ?_)
    intro s t hs ht different
    exact temps_apart (sound.whole s (live s hs)) (sound.whole t (live t ht)) different
  · intro r hr q hq
    obtain ⟨t, ht, rfl⟩ := List.mem_map.mp hr
    obtain ⟨v, hv, rfl⟩ := List.mem_map.mp hq
    exact sound.nested.slot_apart (live t ht) hv

theorem region_stop_le (sound : l.Sound) {r : Region} (hr : r ∈ l.regions) :
    r.stop ≤ l.planner.peak := by
  refine Nat.le_trans ?_ sound.topLe
  rcases List.mem_append.mp hr with hr | hr
  · obtain ⟨t, ht, rfl⟩ := List.mem_map.mp hr
    exact sound.under t (List.mem_append_left _ (sound.live ▸ ht))
  · obtain ⟨v, hv, rfl⟩ := List.mem_map.mp hr
    exact sound.nested.stop_le hv

theorem takeTemp_fresh (sound : l.Sound) (offset : Nat) :
    l.planner.takeTemp.1 ≠ .error (.slotHandedOutTwice offset) := by
  unfold Planner.takeTemp
  split
  · rename_i slot rest idle
    have fresh : slot ∉ l.planner.live := by
      intro member
      have disjoint := (List.nodup_append.mp sound.distinct).2.2
      exact disjoint slot member slot (idle ▸ List.mem_cons_self) rfl
    simp [Planner.occupy, fresh]
  · split
    · rename_i slot grown hgrow
      obtain ⟨aligned, rfl⟩ := grow_eq_ok hgrow
      have above := (alignUp_le (by decide) aligned).1
      have fresh : slot ∉ l.planner.live := by
        intro member
        have := sound.under slot (List.mem_append_left _ member)
        simp only [tempSize] at this
        omega
      simp [Planner.occupy, fresh]
    · rename_i fault hgrow
      simp [grow_eq_error hgrow]

theorem freeTemp_fails_iff (sound : l.Sound) (offset : Nat) :
    (∃ fault, (l.planner.freeTemp offset).1 = .error fault) ↔ offset ∉ l.temps := by
  rw [← sound.live]
  unfold Planner.freeTemp
  split
  · rename_i none
    simp [none]
  · split
    · rename_i member
      simp [member]
    · rename_i idle
      simp [idle]

end Sound

/-- There is a frame size exactly if the highest end can be raised by a temp in 32 bits, and it is
the highest end rounded up to whole temps. -/
theorem Sound.frameSize_eq_ok {l : Ledger} (sound : l.Sound) {size : Nat} :
    l.planner.frameSize = .ok size ↔
      highest l.handed + 8 < 2 ^ 32 ∧ size = (highest l.handed + 7) / 8 * 8 := by
  rw [← sound.peak]
  exact alignUp_eq_ok

theorem Sound.frameSize_of_le {l later : Ledger} (sound : l.Sound) (laterSound : later.Sound)
    (le : highest l.handed ≤ highest later.handed) {size : Nat}
    (h : later.planner.frameSize = .ok size) :
    ∃ smaller, l.planner.frameSize = .ok smaller ∧ smaller ≤ size := by
  obtain ⟨fits, rfl⟩ := laterSound.frameSize_eq_ok.mp h
  exact ⟨(highest l.handed + 7) / 8 * 8, sound.frameSize_eq_ok.mpr ⟨by omega, rfl⟩, by omega⟩

end Ledger

/-- In every state that calls without a fault reach, the regions in use are apart and lie in the
frame, temps and local variables are aligned, no slot is handed out twice, exactly the temps in
use can be given back, and the frame size is the highest end ever handed out in whole temps, which
no earlier state exceeds. It is there exactly if that end can be raised by a temp in 32 bits. -/
theorem regions_stay_apart {before after : List Call} {earlier l : Ledger}
    (hbefore : Ledger.run before = .ok earlier) (hafter : earlier.runFrom after = .ok l) :
    l.regions.Pairwise Region.Apart ∧
    (∀ t ∈ l.temps, 8 ∣ t) ∧ (∀ v ∈ l.locals, v.alignment ∣ v.start) ∧
    (∀ offset, l.planner.takeTemp.1 ≠ .error (.slotHandedOutTwice offset)) ∧
    (∀ offset, (∃ fault, (l.planner.freeTemp offset).1 = .error fault) ↔ offset ∉ l.temps) ∧
    (∀ size, l.planner.frameSize = .ok size ↔
      highest l.handed + 8 < 2 ^ 32 ∧ size = (highest l.handed + 7) / 8 * 8) ∧
    ∀ size, l.planner.frameSize = .ok size →
      (∀ r ∈ l.regions, r.stop ≤ size) ∧ 8 ∣ size ∧
      size = (highest l.handed + 7) / 8 * 8 ∧
      ∃ earlierSize, earlier.planner.frameSize = .ok earlierSize ∧ earlierSize ≤ size := by
  have earlierSound := Ledger.runFrom_sound Ledger.empty_sound hbefore
  have sound := Ledger.runFrom_sound earlierSound hafter
  refine ⟨sound.regions_apart, ?_, fun v hv => sound.nested.aligned hv, sound.takeTemp_fresh,
    sound.freeTemp_fails_iff, fun size => sound.frameSize_eq_ok, ?_⟩
  · intro t ht
    exact sound.whole t (List.mem_append_left _ (sound.live ▸ ht))
  · intro size hsize
    obtain ⟨_, exact⟩ := sound.frameSize_eq_ok.mp hsize
    have smaller := earlierSound.frameSize_of_le sound (Ledger.runFrom_highest_le hafter) hsize
    refine ⟨?_, exact ▸ Nat.dvd_mul_left _ _, exact, smaller⟩
    intro r hr
    have := sound.region_stop_le hr
    rw [sound.peak] at this
    omega

/-- Two idle temps and a local variable above them. -/
def openedLedger : Ledger :=
  ⟨⟨44, 44, [8, 0], [], [16]⟩, [], [⟨⟨32, 12⟩, 32⟩], [⟨32, 12⟩, ⟨8, 8⟩, ⟨0, 8⟩]⟩

/-- Both temps reused below the variable and a third grown above it. -/
def filledLedger : Ledger :=
  ⟨⟨56, 56, [], [48, 0, 8], [16]⟩, [48, 0, 8], [⟨⟨32, 12⟩, 32⟩],
    [⟨48, 8⟩, ⟨0, 8⟩, ⟨8, 8⟩, ⟨32, 12⟩, ⟨8, 8⟩, ⟨0, 8⟩]⟩

/-- All temps given back, the variable closed, and one temp taken again. -/
def closedLedger : Ledger :=
  ⟨⟨16, 56, [8], [0], []⟩, [0], [],
    [⟨0, 8⟩, ⟨48, 8⟩, ⟨0, 8⟩, ⟨8, 8⟩, ⟨32, 12⟩, ⟨8, 8⟩, ⟨0, 8⟩]⟩

/-- The variable ends within a temp; the third temp raises the frame, and closing the variable does
not lower it. -/
theorem regions_stay_apart_nested :
    Ledger.run [.takeTemp, .takeTemp, .freeTemp 0, .freeTemp 8, .openLocal 12 32] =
      .ok openedLedger ∧
    openedLedger.runFrom [.takeTemp, .takeTemp, .takeTemp] = .ok filledLedger ∧
    filledLedger.runFrom [.freeTemp 48, .freeTemp 8, .freeTemp 0, .closeLocal, .takeTemp] =
      .ok closedLedger ∧
    filledLedger.regions = [⟨48, 8⟩, ⟨0, 8⟩, ⟨8, 8⟩, ⟨32, 12⟩] ∧
    filledLedger.regions.Pairwise Region.Apart ∧
    openedLedger.planner.frameSize = .ok 48 ∧ filledLedger.planner.frameSize = .ok 56 ∧
    closedLedger.planner.frameSize = .ok 56 ∧ ∀ r ∈ filledLedger.regions, r.stop ≤ 56 := by
  have opened : Ledger.run [.takeTemp, .takeTemp, .freeTemp 0, .freeTemp 8, .openLocal 12 32] =
      .ok openedLedger := by decide
  have filled : openedLedger.runFrom [.takeTemp, .takeTemp, .takeTemp] = .ok filledLedger := by
    decide
  have closed : openedLedger.runFrom [.takeTemp, .takeTemp, .takeTemp, .freeTemp 48, .freeTemp 8,
      .freeTemp 0, .closeLocal, .takeTemp] = .ok closedLedger := by decide
  have size : filledLedger.planner.frameSize = .ok 56 := by decide
  obtain ⟨apart, _, _, _, _, _, frame⟩ := regions_stay_apart opened filled
  obtain ⟨_, _, _, _, _, last, _⟩ := regions_stay_apart opened closed
  exact ⟨opened, filled, by decide, by decide, apart, by decide, size,
    (last 56).mpr (by decide), (frame 56 size).1⟩

end Frame

end CopyPatch
