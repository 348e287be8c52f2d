import CopyPatch.Fault
import Mathlib.Data.List.Forall2

/-! Reading an answer backwards: from the answer of a composed computation to the answers of its
parts, and from its error to the part that failed. -/
namespace CopyPatch

theorem exists_right {α β : Type} {R : α → β → Prop} {as : List α} {bs : List β}
    (paired : List.Forall₂ R as bs) {a : α} (member : a ∈ as) : ∃ b ∈ bs, R a b := by
  obtain ⟨i, inside, rfl⟩ := List.getElem_of_mem member
  have within : i < bs.length := paired.length_eq ▸ inside
  exact ⟨bs[i], List.getElem_mem within, paired.get inside within⟩

theorem exists_left {α β : Type} {R : α → β → Prop} {as : List α} {bs : List β}
    (paired : List.Forall₂ R as bs) {b : β} (member : b ∈ bs) : ∃ a ∈ as, R a b :=
  exists_right (R := flip R) paired.flip member

theorem forall₂_trans {α β γ : Type} {R : α → β → Prop} {S : β → γ → Prop} {T : α → γ → Prop}
    (join : ∀ a b c, R a b → S b c → T a c) {as : List α} {bs : List β} {cs : List γ}
    (first : List.Forall₂ R as bs) (second : List.Forall₂ S bs cs) : List.Forall₂ T as cs := by
  induction first generalizing cs with
  | nil => cases second; exact .nil
  | cons related _ ih =>
    cases second with
    | cons one rest => exact .cons (join _ _ _ related one) (ih rest)

/-- Sorting keeps pairs together when both orders compare them alike. -/
theorem forall₂_mergeSort {α β : Type} {R : α → β → Prop} {r : α → α → Bool} {s : β → β → Bool}
    (alike : ∀ a b c d, R a b → R c d → r a c = s b d) {as : List α} {bs : List β}
    (paired : List.Forall₂ R as bs) : List.Forall₂ R (as.mergeSort r) (bs.mergeSort s) := by
  obtain ⟨lengths, related⟩ := List.forall₂_iff_zip.mp paired
  have left : (as.zip bs).map Prod.fst = as := List.map_fst_zip (Nat.le_of_eq lengths)
  have right : (as.zip bs).map Prod.snd = bs := List.map_snd_zip (Nat.le_of_eq lengths.symm)
  have first : ((as.zip bs).mergeSort fun p q => r p.1 q.1).map Prod.fst =
      ((as.zip bs).map Prod.fst).mergeSort r := List.map_mergeSort fun _ _ _ _ => rfl
  have second : ((as.zip bs).mergeSort fun p q => r p.1 q.1).map Prod.snd =
      ((as.zip bs).map Prod.snd).mergeSort s :=
    List.map_mergeSort fun p hp q hq => alike _ _ _ _ (related hp) (related hq)
  rw [left] at first
  rw [right] at second
  rw [← first, ← second, List.forall₂_map_left_iff, List.forall₂_map_right_iff, List.forall₂_same]
  intro p member
  exact related (List.mem_mergeSort.mp member)

theorem forall_iff_of_forall₂ {α β : Type} {P : α → Prop} {Q : β → Prop} {as : List α}
    {bs : List β} (paired : List.Forall₂ (fun a b => P a ↔ Q b) as bs) :
    (∀ a ∈ as, P a) ↔ ∀ b ∈ bs, Q b := by
  induction paired with
  | nil => simp
  | cons same _ ih => rw [List.forall_mem_cons, List.forall_mem_cons, same, ih]

theorem map_eq_of_forall₂ {α β γ : Type} {f : α → γ} {g : β → γ} {as : List α} {bs : List β}
    (paired : List.Forall₂ (fun a b => f a = g b) as bs) : as.map f = bs.map g := by
  induction paired with
  | nil => rfl
  | cons same _ ih => rw [List.map_cons, List.map_cons, same, ih]

theorem forall₂_of_zip {α β γ : Type} {R : α → β → Prop} {S : α × β → γ → Prop} {as : List α}
    {bs : List β} {cs : List γ} (first : List.Forall₂ R as bs)
    (second : List.Forall₂ S (as.zip bs) cs) :
    List.Forall₂ (fun a c => ∃ b, R a b ∧ S (a, b) c) as cs := by
  induction first generalizing cs with
  | nil => cases second; exact .nil
  | cons related _ ih =>
    cases second with
    | cons one rest => exact .cons ⟨_, related, one⟩ (ih rest)

theorem exists_of_mem_zip {α β γ : Type} {R : α → β → Prop} {f : α → γ} {as : List α} {bs : List β}
    (paired : List.Forall₂ R as bs) {e : β × γ} (member : e ∈ bs.zip (as.map f)) :
    ∃ a ∈ as, f a = e.2 ∧ R a e.1 := by
  induction paired with
  | nil => cases member
  | cons related _ ih =>
    rcases List.mem_cons.1 member with rfl | member
    · exact ⟨_, List.mem_cons_self, rfl, related⟩
    · obtain ⟨a, inside, found⟩ := ih member
      exact ⟨a, List.mem_cons_of_mem _ inside, found⟩

theorem mem_of_lookup {κ α : Type} [BEq κ] [LawfulBEq κ] {entries : List (κ × α)} {key : κ} {a : α}
    (found : entries.lookup key = some a) : (key, a) ∈ entries := by
  obtain ⟨before, after, split, _⟩ := List.lookup_eq_some_iff.mp found
  exact split ▸ List.mem_append_right _ List.mem_cons_self

theorem lookup_filter {κ α : Type} [DecidableEq κ] [BEq κ] [LawfulBEq κ]
    (entries : List (κ × α)) (removed key : κ) :
    (entries.filter (·.1 ≠ removed)).lookup key =
      if key = removed then none else entries.lookup key := by
  induction entries with
  | nil => simp
  | cons e rest ih =>
    by_cases gone : e.1 = removed
    · rw [List.filter_cons_of_neg (by simpa using gone), ih]
      by_cases here : key = removed
      · rw [if_pos here, if_pos here]
      · have other : (key == e.1) = false := by simpa [gone] using here
        rw [if_neg here, if_neg here, List.lookup_cons, other]
    · rw [List.filter_cons_of_pos (by simpa using gone), List.lookup_cons, List.lookup_cons, ih]
      by_cases here : key = removed
      · have other : (key == e.1) = false := by simpa [here] using Ne.symm gone
        rw [other, if_pos here]
      · rw [if_neg here, if_neg here]

namespace Outcome

variable {ε δ α β : Type}

theorem bind_eq_ok {run : Except ε α} {next : α → Except ε β} {b : β} :
    (run >>= next) = .ok b ↔ ∃ a, run = .ok a ∧ next a = .ok b := by
  cases run with
  | error e =>
    constructor
    · intro h; cases h
    · rintro ⟨_, h, _⟩; cases h
  | ok a =>
    constructor
    · intro h; exact ⟨a, rfl, h⟩
    · rintro ⟨_, h, hb⟩; cases h; exact hb

theorem bind_eq_error {run : Except ε α} {next : α → Except ε β} {e : ε} :
    (run >>= next) = .error e ↔ run = .error e ∨ ∃ a, run = .ok a ∧ next a = .error e := by
  cases run with
  | error d =>
    constructor
    · intro h; cases h; exact Or.inl rfl
    · rintro (h | ⟨_, h, _⟩)
      · cases h; rfl
      · cases h
  | ok a =>
    constructor
    · intro h; exact Or.inr ⟨a, rfl, h⟩
    · rintro (h | ⟨_, h, he⟩)
      · cases h
      · cases h; exact he

theorem map_eq_ok {run : Except ε α} {f : α → β} {b : β} :
    run.map f = .ok b ↔ ∃ a, run = .ok a ∧ f a = b := by
  cases run <;> simp [Except.map]

theorem map_eq_error {run : Except ε α} {f : α → β} {e : ε} :
    run.map f = .error e ↔ run = .error e := by
  cases run <;> simp [Except.map]

theorem map_bind_congr {γ : Type} {run : Except ε α} {first second : α → Except ε β} {f : β → γ}
    (same : ∀ a, (first a).map f = (second a).map f) :
    (run >>= first).map f = (run >>= second).map f := by
  cases run with
  | error e => rfl
  | ok a => exact same a

theorem mapError_eq_ok {run : Except ε α} {f : ε → δ} {a : α} :
    run.mapError f = .ok a ↔ run = .ok a := by
  cases run <;> simp [Except.mapError]

theorem mapError_eq_error {run : Except ε α} {f : ε → δ} {d : δ} :
    run.mapError f = .error d ↔ ∃ e, run = .error e ∧ f e = d := by
  cases run <;> simp [Except.mapError]

theorem toOption_eq_some {run : Except ε α} {a : α} : run.toOption = some a ↔ run = .ok a := by
  cases run <;> simp [Except.toOption]

theorem ofFaulting_eq_ok {run : Except Fault α} {a : α} :
    (ofFaulting run : Outcome ε α) = .ok a ↔ run = .ok a := mapError_eq_ok

theorem ofReporting_eq_ok {run : Except ε α} {a : α} :
    ofReporting run = .ok a ↔ run = .ok a := mapError_eq_ok

theorem mapCause_eq_ok {run : Outcome ε α} {f : ε → δ} {a : α} :
    Outcome.mapError f run = .ok a ↔ run = .ok a := by
  rcases run with (_ | _) | _ <;> simp [Outcome.mapError]

theorem mapM_eq_ok {f : α → Except ε β} {items : List α} {answers : List β} :
    items.mapM f = .ok answers ↔ List.Forall₂ (fun a b => f a = .ok b) items answers := by
  induction items generalizing answers with
  | nil => cases answers <;> simp [pure, Except.pure]
  | cons a rest ih =>
    simp only [List.mapM_cons, bind_eq_ok]
    constructor
    · rintro ⟨b, hb, bs, hbs, h⟩
      cases h
      exact .cons hb (ih.mp hbs)
    · intro h
      cases h with
      | cons hb hbs => exact ⟨_, hb, _, ih.mpr hbs, rfl⟩

theorem exists_mapM_forall₂ {f : α → Except ε β} {R : α → β → Prop} {items : List α}
    (each : ∀ a ∈ items, ∃ b, f a = .ok b ∧ R a b) :
    ∃ answers, items.mapM f = .ok answers ∧ List.Forall₂ R items answers := by
  induction items with
  | nil => exact ⟨[], rfl, .nil⟩
  | cons a rest ih =>
    obtain ⟨⟨b, answer, related⟩, others⟩ := List.forall_mem_cons.mp each
    obtain ⟨bs, answers, pairs⟩ := ih others
    exact ⟨b :: bs, mapM_eq_ok.mpr (.cons answer (mapM_eq_ok.mp answers)), .cons related pairs⟩

theorem exists_mapM_eq_ok {f : α → Except ε β} {items : List α}
    (each : ∀ a ∈ items, ∃ b, f a = .ok b) : ∃ answers, items.mapM f = .ok answers := by
  obtain ⟨answers, given, _⟩ := exists_mapM_forall₂ (R := fun a b => f a = .ok b) fun a member =>
    (each a member).imp fun b answer => ⟨answer, answer⟩
  exact ⟨answers, given⟩

theorem filterMap_toOption_of_mapM {f : α → Except ε β} {items : List α} {answers : List β}
    (h : items.mapM f = .ok answers) : items.filterMap (fun a => (f a).toOption) = answers := by
  have paired := mapM_eq_ok.mp h
  clear h
  induction paired with
  | nil => rfl
  | cons answer _ ih => rw [List.filterMap_cons, toOption_eq_some.mpr answer, ih]

theorem mapM_eq_error {f : α → Except ε β} {items : List α} {e : ε}
    (h : items.mapM f = .error e) : ∃ a ∈ items, f a = .error e := by
  induction items with
  | nil => cases h
  | cons a rest ih =>
    simp only [List.mapM_cons, bind_eq_error] at h
    rcases h with failed | ⟨_, _, failed | ⟨_, _, failed⟩⟩
    · exact ⟨a, List.mem_cons_self, failed⟩
    · obtain ⟨b, hb, failed⟩ := ih failed
      exact ⟨b, List.mem_cons_of_mem a hb, failed⟩
    · cases failed

theorem mapM_eq_some {f : α → Option β} {items : List α} {answers : List β} :
    items.mapM f = some answers ↔ List.Forall₂ (fun a b => f a = some b) items answers := by
  induction items generalizing answers with
  | nil => cases answers <;> simp
  | cons a rest ih =>
    simp only [List.mapM_cons, Option.bind_eq_bind, Option.bind_eq_some_iff]
    constructor
    · rintro ⟨b, hb, bs, hbs, h⟩
      cases h
      exact .cons hb (ih.mp hbs)
    · intro h
      cases h with
      | cons hb hbs => exact ⟨_, hb, _, ih.mpr hbs, rfl⟩

theorem exists_mapM_eq_some {f : α → Option β} {items : List α} :
    (∃ answers, items.mapM f = some answers) ↔ ∀ a ∈ items, ∃ b, f a = some b := by
  constructor
  · rintro ⟨answers, given⟩ a member
    obtain ⟨b, _, answer⟩ := exists_right (mapM_eq_some.mp given) member
    exact ⟨b, answer⟩
  · intro each
    induction items with
    | nil => exact ⟨[], rfl⟩
    | cons a rest ih =>
      obtain ⟨⟨b, hb⟩, others⟩ := List.forall_mem_cons.mp each
      obtain ⟨bs, hbs⟩ := ih others
      exact ⟨b :: bs, mapM_eq_some.mpr (.cons hb (mapM_eq_some.mp hbs))⟩

theorem getElem?_of_mapM_eq_ok {f : α → Except ε β} {items : List α} {answers : List β}
    (h : items.mapM f = .ok answers) {i : Nat} {b : β} (answer : answers[i]? = some b) :
    ∃ a, items[i]? = some a ∧ f a = .ok b := by
  have paired := mapM_eq_ok.mp h
  obtain ⟨inside, rfl⟩ := List.getElem?_eq_some_iff.mp answer
  have within : i < items.length := paired.length_eq ▸ inside
  exact ⟨items[i], List.getElem?_eq_getElem within, paired.get within inside⟩

/-- Every failure of the computation satisfies a predicate. -/
def FailsWith (P : ε → Prop) (run : Except ε α) : Prop := ∀ e, run = .error e → P e

namespace FailsWith

variable {P : ε → Prop}

theorem ok (a : α) : FailsWith P (.ok a : Except ε α) := by
  intro e h; cases h

theorem error {e : ε} (h : P e) : FailsWith P (.error e : Except ε α) := by
  intro d hd; cases hd; exact h

theorem bind {run : Except ε α} {next : α → Except ε β} (first : FailsWith P run)
    (then_ : ∀ a, run = .ok a → FailsWith P (next a)) : FailsWith P (run >>= next) := by
  intro e h
  rcases bind_eq_error.mp h with failed | ⟨a, ha, failed⟩
  · exact first e failed
  · exact then_ a ha e failed

theorem map {run : Except ε α} {f : α → β} (h : FailsWith P run) : FailsWith P (run.map f) :=
  fun e failed => h e (map_eq_error.mp failed)

theorem mapM {f : α → Except ε β} {items : List α} (each : ∀ a ∈ items, FailsWith P (f a)) :
    FailsWith P (items.mapM f) := by
  intro e h
  obtain ⟨a, ha, failed⟩ := mapM_eq_error h
  exact each a ha e failed

theorem mapError {P : δ → Prop} {run : Except ε α} {f : ε → δ}
    (h : FailsWith (fun e => P (f e)) run) : FailsWith P (run.mapError f) := by
  intro d hd
  obtain ⟨e, he, rfl⟩ := mapError_eq_error.mp hd
  exact h e he

theorem ofFaulting {P : Failure ε → Prop} {run : Except Fault α} (h : ∀ fault, P (.fault fault)) :
    FailsWith P (Outcome.ofFaulting run) :=
  mapError fun fault _ => h fault

theorem ofReporting {P : Failure ε → Prop} {run : Except ε α}
    (h : FailsWith (fun e => P (.error e)) run) : FailsWith P (Outcome.ofReporting run) :=
  mapError h

end FailsWith

end Outcome

namespace Checked

theorem add_eq_ok {bits a b c : Nat} : add bits a b = .ok c ↔ a + b < 2 ^ bits ∧ c = a + b := by
  unfold add
  split
  · rename_i fits; simp [fits, eq_comm]
  · rename_i large; simp [large]

theorem add_eq_error_iff {bits a b : Nat} {fault : Fault} :
    add bits a b = .error fault ↔ fault = .sumOverflow ∧ 2 ^ bits ≤ a + b := by
  unfold add
  split
  · rename_i fits; simp [fits]
  · rename_i large; simp [Nat.not_lt.mp large, eq_comm]

theorem add_eq_error {bits a b : Nat} {fault : Fault} (h : add bits a b = .error fault) :
    fault = .sumOverflow :=
  (add_eq_error_iff.mp h).1

theorem sub_eq_ok {a b c : Nat} : sub a b = .ok c ↔ b ≤ a ∧ c = a - b := by
  unfold sub
  split
  · rename_i fits; simp [fits, eq_comm]
  · rename_i large; simp [large]

theorem add32_of_lt {a b : UInt32} (fits : a.toNat + b.toNat < 2 ^ 32) :
    ∃ c, add32 a b = .ok c ∧ c.toNat = a.toNat + b.toNat := by
  refine ⟨a + b, if_pos fits, ?_⟩
  rw [UInt32.toNat_add, Nat.mod_eq_of_lt fits]

theorem toNat_of_add32 {a b c : UInt32} (h : add32 a b = .ok c) :
    c.toNat = a.toNat + b.toNat := by
  unfold add32 at h
  split at h
  · rename_i fits
    cases h
    rw [UInt32.toNat_add, Nat.mod_eq_of_lt fits]
  · cases h

end Checked

end CopyPatch
