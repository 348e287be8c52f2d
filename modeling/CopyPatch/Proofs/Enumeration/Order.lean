import CopyPatch.Proofs.Enumeration

/-! The tuples of some axes, described without a walk: the cross product, the dictionary order of
the axes' values, and the prefixes that decide about a tuple. The legal tuples are those of the
cross product of which every nonempty prefix is accepted. -/
namespace CopyPatch

/-- The full tuples of the axes; the last axis varies fastest. -/
def crossProduct : List Axis → List Tuple
  | [] => [[]]
  | axis :: axes => axis.values.flatMap fun v => (crossProduct axes).map (v :: ·)

/-- Every value of a tuple is one that its axis takes. The tuple may end before the axes do. -/
def Within : List Axis → Tuple → Prop
  | _, [] => True
  | [], _ :: _ => False
  | axis :: axes, v :: t => v ∈ axis.values ∧ Within axes t

/-- Dictionary order: the axis of the first difference lists one value before the other. A tuple
comes before the longer ones it is a prefix of. -/
def Earlier : List Axis → Tuple → Tuple → Prop
  | _, _, [] => False
  | _, [], _ :: _ => True
  | [], _ :: _, _ :: _ => False
  | axis :: axes, v :: s, w :: t =>
    axis.values.idxOf v < axis.values.idxOf w ∨ v = w ∧ Earlier axes s t

/-- Every nonempty prefix of a tuple is accepted. -/
def passes (accepts : Tuple → Bool) : Tuple → Bool
  | [] => true
  | v :: t => accepts [v] && passes (fun s => accepts (v :: s)) t

theorem mem_crossProduct {axes : List Axis} {t : Tuple} :
    t ∈ crossProduct axes ↔ Within axes t ∧ t.length = axes.length := by
  induction axes generalizing t with
  | nil => cases t <;> simp [crossProduct, Within]
  | cons axis axes ih =>
    cases t with
    | nil => simp [crossProduct]
    | cons v t => simp [crossProduct, Within, ih, and_assoc]

theorem Earlier.irrefl (axes : List Axis) (t : Tuple) : ¬ Earlier axes t t := by
  induction t generalizing axes with
  | nil => simp [Earlier]
  | cons v t ih =>
    cases axes with
    | nil => simp [Earlier]
    | cons axis axes => simpa [Earlier] using ih axes

theorem Earlier.asymm {axes : List Axis} {s t : Tuple} (h : Earlier axes s t) :
    ¬ Earlier axes t s := by
  induction s generalizing axes t with
  | nil => simp [Earlier]
  | cons v s ih =>
    cases t with
    | nil => simp [Earlier] at h
    | cons w t =>
      cases axes with
      | nil => simp [Earlier] at h
      | cons axis axes =>
        intro back
        rcases h with forth | ⟨same, forth⟩ <;> rcases back with back | ⟨same', back⟩
        · omega
        · subst same'
          omega
        · subst same
          omega
        · exact ih forth back

theorem Earlier.nodup {axes : List Axis} {tuples : List Tuple}
    (sorted : tuples.Pairwise (Earlier axes)) : tuples.Nodup := by
  refine sorted.imp fun before same => ?_
  subst same
  exact Earlier.irrefl axes _ before

/-- A list without repetitions lists its members in the order of their positions. -/
theorem pairwise_idxOf {values : List UInt64} (distinct : values.Nodup) :
    values.Pairwise fun v w => values.idxOf v < values.idxOf w := by
  refine List.pairwise_iff_getElem.mpr fun i j hi hj lt => ?_
  rwa [distinct.idxOf_getElem i hi, distinct.idxOf_getElem j hj]

theorem crossProduct_sorted {axes : List Axis} (distinct : ∀ axis ∈ axes, axis.values.Nodup) :
    (crossProduct axes).Pairwise (Earlier axes) := by
  induction axes with
  | nil => exact List.pairwise_singleton _ _
  | cons axis axes ih =>
    have later := ih fun a ha => distinct a (List.mem_cons_of_mem axis ha)
    refine List.pairwise_flatMap.mpr ⟨fun v _ => ?_, ?_⟩
    · exact List.pairwise_map.mpr (later.imp fun before => Or.inr ⟨rfl, before⟩)
    · refine (pairwise_idxOf (distinct axis List.mem_cons_self)).imp ?_
      intro v w before s hs t ht
      obtain ⟨_, _, rfl⟩ := List.mem_map.mp hs
      obtain ⟨_, _, rfl⟩ := List.mem_map.mp ht
      exact Or.inl before

/-- The nonempty prefixes of a tuple with a first value: that value alone, and it before the
nonempty prefixes of the rest. -/
theorem forall_prefix_cons {P : Tuple → Prop} {v : UInt64} {t : Tuple} :
    (∀ r, r ≠ [] → r <+: v :: t → P r) ↔ P [v] ∧ ∀ r, r ≠ [] → r <+: t → P (v :: r) := by
  constructor
  · intro each
    refine ⟨each [v] (by simp) ⟨t, rfl⟩, fun r _ hr => ?_⟩
    exact each (v :: r) (by simp) (List.cons_prefix_cons.mpr ⟨rfl, hr⟩)
  · rintro ⟨alone, longer⟩ r nonempty hr
    cases r with
    | nil => exact absurd rfl nonempty
    | cons w r =>
      obtain ⟨rfl, shorter⟩ := List.cons_prefix_cons.mp hr
      cases r with
      | nil => exact alone
      | cons x r => exact longer _ (by simp) shorter

theorem passes_iff {accepts : Tuple → Bool} {t : Tuple} :
    passes accepts t = true ↔ ∀ r, r ≠ [] → r <+: t → accepts r = true := by
  induction t generalizing accepts with
  | nil =>
    simp only [passes, true_iff, List.prefix_nil]
    exact fun r nonempty empty => absurd empty nonempty
  | cons v t ih => rw [passes, Bool.and_eq_true, ih, forall_prefix_cons]

/-- If a rejected tuple has no accepted extension, the tuple alone decides. -/
theorem passes_eq_accepts {accepts : Tuple → Bool} (empty : accepts [] = true)
    (rejects : ∀ q r, q <+: r → accepts q = false → accepts r = false) (t : Tuple) :
    passes accepts t = accepts t := by
  rw [Bool.eq_iff_iff, passes_iff]
  constructor
  · intro each
    rcases eq_or_ne t [] with rfl | nonempty
    · exact empty
    · exact each t nonempty List.prefix_rfl
  · intro accepted r _ shorter
    by_contra rejected
    rw [rejects r t shorter (Bool.eq_false_iff.mpr rejected)] at accepted
    cases accepted

/-- The legal tuples are the members of the cross product that pass, in its order. -/
theorem legalTuples_eq_filter (accepts : Tuple → Bool) (axes : List Axis) (chosen : Tuple) :
    legalTuples accepts axes chosen =
      ((crossProduct axes).filter (passes fun s => accepts (chosen ++ s))).map (chosen ++ ·) := by
  induction axes generalizing chosen with
  | nil => simp only [legalTuples, crossProduct, List.filter_cons, passes, if_true, List.filter_nil,
      List.map_cons, List.map_nil, List.append_nil]
  | cons axis axes ih =>
    simp only [legalTuples, crossProduct, List.filter_flatMap, List.map_flatMap]
    congr 1
    funext v
    split
    · rename_i accepted
      rw [ih, List.filter_map, List.map_map]
      simp [Function.comp_def, passes, accepted]
    · rename_i rejected
      simp [List.filter_map, Function.comp_def, passes, rejected]

theorem legalTuples_eq (accepts : Tuple → Bool) (axes : List Axis) :
    legalTuples accepts axes [] = (crossProduct axes).filter (passes accepts) := by
  simpa using legalTuples_eq_filter accepts axes []

end CopyPatch
