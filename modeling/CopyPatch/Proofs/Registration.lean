import CopyPatch.Proofs.Enumeration
import CopyPatch.Registration

/-! Registration and the way back from addresses. A family registers its legal tuples in order with
the addresses of their bodies; an address that a name has leads back to that name unless another
name shares it. -/
namespace CopyPatch

namespace LoadMap

theorem mem_symbolsAt {map : LoadMap} {name : String} {address : Nat}
    (h : map.addressOf name = some address) : name ∈ map.symbolsAt address := by
  have entry : (name, address) ∈ map.defined.filter (·.2 = address) :=
    List.mem_filter.mpr ⟨mem_of_lookup h, decide_eq_true rfl⟩
  exact (List.mergeSort_perm _ _).mem_iff.mpr (List.mem_map.mpr ⟨_, entry, rfl⟩)

/-- The address of a name leads back to the name, or the names that share it are reported. -/
theorem resolve_addressOf {map : LoadMap} {name : String} {address : Nat} (moduleName : String)
    (h : map.addressOf name = some address) :
    map.resolve moduleName address = .ok name ∨
      ∃ names, name ∈ names ∧
        map.resolve moduleName address = .error (.ambiguousAddress moduleName address names) := by
  have member := mem_symbolsAt h
  unfold resolve
  split
  · rename_i none
    rw [none] at member
    cases member
  · rename_i one only
    rw [only, List.mem_singleton] at member
    exact Or.inl (congrArg Except.ok member.symm)
  · exact Or.inr ⟨_, member, rfl⟩

end LoadMap

/-- Distinct tuples of the right length are all registered, in order. -/
theorem Registration.registerAll_eq (r : Registration) (found : List (Tuple × Nat))
    (lengths : ∀ entry ∈ found, entry.1.length = r.arity)
    (distinct : ((r.entries ++ found).map (·.1)).Nodup) :
    r.registerAll found = .ok { r with entries := r.entries ++ found } := by
  induction found generalizing r with
  | nil => simp [registerAll, pure, Except.pure]
  | cons entry rest ih =>
    have new : r.entries.any (·.1 = entry.1) = false := by
      rw [List.map_append] at distinct
      refine List.any_eq_false.mpr fun known member => ?_
      have apart := (List.nodup_append.mp distinct).2.2 known.1 (List.mem_map_of_mem member)
        entry.1 List.mem_cons_self
      simpa using apart
    have one : r.register entry.1 entry.2 = .ok { r with entries := r.entries ++ [entry] } := by
      simp [register, lengths entry List.mem_cons_self, new]
    have step : r.registerAll (entry :: rest) =
        (r.register entry.1 entry.2 >>= fun r => r.registerAll rest) := rfl
    have others := ih { r with entries := r.entries ++ [entry] }
      (fun e he => lengths e (List.mem_cons_of_mem entry he)) (by simpa using distinct)
    rw [step, one]
    exact others.trans (by simp)

namespace FamilyDecl

/-- The tuples that the enumeration of a family yields under its constraints. -/
def enumerated (decl : FamilyDecl) : Except ModelError (List Tuple) :=
  (enumerate decl.axes decl.accepts fun _ => (.ok () : Except Empty Unit)).map
    fun walk => walk.found.toList.map (·.1)

theorem enumerated_eq (decl : FamilyDecl) :
    decl.enumerated =
      (Axis.validate decl.axes).map fun _ => legalTuples decl.accepts decl.axes [] := by
  have walked := enumerate_outcome decl.axes decl.accepts
    (fun _ => (.ok () : Except Empty Unit))
  unfold enumerated
  cases valid : Axis.validate decl.axes with
  | error cause => simp [enumerate, valid, Except.map]
  | ok _ =>
    rw [valid] at walked
    obtain ⟨walk, hwalk, outcome⟩ := Outcome.map_eq_ok.mp walked
    rw [hwalk]
    cases found : Enumeration.provided (fun _ => (.ok () : Except Empty Unit))
        (legalTuples decl.accepts decl.axes []) with
    | error refusal => exact refusal.elim
    | ok entries =>
      rw [found] at outcome
      have tuples := (Enumeration.provided_eq_ok.mp found).1
      rw [← (Enumeration.outcome_eq_ok outcome).2] at tuples
      exact congrArg Except.ok tuples

theorem length_of_enumerated {decl : FamilyDecl} {tuples : List Tuple}
    (h : decl.enumerated = .ok tuples) :
    ∀ t ∈ tuples, t.length = decl.axes.length := by
  rw [enumerated_eq] at h
  obtain ⟨_, _, rfl⟩ := Outcome.map_eq_ok.mp h
  exact fun t => length_of_mem_legalTuples

/-- Registration checks the axes and then looks up the body of every legal tuple in order. -/
theorem register_eq (decl : FamilyDecl) (moduleName : String) (map : LoadMap) :
    decl.register moduleName map =
      (Outcome.ofReporting ((Axis.validate decl.axes).mapError BuildError.model) >>= fun _ =>
        (Enumeration.provided (decl.bodyAddress moduleName map)
          (legalTuples decl.accepts decl.axes [])).map
            fun found => ⟨decl.name, decl.axes.length, found⟩) := by
  have walked := enumerate_outcome decl.axes decl.accepts (decl.bodyAddress moduleName map)
  unfold register
  cases valid : Axis.validate decl.axes with
  | error cause => simp [enumerate, valid, Except.map, Except.mapError]; rfl
  | ok _ =>
    rw [valid] at walked
    obtain ⟨walk, hwalk, outcome⟩ := Outcome.map_eq_ok.mp walked
    rw [hwalk]
    show (walk.outcome >>= _) = _
    rw [outcome]
    cases found : Enumeration.provided (decl.bodyAddress moduleName map)
        (legalTuples decl.accepts decl.axes []) with
    | error refusal => rfl
    | ok entries =>
      have tuples := (Enumeration.provided_eq_ok.mp found).1
      have registered := Registration.registerAll_eq ⟨decl.name, decl.axes.length, []⟩ entries
        (fun entry member => length_of_mem_legalTuples
          (tuples ▸ List.mem_map_of_mem member))
        (by
          rw [List.nil_append, tuples]
          exact legalTuples_nodup fun axis => Axis.values_nodup valid)
      show Outcome.ofReporting (Except.mapError _ (Registration.registerAll _ entries)) = _
      rw [registered]
      rfl

theorem register_eq_ok {decl : FamilyDecl} {moduleName : String} {map : LoadMap}
    {r : Registration} (h : decl.register moduleName map = .ok r) :
    decl.enumerated = .ok (r.entries.map (·.1)) ∧
      ∀ entry ∈ r.entries, ∃ symbol, decl.bodySymbol entry.1 = .ok symbol ∧
        map.addressOf symbol = some entry.2 := by
  rw [register_eq] at h
  obtain ⟨_, valid, h⟩ := Outcome.bind_eq_ok.mp h
  rw [Outcome.ofReporting_eq_ok, Outcome.mapError_eq_ok] at valid
  obtain ⟨found, provided, rfl⟩ := Outcome.map_eq_ok.mp h
  obtain ⟨tuples, addresses⟩ := Enumeration.provided_eq_ok.mp provided
  refine ⟨?_, fun entry member => ?_⟩
  · rw [enumerated_eq, valid, tuples]
    rfl
  · obtain ⟨symbol, body, h⟩ := Outcome.bind_eq_ok.mp (addresses entry member)
    rw [Outcome.ofFaulting_eq_ok] at body
    cases address : map.addressOf symbol with
    | none => rw [address] at h; cases h
    | some a => rw [address] at h; cases h; exact ⟨symbol, body, address⟩

end FamilyDecl

end CopyPatch
