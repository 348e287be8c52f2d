import CopyPatch.Proofs.Extraction.Accounting
import CopyPatch.Proofs.Loading

/-! Exactly when an object makes preparation or extraction fault, and, with loading, the whole
account: which numbers an accepted object may declare without leaving a word. Everything else that
is wrong with an object is reported. -/
namespace CopyPatch

open Object Extraction

/-- The symbol gives a name its body, in the section of that number. -/
structure Object.Symbol.Defines (symbol : Symbol) (name : String) (index : Nat) : Prop where
  named : symbol.name = some name
  nonempty : name ≠ ""
  isDefinition : symbol.isDefinition = true
  place : symbol.place = .inSection index

namespace ObjectFile

/-- The symbol gives a name its body, and no later one does. -/
def LastDefines (file : ObjectFile) (name : String) (symbol : Symbol) (index : Nat) : Prop :=
  ∃ before after, file.properSymbols = before ++ symbol :: after ∧
    (∀ s ∈ after, ∀ i, ¬ s.Defines name i) ∧ symbol.Defines name index

/-- Preparing the object faults: all its relocations have readable targets, and a body stands below
its section. -/
inductive OpenFaults (file : ObjectFile) : Fault → Prop where
  | below {symbol : Symbol} {name : String} {index : Nat} {home : Section}
      (targets : ∀ s ∈ file.properSections, ∀ r ∈ s.relocations, targetOf file r ≠ none)
      (member : symbol ∈ file.properSymbols) (defines : symbol.Defines name index)
      (held : file.sections[index]? = some home) (low : symbol.address < home.address) :
      file.OpenFaults .differenceOverflow

/-- Extracting a body faults: it stands in the section of its own and ends behind the last
address. -/
inductive ExtractFaults (file : ObjectFile) (name : String) : Fault → Prop where
  | beyond {symbol : Symbol} {home : Section} {data : Bytes}
      (located : file.sectionNamed? (".text." ++ name) = some home) (holds : home.data = some data)
      (last : file.LastDefines name symbol home.index) (sized : symbol.size ≠ 0)
      (far : 2 ^ 64 ≤ symbol.address - home.address + symbol.size) :
      file.ExtractFaults name .sumOverflow

end ObjectFile

namespace Extraction

variable {file : ObjectFile}

theorem extentOf?_cases (file : ObjectFile) (symbol : Symbol) :
    ((∀ name index, ¬ symbol.Defines name index) ∧ extentOf? file symbol = .ok none) ∨
    ∃ name index, symbol.Defines name index ∧
      ((∃ home, file.sections[index]? = some home ∧ symbol.address < home.address ∧
        extentOf? file symbol = .error .differenceOverflow) ∨
      ∃ start, (∀ home, file.sections[index]? = some home →
          home.address ≤ symbol.address ∧ start = symbol.address - home.address) ∧
        extentOf? file symbol = .ok (some (name, ⟨index, start, symbol.size⟩))) := by
  by_cases defined : ∃ name index, symbol.Defines name index
  · obtain ⟨name, index, defines⟩ := defined
    have body : ¬ (name = "" || !symbol.isDefinition) = true := by
      simp [defines.nonempty, defines.isDefinition]
    refine Or.inr ⟨name, index, defines, ?_⟩
    simp only [extentOf?, defines.named, defines.place, if_neg body]
    cases held : file.sections[index]? with
    | none => exact Or.inr ⟨symbol.address, (fun _ absent => nomatch absent), rfl⟩
    | some home =>
      by_cases above : home.address ≤ symbol.address
      · refine Or.inr ⟨symbol.address - home.address, ?_, ?_⟩
        · intro _ same
          cases same
          exact ⟨above, rfl⟩
        · exact Outcome.bind_eq_ok.mpr ⟨_, if_pos above, rfl⟩
      · exact Or.inl ⟨home, rfl, Nat.not_le.mp above,
          Outcome.bind_eq_error.mpr (Or.inl (if_neg above))⟩
  · have none : ∀ name index, ¬ symbol.Defines name index :=
      fun name index defines => defined ⟨name, index, defines⟩
    refine Or.inl ⟨none, ?_⟩
    unfold extentOf?
    split
    · rename_i name index named place
      by_cases body : (name = "" || !symbol.isDefinition) = true
      · rw [if_pos body]
      · simp only [Bool.or_eq_true, decide_eq_true_eq, Bool.not_eq_true', not_or,
          Bool.not_eq_false] at body
        exact absurd ⟨named, body.1, body.2, place⟩ (none name index)
    · rfl

/-- The extent that comes first belongs to the first symbol that gives the name a body. -/
theorem lookup_filterMap_eq_some {symbols : List Symbol}
    {entries : List (Option (String × Extent))}
    (paired : List.Forall₂ (fun s entry => extentOf? file s = .ok entry) symbols entries)
    {name : String} {extent : Extent} :
    (entries.filterMap id).lookup name = some extent ↔
      ∃ before symbol after, symbols = before ++ symbol :: after ∧
        (∀ s ∈ before, ∀ index, ¬ s.Defines name index) ∧
        extentOf? file symbol = .ok (some (name, extent)) := by
  induction paired with
  | nil =>
    constructor
    · intro h; cases h
    · rintro ⟨before, symbol, after, table, _⟩
      cases before <;> cases table
  | @cons symbol entry _ _ made _ ih =>
    rw [exists_first_cons, made]
    rcases extentOf?_cases file symbol with
      ⟨undefined, ignored⟩ | ⟨found, index, defines, faulted | ⟨start, _, kept⟩⟩
    · obtain rfl := Except.ok.inj (made.symm.trans ignored)
      simpa [undefined] using ih
    · obtain ⟨_, _, _, fault⟩ := faulted
      exact nomatch made.symm.trans fault
    · obtain rfl := Except.ok.inj (made.symm.trans kept)
      by_cases same : name = found
      · subst same
        have shown : ¬ ∀ index, ¬ symbol.Defines name index := fun none => none index defines
        simp [shown]
      · have other : ∀ index, ¬ symbol.Defines name index := fun _ also =>
          same (Option.some.inj (also.named.symm.trans defines.named))
        have differs : (name == found) = false := beq_eq_false_iff_ne.mpr same
        simpa [List.lookup_cons, differs, other, same, Ne.symm same] using ih

theorem extentOf?_eq_error {symbol : Symbol} {fault : Fault} :
    extentOf? file symbol = .error fault ↔ fault = .differenceOverflow ∧
      ∃ name index home, symbol.Defines name index ∧ file.sections[index]? = some home ∧
        symbol.address < home.address := by
  rcases extentOf?_cases file symbol with
    ⟨undefined, ignored⟩ | ⟨name, index, defines, ⟨home, held, low, faulted⟩ | ⟨start, above, kept⟩⟩
  · rw [ignored]
    constructor
    · intro h; cases h
    · rintro ⟨_, name, index, _, defines, _⟩
      exact absurd defines (undefined name index)
  · rw [faulted]
    constructor
    · intro h
      cases h
      exact ⟨rfl, name, index, home, defines, held, low⟩
    · rintro ⟨rfl, _⟩
      rfl
  · rw [kept]
    constructor
    · intro h; cases h
    · rintro ⟨_, _, other, home, also, held, low⟩
      obtain rfl := Place.inSection.inj (defines.place.symm.trans also.place)
      exact absurd (above home held).1 (Nat.not_le.mpr low)

theorem extentOf?_eq_some {symbol : Symbol} {name : String} {home : Section}
    (held : file.sections[home.index]? = some home) {extent : Extent} :
    (extentOf? file symbol = .ok (some (name, extent)) ∧ extent.home = home.index) ↔
      symbol.Defines name home.index ∧ home.address ≤ symbol.address ∧
        extent = ⟨home.index, symbol.address - home.address, symbol.size⟩ := by
  rcases extentOf?_cases file symbol with
    ⟨undefined, ignored⟩ |
    ⟨found, index, defines, ⟨other, held', low, faulted⟩ | ⟨start, above, kept⟩⟩
  · rw [ignored]
    constructor
    · rintro ⟨h, _⟩; cases h
    · rintro ⟨defines, _⟩
      exact absurd defines (undefined _ _)
  · rw [faulted]
    constructor
    · rintro ⟨h, _⟩; cases h
    · rintro ⟨also, high, _⟩
      obtain rfl := Place.inSection.inj (defines.place.symm.trans also.place)
      obtain rfl := Option.some.inj (held.symm.trans held')
      exact absurd high (Nat.not_le.mpr low)
  · rw [kept]
    constructor
    · rintro ⟨h, same⟩
      cases h
      obtain rfl : index = home.index := same
      obtain ⟨high, rfl⟩ := above home held
      exact ⟨defines, high, rfl⟩
    · rintro ⟨also, high, rfl⟩
      obtain rfl := Place.inSection.inj (defines.place.symm.trans also.place)
      obtain rfl := Option.some.inj (defines.named.symm.trans also.named)
      obtain ⟨_, rfl⟩ := above home held
      exact ⟨rfl, rfl⟩

end Extraction

namespace Extractor

variable {file : ObjectFile}

/-- Relocations can be collected if all their targets are readable. -/
theorem collects_iff :
    (∃ found, file.properSections.mapM (fun s => (s.relocations.mapM (targeted file)).map
      fun found => (s.index, found)) = some found) ↔
      ∀ s ∈ file.properSections, ∀ r ∈ s.relocations, targetOf file r ≠ none := by
  rw [Outcome.exists_mapM_eq_some]
  refine forall₂_congr fun s _ => ?_
  constructor
  · rintro ⟨_, collected⟩ r member none
    obtain ⟨found, given, _⟩ := Option.map_eq_some_iff.mp collected
    obtain ⟨t, _, target⟩ := exists_right (Outcome.mapM_eq_some.mp given) member
    rw [targeted, none] at target
    cases target
  · intro readable
    obtain ⟨found, given⟩ : ∃ found, s.relocations.mapM (targeted file) = some found := by
      refine Outcome.exists_mapM_eq_some.mpr fun r member => ?_
      obtain ⟨target, known⟩ := Option.ne_none_iff_exists'.mp (readable r member)
      exact ⟨_, Option.map_eq_some_iff.mpr ⟨target, known, rfl⟩⟩
    exact ⟨_, Option.map_eq_some_iff.mpr ⟨found, given, rfl⟩⟩

theorem mapM_extentOf?_eq_error {symbols : List Symbol} {fault : Fault} :
    symbols.mapM (extentOf? file) = .error fault ↔ fault = .differenceOverflow ∧
      ∃ symbol ∈ symbols, ∃ name index home, symbol.Defines name index ∧
        file.sections[index]? = some home ∧ symbol.address < home.address := by
  constructor
  · intro h
    obtain ⟨symbol, member, faulted⟩ := Outcome.mapM_eq_error h
    obtain ⟨rfl, low⟩ := extentOf?_eq_error.mp faulted
    exact ⟨rfl, symbol, member, low⟩
  · rintro ⟨rfl, symbol, member, low⟩
    have faulted := extentOf?_eq_error.mpr ⟨rfl, low⟩
    cases made : symbols.mapM (extentOf? file) with
    | ok entries =>
      obtain ⟨_, _, kept⟩ := exists_right (Outcome.mapM_eq_ok.mp made) member
      exact nomatch faulted.symm.trans kept
    | error other =>
      obtain ⟨_, _, failed⟩ := Outcome.mapM_eq_error made
      rw [(extentOf?_eq_error.mp failed).1]

/-- Preparing an object faults exactly at a body below its section. -/
theorem ofFile_eq_fault {moduleName : String} {fault : Fault} :
    ofFile moduleName file = .error (.fault fault) ↔ file.OpenFaults fault := by
  constructor
  · intro h
    unfold ofFile at h
    split at h
    · rename_i found collected
      have targets := collects_iff.mp ⟨found, collected⟩
      rcases Outcome.bind_eq_error.mp h with h | ⟨_, _, h⟩
      · cases h
      · rcases Outcome.bind_eq_error.mp h with h | ⟨_, _, h⟩
        · obtain ⟨_, faulted, same⟩ := Outcome.mapError_eq_error.mp h
          cases same
          obtain ⟨rfl, symbol, member, name, index, home, defines, held, low⟩ :=
            mapM_extentOf?_eq_error.mp faulted
          exact .below targets member defines held low
        · cases h
    · cases h
  · rintro ⟨targets, member, defines, held, low⟩
    obtain ⟨found, collected⟩ := collects_iff.mpr targets
    have faulted := mapM_extentOf?_eq_error.mpr ⟨rfl, _, member, _, _, _, defines, held, low⟩
    rw [ofFile, collected, faulted]
    rfl

theorem extents_of_ofFile {moduleName : String} {e : Extractor}
    (opened : ofFile moduleName file = .ok e) :
    ∃ entries, List.Forall₂ (fun s entry => extentOf? file s = .ok entry) file.properSymbols
      entries ∧ e.extents = (entries.filterMap id).reverse := by
  unfold ofFile at opened
  split at opened
  · obtain ⟨_, given, opened⟩ := Outcome.bind_eq_ok.mp opened
    cases given
    obtain ⟨entries, made, opened⟩ := Outcome.bind_eq_ok.mp opened
    cases opened
    exact ⟨entries, Outcome.mapM_eq_ok.mp (Outcome.ofFaulting_eq_ok.mp made), rfl⟩
  · cases opened

/-- The extent of a name in a section is that of its last definition, if that one stands there. -/
theorem lookup_extents {moduleName : String} {e : Extractor}
    (opened : ofFile moduleName file = .ok e) {name : String} {home : Section}
    (held : file.sections[home.index]? = some home) {extent : Extent} :
    (e.extents.lookup name = some extent ∧ extent.home = home.index) ↔
      ∃ symbol, file.LastDefines name symbol home.index ∧
        extent = ⟨home.index, symbol.address - home.address, symbol.size⟩ := by
  obtain ⟨entries, paired, same⟩ := extents_of_ofFile opened
  -- later extents come first, so the table is read from its end
  rw [same, ← List.filterMap_reverse,
    lookup_filterMap_eq_some (List.rel_reverse paired)]
  constructor
  · rintro ⟨⟨before, symbol, after, table, later, made⟩, here⟩
    obtain ⟨defines, _, rfl⟩ := (extentOf?_eq_some held).mp ⟨made, here⟩
    refine ⟨symbol, ⟨after.reverse, before.reverse, ?_, ?_, defines⟩, rfl⟩
    · rw [← List.reverse_reverse file.properSymbols, table]
      simp
    · intro s member
      exact later s (List.mem_reverse.mp member)
  · rintro ⟨symbol, ⟨before, after, table, later, defines⟩, rfl⟩
    obtain ⟨entry, _, kept⟩ := exists_right paired
      (show symbol ∈ file.properSymbols by rw [table]; exact List.mem_append_cons_self)
    -- a body below its section would have kept the object from being prepared
    have above : home.address ≤ symbol.address := by
      by_contra low
      have faulted := extentOf?_eq_error.mpr
        ⟨rfl, name, home.index, home, defines, held, Nat.not_le.mp low⟩
      exact nomatch kept.symm.trans faulted
    obtain ⟨made, here⟩ := (extentOf?_eq_some held).mpr ⟨defines, above, rfl⟩
    refine ⟨⟨after.reverse, symbol, before.reverse, ?_, ?_, made⟩, here⟩
    · rw [table]
      simp
    · intro s member
      exact later s (List.mem_reverse.mp member)

theorem range_eq_error {e : Extractor} {name : String} {home : Section} {len : Nat}
    {fault : Fault} :
    e.range name home len = .error fault ↔ fault = .sumOverflow ∧
      ∃ extent, (e.extents.lookup name = some extent ∧ extent.home = home.index) ∧
        extent.size ≠ 0 ∧ 2 ^ 64 ≤ extent.start + extent.size := by
  unfold range
  cases known : e.extents.lookup name with
  | none => simp
  | some extent =>
    by_cases here : extent.home = home.index
    · by_cases sized : extent.size = 0
      · simp [here, sized]
      · simp [here, sized, Outcome.map_eq_error, Checked.add_eq_error_iff]
    · simp [here]

/-- Extraction faults exactly for a body that ends behind the last address. -/
theorem extract_eq_fault_iff {moduleName : String} {e : Extractor} (numbered : file.Numbered)
    (opened : ofFile moduleName file = .ok e) {name : String} {fault : Fault} :
    e.extract name = .error (.fault fault) ↔ file.ExtractFaults name fault := by
  have same := (ofFile_eq_ok opened).1
  have held : ∀ home, file.sectionNamed? (".text." ++ name) = some home →
      file.sections[home.index]? = some home :=
    fun home located => numbered.getElem?_index (List.mem_of_find?_eq_some located)
  constructor
  · intro h
    obtain ⟨home, data, located, holds, ranged⟩ := extract_eq_fault h
    rw [same] at located
    obtain ⟨rfl, extent, known, sized, far⟩ := range_eq_error.mp ranged
    obtain ⟨symbol, last, rfl⟩ := (lookup_extents opened (held home located)).mp known
    exact .beyond located holds last sized far
  · intro faults
    cases faults with
    | @beyond symbol home data located holds last sized far =>
      have ranged : e.range name home data.length = .error .sumOverflow := range_eq_error.mpr
        ⟨rfl, _, (lookup_extents opened (held home located)).mpr ⟨symbol, last, rfl⟩, sized, far⟩
      rw [← same] at located
      simp only [extract, located, holds, ranged]
      rfl

end Extractor

/-- Everything wrong with an accepted object is reported, but for numbers that leave their word.
After any objects loaded before it, loading it, preparing it and extracting any of its symbols
faults exactly in the named cases. Made addresses stay as few as the symbols. -/
theorem objects_fault_iff_numbers_leave_word (process : String → Option Nat) (moduleName : String)
    (earlier : List ObjectFile) {object : Bytes} {file : ObjectFile}
    (accepted : Object.accept object = .ok file) {map : LoadMap}
    (reached : map = LoadMap.loadAll process moduleName earlier {}) (fault : Fault) :
    ((LoadMap.load process moduleName file map).1 = .error (.fault fault) ↔
      file.LoadFaults map.nextCode fault) ∧
    (LoadMap.load process moduleName file map).2.nextExternal ≤
      0x780000000000 + 16 * ((earlier ++ [file]).flatMap (·.properSymbols)).length ∧
    (Extractor.ofFile moduleName file = .error (.fault fault) ↔ file.OpenFaults fault) ∧
    ∀ e, Extractor.ofFile moduleName file = .ok e → ∀ symbol,
      (e.extract symbol = .error (.fault fault) ↔ file.ExtractFaults symbol fault) := by
  have numbered := Object.accept_numbered accepted
  have word : map.nextCode < 2 ^ 64 := by
    rw [reached]
    exact (LoadMap.loadAll_keeps process moduleName earlier (by decide)).1
  refine ⟨LoadMap.load_eq_fault numbered process moduleName word, ?_, Extractor.ofFile_eq_fault,
    fun e opened symbol => Extractor.extract_eq_fault_iff numbered opened⟩
  rw [reached, ← LoadMap.loadAll_concat]
  exact (LoadMap.loadAll_keeps process moduleName (earlier ++ [file]) (by decide)).2

/-- The small object with its first body put at 1 and made as long as a word can say. -/
def overlongBody : Bytes :=
  (SmallObject.bytes.splice 193 (Bytes.ofNat 8 1)).splice 201 (Bytes.ofNat 8 (2 ^ 64 - 1))

/-- The small object with its first section put at 1. -/
def raisedSection : Bytes := SmallObject.bytes.splice 485 (Bytes.ofNat 8 1)

theorem overlongBody_outcomes :
    ∃ file e, Object.accept overlongBody = .ok file ∧
      (LoadMap.load (fun _ => none) "m" file {}).1 = .ok () ∧
      Extractor.ofFile "m" file = .ok e ∧
      e.extract "f_false" = .error (.fault .sumOverflow) := by
  have evaluated : (do
      let file ← (Object.accept overlongBody).toOption
      let e ← (Extractor.ofFile "m" file).toOption
      return decide ((LoadMap.load (fun _ => none) "m" file {}).1 = .ok () ∧
        e.extract "f_false" = .error (.fault .sumOverflow))) = some true := by decide +kernel
  simp only [Option.bind_eq_bind, Option.bind_eq_some_iff, Outcome.toOption_eq_some] at evaluated
  obtain ⟨file, accepted, e, opened, facts⟩ := evaluated
  obtain ⟨loaded, faulted⟩ := of_decide_eq_true (Option.some.inj facts)
  exact ⟨file, e, accepted, loaded, opened, faulted⟩

/-- The overlong body is a body that ends behind the last address. -/
theorem overlong_body_leaves_word :
    ∃ file, Object.accept overlongBody = .ok file ∧
      (∀ fault, ¬ file.LoadFaults 0x700000000000 fault) ∧ (∀ fault, ¬ file.OpenFaults fault) ∧
      file.ExtractFaults "f_false" .sumOverflow := by
  obtain ⟨file, e, accepted, loaded, opened, faulted⟩ := overlongBody_outcomes
  have account := objects_fault_iff_numbers_leave_word (fun _ => none) "m" [] accepted rfl
  refine ⟨file, accepted, fun fault faults => ?_, fun fault faults => ?_, ?_⟩
  · exact nomatch loaded.symm.trans ((account fault).1.mpr faults)
  · exact nomatch opened.symm.trans ((account fault).2.2.1.mpr faults)
  · exact ((account .sumOverflow).2.2.2 e opened "f_false").mp faulted

/-- Accepted objects can fault in each of the three operations. -/
theorem accepted_objects_fault :
    (∃ file e, Object.accept overlongBody = .ok file ∧ Extractor.ofFile "m" file = .ok e ∧
      e.extract "f_false" = .error (.fault .sumOverflow)) ∧
    ∃ file, Object.accept raisedSection = .ok file ∧
      (LoadMap.load (fun _ => none) "m" file {}).1 = .error (.fault .differenceOverflow) ∧
      Extractor.ofFile "m" file = .error (.fault .differenceOverflow) := by
  constructor
  · obtain ⟨file, e, accepted, _, opened, faulted⟩ := overlongBody_outcomes
    exact ⟨file, e, accepted, opened, faulted⟩
  · have evaluated : (do
        let file ← (Object.accept raisedSection).toOption
        return decide
          ((LoadMap.load (fun _ => none) "m" file {}).1 = .error (.fault .differenceOverflow) ∧
            Extractor.ofFile "m" file = .error (.fault .differenceOverflow))) = some true := by
      decide +kernel
    simp only [Option.bind_eq_bind, Option.bind_eq_some_iff, Outcome.toOption_eq_some] at evaluated
    obtain ⟨file, accepted, faulted⟩ := evaluated
    exact ⟨file, accepted, of_decide_eq_true (Option.some.inj faulted)⟩

end CopyPatch
