import CopyPatch.Proofs.Extraction.Fidelity
import CopyPatch.Proofs.Fixup.Placeholder
import Mathlib.Order.Bounds.Defs

/-! Extraction accounts for every relocation. Whether or not fields overlap, each relocation of the
stretch becomes one fixup, in the order of the offsets; its field lies in the code and its packed
position among the values that the counts ask for. Placeholder numbers have at most eight digits,
so no sum of positions leaves its word, and patching an extracted variant never faults. -/
namespace CopyPatch

namespace Padding

theorem length_fill (missing : Nat) : (fill missing).length = missing := by
  fun_induction fill missing with
  | case1 => rfl
  | case2 missing positive n ih =>
    have whole : ∀ i < nops.length, (nops[i]?.getD []).length = i + 1 := by decide
    have inside : n - 1 < nops.length ∧ 0 < n ∧ n ≤ missing := by
      have nine : nops.length = 9 := rfl
      omega
    rw [List.length_append, whole _ inside.1, ih]
    omega

/-- Padded code fills the least multiple of the alignment that holds it. -/
theorem isLeast_length_pad (code : Bytes) :
    IsLeast {n | alignment ∣ n ∧ code.length ≤ n} (pad code).length := by
  have length : (pad code).length = code.length + missing code.length := by
    rw [pad, List.length_append, length_fill]
  rw [length]
  unfold missing alignment
  refine ⟨⟨?_, Nat.le_add_right _ _⟩, ?_⟩
  · omega
  · rintro n ⟨whole, holds⟩
    omega

end Padding

namespace FixupCounts

/-- Counts as placeholder numbers allow them. -/
def Small (counts : FixupCounts) : Prop := ∀ c, (counts.count c).toNat ≤ Placeholder.limit

variable {counts : FixupCounts}

theorem Small.total (small : counts.Small) : ∃ total, counts.total = .ok total ∧
    total.toNat = counts.boilerplates.toNat + counts.hosts.toNat + counts.constants.toNat := by
  have limit : 3 * Placeholder.limit < 2 ^ 32 := by decide
  have first : counts.boilerplates.toNat ≤ Placeholder.limit := small .boilerplate
  have second : counts.hosts.toNat ≤ Placeholder.limit := small .host
  have third : counts.constants.toNat ≤ Placeholder.limit := small .constant
  obtain ⟨functions, added, hfunctions⟩ :=
    Checked.add32_of_lt (a := counts.boilerplates) (b := counts.hosts) (by omega)
  obtain ⟨all, addedAll, hall⟩ :=
    Checked.add32_of_lt (a := functions) (b := counts.constants) (by omega)
  refine ⟨all, ?_, by omega⟩
  rw [FixupCounts.total, added]
  exact addedAll

/-- The positions of a class end before the number of all values does. -/
theorem Small.base (small : counts.Small) {total : UInt32} (htotal : counts.total = .ok total)
    {c : SymbolClass} (supplied : c ≠ .threadLocalBase) :
    ∃ base, counts.base c = .ok (some base) ∧
      base.toNat + (counts.count c).toNat ≤ total.toNat := by
  obtain ⟨all, hall, sum⟩ := small.total
  obtain rfl := Except.ok.inj (htotal.symm.trans hall)
  cases c with
  | boilerplate =>
    refine ⟨0, rfl, ?_⟩
    rw [UInt32.toNat_zero, count]
    omega
  | host =>
    refine ⟨counts.boilerplates, rfl, ?_⟩
    rw [count]
    omega
  | constant =>
    obtain ⟨functions, added, _⟩ := Outcome.bind_eq_ok.mp htotal
    refine ⟨functions, by rw [FixupCounts.base, added]; rfl, ?_⟩
    rw [count, Checked.toNat_of_add32 added]
    omega
  | threadLocalBase => exact absurd rfl supplied

end FixupCounts

theorem Blueprint.precheck_cases {b : Blueprint} {count : Nat} (counted : b.valueCount = .ok count)
    (site : Site) (room : Nat) :
    (precheck b site room = .ok () ∧ site.values.length = count) ∨
      ∃ cause, precheck b site room = .error (.error cause) := by
  rw [precheck_eq counted]
  by_cases small : room < b.code.length
  · exact Or.inr ⟨_, if_pos small⟩
  · rw [if_neg small]
    by_cases same : site.values.length = count
    · rw [if_neg (not_not.mpr same)]
      by_cases missing : b.needsThreadLocalBase ∧ site.threadLocalBase.isNone
      · exact Or.inr ⟨_, if_pos missing⟩
      · exact Or.inl ⟨if_neg missing, same⟩
    · exact Or.inr ⟨_, if_pos same⟩

namespace Extraction

variable {fixups : List FixupRecord}

theorem exists_countOf (small : ∀ f ∈ fixups, f.ordinal.toNat < Placeholder.limit)
    (c : SymbolClass) :
    ∃ count, countOf fixups c = .ok count ∧ count.toNat ≤ Placeholder.limit := by
  have limit : Placeholder.limit < 2 ^ 32 := by decide
  obtain ⟨needs, hneeds⟩ : ∃ needs, (fixups.filter (·.symbolClass = c)).mapM
      (fun f => Checked.add32 f.ordinal 1) = .ok needs := by
    refine Outcome.exists_mapM_eq_ok fun f listed => ?_
    have bound := small f (List.mem_filter.mp listed).1
    have one : (1 : UInt32).toNat = 1 := rfl
    obtain ⟨need, added, _⟩ := Checked.add32_of_lt (a := f.ordinal) (b := 1) (by omega)
    exact ⟨need, added⟩
  have counted : countOf fixups c = .ok (needs.foldl max 0) := by
    rw [countOf, hneeds]
    rfl
  refine ⟨_, counted, ?_⟩
  -- a count that is not zero is attained, so it is no larger than the limit
  by_cases none : (needs.foldl max 0).toNat = 0
  · rw [none]
    exact Nat.zero_le _
  · obtain ⟨f, member, _, largest⟩ := exists_ordinal_of_countOf counted none
    have bound := small f member
    omega

theorem exists_countsOf (small : ∀ f ∈ fixups, f.ordinal.toNat < Placeholder.limit) :
    ∃ counts, countsOf fixups = .ok counts ∧ counts.Small := by
  obtain ⟨boilerplates, hboilerplates, first⟩ := exists_countOf small .boilerplate
  obtain ⟨hosts, hhosts, second⟩ := exists_countOf small .host
  obtain ⟨constants, hconstants, third⟩ := exists_countOf small .constant
  refine ⟨⟨boilerplates, hosts, constants⟩, ?_, fun c => ?_⟩
  · rw [countsOf, hboilerplates, hhosts, hconstants]
    rfl
  · cases c with
    | boilerplate => exact first
    | host => exact second
    | constant => exact third
    | threadLocalBase => exact Nat.zero_le _

theorem exists_packOrdinal {counts : FixupCounts} (small : counts.Small)
    {f : FixupRecord} (bound : f.symbolClass ≠ .threadLocalBase →
      f.ordinal.toNat < (counts.count f.symbolClass).toNat) :
    ∃ g, packOrdinal counts f = .ok g := by
  by_cases supplied : f.symbolClass = .threadLocalBase
  · refine ⟨{ f with ordinal := 0 }, ?_⟩
    rw [packOrdinal, supplied]
    rfl
  · obtain ⟨total, htotal, _⟩ := small.total
    obtain ⟨base, hbase, below⟩ := small.base htotal supplied
    have inside := bound supplied
    have word := total.toNat_lt
    obtain ⟨ordinal, added, _⟩ := Checked.add32_of_lt (a := base) (b := f.ordinal) (by omega)
    exact ⟨{ f with ordinal }, Outcome.bind_eq_ok.mpr ⟨some base, hbase,
      Outcome.bind_eq_ok.mpr ⟨ordinal, added, rfl⟩⟩⟩

/-- With positions of at most eight digits, finishing never leaves its words. -/
theorem exists_finish (symbol : String) (code : Bytes)
    (small : ∀ f ∈ fixups, f.ordinal.toNat < Placeholder.limit) :
    ∃ extracted, finish symbol code fixups = .ok extracted := by
  obtain ⟨counts, counted, smallCounts⟩ := exists_countsOf small
  obtain ⟨packed, hpacked⟩ : ∃ packed, fixups.mapM (packOrdinal counts) = .ok packed :=
    Outcome.exists_mapM_eq_ok fun f member =>
      exists_packOrdinal smallCounts (ordinal_lt_count counted member)
  exact ⟨_, Outcome.bind_eq_ok.mpr ⟨counts, counted,
    Outcome.bind_eq_ok.mpr ⟨packed, hpacked, rfl⟩⟩⟩

/-- How a fixup describes a relocation of a stretch that begins at `start`: the place and the way of
patching, and for all but thread-local ones the packed position of the placeholder's value. -/
structure Describes (file : ObjectFile) (start : Nat) (counts : FixupCounts)
    (r : Object.Relocation) (g : FixupRecord) : Prop where
  offset : r.offset = start + g.offset.toNat
  kind : Extractor.kindOf? r.type = some g.kind
  threadLocal : g.kind = .threadLocalOffset32 ↔ g.symbolClass = .threadLocalBase
  ordinal : ∃ k, file.Names r g.symbolClass k ∧
    (g.symbolClass = .threadLocalBase → g.ordinal = 0) ∧
    (g.symbolClass ≠ .threadLocalBase → ∃ base, counts.base g.symbolClass = .ok (some base) ∧
      g.ordinal.toNat = base.toNat + k.toNat ∧ k.toNat < (counts.count g.symbolClass).toNat)

/-- An extracted variant accounts for the relocations of the stretch it was cut from. -/
structure Complete (file : ObjectFile) (home : Object.Section) (start stop : Nat)
    (extracted : ExtractedCode) : Prop where
  unpadded : extracted.unpaddedLen.toNat = stop - start
  padded : IsLeast {n | 16 ∣ n ∧ stop - start ≤ n} extracted.code.length
  /-- One fixup for each relocation, in the order of the offsets. -/
  fixups : List.Forall₂ (Describes file start extracted.counts)
    ((home.relocationsIn start stop).mergeSort fun a b => a.offset ≤ b.offset) extracted.fixups
  sorted : extracted.fixups.Pairwise fun f g => f.offset.toNat ≤ g.offset.toNat
  inside : ∀ g ∈ extracted.fixups, g.offset.toNat + g.kind.width ≤ stop - start
  symbol32 : extracted.symbol32 = (extracted.fixups.filter (·.kind = .selfRelative32)).map site
  symbol64 : extracted.symbol64 = (extracted.fixups.filter (·.kind = .absolute64)).map site
  threadLocal32 : extracted.threadLocal32 =
    (extracted.fixups.filter (·.kind = .threadLocalOffset32)).map (·.offset)
  selfRelative32 : extracted.selfRelative32 = extracted.symbol32.map (·.offset)
  /-- A count is above every number that a placeholder of the class has, and the next one to the
  largest of them. -/
  above : ∀ c ≠ .threadLocalBase, ∀ r ∈ home.relocationsIn start stop, ∀ k, file.Names r c k →
    k.toNat < (extracted.counts.count c).toNat
  attained : ∀ c ≠ .threadLocalBase, (extracted.counts.count c).toNat ≠ 0 →
    ∃ r ∈ home.relocationsIn start stop, ∃ k, file.Names r c k ∧
      k.toNat + 1 = (extracted.counts.count c).toNat
  total : ∃ total, extracted.counts.total = .ok total ∧
    ∀ g ∈ extracted.fixups, g.symbolClass ≠ .threadLocalBase → g.ordinal.toNat < total.toNat
  /-- Patching reports an error or succeeds, whatever the values, the place and the memory. -/
  safe : ∀ (site : Site) (destination : Bytes) (fault : Fault),
    (extracted.specialize site destination).2 ≠ .error (.fault fault)

/-- Patching a variant whose fields lie in the code and whose positions lie among the values never
faults. -/
theorem specialize_assemble {symbol : String} {code : Bytes} {unpaddedLen total : UInt32}
    {counts : FixupCounts} (inside : ∀ f ∈ fixups, f.field.offset + f.field.width ≤ code.length)
    (counted : counts.total = .ok total)
    (given : ∀ f ∈ fixups, f.kind ≠ .threadLocalOffset32 → f.ordinal.toNat < total.toNat)
    (site : Site) (destination : Bytes) (fault : Fault) :
    ((assemble symbol code unpaddedLen counts fixups).specialize site destination).2 ≠
      .error (.fault fault) := by
  have count : (assemble symbol code unpaddedLen counts fixups).valueCount = .ok total.toNat := by
    show Except.map UInt32.toNat counts.total = _
    rw [counted]
    rfl
  rw [Blueprint.specialize_eq, Blueprint.patch]
  rcases Blueprint.precheck_cases count site destination.length with
    ⟨checked, supplied⟩ | ⟨cause, refused⟩
  · rw [checked]
    rw [← supplied] at given
    show Except.map _ (Blueprint.applySteps _ code).2 ≠ _
    rcases applySteps_assemble inside given with ⟨_, done⟩ | ⟨f, _, _, _, stopped⟩
    · rw [done]
      intro no; cases no
    · rw [stopped]
      intro no; cases no
  · rw [refused]
    intro no; cases no

/-- A fixup speaks of a relocation of the file: of its place, its type and its placeholder. -/
structure SpeaksOf (file : ObjectFile) (start : Nat) (r : Object.Relocation) (f : FixupRecord) :
    Prop where
  offset : r.offset = start + f.offset.toNat
  kind : Extractor.kindOf? r.type = some f.kind
  threadLocal : f.kind = .threadLocalOffset32 ↔ f.symbolClass = .threadLocalBase
  names : file.Names r f.symbolClass f.ordinal

theorem speaksOf {file : ObjectFile} {start : Nat} {r : Object.Relocation} {t : TargetedRelocation}
    {f : FixupRecord} (low : start ≤ r.offset) (target : targeted file r = some t)
    (made : MadeFrom start t f) : SpeaksOf file start r f := by
  obtain ⟨offset, type, _, found⟩ := targeted_eq_some target
  obtain ⟨name, named, parsed⟩ := made.placeholder
  refine ⟨?_, type ▸ made.kind, made.threadLocal, names_of_targetOf (named ▸ found) parsed⟩
  rw [made.offset, offset]
  omega

theorem SpeaksOf.describes {file : ObjectFile} {start : Nat} {counts : FixupCounts}
    {r : Object.Relocation} {f g : FixupRecord} (speaks : SpeaksOf file start r f)
    (bound : f.symbolClass ≠ .threadLocalBase →
      f.ordinal.toNat < (counts.count f.symbolClass).toNat)
    (packed : PackedFrom counts f g) : Describes file start counts r g := by
  refine ⟨?_, ?_, ?_, f.ordinal, ?_, ?_, ?_⟩
  · rw [packed.offset]
    exact speaks.offset
  · rw [packed.kind]
    exact speaks.kind
  · rw [packed.kind, packed.symbolClass]
    exact speaks.threadLocal
  · rw [packed.symbolClass]
    exact speaks.names
  · rw [packed.symbolClass]
    exact packed.unnumbered
  · rw [packed.symbolClass]
    intro supplied
    obtain ⟨base, hbase, ordinal⟩ := packed.ordinal supplied
    exact ⟨base, hbase, ordinal, bound supplied⟩

theorem sorted_mergeSort_offset (fixups : List FixupRecord) :
    (fixups.mergeSort fun f g => f.offset ≤ g.offset).Pairwise
      fun f g => f.offset.toNat ≤ g.offset.toNat := by
  have order : (fixups.mergeSort fun f g => f.offset ≤ g.offset).Pairwise
      fun f g => decide (f.offset ≤ g.offset) = true := by
    apply List.pairwise_mergeSort
    · intro f g h first second
      exact decide_eq_true
        (UInt32.le_trans (of_decide_eq_true first) (of_decide_eq_true second))
    · intro f g
      rcases UInt32.le_total f.offset g.offset with le | le
      · rw [decide_eq_true le, Bool.true_or]
      · rw [decide_eq_true le, Bool.or_true]
  exact order.imp fun le => UInt32.le_iff_toNat_le.mp (of_decide_eq_true le)

/-- Fixups that speak of the relocations of a stretch, one of each, are finished to a variant that
accounts for them. -/
theorem complete_of_finish {file : ObjectFile} {home : Object.Section} {baked : Bytes}
    {start stop : Nat} {symbol : String} {extracted : ExtractedCode}
    (short : stop - start < 2 ^ 32)
    (speak : List.Forall₂ (SpeaksOf file start) (home.relocationsIn start stop) fixups)
    (eight : ∀ f ∈ fixups, f.ordinal.toNat < Placeholder.limit)
    (inside : ∀ f ∈ fixups, f.field.offset + f.field.width ≤ stop - start)
    (length : baked.length = stop - start)
    (finished : finish symbol baked fixups = .ok extracted) :
    Complete file home start stop extracted := by
  obtain ⟨counts, packed, counted, hpacked, rfl⟩ := finish_eq_ok finished
  have packings := (Outcome.mapM_eq_ok.mp hpacked).imp fun _ _ => packOrdinal_eq_ok
  have bounds : ∀ f ∈ fixups, f.symbolClass ≠ .threadLocalBase →
      f.ordinal.toNat < (counts.count f.symbolClass).toNat :=
    fun f member => ordinal_lt_count counted member
  have described : List.Forall₂ (Describes file start counts) (home.relocationsIn start stop)
      packed :=
    forall₂_trans (fun _ _ _ speaks both => speaks.describes both.1 both.2) speak
      ((List.forall₂_and_left _ _).mpr ⟨bounds, packings⟩)
  -- all offsets are counted from one start, so both sides are sorted alike
  have ordered := forall₂_mergeSort (r := fun a b => a.offset ≤ b.offset)
    (s := fun f g => f.offset ≤ g.offset) (fun a f b g first second => by
      rw [first.offset, second.offset]
      exact decide_eq_decide.mpr (by rw [Nat.add_le_add_iff_left, UInt32.le_iff_toNat_le]))
    described
  have fields : ∀ g ∈ packed.mergeSort fun f g => f.offset ≤ g.offset,
      g.field.offset + g.field.width ≤ stop - start := by
    intro g member
    obtain ⟨f, hf, packing⟩ := exists_left packings (List.mem_mergeSort.mp member)
    rw [packing.field]
    exact inside f hf
  have small : counts.Small := by
    obtain ⟨again, recounted, small⟩ := exists_countsOf eight
    obtain rfl := Except.ok.inj (counted.symm.trans recounted)
    exact small
  obtain ⟨total, htotal, _⟩ := small.total
  have below : ∀ g ∈ packed.mergeSort fun f g => f.offset ≤ g.offset,
      g.symbolClass ≠ .threadLocalBase → g.ordinal.toNat < total.toNat := by
    intro g member supplied
    obtain ⟨r, _, describes⟩ := exists_left ordered member
    obtain ⟨k, _, _, numbered⟩ := describes.ordinal
    obtain ⟨base, hbase, ordinal, bound⟩ := numbered supplied
    obtain ⟨again, hagain, fits⟩ := small.base htotal supplied
    obtain rfl := Option.some.inj (Except.ok.inj (hbase.symm.trans hagain))
    omega
  have least := Padding.isLeast_length_pad baked
  rw [length] at least
  refine ⟨?_, least, ordered, sorted_mergeSort_offset packed, fields, rfl, rfl, rfl, ?_, ?_, ?_,
    ⟨total, htotal, below⟩, ?_⟩
  · show (UInt32.ofNat baked.length).toNat = stop - start
    rw [length, UInt32.toNat_ofNat_of_lt' short]
  · show List.map FixupRecord.offset _ = List.map FixupSite.offset (List.map site _)
    rw [List.map_map]
    rfl
  · intro c supplied r member k names
    obtain ⟨f, hf, speaks⟩ := exists_right speak member
    obtain ⟨rfl, rfl⟩ := names.unique speaks.names
    exact bounds f hf supplied
  · intro c supplied some
    obtain ⟨f, hf, rfl, largest⟩ :=
      exists_ordinal_of_countOf (countOf_of_countsOf counted supplied) some
    obtain ⟨r, hr, speaks⟩ := exists_left speak hf
    exact ⟨r, hr, f.ordinal, speaks.names, largest⟩
  · -- a field within the unpadded code is within what is patched
    have enough : stop - start ≤ (Padding.pad baked).length := least.1.2
    exact specialize_assemble (fun g member => Nat.le_trans (fields g member) enough) htotal
      fun g member kind => below g member fun no => by
        obtain ⟨r, _, describes⟩ := exists_left ordered member
        exact kind (describes.threadLocal.mpr no)

end Extraction

namespace Extractor

open Extraction

theorem bake_ordinal_lt {e : Extractor} {symbol : String} {code baked : Bytes} {offset : UInt32}
    {relocation : TargetedRelocation} {f : FixupRecord}
    (h : e.bake symbol code offset relocation = .ok (baked, f)) :
    f.ordinal.toNat < Placeholder.limit := by
  obtain ⟨⟨kind, symbolClass, ordinal⟩, classified, h⟩ := Outcome.bind_eq_ok.mp h
  obtain ⟨_, ⟨name, _, parsed⟩, _⟩ := classify_eq_ok classified
  dsimp only at h
  split at h
  · cases h
  · split at h
    · cases h
    · cases h
      exact Placeholder.parse_lt parsed

theorem bakeAll_ordinal_lt {e : Extractor} {symbol : String} {start stop : Nat}
    {relocations : List TargetedRelocation} {code baked : Bytes} {fixups : List FixupRecord}
    (h : e.bakeAll symbol start stop relocations code = .ok (baked, fixups)) :
    ∀ f ∈ fixups, f.ordinal.toNat < Placeholder.limit := by
  induction relocations generalizing code fixups with
  | nil =>
    cases h
    exact fun _ member => nomatch member
  | cons relocation rest ih =>
    rw [bakeAll] at h
    split at h
    · obtain ⟨⟨middle, first⟩, one, h⟩ := Outcome.bind_eq_ok.mp h
      obtain ⟨⟨last, others⟩, all, h⟩ := Outcome.bind_eq_ok.mp h
      cases h
      exact List.forall_mem_cons.mpr ⟨bake_ordinal_lt one, ih all⟩
    · exact ih h

/-- What is baked can always be finished, so extraction faults only where the symbol table gives no
range in its words. -/
theorem extract_eq_fault {e : Extractor} {symbol : String} {fault : Fault}
    (h : e.extract symbol = .error (.fault fault)) :
    ∃ home data, e.file.sectionNamed? (".text." ++ symbol) = some home ∧ home.data = some data ∧
      e.range symbol home data.length = .error fault := by
  unfold extract at h
  split at h
  · cases h
  · rename_i home located
    split at h
    · cases h
    · rename_i data hdata
      rcases Outcome.bind_eq_error.mp h with ranged | ⟨⟨start, stop⟩, _, h⟩
      · obtain ⟨_, ranged, same⟩ := Outcome.mapError_eq_error.mp ranged
        cases same
        exact ⟨home, data, located, hdata, ranged⟩
      · dsimp only at h
        split at h
        · cases h
        · rcases Outcome.bind_eq_error.mp h with reported | ⟨⟨baked, fixups⟩, hbake, h⟩
          · obtain ⟨_, _, impossible⟩ := Outcome.mapError_eq_error.mp reported
            cases impossible
          · rw [Outcome.ofReporting_eq_ok] at hbake
            obtain ⟨extracted, finished⟩ := exists_finish symbol baked (bakeAll_ordinal_lt hbake)
            rw [finished] at h
            cases h

end Extractor

/-- Extraction accounts for every relocation. What it gives for a symbol has, in a stretch that 32
bits can count, exactly one fixup for each relocation of the stretch, with tables and counts to
match, and patching it never faults. No sum of positions leaves its word on the way: a fault of
extraction is one of the range that the symbol table gives. -/
theorem extraction_accounts_for_relocations {object : Bytes} {file : ObjectFile}
    {moduleName symbol : String} {e : Extractor} (accepted : Object.accept object = .ok file)
    (opened : Extractor.ofFile moduleName file = .ok e) :
    (∀ fault, e.extract symbol = .error (.fault fault) →
      ∃ home data, file.sectionNamed? (".text." ++ symbol) = some home ∧ home.data = some data ∧
        e.range symbol home data.length = .error fault) ∧
    ∀ extracted, e.extract symbol = .ok extracted →
      ∃ home data start stop,
        file.sectionNamed? (".text." ++ symbol) = some home ∧ home.data = some data ∧
        e.range symbol home data.length = .ok (start, stop) ∧ start ≤ stop ∧ stop ≤ data.length ∧
        (stop - start < 2 ^ 32 → Extraction.Complete file home start stop extracted) := by
  have same := (Extractor.ofFile_eq_ok opened).1
  constructor
  · intro fault faulted
    rw [← same]
    exact Extractor.extract_eq_fault faulted
  · intro extracted hextract
    obtain ⟨home, data, start, stop, baked, fixups, located, hdata, hrange, order, bound, hbake,
      finished⟩ := Extractor.extract_eq_ok hextract
    rw [same] at located
    refine ⟨home, data, start, stop, located, hdata, hrange, order, bound, fun short => ?_⟩
    have found := Extraction.forall₂_inRange start stop (Extractor.relocationsOf_section
      (Object.accept_numbered accepted) opened (List.mem_of_find?_eq_some located))
    have cut : ((data.drop start).take (stop - start)).length = stop - start := by
      rw [List.length_take, List.length_drop]
      omega
    obtain ⟨made, length, inside⟩ := Extractor.bakeAll_made short hbake
    rw [cut] at length inside
    have speak : List.Forall₂ (Extraction.SpeaksOf file start) (home.relocationsIn start stop)
        fixups := by
      refine forall₂_trans ?_ ((List.forall₂_and_left _ _).mpr
        ⟨fun _ member => Object.Section.le_of_mem_relocationsIn member, found⟩) made
      intro r t f both made
      exact Extraction.speaksOf both.1 both.2 made
    exact Extraction.complete_of_finish short speak (Extractor.bakeAll_ordinal_lt hbake) inside
      length finished

/-- The first body of the small object, with a relocation of each type. -/
theorem small_extraction_is_complete :
    ∃ file e extracted home, Object.accept SmallObject.bytes = .ok file ∧
      Extractor.ofFile "m" file = .ok e ∧ e.extract "f_false" = .ok extracted ∧
      file.sectionNamed? (".text." ++ "f_false") = some home ∧
      (home.relocationsIn 0 24).map (·.offset) = [2, 11, 19] ∧
      Extraction.Complete file home 0 24 extracted := by
  have evaluated : (do
      let file ← (Object.accept SmallObject.bytes).toOption
      let e ← (Extractor.ofFile "m" file).toOption
      let extracted ← (e.extract "f_false").toOption
      let home ← file.sectionNamed? (".text." ++ "f_false")
      let data ← home.data
      let range ← (e.range "f_false" home data.length).toOption
      return decide (range = (0, 24) ∧ (home.relocationsIn 0 24).map (·.offset) = [2, 11, 19])) =
      some true := by decide +kernel
  simp only [Option.bind_eq_bind, Option.bind_eq_some_iff, Outcome.toOption_eq_some] at evaluated
  obtain ⟨file, accepted, e, opened, extracted, hextract, home, located, data, hdata, range, ranged,
    facts⟩ := evaluated
  obtain ⟨rfl, offsets⟩ := of_decide_eq_true (Option.some.inj facts)
  obtain ⟨_, _, start, stop, located', hdata', ranged', _, _, complete⟩ :=
    (extraction_accounts_for_relocations accepted opened).2 extracted hextract
  obtain rfl := Option.some.inj (located.symm.trans located')
  obtain rfl := Option.some.inj (hdata.symm.trans hdata')
  obtain ⟨rfl, rfl⟩ := Prod.mk.inj (Except.ok.inj (ranged.symm.trans ranged'))
  exact ⟨file, e, extracted, home, accepted, opened, hextract, located, offsets,
    complete (by decide)⟩

end CopyPatch
