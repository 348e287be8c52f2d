import CopyPatch.Extraction
import CopyPatch.Proofs.Outcome

/-! Sections and their relocations. A file that is read numbers its sections by position, so an
extractor finds for a section the relocations that the file holds for it. -/
namespace CopyPatch

/-- Sections are numbered by their positions. -/
def ObjectFile.Numbered (file : ObjectFile) : Prop :=
  ∀ (i : Nat) (s : Object.Section), file.sections[i]? = some s → s.index = i

namespace ObjectFile.Numbered

variable {file : ObjectFile} (numbered : file.Numbered)

include numbered

theorem getElem?_index {s : Object.Section} (member : s ∈ file.sections) :
    file.sections[s.index]? = some s := by
  obtain ⟨i, found⟩ := List.mem_iff_getElem?.mp member
  rwa [numbered i s found]

theorem index_proper {i : Nat} {s : Object.Section} (found : file.properSections[i]? = some s) :
    s.index = 1 + i := by
  refine numbered (1 + i) s ?_
  rwa [ObjectFile.properSections, List.getElem?_drop] at found

end ObjectFile.Numbered

namespace Object

/-- The relocations that apply to a section. None apply to the null entry. -/
def Section.applied (s : Section) : List Relocation := if s.index = 0 then [] else s.relocations

theorem Elf.read_numbered {bytes : Bytes} {format : Format} {file : ObjectFile}
    (h : Elf.read bytes = some (format, file)) : file.Numbered := by
  obtain ⟨e, _, h⟩ := Option.bind_eq_some_iff.mp h
  obtain ⟨header, _, h⟩ := Option.bind_eq_some_iff.mp h
  split at h
  · cases h
  · obtain ⟨headers, _, h⟩ := Option.bind_eq_some_iff.mp h
    obtain ⟨names, _, h⟩ := Option.bind_eq_some_iff.mp h
    obtain ⟨table, _, h⟩ := Option.bind_eq_some_iff.mp h
    obtain ⟨_, _, h⟩ := Option.bind_eq_some_iff.mp h
    split at h
    · cases h
    · cases h
      intro i s found
      simp only [List.getElem?_map, List.getElem?_zipIdx, Option.map_map,
        Option.map_eq_some_iff] at found
      obtain ⟨_, _, rfl⟩ := found
      exact Nat.zero_add i

theorem read_numbered {bytes : Bytes} {format : Format} {file : ObjectFile}
    (h : read bytes = some (format, file)) : file.Numbered := by
  have empty : (⟨[], []⟩ : ObjectFile).Numbered := fun i s found => by cases found
  have unread : ∀ (found : Option Format), found.map (·, (⟨[], []⟩ : ObjectFile)) =
      some (format, file) → file.Numbered := by
    intro found h
    obtain ⟨_, _, same⟩ := Option.map_eq_some_iff.mp h
    cases same
    exact empty
  obtain ⟨ident, _, h⟩ := Option.bind_eq_some_iff.mp h
  split at h
  · exact Elf.read_numbered h
  · exact unread _ h
  · exact unread _ h
  · exact unread _ h
  · exact unread _ h
  · exact unread _ h
  · cases h

theorem read_of_accept {bytes : Bytes} {file : ObjectFile} (h : accept bytes = .ok file) :
    ∃ format, read bytes = some (format, file) := by
  unfold accept at h
  split at h
  · cases h
  · rename_i format _ found
    split at h
    · cases h
      exact ⟨format, found⟩
    · cases h

/-- A file that is accepted numbers its sections by position. -/
theorem accept_numbered {bytes : Bytes} {file : ObjectFile} (h : accept bytes = .ok file) :
    file.Numbered := by
  obtain ⟨format, found⟩ := read_of_accept h
  exact read_numbered found

end Object

theorem lookup_numbered {α : Type} {entries : List (Nat × α)} {n : Nat}
    (numbered : ∀ (i : Nat) (entry : Nat × α), entries[i]? = some entry → entry.1 = n + i)
    (k : Nat) :
    entries.lookup k = if n ≤ k then (entries[k - n]?).map (·.2) else none := by
  induction entries generalizing n with
  | nil => simp
  | cons first rest ih =>
    have key : first.1 = n := numbered 0 first rfl
    have later := @ih (n + 1) fun i entry h => by
      rw [numbered (i + 1) entry h]
      omega
    obtain ⟨m, a⟩ := first
    obtain rfl : n = m := key.symm
    rw [List.lookup_cons, later]
    rcases Nat.lt_trichotomy k n with low | rfl | high
    · have other : (k == n) = false := beq_eq_false_iff_ne.mpr (by omega)
      rw [other, if_neg (by omega), if_neg (by omega)]
    · simp
    · have other : (k == n) = false := beq_eq_false_iff_ne.mpr (by omega)
      have shift : k - n = k - (n + 1) + 1 := by omega
      rw [other, if_pos (by omega), if_pos (by omega), shift, List.getElem?_cons_succ]

namespace Extractor

open Extraction

theorem ofFile_eq_ok {moduleName : String} {file : ObjectFile} {e : Extractor}
    (h : ofFile moduleName file = .ok e) :
    e.file = file ∧ List.Forall₂ (fun (s : Object.Section) entry => entry.1 = s.index ∧
      s.relocations.mapM (targeted file) = some entry.2) file.properSections e.relocations := by
  unfold ofFile at h
  split at h
  · rename_i relocations collected
    obtain ⟨_, given, h⟩ := Outcome.bind_eq_ok.mp h
    cases given
    obtain ⟨extents, _, h⟩ := Outcome.bind_eq_ok.mp h
    cases h
    refine ⟨rfl, (Outcome.mapM_eq_some.mp collected).imp fun s entry h => ?_⟩
    obtain ⟨found, hfound, rfl⟩ := Option.map_eq_some_iff.mp h
    exact ⟨rfl, hfound⟩
  · cases h

/-- An extractor holds for a section the relocations that apply to it, with their targets. -/
theorem relocationsOf_section {moduleName : String} {file : ObjectFile} {e : Extractor}
    (numbered : file.Numbered) (h : ofFile moduleName file = .ok e) {home : Object.Section}
    (member : home ∈ file.sections) :
    List.Forall₂ (fun r t => targeted file r = some t) home.applied
      (e.relocationsOf home.index) := by
  obtain ⟨_, paired⟩ := ofFile_eq_ok h
  have keys : ∀ (i : Nat) (entry : Nat × List TargetedRelocation),
      e.relocations[i]? = some entry → entry.1 = 1 + i := by
    intro i entry held
    obtain ⟨inside, rfl⟩ := List.getElem?_eq_some_iff.mp held
    have within : i < file.properSections.length := paired.length_eq ▸ inside
    exact (paired.get within inside).1.trans
      (numbered.index_proper (List.getElem?_eq_getElem within))
  obtain ⟨i, found⟩ := List.mem_iff_getElem?.mp member
  have index := numbered i home found
  rw [relocationsOf, lookup_numbered keys, Object.Section.applied, index]
  cases i with
  | zero => exact .nil
  | succ i =>
    have proper : file.properSections[i]? = some home := by
      rw [ObjectFile.properSections, List.getElem?_drop, Nat.add_comm, found]
    obtain ⟨within, same⟩ := List.getElem?_eq_some_iff.mp proper
    have inside : i < e.relocations.length := paired.length_eq ▸ within
    have collected := (paired.get within inside).2
    rw [List.get_eq_getElem, same] at collected
    rw [if_pos (Nat.le_add_left 1 i), Nat.add_sub_cancel, List.getElem?_eq_getElem inside,
      if_neg (Nat.succ_ne_zero i)]
    exact Outcome.mapM_eq_some.mp collected

end Extractor

namespace SmallObject

def symbolEntry (name info home : Nat) : Bytes :=
  Bytes.ofNat 4 name ++ Bytes.ofNat 2 info ++ Bytes.ofNat 2 home ++ Bytes.ofNat 16 0

def relocationEntry (offset type symbol : Nat) (addend : Int) : Bytes :=
  Bytes.ofNat 8 offset ++ Bytes.ofNat 4 type ++ Bytes.ofNat 4 symbol ++
    Bytes.ofNat 8 (Bytes.residue 8 addend)

def sectionEntry (name type offset size link info : Nat) : Bytes :=
  Bytes.ofNat 4 name ++ Bytes.ofNat 4 type ++ Bytes.ofNat 16 0 ++ Bytes.ofNat 8 offset ++
    Bytes.ofNat 8 size ++ Bytes.ofNat 4 link ++ Bytes.ofNat 4 info ++ Bytes.ofNat 8 1 ++
    Bytes.ofNat 8 0

/-- Class, order and version, then the type, the machine and the place of the six sections. -/
def header : Bytes :=
  [0x7f, 0x45, 0x4c, 0x46, 2, 1, 1] ++ Bytes.ofNat 9 0 ++ Bytes.ofNat 2 1 ++ Bytes.ofNat 2 62 ++
    Bytes.ofNat 4 1 ++ Bytes.ofNat 16 0 ++ Bytes.ofNat 8 405 ++ Bytes.ofNat 10 0 ++
    Bytes.ofNat 2 64 ++ Bytes.ofNat 2 6 ++ Bytes.ofNat 2 5

/-- Load a constant, call a host function, load from the thread, return. -/
def body : Bytes :=
  [0x48, 0xb8] ++ Bytes.ofNat 8 0 ++ [0xe8] ++ Bytes.ofNat 4 0 ++
    [0x64, 0x8b, 0x04, 0x25] ++ Bytes.ofNat 4 0 ++ [0xc3]

def names : Bytes :=
  Bytes.ofText ("\x00.text.f_false\x00.text.f_true\x00__patchwork_const_0\x00" ++
    "__patchwork_host_fn_0\x00__patchwork_thread_local_base\x00")

/-- A small object for worked cases: the bodies `f_false` and `f_true`, the first with a relocation
of each supported type. -/
def bytes : Bytes :=
  header ++ body ++ [0xc3] ++
    relocationEntry 2 1 3 5 ++ relocationEntry 11 4 4 (-4) ++ relocationEntry 19 23 5 8 ++
    symbolEntry 0 0 0 ++ symbolEntry 7 0x12 1 ++ symbolEntry 21 0x12 2 ++
    symbolEntry 28 0x10 0 ++ symbolEntry 48 0x10 0 ++ symbolEntry 70 0x10 0 ++ names ++
    sectionEntry 0 0 0 0 0 0 ++ sectionEntry 1 1 64 24 0 0 ++ sectionEntry 15 1 88 1 0 0 ++
    sectionEntry 0 4 89 72 4 1 ++ sectionEntry 0 2 161 144 5 1 ++ sectionEntry 0 3 305 100 0 0

end SmallObject

end CopyPatch
