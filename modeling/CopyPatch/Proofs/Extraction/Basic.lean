import CopyPatch.Extraction
import CopyPatch.Proofs.Outcome

/-! Extraction read backwards: which section, range and relocations an extracted variant comes
from. -/
namespace CopyPatch

namespace Extraction

theorem finish_eq_ok {symbol : String} {code : Bytes} {fixups : List FixupRecord}
    {extracted : ExtractedCode} (h : finish symbol code fixups = .ok extracted) :
    ∃ counts packed, countsOf fixups = .ok counts ∧
      fixups.mapM (packOrdinal counts) = .ok packed ∧
      extracted = assemble symbol (Padding.pad code) (UInt32.ofNat code.length) counts
        (packed.mergeSort fun a b => a.offset ≤ b.offset) := by
  obtain ⟨counts, hcounts, h⟩ := Outcome.bind_eq_ok.mp h
  obtain ⟨packed, hpacked, h⟩ := Outcome.bind_eq_ok.mp h
  cases h
  exact ⟨counts, packed, hcounts, hpacked, rfl⟩

end Extraction

namespace Extractor

open Extraction

theorem extract_eq_ok {e : Extractor} {symbol : String} {extracted : ExtractedCode}
    (h : e.extract symbol = .ok extracted) :
    ∃ home data start stop code fixups,
      e.file.sectionNamed? (".text." ++ symbol) = some home ∧ home.data = some data ∧
      e.range symbol home data.length = .ok (start, stop) ∧ start ≤ stop ∧ stop ≤ data.length ∧
      e.bakeAll symbol start stop (e.relocationsOf home.index)
        ((data.drop start).take (stop - start)) = .ok (code, fixups) ∧
      finish symbol code fixups = .ok extracted := by
  unfold extract at h
  split at h
  · cases h
  · rename_i home hhome
    split at h
    · cases h
    · rename_i data hdata
      obtain ⟨⟨start, stop⟩, hrange, h⟩ := Outcome.bind_eq_ok.mp h
      rw [Outcome.ofFaulting_eq_ok] at hrange
      simp only [Bool.or_eq_true, decide_eq_true_eq] at h
      split at h
      · cases h
      · rename_i inside
        obtain ⟨⟨code, fixups⟩, hbake, h⟩ := Outcome.bind_eq_ok.mp h
        rw [Outcome.ofReporting_eq_ok] at hbake
        rw [Outcome.ofFaulting_eq_ok] at h
        exact ⟨home, data, start, stop, code, fixups, hhome, hdata, hrange, by omega, by omega,
          hbake, h⟩

/-- An extracted variant carries the name it was asked for. -/
theorem symbol_of_extract {e : Extractor} {symbol : String} {extracted : ExtractedCode}
    (h : e.extract symbol = .ok extracted) : extracted.symbol = symbol := by
  obtain ⟨_, _, _, _, _, _, _, _, _, _, _, _, finished⟩ := extract_eq_ok h
  obtain ⟨_, _, _, _, rfl⟩ := finish_eq_ok finished
  rfl

end Extractor

end CopyPatch
