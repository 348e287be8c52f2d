import CopyPatch.Manifest.Basic
import CopyPatch.Manifest.Issue

/-! Reading a body template: literal text with axis names in braces. A brace that closes nothing
is noticed only behind the last placeholder; before a placeholder it is part of the text. -/
namespace CopyPatch.Manifest.Template

/-- A literal segment, unless it is empty. -/
def literal (text : List Char) : List Segment :=
  if text.isEmpty then [] else [.literal (String.ofList text)]

mutual

/-- Read on inside literal text, of which `seen` is the part so far, last character first. -/
def inText (body : String) (names : List String) (seen : List Char) :
    List Char → Except FamilyIssue (List Segment)
  | [] => if seen.contains '\x7d' then .error (.strayBrace body) else .ok (literal seen.reverse)
  | c :: rest =>
    if c = '\x7b' then (inName body names [] rest).map (literal seen.reverse ++ ·)
    else inText body names (c :: seen) rest

/-- Read on inside a placeholder. -/
def inName (body : String) (names : List String) (seen : List Char) :
    List Char → Except FamilyIssue (List Segment)
  | [] => .error (.openPlaceholder body)
  | c :: rest =>
    if c = '\x7d' then
      let name := String.ofList seen.reverse
      match names.idxOf? name with
      | some position => (inText body names [] rest).map (.axis position :: ·)
      | none => .error (.unknownPlaceholder body name)
    else inName body names (c :: seen) rest

end

/-- The segments of a template over axes with the given names. -/
def parse (body : String) (names : List String) : Except FamilyIssue (List Segment) :=
  match inText body names [] body.toList with
  | .ok [] => .error .emptyBody
  | result => result

end CopyPatch.Manifest.Template
