import CopyPatch.Index.Placement
import CopyPatch.Index.Size

/-! Building an index from a stream of random words. Coefficients for the two slots are drawn until
every tuple can be placed, then coefficients for the fingerprint until all fingerprints differ and
none is the vacant mark. The finished index is verified against its tuples. -/
namespace CopyPatch

/-- Why the verification of an index failed. -/
inductive IndexFlaw where
  | wrongOrdinal (tuple : Tuple) (found : UInt32) (expected : Nat)
  | absent (tuple : Tuple)
  | ambiguous (tuple : Tuple)
  deriving DecidableEq, Repr

def IndexFlaw.message : IndexFlaw → String
  | wrongOrdinal tuple found expected =>
    s!"{Text.tuple tuple} resolves to ordinal {found} instead of {expected}"
  | absent tuple => s!"{Text.tuple tuple} is in neither candidate slot"
  | ambiguous tuple => s!"{Text.tuple tuple} matches both candidate slots"

inductive IndexError where
  | exhausted (family : String) (attempts : Nat)
  | unverified (family : String) (flaw : IndexFlaw)
  deriving DecidableEq, Repr

def IndexError.message : IndexError → String
  | exhausted family attempts =>
    s!"family {Text.quoted family}: no perfect hash found after {attempts} attempts"
  | unverified family flaw =>
    s!"family {Text.quoted family}: perfect hash verification failed: {flaw.message}"

namespace Index

/-- The slots among a tuple's candidates that carry its fingerprint. -/
def matchesOf (index : Index) (tuple : Tuple) (a b : Nat) : List Slot :=
  ((if b = a then [a] else [a, b]).filterMap fun i => index.slots[i]?).filter
    fun slot => slot.fingerprint = index.fingerprint tuple

/-- Exactly one candidate slot of the tuple matches, and it holds the ordinal. -/
def verifyOne (index : Index) (family : String) (ordinal : Nat) (tuple : Tuple) :
    Outcome IndexError Unit := do
  let (a, b) ← Outcome.ofFaulting (index.candidates tuple)
  match index.matchesOf tuple a b with
  | [slot] =>
    if slot.ordinal.toNat = ordinal then return ()
    else Outcome.fail (.unverified family (.wrongOrdinal tuple slot.ordinal ordinal))
  | [] => Outcome.fail (.unverified family (.absent tuple))
  | _ => Outcome.fail (.unverified family (.ambiguous tuple))

def verifyFrom (index : Index) (family : String) : Nat → List Tuple → Outcome IndexError Unit
  | _, [] => .ok ()
  | ordinal, tuple :: rest => do
    index.verifyOne family ordinal tuple
    index.verifyFrom family (ordinal + 1) rest

/-- Every tuple resolves to its own position in the list. -/
def verify (index : Index) (family : String) (tuples : List Tuple) : Outcome IndexError Unit :=
  index.verifyFrom family 0 tuples

/-- The draws of coefficients allowed before construction gives up. -/
def maxAttempts : Nat := 10000

/-- Draw a number of words from a source. -/
def draw {σ : Type} (next : σ → UInt32 × σ) : Nat → σ → List UInt32 × σ
  | 0, source => ([], source)
  | count + 1, source =>
    let (word, source) := next source
    let (rest, source) := draw next count source
    (word :: rest, source)

/-- No two fingerprints agree and none is the vacant mark. -/
def fingerprintsUsable (tuples : Array Tuple) (h3 : List UInt32) : Bool :=
  let prints := (tuples.map (dot h3)).toList
  prints.all (· ≠ Slot.vacantMark) && decide prints.Nodup

/-- The slot for an entry of a board under a fingerprint vector. -/
def slotFor (tuples : Array Tuple) (h3 : List UInt32) : Option (Fin tuples.size) → Slot
  | some i => ⟨UInt32.ofNat i.val, dot h3 tuples[i]⟩
  | none => Slot.vacant

/-- The slots of a board under a fingerprint vector. -/
def slotsOf (tuples : Array Tuple) (h3 : List UInt32) {size : Nat}
    (board : Placement.Board tuples.size size) : Array Slot :=
  board.toArray.map (slotFor tuples h3)

/-- What a search works on. -/
structure Search (σ : Type) where
  family : String
  arity : Nat
  tuples : Array Tuple
  next : σ → UInt32 × σ

namespace Search

variable {σ : Type}

def exhausted (s : Search σ) (attempts : Nat) : Outcome IndexError Index :=
  Outcome.fail (.exhausted s.family attempts)

/-- Draw fingerprint coefficients for a finished placement until some are usable. -/
def fingerprints (s : Search σ) (h1 h2 : List UInt32) {size : Nat}
    (board : Placement.Board s.tuples.size size) (attempts : Nat) (source : σ) :
    Outcome IndexError Index :=
  if attempts < maxAttempts then
    let (h3, source) := draw s.next s.arity source
    if fingerprintsUsable s.tuples h3 then
      let index : Index := ⟨h1, h2, h3, slotsOf s.tuples h3 board⟩
      (index.verify s.family s.tuples.toList).map fun _ => index
    else fingerprints s h1 h2 board (attempts + 1) source
  else s.exhausted attempts
termination_by maxAttempts - attempts

/-- Draw slot coefficients until every tuple has a place. The fingerprints are drawn with the
attempts that are left. -/
def slots (s : Search σ) (attempts : Nat) (source : σ) : Outcome IndexError Index :=
  if attempts < maxAttempts then
    let (h1, source) := draw s.next s.arity source
    let (h2, source) := draw s.next s.arity source
    match Placement.place
        (Placement.choicesOf s.tuples h1 h2 (slotCount s.tuples.size) (slotCount_pos _)) with
    | none => slots s (attempts + 1) source
    | some board => s.fingerprints h1 h2 board (attempts + 1) source
  else s.exhausted attempts
termination_by maxAttempts - attempts

end Search

/-- An index in which `tuples[i]` maps to ordinal `i`, drawn from a source of words. -/
def build {σ : Type} (family : String) (arity : Nat) (tuples : List Tuple)
    (next : σ → UInt32 × σ) (source : σ) : Outcome IndexError Index :=
  Search.slots ⟨family, arity, tuples.toArray, next⟩ 0 source

end Index

end CopyPatch
