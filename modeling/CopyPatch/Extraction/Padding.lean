import CopyPatch.Bytes

/-! Padding code to a boundary with instructions that do nothing. -/
namespace CopyPatch.Padding

/-- Code fills a multiple of this many bytes. -/
def alignment : Nat := 16

/-- The recommended instructions without effect, by their length less one. -/
def nops : List Bytes := [
  [0x90],
  [0x66, 0x90],
  [0x0f, 0x1f, 0x00],
  [0x0f, 0x1f, 0x40, 0x00],
  [0x0f, 0x1f, 0x44, 0x00, 0x00],
  [0x66, 0x0f, 0x1f, 0x44, 0x00, 0x00],
  [0x0f, 0x1f, 0x80, 0x00, 0x00, 0x00, 0x00],
  [0x0f, 0x1f, 0x84, 0x00, 0x00, 0x00, 0x00, 0x00],
  [0x66, 0x0f, 0x1f, 0x84, 0x00, 0x00, 0x00, 0x00, 0x00]]

/-- Padding of a given length: the longest instruction as long as it fits, then one that fills
the rest. -/
def fill (missing : Nat) : Bytes :=
  if missing = 0 then []
  else
    let n := min missing nops.length
    (nops[n - 1]?.getD []) ++ fill (missing - n)
termination_by missing
decreasing_by
  have : nops.length = 9 := rfl
  omega

/-- How many bytes code of a length is short of the boundary. -/
def missing (len : Nat) : Nat := (alignment - len % alignment) % alignment

def pad (code : Bytes) : Bytes := code ++ fill (missing code.length)

end CopyPatch.Padding
