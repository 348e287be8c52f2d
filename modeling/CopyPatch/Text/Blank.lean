/-! Blank characters: the Unicode property White_Space, and trimming by it. -/
namespace CopyPatch.Text

/-- The property White_Space. A zero-width space is not blank; a no-break space is. -/
def isBlank (c : Char) : Bool :=
  let n := c.toNat
  (9 ≤ n && n ≤ 13) || n == 0x20 || n == 0x85 || n == 0xa0 || n == 0x1680 ||
    (0x2000 ≤ n && n ≤ 0x200a) || n == 0x2028 || n == 0x2029 || n == 0x202f ||
    n == 0x205f || n == 0x3000

def trimLeft (text : List Char) : List Char := text.dropWhile isBlank

def trimRight (text : List Char) : List Char := (trimLeft text.reverse).reverse

/-- The text without the blanks at its two ends. -/
def trim (text : List Char) : List Char := trimRight (trimLeft text)

/-- The text before a final mark, if it ends in one. -/
def dropEnding? (ending text : List Char) : Option (List Char) :=
  if ending.isSuffixOf text then some (text.take (text.length - ending.length)) else none

end CopyPatch.Text
