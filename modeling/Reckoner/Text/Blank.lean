import Reckoner.Text.Character

set_option autoImplicit false

/- White space (Unicode 14, property White_Space), and the two ways of trimming it. A line is trimmed
of the four separator controls U+001C to U+001F as well; a numeral is not. -/
namespace Reckoner

def blankRanges : List (Nat × Nat) :=
  [(0x85, 0x85), (0xA0, 0xA0), (0x1680, 0x1680), (0x2000, 0x200A), (0x2028, 0x2029),
   (0x202F, 0x202F), (0x205F, 0x205F), (0x3000, 0x3000)]

def inRanges (ranges : List (Nat × Nat)) (n : Nat) : Bool :=
  ranges.any fun r => r.1 ≤ n && n ≤ r.2

def isNumeralBlank (c : Char) : Bool :=
  c == ' ' || (9 ≤ c.toNat && c.toNat ≤ 13) || inRanges blankRanges c.toNat

def isLineBlank (c : Char) : Bool := isNumeralBlank c || (0x1C ≤ c.toNat && c.toNat ≤ 0x1F)

def trim (p : Char → Bool) (t : Text) : Text :=
  ((t.dropWhile p).reverse.dropWhile p).reverse

def trimLine (t : Text) : Text := trim isLineBlank t

def trimNumeral (t : Text) : Text := trim isNumeralBlank t

end Reckoner
