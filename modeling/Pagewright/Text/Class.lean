import Pagewright.Text.Table.Letters
import Pagewright.Text.Table.Numbers
import Pagewright.Text.Table.Unprintable

/-!
# Character classes

Blank, letter, digit, word and printable characters over all of Unicode. ASCII is decided by plain
comparisons; the tables are only asked above it.
-/

namespace Pagewright.Text

/-- Membership in a list of inclusive ranges. -/
def inRanges (ranges : List (Nat × Nat)) (n : Nat) : Bool :=
  ranges.any fun r => r.1 ≤ n && n ≤ r.2

/-- Blank characters: the ASCII controls from tab to carriage return and the four separators
U+001C to U+001F, and every Unicode space. The zero-width space is not one. -/
def isBlank (c : Char) : Bool :=
  let n := c.toNat
  if n < 128 then (9 ≤ n && n ≤ 13) || (28 ≤ n && n ≤ 32)
  else n == 0x85 || n == 0xA0 || n == 0x1680 || (0x2000 ≤ n && n ≤ 0x200A) || n == 0x2028 ||
    n == 0x2029 || n == 0x202F || n == 0x205F || n == 0x3000

/-- Letters. -/
def isLetter (c : Char) : Bool :=
  if c.toNat < 128 then c.isAlpha else inRanges Table.letters c.toNat

/-- Digits in the wide sense, superscripts and circled digits included. -/
def isDigit (c : Char) : Bool :=
  if c.toNat < 128 then c.isDigit else inRanges Table.digits c.toNat

/-- Letters and every character with a numeric value. -/
def isAlphanumeric (c : Char) : Bool :=
  if c.toNat < 128 then c.isAlphanum
  else inRanges Table.letters c.toNat || inRanges Table.numerics c.toNat

/-- Word characters: letters, numerics and the underscore. -/
def isWord (c : Char) : Bool := isAlphanumeric c || c == '_'

/-- The value of a decimal digit of any script. Wide digits such as superscripts have none. -/
def decimalValue? (c : Char) : Option Nat :=
  let n := c.toNat
  if n < 128 then (if c.isDigit then some (n - 48) else none)
  else (Table.decimals.find? fun r => r.1 ≤ n && n ≤ r.2).map fun r => (n - r.1) % 10

/-- Characters that are shown as themselves in a quoted text. -/
def isPrintable (c : Char) : Bool :=
  if c.toNat < 128 then 32 ≤ c.toNat && c.toNat < 127 else !inRanges Table.unprintables c.toNat

end Pagewright.Text
