/-!
# Classes of characters

The character classes of this library are closed tables: a list of ranges of code points, each given
by its first and its last one. White space is meant in the sense of Unicode, with the newline kept
apart because it also ends a line. Unicode gives a digit value to many characters, too. Those of a
decimal system come in runs of ten, from zero to nine, and can be written in a numeral; the others
(superscripts, circled digits) are digits that no numeral is made of.

* `inRanges`: membership in a table.
* `isBlank`: white space other than the newline.
* `isSpace`, `strip`: white space, the newline included; a text without it at its two ends.
* `decimalDigit?`: the value of a decimal digit.
* `isOtherDigit`: a digit outside every decimal system.
* `natOfDigits`: the number that a list of digit values denotes.
-/

namespace PocketLisp.Text

/-- A range of code points, both ends included. -/
abbrev CodeRange := Nat × Nat

/-- The code point of `c` lies in one of the ranges. -/
def inRanges (ranges : List CodeRange) (c : Char) : Bool :=
  ranges.any fun r => decide (r.1 ≤ c.toNat) && decide (c.toNat ≤ r.2)

theorem inRanges_iff {ranges : List CodeRange} {c : Char} :
    inRanges ranges c = true ↔ ∃ r ∈ ranges, r.1 ≤ c.toNat ∧ c.toNat ≤ r.2 := by
  simp [inRanges]

/-! ## Blanks -/

/-- White space other than the newline. -/
def blankRanges : List CodeRange :=
  [(0x09, 0x09), (0x0B, 0x0D), (0x1C, 0x20), (0x85, 0x85), (0xA0, 0xA0), (0x1680, 0x1680),
   (0x2000, 0x200A), (0x2028, 0x2029), (0x202F, 0x202F), (0x205F, 0x205F), (0x3000, 0x3000)]

/-- `c` separates words without ending the line. -/
def isBlank (c : Char) : Bool := inRanges blankRanges c

/-- `c` is white space; the newline counts. -/
def isSpace (c : Char) : Bool := c == '\n' || isBlank c

/-- `cs` without the white space at its front. -/
def stripFront (cs : List Char) : List Char := cs.dropWhile isSpace

/-- `cs` without the white space at its two ends. -/
def strip (cs : List Char) : List Char := (stripFront (stripFront cs).reverse).reverse

/-! ## Digits of all scripts -/

/-- The code points of the zeros of all decimal systems; the other nine digits follow each. -/
def decimalZeros : List Nat :=
  [0x30, 0x660, 0x6F0, 0x7C0, 0x966, 0x9E6, 0xA66, 0xAE6, 0xB66, 0xBE6, 0xC66, 0xCE6, 0xD66,
   0xDE6, 0xE50, 0xED0, 0xF20, 0x1040, 0x1090, 0x17E0, 0x1810, 0x1946, 0x19D0, 0x1A80, 0x1A90,
   0x1B50, 0x1BB0, 0x1C40, 0x1C50, 0xA620, 0xA8D0, 0xA900, 0xA9D0, 0xA9F0, 0xAA50, 0xABF0, 0xFF10,
   0x104A0, 0x10D30, 0x11066, 0x110F0, 0x11136, 0x111D0, 0x112F0, 0x11450, 0x114D0, 0x11650,
   0x116C0, 0x11730, 0x118E0, 0x11950, 0x11C50, 0x11D50, 0x11DA0, 0x16A60, 0x16AC0, 0x16B50,
   0x1D7CE, 0x1D7D8, 0x1D7E2, 0x1D7EC, 0x1D7F6, 0x1E140, 0x1E2F0, 0x1E950, 0x1FBF0]

/-- Digits that belong to no decimal system. -/
def otherDigitRanges : List CodeRange :=
  [(0xB2, 0xB3), (0xB9, 0xB9), (0x1369, 0x1371), (0x19DA, 0x19DA), (0x2070, 0x2070),
   (0x2074, 0x2079), (0x2080, 0x2089), (0x2460, 0x2468), (0x2474, 0x247C), (0x2488, 0x2490),
   (0x24EA, 0x24EA), (0x24F5, 0x24FD), (0x24FF, 0x24FF), (0x2776, 0x277E), (0x2780, 0x2788),
   (0x278A, 0x2792), (0x10A40, 0x10A43), (0x10E60, 0x10E68), (0x11052, 0x1105A),
   (0x1F100, 0x1F10A)]

/-- The value of `c` as a decimal digit of any script. -/
def decimalDigit? (c : Char) : Option Nat :=
  (decimalZeros.find? fun base => decide (base ≤ c.toNat) && decide (c.toNat < base + 10)).map
    (c.toNat - ·)

def isDecimalDigit (c : Char) : Bool := (decimalDigit? c).isSome

def isOtherDigit (c : Char) : Bool := inRanges otherDigitRanges c

def isAnyDigit (c : Char) : Bool := isDecimalDigit c || isOtherDigit c

/-- The number written by the digit values `ds`, the most significant first. -/
def natOfDigits (ds : List Nat) : Nat := ds.foldl (fun n d => 10 * n + d) 0

@[simp] theorem natOfDigits_nil : natOfDigits [] = 0 := rfl

theorem natOfDigits_concat (ds : List Nat) (d : Nat) :
    natOfDigits (ds ++ [d]) = 10 * natOfDigits ds + d := by
  simp [natOfDigits]

end PocketLisp.Text
