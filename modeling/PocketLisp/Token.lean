import PocketLisp.Fault

/-!
# Tokens and their spellings

A source text is made of tokens with gaps between them. A token has a spelling: a parenthesis, an
integer literal (an optional sign and decimal digits) or a symbol (a letter or one of `+ - * > < =`,
then letters and digits). Letters and digits are those of ASCII.

* `Token`: what a spelling stands for.
* `Lexeme.take`: the longest spelling at the front of a text. A sign before a digit begins an
  integer, so `-2` is one integer and `- 2` are two tokens.
* `Lexeme.token`: the token of a spelling. An integer literal must fit the range of integers, and
  one with more than `maxDigits` digits is not converted.
* `Lexeme.eq_append_of_take`: taking a spelling loses nothing and takes something.
-/

namespace PocketLisp

/-- A token of a source text. -/
inductive Token where
  | paren (p : Paren)
  | int (n : Int)
  | symbol (name : String)
  deriving DecidableEq

/-- A token as a value: what a token stream holds. -/
def Token.toValue : Token → Value
  | .paren p => .marker p
  | .int n => .int n
  | .symbol name => .symbol name

/-- A spelling by its class. -/
inductive Lexeme where
  | paren (p : Paren)
  | integer (spelling : List Char)
  | symbol (spelling : List Char)
  deriving DecidableEq

/-- The character of a parenthesis. -/
def Paren.char : Paren → Char
  | .opening => '('
  | .closing => ')'

namespace Lexeme

/-- `c` is a sign of an integer literal. -/
def isSign (c : Char) : Bool := c == '+' || c == '-'

/-- `c` can begin a symbol. -/
def isSymbolStart (c : Char) : Bool :=
  c == '+' || c == '-' || c == '*' || c == '>' || c == '<' || c == '=' || c.isAlpha

/-- The first character is a digit. -/
def startsWithDigit : List Char → Bool
  | [] => false
  | c :: _ => c.isDigit

/-- The characters of a spelling. -/
def spelling : Lexeme → List Char
  | .paren p => [p.char]
  | .integer cs => cs
  | .symbol cs => cs

/-- The longest spelling at the front of a text, and what follows it. -/
def take : List Char → Option (Lexeme × List Char)
  | [] => none
  | c :: cs =>
    if c = '(' then some (.paren .opening, cs)
    else if c = ')' then some (.paren .closing, cs)
    else if c.isDigit || (isSign c && startsWithDigit cs) then
      some (.integer (c :: cs.takeWhile Char.isDigit), cs.dropWhile Char.isDigit)
    else if isSymbolStart c then
      some (.symbol (c :: cs.takeWhile Char.isAlphanum), cs.dropWhile Char.isAlphanum)
    else none

/-- The digits of an integer literal. -/
def digits : List Char → List Char
  | [] => []
  | c :: cs => if isSign c then cs else c :: cs

/-- The value of an ASCII digit. -/
def digitValue (c : Char) : Nat := c.toNat - '0'.toNat

/-- The number that decimal digits denote. -/
def natValue (ds : List Char) : Nat := ds.foldl (fun n c => 10 * n + digitValue c) 0

/-- The integer that a literal denotes. -/
def intValue (spelling : List Char) : Int :=
  let n : Int := natValue (digits spelling)
  if spelling.head? = some '-' then -n else n

/-- The token of a spelling that stands at `line` and `pos`. -/
def token (line pos : Nat) : Lexeme → Except LexFault Token
  | .paren p => .ok (.paren p)
  | .symbol cs => .ok (.symbol (String.ofList cs))
  | .integer cs =>
    if maxDigits < (digits cs).length then .error (.tooManyDigits (digits cs).length)
    else if Value.inRange (intValue cs) then .ok (.int (intValue cs))
    else .error (.outOfRange (String.ofList cs) line pos)

/-- The spelling taken and the rest make up the text, and the spelling is not empty. -/
theorem eq_append_of_take {cs rest : List Char} {x : Lexeme} (h : take cs = some (x, rest)) :
    cs = x.spelling ++ rest ∧ x.spelling ≠ [] := by
  cases cs with
  | nil => simp [take] at h
  | cons c cs =>
    rw [take] at h
    split at h
    · next hc => cases h; simp [spelling, Paren.char, hc]
    split at h
    · next hc => cases h; simp [spelling, Paren.char, hc]
    split at h
    · cases h; simp [spelling]
    split at h
    · cases h; simp [spelling]
    · cases h

theorem length_lt_of_take {cs rest : List Char} {x : Lexeme} (h : take cs = some (x, rest)) :
    rest.length < cs.length := by
  obtain ⟨rfl, hne⟩ := eq_append_of_take h
  have := List.length_pos_iff.2 hne
  simp only [List.length_append]
  omega

end Lexeme

end PocketLisp
