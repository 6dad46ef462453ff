import PocketLisp.Token
import PocketLisp.Text.Classes

/-!
# A cursor in a source text

Tokens are taken off a text one at a time. A cursor holds what is left of the text together with its
place: the line, counted from one, and the offset in characters.

* `Cursor.skipGap`: past blanks and newlines. Only a newline starts a new line.
* `Cursor.next`: the next token, the end of the text, or a fault. At a character that begins no
  token the cursor stays; behind an integer literal that cannot be converted it has moved on, so
  that scanning can be resumed.
* `Cursor.scan`, `Cursor.steps`: all steps up to the first that gives no token, or a given number.
* `Cursor.length_next_lt`: a token makes the rest shorter.
-/

namespace PocketLisp

/-- A place in a source text and all that follows it. -/
structure Cursor where
  rest : List Char
  line : Nat := 1
  pos : Nat := 0
  deriving DecidableEq

/-- A token with the place of its spelling. -/
structure Located where
  line : Nat
  pos : Nat
  token : Token
  deriving DecidableEq

/-- What one step of scanning gives. -/
inductive Scan where
  | token (t : Located)
  | finish
  | fault (f : LexFault)
  deriving DecidableEq

namespace Cursor

/-- The cursor at the front of `text`. -/
def ofText (text : String) : Cursor := { rest := text.toList }

/-- The cursor behind the gap at the front of `cs`, where `cs` stands at `line` and `pos`. -/
def skipFrom (line pos : Nat) : List Char → Cursor
  | [] => ⟨[], line, pos⟩
  | c :: cs =>
    if c = '\n' then skipFrom (line + 1) (pos + 1) cs
    else if Text.isBlank c then skipFrom line (pos + 1) cs
    else ⟨c :: cs, line, pos⟩

/-- The cursor behind the blanks and newlines in front of it. -/
def skipGap (c : Cursor) : Cursor := skipFrom c.line c.pos c.rest

/-- The cursor behind `x`, with `rest` left. -/
def pass (c : Cursor) (x : Lexeme) (rest : List Char) : Cursor :=
  { c with rest := rest, pos := c.pos + x.spelling.length }

/-- One step of scanning at a cursor that stands at no gap. -/
def takeToken (c : Cursor) : Scan × Cursor :=
  match Lexeme.take c.rest with
  | some (x, rest) =>
    match x.token c.line c.pos with
    | .ok t => (.token ⟨c.line, c.pos, t⟩, c.pass x rest)
    | .error f => (.fault f, c.pass x rest)
  | none => (if c.rest.isEmpty then .finish else .fault (.unrecognized c.line c.pos), c)

/-- One step of scanning: over the gap, then a token. -/
def next (c : Cursor) : Scan × Cursor := c.skipGap.takeToken

theorem length_skipFrom_le (line pos : Nat) (cs : List Char) :
    (skipFrom line pos cs).rest.length ≤ cs.length := by
  induction cs generalizing line pos with
  | nil => simp [skipFrom]
  | cons c cs ih =>
    unfold skipFrom
    split
    · exact Nat.le_succ_of_le (ih ..)
    split
    · exact Nat.le_succ_of_le (ih ..)
    · exact Nat.le_refl _

theorem length_next_lt {c d : Cursor} {t : Located} (h : c.next = (.token t, d)) :
    d.rest.length < c.rest.length := by
  have hgap : c.skipGap.rest.length ≤ c.rest.length := length_skipFrom_le ..
  unfold next takeToken at h
  split at h
  · next x rest hx =>
    have := Lexeme.length_lt_of_take hx
    split at h
    · cases h; simp only [pass]; omega
    · cases h
  · split at h <;> cases h

/-- The steps up to and including the first that gives no token. -/
def scan (c : Cursor) : List (Scan × Cursor) :=
  match _h : c.next with
  | (.token t, d) => (.token t, d) :: scan d
  | (.finish, d) => [(.finish, d)]
  | (.fault f, d) => [(.fault f, d)]
termination_by c.rest.length
decreasing_by exact length_next_lt _h

/-- The next `n` steps, whatever they give. -/
def steps : Nat → Cursor → List (Scan × Cursor)
  | 0, _ => []
  | n + 1, c => c.next :: steps n c.next.2

/-- The cursor behind the next `n` tokens, or at the end if there are fewer. -/
def drop : Nat → Cursor → Except LexFault Cursor
  | 0, c => .ok c
  | n + 1, c =>
    match c.next with
    | (.fault f, _) => .error f
    | (_, d) => drop n d

end Cursor

end PocketLisp
