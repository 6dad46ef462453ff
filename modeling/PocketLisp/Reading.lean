import PocketLisp.Forest
import PocketLisp.Token.Cursor

/-!
# Reading a program

Tokens become trees on a stack of open lists: an opening parenthesis starts a list, a closing one
puts the innermost list into the one around it, and anything else joins the innermost list. No
recursion is needed, so nesting may be of any depth.

Scanning and building go hand in hand. A token is taken off the text only when all before it was
accepted, so the first fault in the text is the one reported, be it lexical or a parenthesis.

* `Builder`: the open lists, with `feed` for a token and `finish` for the end.
* `parse`: the forest of a token stream.
* `Reading`: what reading a text gives: the tokens taken, where it stopped, and the forest or the
  fault. `Cursor.read` reads what a cursor has before it.
-/

namespace PocketLisp

/-- The lists that are open, each with its items in reverse: the innermost, and those around it from
the inside out. The outermost list is the program itself. -/
structure Builder where
  top : List Value := []
  below : List (List Value) := []

namespace Builder

/-- The builder with `v` in the innermost list. -/
def add (b : Builder) (v : Value) : Builder := { b with top := v :: b.top }

/-- The builder after one more token. A list among the tokens is a finished list. -/
def feed (b : Builder) : Value → Except ParseFault Builder
  | .marker .opening => .ok { top := [], below := b.top :: b.below }
  | .marker .closing =>
    match b.below with
    | [] => .error .surplusClose
    | outer :: below => .ok { top := .list b.top.reverse :: outer, below := below }
  | .int n => .ok (b.add (.int n))
  | .symbol name => .ok (b.add (.symbol name))
  | .list items => .ok (b.add (.list items))
  | .bool x => .error (.stray (.bool x))
  | .foreign x => .error (.stray (.foreign x))

/-- The forest, once all lists but the outermost are closed. -/
def finish (b : Builder) : Except ParseFault Forest :=
  match b.below with
  | [] => .ok b.top.reverse
  | _ :: _ => .error (.leftOpen b.below.length)

/-- The builder after all of `tokens`. -/
def feedAll (b : Builder) : List Value → Except ParseFault Builder
  | [] => .ok b
  | t :: ts =>
    match b.feed t with
    | .ok b' => feedAll b' ts
    | .error f => .error f

end Builder

/-- The forest of a token stream. -/
def parse (tokens : List Value) : Except ParseFault Forest :=
  match ({} : Builder).feedAll tokens with
  | .ok b => b.finish
  | .error f => .error f

/-- What reading a text gives. -/
structure Reading where
  /-- The tokens taken off the text, in its order. -/
  tokens : List Located
  /-- Where reading stopped. -/
  cursor : Cursor
  /-- The forest, or why there is none. -/
  result : Except Fault Forest

namespace Cursor

/-- Reads on from a cursor, with the lists of `b` open and the tokens `seen`, the latest first. -/
def readOn (c : Cursor) (b : Builder) (seen : List Located) : Reading :=
  match _h : c.next with
  | (.finish, d) => ⟨seen.reverse, d, b.finish.mapError .parse⟩
  | (.fault f, d) => ⟨seen.reverse, d, .error (.lex f)⟩
  | (.token t, d) =>
    match b.feed t.token.toValue with
    | .ok b' => readOn d b' (t :: seen)
    | .error f => ⟨(t :: seen).reverse, d, .error (.parse f)⟩
termination_by c.rest.length
decreasing_by exact length_next_lt _h

def read (c : Cursor) : Reading := c.readOn {} []

end Cursor

/-- Reads a source text. -/
def readText (text : String) : Reading := (Cursor.ofText text).read

end PocketLisp
