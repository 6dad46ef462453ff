import PocketLisp.Value

/-!
# Forests

A program is a forest: the list of its top-level expressions.

* `Forest.flatten`: a forest as a stream of tokens, every list between its two parentheses.
* `Forest.render`: a forest as text, with one space between neighbours.
* `Forest.shape`: how many lists, integers and symbols a forest holds, and how deep it is.
-/

namespace PocketLisp

/-- The top-level expressions of a program. -/
abbrev Forest := List Value

namespace Forest

mutual

/-- The token stream of one tree. -/
def flattenTree : Value → List Value
  | .list items => .marker .opening :: flatten items ++ [.marker .closing]
  | v => [v]

def flatten : List Value → List Value
  | [] => []
  | v :: vs => flattenTree v ++ flatten vs

end

mutual

/-- The text of one tree. What has no spelling in a source text is written as the empty text. -/
def renderTree : Value → String
  | .int n => toString n
  | .symbol name => name
  | .list items => "(" ++ " ".intercalate (renderTrees items) ++ ")"
  | .bool _ | .marker _ | .foreign _ => ""

def renderTrees : List Value → List String
  | [] => []
  | v :: vs => renderTree v :: renderTrees vs

end

def render (forest : Forest) : String := " ".intercalate (renderTrees forest)

/-- Counts over a forest. -/
structure Shape where
  /-- The number of top-level trees. -/
  forms : Nat := 0
  /-- The deepest nesting of lists. -/
  depth : Nat := 0
  /-- The number of lists. -/
  lists : Nat := 0
  /-- The number of integers. -/
  ints : Nat := 0
  /-- The number of symbols. -/
  symbols : Nat := 0
  deriving DecidableEq

mutual

/-- The counts over one tree. -/
def shapeTree : Value → Shape
  | .int _ => { forms := 1, ints := 1 }
  | .symbol _ => { forms := 1, symbols := 1 }
  | .list items =>
    let s := shape items
    { s with forms := 1, depth := s.depth + 1, lists := s.lists + 1 }
  | .bool _ | .marker _ | .foreign _ => { forms := 1 }

/-- The counts over a forest. -/
def shape : List Value → Shape
  | [] => {}
  | v :: vs =>
    let s := shapeTree v
    let t := shape vs
    { forms := s.forms + t.forms
      depth := max s.depth t.depth
      lists := s.lists + t.lists
      ints := s.ints + t.ints
      symbols := s.symbols + t.symbols }

end

@[simp] theorem flatten_append (vs ws : List Value) :
    flatten (vs ++ ws) = flatten vs ++ flatten ws := by
  induction vs with
  | nil => simp [flatten]
  | cons v vs ih => simp [flatten, ih]

end Forest

end PocketLisp
