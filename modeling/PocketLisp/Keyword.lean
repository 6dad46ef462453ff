/-!
# Reserved names

The names that mean something at the head of a list: five special forms and six binary operators.
Any other name at the head stands for its binding.

* `Form`, `Operator`: the reserved names by meaning, with `ofName?` and `name` inverse to each other
  (`Form.ofName?_eq_some`, `Operator.ofName?_eq_some`).
* `minOperands`: how many operands each needs. Surplus operands are ignored.
* `Head.ofName`: what a name at the head of a list means. Forms are looked for first, then
  operators; their names are disjoint.
-/

namespace PocketLisp

/-- The special forms. -/
inductive Form where
  /-- A choice between two expressions. -/
  | conditional
  /-- A loop that runs its body while its condition is true. -/
  | loop
  /-- A sequence of expressions; its value is the list of their values. -/
  | sequence
  /-- Binds a name to a value. -/
  | assign
  /-- Prints a value. -/
  | print
  deriving DecidableEq

/-- The binary operators. -/
inductive Operator where
  | add
  | subtract
  | multiply
  | greater
  | less
  | equal
  deriving DecidableEq

namespace Form

/-- The reserved name of a form. -/
def name : Form → String
  | .conditional => "if"
  | .loop => "while"
  | .sequence => "do"
  | .assign => "set"
  | .print => "print"

/-- The form that `name` is reserved for. -/
def ofName? (name : String) : Option Form :=
  if name = "if" then some .conditional
  else if name = "while" then some .loop
  else if name = "do" then some .sequence
  else if name = "set" then some .assign
  else if name = "print" then some .print
  else none

/-- The number of operands a form needs. -/
def minOperands : Form → Nat
  | .conditional => 3
  | .loop => 2
  | .sequence => 0
  | .assign => 2
  | .print => 1

@[simp] theorem ofName?_name (f : Form) : ofName? f.name = some f := by
  cases f <;> decide

theorem ofName?_eq_some {s : String} {f : Form} : ofName? s = some f ↔ s = f.name := by
  constructor
  · intro h
    unfold ofName? at h
    split at h
    · cases h; assumption
    split at h
    · cases h; assumption
    split at h
    · cases h; assumption
    split at h
    · cases h; assumption
    split at h
    · cases h; assumption
    · cases h
  · rintro rfl
    exact ofName?_name f

end Form

namespace Operator

/-- The reserved name of an operator. -/
def name : Operator → String
  | .add => "+"
  | .subtract => "-"
  | .multiply => "*"
  | .greater => ">"
  | .less => "<"
  | .equal => "="

/-- The operator that `name` is reserved for. -/
def ofName? (name : String) : Option Operator :=
  if name = "+" then some .add
  else if name = "-" then some .subtract
  else if name = "*" then some .multiply
  else if name = ">" then some .greater
  else if name = "<" then some .less
  else if name = "=" then some .equal
  else none

/-- Every operator needs its two operands. -/
def minOperands : Nat := 2

@[simp] theorem ofName?_name (o : Operator) : ofName? o.name = some o := by
  cases o <;> decide

theorem ofName?_eq_some {s : String} {o : Operator} : ofName? s = some o ↔ s = o.name := by
  constructor
  · intro h
    unfold ofName? at h
    split at h
    · cases h; assumption
    split at h
    · cases h; assumption
    split at h
    · cases h; assumption
    split at h
    · cases h; assumption
    split at h
    · cases h; assumption
    split at h
    · cases h; assumption
    · cases h
  · rintro rfl
    exact ofName?_name o

end Operator

/-- What a name at the head of a list means. -/
inductive Head where
  | form (f : Form)
  | operator (o : Operator)
  | ordinary
  deriving DecidableEq

namespace Head

/-- The meaning of `name` at the head of a list. -/
def ofName (name : String) : Head :=
  match Form.ofName? name with
  | some f => .form f
  | none =>
    match Operator.ofName? name with
    | some o => .operator o
    | none => .ordinary

def isForm : Head → Bool
  | .form _ => true
  | _ => false

def isOperator : Head → Bool
  | .operator _ => true
  | _ => false

@[simp] theorem ofName_form (f : Form) : ofName f.name = .form f := by
  simp [ofName]

@[simp] theorem ofName_operator (o : Operator) : ofName o.name = .operator o := by
  cases o <;> decide

/-- A name is ordinary exactly when it is not reserved. -/
theorem ofName_eq_ordinary {s : String} :
    ofName s = .ordinary ↔ (∀ f : Form, s ≠ f.name) ∧ ∀ o : Operator, s ≠ o.name := by
  constructor
  · intro h
    refine ⟨fun f hf => ?_, fun o ho => ?_⟩
    · subst hf; simp at h
    · subst ho; simp at h
  · rintro ⟨hf, ho⟩
    unfold ofName
    split
    · next f h => exact absurd (Form.ofName?_eq_some.1 h) (hf f)
    · split
      · next o h => exact absurd (Operator.ofName?_eq_some.1 h) (ho o)
      · rfl

end Head

end PocketLisp
