import PocketLisp.Fault

/-!
# The binary operators

What the operators compute from two values. Arithmetic is exact and then checked: a result that does
not fit is a fault, and nothing wraps around. Only the result is checked, so operands from outside
may be of any size. Ordering is defined between two integers and between two symbols, which compare
by the code points of their names. Equality is defined everywhere.

* `Operator.exactResult?`: the integer that an arithmetic operator stands for.
* `Operator.apply`: the operator on values.
-/

namespace PocketLisp.Operator

/-- The exact result of an arithmetic operator. -/
def exactResult? : Operator → Int → Int → Option Int
  | .add, l, r => some (l + r)
  | .subtract, l, r => some (l - r)
  | .multiply, l, r => some (l * r)
  | .greater, _, _ | .less, _, _ | .equal, _, _ => none

/-- `n` as the result of `o` on `l` and `r`, if it is an integer of the language. -/
def checked (o : Operator) (l r n : Int) : Except EvalFault Value :=
  if Value.inRange n then .ok (.int n) else .error (.overflow o l r)

/-- Both operands as integers, given to `f`. -/
def onInts (o : Operator) (f : Int → Int → Except EvalFault Value) :
    Value → Value → Except EvalFault Value
  | .int l, .int r => f l r
  | _, _ => .error (.mismatch o)

/-- Both operands as integers, or both as symbols, compared by `ints` or `names`. -/
def compared (o : Operator) (ints : Int → Int → Bool) (names : String → String → Bool) :
    Value → Value → Except EvalFault Value
  | .int l, .int r => .ok (.bool (ints l r))
  | .symbol l, .symbol r => .ok (.bool (names l r))
  | _, _ => .error (.mismatch o)

/-- The operator applied to two values. -/
def apply : Operator → Value → Value → Except EvalFault Value
  | .add => onInts .add fun l r => checked .add l r (l + r)
  | .subtract => onInts .subtract fun l r => checked .subtract l r (l - r)
  | .multiply => onInts .multiply fun l r => checked .multiply l r (l * r)
  | .greater => compared .greater (fun l r => decide (r < l)) (fun l r => decide (r < l))
  | .less => compared .less (fun l r => decide (l < r)) (fun l r => decide (l < r))
  | .equal => fun l r => .ok (.bool (l.same r))

theorem apply_int {o : Operator} {l r n : Int} (h : o.exactResult? l r = some n) :
    o.apply (.int l) (.int r) = checked o l r n := by
  cases o <;> simp only [exactResult?, Option.some.injEq, reduceCtorEq] at h <;> subst h <;> rfl

@[simp] theorem apply_equal (l r : Value) : apply .equal l r = .ok (.bool (l.same r)) := rfl

end PocketLisp.Operator
