import PocketLisp.Operator
import PocketLisp.Reading
import PocketLisp.Run

/-!
# Evaluation

A list is evaluated by its head: a special form decides itself which of its operands are evaluated,
an operator evaluates its first two from left to right, and any other name stands for its binding.
A bare symbol stands for its binding too, and for itself if it has none.

The meaning of a list is put together from the meanings of its items: `evalItems` gives a run for
every item, and each form combines the runs that it needs. No value is ever evaluated twice, and
values in the environment are never taken for programs.

* `Run.choose`, `Run.loop`, `Run.collect`, `Run.assignFrom`, `Run.printFrom`: the special forms on
  runs.
* `eval`: the meaning of an expression. `fuel` bounds the rounds of every loop; nothing else can
  fail to end.
* `evalForest`, `evalText`: a forest in order; a source text, which is read as a whole before
  anything is evaluated.
-/

namespace PocketLisp

namespace Run

/-- The choice between `yes` and `no`. Only the truth value true chooses `yes`. -/
def choose (cond yes no : Run Value) : Run Value := do
  match ← cond with
  | .bool true => yes
  | _ => no

/-- Rounds of a loop: `body` as long as `cond` gives true. The value is that of the last round, and
`last` before the first. At most `fuel` conditions are evaluated. -/
def rounds (cond body : Run Value) (room : Room) : Nat → Value → State → Outcome Value
  | 0, _, _ => .exhausted
  | fuel + 1, last, s =>
    match cond room s with
    | .done (.bool true) s₁ =>
      match body room s₁ with
      | .done v s₂ => rounds cond body room fuel v s₂
      | .failed f s₂ => .failed f s₂
      | .exhausted => .exhausted
    | .done _ s₁ => .done last s₁
    | .failed f s₁ => .failed f s₁
    | .exhausted => .exhausted

/-- The loop. Its value is false if the body never runs. -/
def loop (fuel : Nat) (cond body : Run Value) : Run Value :=
  fun room s => rounds cond body room fuel (.bool false) s

/-- Binds the symbol `target` to the value of `m` and gives that value. The target is checked
first. -/
def assignFrom (target : Value) (m : Run Value) : Run Value :=
  match target with
  | .symbol name => do
    let v ← m
    assign name v
    return v
  | t => .deeper t.depth (.fail (.eval (.badTarget t)))

/-- Prints the value of `m` and gives that value. -/
def printFrom (m : Run Value) : Run Value := do
  let v ← m
  print v
  return v

/-- The value of a bare symbol: its binding, or the symbol itself. -/
def symbolValue (name : String) : Run Value := do
  match (← env).get? name with
  | some v => .deeper (walk v + 1) (pure v)
  | none => pure (.symbol name)

/-- The value of a list with an ordinary head: the binding of the head, which must have one. -/
def headValue (name : String) : Run Value := do
  match (← env).get? name with
  | some v => .deeper (walk v + 1) (pure v)
  | none => .fail (.eval (.unbound name))

end Run

/-- The meaning of a special form with the given operands, whose meanings are `runs`. -/
def Form.run (fuel : Nat) (f : Form) (operands : List Value) (runs : List (Run Value)) :
    Run Value :=
  match f, operands, runs with
  | .conditional, _, cond :: yes :: no :: _ => .deeper 1 (.choose cond yes no)
  | .loop, _, cond :: body :: _ => .deeper 1 (.loop fuel cond body)
  | .sequence, _, runs => .deeper 2 (.list <$> .collect runs)
  | .assign, target :: _, _ :: m :: _ => .deeper 1 (.assignFrom target m)
  | .print, _, m :: _ => .deeper 1 (.printFrom m)
  | f, _, _ => .fail (.eval (.formOperands f))

/-- The meaning of an operator whose operands mean `runs`. -/
def Operator.run (o : Operator) : List (Run Value) → Run Value
  | lhs :: rhs :: _ => do
    let l ← lhs
    let r ← rhs
    .ofExcept (o.apply l r)
  | _ => .fail (.eval (.operatorOperands o))

/-- How deep an operator goes into its operands. Only equality looks into lists. -/
def Operator.frames : Operator → Value → Value → Nat
  | .equal, l, r => l.comparison r
  | _, _, _ => 0

/-- An operator applied to two values, which need not come from a program. The host bounds how deep
equality may go. An evaluation applies its operators without such a check, since whoever computed
the operands had to nest deeper (`eval_binary_call`). -/
def Operator.call (o : Operator) (l r : Value) : Run Value := do
  .require (o.frames l r) (.host .comparisonTooDeep)
  .ofExcept (o.apply l r)

/-- The meaning of a list of items, which by themselves mean `runs`. -/
def listValue (fuel : Nat) (items : List Value) (runs : List (Run Value)) : Run Value :=
  match items with
  | [] => .fail (.eval .emptyList)
  | .symbol head :: operands => do
    .note (.dispatched head operands.length)
    match Head.ofName head with
    | .form f => f.run fuel operands runs.tail
    | .operator o => o.run runs.tail
    | .ordinary => .headValue head
  | head :: _ => .deeper head.depth (.fail (.eval (.badHead head)))

mutual

/-- The meaning of an expression. Integers, truth values and foreign objects mean themselves. -/
def eval (fuel : Nat) : Value → Run Value
  | .list items => .deeper 1 (listValue fuel items (evalItems fuel items))
  | .symbol name => .deeper 1 (.symbolValue name)
  | .marker p => .deeper 1 (.fail (.eval (.marker p)))
  | .int n => .deeper 1 (.pure (.int n))
  | .bool b => .deeper 1 (.pure (.bool b))
  | .foreign x => .deeper 1 (.pure (.foreign x))

def evalItems (fuel : Nat) : List Value → List (Run Value)
  | [] => []
  | v :: vs => eval fuel v :: evalItems fuel vs

end

/-- The values of the expressions of a forest, in order. -/
def evalForest (fuel : Nat) (forest : Forest) : Run (List Value) :=
  .collect (evalItems fuel forest)

/-- The values of the expressions of a source text. All of it is read first, so a text that cannot
be read does nothing but leave a trace. -/
def evalText (fuel : Nat) (text : String) : Run (List Value) := do
  let reading := readText text
  .notes (reading.tokens.map .token)
  match reading.result with
  | .error f => .fail f
  | .ok forest =>
    .note (.parsed forest.length)
    .note (.evaluating forest.length)
    evalForest fuel forest

theorem evalItems_eq_map (fuel : Nat) (items : List Value) :
    evalItems fuel items = items.map (eval fuel) := by
  induction items with
  | nil => rfl
  | cons v vs ih => simp [evalItems, ih]

/-- A list means what its form makes of the meanings of its items. -/
theorem eval_list (fuel : Nat) (items : List Value) :
    eval fuel (.list items) = .deeper 1 (listValue fuel items (items.map (eval fuel))) := by
  rw [eval, evalItems_eq_map]

/-- The unfolding law of the loop. -/
theorem rounds_succ (cond body : Run Value) (room : Room) (fuel : Nat) (last : Value) :
    Run.rounds cond body room (fuel + 1) last =
      (do
        match ← cond with
        | .bool true => do
          let v ← body
          fun room s => Run.rounds cond body room fuel v s
        | _ => pure last : Run Value) room := by
  funext s
  simp only [Run.rounds, Run.bind_run]
  cases cond room s with
  | exhausted => rfl
  | failed f s₁ => rfl
  | done v s₁ =>
    cases v with
    | bool b =>
      cases b with
      | false => rfl
      | true =>
        show _ = Run.bind body _ room s₁
        cases hb : body room s₁ <;> simp only [Run.bind, hb]
    | _ => rfl

end PocketLisp
