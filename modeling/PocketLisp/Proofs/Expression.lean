import PocketLisp.Eval

/-!
# Expressions by the way they are evaluated

A list is evaluated in one of a few ways, and which one is decided by its head and the number of its
operands. This module names these ways once, so that later proofs never take a list apart again.

* `Value.exprInduct`: induction on expressions. A list is a form or an operator with the operands it
  needs, one with too few, a list with an ordinary head, or one that has no value. The property may
  be assumed of every operand that is evaluated, and of no other.
* `Head.evaluated`: the operands that are evaluated under a head.
* `eval_form`, `eval_operator`, `eval_ordinary`: what a list with a symbol at its head means.
* `eval_conditional`, `eval_loop`, `eval_sequence`, `eval_assign`, `eval_print`, `eval_binary`: the
  meaning of each form and of an operator, put together from the meanings of its operands.
-/

namespace PocketLisp

namespace Head

theorem eq_name_of_form {x : String} {f : Form} (h : ofName x = .form f) : x = f.name := by
  unfold ofName at h
  split at h
  · next g hg => cases h; exact Form.ofName?_eq_some.1 hg
  · split at h <;> cases h

theorem eq_name_of_operator {x : String} {o : Operator} (h : ofName x = .operator o) :
    x = o.name := by
  unfold ofName at h
  split at h
  · cases h
  · split at h
    · next p hp => cases h; exact Operator.ofName?_eq_some.1 hp
    · cases h

end Head

/-- Induction on expressions, by the way they are evaluated. -/
@[elab_as_elim]
theorem Value.exprInduct {motive : Value → Prop}
    (int : ∀ n, motive (.int n))
    (symbol : ∀ x, motive (.symbol x))
    (bool : ∀ b, motive (.bool b))
    (marker : ∀ p, motive (.marker p))
    (foreign : ∀ x, motive (.foreign x))
    (empty : motive (.list []))
    (badHead : ∀ head operands, (∀ x, head ≠ .symbol x) → motive (.list (head :: operands)))
    (ordinary : ∀ x operands, Head.ofName x = .ordinary → motive (.list (.symbol x :: operands)))
    (shortForm : ∀ (f : Form) (operands : List Value), operands.length < f.minOperands →
      motive (.list (.symbol f.name :: operands)))
    (shortOperator : ∀ (o : Operator) (operands : List Value),
      operands.length < Operator.minOperands → motive (.list (.symbol o.name :: operands)))
    (conditional : ∀ c y n extra, motive c → motive y → motive n →
      motive (.list (.symbol "if" :: c :: y :: n :: extra)))
    (loop : ∀ c b extra, motive c → motive b →
      motive (.list (.symbol "while" :: c :: b :: extra)))
    (sequence : ∀ es, (∀ e ∈ es, motive e) → motive (.list (.symbol "do" :: es)))
    (assign : ∀ x e extra, motive e →
      motive (.list (.symbol "set" :: .symbol x :: e :: extra)))
    (badTarget : ∀ t e extra, (∀ x, t ≠ .symbol x) →
      motive (.list (.symbol "set" :: t :: e :: extra)))
    (print : ∀ e extra, motive e → motive (.list (.symbol "print" :: e :: extra)))
    (binary : ∀ (o : Operator) l r extra, motive l → motive r →
      motive (.list (.symbol o.name :: l :: r :: extra)))
    (v : Value) : motive v := by
  induction v with
  | int n => exact int n
  | symbol x => exact symbol x
  | bool b => exact bool b
  | marker p => exact marker p
  | foreign x => exact foreign x
  | list items ih =>
    match items with
    | [] => exact empty
    | .int _ :: operands | .list _ :: operands | .bool _ :: operands | .marker _ :: operands
    | .foreign _ :: operands => exact badHead _ operands (by simp)
    | .symbol x :: operands =>
      have ih' : ∀ e ∈ operands, motive e := fun e he => ih e (List.mem_cons_of_mem _ he)
      cases hx : Head.ofName x with
      | ordinary => exact ordinary x operands hx
      | operator o =>
        obtain rfl := Head.eq_name_of_operator hx
        match operands with
        | l :: r :: extra => exact binary o l r extra (ih' l (by simp)) (ih' r (by simp))
        | [] | [_] => exact shortOperator o _ (by simp [Operator.minOperands])
      | form f =>
        obtain rfl := Head.eq_name_of_form hx
        cases f with
        | conditional =>
          match operands with
          | c :: y :: n :: extra =>
            exact conditional c y n extra (ih' c (by simp)) (ih' y (by simp)) (ih' n (by simp))
          | [] | [_] | [_, _] => exact shortForm .conditional _ (by simp [Form.minOperands])
        | loop =>
          match operands with
          | c :: b :: extra => exact loop c b extra (ih' c (by simp)) (ih' b (by simp))
          | [] | [_] => exact shortForm .loop _ (by simp [Form.minOperands])
        | sequence => exact sequence operands ih'
        | assign =>
          match operands with
          | t :: e :: extra =>
            by_cases ht : ∃ y, t = .symbol y
            · obtain ⟨y, rfl⟩ := ht
              exact assign y e extra (ih' e (by simp))
            · exact badTarget t e extra fun y hy => ht ⟨y, hy⟩
          | [] | [_] => exact shortForm .assign _ (by simp [Form.minOperands])
        | print =>
          match operands with
          | e :: extra => exact print e extra (ih' e (by simp))
          | [] => exact shortForm .print _ (by simp [Form.minOperands])

/-- The operands that are evaluated under a head, if there are as many as it needs. The meaning of
an operand is chosen in the same way as the operand. -/
def Head.evaluated {α : Type} : Head → List α → List α
  | .form .conditional, c :: y :: n :: _ => [c, y, n]
  | .form .loop, c :: b :: _ => [c, b]
  | .form .sequence, es => es
  | .form .assign, _ :: e :: _ => [e]
  | .form .print, e :: _ => [e]
  | .operator _, l :: r :: _ => [l, r]
  | _, _ => []

/-! ## What lists mean -/

/-- Runs `m` as what the list with the symbol `head` and so many operands comes to. -/
def Run.dispatch {α : Type} (head : String) (operands : Nat) (m : Run α) : Run α :=
  .deeper 1 (.note (.dispatched head operands) >>= fun _ => m)

section Equations

variable (fuel : Nat)

/-- A list whose head is the name of a form means what the form makes of the operands. -/
theorem eval_form (f : Form) (operands : List Value) :
    eval fuel (.list (.symbol f.name :: operands)) =
      .dispatch f.name operands.length (f.run fuel operands (operands.map (eval fuel))) := by
  simp only [eval_list, listValue, Head.ofName_form, List.map_cons, List.tail_cons]
  rfl

theorem eval_operator (o : Operator) (operands : List Value) :
    eval fuel (.list (.symbol o.name :: operands)) =
      .dispatch o.name operands.length (o.run (operands.map (eval fuel))) := by
  simp only [eval_list, listValue, Head.ofName_operator, List.map_cons, List.tail_cons]
  rfl

theorem eval_ordinary {x : String} (operands : List Value) (h : Head.ofName x = .ordinary) :
    eval fuel (.list (.symbol x :: operands)) =
      .dispatch x operands.length (.headValue x) := by
  simp only [eval_list, listValue, h]
  rfl

theorem eval_badHead {head : Value} (operands : List Value) (h : ∀ x, head ≠ .symbol x) :
    eval fuel (.list (head :: operands)) =
      .deeper 1 (.deeper head.depth (.fail (.eval (.badHead head)))) := by
  rw [eval_list]
  cases head with
  | symbol x => exact absurd rfl (h x)
  | _ => rfl

/-- A form without the operands it needs says so. -/
theorem eval_shortForm {f : Form} {operands : List Value} (h : operands.length < f.minOperands) :
    eval fuel (.list (.symbol f.name :: operands)) =
      .dispatch f.name operands.length (.fail (.eval (.formOperands f))) := by
  rw [eval_form]
  congr 1
  cases f with
  | conditional =>
    match operands with
    | [] | [_] | [_, _] => rfl
    | _ :: _ :: _ :: _ => simp only [Form.minOperands, List.length_cons] at h; omega
  | loop =>
    match operands with
    | [] | [_] => rfl
    | _ :: _ :: _ => simp only [Form.minOperands, List.length_cons] at h; omega
  | sequence => simp [Form.minOperands] at h
  | assign =>
    match operands with
    | [] | [_] => rfl
    | _ :: _ :: _ => simp only [Form.minOperands, List.length_cons] at h; omega
  | print =>
    match operands with
    | [] => rfl
    | _ :: _ => simp [Form.minOperands] at h

theorem eval_shortOperator {o : Operator} {operands : List Value}
    (h : operands.length < Operator.minOperands) :
    eval fuel (.list (.symbol o.name :: operands)) =
      .dispatch o.name operands.length (.fail (.eval (.operatorOperands o))) := by
  rw [eval_operator]
  congr 1
  match operands with
  | [] | [_] => rfl
  | _ :: _ :: _ => simp only [Operator.minOperands, List.length_cons] at h; omega

theorem eval_conditional (c y n : Value) (extra : List Value) :
    eval fuel (.list (.symbol "if" :: c :: y :: n :: extra)) =
      .dispatch "if" (extra.length + 3)
        (.deeper 1 (.choose (eval fuel c) (eval fuel y) (eval fuel n))) :=
  eval_form fuel .conditional _

theorem eval_loop (c b : Value) (extra : List Value) :
    eval fuel (.list (.symbol "while" :: c :: b :: extra)) =
      .dispatch "while" (extra.length + 2) (.deeper 1 (.loop fuel (eval fuel c) (eval fuel b))) :=
  eval_form fuel .loop _

theorem eval_sequence (es : List Value) :
    eval fuel (.list (.symbol "do" :: es)) =
      .dispatch "do" es.length (.deeper 2 (.list <$> .collect (es.map (eval fuel)))) :=
  eval_form fuel .sequence _

theorem eval_assign (t e : Value) (extra : List Value) :
    eval fuel (.list (.symbol "set" :: t :: e :: extra)) =
      .dispatch "set" (extra.length + 2) (.deeper 1 (.assignFrom t (eval fuel e))) :=
  eval_form fuel .assign _

theorem eval_print (e : Value) (extra : List Value) :
    eval fuel (.list (.symbol "print" :: e :: extra)) =
      .dispatch "print" (extra.length + 1) (.deeper 1 (.printFrom (eval fuel e))) :=
  eval_form fuel .print _

theorem eval_binary (o : Operator) (l r : Value) (extra : List Value) :
    eval fuel (.list (.symbol o.name :: l :: r :: extra)) =
      .dispatch o.name (extra.length + 2) (do
        let a ← eval fuel l
        let b ← eval fuel r
        .ofExcept (o.apply a b)) :=
  eval_operator fuel o _

end Equations

/-! ## What the simplest runs do -/

/-- The state after `name` was bound to `v`. -/
def State.assign (s : State) (name : String) (v : Value) : State :=
  { env := s.env.insert name v, log := .bound name v :: s.log }

namespace Run

variable {room : Room} {s : State}

/-- Only a symbol can be assigned to; the value is not even computed otherwise. -/
theorem assignFrom_badTarget {t : Value} (m : Run Value) (h : ∀ x, t ≠ .symbol x) :
    assignFrom t m = .deeper t.depth (.fail (.eval (.badTarget t))) := by
  cases t with
  | symbol x => exact absurd rfl (h x)
  | _ => rfl

theorem symbolValue_of_bound {x : String} {v : Value} (h : s.env.get? x = some v) :
    symbolValue x room s = deeper (walk v + 1) (pure v) room s := by
  simp only [symbolValue, bind_run, env, h]

theorem symbolValue_of_unbound {x : String} (h : s.env.get? x = none) :
    symbolValue x room s = .done (.symbol x) s := by
  simp only [symbolValue, bind_run, env, h, pure_run]

theorem headValue_of_bound {x : String} {v : Value} (h : s.env.get? x = some v) :
    headValue x room s = deeper (walk v + 1) (pure v) room s := by
  simp only [headValue, bind_run, env, h]

theorem headValue_of_unbound {x : String} (h : s.env.get? x = none) :
    headValue x room s = .failed (.eval (.unbound x)) s := by
  simp only [headValue, bind_run, env, h, fail_run]

theorem print_of_foreign {v : Value} {x : Foreign} (h : v.foreign? = some x) :
    print v none s = .failed (.eval (.unprintable x)) s := by
  simp [print, Value.printed, h]

end Run

end PocketLisp
