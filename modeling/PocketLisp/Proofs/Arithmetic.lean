import PocketLisp.Proofs.BigStep.Complete
import PocketLisp.Proofs.RoundTrip

/-!
# Arithmetic from text to result

A term is a tree of integers and arithmetic operators. Its exact value knows no bound. The language
computes this value, provided that no part of the term leaves the range of integers; otherwise the
first part that does is reported. Parts come in post-order: the left operand, the right operand, and
the operator behind them.

* `Term`, `Term.value`, `Term.text`: terms, their exact values, and how they are written.
* `Term.parts`: a term with all terms below it, in post-order.
* `FirstOverflow ts o l r`: the first of the terms `ts` that is out of range applies `o` to `l` and
  `r`.
* `verdict`: what the first overflow makes of a result. `Term.performs`: this is how a term ends.
* `Computes text ts v`: the text gives `v` if the terms `ts` are in range, and otherwise fails with
  the first of them that is not.
* `run_arithmetic`: terms, and comparisons of two terms.
-/

namespace PocketLisp

/-! ## Terms -/

/-- The operators that give an integer. -/
inductive Arithmetic where
  | add
  | subtract
  | multiply

namespace Arithmetic

/-- The operator of the language. -/
def operator : Arithmetic → Operator
  | .add => .add
  | .subtract => .subtract
  | .multiply => .multiply

/-- The operation on integers without bounds. -/
def exact : Arithmetic → Int → Int → Int
  | .add, l, r => l + r
  | .subtract, l, r => l - r
  | .multiply, l, r => l * r

theorem apply_int (o : Arithmetic) (l r : Int) :
    o.operator.apply (.int l) (.int r) = o.operator.checked l r (o.exact l r) := by
  cases o <;> rfl

end Arithmetic

/-- The operators that compare. -/
inductive Comparison where
  | greater
  | less
  | equal

namespace Comparison

/-- The operator of the language. -/
def operator : Comparison → Operator
  | .greater => .greater
  | .less => .less
  | .equal => .equal

/-- The relation between integers that the operator decides. -/
def holds : Comparison → Int → Int → Bool
  | .greater, l, r => decide (l > r)
  | .less, l, r => decide (l < r)
  | .equal, l, r => decide (l = r)

theorem apply_int (c : Comparison) (l r : Int) :
    c.operator.apply (.int l) (.int r) = .ok (.bool (c.holds l r)) := by
  cases c with
  | greater => rfl
  | less => rfl
  | equal =>
    rw [operator, Operator.apply_equal, Value.same, beq_eq_decide]
    rfl

end Comparison

/-- An operator with two operands, as text. -/
def Operator.text (o : Operator) (l r : String) : String :=
  "(" ++ o.name ++ " " ++ l ++ " " ++ r ++ ")"

/-- An operator with two operands, as an expression. -/
def Operator.expr (o : Operator) (l r : Value) : Value := .list [.symbol o.name, l, r]

/-- Integers of the language, put together by arithmetic. -/
inductive Term where
  | number (n : Int) (h : Value.inRange n = true)
  | apply (o : Arithmetic) (l r : Term)

namespace Term

/-- The exact value. -/
def value : Term → Int
  | .number n _ => n
  | .apply o l r => o.exact l.value r.value

def text : Term → String
  | .number n _ => toString n
  | .apply o l r => o.operator.text l.text r.text

def expr : Term → Value
  | .number n _ => .int n
  | .apply o l r => o.operator.expr l.expr r.expr

/-- The term and all terms below it, in post-order. -/
def parts : Term → List Term
  | .number n h => [.number n h]
  | .apply o l r => l.parts ++ r.parts ++ [.apply o l r]

/-- The exact value is an integer of the language. -/
def fits (t : Term) : Bool := Value.inRange t.value

end Term

/-- Of the terms, the first one that does not fit applies `o` to `l` and `r`. -/
def FirstOverflow (ts : List Term) (o : Arithmetic) (l r : Term) : Prop :=
  ∃ before after, ts = before ++ .apply o l r :: after ∧ (∀ t ∈ before, t.fits = true) ∧
    (Term.apply o l r).fits = false

/-! ## Texts of terms -/

theorem Forest.renderTree_expr (o : Operator) (l r : Value) :
    renderTree (o.expr l r) = o.text (renderTree l) (renderTree r) := by
  simp [Operator.expr, Operator.text, renderTree, renderTrees, String.intercalate_cons_cons,
    String.append_assoc]

theorem Value.Readable.expr {l r : Value} (hl : l.Readable) (hr : r.Readable) (o : Operator) :
    (o.expr l r).Readable := by
  have hname : (Value.symbol o.name).isReadableLeaf = true := by cases o <;> decide
  exact .list (List.forall_mem_cons.2 ⟨.leaf hname,
    List.forall_mem_cons.2 ⟨hl, List.forall_mem_singleton.2 hr⟩⟩)

namespace Term

theorem renderTree_expr (t : Term) : Forest.renderTree t.expr = t.text := by
  induction t with
  | number n h => simp only [expr, text, Forest.renderTree]
  | apply o l r ihl ihr => rw [expr, text, Forest.renderTree_expr, ihl, ihr]

theorem readable_expr (t : Term) : t.expr.Readable := by
  induction t with
  | number n h => exact .leaf h
  | apply o l r ihl ihr => exact ihl.expr ihr o.operator

end Term

/-! ## The first overflow -/

/-- The fault of an operator whose exact result does not fit. -/
def Term.overflow? : Term → Option EvalFault
  | .number .. => none
  | .apply o l r =>
    if (Term.apply o l r).fits then none else some (.overflow o.operator l.value r.value)

/-- What becomes of the result `r` behind the terms: the first overflow, if there is one. -/
def verdict (ts : List Term) (r : Except EvalFault Value) : Except Fault Value :=
  match ts.findSome? Term.overflow? with
  | none => r.mapError .eval
  | some f => .error (.eval f)

theorem Term.overflow?_eq_none {t : Term} : t.overflow? = none ↔ t.fits = true := by
  cases t with
  | number n h => exact iff_of_true rfl h
  | apply o l r =>
    rw [overflow?]
    split <;> simp_all

theorem Term.findSome?_overflow? {ts : List Term} (h : ∀ t ∈ ts, t.fits = true) :
    ts.findSome? overflow? = none :=
  List.findSome?_eq_none_iff.2 fun t ht => overflow?_eq_none.2 (h t ht)

theorem verdict_of_fits {ts : List Term} (h : ∀ t ∈ ts, t.fits = true)
    (r : Except EvalFault Value) : verdict ts r = r.mapError .eval := by
  rw [verdict, Term.findSome?_overflow? h]

theorem verdict_of_firstOverflow {ts : List Term} {o : Arithmetic} {l r : Term}
    (h : FirstOverflow ts o l r) (res : Except EvalFault Value) :
    verdict ts res = .error (.eval (.overflow o.operator l.value r.value)) := by
  obtain ⟨before, after, rfl, hbefore, hnode⟩ := h
  have hsome : (Term.apply o l r).overflow? = some (.overflow o.operator l.value r.value) := by
    rw [Term.overflow?, hnode]
    rfl
  rw [verdict, List.findSome?_append, Term.findSome?_overflow? hbefore, List.findSome?_cons, hsome]
  rfl

/-- Numbers fit, so a term that does not applies an operator. -/
theorem fits_or_exists_firstOverflow (ts : List Term) :
    (∀ t ∈ ts, t.fits = true) ∨ ∃ o l r, FirstOverflow ts o l r := by
  induction ts with
  | nil => exact .inl (by simp)
  | cons t ts ih =>
    cases ht : t.fits with
    | true =>
      rcases ih with hall | ⟨o, l, r, before, after, rfl, hbefore, hnode⟩
      · exact .inl (List.forall_mem_cons.2 ⟨ht, hall⟩)
      · exact .inr ⟨o, l, r, t :: before, after, rfl, List.forall_mem_cons.2 ⟨ht, hbefore⟩, hnode⟩
    | false =>
      cases t with
      | number n h => exact absurd (h.symm.trans ht) (by decide)
      | apply o l r => exact .inr ⟨o, l, r, [], ts, rfl, by simp, ht⟩

/-! ## Evaluation -/

section Evaluation

variable {bounded : Bool} {env : Env} {ls rs : List Term} {l r a b : Value}

/-- An operator is behind both its operands: what comes first among their terms decides. -/
theorem Performs.operation (o : Operator)
    (hl : Performs bounded env (.expr l) [] (verdict ls (.ok a)))
    (hr : Performs bounded env (.expr r) [] (verdict rs (.ok b))) :
    Performs bounded env (.expr (o.expr l r)) [] (verdict (ls ++ rs) (o.apply a b)) := by
  unfold verdict at hl hr ⊢
  rw [List.findSome?_append]
  cases hls : ls.findSome? Term.overflow? with
  | some f =>
    rw [hls] at hl
    exact .leftFails hl
  | none =>
    rw [hls] at hl
    cases hrs : rs.findSome? Term.overflow? with
    | some f =>
      rw [hrs] at hr
      exact .rightFails hl hr
    | none =>
      rw [hrs] at hr
      exact .binary hl hr

/-- The check of a result is the last of the terms. -/
theorem verdict_apply (ts : List Term) (o : Arithmetic) (l r : Term) :
    verdict ts (o.operator.apply (.int l.value) (.int r.value)) =
      verdict (ts ++ [.apply o l r]) (.ok (.int (Term.apply o l r).value)) := by
  unfold verdict
  rw [List.findSome?_append, o.apply_int]
  cases hts : ts.findSome? Term.overflow? with
  | some f => rfl
  | none =>
    rw [Option.none_or, List.findSome?_cons, List.findSome?_nil, Term.overflow?, Operator.checked,
      Term.fits, Term.value]
    cases Value.inRange (o.exact l.value r.value) <;> rfl

/-- A term evaluates to its exact value, or fails with its first overflow, and has no effects. -/
theorem Term.performs (bounded : Bool) (env : Env) (t : Term) :
    Performs bounded env (.expr t.expr) [] (verdict t.parts (.ok (.int t.value))) := by
  induction t with
  | number n h => exact .int env n
  | apply o l r ihl ihr =>
    have hboth := ihl.operation o.operator ihr
    rwa [verdict_apply] at hboth

theorem Comparison.performs (bounded : Bool) (env : Env) (c : Comparison) (l r : Term) :
    Performs bounded env (.expr (c.operator.expr l.expr r.expr)) []
      (verdict (l.parts ++ r.parts) (.ok (.bool (c.holds l.value r.value)))) := by
  have hboth := (l.performs bounded env).operation c.operator (r.performs bounded env)
  rwa [c.apply_int] at hboth

end Evaluation

/-! ## Runs of texts -/

/-- In a fresh environment the text ends with the values or fault at the end. -/
def RunsTo (text : String) (r : Except Fault (List Value)) : Prop :=
  ∃ t, Ends (evalText · text) {} r t

theorem RunsTo.unique {text : String} {r r' : Except Fault (List Value)} (h : RunsTo text r)
    (h' : RunsTo text r') : r = r' := by
  obtain ⟨t, ht⟩ := h
  obtain ⟨t', ht'⟩ := h'
  exact (ht.unique ht').1

/-- The text of one expression runs to what the expression evaluates to. -/
theorem runsTo_renderTree {e : Value} {log : List Effect} {r : Except Fault Value}
    (he : e.Readable) (h : Performs false .empty (.expr e) log r) :
    RunsTo (Forest.renderTree e) (r.map ([·])) := by
  have hread : (readText (Forest.renderTree e)).result = .ok [e] := by
    have hforest : (readText (Forest.render [e])).result = .ok [e] :=
      readText_render (List.forall_mem_singleton.2 he)
    rwa [Forest.render, Forest.renderTrees, Forest.renderTrees, String.intercalate_singleton]
      at hforest
  have hitems : ∃ log', Performs false .empty (.items [e]) log' (r.map ([·])) := by
    cases r with
    | ok v => exact ⟨_, .cons h (.nil _)⟩
    | error f => exact ⟨_, .itemFails h⟩
  obtain ⟨log', hitems⟩ := hitems
  obtain ⟨t, ⟨enough, hrun⟩, -⟩ := comes_of_performs hitems
    (({} : State).noteAll (startTrace (Forest.renderTree e) [e])) rfl
  refine ⟨t, enough, fun fuel hfuel => ?_⟩
  show evalText fuel _ none {} = _
  rw [evalText_of_read hread, evalForest, evalItems_eq_map]
  exact hrun fuel hfuel

/-- The text gives `v` if the terms fit, and otherwise fails with the first one that does not. -/
structure Computes (text : String) (ts : List Term) (v : Value) : Prop where
  runs_iff : RunsTo text (.ok [v]) ↔ ∀ t ∈ ts, t.fits = true
  fits_or_overflow : (∀ t ∈ ts, t.fits = true) ∨ ∃ o l r, FirstOverflow ts o l r
  fails : ∀ o l r, FirstOverflow ts o l r →
    RunsTo text (.error (.eval (.overflow o.operator l.value r.value)))

theorem computes_of_performs {e v : Value} {ts : List Term} (he : e.Readable)
    (h : Performs false .empty (.expr e) [] (verdict ts (.ok v))) :
    Computes (Forest.renderTree e) ts v := by
  have hruns := runsTo_renderTree he h
  have hfails : ∀ o l r, FirstOverflow ts o l r →
      RunsTo (Forest.renderTree e) (.error (.eval (.overflow o.operator l.value r.value))) := by
    intro o l r hfirst
    rwa [verdict_of_firstOverflow hfirst] at hruns
  refine ⟨⟨fun hok => ?_, fun hfits => ?_⟩, fits_or_exists_firstOverflow ts, hfails⟩
  · rcases fits_or_exists_firstOverflow ts with hfits | ⟨o, l, r, hfirst⟩
    · exact hfits
    · cases hok.unique (hfails o l r hfirst)
  · rwa [verdict_of_fits hfits] at hruns

/-- **Arithmetic.** The text of a term runs to the exact value of the term exactly if that value and
those of all terms below it are in range. Otherwise the run fails with the first of them in
post-order that is not: its operator is reported with the exact values of the operands. The text of
a comparison runs to the comparison of the exact values, if all terms on both sides are in range,
and otherwise fails in the same way. The depth of nesting is not bounded here: within a bound, a term
that is nested too deep runs out of room instead (`evalText_bounded`). -/
theorem run_arithmetic :
    (∀ t : Term, Computes t.text t.parts (.int t.value)) ∧
    (∀ (c : Comparison) (l r : Term), Computes (c.operator.text l.text r.text) (l.parts ++ r.parts)
      (.bool (c.holds l.value r.value))) ∧
    ∀ (o : Arithmetic) (l r : Int),
      (Fault.eval (.overflow o.operator l r)).kind.label = "MlspOverflowError" ∧
      (Fault.eval (.overflow o.operator l r)).message =
        "integer overflow in (" ++ o.operator.name ++ " " ++ toString l ++ " " ++ toString r ++
          ")" := by
  refine ⟨fun t => ?_, fun c l r => ?_, fun o l r => ⟨rfl, rfl⟩⟩
  · rw [← t.renderTree_expr]
    exact computes_of_performs t.readable_expr (t.performs false .empty)
  · rw [← l.renderTree_expr, ← r.renderTree_expr, ← Forest.renderTree_expr]
    exact computes_of_performs (l.readable_expr.expr r.readable_expr c.operator)
      (c.performs false .empty l r)

/-- Both operands of a product overflow, and so does the product. The left operand is reported. -/
theorem run_arithmetic_left_first :
    let least : Term := .number (-2147483648) rfl
    let one : Term := .number 1 rfl
    let l : Term := .apply .subtract least one
    let r : Term := .apply .add (.number 2147483647 rfl) one
    let t : Term := .apply .multiply l r
    t.text = "(* (- -2147483648 1) (+ 2147483647 1))" ∧
    FirstOverflow t.parts .subtract least one ∧
    RunsTo t.text (.error (.eval (.overflow .subtract (-2147483648) 1))) ∧
    RunsTo (Operator.text .greater least.text one.text) (.ok [.bool false]) := by
  intro least one l r t
  obtain ⟨hterm, hcompare, -⟩ := run_arithmetic
  have hfirst : FirstOverflow t.parts .subtract least one :=
    ⟨[least, one], _, rfl, by decide, by decide⟩
  exact ⟨by decide, hfirst, (hterm t).fails .subtract least one hfirst,
    (hcompare .greater least one).runs_iff.2 (by decide)⟩

end PocketLisp
