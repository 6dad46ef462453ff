import Mathlib.Data.Set.Basic
import PocketLisp.Proofs.Fuel
import PocketLisp.Proofs.Lockstep

/-!
# Noninterference

What an expression does depends on the names that it reads, and on no others.

* `Value.reads`: the names that the evaluation of an expression may look up. The heads of forms and
  operators, the targets of assignments and surplus operands are not among them.
* `Agree R`: two environments that bind the names of `R` alike.
* `eval_noninterference`: two runs of an expression, from environments that agree on what it reads,
  end in the same way and have the same effects.
-/

namespace PocketLisp

namespace Value

mutual

/-- The names that the evaluation of an expression may look up. -/
def reads : Value → List String
  | .symbol x => [x]
  | .list (.symbol head :: operands) =>
    match Head.ofName head with
    | .ordinary => [head]
    | h => (h.evaluated (readsItems operands)).flatten
  | _ => []

def readsItems : List Value → List (List String)
  | [] => []
  | v :: vs => reads v :: readsItems vs

end

theorem readsItems_eq_map (items : List Value) : readsItems items = items.map reads := by
  induction items with
  | nil => rfl
  | cons v vs ih => simp [readsItems, ih]

theorem reads_form (f : Form) (operands : List Value) :
    reads (.list (.symbol f.name :: operands)) =
      ((Head.form f).evaluated (operands.map reads)).flatten := by
  rw [reads, Head.ofName_form, readsItems_eq_map]

theorem reads_operator (o : Operator) (operands : List Value) :
    reads (.list (.symbol o.name :: operands)) =
      ((Head.operator o).evaluated (operands.map reads)).flatten := by
  rw [reads, Head.ofName_operator, readsItems_eq_map]

theorem reads_ordinary {x : String} (operands : List Value) (h : Head.ofName x = .ordinary) :
    reads (.list (.symbol x :: operands)) = [x] := by
  rw [reads, h]

theorem reads_conditional (c y n : Value) (extra : List Value) :
    reads (.list (.symbol "if" :: c :: y :: n :: extra)) = c.reads ++ (y.reads ++ n.reads) := by
  simpa [Head.evaluated, Form.name] using reads_form .conditional (c :: y :: n :: extra)

theorem reads_loop (c b : Value) (extra : List Value) :
    reads (.list (.symbol "while" :: c :: b :: extra)) = c.reads ++ b.reads := by
  simpa [Head.evaluated, Form.name] using reads_form .loop (c :: b :: extra)

theorem mem_reads_sequence {es : List Value} {x : String} :
    x ∈ reads (.list (.symbol "do" :: es)) ↔ ∃ e ∈ es, x ∈ e.reads := by
  have h := reads_form .sequence es
  simp only [Form.name] at h
  simp [h, Head.evaluated]

theorem reads_assign (t e : Value) (extra : List Value) :
    reads (.list (.symbol "set" :: t :: e :: extra)) = e.reads := by
  simpa [Head.evaluated, Form.name] using reads_form .assign (t :: e :: extra)

theorem reads_print (e : Value) (extra : List Value) :
    reads (.list (.symbol "print" :: e :: extra)) = e.reads := by
  simpa [Head.evaluated, Form.name] using reads_form .print (e :: extra)

theorem reads_binary (o : Operator) (l r : Value) (extra : List Value) :
    reads (.list (.symbol o.name :: l :: r :: extra)) = l.reads ++ r.reads := by
  simpa [Head.evaluated] using reads_operator o (l :: r :: extra)

end Value

/-- The environments bind the names of `R` alike. -/
def Agree (R : Set String) (a b : Env) : Prop := ∀ x ∈ R, a.get? x = b.get? x

/-- What two runs of one expression have come to, from the environments `a` and `b`: they still
agree on `R`, they differ only where nothing was bound since, and their logs are the same. -/
structure Paired (R : Set String) (a b : Env) (s t : State) : Prop where
  agree : Agree R s.env t.env
  apart : ∀ y, s.env.get? y = t.env.get? y ∨
    (s.env.get? y = a.get? y ∧ t.env.get? y = b.get? y)
  log : s.log = t.log

namespace Paired

variable {R : Set String} {a b : Env} {s t : State}

theorem start (h : Agree R a b) : Paired R a b { env := a } { env := b } :=
  ⟨h, fun _ => .inr ⟨rfl, rfl⟩, rfl⟩

theorem note (h : Paired R a b s t) (e : Event) : Paired R a b (s.note e) (t.note e) :=
  ⟨h.agree, h.apart, congrArg (e :: ·) h.log⟩

theorem assign (h : Paired R a b s t) (x : String) (v : Value) :
    Paired R a b (s.assign x v) (t.assign x v) := by
  refine ⟨fun y hy => ?_, fun y => ?_, congrArg (Event.bound x v :: ·) h.log⟩
  · simp only [State.assign, Env.get?_insert]
    split
    · rfl
    · exact h.agree y hy
  · simp only [State.assign, Env.get?_insert]
    split
    · exact .inl rfl
    · exact h.apart y

end Paired

/-- Two runs of one expression keep any relation between states that events and bindings keep and
under which the names that the expression reads are bound alike. -/
theorem eval_lockstep_of {I : State → State → Prop} (fuel : Nat) (e : Value)
    (hread : ∀ x ∈ e.reads, ∀ s t, I s t → s.env.get? x = t.env.get? x)
    (hnote : ∀ s t ev, I s t → I (s.note ev) (t.note ev))
    (hassign : ∀ s t x v, I s t → I (s.assign x v) (t.assign x v)) :
    Run.Lockstep I Eq Eq (eval fuel e) (eval fuel e) := by
  have dispatch {head : String} {i : Nat} {m : Run Value} (h : Run.Lockstep I Eq Eq m m) :
      Run.Lockstep I Eq Eq (.dispatch head i m) (.dispatch head i m) :=
    .dispatch (fun s t hs => hnote s t _ hs) h
  induction e using Value.exprInduct with
  | int n => exact .deeper _ _ (.pure rfl)
  | bool b => exact .deeper _ _ (.pure rfl)
  | foreign x => exact .deeper _ _ (.pure rfl)
  | marker p => exact .deeper _ _ (.fail rfl)
  | empty => exact .deeper _ _ (.fail rfl)
  | symbol x =>
    refine .deeper _ _ (.symbolValue fun s t hs => ?_)
    rw [hread x (by simp [Value.reads]) s t hs]
  | badHead head operands h =>
    rw [eval_badHead fuel _ h]
    exact .deeper _ _ (.deeper _ _ (.fail rfl))
  | ordinary x operands h =>
    rw [eval_ordinary fuel _ h]
    refine dispatch (.headValue rfl fun s t hs => ?_)
    rw [hread x (by simp [Value.reads_ordinary _ h]) s t hs]
    cases t.env.get? x with
    | none => exact .none
    | some v => exact .some rfl
  | shortForm f operands h =>
    rw [eval_shortForm fuel h]
    exact dispatch (.fail rfl)
  | shortOperator o operands h =>
    rw [eval_shortOperator fuel h]
    exact dispatch (.fail rfl)
  | conditional c y n extra hc hy hn =>
    simp only [Value.reads_conditional, List.mem_append] at hread
    rw [eval_conditional]
    refine dispatch (.deeper _ _ (.choose (by rintro _ _ rfl; rfl) (hc ?_) (hy ?_) (hn ?_)))
    · exact fun x hx => hread x (.inl hx)
    · exact fun x hx => hread x (.inr (.inl hx))
    · exact fun x hx => hread x (.inr (.inr hx))
  | loop c b extra hc hb =>
    simp only [Value.reads_loop, List.mem_append] at hread
    rw [eval_loop]
    refine dispatch (.deeper _ _ (.loop (by rintro _ _ rfl; rfl) (hc ?_) (hb ?_) fuel rfl))
    · exact fun x hx => hread x (.inl hx)
    · exact fun x hx => hread x (.inr hx)
  | sequence es ih =>
    rw [eval_sequence]
    refine dispatch (.deeper _ _ (.bind (.collect fun e he => ih e he ?_) fun vs ws hvw => ?_))
    · exact fun x hx => hread x (Value.mem_reads_sequence.2 ⟨e, he, hx⟩)
    · obtain rfl := List.forall₂_eq_eq_eq ▸ hvw
      exact .pure rfl
  | assign x e extra he =>
    rw [Value.reads_assign] at hread
    rw [eval_assign]
    refine dispatch (.deeper _ _ (.assignFrom ?_ (he hread)))
    rintro s t v _ hs rfl
    exact hassign s t x v hs
  | badTarget t e extra h =>
    rw [eval_assign, Run.assignFrom_badTarget _ h]
    exact dispatch (.deeper _ _ (.deeper _ _ (.fail rfl)))
  | print e extra he =>
    rw [Value.reads_print] at hread
    rw [eval_print]
    refine dispatch (.deeper _ _ (.printFrom (by rintro _ _ rfl; rfl) (fun _ => rfl) ?_ (he hread)))
    rintro s t v _ hs rfl
    exact hnote s t _ hs
  | binary o l r extra hl hr =>
    simp only [Value.reads_binary, List.mem_append] at hread
    rw [eval_binary]
    refine dispatch (.bind (hl fun x hx => hread x (.inl hx)) ?_)
    rintro v _ rfl
    refine .bind (hr fun x hx => hread x (.inr hx)) ?_
    rintro w _ rfl
    exact .ofExcept (fun u hu => ⟨u, hu, rfl⟩) fun f hf => ⟨f, hf, rfl⟩

theorem eval_lockstep {R : Set String} {a b : Env} (fuel : Nat) (e : Value)
    (hR : ∀ x ∈ e.reads, x ∈ R) :
    Run.Lockstep (Paired R a b) Eq Eq (eval fuel e) (eval fuel e) := by
  apply eval_lockstep_of
  · exact fun x hx s t hs => hs.agree x (hR x hx)
  · exact fun s t ev hs => hs.note ev
  · exact fun s t x v hs => hs.assign x v

/-- **Noninterference.** Evaluated in two environments that agree on a set of names with all that
the expression reads among them, an expression diverges in both, or ends in both with the same value
or fault and after the same events, so with the same printed text. The environments left agree on
the set again, and every other name is bound alike in both or is bound as at the start in both. -/
theorem eval_noninterference (e : Value) (R : Set String) (hR : ∀ x ∈ e.reads, x ∈ R)
    (a b : Env) (hab : Agree R a b) :
    (Diverges (eval · e) { env := a } ∧ Diverges (eval · e) { env := b }) ∨
    ∃ r s t, Ends (eval · e) { env := a } r s ∧ Ends (eval · e) { env := b } r t ∧
      s.events = t.events ∧ Event.outputText s.events = Event.outputText t.events ∧
      Agree R s.env t.env ∧
      ∀ y, s.env.get? y = t.env.get? y ∨
        (s.env.get? y = a.get? y ∧ t.env.get? y = b.get? y) := by
  have hmono (i j : Nat) (hij : i ≤ j) := eval_below hij e
  have hlock (fuel : Nat) := eval_lockstep (a := a) (b := b) fuel e hR
  rcases Run.Lockstep.diverge_or_end hmono hmono hlock (Paired.start hab) with hdiv | hend
  · exact .inl hdiv
  · obtain ⟨r, r', s, t, hs, ht, hmatch⟩ := hend
    obtain ⟨rfl, hst⟩ := hmatch.eq_of_ended
    have hev : s.events = t.events := congrArg List.reverse hst.log
    exact .inr ⟨r, s, t, hs, ht, hev, congrArg _ hev, hst.agree, hst.apart⟩

/-- A loop that counts `i` up behaves alike with and without a binding of `z`. -/
theorem eval_noninterference_counter :
    let e : Value := .list [.symbol "while", .list [.symbol "<", .symbol "i", .int 2],
      .list [.symbol "do", .list [.symbol "print", .symbol "i"],
        .list [.symbol "set", .symbol "i", .list [.symbol "+", .symbol "i", .int 1]]]]
    let a := (Env.empty.insert "i" (.int 0)).insert "z" (.int 7)
    let b := Env.empty.insert "i" (.int 0)
    (∀ x ∈ e.reads, x ∈ ({"i"} : Set String)) ∧ Agree {"i"} a b ∧ a.get? "z" ≠ b.get? "z" ∧
    ((Diverges (eval · e) { env := a } ∧ Diverges (eval · e) { env := b }) ∨
    ∃ r s t, Ends (eval · e) { env := a } r s ∧ Ends (eval · e) { env := b } r t ∧
      s.events = t.events ∧ Event.outputText s.events = Event.outputText t.events ∧
      Agree {"i"} s.env t.env ∧
      ∀ y, s.env.get? y = t.env.get? y ∨
        (s.env.get? y = a.get? y ∧ t.env.get? y = b.get? y)) := by
  intro e a b
  have hR : ∀ x ∈ e.reads, x = "i" := by decide
  have hab : Agree {"i"} a b := by
    rintro x rfl
    simp [a, b, Env.get?_insert]
  refine ⟨hR, hab, ?_, eval_noninterference e {"i"} hR a b hab⟩
  simp [a, b, Env.get?_insert]

end PocketLisp
