import PocketLisp.Proofs.Invariant

/-!
# The frame of an expression

Evaluation binds the targets of the assignments that it can reach, and no other names. What a name
is bound to is never evaluated, so it makes no difference if that looks like an assignment itself.

* `Value.reached`: the parts of an expression that its evaluation can come to, through the operands
  that are evaluated. The expression itself is one of them.
* `Value.targets`: the names that the assignments among these parts bind.
* `Env.Framed T a b`: from `a` to `b`, nothing but names of `T` was bound, and nothing was unbound.
* `eval_keeps_of_targets`: an invariant is kept by an expression if every assignment to one of its
  targets keeps it. `eval_env_of_targets`: what that says of the environment alone.
* `eval_frame`: the frame, however the evaluation ends.
-/

namespace PocketLisp

namespace Head

@[simp] theorem ofName_if : ofName "if" = .form .conditional := ofName_form .conditional
@[simp] theorem ofName_while : ofName "while" = .form .loop := ofName_form .loop
@[simp] theorem ofName_do : ofName "do" = .form .sequence := ofName_form .sequence
@[simp] theorem ofName_set : ofName "set" = .form .assign := ofName_form .assign
@[simp] theorem ofName_print : ofName "print" = .form .print := ofName_form .print

/-- The operands to evaluate are chosen by their number and place alone. -/
theorem evaluated_map {α β : Type} (h : Head) (f : α → β) (xs : List α) :
    h.evaluated (xs.map f) = (h.evaluated xs).map f := by
  cases h with
  | ordinary => rfl
  | operator o =>
    match xs with
    | [] | [_] | _ :: _ :: _ => rfl
  | form g =>
    cases g with
    | sequence => rfl
    | conditional =>
      match xs with
      | [] | [_] | [_, _] | _ :: _ :: _ :: _ => rfl
    | loop =>
      match xs with
      | [] | [_] | _ :: _ :: _ => rfl
    | assign =>
      match xs with
      | [] | [_] | _ :: _ :: _ => rfl
    | print =>
      match xs with
      | [] | _ :: _ => rfl

end Head

namespace Value

mutual

/-- The parts of an expression that its evaluation can come to, itself included. -/
def reached : Value → List Value
  | .list (.symbol head :: operands) =>
    .list (.symbol head :: operands) ::
      ((Head.ofName head).evaluated (reachedItems operands)).flatten
  | v => [v]

def reachedItems : List Value → List (List Value)
  | [] => []
  | v :: vs => reached v :: reachedItems vs

end

/-- The name that an assignment binds. -/
def target? : Value → Option String
  | .list (.symbol "set" :: .symbol x :: _ :: _) => some x
  | _ => none

/-- The names that the evaluation of an expression may bind. -/
def targets (e : Value) : List String := e.reached.filterMap target?

theorem reachedItems_eq_map (items : List Value) : reachedItems items = items.map reached := by
  induction items with
  | nil => rfl
  | cons v vs ih => simp [reachedItems, ih]

/-- A list comes to itself and to all that its evaluated operands come to. -/
theorem reached_list (head : String) (operands : List Value) :
    reached (.list (.symbol head :: operands)) =
      .list (.symbol head :: operands) ::
        ((Head.ofName head).evaluated operands).flatMap reached := by
  rw [reached, reachedItems_eq_map, Head.evaluated_map, List.flatMap_def]

theorem targets_of_operand {head : String} {operands : List Value} {e : Value}
    (he : e ∈ (Head.ofName head).evaluated operands) {x : String} (hx : x ∈ e.targets) :
    x ∈ targets (.list (.symbol head :: operands)) := by
  obtain ⟨part, hpart, htarget⟩ := List.mem_filterMap.1 hx
  rw [targets, reached_list]
  refine List.mem_filterMap.2 ⟨part, List.mem_cons_of_mem _ ?_, htarget⟩
  exact List.mem_flatMap.2 ⟨e, he, hpart⟩

theorem mem_targets_assign (x : String) (e : Value) (extra : List Value) :
    x ∈ targets (.list (.symbol "set" :: .symbol x :: e :: extra)) := by
  rw [targets, reached_list]
  exact List.mem_filterMap.2 ⟨_, List.mem_cons_self, rfl⟩

end Value

/-! ## Evaluation -/

/-- An expression keeps an invariant of which only its assignments are in doubt. -/
theorem eval_keeps_of_targets {I : State → Prop} (fuel : Nat) (e : Value)
    (hdispatch : ∀ s head i, I s → I (s.note (.dispatched head i)))
    (hprint : ∀ s v, I s → I (s.note (.printed v)))
    (hassign : ∀ x ∈ e.targets, ∀ s v, I s → I (s.assign x v)) :
    Run.Keeps I (fun _ => True) (fun _ => True) (eval fuel e) := by
  have dispatch {head : String} {i : Nat} {m : Run Value}
      (h : Run.Keeps I (fun _ => True) (fun _ => True) m) :
      Run.Keeps I (fun _ => True) (fun _ => True) (.dispatch head i m) :=
    .dispatch (fun s hs => hdispatch s head i hs) h
  induction e using Value.exprInduct with
  | int n => exact .deeper _ (.pure trivial)
  | bool b => exact .deeper _ (.pure trivial)
  | foreign x => exact .deeper _ (.pure trivial)
  | marker p => exact .deeper _ (.fail trivial)
  | empty => exact .deeper _ (.fail trivial)
  | symbol x => exact .deeper _ (.symbolValue (fun _ _ _ _ => trivial) fun _ _ _ => trivial)
  | badHead head operands h =>
    rw [eval_badHead fuel _ h]
    exact .deeper _ (.deeper _ (.fail trivial))
  | ordinary x operands h =>
    rw [eval_ordinary fuel _ h]
    exact dispatch (.headValue (fun _ _ _ _ => trivial) fun _ _ _ => trivial)
  | shortForm f operands h =>
    rw [eval_shortForm fuel h]
    exact dispatch (.fail trivial)
  | shortOperator o operands h =>
    rw [eval_shortOperator fuel h]
    exact dispatch (.fail trivial)
  | conditional c y n extra hc hy hn =>
    have hsub {e : Value} (he : e ∈ [c, y, n]) (x : String) (hx : x ∈ e.targets) :=
      hassign x (Value.targets_of_operand (by simpa [Head.evaluated] using he) hx)
    rw [eval_conditional]
    exact dispatch (.deeper _ (.choose (hc (hsub (by simp))) (hy (hsub (by simp)))
      (hn (hsub (by simp)))))
  | loop c b extra hc hb =>
    have hsub {e : Value} (he : e ∈ [c, b]) (x : String) (hx : x ∈ e.targets) :=
      hassign x (Value.targets_of_operand (by simpa [Head.evaluated] using he) hx)
    rw [eval_loop]
    exact dispatch (.deeper _ (.loop (hc (hsub (by simp))) (hb (hsub (by simp))) fuel trivial))
  | sequence es ih =>
    rw [eval_sequence]
    refine dispatch (.deeper _ (.bind (.collect fun e he => ih e he fun x hx => ?_) ?_))
    · exact hassign x (Value.targets_of_operand (by simpa [Head.evaluated] using he) hx)
    · exact fun vs _ => .pure trivial
  | assign x e extra ih =>
    rw [eval_assign]
    refine dispatch (.deeper _ (.assignFrom (fun s v hs _ => ?_) (ih fun y hy => ?_)))
    · exact hassign x (Value.mem_targets_assign x e extra) s v hs
    · exact hassign y (Value.targets_of_operand (by simp [Head.evaluated]) hy)
  | badTarget t e extra h =>
    rw [eval_assign, Run.assignFrom_badTarget _ h]
    exact dispatch (.deeper _ (.deeper _ (.fail trivial)))
  | print e extra ih =>
    rw [eval_print]
    refine dispatch (.deeper _ (.printFrom (fun _ _ _ _ => trivial) (fun s v hs _ => ?_)
      (ih fun y hy => ?_)))
    · exact hprint s v hs
    · exact hassign y (Value.targets_of_operand (by simp [Head.evaluated]) hy)
  | binary o l r extra hl hr =>
    have hsub {e : Value} (he : e ∈ [l, r]) (x : String) (hx : x ∈ e.targets) :=
      hassign x (Value.targets_of_operand (by simpa [Head.evaluated] using he) hx)
    rw [eval_binary]
    refine dispatch (.bind (hl (hsub (by simp))) fun v _ => ?_)
    refine .bind (hr (hsub (by simp))) fun w _ => ?_
    exact .ofExcept (fun _ _ => trivial) fun _ _ => trivial

/-- What every assignment to a target keeps true of the environment is true of the environment that
is left, however the evaluation ends. -/
theorem eval_env_of_targets {P : Env → Prop} {fuel : Nat} {room : Room} {e : Value} {s t : State}
    {r : Except Fault Value} (hassign : ∀ x ∈ e.targets, ∀ env v, P env → P (env.insert x v))
    (hs : P s.env) (h : eval fuel e room s = .ended r t) : P t.env := by
  have hkeeps : Run.Keeps (fun u => P u.env) (fun _ => True) (fun _ => True) (eval fuel e) :=
    eval_keeps_of_targets fuel e (fun _ _ _ hu => hu) (fun _ _ hu => hu)
      fun x hx u v hu => hassign x hx u.env v hu
  exact (hkeeps.of_ended hs h).1

/-! ## The frame -/

/-- From `a` to `b` names of `T` may have been bound; no other name has changed, and every name that
was bound still is. -/
structure Env.Framed (T : List String) (a b : Env) : Prop where
  outside : ∀ x, x ∉ T → b.get? x = a.get? x
  kept : ∀ x, a.contains x = true → b.contains x = true

namespace Env.Framed

variable {T : List String} {a b : Env}

theorem refl (T : List String) (a : Env) : Framed T a a := ⟨fun _ _ => rfl, fun _ h => h⟩

theorem insert (h : Framed T a b) {x : String} (hx : x ∈ T) (v : Value) :
    Framed T a (b.insert x v) := by
  refine ⟨fun y hy => ?_, fun y hy => ?_⟩
  · have hne : y ≠ x := fun hyx => hy (hyx ▸ hx)
    rw [get?_insert_ne b v hne, h.outside y hy]
  · rw [contains, get?_insert]
    split
    · rfl
    · exact h.kept y hy

theorem mem_of_new (h : Framed T a b) {x : String} (hold : a.contains x = false)
    (hnew : b.contains x = true) : x ∈ T := by
  by_cases hx : x ∈ T
  · exact hx
  · rw [contains, h.outside x hx] at hnew
    rw [contains, hnew] at hold
    cases hold

end Env.Framed

/-- **Frame.** However the evaluation of an expression ends, every name that is no target of it is
bound as before or unbound as before, every name that was bound is still bound, and every name that
is bound anew is a target. -/
theorem eval_frame (fuel : Nat) (room : Room) (e : Value) (s t : State) (r : Except Fault Value)
    (h : eval fuel e room s = .ended r t) :
    (∀ x, x ∉ e.targets → t.env.get? x = s.env.get? x) ∧
    (∀ x, s.env.contains x = true → t.env.contains x = true) ∧
    ∀ x, s.env.contains x = false → t.env.contains x = true → x ∈ e.targets := by
  have hkeeps : Run.Keeps (fun u => s.env.Framed e.targets u.env) (fun _ => True)
      (fun _ => True) (eval fuel e) := by
    apply eval_keeps_of_targets
    · exact fun u head i hu => hu
    · exact fun u v hu => hu
    · exact fun x hx u v hu => hu.insert hx v
  obtain ⟨hframed, -⟩ := hkeeps.of_ended (.refl e.targets s.env) h
  exact ⟨hframed.outside, hframed.kept, fun x hold hnew => hframed.mem_of_new hold hnew⟩

/-- The value of `x` looks like an assignment to `y`. It is looked up, called and copied to `z`
before the evaluation fails, and `y` stays unbound. -/
theorem eval_frame_stored_assignment :
    let code : Value := .list [.symbol "set", .symbol "y", .int 1]
    let e : Value := .list [.symbol "do", .symbol "x", .list [.symbol "x", code],
      .list [.symbol "set", .symbol "z", .symbol "x"], .list [.symbol "+", .symbol "x", .int 1]]
    let s : State := { env := Env.empty.insert "x" code }
    ∃ t, eval 0 e none s = .ended (.error (.eval (.mismatch .add))) t ∧
      s.env.contains "z" = false ∧ t.env.contains "z" = true ∧ "z" ∈ e.targets ∧
      t.env.get? "y" = none ∧ t.env.get? "x" = some code := by
  intro code e s
  have hrun : (match eval 0 e none s with
      | .failed (.eval (.mismatch .add)) t => t.env.contains "z"
      | _ => false) = true := by
    decide +kernel
  split at hrun
  · next t ht =>
    obtain ⟨houtside, -, hnew⟩ := eval_frame 0 none e s t (.error (.eval (.mismatch .add))) ht
    have hold : s.env.contains "z" = false := by decide +kernel
    refine ⟨t, ht, hold, hrun, hnew "z" hold hrun, ?_, ?_⟩
    · rw [houtside "y" (by decide +kernel)]
      exact Env.get?_insert_ne _ _ (by decide)
    · rw [houtside "x" (by decide +kernel)]
      exact Env.get?_insert_self _ _ _
  · cases hrun

end PocketLisp
