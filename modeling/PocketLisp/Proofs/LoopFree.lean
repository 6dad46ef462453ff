import PocketLisp.Proofs.Frame
import PocketLisp.Proofs.Observation

/-!
# Expressions without loops

Only a loop can go on for ever. An expression that cannot come to a loop ends with any fuel, and it
evaluates each part of itself at most once, in the order in which the parts stand. What names are
bound to makes no difference: it is copied and never evaluated, even if it looks like a loop.

* `Value.LoopFree`: no part that the evaluation can come to is a loop.
* `Value.calls`: the lists among the parts that the evaluation can come to, each by its head and the
  number of its operands. This is the measure: it is read off the expression alone.
* `Run.Halts calls m`: `m` ends, and the lists that it evaluates are some of `calls`, in order. The
  rules are those of triples, and there is none for the loop.
* `eval_halts`: an expression without loops.
* `ends_of_loopFree`: such an expression ends, and so does a text of such expressions.
-/

namespace PocketLisp

/-! ## The measure -/

namespace Value

/-- The expression is a loop with its condition and its body. -/
def isLoop : Value → Bool
  | .list (.symbol "while" :: _ :: _ :: _) => true
  | _ => false

/-- No part that the evaluation of the expression can come to is a loop. -/
def LoopFree (e : Value) : Prop := ∀ part ∈ e.reached, part.isLoop = false

instance (e : Value) : Decidable e.LoopFree :=
  inferInstanceAs (Decidable (∀ part ∈ e.reached, part.isLoop = false))

/-- The head of a list and the number of its operands. -/
def call? : Value → Option (String × Nat)
  | .list (.symbol head :: operands) => some (head, operands.length)
  | _ => none

/-- The lists that the evaluation of the expression can come to, in order. -/
def calls (e : Value) : List (String × Nat) := e.reached.filterMap call?

theorem calls_list (head : String) (operands : List Value) :
    calls (.list (.symbol head :: operands)) =
      (head, operands.length) :: ((Head.ofName head).evaluated operands).flatMap calls := by
  rw [calls, reached_list, List.filterMap_cons, List.filterMap_flatMap]
  rfl

theorem LoopFree.operand {head : String} {operands : List Value} {e : Value}
    (h : LoopFree (.list (.symbol head :: operands)))
    (he : e ∈ (Head.ofName head).evaluated operands) : e.LoopFree := by
  intro part hpart
  refine h part ?_
  rw [reached_list]
  exact List.mem_cons_of_mem _ (List.mem_flatMap.2 ⟨e, he, hpart⟩)

end Value

/-- The list whose evaluation an event records. -/
def Event.call? : Event → Option (String × Nat)
  | .dispatched head operands => some (head, operands)
  | _ => none

/-! ## Runs that end -/

/-- Since `before`, the lists that were evaluated are some of `calls`, in order. -/
def State.Called (before : List Event) (calls : List (String × Nat)) (t : State) : Prop :=
  ∃ log, t.events = before ++ log ∧ (log.filterMap Event.call?).Sublist calls

namespace State.Called

variable {before : List Event} {xs ys : List (String × Nat)} {s t : State}

theorem refl (s : State) : s.Called s.events [] := ⟨[], by simp, .refl _⟩

theorem mono (h : s.Called before xs) (hxs : xs.Sublist ys) : s.Called before ys := by
  obtain ⟨log, hs, hlog⟩ := h
  exact ⟨log, hs, hlog.trans hxs⟩

theorem more (h : s.Called before xs) (ys : List (String × Nat)) : s.Called before (xs ++ ys) :=
  h.mono (List.sublist_append_left xs ys)

theorem event (h : s.Called before xs) {e : Event} (ht : t.events = s.events ++ [e])
    (he : [e].filterMap Event.call? = ys) : t.Called before (xs ++ ys) := by
  obtain ⟨log, hs, hlog⟩ := h
  refine ⟨log ++ [e], by rw [ht, hs, List.append_assoc], ?_⟩
  rw [List.filterMap_append, he]
  exact hlog.append (.refl ys)

theorem event_silent (h : s.Called before xs) {e : Event} (ht : t.events = s.events ++ [e])
    (he : e.call? = none) : t.Called before xs := by
  have hevent := h.event ht rfl
  rwa [List.filterMap_cons_none he, List.filterMap_nil, List.append_nil] at hevent

end State.Called

variable {α β : Type}

/-- Whatever the room and the state, `m` ends, and the lists that it evaluates are some of `calls`,
in order. -/
def Run.Halts (calls : List (String × Nat)) (m : Run α) : Prop :=
  ∀ room before earlier, Run.Triple False room (State.Called before earlier) m
    (fun _ => State.Called before (earlier ++ calls))
    fun _ => State.Called before (earlier ++ calls)

theorem Run.Halts.ended {calls : List (String × Nat)} {m : Run α} (h : m.Halts calls) (room : Room)
    (s : State) : ∃ r t log, m room s = .ended r t ∧ t.events = s.events ++ log ∧
      (log.filterMap Event.call?).Sublist calls := by
  have hm := h room s.events []
  obtain ⟨r, t, hr⟩ := hm.exists_ended (.refl s)
  obtain ⟨log, ht, hlog⟩ : t.Called s.events ([] ++ calls) := by
    have hends := hm.of_ended (.refl s) hr
    cases r <;> exact hends
  exact ⟨r, t, log, hr, ht, hlog⟩

namespace Run.Halts

variable {xs ys zs : List (String × Nat)} {room : Room} {before : List Event}
  {earlier : List (String × Nat)} {m : Run α}

/-- A run, where another is to follow it. -/
theorem first (h : m.Halts xs) (ys : List (String × Nat)) :
    Triple False room (State.Called before earlier) m
      (fun _ => State.Called before (earlier ++ xs))
      fun _ => State.Called before (earlier ++ (xs ++ ys)) := by
  refine (h room before earlier).imp (fun _ hs => hs) (fun _ _ hs => hs) fun _ _ hs => ?_
  rw [← List.append_assoc]
  exact hs.more ys

/-- A run that follows another. -/
theorem second (h : m.Halts ys) (xs : List (String × Nat)) :
    Triple False room (State.Called before (earlier ++ xs)) m
      (fun _ => State.Called before (earlier ++ (xs ++ ys)))
      fun _ => State.Called before (earlier ++ (xs ++ ys)) := by
  simpa only [List.append_assoc] using h room before (earlier ++ xs)

theorem pure (a : α) : Halts xs (pure a) := fun _ _ _ => .pure fun _ hs => hs.more xs

theorem fail (f : Fault) : Halts xs (.fail f : Run α) := fun _ _ _ => .fail fun _ hs => hs.more xs

theorem ofExcept (x : Except EvalFault α) : Halts xs (.ofExcept x) :=
  fun _ _ _ => .ofExcept (fun _ _ _ hs => hs.more xs) fun _ _ _ hs => hs.more xs

theorem mono (h : Halts xs m) (hxs : xs.Sublist ys) : Halts ys m :=
  fun room before earlier => (h room before earlier).imp (fun _ hs => hs)
    (fun _ _ hs => hs.mono (hxs.append_left earlier))
    fun _ _ hs => hs.mono (hxs.append_left earlier)

theorem bind {k : α → Run β} (h : Halts xs m) (hk : ∀ a, Halts ys (k a)) :
    Halts (xs ++ ys) (m >>= k) :=
  fun _ _ _ => (h.first ys).bind fun a => (hk a).second xs

theorem bind_still {k : α → Run β} (h : Halts xs m) (hk : ∀ a, Halts [] (k a)) :
    Halts xs (m >>= k) := by
  have hboth := bind h hk
  rwa [List.append_nil] at hboth

theorem deeper (frames : Nat) (h : Halts xs m) : Halts xs (.deeper frames m) :=
  fun room before earlier => .deeper (fun _ _ hs => hs.more xs) fun _ =>
    h (room.less frames) before earlier

theorem dispatch {head : String} {i : Nat} (h : Halts xs m) :
    Halts ((head, i) :: xs) (.dispatch head i m) :=
  fun _ _ _ => .dispatch (fun _ _ hs => hs.more _)
    (fun s hs => hs.event (s.events_note (.dispatched head i)) rfl) fun _ => h.second [(head, i)]

theorem choose {c y n : Run Value} (hc : Halts xs c) (hy : Halts ys y) (hn : Halts zs n) :
    Halts (xs ++ (ys ++ zs)) (.choose c y n) := by
  have hy' := hy.mono (List.sublist_append_left ys zs)
  have hn' := hn.mono (List.sublist_append_right ys zs)
  exact fun _ _ _ => (hc.first (ys ++ zs)).choose (hy'.second xs) fun _ _ => hn'.second xs

theorem collect {ι : Type} {es : List ι} {f : ι → Run α} {calls : ι → List (String × Nat)}
    (h : ∀ e ∈ es, Halts (calls e) (f e)) : Halts (es.flatMap calls) (.collect (es.map f)) := by
  induction es with
  | nil => exact pure []
  | cons e es ih =>
    have hrest := ih fun e' he' => h e' (List.mem_cons_of_mem e he')
    exact bind (h e List.mem_cons_self) fun a => bind_still hrest fun as => pure (a :: as)

theorem symbolValue (x : String) : Halts xs (.symbolValue x) :=
  fun _ _ _ => .symbolValue (fun _ _ hs => hs.more xs) (fun _ _ _ hs _ => hs.more xs)
    fun _ hs _ => hs.more xs

theorem headValue (x : String) : Halts xs (.headValue x) :=
  fun _ _ _ => .headValue (fun _ _ hs => hs.more xs) (fun _ _ _ hs _ => hs.more xs)
    fun _ hs _ => hs.more xs

theorem assignFrom {m : Run Value} (x : String) (h : Halts xs m) :
    Halts xs (.assignFrom (.symbol x) m) := by
  refine fun room before earlier => (h room before earlier).assignFrom (fun _ _ _ hs => hs) ?_
  exact fun v s hs => hs.event_silent (s.events_assign x v) rfl

theorem printFrom {m : Run Value} (h : Halts xs m) : Halts xs (.printFrom m) := by
  refine fun room before earlier => (h room before earlier).printFrom (fun _ _ _ hs => hs) ?_
    fun _ _ _ _ hs => hs
  exact fun v s _ hs => hs.event_silent (s.events_note (.printed v)) rfl

end Run.Halts

/-! ## Evaluation -/

/-- An expression without loops ends. Every case of the evaluation but the loop is covered by a
rule, and there the lists of an operand are among those of the expression. -/
theorem eval_halts (fuel : Nat) {e : Value} (h : e.LoopFree) : (eval fuel e).Halts e.calls := by
  induction e using Value.exprInduct with
  | int n => exact .deeper _ (.pure _)
  | bool b => exact .deeper _ (.pure _)
  | foreign x => exact .deeper _ (.pure _)
  | marker p => exact .deeper _ (.fail _)
  | empty => exact .deeper _ (.fail _)
  | symbol x => exact .deeper _ (.symbolValue x)
  | badHead head operands hhead =>
    rw [eval_badHead fuel _ hhead]
    exact .deeper _ (.deeper _ (.fail _))
  | ordinary x operands hx =>
    rw [eval_ordinary fuel _ hx, Value.calls_list]
    exact .dispatch (.headValue x)
  | shortForm f operands hshort =>
    rw [eval_shortForm fuel hshort, Value.calls_list]
    exact .dispatch (.fail _)
  | shortOperator o operands hshort =>
    rw [eval_shortOperator fuel hshort, Value.calls_list]
    exact .dispatch (.fail _)
  | conditional c y n extra hc hy hn =>
    have hsub {e : Value} (he : e ∈ [c, y, n]) : e.LoopFree := h.operand he
    rw [eval_conditional, Value.calls_list]
    have hchoose :=
      Run.Halts.choose (hc (hsub (by simp))) (hy (hsub (by simp))) (hn (hsub (by simp)))
    exact .dispatch (.deeper _ (by simpa [Head.evaluated] using hchoose))
  | loop c b extra hc hb => cases h _ (by rw [Value.reached_list]; exact List.mem_cons_self)
  | sequence es ih =>
    rw [eval_sequence, Value.calls_list]
    refine .dispatch (.deeper _ (.bind_still (.collect fun e he => ?_) fun vs => .pure _))
    exact ih e he (h.operand he)
  | assign x e extra ih =>
    rw [eval_assign, Value.calls_list]
    have hassign := Run.Halts.assignFrom x (ih (h.operand (by simp [Head.evaluated])))
    exact .dispatch (.deeper _ (by simpa [Head.evaluated] using hassign))
  | badTarget t e extra ht =>
    rw [eval_assign, Run.assignFrom_badTarget _ ht, Value.calls_list]
    exact .dispatch (.deeper _ (.deeper _ (.fail _)))
  | print e extra ih =>
    rw [eval_print, Value.calls_list]
    have hprint := Run.Halts.printFrom (ih (h.operand (by simp [Head.evaluated])))
    exact .dispatch (.deeper _ (by simpa [Head.evaluated] using hprint))
  | binary o l r extra hl hr =>
    have hsub {e : Value} (he : e ∈ [l, r]) : e.LoopFree :=
      h.operand (by simpa [Head.evaluated] using he)
    rw [eval_binary, Value.calls_list]
    have hboth := Run.Halts.bind (hl (hsub (by simp))) fun a =>
      Run.Halts.bind_still (hr (hsub (by simp))) fun b => .ofExcept (o.apply a b)
    exact .dispatch (by simpa [Head.evaluated] using hboth)

theorem evalForest_halts (fuel : Nat) {forest : Forest} (h : ∀ e ∈ forest, e.LoopFree) :
    (evalForest fuel forest).Halts (forest.flatMap Value.calls) := by
  rw [evalForest, evalItems_eq_map]
  exact .collect fun e he => eval_halts fuel (h e he)

theorem evalForest_below {i j : Nat} (hij : i ≤ j) (forest : Forest) :
    Run.Below (evalForest i forest) (evalForest j forest) := by
  rw [evalForest, evalForest, evalItems_eq_map, evalItems_eq_map]
  exact .collect fun e _ => eval_below hij e

/-- **Expressions without loops end.** If no part that the evaluation of an expression can come to
is a loop, the expression ends with a value or a fault, whatever its environment, and with one
answer for any fuel. The lists that it evaluates are some of those parts, each at most once and in
order, so there are no more of them than parts of the expression. A text ends too, if it cannot be
read or if none of its expressions can come to a loop. -/
theorem ends_of_loopFree :
    (∀ e : Value, e.LoopFree → ∀ (room : Room) (s : State), ∃ r t log,
      (∀ fuel, eval fuel e room s = .ended r t) ∧ t.events = s.events ++ log ∧
      (log.filterMap Event.call?).Sublist e.calls ∧
      (log.filterMap Event.call?).length ≤ e.reached.length) ∧
    ∀ text : String,
      (∀ forest, (readText text).result = .ok forest → ∀ e ∈ forest, e.LoopFree) →
      ∀ (room : Room) (s : State), ∃ r t, ∀ fuel, evalText fuel text room s = .ended r t := by
  refine ⟨fun e he room s => ?_, fun text htext room s => ?_⟩
  · obtain ⟨r, t, log, hrun, ht, hlog⟩ := (eval_halts 0 he).ended room s
    have hany (fuel : Nat) := (eval_below (Nat.zero_le fuel) e).ended hrun
    exact ⟨r, t, log, hany, ht, hlog, hlog.length_le.trans (List.length_filterMap_le _ _)⟩
  · cases hread : (readText text).result with
    | error f => exact ⟨.error f, _, fun fuel => evalText_of_unread hread⟩
    | ok forest =>
      obtain ⟨r, t, -, hrun, -⟩ :=
        (evalForest_halts 0 (htext forest hread)).ended room (s.noteAll (startTrace text forest))
      have hany (fuel : Nat) := (evalForest_below (Nat.zero_le fuel) forest).ended hrun
      exact ⟨r, t, fun fuel => (evalText_of_read hread).trans (hany fuel)⟩

/-- A loop without end is the value of `x`, and of names that are reserved at the head of a list. It
is looked up, called and copied, and it stands as an operand that is not evaluated; it is not among
the lists that are. -/
theorem ends_of_loopFree_stored_loop :
    let loop : Value := .list [.symbol "while", .list [.symbol "=", .int 1, .int 1], .int 1]
    let e : Value := .list [.symbol "do", .symbol "x",
      .list [.symbol "set", .symbol "y", .list [.symbol "x", loop]],
      .list [.symbol "if", .symbol "do", .symbol "y", .list [.symbol "y"]]]
    let text := "x (x (while x x))"
    let s : State := { env := ((Env.empty.insert "x" loop).insert "do" loop).insert "if" loop }
    (¬ loop.LoopFree ∧ e.LoopFree) ∧
    (∃ r t log, (∀ fuel, eval fuel e none s = .ended r t) ∧ t.events = log ∧
      (log.filterMap Event.call?).Sublist [("do", 3), ("set", 2), ("x", 1), ("if", 3), ("y", 0)]) ∧
    (∃ forest, (readText text).result = .ok forest ∧ forest.length = 2 ∧
      ∀ e ∈ forest, e.LoopFree) ∧
    ∃ r t, ∀ fuel, evalText fuel text none s = .ended r t := by
  intro loop e text s
  have he : e.LoopFree := by decide
  have hlists : e.calls = [("do", 3), ("set", 2), ("x", 1), ("if", 3), ("y", 0)] := by decide
  have hread : (match (readText text).result with
      | .ok forest => decide (forest.length = 2 ∧ ∀ e ∈ forest, e.LoopFree)
      | .error _ => false) = true := by
    decide +kernel
  obtain ⟨hexpr, htext⟩ := ends_of_loopFree
  obtain ⟨r, t, log, hrun, ht, hcalls, -⟩ := hexpr e he none s
  split at hread
  · next forest hforest =>
    obtain ⟨hlength, hfree⟩ := of_decide_eq_true hread
    refine ⟨⟨by decide, he⟩, ⟨r, t, log, hrun, ht, hlists ▸ hcalls⟩,
      ⟨forest, hforest, hlength, hfree⟩, htext text (fun forest' hforest' => ?_) none s⟩
    obtain rfl := Except.ok.inj (hforest.symm.trans hforest')
    exact hfree
  · cases hread

end PocketLisp
