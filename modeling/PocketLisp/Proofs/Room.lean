import PocketLisp.Proofs.Equality
import PocketLisp.Proofs.Observation
import PocketLisp.Proofs.WellFormed

/-!
# Bounded depth

A bound on the depth of nesting can end a run early, and does nothing else: a run that does not fail
for want of room does what it does without a bound. And no value is too deep where it is computed:
whoever computed it had to nest at least as deep as it takes to copy it.

* `evalText_bounded`: a text within a bound and without one.
* `eval_fits`: there is room to copy the value of an expression.
* `eval_binary_call`: so there is room for every comparison too, and an evaluation needs no check of
  how deep its operators go.
-/

namespace PocketLisp

/-! ## The bound ends a run or does nothing -/

/-- **Room.** With a bound on depth a text runs out of room, or it does what it does without one. -/
theorem evalText_bounded (fuel : Nat) (text : String) (room : Room) (s : State) :
    (evalText fuel text room s).OutOf room ∨
      evalText fuel text room s = evalText fuel text none s := by
  have heval (e : Value) : Run.Lockstep Eq Eq Eq (eval fuel e) (eval fuel e) := by
    apply eval_lockstep_of
    · exact fun x _ s t hs => by rw [hs]
    · exact fun s t ev hs => by rw [hs]
    · exact fun s t x v hs => by rw [hs]
  cases hread : (readText text).result with
  | error f =>
    -- Reading takes no room.
    rw [evalText_of_unread hread, evalText_of_unread hread]
    exact .inr rfl
  | ok forest =>
    rw [evalText_of_read hread, evalText_of_read hread]
    exact (evalForest_lockstep fuel forest heval room _ _ rfl).imp_right Outcome.Matches.eq

/-! ## Values that fit -/

theorem Value.depthItems_le {items : List Value} {d : Nat} (h : ∀ v ∈ items, v.depth ≤ d) :
    depthItems items ≤ d := by
  induction items with
  | nil => exact Nat.zero_le d
  | cons v vs ih =>
    rw [depthItems]
    exact Nat.max_le.2 ⟨h v List.mem_cons_self, ih fun w hw => h w (List.mem_cons_of_mem v hw)⟩

namespace Room.Fits

variable {room : Room}

theorem atom {v : Value} (h : room.Fits 1) (hv : v.depth = 0) : room.Fits (Run.walk v) := by
  rw [Run.walk, hv]
  exact h

/-- A list takes a few frames more than the deepest of its items. -/
theorem list {items : List Value} (hroom : room.Fits 1) (hless : (room.less 1).Fits 2)
    (h : ∀ v ∈ items, ((room.less 1).less 2).Fits (Run.walk v)) :
    room.Fits (Run.walk (.list items)) := by
  rintro n rfl
  have hone : 1 ≤ n := hroom n rfl
  have htwo : 2 ≤ n - 1 := hless _ rfl
  have hdepth : Value.depthItems items ≤ (n - 1 - 2 - 1) / 2 := by
    refine Value.depthItems_le fun v hv => ?_
    have hwalk : Run.walk v ≤ n - 1 - 2 := h v hv _ rfl
    rw [Run.walk] at hwalk
    omega
  rw [Run.walk, Value.depth]
  omega

end Room.Fits

theorem Operator.depth_of_apply {o : Operator} {l r v : Value} (h : o.apply l r = .ok v) :
    v.depth = 0 := by
  rcases Operator.eq_of_apply h with ⟨n, rfl, -⟩ | ⟨b, rfl⟩
  · rfl
  · rfl

/-- In this room, the values of `m` are in `Q`. -/
abbrev Run.Gives {α : Type} (room : Room) (Q : α → Prop) (m : Run α) : Prop :=
  Run.Triple True room (fun _ => True) m (fun a _ => Q a) fun _ _ => True

theorem Run.Gives.imp {α : Type} {room : Room} {P : State → Prop} {Q Q' : α → Prop} {m : Run α}
    (h : m.Gives room Q) (hQ : ∀ a, Q a → Q' a) :
    Run.Triple True room P m (fun a _ => Q' a) fun _ _ => True :=
  Run.Triple.imp h (fun _ _ => trivial) (fun a _ => hQ a) fun _ _ _ => trivial

/-- Where the value of an expression is computed, there is room to copy it. -/
theorem eval_fits (fuel : Nat) (e : Value) (room : Room) :
    (eval fuel e).Gives room (fun v => room.Fits (Run.walk v)) := by
  have deeper {room : Room} {i : Nat} {Q : Value → Prop} {m : Run Value}
      (h : room.Fits i → m.Gives (room.less i) Q) : (Run.deeper i m).Gives room Q :=
    .deeper (fun _ _ _ => trivial) h
  have dispatch {room : Room} {head : String} {i : Nat} {Q : Value → Prop} {m : Run Value}
      (h : room.Fits 1 → m.Gives (room.less 1) Q) : (Run.dispatch head i m).Gives room Q :=
    .dispatch (fun _ _ _ => trivial) (fun _ _ => trivial) h
  have fail {room : Room} {f : Fault} {Q : Value → Prop} : (Run.fail f).Gives room Q :=
    .fail fun _ _ => trivial
  induction e using Value.exprInduct generalizing room with
  | int i => exact deeper fun hone => .pure fun _ _ => hone.atom rfl
  | bool b => exact deeper fun hone => .pure fun _ _ => hone.atom rfl
  | foreign x => exact deeper fun hone => .pure fun _ _ => hone.atom rfl
  | marker p => exact deeper fun _ => fail
  | empty => exact deeper fun _ => fail
  | symbol x =>
    refine deeper fun hone => .symbolValue (fun _ _ _ => trivial) ?_ fun _ _ _ => hone.atom rfl
    exact fun _ v hv _ _ => hv.of_less.mono (Nat.le_succ _)
  | badHead head operands h =>
    rw [eval_badHead fuel _ h]
    exact deeper fun _ => deeper fun _ => fail
  | ordinary x operands h =>
    rw [eval_ordinary fuel _ h]
    refine dispatch fun _ => .headValue (fun _ _ _ => trivial) ?_ fun _ _ _ => trivial
    exact fun _ v hv _ _ => hv.of_less.mono (Nat.le_succ _)
  | shortForm f operands h =>
    rw [eval_shortForm fuel h]
    exact dispatch fun _ => fail
  | shortOperator o operands h =>
    rw [eval_shortOperator fuel h]
    exact dispatch fun _ => fail
  | conditional c y n extra hc hy hn =>
    rw [eval_conditional]
    refine dispatch fun _ => deeper fun _ => (hc _).choose ?_ fun _ _ => ?_
    · exact (hy _).imp fun v hv => hv.of_less.of_less
    · exact (hn _).imp fun v hv => hv.of_less.of_less
  | loop c b extra hc hb =>
    rw [eval_loop]
    refine dispatch fun hone => deeper fun _ =>
      .loop trivial ?_ (fun last => ?_) (fun last => ?_) fuel
    · exact fun _ _ => hone.atom rfl
    · -- The condition is evaluated, and the last value is what it was.
      exact fun s hlast => (hc _).imp (P := fun _ => True) (fun _ _ => hlast) s trivial
    · exact (hb _).imp fun v hv => hv.of_less.of_less
  | sequence es ih =>
    rw [eval_sequence]
    refine dispatch fun hone => deeper fun htwo => .bind (.collect fun e he => ?_)
      fun vs => .pure fun _ hvs => hone.list htwo hvs.1
    exact (ih e he _).imp fun v hv => ⟨hv, trivial⟩
  | assign x e extra ih =>
    rw [eval_assign]
    refine dispatch fun _ => deeper fun _ => (ih _).assignFrom (fun _ _ _ _ => trivial) ?_
    exact fun v _ hv => hv.of_less.of_less
  | badTarget t e extra h =>
    rw [eval_assign, Run.assignFrom_badTarget _ h]
    exact dispatch fun _ => deeper fun _ => deeper fun _ => fail
  | print e extra ih =>
    rw [eval_print]
    refine dispatch fun _ => deeper fun _ => (ih _).printFrom (fun _ _ _ _ => trivial) ?_
      fun _ _ _ _ _ => trivial
    exact fun v _ _ hv => hv.of_less.of_less
  | binary o l r extra hl hr =>
    rw [eval_binary]
    refine dispatch fun hone => (hl _).bind fun v => .bind ((hr _).imp fun _ hw => hw) fun w => ?_
    exact .ofExcept (fun u hu _ _ => hone.atom (Operator.depth_of_apply hu)) fun _ _ _ _ => trivial

/-! ## Operators -/

/-- Two values that can be copied can be compared. -/
theorem Operator.frames_le (o : Operator) (l r : Value) : o.frames l r ≤ Run.walk l := by
  have hcomparison := l.comparison_le r
  rw [Run.walk]
  cases o with
  | equal => rw [frames]; omega
  | _ => exact Nat.zero_le _

/-- **Operators have room.** Within an evaluation, an operator is called as it would be with values
that come from elsewhere: there is always room for it. -/
theorem eval_binary_call (fuel : Nat) (o : Operator) (l r : Value) (extra : List Value) :
    eval fuel (.list (.symbol o.name :: l :: r :: extra)) =
      .dispatch o.name (extra.length + 2) (do
        let a ← eval fuel l
        let b ← eval fuel r
        o.call a b) := by
  rw [eval_binary]
  congr 1
  funext room s
  have hl := eval_fits fuel l room s trivial
  simp only [Run.bind_run]
  cases hrun : eval fuel l room s with
  | failed f t => rfl
  | exhausted => rfl
  | done a t =>
    rw [hrun] at hl
    have hcall (b : Value) (u : State) : o.call a b room u = Run.ofExcept (o.apply a b) room u :=
      Operator.call_of_fits (hl.mono (o.frames_le a b)) u
    simp only [hcall]

end PocketLisp
