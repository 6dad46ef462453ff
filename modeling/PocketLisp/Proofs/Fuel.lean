import PocketLisp.Proofs.Expression

/-!
# Fuel

Fuel bounds the rounds of loops and nothing else, so more of it never changes an answer. That makes
the answer of an expression a notion without fuel: an expression ends in one way from a given state,
or it diverges.

* `Run.Below m n`: `m` does what `n` does or is cut off. The rules follow the ways runs are put
  together.
* `eval_below`: an expression with less fuel is below the same expression with more.
* `Ends m s r t`: with enough fuel, `m` ends from `s` with the value or fault `r` and leaves `t`.
* `Ends.unique`: that is determined.
* `Diverges m s`: no fuel is enough. `eval_diverges_or_ends`: that, or there is an end.
* `Ends.bind`, `Ends.rounds`: how runs that are put together end.
-/

namespace PocketLisp

namespace Run

variable {α β : Type}

/-- `m` does what `n` does, unless it is cut off. -/
def Below (m n : Run α) : Prop :=
  ∀ room s, m room s = .exhausted ∨ m room s = n room s

namespace Below

variable {m n : Run α} {k l : α → Run β}

theorem refl (m : Run α) : Below m m := fun _ _ => .inr rfl

theorem bind (h : Below m n) (hk : ∀ a, Below (k a) (l a)) : Below (m >>= k) (n >>= l) := by
  intro room s
  simp only [bind_run]
  rcases h room s with h | h
  · rw [h]; exact .inl rfl
  · rw [h]
    cases n room s with
    | done a t => exact hk a room t
    | failed f t => exact .inr rfl
    | exhausted => exact .inl rfl

theorem deeper (frames : Nat) (h : Below m n) : Below (.deeper frames m) (.deeper frames n) := by
  intro room s
  cases room with
  | none => exact h none s
  | some k =>
    simp only [Run.deeper]
    split
    · exact h _ s
    · exact .inr rfl

theorem dispatch (head : String) (operands : Nat) (h : Below m n) :
    Below (.dispatch head operands m) (.dispatch head operands n) :=
  deeper 1 (bind (refl _) fun _ => h)

theorem choose {c c' y y' n n' : Run Value} (hc : Below c c') (hy : Below y y')
    (hn : Below n n') : Below (.choose c y n) (.choose c' y' n') := by
  refine bind hc fun v => ?_
  split
  · exact hy
  · exact hn

theorem assignFrom {t : Value} {m n : Run Value} (h : Below m n) :
    Below (.assignFrom t m) (.assignFrom t n) := by
  cases t with
  | symbol x => exact bind h fun v => refl _
  | _ => exact refl _

theorem printFrom {m n : Run Value} (h : Below m n) : Below (.printFrom m) (.printFrom n) :=
  bind h fun _ => refl _

theorem collect {ι : Type} {es : List ι} {f g : ι → Run α} (h : ∀ e ∈ es, Below (f e) (g e)) :
    Below (.collect (es.map f)) (.collect (es.map g)) := by
  induction es with
  | nil => exact refl _
  | cons e es ih =>
    refine bind (h e List.mem_cons_self) fun a => bind (ih ?_) fun as => refl _
    exact fun e' he' => h e' (List.mem_cons_of_mem _ he')

/-- Rounds with less fuel, of runs that are cut off earlier, are cut off earlier. -/
theorem rounds {c c' b b' : Run Value} (hc : Below c c') (hb : Below b b') {i j : Nat}
    (hij : i ≤ j) (last : Value) :
    Below (fun room s => Run.rounds c b room i last s)
      (fun room s => Run.rounds c' b' room j last s) := by
  induction i generalizing j last with
  | zero => exact fun _ _ => .inl rfl
  | succ i ih =>
    obtain ⟨j, rfl⟩ : ∃ k, j = k + 1 := ⟨j - 1, by omega⟩
    intro room s
    -- One round is put together by `bind`, with the rounds that follow in its tail.
    simp only [rounds_succ]
    refine bind hc (fun v => ?_) room s
    split
    · exact bind hb fun w => ih (by omega) w
    · exact refl _

theorem loop {c c' b b' : Run Value} (hc : Below c c') (hb : Below b b') {i j : Nat}
    (hij : i ≤ j) : Below (.loop i c b) (.loop j c' b') :=
  rounds hc hb hij _

end Below

end Run

/-- **Fuel.** With less fuel an expression does the same, unless it is cut off. -/
theorem eval_below {i j : Nat} (hij : i ≤ j) (e : Value) : Run.Below (eval i e) (eval j e) := by
  induction e using Value.exprInduct with
  | int n => exact .refl _
  | symbol x => exact .refl _
  | bool b => exact .refl _
  | marker p => exact .refl _
  | foreign x => exact .refl _
  | empty => exact .refl _
  | badHead head operands h => rw [eval_badHead i _ h, eval_badHead j _ h]; exact .refl _
  | ordinary x operands h => rw [eval_ordinary i _ h, eval_ordinary j _ h]; exact .refl _
  | shortForm f operands h => rw [eval_shortForm i h, eval_shortForm j h]; exact .refl _
  | shortOperator o operands h =>
    rw [eval_shortOperator i h, eval_shortOperator j h]; exact .refl _
  | conditional c y n extra hc hy hn =>
    rw [eval_conditional, eval_conditional]
    exact .dispatch _ _ (.deeper _ (.choose hc hy hn))
  | loop c b extra hc hb =>
    rw [eval_loop, eval_loop]
    exact .dispatch _ _ (.deeper _ (.loop hc hb hij))
  | sequence es ih =>
    rw [eval_sequence, eval_sequence]
    exact .dispatch _ _ (.deeper _ (.bind (.collect ih) fun _ => .refl _))
  | assign x e extra he =>
    rw [eval_assign, eval_assign]
    exact .dispatch _ _ (.deeper _ (.assignFrom he))
  | badTarget t e extra h =>
    rw [eval_assign, eval_assign, Run.assignFrom_badTarget _ h, Run.assignFrom_badTarget _ h]
    exact .refl _
  | print e extra he =>
    rw [eval_print, eval_print]
    exact .dispatch _ _ (.deeper _ (.printFrom he))
  | binary o l r extra hl hr =>
    rw [eval_binary, eval_binary]
    exact .dispatch _ _ (.bind hl fun _ => .bind hr fun _ => .refl _)

/-! ## Answers without fuel -/

section Answers

variable {α : Type} {m : Nat → Run α} {s t : State} {r : Except Fault α}

/-- The end of a run with the value or the fault `r`. -/
def Outcome.ended : Except Fault α → State → Outcome α
  | .ok a, s => .done a s
  | .error f, s => .failed f s

/-- With enough fuel, and no bound on depth, `m` ends from `s` with `r` and leaves `t`. -/
def Ends (m : Nat → Run α) (s : State) (r : Except Fault α) (t : State) : Prop :=
  ∃ enough, ∀ fuel, enough ≤ fuel → m fuel none s = .ended r t

/-- No fuel is enough for `m` to end from `s`. -/
def Diverges (m : Nat → Run α) (s : State) : Prop :=
  ∀ fuel, m fuel none s = .exhausted

theorem Outcome.ended_of_ne_exhausted {o : Outcome α} (h : o ≠ .exhausted) :
    ∃ r t, o = .ended r t := by
  cases o with
  | done a t => exact ⟨.ok a, t, rfl⟩
  | failed f t => exact ⟨.error f, t, rfl⟩
  | exhausted => exact absurd rfl h

theorem Outcome.ended_ne_exhausted (r : Except Fault α) (t : State) :
    Outcome.ended r t ≠ .exhausted := by
  cases r <;> simp [Outcome.ended]

theorem Run.Below.ended {n n' : Run α} (h : Below n n') {room : Room}
    (hn : n room s = .ended r t) : n' room s = .ended r t := by
  rcases h room s with he | he
  · exact absurd (hn.symm.trans he) (Outcome.ended_ne_exhausted r t)
  · rw [← he, hn]

/-- Two runs one after the other have ended because the first one failed, or because it gave a value
and the second one ended with that. -/
theorem Run.ended_of_bind {β : Type} {n : Run β} {k : β → Run α} {room : Room}
    (h : (n >>= k) room s = .ended r t) :
    (∃ f, n room s = .failed f t ∧ r = .error f) ∨
    ∃ b u, n room s = .done b u ∧ k b room u = .ended r t := by
  rw [Run.bind_run] at h
  cases hn : n room s with
  | exhausted => rw [hn] at h; exact absurd h.symm (Outcome.ended_ne_exhausted r t)
  | done b u => rw [hn] at h; exact .inr ⟨b, u, rfl, h⟩
  | failed f u =>
    rw [hn] at h
    cases r with
    | ok a => cases h
    | error g => cases h; exact .inl ⟨f, rfl, rfl⟩

/-- An answer found with some fuel is the answer with any greater amount. -/
theorem Ends.of_run (hm : ∀ i j, i ≤ j → Run.Below (m i) (m j)) {fuel : Nat}
    (h : m fuel none s = .ended r t) : Ends m s r t :=
  ⟨fuel, fun j hj => (hm fuel j hj).ended h⟩

theorem Diverges.not_ends (h : Diverges m s) : ¬ Ends m s r t := by
  rintro ⟨enough, hend⟩
  exact Outcome.ended_ne_exhausted r t ((hend enough (Nat.le_refl _)).symm.trans (h enough))

theorem diverges_or_ends (hm : ∀ i j, i ≤ j → Run.Below (m i) (m j)) (s : State) :
    Diverges m s ∨ ∃ r t, Ends m s r t := by
  by_cases hdiv : Diverges m s
  · exact .inl hdiv
  · obtain ⟨fuel, hfuel⟩ := Classical.not_forall.1 hdiv
    obtain ⟨r, t, hrun⟩ := Outcome.ended_of_ne_exhausted hfuel
    exact .inr ⟨r, t, .of_run hm hrun⟩

theorem Ends.unique {r' : Except Fault α} {t' : State} (h : Ends m s r t) (h' : Ends m s r' t') :
    r = r' ∧ t = t' := by
  obtain ⟨i, hi⟩ := h
  obtain ⟨j, hj⟩ := h'
  have heq := (hi (max i j) (by omega)).symm.trans (hj (max i j) (by omega))
  cases r <;> cases r' <;> cases heq <;> exact ⟨rfl, rfl⟩

end Answers

theorem eval_diverges_or_ends (e : Value) (s : State) :
    Diverges (eval · e) s ∨ ∃ r t, Ends (eval · e) s r t :=
  diverges_or_ends (fun _ _ hij => eval_below hij e) s

/-! ## How runs that are put together end -/

namespace Ends

section Bind

variable {α β : Type} {m : Nat → Run α} {k : Nat → α → Run β} {s t u : State}

theorem bind {a : α} {r : Except Fault β} (h : Ends m s (.ok a) t) (hk : Ends (k · a) t r u) :
    Ends (fun fuel => m fuel >>= k fuel) s r u := by
  obtain ⟨i, hi⟩ := h
  obtain ⟨j, hj⟩ := hk
  refine ⟨max i j, fun fuel hfuel => ?_⟩
  show (m fuel >>= k fuel) none s = _
  rw [Run.bind_run, hi fuel (by omega)]
  exact hj fuel (by omega)

theorem bind_error {f : Fault} (h : Ends m s (.error f) t) :
    Ends (fun fuel => m fuel >>= k fuel) s (.error f) t := by
  obtain ⟨i, hi⟩ := h
  refine ⟨i, fun fuel hfuel => ?_⟩
  show (m fuel >>= k fuel) none s = _
  rw [Run.bind_run, hi fuel hfuel]
  rfl

theorem dispatch {head : String} {i : Nat} {r : Except Fault α}
    (h : Ends m (s.note (.dispatched head i)) r t) :
    Ends (fun fuel => .dispatch head i (m fuel)) s r t := h

end Bind

section Control

variable {c b : Nat → Run Value} {s t : State} {r : Except Fault Value}

/-- A loop ends as its first round does, with the other rounds behind its body. -/
theorem rounds (hc : ∀ i j, i ≤ j → Run.Below (c i) (c j))
    (hb : ∀ i j, i ≤ j → Run.Below (b i) (b j)) {last : Value}
    (h : Ends (fun fuel => .choose (c fuel)
      (b fuel >>= fun v room s => Run.rounds (c fuel) (b fuel) room fuel v s) (pure last)) s r t) :
    Ends (fun fuel room s => Run.rounds (c fuel) (b fuel) room fuel last s) s r t := by
  obtain ⟨i, hi⟩ := h
  refine ⟨i + 1, fun fuel hfuel => ?_⟩
  obtain ⟨j, rfl⟩ : ∃ j, fuel = j + 1 := ⟨fuel - 1, by omega⟩
  have hj := hi j (by omega)
  -- One unit of fuel more makes no difference to what has ended.
  have hbelow : Run.Below
      (.choose (c j) (b j >>= fun v room s => Run.rounds (c j) (b j) room j v s) (pure last))
      (.choose (c (j + 1))
        (b (j + 1) >>= fun v room s => Run.rounds (c (j + 1)) (b (j + 1)) room j v s)
        (pure last)) := by
    have hc' := hc j (j + 1) (Nat.le_succ j)
    have hb' := hb j (j + 1) (Nat.le_succ j)
    exact .choose hc' (.bind hb' fun v => .rounds hc' hb' (Nat.le_refl j) v) (.refl _)
  simp only [rounds_succ]
  exact hbelow.ended hj

end Control

end Ends

end PocketLisp
