import PocketLisp.Proofs.BigStep.Sound

/-!
# The rules describe evaluation

Where depth is not bounded, the rules of `Performs` say no more than what evaluation does. So there
is one log and one end for an expression and an environment.

* `Code.run`: what performing the code is.
* `Comes m env log r`: with enough fuel, `m` ends with `r` and has the effects `log`.
* `comes_of_performs`: what the rules describe is what evaluation does.
* `Performs.unique`: the log and the end are determined.
-/

namespace PocketLisp

/-- What performing the code is. -/
def Code.run {α : Type} (fuel : Nat) : Code α → Run α
  | .expr e => eval fuel e
  | .items es => .collect (es.map (eval fuel))
  | .rounds c b last => fun room s => Run.rounds (eval fuel c) (eval fuel b) room fuel last s

theorem Run.ofExcept_run {α : Type} (x : Except EvalFault α) (room : Room) (s : State) :
    Run.ofExcept x room s = .ended (x.mapError .eval) s := by
  cases x <;> rfl

/-- In every state with the environment `env`, with enough fuel, `m` ends with `r` and has had the
effects `log`. -/
def Comes {α : Type} (m : Nat → Run α) (env : Env) (log : List Effect) (r : Except Fault α) :
    Prop :=
  ∀ s, s.env = env → ∃ t, Ends m s r t ∧ s.Extends log t

namespace Comes

section General

variable {α β : Type} {env : Env} {log log' : List Effect} {m : Nat → Run α}
  {k : Nat → α → Run β}

theorem still {r : Except Fault α} (h : ∀ fuel s, s.env = env → m fuel none s = .ended r s) :
    Comes m env [] r :=
  fun s hs => ⟨s, ⟨0, fun fuel _ => h fuel s hs⟩, .refl s⟩

theorem bind {a : α} {r : Except Fault β} (h : Comes m env log (.ok a))
    (hk : Comes (k · a) (env.after log) log' r) :
    Comes (fun fuel => m fuel >>= k fuel) env (log ++ log') r := by
  intro s hs
  obtain ⟨t, hm, hext⟩ := h s hs
  obtain ⟨u, hku, hext'⟩ := hk t (by rw [hext.env, hs])
  exact ⟨u, hm.bind hku, hext.trans hext'⟩

theorem bind_error {f : Fault} (h : Comes m env log (.error f)) :
    Comes (fun fuel => m fuel >>= k fuel) env log (.error f) := by
  intro s hs
  obtain ⟨t, hm, hext⟩ := h s hs
  exact ⟨t, hm.bind_error, hext⟩

theorem bind_still {a : α} {r : Except Fault β} (h : Comes m env log (.ok a))
    (hk : ∀ fuel s, s.env = env.after log → k fuel a none s = .ended r s) :
    Comes (fun fuel => m fuel >>= k fuel) env log r := by
  have hthen : Comes (fun fuel => m fuel >>= k fuel) env (log ++ []) r := h.bind (still hk)
  rwa [List.append_nil] at hthen

theorem map {g : α → β} {r : Except Fault α} (h : Comes m env log r) :
    Comes (fun fuel => g <$> m fuel) env log (r.map g) := by
  simp only [← bind_pure_comp]
  cases r with
  | error f => exact h.bind_error
  | ok a => exact h.bind_still fun _ _ _ => rfl

theorem dispatch {head : String} {operands : Nat} {r : Except Fault α} (h : Comes m env log r) :
    Comes (fun fuel => .dispatch head operands (m fuel)) env log r := by
  intro s hs
  obtain ⟨t, hm, hext⟩ := h (s.note (.dispatched head operands)) hs
  exact ⟨t, hm.dispatch, (State.Extends.dispatched s head operands).trans hext⟩

end General

section Values

variable {env : Env} {log log' : List Effect} {c y n b : Nat → Run Value} {v : Value}
  {r : Except Fault Value}

theorem choose_true (hc : Comes c env log (.ok (.bool true)))
    (hy : Comes y (env.after log) log' r) :
    Comes (fun fuel => .choose (c fuel) (y fuel) (n fuel)) env (log ++ log') r :=
  bind hc hy

theorem choose_other (hc : Comes c env log (.ok v)) (hv : v ≠ .bool true)
    (hn : Comes n (env.after log) log' r) :
    Comes (fun fuel => .choose (c fuel) (y fuel) (n fuel)) env (log ++ log') r := by
  refine bind hc ?_
  split
  · exact absurd rfl hv
  · exact hn

theorem rounds {c b last : Value}
    (h : Comes (fun fuel => .choose (eval fuel c)
      (eval fuel b >>= fun v => (Code.rounds c b v).run fuel) (pure last)) env log r) :
    Comes ((Code.rounds c b last).run ·) env log r := by
  intro s hs
  obtain ⟨t, hm, hext⟩ := h s hs
  exact ⟨t, .rounds (fun _ _ hij => eval_below hij c) (fun _ _ hij => eval_below hij b) hm, hext⟩

theorem assign (x : String) (h : Comes c env log (.ok v)) :
    Comes (fun fuel => .assignFrom (.symbol x) (c fuel)) env (log ++ [.set x v]) (.ok v) := by
  refine bind h ?_
  intro s _
  exact ⟨s.assign x v, ⟨0, fun _ _ => rfl⟩, .assign s x v⟩

theorem print (h : Comes c env log (.ok v)) (hv : v.foreign? = none) :
    Comes (fun fuel => .printFrom (c fuel)) env (log ++ [.print v]) (.ok v) := by
  refine bind h ?_
  intro s _
  refine ⟨s.note (.printed v), ⟨0, fun _ _ => ?_⟩, .printed s v⟩
  show (Run.print v >>= fun _ => pure v) none s = _
  rw [Run.bind_run, Run.print_none hv]
  rfl

theorem print_unprintable {x : Foreign} (h : Comes c env log (.ok v))
    (hv : v.foreign? = some x) :
    Comes (fun fuel => .printFrom (c fuel)) env log (.error (.eval (.unprintable x))) := by
  refine bind_still h fun _ s _ => ?_
  show (Run.print v >>= fun _ => pure v) none s = _
  rw [Run.bind_run, Run.print_of_foreign hv]
  rfl

end Values

end Comes

/-- What the rules describe is what evaluation does where depth is not bounded. -/
theorem comes_of_performs {α : Type} {env : Env} {code : Code α} {log : List Effect}
    {r : Except Fault α} (h : Performs false env code log r) : Comes (code.run ·) env log r := by
  induction h with
  | int env n => exact .still fun _ _ _ => rfl
  | bool env b => exact .still fun _ _ _ => rfl
  | foreign env x => exact .still fun _ _ _ => rfl
  | marker env p => exact .still fun _ _ _ => rfl
  | bound h =>
    refine .still fun fuel s hs => ?_
    subst hs
    exact Run.symbolValue_of_bound h
  | free h =>
    refine .still fun fuel s hs => ?_
    subst hs
    exact Run.symbolValue_of_unbound h
  | empty env => exact .still fun _ _ _ => rfl
  | badHead env operands h =>
    refine .still fun fuel s hs => ?_
    show eval fuel _ none s = _
    rw [eval_badHead fuel operands h]
    rfl
  | headBound operands hx h =>
    simp only [Code.run, eval_ordinary _ operands hx]
    refine .dispatch (.still fun fuel s hs => ?_)
    subst hs
    exact Run.headValue_of_bound h
  | headFree operands hx h =>
    simp only [Code.run, eval_ordinary _ operands hx]
    refine .dispatch (.still fun fuel s hs => ?_)
    subst hs
    exact Run.headValue_of_unbound h
  | shortForm env h =>
    simp only [Code.run, eval_shortForm _ h]
    exact .dispatch (.still fun _ _ _ => rfl)
  | shortOperator env h =>
    simp only [Code.run, eval_shortOperator _ h]
    exact .dispatch (.still fun _ _ _ => rfl)
  | chooseFails hc ih =>
    simp only [Code.run, eval_conditional]
    exact .dispatch (.bind_error ih)
  | chooseTrue hc hy ihc ihy =>
    simp only [Code.run, eval_conditional]
    exact .dispatch (.choose_true ihc ihy)
  | chooseOther hc hv hn ihc ihn =>
    simp only [Code.run, eval_conditional]
    exact .dispatch (.choose_other ihc hv ihn)
  | loop h ih =>
    simp only [Code.run, eval_loop]
    exact .dispatch ih
  | roundFails hc ih => exact .rounds (.bind_error ih)
  | roundsOver hc hv ih =>
    refine .rounds (.bind_still ih fun _ _ _ => ?_)
    split
    · exact absurd rfl hv
    · rfl
  | bodyFails hc hb ihc ihb => exact .rounds (.choose_true ihc (.bind_error ihb))
  | roundNext hc hb h ihc ihb ih => exact .rounds (.choose_true ihc (.bind ihb ih))
  | sequence h ih =>
    simp only [Code.run, eval_sequence]
    exact .dispatch (.map ih)
  | nil env => exact .still fun _ _ _ => rfl
  | itemFails he ih => exact .bind_error ih
  | cons he hes ihe ihes => exact .bind ihe (.map ihes)
  | badTarget env e extra h =>
    simp only [Code.run, eval_assign, Run.assignFrom_badTarget _ h]
    exact .dispatch (.still fun _ _ _ => rfl)
  | setFails he ih =>
    simp only [Code.run, eval_assign]
    exact .dispatch (.bind_error ih)
  | set he ih =>
    simp only [Code.run, eval_assign]
    exact .dispatch (.assign _ ih)
  -- Without a bound nothing is cut off.
  | setCut hb => cases hb
  | printFails he ih =>
    simp only [Code.run, eval_print]
    exact .dispatch (.bind_error ih)
  | print he hv ih =>
    simp only [Code.run, eval_print]
    exact .dispatch (.print ih hv)
  | unprintable he hv ih =>
    simp only [Code.run, eval_print]
    exact .dispatch (.print_unprintable ih hv)
  | printCut hb => cases hb
  | leftFails hl ih =>
    simp only [Code.run, eval_binary]
    exact .dispatch (.bind_error ih)
  | rightFails hl hr ihl ihr =>
    simp only [Code.run, eval_binary]
    exact .dispatch (.bind ihl (.bind_error ihr))
  | binary hl hr ihl ihr =>
    simp only [Code.run, eval_binary]
    refine .dispatch (.bind ihl (.bind_still ihr fun _ s _ => ?_))
    exact Run.ofExcept_run _ _ s
  | cut hb => cases hb

theorem Performs.unique {α : Type} {env : Env} {code : Code α} {log log' : List Effect}
    {r r' : Except Fault α} (h : Performs false env code log r)
    (h' : Performs false env code log' r') : log = log' ∧ r = r' := by
  obtain ⟨t, hr, hext⟩ := comes_of_performs h { env := env } rfl
  obtain ⟨t', hr', hext'⟩ := comes_of_performs h' { env := env } rfl
  obtain ⟨rfl, rfl⟩ := hr.unique hr'
  exact ⟨List.append_cancel_left (hext.effects.symm.trans hext'.effects), rfl⟩

end PocketLisp
