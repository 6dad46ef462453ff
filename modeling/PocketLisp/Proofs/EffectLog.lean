import PocketLisp.Proofs.BigStep.Complete
import PocketLisp.Proofs.WellFormed

/-!
# The effects of texts and sessions

The effects of a text are those of its expressions, one after the other, up to and including the
first one that fails. The effects of a session are those of its texts.

* `TextPerforms bounded env text log r`: in `env`, the text has the effects `log` and ends with `r`.
* `LoggedCall env text log reply session`: a call with the text, in a session that binds `env`,
  replied and left what the effects `log` make of `env`.
* `Session.logged_step`, `Session.logged_run`: every call of a session is logged, and each one
  starts in the environment that the effects of the calls before it made.
* `effects_logged`: evaluation, texts and sessions have exactly the effects of the bindings and
  prints that were performed.
-/

namespace PocketLisp

theorem State.Extends.outputText {env : Env} {log : List Effect} {t : State}
    (h : ({ env := env } : State).Extends log t) :
    Event.outputText t.events = Effect.outputText log := by
  have heffects : t.effects = log := h.effects
  rw [Effect.outputText_ofEvents, ← heffects]
  rfl

/-! ## Texts -/

/-- In `env`, the text has the effects `log` and ends with `r`. All of it is read first, so a text
that cannot be read has no effects. -/
def TextPerforms (bounded : Bool) (env : Env) (text : String) (log : List Effect)
    (r : Except Fault (List Value)) : Prop :=
  match (readText text).result with
  | .error f => log = [] ∧ r = .error f
  | .ok forest => Performs bounded env (.items forest) log r

theorem State.Extends.readingTrace (text : String) (s : State) :
    s.Extends [] (s.noteAll (PocketLisp.readingTrace text)) := by
  refine .noteAll (fun e he => ?_) s
  obtain ⟨t, -, rfl⟩ := List.mem_map.1 he
  rfl

theorem State.Extends.startTrace (text : String) (forest : Forest) (s : State) :
    s.Extends [] (s.noteAll (PocketLisp.startTrace text forest)) := by
  refine .noteAll (fun e he => ?_) s
  rcases List.mem_append.1 he with he | he
  · obtain ⟨t, -, rfl⟩ := List.mem_map.1 he
    rfl
  · simp only [List.mem_cons, List.not_mem_nil, or_false] at he
    rcases he with rfl | rfl <;> rfl

theorem evalForest_follows (bounded : Bool) (fuel : Nat) (forest : Forest) :
    (evalForest fuel forest).Follows bounded (.items forest) := by
  rw [evalForest, evalItems_eq_map]
  exact .items fun e _ => eval_follows bounded fuel e

theorem evalText_logs (bounded : Bool) (fuel : Nat) (text : String) :
    Run.Logs bounded (fun env log r => TextPerforms bounded env text log r)
      (evalText fuel text) := by
  intro room hroom s t ht
  subst ht
  unfold TextPerforms
  cases hread : (readText text).result with
  | error f =>
    rw [evalText_of_unread hread]
    exact ⟨[], ⟨rfl, rfl⟩, .readingTrace text t⟩
  | ok forest =>
    rw [evalText_of_read hread]
    refine (evalForest_follows bounded fuel forest room hroom _).imp (fun _ hu => hu) ?_ ?_ _ rfl
    all_goals
      rintro _ u ⟨log, hforest, hext⟩
      exact ⟨log, hforest, (State.Extends.startTrace text forest t).trans hext⟩

/-! ## Sessions -/

/-- A call with the text, in a session that bound `env`, ended as performing the text does, and left
and printed what the effects make of `env`. -/
structure LoggedCall (env : Env) (text : String) (log : List Effect) (reply : Reply)
    (after : Session) : Prop where
  performs : ∃ r, TextPerforms false env text log r ∧ reply.answer = r.map .values
  env : after.env = env.after log
  printed : reply.printed = Effect.outputText log

/-- The step: one call. -/
theorem Session.logged_step {fuel : Nat} {session after : Session} {text : String} {reply : Reply}
    (h : session.step fuel (.eval text) = some (reply, after)) :
    ∃ log, LoggedCall session.env text log reply after := by
  obtain ⟨r, t, hr, rfl, rfl⟩ := eq_of_perform h
  obtain ⟨log, hperforms, hext⟩ := (evalText_logs false fuel text).of_ended (.inl rfl) hr
  exact ⟨log, ⟨r, hperforms, rfl⟩, hext.env, hext.outputText⟩

/-- The run: call after call. -/
theorem Session.logged_run {fuel : Nat} {session : Session} {texts : List String}
    {calls : List (Reply × Session)} (h : session.run fuel (texts.map .eval) = some calls) :
    ∃ logs : List (List Effect), logs.length = texts.length ∧ calls.length = texts.length ∧
      String.join (calls.map (·.1.printed)) = Effect.outputText logs.flatten ∧
      ∀ i text log reply after, texts[i]? = some text → logs[i]? = some log →
        calls[i]? = some (reply, after) →
          LoggedCall (session.env.after (logs.take i).flatten) text log reply after := by
  induction texts generalizing session calls with
  | nil => cases h; exact ⟨[], rfl, rfl, rfl, by simp⟩
  | cons text texts ih =>
    obtain ⟨reply, after, rest, hstep, hrest, rfl⟩ := Session.run_cons_eq_some h
    obtain ⟨log, hcall⟩ := logged_step hstep
    obtain ⟨logs, hlogs, hcalls, hprinted, heach⟩ := ih hrest
    refine ⟨log :: logs, by simp [hlogs], by simp [hcalls], ?_, ?_⟩
    · rw [List.map_cons, String.join_cons, hprinted, hcall.printed, List.flatten_cons,
        Effect.outputText_append]
    · intro i text' log' reply' after' htext hlog hreply
      cases i with
      | zero => cases htext; cases hlog; cases hreply; exact hcall
      | succ i =>
        -- The later calls start from what the first one left.
        have hlater := heach i text' log' reply' after' htext hlog hreply
        rw [hcall.env, ← Env.after_append] at hlater
        exact hlater

/-- **Effects.** However an expression ends, there is a log of the bindings and prints that were
performed, in order, by the rules of `Performs`; the environment left is the one before with these
bindings made, where the last one of a name counts, and the text printed is that of these prints.
Where depth is not bounded there is no other log, and whatever the rules describe is done. The same
holds of a text, with the logs of its expressions up to and including one that fails, and of the
calls of a session. -/
theorem effects_logged :
    (∀ (env : Env) log x v log', (∀ w, .set x w ∉ log') →
      (env.after (log ++ .set x v :: log')).get? x = some v ∧
      (env.after log').get? x = env.get? x) ∧
    (∀ fuel room env e r t, eval fuel e room { env := env } = .ended r t →
      ∃ log, Performs room.isSome env (.expr e) log r ∧ t.env = env.after log ∧
        Event.outputText t.events = Effect.outputText log) ∧
    (∀ env e log r, Performs false env (.expr e) log r →
      (∃ fuel t, eval fuel e none { env := env } = .ended r t ∧ t.env = env.after log ∧
        Event.outputText t.events = Effect.outputText log) ∧
      ∀ log' r', Performs false env (.expr e) log' r' → log' = log ∧ r' = r) ∧
    (∀ fuel room env text r t, evalText fuel text room { env := env } = .ended r t →
      ∃ log, TextPerforms room.isSome env text log r ∧ t.env = env.after log ∧
        Event.outputText t.events = Effect.outputText log) ∧
    ∀ fuel session (texts : List String) calls,
      Session.run fuel session (texts.map .eval) = some calls →
      ∃ logs : List (List Effect), logs.length = texts.length ∧ calls.length = texts.length ∧
        String.join (calls.map (·.1.printed)) = Effect.outputText logs.flatten ∧
        ∀ i text log reply after, texts[i]? = some text → logs[i]? = some log →
          calls[i]? = some (reply, after) →
            LoggedCall (session.env.after (logs.take i).flatten) text log reply after := by
  have hroom (room : Room) : room = none ∨ room.isSome = true := by cases room <;> simp
  refine ⟨fun env log x v log' h => ?_, fun fuel room env e r t hr => ?_,
    fun env e log r h => ⟨?_, fun log' r' h' => ?_⟩, fun fuel room env text r t hr => ?_,
    fun fuel session texts calls h => ?_⟩
  · exact ⟨Env.get?_after_set h env log v, Env.get?_after_of_notMem h env⟩
  · obtain ⟨log, hperforms, hext⟩ := (eval_follows room.isSome fuel e).of_ended (hroom room) hr
    exact ⟨log, hperforms, hext.env, hext.outputText⟩
  · obtain ⟨t, ⟨fuel, hfuel⟩, hext⟩ := comes_of_performs h { env := env } rfl
    exact ⟨fuel, t, hfuel fuel (Nat.le_refl fuel), hext.env, hext.outputText⟩
  · exact h'.unique h
  · obtain ⟨log, hperforms, hext⟩ := (evalText_logs room.isSome fuel text).of_ended (hroom room) hr
    exact ⟨log, hperforms, hext.env, hext.outputText⟩
  · exact Session.logged_run h

/-- An operator fails after its operands have bound and printed. In a session, the first call binds
a name twice, prints, binds another name inside an operator and fails there; the second call finds
all of that. -/
theorem effects_logged_failing :
    let sum : Value := .list [.symbol "+", .list [.symbol "set", .symbol "x", .int 1],
      .list [.symbol "print", .symbol "y"]]
    let texts := ["(set x 1) (print (set x (+ x 1))) (+ (set y x) z) (set x 9)", "(print y)"]
    (∃ fuel t, eval fuel sum none {} = .ended (.error (.eval (.mismatch .add))) t ∧
      t.env = Env.empty.after [.set "x" (.int 1), .print (.symbol "y")] ∧
      Event.outputText t.events = "Symbol(\"y\")\n") ∧
    ∃ calls, Session.run 0 {} (texts.map .eval) = some calls ∧
      calls.map (fun call => (call.2.env.entries.map (·.1), call.1.printed)) =
        [(["x", "y"], "Int(2)\n"), (["x", "y"], "Int(2)\n")] ∧
      ∃ logs : List (List Effect), logs.length = 2 ∧
        Effect.outputText logs.flatten = "Int(2)\nInt(2)\n" ∧
        ∀ i text log reply after, texts[i]? = some text → logs[i]? = some log →
          calls[i]? = some (reply, after) →
            LoggedCall (Env.empty.after (logs.take i).flatten) text log reply after := by
  intro sum texts
  have hsum : Performs false .empty (.expr sum) [.set "x" (.int 1), .print (.symbol "y")]
      (.error (.eval (.mismatch .add))) := by
    have hset : Performs false .empty (.expr (.list [.symbol "set", .symbol "x", .int 1]))
        [.set "x" (.int 1)] (.ok (.int 1)) := .set (.int _ 1)
    have hprint : Performs false (Env.empty.after [.set "x" (.int 1)])
        (.expr (.list [.symbol "print", .symbol "y"])) [.print (.symbol "y")] (.ok (.symbol "y")) :=
      .print (.free (by decide)) rfl
    exact .binary (o := .add) hset hprint
  have hrun : (Session.run 0 {} (texts.map .eval)).map (fun calls => calls.map fun call =>
      (call.2.env.entries.map (·.1), call.1.printed)) =
      some [(["x", "y"], "Int(2)\n"), (["x", "y"], "Int(2)\n")] := by
    decide +kernel
  obtain ⟨calls, h, hcalls⟩ := Option.map_eq_some_iff.1 hrun
  have hprinted : calls.map (·.1.printed) = ["Int(2)\n", "Int(2)\n"] := by
    have hsecond := congrArg (List.map Prod.snd) hcalls
    rwa [List.map_map] at hsecond
  obtain ⟨logs, hlogs, -, houtput, heach⟩ := effects_logged.2.2.2.2 0 {} texts calls h
  rw [hprinted] at houtput
  exact ⟨(effects_logged.2.2.1 _ _ _ _ hsum).1, calls, h, hcalls, logs, hlogs, houtput.symm, heach⟩

end PocketLisp
