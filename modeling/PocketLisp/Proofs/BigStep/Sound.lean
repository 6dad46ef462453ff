import PocketLisp.Proofs.BigStep
import PocketLisp.Proofs.Triple

/-!
# Evaluation follows the rules

However an expression ends, with whatever fuel and room, there is a log of its effects by the rules
of `Performs`, and the state that is left is what this log makes of the state before.

* `State.Leads P s r t`: from `s`, effects that satisfy `P` lead to the end `r` and the state `t`.
* `Run.Logs bounded P m`: the effects of `m` and its end satisfy `P`. The rules are those of
  triples.
* `Run.Follows bounded code m`: they are those that the rules give the code.
* `eval_follows`: evaluation follows the rules.
-/

namespace PocketLisp

/-- There are effects that lead from `s` to `t`, and with the end `r` they satisfy `P`. -/
def State.Leads {α : Type} (P : Env → List Effect → Except Fault α → Prop) (s : State)
    (r : Except Fault α) (t : State) : Prop :=
  ∃ log, P s.env log r ∧ s.Extends log t

namespace State.Leads

variable {α β : Type} {P : Env → List Effect → Except Fault α → Prop}
  {Q : Env → List Effect → Except Fault β → Prop} {s t u : State} {r : Except Fault α}
  {r' : Except Fault β}

theorem still (h : P s.env [] r) (ht : t = s) : s.Leads P r t := ⟨[], h, ht ▸ .refl t⟩

theorem imp (h : s.Leads P r t) (hPQ : ∀ log, P s.env log r → Q s.env log r') :
    s.Leads Q r' t := by
  obtain ⟨log, hP, hext⟩ := h
  exact ⟨log, hPQ log hP, hext⟩

theorem trans (h : s.Leads P r t)
    (h' : t.Leads (fun env' log' r' => ∀ env log, P env log r → env' = env.after log →
      Q env (log ++ log') r') r' u) : s.Leads Q r' u := by
  obtain ⟨log, hP, hext⟩ := h
  obtain ⟨log', hQ, hext'⟩ := h'
  exact ⟨log ++ log', hQ s.env log hP hext.env, hext.trans hext'⟩

end State.Leads

/-- From every state, the effects of `m` and its end satisfy `P`: in any room if depth is bounded,
and without a bound otherwise. -/
def Run.Logs {α : Type} (bounded : Bool) (P : Env → List Effect → Except Fault α → Prop)
    (m : Run α) : Prop :=
  ∀ room : Room, (room = none ∨ bounded = true) → ∀ s, Run.Triple True room (· = s) m
    (fun a => s.Leads P (.ok a)) fun f => s.Leads P (.error f)

theorem Run.Logs.of_ended {α : Type} {bounded : Bool}
    {P : Env → List Effect → Except Fault α → Prop} {m : Run α} (h : m.Logs bounded P)
    {room : Room} (hroom : room = none ∨ bounded = true) {s t : State} {r : Except Fault α}
    (hr : m room s = .ended r t) : s.Leads P r t := by
  have hends := (h room hroom s).of_ended rfl hr
  cases r <;> exact hends

namespace Run.Logs

section General

variable {α β : Type} {bounded : Bool} {P : Env → List Effect → Except Fault α → Prop}
  {m : Run α}

theorem pure {a : α} (h : ∀ env, P env [] (.ok a)) : Logs bounded P (pure a) :=
  fun _ _ s => .pure fun _ ht => .still (h s.env) ht

theorem fail {f : Fault} (h : ∀ env, P env [] (.error f)) : Logs bounded P (.fail f) :=
  fun _ _ s => .fail fun _ ht => .still (h s.env) ht

theorem ofExcept {x : Except EvalFault α} (h : ∀ env, P env [] (x.mapError .eval)) :
    Logs bounded P (.ofExcept x) := by
  cases x with
  | ok a => exact pure h
  | error f => exact fail h

theorem imp {Q : Env → List Effect → Except Fault α → Prop} (h : Logs bounded P m)
    (hPQ : ∀ env log r, P env log r → Q env log r) : Logs bounded Q m :=
  fun room hroom s => (h room hroom s).imp (fun _ ht => ht)
    (fun _ _ ht => ht.imp fun log => hPQ s.env log _)
    fun _ _ ht => ht.imp fun log => hPQ s.env log _

/-- The effects of a run and the one after it are those of the first and then those of the second,
which starts in the environment that the first one left. -/
theorem bind {Q : Env → List Effect → Except Fault β → Prop} {k : α → Run β} (h : Logs bounded P m)
    (hfail : ∀ env log f, P env log (.error f) → Q env log (.error f))
    (hk : ∀ a, Logs bounded (fun env' log' r => ∀ env log, P env log (.ok a) →
      env' = env.after log → Q env (log ++ log') r) (k a)) : Logs bounded Q (m >>= k) := by
  intro room hroom s
  refine .bind ((h room hroom s).imp (fun _ ht => ht) (fun _ _ ht => ht) fun f _ ht =>
    ht.imp fun log => hfail s.env log f) fun a t ht => ?_
  exact (hk a room hroom t).imp (fun _ hu => hu) (fun _ _ hu => ht.trans hu)
    (fun _ _ hu => ht.trans hu) t rfl

theorem map {Q : Env → List Effect → Except Fault β → Prop} {g : α → β}
    (h : Logs bounded (fun env log r => Q env log (r.map g)) m) : Logs bounded Q (g <$> m) := by
  rw [← bind_pure_comp]
  refine bind h (fun _ _ _ hQ => hQ) fun a => pure fun env' env log hQ _ => ?_
  rw [List.append_nil]
  exact hQ

/-- Where there is no room for more, depth is bounded, and nothing has been done yet. -/
theorem cut (hcut : bounded = true → ∀ env, P env [] (.error (.eval .tooDeep))) {room : Room}
    (hroom : room = none ∨ bounded = true) (s : State) (hbound : room ≠ none) (t : State)
    (ht : t = s) : s.Leads P (.error (.eval .tooDeep)) t :=
  .still (hcut (hroom.resolve_left hbound) s.env) ht

theorem deeper {frames : Nat} (hcut : bounded = true → ∀ env, P env [] (.error (.eval .tooDeep)))
    (h : Logs bounded P m) : Logs bounded P (.deeper frames m) :=
  fun room hroom s => .deeper (cut hcut hroom s) fun _ =>
    h (room.less frames) (hroom.imp_left Room.less_eq_none.2) s

theorem dispatch {head : String} {operands : Nat}
    (hcut : bounded = true → ∀ env, P env [] (.error (.eval .tooDeep))) (h : Logs bounded P m) :
    Logs bounded P (.dispatch head operands m) := by
  intro room hroom s
  let s' := s.note (.dispatched head operands)
  have hfrom {r : Except Fault α} {t : State} (ht : s'.Leads P r t) : s.Leads P r t := by
    obtain ⟨log, hP, hext⟩ := ht
    exact ⟨log, hP, (State.Extends.dispatched s head operands).trans hext⟩
  refine .dispatch (D := (· = s')) (cut hcut hroom s) (fun t ht => congrArg (State.note · _) ht)
    fun _ => ?_
  exact (h (room.less 1) (hroom.imp_left Room.less_eq_none.2) s').imp (fun _ ht => ht)
    (fun _ _ => hfrom) fun _ _ => hfrom

end General

section Values

variable {bounded : Bool} {x : String} {v : Value}

theorem assign {P : Env → List Effect → Except Fault Unit → Prop}
    (hcut : bounded = true → ∀ env, P env [] (.error (.eval .tooDeep)))
    (h : ∀ env, P env [.set x v] (.ok ())) : Logs bounded P (.assign x v) := by
  refine fun _ hroom s => .assign (cut hcut hroom s) ?_
  rintro s rfl
  exact ⟨_, h s.env, .assign s x v⟩

theorem print {P : Env → List Effect → Except Fault Unit → Prop}
    (hcut : bounded = true → ∀ env, P env [] (.error (.eval .tooDeep)))
    (h : v.foreign? = none → ∀ env, P env [.print v] (.ok ()))
    (hforeign : ∀ y, v.foreign? = some y → ∀ env, P env [] (.error (.eval (.unprintable y)))) :
    Logs bounded P (.print v) := by
  refine fun _ hroom s => .print (cut hcut hroom s) ?_ ?_
  · rintro hv s rfl
    exact ⟨_, h hv s.env, .printed s v⟩
  · exact fun y hy _ ht => .still (hforeign y hy s.env) ht

variable {P : Env → List Effect → Except Fault Value → Prop}

theorem symbolValue (hcut : bounded = true → ∀ env, P env [] (.error (.eval .tooDeep)))
    (hbound : ∀ env v, env.get? x = some v → P env [] (.ok v))
    (hfree : ∀ env, env.get? x = none → P env [] (.ok (.symbol x))) :
    Logs bounded P (.symbolValue x) := by
  refine fun _ hroom s => .symbolValue (cut hcut hroom s) ?_ ?_
  · rintro s v - rfl hx
    exact .still (hbound s.env v hx) rfl
  · rintro s rfl hx
    exact .still (hfree s.env hx) rfl

theorem headValue (hcut : bounded = true → ∀ env, P env [] (.error (.eval .tooDeep)))
    (hbound : ∀ env v, env.get? x = some v → P env [] (.ok v))
    (hfree : ∀ env, env.get? x = none → P env [] (.error (.eval (.unbound x)))) :
    Logs bounded P (.headValue x) := by
  refine fun _ hroom s => .headValue (cut hcut hroom s) ?_ ?_
  · rintro s v - rfl hx
    exact .still (hbound s.env v hx) rfl
  · rintro s rfl hx
    exact .still (hfree s.env hx) rfl

end Values

end Run.Logs

/-- `m` has the effects and the end that the rules give the code. -/
def Run.Follows {α : Type} (bounded : Bool) (code : Code α) (m : Run α) : Prop :=
  Run.Logs bounded (fun env log r => Performs bounded env code log r) m

namespace Run.Follows

variable {bounded : Bool} {c b y n : Value} {mc mb my mn : Run Value} {fuel : Nat}

theorem dispatch {head : String} {operands : Nat} {e : Value} {m : Run Value}
    (h : m.Follows bounded (.expr e)) : (Run.dispatch head operands m).Follows bounded (.expr e) :=
  Logs.dispatch (fun hb env => .cut hb env _) h

theorem deeper {frames : Nat} {e : Value} {m : Run Value} (h : m.Follows bounded (.expr e)) :
    (Run.deeper frames m).Follows bounded (.expr e) :=
  Logs.deeper (fun hb env => .cut hb env _) h

theorem choose {extra : List Value} (hc : mc.Follows bounded (.expr c))
    (hy : my.Follows bounded (.expr y)) (hn : mn.Follows bounded (.expr n)) :
    (Run.choose mc my mn).Follows bounded
      (.expr (.list (.symbol "if" :: c :: y :: n :: extra))) := by
  refine Logs.bind hc (fun _ _ _ => .chooseFails) fun v => ?_
  split
  · refine hy.imp fun env' log' r hy env log hc henv => ?_
    subst henv
    exact .chooseTrue hc hy
  · next hv =>
    refine hn.imp fun env' log' r hn env log hc henv => ?_
    subst henv
    exact .chooseOther hc hv hn

/-- The rounds of a loop, by induction on the fuel that is left. -/
theorem rounds (hc : mc.Follows bounded (.expr c)) (hb : mb.Follows bounded (.expr b))
    (last : Value) : Follows bounded (.rounds c b last)
      (fun room s => Run.rounds mc mb room fuel last s) := by
  induction fuel generalizing last with
  | zero => exact fun _ _ _ _ _ => trivial
  | succ fuel ih =>
    -- One round is a choice, with the rounds that follow behind the body.
    have hround : (fun room s => Run.rounds mc mb room (fuel + 1) last s : Run Value) =
        Run.choose mc (mb >>= fun w room s => Run.rounds mc mb room fuel w s) (pure last) :=
      funext fun room => rounds_succ mc mb room fuel last
    rw [hround]
    refine Logs.bind hc (fun _ _ _ => .roundFails) fun v => ?_
    split
    · refine Logs.bind hb (fun env' log' f hb env log hc henv => ?_) fun w => ?_
      · subst henv
        exact .bodyFails hc hb
      · refine (ih w).imp fun env'' rest r h env' log' hb henv' env log hc henv => ?_
        subst henv henv'
        exact .roundNext hc hb h
    · next hv =>
      refine .pure fun env' env log hc _ => ?_
      rw [List.append_nil]
      exact .roundsOver hc hv

theorem items {es : List Value} {f : Value → Run Value}
    (h : ∀ e ∈ es, (f e).Follows bounded (.expr e)) :
    (Run.collect (es.map f)).Follows bounded (.items es) := by
  induction es with
  | nil => exact .pure fun env => .nil env
  | cons e es ih =>
    have hes := ih fun e' he' => h e' (List.mem_cons_of_mem e he')
    refine Logs.bind (h e List.mem_cons_self) (fun _ _ _ => .itemFails) fun v => ?_
    refine Logs.map (hes.imp fun env' log' r hes env log he henv => ?_)
    subst henv
    exact .cons he hes

theorem assignFrom {x : String} {extra : List Value} (h : mc.Follows bounded (.expr c)) :
    (Run.assignFrom (.symbol x) mc).Follows bounded
      (.expr (.list (.symbol "set" :: .symbol x :: c :: extra))) := by
  refine Logs.bind h (fun _ _ _ => .setFails) fun v => ?_
  refine Logs.map (.assign (fun hb env' env log he _ => ?_) fun env' env log he _ => ?_)
  · rw [List.append_nil]
    exact .setCut hb he
  · exact .set he

theorem printFrom {extra : List Value} (h : mc.Follows bounded (.expr c)) :
    (Run.printFrom mc).Follows bounded (.expr (.list (.symbol "print" :: c :: extra))) := by
  refine Logs.bind h (fun _ _ _ => .printFails) fun v => ?_
  refine Logs.map (.print (fun hb env' env log he _ => ?_) (fun hv env' env log he _ => ?_)
    fun x hv env' env log he _ => ?_)
  · rw [List.append_nil]
    exact .printCut hb he
  · exact .print he hv
  · rw [List.append_nil]
    exact .unprintable he hv

theorem binary {o : Operator} {l r : Value} {ml mr : Run Value} {extra : List Value}
    (hl : ml.Follows bounded (.expr l)) (hr : mr.Follows bounded (.expr r)) :
    Follows bounded (.expr (.list (.symbol o.name :: l :: r :: extra)))
      (do
        let a ← ml
        let b ← mr
        .ofExcept (o.apply a b)) := by
  refine Logs.bind hl (fun _ _ _ => .leftFails) fun a => ?_
  refine Logs.bind hr (fun env' log' f hr env log hl henv => ?_) fun b => ?_
  · subst henv
    exact .rightFails hl hr
  · refine Logs.ofExcept fun env'' env' log' hr _ env log hl henv => ?_
    subst henv
    rw [List.append_nil]
    exact .binary hl hr

end Run.Follows

/-- Evaluation follows the rules. -/
theorem eval_follows (bounded : Bool) (fuel : Nat) (e : Value) :
    (eval fuel e).Follows bounded (.expr e) := by
  induction e using Value.exprInduct with
  | int n => exact .deeper (.pure fun env => .int env n)
  | bool b => exact .deeper (.pure fun env => .bool env b)
  | foreign x => exact .deeper (.pure fun env => .foreign env x)
  | marker p => exact .deeper (.fail fun env => .marker env p)
  | symbol x =>
    exact .deeper (.symbolValue (fun hb env => .cut hb env _) (fun _ _ => .bound) fun _ => .free)
  | empty => exact .deeper (.fail fun env => .empty env)
  | badHead head operands h =>
    rw [eval_badHead fuel _ h]
    exact .deeper (.deeper (.fail fun env => .badHead env operands h))
  | ordinary x operands hx =>
    rw [eval_ordinary fuel _ hx]
    exact .dispatch (.headValue (fun hb env => .cut hb env _) (fun _ _ => .headBound operands hx)
      fun _ => .headFree operands hx)
  | shortForm f operands h =>
    rw [eval_shortForm fuel h]
    exact .dispatch (.fail fun env => .shortForm env h)
  | shortOperator o operands h =>
    rw [eval_shortOperator fuel h]
    exact .dispatch (.fail fun env => .shortOperator env h)
  | conditional c y n extra hc hy hn =>
    rw [eval_conditional]
    exact .dispatch (.deeper (.choose hc hy hn))
  | loop c b extra hc hb =>
    rw [eval_loop]
    exact .dispatch (.deeper ((Run.Follows.rounds hc hb _).imp fun _ _ _ => .loop))
  | sequence es ih =>
    rw [eval_sequence]
    exact .dispatch (.deeper (.map ((Run.Follows.items ih).imp fun _ _ _ => .sequence)))
  | assign x e extra he =>
    rw [eval_assign]
    exact .dispatch (.deeper (.assignFrom he))
  | badTarget t e extra h =>
    rw [eval_assign, Run.assignFrom_badTarget _ h]
    exact .dispatch (.deeper (.deeper (.fail fun env => .badTarget env e extra h)))
  | print e extra he =>
    rw [eval_print]
    exact .dispatch (.deeper (.printFrom he))
  | binary o l r extra hl hr =>
    rw [eval_binary]
    exact .dispatch (.binary hl hr)

end PocketLisp
