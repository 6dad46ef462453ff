import PocketLisp.Proofs.Observation

/-!
# Effects

What a program does to the world around it is that it binds names and prints values. This module
describes evaluation a second time, by rules that know nothing of states, fuel and events: they
relate an expression to the effects that it has, in order, and to its value or fault. A `set` that
bound its name and a `print` that printed its value add one effect each, behind those of the
operand, and nothing else adds any. No rule takes an effect back.

* `Effect`, `Env.after`, `Effect.outputText`: a binding or a print, and what a log of them makes of
  the environment and of the output.
* `State.Extends s log t`: `t` is what the effects `log` make of `s`.
* `Code`: an expression, expressions in order, or the rounds of a loop that are still to come.
* `Performs bounded env code log r`: in `env`, `code` has the effects `log` and ends with `r`. If
  depth is bounded, code may also be cut off before it starts, and a binding or a print before it is
  made.
-/

namespace PocketLisp

/-- Something that a program did to the world around it. -/
inductive Effect where
  /-- A name was bound. -/
  | set (name : String) (v : Value)
  /-- A value was printed. -/
  | print (v : Value)

namespace Effect

/-- The binding that an effect makes. -/
def binding? : Effect → Option (String × Value)
  | .set x v => some (x, v)
  | .print _ => none

/-- The text that an effect prints: a line with the value as it is shown for debugging. -/
def output : Effect → String
  | .set .. => ""
  | .print v => v.debug ++ "\n"

/-- The text that the effects print, in order. -/
def outputText (log : List Effect) : String := String.join (log.map output)

/-- The effect that an event records. Only bindings and prints are effects. -/
def ofEvent? : Event → Option Effect
  | .bound x v => some (.set x v)
  | .printed v => some (.print v)
  | _ => none

@[simp] theorem outputText_append (log log' : List Effect) :
    outputText (log ++ log') = outputText log ++ outputText log' := by
  simp [outputText]

theorem outputText_ofEvents (es : List Event) :
    Event.outputText es = outputText (es.filterMap ofEvent?) := by
  induction es with
  | nil => rfl
  | cons e es ih =>
    rw [Event.outputText] at ih ⊢
    rw [List.map_cons, String.join_cons, ih, List.filterMap_cons]
    cases e <;> simp [Event.output, Event.line, ofEvent?, outputText, output]

end Effect

/-- The environment with the bindings of the effects made, in order. -/
def Env.after (env : Env) (log : List Effect) : Env := env.insertAll (log.filterMap Effect.binding?)

@[simp] theorem Env.after_append (env : Env) (log log' : List Effect) :
    env.after (log ++ log') = (env.after log).after log' := by
  simp [Env.after, Env.insertAll]

theorem Env.get?_after_of_notMem {log : List Effect} {x : String} (h : ∀ w, .set x w ∉ log)
    (env : Env) : (env.after log).get? x = env.get? x := by
  induction log generalizing env with
  | nil => rfl
  | cons effect log ih =>
    have hlog : ∀ w, .set x w ∉ log := fun w hw => h w (List.mem_cons_of_mem _ hw)
    cases effect with
    | print v => exact ih hlog env
    | set y v =>
      have hxy : x ≠ y := fun hxy => h v (hxy ▸ List.mem_cons_self)
      exact (ih hlog (env.insert y v)).trans (Env.get?_insert_ne env v hxy)

theorem Env.get?_after_set {log' : List Effect} {x : String} (h : ∀ w, .set x w ∉ log')
    (env : Env) (log : List Effect) (v : Value) :
    (env.after (log ++ .set x v :: log')).get? x = some v := by
  rw [Env.after_append]
  exact (Env.get?_after_of_notMem h _).trans (Env.get?_insert_self _ x v)

/-- The effects so far, in order. -/
def State.effects (s : State) : List Effect := s.events.filterMap Effect.ofEvent?

/-- `t` is what the effects `log` make of `s`. -/
structure State.Extends (s : State) (log : List Effect) (t : State) : Prop where
  env : t.env = s.env.after log
  effects : t.effects = s.effects ++ log

namespace State.Extends

variable {s t u : State} {log log' : List Effect}

theorem refl (s : State) : s.Extends [] s := ⟨rfl, (List.append_nil _).symm⟩

theorem trans (h : s.Extends log t) (h' : t.Extends log' u) : s.Extends (log ++ log') u := by
  refine ⟨?_, ?_⟩
  · rw [h'.env, h.env, Env.after_append]
  · rw [h'.effects, h.effects, List.append_assoc]

theorem noteAll {es : List Event} (h : ∀ e ∈ es, Effect.ofEvent? e = none) (s : State) :
    s.Extends [] (s.noteAll es) := by
  refine ⟨rfl, ?_⟩
  rw [State.effects, State.events_noteAll, List.filterMap_append, List.filterMap_eq_nil_iff.2 h]
  rfl

theorem dispatched (s : State) (head : String) (operands : Nat) :
    s.Extends [] (s.note (.dispatched head operands)) := by
  refine ⟨rfl, ?_⟩
  rw [State.effects, State.events_note, List.filterMap_append]
  rfl

theorem assign (s : State) (x : String) (v : Value) : s.Extends [.set x v] (s.assign x v) := by
  refine ⟨rfl, ?_⟩
  rw [State.effects, State.events_assign, List.filterMap_append]
  rfl

theorem printed (s : State) (v : Value) : s.Extends [.print v] (s.note (.printed v)) := by
  refine ⟨rfl, ?_⟩
  rw [State.effects, State.events_note, List.filterMap_append]
  rfl

end State.Extends

/-! ## The rules -/

/-- What can be performed, with the type of what it gives. -/
inductive Code : Type → Type where
  /-- One expression. -/
  | expr (e : Value) : Code Value
  /-- Expressions in order. -/
  | items (es : List Value) : Code (List Value)
  /-- The rounds of a loop that are still to come, where `last` is the value of the round before. -/
  | rounds (cond body last : Value) : Code Value

/-- In `env`, the code has the effects `log`, in order, and ends with the value or fault at the end.
What follows something that was performed starts in the environment that this left. -/
inductive Performs (bounded : Bool) :
    {α : Type} → Env → Code α → List Effect → Except Fault α → Prop where
  -- Expressions of which no operand is evaluated.
  | int (env : Env) (n : Int) : Performs bounded env (.expr (.int n)) [] (.ok (.int n))
  | bool (env : Env) (b : Bool) : Performs bounded env (.expr (.bool b)) [] (.ok (.bool b))
  | foreign (env : Env) (x : Foreign) :
      Performs bounded env (.expr (.foreign x)) [] (.ok (.foreign x))
  | marker (env : Env) (p : Paren) :
      Performs bounded env (.expr (.marker p)) [] (.error (.eval (.marker p)))
  | bound {env : Env} {x : String} {v : Value} (h : env.get? x = some v) :
      Performs bounded env (.expr (.symbol x)) [] (.ok v)
  | free {env : Env} {x : String} (h : env.get? x = none) :
      Performs bounded env (.expr (.symbol x)) [] (.ok (.symbol x))
  | empty (env : Env) : Performs bounded env (.expr (.list [])) [] (.error (.eval .emptyList))
  | badHead (env : Env) {head : Value} (operands : List Value) (h : ∀ x, head ≠ .symbol x) :
      Performs bounded env (.expr (.list (head :: operands))) [] (.error (.eval (.badHead head)))
  | headBound {env : Env} {x : String} {v : Value} (operands : List Value)
      (hx : Head.ofName x = .ordinary) (h : env.get? x = some v) :
      Performs bounded env (.expr (.list (.symbol x :: operands))) [] (.ok v)
  | headFree {env : Env} {x : String} (operands : List Value)
      (hx : Head.ofName x = .ordinary) (h : env.get? x = none) :
      Performs bounded env (.expr (.list (.symbol x :: operands))) [] (.error (.eval (.unbound x)))
  | shortForm (env : Env) {f : Form} {operands : List Value}
      (h : operands.length < f.minOperands) :
      Performs bounded env (.expr (.list (.symbol f.name :: operands))) []
        (.error (.eval (.formOperands f)))
  | shortOperator (env : Env) {o : Operator} {operands : List Value}
      (h : operands.length < Operator.minOperands) :
      Performs bounded env (.expr (.list (.symbol o.name :: operands))) []
        (.error (.eval (.operatorOperands o)))
  -- The choice evaluates one branch.
  | chooseFails {env : Env} {c y n : Value} {extra : List Value} {log : List Effect} {f : Fault}
      (hc : Performs bounded env (.expr c) log (.error f)) :
      Performs bounded env (.expr (.list (.symbol "if" :: c :: y :: n :: extra))) log (.error f)
  | chooseTrue {env : Env} {c y n : Value} {extra : List Value} {log log' : List Effect}
      {r : Except Fault Value} (hc : Performs bounded env (.expr c) log (.ok (.bool true)))
      (hy : Performs bounded (env.after log) (.expr y) log' r) :
      Performs bounded env (.expr (.list (.symbol "if" :: c :: y :: n :: extra))) (log ++ log') r
  | chooseOther {env : Env} {c y n v : Value} {extra : List Value} {log log' : List Effect}
      {r : Except Fault Value} (hc : Performs bounded env (.expr c) log (.ok v))
      (hv : v ≠ .bool true) (hn : Performs bounded (env.after log) (.expr n) log' r) :
      Performs bounded env (.expr (.list (.symbol "if" :: c :: y :: n :: extra))) (log ++ log') r
  -- The loop is its rounds.
  | loop {env : Env} {c b : Value} {extra : List Value} {log : List Effect}
      {r : Except Fault Value} (h : Performs bounded env (.rounds c b (.bool false)) log r) :
      Performs bounded env (.expr (.list (.symbol "while" :: c :: b :: extra))) log r
  | roundFails {env : Env} {c b last : Value} {log : List Effect} {f : Fault}
      (hc : Performs bounded env (.expr c) log (.error f)) :
      Performs bounded env (.rounds c b last) log (.error f)
  | roundsOver {env : Env} {c b last v : Value} {log : List Effect}
      (hc : Performs bounded env (.expr c) log (.ok v)) (hv : v ≠ .bool true) :
      Performs bounded env (.rounds c b last) log (.ok last)
  | bodyFails {env : Env} {c b last : Value} {log log' : List Effect} {f : Fault}
      (hc : Performs bounded env (.expr c) log (.ok (.bool true)))
      (hb : Performs bounded (env.after log) (.expr b) log' (.error f)) :
      Performs bounded env (.rounds c b last) (log ++ log') (.error f)
  | roundNext {env : Env} {c b last v : Value} {log log' rest : List Effect}
      {r : Except Fault Value} (hc : Performs bounded env (.expr c) log (.ok (.bool true)))
      (hb : Performs bounded (env.after log) (.expr b) log' (.ok v))
      (h : Performs bounded ((env.after log).after log') (.rounds c b v) rest r) :
      Performs bounded env (.rounds c b last) (log ++ (log' ++ rest)) r
  -- The sequence performs its operands up to the first that fails.
  | sequence {env : Env} {es : List Value} {log : List Effect} {r : Except Fault (List Value)}
      (h : Performs bounded env (.items es) log r) :
      Performs bounded env (.expr (.list (.symbol "do" :: es))) log (r.map .list)
  | nil (env : Env) : Performs bounded env (.items []) [] (.ok [])
  | itemFails {env : Env} {e : Value} {es : List Value} {log : List Effect} {f : Fault}
      (he : Performs bounded env (.expr e) log (.error f)) :
      Performs bounded env (.items (e :: es)) log (.error f)
  | cons {env : Env} {e v : Value} {es : List Value} {log log' : List Effect}
      {r : Except Fault (List Value)} (he : Performs bounded env (.expr e) log (.ok v))
      (hes : Performs bounded (env.after log) (.items es) log' r) :
      Performs bounded env (.items (e :: es)) (log ++ log') (r.map (v :: ·))
  -- A binding is an effect once it is made.
  | badTarget (env : Env) {t : Value} (e : Value) (extra : List Value) (h : ∀ x, t ≠ .symbol x) :
      Performs bounded env (.expr (.list (.symbol "set" :: t :: e :: extra))) []
        (.error (.eval (.badTarget t)))
  | setFails {env : Env} {x : String} {e : Value} {extra : List Value} {log : List Effect}
      {f : Fault} (he : Performs bounded env (.expr e) log (.error f)) :
      Performs bounded env (.expr (.list (.symbol "set" :: .symbol x :: e :: extra))) log (.error f)
  | set {env : Env} {x : String} {e v : Value} {extra : List Value} {log : List Effect}
      (he : Performs bounded env (.expr e) log (.ok v)) :
      Performs bounded env (.expr (.list (.symbol "set" :: .symbol x :: e :: extra)))
        (log ++ [.set x v]) (.ok v)
  | setCut (bound : bounded = true) {env : Env} {x : String} {e v : Value} {extra : List Value}
      {log : List Effect} (he : Performs bounded env (.expr e) log (.ok v)) :
      Performs bounded env (.expr (.list (.symbol "set" :: .symbol x :: e :: extra))) log
        (.error (.eval .tooDeep))
  -- A print is an effect once the value is printed.
  | printFails {env : Env} {e : Value} {extra : List Value} {log : List Effect} {f : Fault}
      (he : Performs bounded env (.expr e) log (.error f)) :
      Performs bounded env (.expr (.list (.symbol "print" :: e :: extra))) log (.error f)
  | print {env : Env} {e v : Value} {extra : List Value} {log : List Effect}
      (he : Performs bounded env (.expr e) log (.ok v)) (hv : v.foreign? = none) :
      Performs bounded env (.expr (.list (.symbol "print" :: e :: extra))) (log ++ [.print v])
        (.ok v)
  | unprintable {env : Env} {e v : Value} {x : Foreign} {extra : List Value} {log : List Effect}
      (he : Performs bounded env (.expr e) log (.ok v)) (hv : v.foreign? = some x) :
      Performs bounded env (.expr (.list (.symbol "print" :: e :: extra))) log
        (.error (.eval (.unprintable x)))
  | printCut (bound : bounded = true) {env : Env} {e v : Value} {extra : List Value}
      {log : List Effect} (he : Performs bounded env (.expr e) log (.ok v)) :
      Performs bounded env (.expr (.list (.symbol "print" :: e :: extra))) log
        (.error (.eval .tooDeep))
  -- An operator evaluates both operands before it is applied.
  | leftFails {env : Env} {o : Operator} {l r : Value} {extra : List Value} {log : List Effect}
      {f : Fault} (hl : Performs bounded env (.expr l) log (.error f)) :
      Performs bounded env (.expr (.list (.symbol o.name :: l :: r :: extra))) log (.error f)
  | rightFails {env : Env} {o : Operator} {l r a : Value} {extra : List Value}
      {log log' : List Effect} {f : Fault} (hl : Performs bounded env (.expr l) log (.ok a))
      (hr : Performs bounded (env.after log) (.expr r) log' (.error f)) :
      Performs bounded env (.expr (.list (.symbol o.name :: l :: r :: extra))) (log ++ log')
        (.error f)
  | binary {env : Env} {o : Operator} {l r a b : Value} {extra : List Value}
      {log log' : List Effect} (hl : Performs bounded env (.expr l) log (.ok a))
      (hr : Performs bounded (env.after log) (.expr r) log' (.ok b)) :
      Performs bounded env (.expr (.list (.symbol o.name :: l :: r :: extra))) (log ++ log')
        ((o.apply a b).mapError .eval)
  -- Where depth is bounded there may be no room to begin.
  | cut (bound : bounded = true) {α : Type} (env : Env) (code : Code α) :
      Performs bounded env code [] (.error (.eval .tooDeep))

end PocketLisp
