import PocketLisp.Eval

/-!
# Sessions

A session keeps one environment over many steps. Steps evaluate texts and expressions, bind and look
up names from outside, choose the channel that printed text goes to, or start over. A step that
fails leaves behind what it did before it failed, and the session goes on.

* `Env.bind`, `Env.fetch`, `Env.lookup`: the environment under names that are arbitrary values. Only
  a symbol can be bound, and a list cannot even be looked for.
* `Session.step`: one step, with its reply and the session after it. It is `none` if a loop used up
  its fuel.
* `Session.run`: many steps.
-/

namespace PocketLisp

namespace Env

/-- Binds a value given from outside. -/
def bind (env : Env) (name v : Value) : Except NameFault Env :=
  match name with
  | .symbol x => .ok (env.insert x v)
  | w => .error (.notSymbol w)

/-- The value bound to a name given from outside, if there is one. -/
def fetch (env : Env) (name : Value) : Except NameFault (Option Value) :=
  match name with
  | .symbol x => .ok (env.get? x)
  | .list _ => .error .unhashable
  | _ => .ok none

/-- The value bound to a name given from outside, which must have one. -/
def lookup (env : Env) (name : Value) : Except NameFault Value :=
  match env.fetch name with
  | .ok (some v) => .ok v
  | .ok none => .error (.unbound name)
  | .error f => .error f

end Env

/-- The bound on the rounds of a loop where none is asked for: more than can ever be run. -/
def ampleFuel : Nat := 1000000000000000000

/-- A session between two steps. -/
structure Session where
  env : Env := .empty
  /-- Where printed text goes; `none` is the default channel. -/
  channel : Option String := none

/-- A step of a session. -/
inductive Step where
  /-- Evaluates a source text. -/
  | eval (text : String)
  /-- Evaluates one expression. -/
  | evaluate (expr : Value)
  /-- Binds a name. -/
  | set (name v : Value)
  /-- The value of a name, or `default` if it has none. -/
  | get (name default : Value)
  /-- The value of a name that must have one. -/
  | lookup (name : Value)
  /-- Whether a name has a value. -/
  | contains (name : Value)
  /-- Chooses the channel of printed text. -/
  | direct (channel : Option String)
  /-- Starts over with an empty environment. The channel stays. -/
  | reset

/-- What a step gives. -/
inductive Answer where
  | values (vs : List Value)
  | value (v : Value)
  | truth (b : Bool)
  | nothing

/-- What is told about a step. -/
structure Reply where
  /-- What the step gave, or why it failed. -/
  answer : Except Fault Answer
  /-- What happened in the step, in order. -/
  events : List Event := []
  /-- The channel that its text went to. -/
  channel : Option String

/-- The text that a step printed. -/
def Reply.printed (r : Reply) : String := Event.outputText r.events

namespace Session

/-- Runs `m` in the session. Bindings made before a fault stay. -/
def perform {α : Type} (session : Session) (m : Run α) (answer : α → Answer) :
    Option (Reply × Session) :=
  match m none { env := session.env } with
  | .done a s =>
    some ({ answer := .ok (answer a), events := s.events, channel := session.channel },
      { session with env := s.env })
  | .failed f s =>
    some ({ answer := .error f, events := s.events, channel := session.channel },
      { session with env := s.env })
  | .exhausted => none

/-- A reply without events. -/
def reply (session : Session) (answer : Except NameFault Answer) : Reply :=
  { answer := answer.mapError .name, channel := session.channel }

/-- One step. -/
def step (fuel : Nat) (session : Session) : Step → Option (Reply × Session)
  | .eval text => session.perform (evalText fuel text) .values
  | .evaluate expr => session.perform (PocketLisp.eval fuel expr) .value
  | .set name v =>
    match session.env.bind name v with
    | .ok env => some (session.reply (.ok (.value v)), { session with env := env })
    | .error f => some (session.reply (.error f), session)
  | .get name default =>
    some (session.reply ((session.env.fetch name).map fun v? => .value (v?.getD default)), session)
  | .lookup name => some (session.reply ((session.env.lookup name).map .value), session)
  | .contains name =>
    some (session.reply ((session.env.fetch name).map fun v? => .truth v?.isSome), session)
  | .direct channel =>
    let session := { session with channel := channel }
    some (session.reply (.ok .nothing), session)
  | .reset =>
    let session := { session with env := .empty }
    some (session.reply (.ok .nothing), session)

/-- All steps in order, each with its reply and the session after it. -/
def run (fuel : Nat) (session : Session) : List Step → Option (List (Reply × Session))
  | [] => some []
  | x :: xs =>
    match session.step fuel x with
    | none => none
    | some r => (run fuel r.2 xs).map (r :: ·)

end Session

end PocketLisp
