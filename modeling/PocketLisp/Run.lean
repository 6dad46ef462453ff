import PocketLisp.Env
import PocketLisp.Event

/-!
# Runs

A run is a computation of the language: it reads and changes the state, and ends with a value or a
fault, or is cut off. The state after a fault is kept: nothing that was done is undone.

* `State`: the environment and the log of events, the latest first.
* `Outcome`: a value or a fault with the state left, or `exhausted` when the budget of loop rounds
  is used up.
* `Room`: how many frames a computation may still nest, or no bound. `Run.deeper` spends frames;
  without a bound it does nothing (`Run.deeper_none`). `Run.walk` and `Run.render` say what values
  cost.
* `Run`: the computations, a monad. `Run.note`, `Run.assign` and `Run.print` are the only ones that
  change the state, and each adds one event to the log.
-/

namespace PocketLisp

/-- What a run works on. -/
structure State where
  env : Env := .empty
  /-- The events so far, the latest first. -/
  log : List Event := []

namespace State

/-- The events so far, in order. -/
def events (s : State) : List Event := s.log.reverse

def note (s : State) (e : Event) : State := { s with log := e :: s.log }

end State

/-- How a run ends. -/
inductive Outcome (α : Type) where
  /-- It gave a value. -/
  | done (a : α) (s : State)
  /-- It failed. -/
  | failed (f : Fault) (s : State)
  /-- It was cut off. -/
  | exhausted

/-- The number of frames that may still be nested; `none` is no bound. -/
abbrev Room := Option Nat

/-- A computation of the language. -/
def Run (α : Type) := Room → State → Outcome α

namespace Run

variable {α β : Type}

/-- The run that does nothing and gives `a`. -/
@[inline] protected def pure (a : α) : Run α := fun _ s => .done a s

/-- First `m`, then `k` with its value. A fault of `m` ends the run. -/
@[inline] protected def bind (m : Run α) (k : α → Run β) : Run β := fun room s =>
  match m room s with
  | .done a s' => k a room s'
  | .failed f s' => .failed f s'
  | .exhausted => .exhausted

instance : Monad Run where
  pure := Run.pure
  bind := Run.bind

/-- The run that fails with `f`. -/
@[inline] def fail (f : Fault) : Run α := fun _ s => .failed f s

/-- The result of a pure computation. -/
@[inline] def ofExcept : Except EvalFault α → Run α
  | .ok a => .pure a
  | .error f => .fail (.eval f)

@[inline] def env : Run Env := fun _ s => .done s.env s

@[inline] def note (e : Event) : Run Unit := fun _ s => .done () (s.note e)

/-- Adds events to the log, in order. -/
def notes : List Event → Run Unit
  | [] => .pure ()
  | e :: es => .bind (.note e) fun _ => notes es

/-- Runs `m` nested `frames` deeper, if there is room for that. -/
@[inline] def deeper (frames : Nat) (m : Run α) : Run α := fun room s =>
  match room with
  | none => m none s
  | some n => if frames ≤ n then m (some (n - frames)) s else .failed (.eval .tooDeep) s

/-- Fails with `f` where there is no room for `frames` frames more. -/
def require (frames : Nat) (f : Fault) : Run Unit := fun room s =>
  match room with
  | none => .done () s
  | some n => if frames ≤ n then .done () s else .failed f s

/-- The frames that it takes to copy a value: two for every level of lists. -/
def walk (v : Value) : Nat := 2 * v.depth + 1

/-- The frames that it takes to write a value out: three for every level of lists. -/
def render (v : Value) : Nat := 3 * v.depth + 2

def assign (name : String) (v : Value) : Run Unit :=
  .deeper (walk v) fun _ s =>
    .done () { env := s.env.insert name v, log := .bound name v :: s.log }

/-- Prints `v`. A value with a foreign object in it cannot be printed. -/
def print (v : Value) : Run Unit :=
  match v.printed with
  | .error f => .fail (.eval f)
  | .ok _ => .deeper (render v) (.note (.printed v))

/-- The values of all the runs, one after the other. -/
def collect : List (Run α) → Run (List α)
  | [] => .pure []
  | m :: ms => .bind m fun a => .bind (collect ms) fun as => .pure (a :: as)

/-! ## What the operations do -/

section Lemmas

variable {room : Room} {s : State}

@[simp] theorem pure_run (a : α) : (pure a : Run α) room s = .done a s := rfl

@[simp] theorem bind_run (m : Run α) (k : α → Run β) :
    (m >>= k) room s =
      match m room s with
      | .done a s' => k a room s'
      | .failed f s' => .failed f s'
      | .exhausted => .exhausted := rfl

@[simp] theorem fail_run (f : Fault) : (fail f : Run α) room s = .failed f s := rfl

@[simp] theorem note_run (e : Event) : note e room s = .done () (s.note e) := rfl

/-- Without a bound, depth costs nothing. -/
@[simp] theorem deeper_none (frames : Nat) (m : Run α) : deeper frames m none = m none := rfl

theorem print_none {v : Value} (h : v.foreign? = none) :
    print v none s = .done () (s.note (.printed v)) := by
  simp [print, Value.printed, h]

end Lemmas

private theorem id_map_run (m : Run α) : id <$> m = m := by
  funext room s
  show Run.bind m (fun a => Run.pure (id a)) room s = m room s
  unfold Run.bind
  cases m room s <;> rfl

private theorem bind_assoc_run {γ : Type} (m : Run α) (k : α → Run β) (l : β → Run γ) :
    m >>= k >>= l = m >>= fun a => k a >>= l := by
  funext room s
  show Run.bind (Run.bind m k) l room s = Run.bind m (fun a => Run.bind (k a) l) room s
  unfold Run.bind
  cases m room s <;> rfl

instance : LawfulMonad Run :=
  LawfulMonad.mk' Run id_map_run (fun _ _ => rfl) bind_assoc_run

end Run

end PocketLisp
