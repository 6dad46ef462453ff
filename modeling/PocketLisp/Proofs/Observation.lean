import PocketLisp.Proofs.Noninterference

/-!
# What can be seen of a run

Seen from outside, a run that ends gives a value or a fault, leaves an environment and has printed a
text. The trace is not part of this.

* `Seen`, `Outcome.seen?`: what can be seen of a run. Nothing can be seen of one that is cut off.
* `Seen.ofForest?`, `Seen.ofText?`: what can be seen of evaluating a forest or a text in an
  environment.
* `State.prints`: the values printed, of which the text is made (`State.outputText_eq_prints`).
* `evalText_of_read`, `evalText_of_unread`: a text is its forest behind a few events of the trace,
  or a fault.
* `eval_fresh`, `seen_evalForest`: what can be seen of an expression or a forest does not depend on
  what happened before, but for the bindings made; the text printed before stays in front.
  `Ends.fresh` and `Ends.of_fresh` are the two directions of this for an expression that ends.
-/

namespace PocketLisp

variable {α β : Type}

/-- What can be seen of a run that ended. -/
structure Seen (α : Type) where
  result : Except Fault α
  /-- The environment left. -/
  env : Env
  /-- The text printed. -/
  printed : String

/-- The same behind a text that was printed before. -/
def Seen.after (out : String) (x : Seen α) : Seen α := { x with printed := out ++ x.printed }

/-- The same with the value that `g` makes of the value. -/
def Seen.map (g : α → β) (x : Seen α) : Seen β := ⟨x.result.map g, x.env, x.printed⟩

/-- What can be seen of an outcome. -/
def Outcome.seen? : Outcome α → Option (Seen α)
  | .done a s => some ⟨.ok a, s.env, Event.outputText s.events⟩
  | .failed f s => some ⟨.error f, s.env, Event.outputText s.events⟩
  | .exhausted => none

theorem Outcome.seen?_of_ended {o : Outcome α} {r : Except Fault α} {s : State} {env : Env}
    {out : String} (h : o = .ended r s) (henv : s.env = env)
    (hout : Event.outputText s.events = out) : o.seen? = some ⟨r, env, out⟩ := by
  subst henv hout
  rw [h]
  cases r <;> rfl

/-- What can be seen of evaluating a forest. -/
def Seen.ofForest? (fuel : Nat) (env : Env) (forest : Forest) : Option (Seen (List Value)) :=
  (evalForest fuel forest none { env := env }).seen?

/-- What can be seen of evaluating a text. -/
def Seen.ofText? (fuel : Nat) (env : Env) (text : String) : Option (Seen (List Value)) :=
  (evalText fuel text none { env := env }).seen?

@[simp] theorem Seen.after_empty (x : Seen α) : x.after "" = x := by
  simp [Seen.after]

theorem Run.seen_map (m : Run α) (g : α → β) (room : Room) (s : State) :
    (Outcome.seen? ((g <$> m) room s)) = (m room s).seen?.map (Seen.map g) := by
  rw [← bind_pure_comp, bind_run]
  cases m room s <;> rfl

/-! ## Events in front -/

/-- The state with more events, in order. -/
def State.noteAll (s : State) (es : List Event) : State := { s with log := es.reverse ++ s.log }

theorem State.events_note (s : State) (e : Event) : (s.note e).events = s.events ++ [e] := by
  simp [State.events, State.note]

theorem State.events_noteAll (s : State) (es : List Event) :
    (s.noteAll es).events = s.events ++ es := by
  simp [State.events, State.noteAll]

theorem State.events_assign (s : State) (x : String) (v : Value) :
    (s.assign x v).events = s.events ++ [.bound x v] := by
  simp [State.events, State.assign]

@[simp] theorem Event.outputText_append (es fs : List Event) :
    outputText (es ++ fs) = outputText es ++ outputText fs := by
  simp [outputText]

/-- The value that an event prints. -/
def Event.printed? : Event → Option Value
  | .printed v => some v
  | _ => none

/-- The values printed so far, in order. -/
def State.prints (s : State) : List Value := s.events.filterMap Event.printed?

theorem State.outputText_eq_prints (s : State) :
    Event.outputText s.events = String.join (s.prints.map Event.line) := by
  rw [prints, Event.outputText]
  induction s.events with
  | nil => rfl
  | cons e es ih =>
    rw [List.map_cons, String.join_cons, ih, List.filterMap_cons]
    cases e <;> simp [Event.output, Event.printed?]

theorem Event.outputText_of_silent {es : List Event} (h : ∀ e ∈ es, e.output = "") :
    outputText es = "" := by
  induction es with
  | nil => rfl
  | cons e es ih =>
    have hes := ih fun e' he' => h e' (List.mem_cons_of_mem e he')
    rw [outputText] at hes ⊢
    rw [List.map_cons, String.join_cons, h e List.mem_cons_self, hes]
    rfl

theorem Run.notes_run (es : List Event) (room : Room) (s : State) :
    Run.notes es room s = .done () (s.noteAll es) := by
  induction es generalizing s with
  | nil => rfl
  | cons e es ih =>
    show Run.notes es room (s.note e) = _
    rw [ih]
    simp [State.noteAll, State.note]

/-! ## Texts -/

/-- The trace of reading a text. -/
def readingTrace (text : String) : List Event := (readText text).tokens.map .token

/-- The trace of a text that was read, up to where its evaluation begins. -/
def startTrace (text : String) (forest : Forest) : List Event :=
  readingTrace text ++ [.parsed forest.length, .evaluating forest.length]

section Text

variable {fuel : Nat} {text : String} {forest : Forest} {room : Room} {s : State}

/-- A text that can be read is its forest. -/
theorem evalText_of_read (h : (readText text).result = .ok forest) :
    evalText fuel text room s =
      evalForest fuel forest room (s.noteAll (startTrace text forest)) := by
  unfold evalText
  simp only [h]
  rw [Run.bind_run, Run.notes_run]
  show evalForest fuel forest room _ = _
  simp [State.noteAll, State.note, startTrace, readingTrace]

theorem evalText_of_unread {f : Fault} (h : (readText text).result = .error f) :
    evalText fuel text room s = .failed f (s.noteAll (readingTrace text)) := by
  unfold evalText
  simp only [h]
  rw [Run.bind_run, Run.notes_run]
  rfl

theorem outputText_readingTrace (text : String) : Event.outputText (readingTrace text) = "" := by
  refine Event.outputText_of_silent fun e he => ?_
  obtain ⟨t, -, rfl⟩ := List.mem_map.1 he
  rfl

theorem outputText_startTrace (text : String) (forest : Forest) :
    Event.outputText (startTrace text forest) = "" := by
  rw [startTrace, Event.outputText_append, outputText_readingTrace]
  rfl

end Text

/-! ## What happened before -/

/-- The states bind the same, and `s` has printed `out` more than `t`, before all that `t` has. -/
structure Ahead (out : String) (s t : State) : Prop where
  env : s.env = t.env
  printed : Event.outputText s.events = out ++ Event.outputText t.events

namespace Ahead

variable {out : String} {s t : State}

theorem start (s : State) : Ahead (Event.outputText s.events) s { env := s.env } :=
  ⟨rfl, by simp [State.events, Event.outputText]⟩

theorem note (h : Ahead out s t) (e : Event) : Ahead out (s.note e) (t.note e) := by
  refine ⟨h.env, ?_⟩
  rw [State.events_note, State.events_note, Event.outputText_append, Event.outputText_append,
    h.printed, String.append_assoc]

theorem assign (h : Ahead out s t) (x : String) (v : Value) :
    Ahead out (s.assign x v) (t.assign x v) := by
  refine ⟨congrArg (Env.insert · x v) h.env, ?_⟩
  rw [State.events_assign, State.events_assign, Event.outputText_append, Event.outputText_append,
    h.printed, String.append_assoc]

theorem seen {o o' : Outcome α} (h : o.Matches (Ahead out) Eq Eq o') :
    o.seen? = o'.seen?.map (Seen.after out) := by
  cases h with
  | exhausted => rfl
  | done hv hs =>
    subst hv
    simp only [Outcome.seen?, Option.map_some, Seen.after, hs.env, hs.printed]
  | failed hf hs =>
    subst hf
    simp only [Outcome.seen?, Option.map_some, Seen.after, hs.env, hs.printed]

end Ahead

theorem eval_lockstep_ahead (fuel : Nat) (e : Value) (out : String) :
    Run.Lockstep (Ahead out) Eq Eq (eval fuel e) (eval fuel e) := by
  apply eval_lockstep_of
  · exact fun x _ s t hs => by rw [hs.env]
  · exact fun s t ev hs => hs.note ev
  · exact fun s t x v hs => hs.assign x v

/-- An expression diverges or ends in a state as it does in the environment alone, behind the text
printed before. -/
theorem eval_fresh (e : Value) (s : State) :
    (Diverges (eval · e) s ∧ Diverges (eval · e) { env := s.env }) ∨
    ∃ r t u, Ends (eval · e) s r t ∧ Ends (eval · e) { env := s.env } r u ∧
      Ahead (Event.outputText s.events) t u := by
  have hmono (i j : Nat) (hij : i ≤ j) := eval_below hij e
  have hlock (fuel : Nat) := eval_lockstep_ahead fuel e (Event.outputText s.events)
  rcases Run.Lockstep.diverge_or_end hmono hmono hlock (.start s) with hdiv | hend
  · exact .inl hdiv
  · obtain ⟨r, r', t, u, ht, hu, hmatch⟩ := hend
    obtain ⟨rfl, htu⟩ := hmatch.eq_of_ended
    exact .inr ⟨r, t, u, ht, hu, htu⟩

namespace Ends

variable {e : Value} {r : Except Fault Value} {s t u : State}

theorem fresh (h : Ends (eval · e) s r t) : ∃ u, Ends (eval · e) { env := s.env } r u ∧
    Ahead (Event.outputText s.events) t u := by
  rcases eval_fresh e s with ⟨hdiv, -⟩ | ⟨r', t', u, hs, hu, htu⟩
  · exact absurd h hdiv.not_ends
  · obtain ⟨rfl, rfl⟩ := h.unique hs
    exact ⟨u, hu, htu⟩

theorem of_fresh (h : Ends (eval · e) { env := s.env } r u) : ∃ t, Ends (eval · e) s r t ∧
    Ahead (Event.outputText s.events) t u := by
  rcases eval_fresh e s with ⟨-, hdiv⟩ | ⟨r', t, u', hs, hu, htu⟩
  · exact absurd h hdiv.not_ends
  · obtain ⟨rfl, rfl⟩ := h.unique hu
    exact ⟨t, hs, htu⟩

end Ends

theorem evalForest_lockstep {I : State → State → Prop} (fuel : Nat) (forest : Forest)
    (h : ∀ e, Run.Lockstep I Eq Eq (eval fuel e) (eval fuel e)) :
    Run.Lockstep I Eq Eq (evalForest fuel forest) (evalForest fuel forest) := by
  have hall : Run.Lockstep I (List.Forall₂ Eq) Eq (.collect (forest.map (eval fuel)))
      (.collect (forest.map (eval fuel))) := .collect fun e _ => h e
  rw [List.forall₂_eq_eq_eq] at hall
  rw [evalForest, evalItems_eq_map]
  exact hall

/-- What can be seen of a forest in a state is what can be seen of it in the environment alone,
behind the text printed before. -/
theorem seen_evalForest (fuel : Nat) (forest : Forest) (s : State) :
    (evalForest fuel forest none s).seen? =
      (Seen.ofForest? fuel s.env forest).map (Seen.after (Event.outputText s.events)) :=
  Ahead.seen
    ((evalForest_lockstep fuel forest fun e => eval_lockstep_ahead fuel e _).unbounded (.start s))

theorem Seen.ofText?_of_read {text : String} {forest : Forest}
    (h : (readText text).result = .ok forest) (fuel : Nat) (env : Env) :
    Seen.ofText? fuel env text = Seen.ofForest? fuel env forest := by
  have hout : Event.outputText
      (({ env := env } : State).noteAll (startTrace text forest)).events = "" := by
    rw [State.events_noteAll, Event.outputText_append, outputText_startTrace]
    rfl
  rw [Seen.ofText?, evalText_of_read h, seen_evalForest, hout]
  show (Seen.ofForest? fuel env forest).map (Seen.after "") = _
  cases Seen.ofForest? fuel env forest with
  | none => rfl
  | some x => rw [Option.map_some, Seen.after_empty]

end PocketLisp
