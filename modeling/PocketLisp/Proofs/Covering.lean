import PocketLisp.Proofs.Observation

/-!
# Runs that cover others

Two runs that look the same from outside may need different fuel, so they are not in lockstep. This
module compares what runs come to, each with as much fuel as it needs.

* `State.Alike`, `Fault.Alike`, `Outcome.Alike`: what looks the same from outside. Of a fault, its
  kind and wording are seen; the trace is not.
* `Run.Covers m n`: whatever `m` ends with, `n` ends with something alike.

There is one rule for each way of putting runs together. A run that takes no fuel is compared by
`Run.Covers.of_lockstep`.
-/

namespace PocketLisp

variable {α β : Type}

/-- The states bind the same and have printed the same. -/
structure State.Alike (s t : State) : Prop where
  env : s.env = t.env
  printed : Event.outputText s.events = Event.outputText t.events

/-- The faults are of one kind and say the same. -/
structure Fault.Alike (f g : Fault) : Prop where
  kind : f.kind = g.kind
  message : f.message = g.message

/-- The outcomes look the same: the same value or faults that are alike, and states that are. -/
def Outcome.Alike (o o' : Outcome α) : Prop := o.Matches State.Alike Eq Fault.Alike o'

namespace State.Alike

variable {s t u : State}

theorem refl (s : State) : s.Alike s := ⟨rfl, rfl⟩

theorem symm (h : s.Alike t) : t.Alike s := ⟨h.env.symm, h.printed.symm⟩

theorem trans (h : s.Alike t) (h' : t.Alike u) : s.Alike u :=
  ⟨h.env.trans h'.env, h.printed.trans h'.printed⟩

theorem note (h : s.Alike t) {e e' : Event} (he : e.output = e'.output) :
    (s.note e).Alike (t.note e') := by
  refine ⟨h.env, ?_⟩
  have hone : Event.outputText [e] = Event.outputText [e'] := by
    rw [Event.outputText, Event.outputText, List.map_singleton, List.map_singleton, he]
  rw [State.events_note, State.events_note, Event.outputText_append, Event.outputText_append,
    h.printed, hone]

theorem assign (h : s.Alike t) (x : String) (v : Value) : (s.assign x v).Alike (t.assign x v) := by
  refine ⟨congrArg (Env.insert · x v) h.env, ?_⟩
  rw [State.events_assign, State.events_assign, Event.outputText_append, Event.outputText_append,
    h.printed]

end State.Alike

theorem Fault.Alike.refl (f : Fault) : f.Alike f := ⟨rfl, rfl⟩

namespace Outcome.Alike

variable {o o' o'' : Outcome α}

theorem refl (o : Outcome α) : o.Alike o := by
  cases o with
  | done a s => exact .done rfl (.refl s)
  | failed f s => exact .failed (.refl f) (.refl s)
  | exhausted => exact .exhausted

theorem symm (h : o.Alike o') : o'.Alike o := by
  cases h with
  | done hv hs => exact .done hv.symm hs.symm
  | failed hf hs => exact .failed ⟨hf.kind.symm, hf.message.symm⟩ hs.symm
  | exhausted => exact .exhausted

theorem trans (h : o.Alike o') (h' : o'.Alike o'') : o.Alike o'' := by
  cases h with
  | done hv hs => cases h' with | done hv' hs' => exact .done (hv.trans hv') (hs.trans hs')
  | failed hf hs =>
    cases h' with
    | failed hf' hs' =>
      exact .failed ⟨hf.kind.trans hf'.kind, hf.message.trans hf'.message⟩ (hs.trans hs')
  | exhausted => exact h'

end Outcome.Alike

/-- From states that are alike, `n` ends with something like what `m` ends with, with as much fuel
as it takes. -/
def Run.Covers (m n : Nat → Run α) : Prop :=
  ∀ fuel s s' r t, s.Alike s' → m fuel none s = .ended r t →
    ∃ r' t', Ends n s' r' t' ∧ (Outcome.ended r t).Alike (.ended r' t')

namespace Run.Covers

section General

variable {m n : Nat → Run α} {k l : Nat → α → Run β}

/-- Runs in lockstep that take no fuel. -/
theorem of_lockstep {m n : Run α} (h : Lockstep State.Alike Eq Fault.Alike m n) :
    Covers (fun _ => m) (fun _ => n) := by
  intro fuel s s' r t hs hr
  have hmatch := h.unbounded hs
  rw [show m none s = .ended r t from hr] at hmatch
  obtain ⟨r', t', hn⟩ := Outcome.ended_of_ne_exhausted hmatch.ne_exhausted
  rw [hn] at hmatch
  exact ⟨r', t', ⟨0, fun _ _ => hn⟩, hmatch⟩

theorem pure (a : α) : Covers (fun _ => pure a) (fun _ => pure a) :=
  of_lockstep (.pure rfl)

theorem fail (f : Fault) : Covers (fun _ => (.fail f : Run α)) (fun _ => .fail f) :=
  of_lockstep (.fail (.refl f))

theorem ofExcept (x : Except EvalFault α) :
    Covers (fun _ => .ofExcept x) (fun _ => .ofExcept x) :=
  of_lockstep (.ofExcept (fun a ha => ⟨a, ha, rfl⟩) fun f hf => ⟨f, hf, .refl _⟩)

theorem bind (h : Covers m n) (hk : ∀ a, Covers (k · a) (l · a)) :
    Covers (fun fuel => m fuel >>= k fuel) (fun fuel => n fuel >>= l fuel) := by
  intro fuel s s' r t hs hr
  rcases ended_of_bind hr with ⟨f, hm, rfl⟩ | ⟨a, u, hm, hr⟩
  · obtain ⟨r', t', hn, halike⟩ := h fuel s s' (.error f) t hs hm
    cases r' with
    | ok a => cases halike
    | error g =>
      cases halike with
      | failed hf hs' => exact ⟨.error g, t', hn.bind_error, .failed hf hs'⟩
  · obtain ⟨r', u', hn, halike⟩ := h fuel s s' (.ok a) u hs hm
    cases r' with
    | error g => cases halike
    | ok b =>
      cases halike with
      | done hv hs' =>
        subst hv
        obtain ⟨r'', t', hl, halike'⟩ := hk a fuel u u' r t hs' hr
        exact ⟨r'', t', hn.bind hl, halike'⟩

theorem map (g : α → β) (h : Covers m n) :
    Covers (fun fuel => g <$> m fuel) (fun fuel => g <$> n fuel) := by
  simp only [← bind_pure_comp]
  exact bind h fun a => pure (g a)

theorem deeper (i j : Nat) (h : Covers m n) :
    Covers (fun fuel => .deeper i (m fuel)) (fun fuel => .deeper j (n fuel)) := h

/-- How a list was traced makes no difference. -/
theorem dispatch {head head' : String} {i j : Nat} (h : Covers m n) :
    Covers (fun fuel => .dispatch head i (m fuel)) (fun fuel => .dispatch head' j (n fuel)) := by
  intro fuel s s' r t hs hr
  have hs' : (s.note (.dispatched head i)).Alike (s'.note (.dispatched head' j)) := hs.note rfl
  obtain ⟨r', t', hn, halike⟩ := h fuel _ _ r t hs' hr
  exact ⟨r', t', hn.dispatch, halike⟩

theorem collect {ι : Type} {es es' : List ι} {f g : Nat → ι → Run α}
    (h : List.Forall₂ (fun e e' => Covers (f · e) (g · e')) es es') :
    Covers (fun fuel => .collect (es.map (f fuel))) (fun fuel => .collect (es'.map (g fuel))) := by
  induction h with
  | nil => exact pure []
  | cons he _ ih => exact bind he fun a => bind ih fun as => pure (a :: as)

end General

section Values

theorem headValue (x : String) : Covers (fun _ => .headValue x) (fun _ => .headValue x) := by
  refine of_lockstep (.headValue (.refl _) fun s s' hs => ?_)
  rw [hs.env]
  cases s'.env.get? x with
  | none => exact .none
  | some v => exact .some rfl

variable {m n c c' b b' y y' : Nat → Run Value}

theorem choose (hc : Covers c c') (hy : Covers y y') (hn : Covers m n) :
    Covers (fun fuel => .choose (c fuel) (y fuel) (m fuel))
      (fun fuel => .choose (c' fuel) (y' fuel) (n fuel)) := by
  refine bind hc fun v => ?_
  split
  · exact hy
  · exact hn

/-- Rounds of a loop, by induction on how many may still be run on the left. -/
theorem rounds (hc : Covers c c') (hb : Covers b b') (hmc : ∀ i j, i ≤ j → Below (c' i) (c' j))
    (hmb : ∀ i j, i ≤ j → Below (b' i) (b' j)) (left : Nat) (last : Value) :
    Covers (fun fuel room s => Run.rounds (c fuel) (b fuel) room left last s)
      (fun fuel room s => Run.rounds (c' fuel) (b' fuel) room fuel last s) := by
  induction left generalizing last with
  | zero => exact fun _ _ _ r t _ hr => absurd hr.symm (Outcome.ended_ne_exhausted r t)
  | succ left ih =>
    have hround := choose hc (bind hb ih) (pure last)
    intro fuel s s' r t hs hr
    simp only [rounds_succ] at hr
    obtain ⟨r', t', hn, halike⟩ := hround fuel s s' r t hs hr
    exact ⟨r', t', .rounds hmc hmb hn, halike⟩

theorem loop (hc : Covers c c') (hb : Covers b b') (hmc : ∀ i j, i ≤ j → Below (c' i) (c' j))
    (hmb : ∀ i j, i ≤ j → Below (b' i) (b' j)) :
    Covers (fun fuel => .loop fuel (c fuel) (b fuel))
      (fun fuel => .loop fuel (c' fuel) (b' fuel)) :=
  fun fuel => rounds hc hb hmc hmb fuel (.bool false) fuel

theorem assignFrom (t : Value) (h : Covers m n) :
    Covers (fun fuel => .assignFrom t (m fuel)) (fun fuel => .assignFrom t (n fuel)) := by
  cases t with
  | symbol x =>
    refine bind h fun v => of_lockstep (.assignFrom ?_ (.pure rfl))
    rintro s s' v _ hs rfl
    exact hs.assign x v
  | _ => exact fail _

theorem printFrom (h : Covers m n) :
    Covers (fun fuel => .printFrom (m fuel)) (fun fuel => .printFrom (n fuel)) := by
  refine bind h fun v => of_lockstep (.printFrom ?_ (fun _ => .refl _) ?_ (.pure rfl))
  · rintro v _ rfl
    rfl
  · rintro s s' v _ hs rfl
    exact hs.note rfl

end Values

end Run.Covers

end PocketLisp
