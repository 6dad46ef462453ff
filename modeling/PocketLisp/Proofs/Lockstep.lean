import Mathlib.Data.List.Forall2
import PocketLisp.Proofs.Triple

/-!
# Two runs in lockstep

A logic for statements about two runs at once. Two runs are in lockstep if, from related states,
they end in the same way: both with related values, both with related faults, or both cut off, and
in related states again. The depth of the second run is not bounded. That of the first one may be,
and then the first one may also fail for want of room.

* `Outcome.Matches I V F`: two outcomes that end in the same way. `I` relates the states, `V` the
  values and `F` the faults.
* `Run.Lockstep I V F m n`: from states that `I` relates, `m` runs out of room, or `m` and `n` end
  in the same way. `Run.Lockstep.unbounded`: if there is no bound, they do.
* `Run.Lockstep.diverge_or_end`: without fuel, two runs in lockstep both diverge or both end.

There is one rule for each way of putting runs together. The relation on states stands for
everything that is to be carried through a run, so the rules for the three runs that change the
state ask that the change keeps it.
-/

namespace PocketLisp

variable {α α' β β' : Type}

/-- Two outcomes with related values or related faults, and related states. -/
inductive Outcome.Matches (I : State → State → Prop) (V : α → β → Prop)
    (F : Fault → Fault → Prop) : Outcome α → Outcome β → Prop where
  | done {a b s t} (hv : V a b) (hs : I s t) : Matches I V F (.done a s) (.done b t)
  | failed {f g s t} (hf : F f g) (hs : I s t) : Matches I V F (.failed f s) (.failed g t)
  | exhausted : Matches I V F .exhausted .exhausted

namespace Outcome.Matches

variable {I : State → State → Prop} {V : α → β → Prop} {F : Fault → Fault → Prop}

theorem eq_exhausted {o : Outcome β} (h : Matches I V F (.exhausted : Outcome α) o) :
    o = .exhausted := by
  cases h; rfl

theorem ne_exhausted {r : Except Fault α} {s : State} {o : Outcome β}
    (h : Matches I V F (.ended r s) o) : o ≠ .exhausted := by
  rintro rfl
  cases r <;> cases h

theorem eq {o o' : Outcome α} (h : Matches Eq Eq Eq o o') : o = o' := by
  cases h with
  | done hv hs => rw [hv, hs]
  | failed hf hs => rw [hf, hs]
  | exhausted => rfl

theorem eq_of_ended {r r' : Except Fault α} {s t : State}
    (h : Matches I Eq Eq (.ended r s) (.ended r' t)) : r = r' ∧ I s t := by
  cases r <;> cases r' <;> cases h
  · next hf hs => exact ⟨congrArg _ hf, hs⟩
  · next hv hs => exact ⟨congrArg _ hv, hs⟩

end Outcome.Matches

/-- The run failed for want of room, so there was a bound on its depth. -/
def Outcome.OutOf (room : Room) (o : Outcome α) : Prop :=
  room ≠ none ∧ ∃ s, o = .failed (.eval .tooDeep) s

/-- From related states, `m` runs out of room, or `m` in any room and `n` without a bound end in the
same way. -/
def Run.Lockstep (I : State → State → Prop) (V : α → β → Prop) (F : Fault → Fault → Prop)
    (m : Run α) (n : Run β) : Prop :=
  ∀ room s t, I s t → (m room s).OutOf room ∨ (m room s).Matches I V F (n none t)

namespace Run.Lockstep

variable {I : State → State → Prop} {V : α → β → Prop} {W : α' → β' → Prop}
  {F : Fault → Fault → Prop}

theorem unbounded {m : Run α} {n : Run β} (h : Lockstep I V F m n) {s t : State} (hs : I s t) :
    (m none s).Matches I V F (n none t) :=
  (h none s t hs).resolve_left fun hout => hout.1 rfl

theorem pure {a : α} {b : β} (h : V a b) : Lockstep I V F (pure a) (pure b) :=
  fun _ _ _ hs => .inr (.done h hs)

theorem fail {f g : Fault} (h : F f g) : Lockstep I V F (.fail f) (.fail g) :=
  fun _ _ _ hs => .inr (.failed h hs)

theorem bind {m : Run α} {n : Run β} {k : α → Run α'} {l : β → Run β'}
    (h : Lockstep I V F m n) (hk : ∀ a b, V a b → Lockstep I W F (k a) (l b)) :
    Lockstep I W F (m >>= k) (n >>= l) := by
  intro room s t hs
  rw [bind_run, bind_run]
  rcases h room s t hs with ⟨hroom, u, hu⟩ | hm
  · exact .inl ⟨hroom, u, by rw [hu]⟩
  cases hm' : m room s <;> cases hn' : n none t <;> rw [hm', hn'] at hm <;> cases hm
  · next hv hs' => exact hk _ _ hv _ _ _ hs'
  · next hf hs' => exact .inr (.failed hf hs')
  · exact .inr .exhausted

theorem deeper {m : Run α} {n : Run β} (i j : Nat) (h : Lockstep I V F m n) :
    Lockstep I V F (.deeper i m) (.deeper j n) := by
  intro room s t hs
  by_cases hfits : room.Fits i
  · rw [deeper_of_fits hfits, deeper_none]
    refine (h (room.less i) s t hs).imp_left fun hout => ⟨?_, hout.2⟩
    exact fun hroom => hout.1 (Room.less_eq_none.2 hroom)
  · obtain ⟨hroom, hrun⟩ := deeper_of_not_fits hfits m s
    exact .inl ⟨hroom, s, hrun⟩

theorem note {e e' : Event} (h : ∀ s t, I s t → I (s.note e) (t.note e')) :
    Lockstep I (fun _ _ => True) F (.note e) (.note e') :=
  fun _ s t hs => .inr (.done trivial (h s t hs))

theorem dispatch {head head' : String} {i j : Nat} {m : Run α} {n : Run β}
    (hI : ∀ s t, I s t → I (s.note (.dispatched head i)) (t.note (.dispatched head' j)))
    (h : Lockstep I V F m n) : Lockstep I V F (.dispatch head i m) (.dispatch head' j n) :=
  deeper 1 1 (bind (note hI) fun _ _ _ => h)

theorem ofExcept {x : Except EvalFault α} {y : Except EvalFault β}
    (hok : ∀ a, x = .ok a → ∃ b, y = .ok b ∧ V a b)
    (herror : ∀ f, x = .error f → ∃ g, y = .error g ∧ F (.eval f) (.eval g)) :
    Lockstep I V F (.ofExcept x) (.ofExcept y) := by
  cases x with
  | ok a =>
    obtain ⟨b, rfl, hab⟩ := hok a rfl
    exact pure hab
  | error f =>
    obtain ⟨g, rfl, hfg⟩ := herror f rfl
    exact fail hfg

/-- Runs that go on in the same way on the truth value true and on nothing else. -/
theorem choose {V : Value → Value → Prop} {C : Value → Value → Prop} {c c' y y' n n' : Run Value}
    (hC : ∀ a b, C a b → (a = .bool true ↔ b = .bool true))
    (hc : Lockstep I C F c c') (hy : Lockstep I V F y y') (hn : Lockstep I V F n n') :
    Lockstep I V F (.choose c y n) (.choose c' y' n') := by
  refine bind hc fun a b hab => ?_
  by_cases ha : a = .bool true
  · obtain rfl := (hC a b hab).1 ha
    subst ha
    exact hy
  · have hb : b ≠ .bool true := fun hb => ha ((hC a b hab).2 hb)
    split
    · exact absurd rfl ha
    · exact hn

theorem rounds {V : Value → Value → Prop} {C : Value → Value → Prop} {c c' b b' : Run Value}
    (hC : ∀ a b, C a b → (a = .bool true ↔ b = .bool true))
    (hc : Lockstep I C F c c') (hb : Lockstep I V F b b') (fuel : Nat) {last last' : Value}
    (hl : V last last') :
    Lockstep I V F (fun room s => Run.rounds c b room fuel last s)
      (fun room s => Run.rounds c' b' room fuel last' s) := by
  induction fuel generalizing last last' with
  | zero => exact fun _ _ _ _ => .inr .exhausted
  | succ fuel ih =>
    intro room s t hs
    simp only [rounds_succ]
    -- A round is the choice between stopping and the body with the rounds that follow.
    refine choose hC hc ?_ (pure hl) room s t hs
    exact bind hb fun v w hvw => ih hvw

theorem loop {V : Value → Value → Prop} {C : Value → Value → Prop} {c c' b b' : Run Value}
    (hC : ∀ a b, C a b → (a = .bool true ↔ b = .bool true))
    (hc : Lockstep I C F c c') (hb : Lockstep I V F b b') (fuel : Nat)
    (hl : V (.bool false) (.bool false)) :
    Lockstep I V F (.loop fuel c b) (.loop fuel c' b') :=
  rounds hC hc hb fuel hl

theorem collect {ι : Type} {es : List ι} {f : ι → Run α} {g : ι → Run β}
    (h : ∀ e ∈ es, Lockstep I V F (f e) (g e)) :
    Lockstep I (List.Forall₂ V) F (.collect (es.map f)) (.collect (es.map g)) := by
  induction es with
  | nil => exact pure .nil
  | cons e es ih =>
    refine bind (h e List.mem_cons_self) fun a b hab => ?_
    refine bind (ih fun e' he' => h e' (List.mem_cons_of_mem _ he')) fun as bs habs => ?_
    exact pure (.cons hab habs)

theorem symbolValue {V : Value → Value → Prop} {x y : String}
    (h : ∀ s t, I s t → V ((s.env.get? x).getD (.symbol x)) ((t.env.get? y).getD (.symbol y))) :
    Lockstep I V F (.symbolValue x) (.symbolValue y) := by
  have hvalue (t : State) :
      Run.symbolValue y none t = .done ((t.env.get? y).getD (.symbol y)) t := by
    cases hy : t.env.get? y with
    | none => rw [symbolValue_of_unbound hy]; rfl
    | some w => rw [symbolValue_of_bound hy]; rfl
  intro room s t hs
  have hv := h s t hs
  rw [hvalue]
  cases hx : s.env.get? x with
  | none =>
    rw [hx] at hv
    rw [symbolValue_of_unbound hx]
    exact .inr (.done hv hs)
  | some v =>
    rw [hx] at hv
    rw [symbolValue_of_bound hx]
    exact deeper _ 0 (pure hv) room s t hs

theorem headValue {V : Value → Value → Prop} {x y : String}
    (hF : F (.eval (.unbound x)) (.eval (.unbound y)))
    (h : ∀ s t, I s t → Option.Rel V (s.env.get? x) (t.env.get? y)) :
    Lockstep I V F (.headValue x) (.headValue y) := by
  intro room s t hs
  have hrel := h s t hs
  cases hx : s.env.get? x <;> cases hy : t.env.get? y <;> rw [hx, hy] at hrel <;> cases hrel
  · rw [headValue_of_unbound hx, headValue_of_unbound hy]
    exact .inr (.failed hF hs)
  · next hv =>
    rw [headValue_of_bound hx, headValue_of_bound hy]
    exact deeper _ _ (pure hv) room s t hs

theorem assignFrom {V : Value → Value → Prop} {x y : String} {m n : Run Value}
    (hI : ∀ s t v w, I s t → V v w → I (s.assign x v) (t.assign y w)) (h : Lockstep I V F m n) :
    Lockstep I V F (.assignFrom (.symbol x) m) (.assignFrom (.symbol y) n) := by
  refine bind h fun v w hvw => ?_
  have hassign : Lockstep I (fun _ _ => True) F (.assign x v) (.assign y w) :=
    deeper _ _ fun _ s t hs => .inr (.done trivial (hI s t v w hs hvw))
  exact bind hassign fun _ _ _ => pure hvw

theorem printFrom {V : Value → Value → Prop} {m n : Run Value}
    (hV : ∀ v w, V v w → v.foreign? = w.foreign?)
    (hF : ∀ x, F (.eval (.unprintable x)) (.eval (.unprintable x)))
    (hI : ∀ s t v w, I s t → V v w → I (s.note (.printed v)) (t.note (.printed w)))
    (h : Lockstep I V F m n) : Lockstep I V F (.printFrom m) (.printFrom n) := by
  refine bind h fun v w hvw => ?_
  have hprint : Lockstep I (fun _ _ => True) F (.print v) (.print w) := by
    unfold Run.print Value.printed
    rw [← hV v w hvw]
    cases v.foreign? with
    | none => exact deeper _ _ (note fun s t hs => hI s t v w hs hvw)
    | some x => exact fail (hF x)
  exact bind hprint fun _ _ _ => pure hvw

/-- Runs that are in lockstep whatever the fuel both diverge or both end, in the same way. -/
theorem diverge_or_end {m : Nat → Run α} {n : Nat → Run β}
    (hm : ∀ i j, i ≤ j → Below (m i) (m j)) (hn : ∀ i j, i ≤ j → Below (n i) (n j))
    (h : ∀ fuel, Lockstep I V F (m fuel) (n fuel)) {s t : State} (hs : I s t) :
    (Diverges m s ∧ Diverges n t) ∨
    ∃ r r' s' t', Ends m s r s' ∧ Ends n t r' t' ∧
      (Outcome.ended r s').Matches I V F (Outcome.ended r' t') := by
  rcases diverges_or_ends hm s with hdiv | ⟨r, s', enough, hend⟩
  · refine .inl ⟨hdiv, fun fuel => ?_⟩
    have hmn := (h fuel).unbounded hs
    rw [hdiv fuel] at hmn
    exact hmn.eq_exhausted
  · have hmn := (h enough).unbounded hs
    rw [hend enough (Nat.le_refl _)] at hmn
    obtain ⟨r', t', hn'⟩ := Outcome.ended_of_ne_exhausted hmn.ne_exhausted
    rw [hn'] at hmn
    exact .inr ⟨r, r', s', t', ⟨enough, hend⟩, .of_run hn hn', hmn⟩

end Run.Lockstep

end PocketLisp
