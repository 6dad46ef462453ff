import PocketLisp.Proofs.Fuel

/-!
# Triples

A logic for statements about one run. A triple says what a run does in a given room, from the states
of a precondition: it ends with a value and a state that the postcondition describes, or with a
fault and a state that are allowed, or it is cut off, if that is allowed too. A fault does not undo
anything, so the state that it leaves is described like any other.

* `Room.Fits`, `Room.less`: whether there is room for some frames, and what is left of it.
* `Outcome.Meets cut Q E`: an outcome with a value and a state in `Q`, or a fault and a state in
  `E`. If `cut` holds, the run may also have been cut off.
* `Run.Triple cut room P m Q E`: in `room`, from states in `P`, the outcomes of `m` meet that.

There is one rule for each way of putting runs together. Invariants, the effects of a run, its end
and the depth of its value are families of triples, and their rules come from those of this module.
-/

namespace PocketLisp

variable {α β : Type}

namespace Room

/-- There is room for so many frames more. -/
def Fits (room : Room) (frames : Nat) : Prop := ∀ n, room = some n → frames ≤ n

/-- The room that is left when so many frames are in use. -/
def less (room : Room) (frames : Nat) : Room := room.map (· - frames)

@[simp] theorem less_eq_none {room : Room} {frames : Nat} :
    room.less frames = none ↔ room = none := by
  simp [less]

theorem Fits.mono {room : Room} {i j : Nat} (h : room.Fits i) (hij : j ≤ i) : room.Fits j :=
  fun n hn => Nat.le_trans hij (h n hn)

theorem Fits.of_less {room : Room} {frames i : Nat} (h : (room.less frames).Fits i) :
    room.Fits i := by
  rintro n rfl
  have hi : i ≤ n - frames := h _ rfl
  omega

end Room

namespace Run

variable {room : Room} {frames : Nat}

theorem deeper_of_fits (h : room.Fits frames) (m : Run α) (s : State) :
    deeper frames m room s = m (room.less frames) s := by
  cases room with
  | none => rfl
  | some n =>
    rw [deeper, if_pos (h n rfl)]
    rfl

/-- Only a bounded room can be too small. -/
theorem deeper_of_not_fits (h : ¬ room.Fits frames) (m : Run α) (s : State) :
    room ≠ none ∧ deeper frames m room s = .failed (.eval .tooDeep) s := by
  cases room with
  | none => exact absurd (fun n hn => by cases hn) h
  | some n =>
    have hn : ¬ frames ≤ n := fun hn => h fun k hk => Option.some.inj hk ▸ hn
    exact ⟨Option.some_ne_none n, by rw [deeper, if_neg hn]⟩

end Run

/-- The value and the state are in `Q`, or the fault and the state are in `E`. -/
def Outcome.Meets (cut : Prop) (Q : α → State → Prop) (E : Fault → State → Prop) :
    Outcome α → Prop
  | .done a s => Q a s
  | .failed f s => E f s
  | .exhausted => cut

/-- In `room`, from states in `P`, the run ends with a value and a state in `Q`, with a fault and a
state in `E`, or, if `cut` holds, it is cut off. -/
def Run.Triple (cut : Prop) (room : Room) (P : State → Prop) (m : Run α) (Q : α → State → Prop)
    (E : Fault → State → Prop) : Prop :=
  ∀ s, P s → (m room s).Meets cut Q E

namespace Run.Triple

variable {cut : Prop} {room : Room} {P : State → Prop} {E : Fault → State → Prop}

section General

variable {Q : α → State → Prop} {R : β → State → Prop} {m : Run α}

theorem pure {a : α} (h : ∀ s, P s → Q a s) : Triple cut room P (pure a) Q E := h

theorem fail {f : Fault} (h : ∀ s, P s → E f s) : Triple cut room P (.fail f) Q E := h

theorem imp {P' : State → Prop} {Q' : α → State → Prop} {E' : Fault → State → Prop}
    (h : Triple cut room P m Q E) (hP : ∀ s, P' s → P s) (hQ : ∀ a s, Q a s → Q' a s)
    (hE : ∀ f s, E f s → E' f s) : Triple cut room P' m Q' E' := by
  intro s hs
  have hm := h s (hP s hs)
  cases hr : m room s with
  | done a t => rw [hr] at hm; exact hQ a t hm
  | failed f t => rw [hr] at hm; exact hE f t hm
  | exhausted => rw [hr] at hm; exact hm

theorem of_ended {s t : State} {r : Except Fault α} (h : Triple cut room P m Q E) (hs : P s)
    (hr : m room s = .ended r t) :
    match r with
    | .ok a => Q a t
    | .error f => E f t := by
  have hm := h s hs
  rw [hr] at hm
  cases r <;> exact hm

theorem exists_ended {s : State} (h : Triple False room P m Q E) (hs : P s) :
    ∃ r t, m room s = .ended r t := by
  refine Outcome.ended_of_ne_exhausted fun hcut => ?_
  have hm := h s hs
  rw [hcut] at hm
  exact hm

/-- What does not depend on the state may be taken out of the precondition. -/
theorem assume {p : Prop} (h : p → Triple cut room P m Q E) :
    Triple cut room (fun s => p ∧ P s) m Q E :=
  fun s hs => h hs.1 s hs.2

theorem bind {k : α → Run β} (h : Triple cut room P m Q E)
    (hk : ∀ a, Triple cut room (Q a) (k a) R E) : Triple cut room P (m >>= k) R E := by
  intro s hs
  have hm := h s hs
  rw [bind_run]
  cases hr : m room s with
  | done a t => rw [hr] at hm; exact hk a t hm
  | failed f t => rw [hr] at hm; exact hm
  | exhausted => rw [hr] at hm; exact hm

/-- Nesting deeper leaves less room, and says that there was enough for it. -/
theorem deeper {frames : Nat} (hdeep : room ≠ none → ∀ s, P s → E (.eval .tooDeep) s)
    (h : room.Fits frames → Triple cut (room.less frames) P m Q E) :
    Triple cut room P (.deeper frames m) Q E := by
  intro s hs
  by_cases hfits : room.Fits frames
  · rw [deeper_of_fits hfits]
    exact h hfits s hs
  · obtain ⟨hroom, hrun⟩ := deeper_of_not_fits hfits m s
    rw [hrun]
    exact hdeep hroom s hs

theorem note {e : Event} {Q : Unit → State → Prop} (h : ∀ s, P s → Q () (s.note e)) :
    Triple cut room P (.note e) Q E := h

theorem dispatch {head : String} {operands : Nat}
    (hdeep : room ≠ none → ∀ s, P s → E (.eval .tooDeep) s) {D : State → Prop}
    (hnote : ∀ s, P s → D (s.note (.dispatched head operands)))
    (h : room.Fits 1 → Triple cut (room.less 1) D m Q E) :
    Triple cut room P (.dispatch head operands m) Q E :=
  deeper hdeep fun hfits => bind (note hnote) fun _ => h hfits

theorem ofExcept {x : Except EvalFault α} (hok : ∀ a, x = .ok a → ∀ s, P s → Q a s)
    (herror : ∀ f, x = .error f → ∀ s, P s → E (.eval f) s) :
    Triple cut room P (.ofExcept x) Q E := by
  cases x with
  | ok a => exact pure (hok a rfl)
  | error f => exact fail (herror f rfl)

/-- Runs that keep `P` and give values in `Q`, one after the other. -/
theorem collect {ι : Type} {es : List ι} {f : ι → Run α} {Q : α → Prop}
    (h : ∀ e ∈ es, Triple cut room P (f e) (fun a s => Q a ∧ P s) E) :
    Triple cut room P (.collect (es.map f)) (fun as s => (∀ a ∈ as, Q a) ∧ P s) E := by
  induction es with
  | nil => exact pure fun s hs => ⟨by simp, hs⟩
  | cons e es ih =>
    refine bind (h e List.mem_cons_self) fun a => .assume fun ha => ?_
    refine bind (ih fun e' he' => h e' (List.mem_cons_of_mem e he')) fun as => .assume fun has => ?_
    exact pure fun s hs => ⟨List.forall_mem_cons.2 ⟨ha, has⟩, hs⟩

end General

section Values

variable {Q C : Value → State → Prop} {x : String} {v : Value}

theorem choose {c y n : Run Value} (hc : Triple cut room P c C E)
    (hy : Triple cut room (C (.bool true)) y Q E)
    (hn : ∀ v, v ≠ .bool true → Triple cut room (C v) n Q E) :
    Triple cut room P (.choose c y n) Q E := by
  refine bind hc fun v => ?_
  split
  · exact hy
  · next hv => exact hn v hv

/-- The rounds of a loop. Before each of them, `I` holds of the value of the last one. -/
theorem rounds {c b : Run Value} {I : Value → State → Prop} (hcut : cut)
    (hc : ∀ last, Triple cut room (I last) c (fun _ => I last) E)
    (hb : ∀ last, Triple cut room (I last) b I E) (fuel : Nat) (last : Value) :
    Triple cut room (I last) (fun room s => Run.rounds c b room fuel last s) I E := by
  induction fuel generalizing last with
  | zero => exact fun _ _ => hcut
  | succ fuel ih =>
    intro s hs
    simp only [rounds_succ]
    -- A round is the choice between stopping and the body with the rounds that follow.
    exact choose (hc last) (bind (hb last) ih) (fun _ _ => pure fun _ h => h) s hs

theorem loop {c b : Run Value} {I : Value → State → Prop} (hcut : cut)
    (hstart : ∀ s, P s → I (.bool false) s)
    (hc : ∀ last, Triple cut room (I last) c (fun _ => I last) E)
    (hb : ∀ last, Triple cut room (I last) b I E) (fuel : Nat) :
    Triple cut room P (.loop fuel c b) I E :=
  fun s hs => rounds hcut hc hb fuel (.bool false) s (hstart s hs)

/-- A value of the environment is copied, if there is room for that. -/
theorem copied {s : State} (hdeep : room ≠ none → E (.eval .tooDeep) s)
    (h : room.Fits (walk v + 1) → Q v s) :
    Triple cut room (· = s) (.deeper (walk v + 1) (Pure.pure v)) Q E :=
  deeper (fun hroom _ ht => ht ▸ hdeep hroom) fun hfits => pure fun _ ht => ht ▸ h hfits

theorem symbolValue (hdeep : room ≠ none → ∀ s, P s → E (.eval .tooDeep) s)
    (hbound : ∀ s v, room.Fits (walk v + 1) → P s → s.env.get? x = some v → Q v s)
    (hfree : ∀ s, P s → s.env.get? x = none → Q (.symbol x) s) :
    Triple cut room P (.symbolValue x) Q E := by
  intro s hs
  cases hx : s.env.get? x with
  | none => rw [symbolValue_of_unbound hx]; exact hfree s hs hx
  | some v =>
    rw [symbolValue_of_bound hx]
    exact copied (fun hroom => hdeep hroom s hs) (fun hfits => hbound s v hfits hs hx) s rfl

theorem headValue (hdeep : room ≠ none → ∀ s, P s → E (.eval .tooDeep) s)
    (hbound : ∀ s v, room.Fits (walk v + 1) → P s → s.env.get? x = some v → Q v s)
    (hfree : ∀ s, P s → s.env.get? x = none → E (.eval (.unbound x)) s) :
    Triple cut room P (.headValue x) Q E := by
  intro s hs
  cases hx : s.env.get? x with
  | none => rw [headValue_of_unbound hx]; exact hfree s hs hx
  | some v =>
    rw [headValue_of_bound hx]
    exact copied (fun hroom => hdeep hroom s hs) (fun hfits => hbound s v hfits hs hx) s rfl

theorem assign {Q : Unit → State → Prop}
    (hdeep : room ≠ none → ∀ s, P s → E (.eval .tooDeep) s)
    (h : ∀ s, P s → Q () (s.assign x v)) : Triple cut room P (.assign x v) Q E :=
  deeper hdeep fun _ => h

theorem print {Q : Unit → State → Prop}
    (hdeep : room ≠ none → ∀ s, P s → E (.eval .tooDeep) s)
    (h : v.foreign? = none → ∀ s, P s → Q () (s.note (.printed v)))
    (hforeign : ∀ y, v.foreign? = some y → ∀ s, P s → E (.eval (.unprintable y)) s) :
    Triple cut room P (.print v) Q E := by
  unfold Run.print Value.printed
  cases hv : v.foreign? with
  | none => exact deeper hdeep fun _ => note (h hv)
  | some y => exact fail (hforeign y hv)

theorem assignFrom {m : Run Value} (h : Triple cut room P m C E)
    (hdeep : room ≠ none → ∀ v s, C v s → E (.eval .tooDeep) s)
    (hassign : ∀ v s, C v s → Q v (s.assign x v)) :
    Triple cut room P (.assignFrom (.symbol x) m) Q E :=
  bind h fun v => bind (assign (fun hroom => hdeep hroom v) (hassign v)) fun _ =>
    pure fun _ hs => hs

theorem printFrom {m : Run Value} (h : Triple cut room P m C E)
    (hdeep : room ≠ none → ∀ v s, C v s → E (.eval .tooDeep) s)
    (hprint : ∀ v s, v.foreign? = none → C v s → Q v (s.note (.printed v)))
    (hforeign : ∀ v y s, v.foreign? = some y → C v s → E (.eval (.unprintable y)) s) :
    Triple cut room P (.printFrom m) Q E :=
  bind h fun v => bind (print (Q := fun _ => Q v) (fun hroom => hdeep hroom v)
    (fun hv s hs => hprint v s hv hs) fun y hy s hs => hforeign v y s hy hs) fun _ =>
    pure fun _ hs => hs

end Values

end Run.Triple

end PocketLisp
