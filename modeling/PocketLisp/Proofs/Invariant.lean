import PocketLisp.Proofs.Triple

/-!
# Invariants of runs

A run keeps an invariant if, from every state where it holds, it leaves one where it holds, however
the run ends and whatever room there is.

* `Run.Keeps I Q F m`: from states in `I`, the run ends with a value in `Q` or a fault in `F`, in a
  state in `I` again. Where depth is bounded, it may also fail for want of room, and only there.

Each rule is that of triples with the invariant on both sides. The rules for the runs that change
the state ask that the change keeps the invariant.
-/

namespace PocketLisp

variable {α β : Type}

/-- From states in `I`, whatever room there is, `m` ends with a value in `Q` or a fault in `F`, and
in a state in `I` again. Where the room is bounded it may also end for want of room. -/
def Run.Keeps (I : State → Prop) (Q : α → Prop) (F : Fault → Prop) (m : Run α) : Prop :=
  ∀ room, Run.Triple True room I m (fun a s => Q a ∧ I s)
    fun f s => (room ≠ none ∧ f = .eval .tooDeep ∨ F f) ∧ I s

theorem Run.Keeps.of_ended {I : State → Prop} {Q : α → Prop} {F : Fault → Prop} {m : Run α}
    (h : Run.Keeps I Q F m) {room : Room} {s t : State} {r : Except Fault α} (hs : I s)
    (hr : m room s = .ended r t) : I t ∧
      match r with
      | .ok a => Q a
      | .error f => room ≠ none ∧ f = .eval .tooDeep ∨ F f := by
  have hends := (h room).of_ended hs hr
  cases r <;> exact hends.symm

namespace Run.Keeps

variable {I : State → Prop} {F : Fault → Prop}

section General

variable {Q : α → Prop} {R : β → Prop} {m : Run α}

theorem pure {a : α} (h : Q a) : Keeps I Q F (pure a) := fun _ => .pure fun _ hs => ⟨h, hs⟩

theorem fail {f : Fault} (h : F f) : Keeps I Q F (.fail f) :=
  fun _ => .fail fun _ hs => ⟨.inr h, hs⟩

theorem imp {Q' : α → Prop} (h : Keeps I Q F m) (hQ : ∀ a, Q a → Q' a) : Keeps I Q' F m :=
  fun room => (h room).imp (fun _ hs => hs) (fun a _ hs => ⟨hQ a hs.1, hs.2⟩) fun _ _ hs => hs

theorem bind {k : α → Run β} (h : Keeps I Q F m) (hk : ∀ a, Q a → Keeps I R F (k a)) :
    Keeps I R F (m >>= k) :=
  fun room => (h room).bind fun a => .assume fun ha => hk a ha room

theorem deeper (frames : Nat) (h : Keeps I Q F m) : Keeps I Q F (.deeper frames m) := by
  refine fun room => .deeper (fun hroom _ hs => ⟨.inl ⟨hroom, rfl⟩, hs⟩) fun _ => ?_
  simpa only [ne_eq, Room.less_eq_none] using h (room.less frames)

theorem note {e : Event} (h : ∀ s, I s → I (s.note e)) : Keeps I (fun _ => True) F (.note e) :=
  fun _ => .note fun s hs => ⟨trivial, h s hs⟩

theorem notes {es : List Event} (h : ∀ e ∈ es, ∀ s, I s → I (s.note e)) :
    Keeps I (fun _ => True) F (.notes es) := by
  induction es with
  | nil => exact pure trivial
  | cons e es ih =>
    refine bind (note (h e List.mem_cons_self)) fun _ _ => ?_
    exact ih fun e' he' => h e' (List.mem_cons_of_mem e he')

theorem dispatch {head : String} {operands : Nat}
    (hI : ∀ s, I s → I (s.note (.dispatched head operands))) (h : Keeps I Q F m) :
    Keeps I Q F (.dispatch head operands m) :=
  deeper 1 (bind (note hI) fun _ _ => h)

theorem ofExcept {x : Except EvalFault α} (hok : ∀ a, x = .ok a → Q a)
    (herror : ∀ f, x = .error f → F (.eval f)) : Keeps I Q F (.ofExcept x) :=
  fun _ => .ofExcept (fun a ha _ hs => ⟨hok a ha, hs⟩) fun f hf _ hs => ⟨.inr (herror f hf), hs⟩

theorem collect {ι : Type} {es : List ι} {f : ι → Run α} (h : ∀ e ∈ es, Keeps I Q F (f e)) :
    Keeps I (fun as => ∀ a ∈ as, Q a) F (.collect (es.map f)) :=
  fun room => .collect fun e he => h e he room

end General

section Values

variable {Q C : Value → Prop} {x : String} {m : Run Value}

theorem choose {c y n : Run Value} (hc : Keeps I C F c) (hy : Keeps I Q F y)
    (hn : Keeps I Q F n) : Keeps I Q F (.choose c y n) :=
  fun room => (hc room).choose (.assume fun _ => hy room) fun _ _ => .assume fun _ => hn room

theorem loop {c b : Run Value} (hc : Keeps I C F c) (hb : Keeps I Q F b) (fuel : Nat)
    (hl : Q (.bool false)) : Keeps I Q F (.loop fuel c b) := by
  refine fun room => .loop trivial (fun s hs => ⟨hl, hs⟩) (fun last => .assume fun hlast => ?_)
    (fun last => .assume fun _ => hb room) fuel
  exact (hc room).imp (fun _ hs => hs) (fun _ _ hs => ⟨hlast, hs.2⟩) fun _ _ hs => hs

theorem symbolValue (hbound : ∀ s v, I s → s.env.get? x = some v → Q v)
    (hfree : ∀ s, I s → s.env.get? x = none → Q (.symbol x)) : Keeps I Q F (.symbolValue x) :=
  fun _ => .symbolValue (fun hroom _ hs => ⟨.inl ⟨hroom, rfl⟩, hs⟩)
    (fun s v _ hs hx => ⟨hbound s v hs hx, hs⟩) fun s hs hx => ⟨hfree s hs hx, hs⟩

theorem headValue (hbound : ∀ s v, I s → s.env.get? x = some v → Q v)
    (hfree : ∀ s, I s → s.env.get? x = none → F (.eval (.unbound x))) :
    Keeps I Q F (.headValue x) :=
  fun _ => .headValue (fun hroom _ hs => ⟨.inl ⟨hroom, rfl⟩, hs⟩)
    (fun s v _ hs hx => ⟨hbound s v hs hx, hs⟩) fun s hs hx => ⟨.inr (hfree s hs hx), hs⟩

theorem assignFrom (hI : ∀ s v, I s → Q v → I (s.assign x v)) (h : Keeps I Q F m) :
    Keeps I Q F (.assignFrom (.symbol x) m) :=
  fun room => (h room).assignFrom (fun hroom _ _ hs => ⟨.inl ⟨hroom, rfl⟩, hs.2⟩)
    fun v s hs => ⟨hs.1, hI s v hs.2 hs.1⟩

theorem printFrom (hF : ∀ v y, Q v → v.foreign? = some y → F (.eval (.unprintable y)))
    (hI : ∀ s v, I s → Q v → I (s.note (.printed v))) (h : Keeps I Q F m) :
    Keeps I Q F (.printFrom m) :=
  fun room => (h room).printFrom (fun hroom _ _ hs => ⟨.inl ⟨hroom, rfl⟩, hs.2⟩)
    (fun v s _ hs => ⟨hs.1, hI s v hs.2 hs.1⟩) fun v y _ hy hs => ⟨.inr (hF v y hs.1 hy), hs.2⟩

end Values

end Run.Keeps

end PocketLisp
