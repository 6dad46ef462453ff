import PocketLisp.Proofs.BigStep.Complete

/-!
# The law of the loop

A loop goes through rounds: the condition gives true, then the body gives a value. It ends in the
first state where it cannot go through another round. Either the condition gives anything but true,
and then the value of the last round is the value of the loop; or the condition or the body fails,
and the loop with it.

* `RoundsTo c b s n last t`: `n` rounds lead from `s` to `t`, and the last of them gave `last`.
* `Leaves c b last s r t`: from `s` there is no further round; the loop ends with `r` and leaves
  `t`.
* `RoundsTo.exists_leaves`, `RoundsTo.ends`: a loop that ends has gone through rounds and is left,
  and the other way round.
* `RoundsTo.unique`, `RoundsTo.le_of_leaves`: rounds are determined, and there are no more of them
  behind a state where the loop is left.
* `ends_loop_iff`: the law.
-/

namespace PocketLisp

/-- `n` rounds of the loop lead from `s` to `t`: each time the condition gives true, and from the
state it leaves the body gives a value. `last` is the value of the last round, and false if there
was none. -/
inductive RoundsTo (c b : Value) (s : State) : Nat → Value → State → Prop where
  | zero : RoundsTo c b s 0 (.bool false) s
  | succ {n : Nat} {last v : Value} {t u w : State} (h : RoundsTo c b s n last t)
      (hc : Ends (eval · c) t (.ok (.bool true)) u) (hb : Ends (eval · b) u (.ok v) w) :
      RoundsTo c b s (n + 1) v w

/-- From `s` the loop goes through no further round, where `last` is the value of the round before.
It ends with the value or fault at the end, and leaves the state behind it. -/
inductive Leaves (c b last : Value) (s : State) : Except Fault Value → State → Prop where
  /-- The condition gives something else than true. -/
  | finished {v : Value} {t : State} (hc : Ends (eval · c) s (.ok v) t) (hv : v ≠ .bool true) :
      Leaves c b last s (.ok last) t
  /-- The condition fails. -/
  | condition {f : Fault} {t : State} (hc : Ends (eval · c) s (.error f) t) :
      Leaves c b last s (.error f) t
  /-- The condition gives true and the body fails. -/
  | body {f : Fault} {t u : State} (hc : Ends (eval · c) s (.ok (.bool true)) u)
      (hb : Ends (eval · b) u (.error f) t) : Leaves c b last s (.error f) t

section Law

variable {c b last last' v : Value} {s t t' u w : State} {r : Except Fault Value} {n m : Nat}

/-! ## From rounds to the loop -/

theorem Ends.round (hc : Ends (eval · c) s (.ok (.bool true)) t) (hb : Ends (eval · b) t (.ok v) u)
    (h : Ends ((Code.rounds c b v).run ·) u r w) : Ends ((Code.rounds c b last).run ·) s r w :=
  .rounds (fun _ _ hij => eval_below hij c) (fun _ _ hij => eval_below hij b)
    (.bind hc (.bind hb h))

theorem Leaves.ends (h : Leaves c b last s r t) : Ends ((Code.rounds c b last).run ·) s r t := by
  refine .rounds (fun _ _ hij => eval_below hij c) (fun _ _ hij => eval_below hij b) ?_
  cases h with
  | condition hc => exact hc.bind_error
  | body hc hb => exact .bind hc hb.bind_error
  | finished hc hv =>
    refine .bind hc ⟨0, fun fuel _ => ?_⟩
    split
    · exact absurd rfl hv
    · rfl

theorem RoundsTo.ends (h : RoundsTo c b s n last t)
    (hrest : Ends ((Code.rounds c b last).run ·) t r u) :
    Ends ((Code.rounds c b (.bool false)).run ·) s r u := by
  induction h with
  | zero => exact hrest
  | succ _ hc hb ih => exact ih (.round hc hb hrest)

/-! ## From the loop to rounds -/

/-- Rounds that have ended, behind some rounds, lead through more rounds to where the loop is left.
The induction is on the fuel that is left for rounds. -/
theorem RoundsTo.exists_leaves {fuel k : Nat} (h : RoundsTo c b s n last t)
    (hrun : Run.rounds (eval fuel c) (eval fuel b) none k last t = .ended r u) :
    ∃ m last' t', RoundsTo c b s m last' t' ∧ Leaves c b last' t' r u := by
  have hends {e : Value} {t u : State} {r : Except Fault Value}
      (hrun : eval fuel e none t = .ended r u) : Ends (eval · e) t r u :=
    .of_run (fun _ _ hij => eval_below hij e) hrun
  induction k generalizing n last t with
  | zero => exact absurd hrun.symm (Outcome.ended_ne_exhausted r u)
  | succ k ih =>
    rw [rounds_succ] at hrun
    rcases Run.ended_of_bind hrun with ⟨f, hc, rfl⟩ | ⟨v, t₁, hc, hrun⟩
    · exact ⟨n, last, t, h, .condition (hends hc)⟩
    split at hrun
    · rcases Run.ended_of_bind hrun with ⟨f, hb, rfl⟩ | ⟨w, t₂, hb, hrun⟩
      · exact ⟨n, last, t, h, .body (hends hc) (hends hb)⟩
      · exact ih (h.succ (hends hc) (hends hb)) hrun
    · next hv =>
      obtain ⟨rfl, rfl⟩ : r = .ok last ∧ u = t₁ := by
        cases r with
        | ok w => cases hrun; exact ⟨rfl, rfl⟩
        | error f => cases hrun
      exact ⟨n, last, t, h, .finished (hends hc) hv⟩

/-! ## The number of rounds -/

theorem RoundsTo.unique (h : RoundsTo c b s n last t) (h' : RoundsTo c b s n last' t') :
    last = last' ∧ t = t' := by
  induction h generalizing last' t' with
  | zero => cases h'; exact ⟨rfl, rfl⟩
  | succ _ hc hb ih =>
    obtain _ | ⟨h', hc', hb'⟩ := h'
    obtain ⟨-, rfl⟩ := ih h'
    obtain ⟨-, rfl⟩ := hc.unique hc'
    obtain ⟨hv, rfl⟩ := hb.unique hb'
    exact ⟨Except.ok.inj hv, rfl⟩

theorem RoundsTo.exists_round (h : RoundsTo c b s m last t) (hn : n < m) :
    ∃ last₁ t₁ u₁ v₁ w₁, RoundsTo c b s n last₁ t₁ ∧
      Ends (eval · c) t₁ (.ok (.bool true)) u₁ ∧ Ends (eval · b) u₁ (.ok v₁) w₁ := by
  induction h with
  | zero => omega
  | @succ m _ _ _ _ _ h hc hb ih =>
    by_cases hnm : n = m
    · subst hnm
      exact ⟨_, _, _, _, _, h, hc, hb⟩
    · exact ih (by omega)

theorem Leaves.not_round (h : Leaves c b last s r w) (hc : Ends (eval · c) s (.ok (.bool true)) t)
    (hb : Ends (eval · b) t (.ok v) u) : False := by
  cases h with
  | finished hc' hv =>
    obtain ⟨hv', -⟩ := hc'.unique hc
    exact hv (Except.ok.inj hv')
  | condition hc' => cases (hc'.unique hc).1
  | body hc' hb' =>
    obtain ⟨-, rfl⟩ := hc'.unique hc
    cases (hb'.unique hb).1

/-- Where the loop is left, it has gone through all its rounds. -/
theorem RoundsTo.le_of_leaves (h : RoundsTo c b s n last t) (hleaves : Leaves c b last t r u)
    (h' : RoundsTo c b s m last' t') : m ≤ n := by
  by_contra hlt
  obtain ⟨last₁, t₁, u₁, v₁, w₁, hn, hc, hb⟩ := h'.exists_round (by omega : n < m)
  obtain ⟨-, rfl⟩ := h.unique hn
  exact hleaves.not_round hc hb

end Law

theorem ends_loop_iff_rounds {c b : Value} {extra : List Value} {s t : State}
    {r : Except Fault Value} :
    Ends (eval · (.list (.symbol "while" :: c :: b :: extra))) s r t ↔
      Ends ((Code.rounds c b (.bool false)).run ·)
        (s.note (.dispatched "while" (extra.length + 2))) r t := by
  simp only [eval_loop]
  exact Iff.rfl

/-- **The law of the loop.** A loop ends exactly if some number of rounds leads from its start to a
state where it is left, and it ends with what it is left with there. The start has the environment
and the output of the state where the loop is evaluated. There is one such number of rounds. A
condition that gives anything but true, whatever its truth to the embedding program, ends the loop
with the value of the last round, and there are no more rounds. -/
theorem ends_loop_iff (c b : Value) (extra : List Value) (s : State) :
    let loop : Value := .list (.symbol "while" :: c :: b :: extra)
    let start := s.note (.dispatched "while" (extra.length + 2))
    (start.env = s.env ∧ Event.outputText start.events = Event.outputText s.events) ∧
    (∀ r t, Ends (eval · loop) s r t ↔
      ∃ n last u, RoundsTo c b start n last u ∧ Leaves c b last u r t) ∧
    (∀ n n' last last' u u' r r' t t', RoundsTo c b start n last u → Leaves c b last u r t →
      RoundsTo c b start n' last' u' → Leaves c b last' u' r' t' →
      n = n' ∧ last = last' ∧ u = u') ∧
    ∀ n last u v t, RoundsTo c b start n last u → Ends (eval · c) u (.ok v) t → v ≠ .bool true →
      Ends (eval · loop) s (.ok last) t ∧
        ∀ m last' u', RoundsTo c b start m last' u' → m ≤ n := by
  intro loop start
  have hof {n last u r t} (h : RoundsTo c b start n last u) (hleaves : Leaves c b last u r t) :
      Ends (eval · loop) s r t := ends_loop_iff_rounds.2 (h.ends hleaves.ends)
  refine ⟨⟨rfl, ?_⟩, fun r t => ⟨fun h => ?_, ?_⟩, ?_, ?_⟩
  · rw [State.events_note, Event.outputText_append]
    exact String.append_empty
  · obtain ⟨fuel, hfuel⟩ := ends_loop_iff_rounds.1 h
    exact RoundsTo.zero.exists_leaves (hfuel fuel (Nat.le_refl fuel))
  · rintro ⟨n, last, u, h, hleaves⟩
    exact hof h hleaves
  · intro n n' last last' u u' r r' t t' h hleaves h' hleaves'
    have hle := h'.le_of_leaves hleaves' h
    have hge := h.le_of_leaves hleaves h'
    obtain rfl : n = n' := by omega
    exact ⟨rfl, h.unique h'⟩
  · intro n last u v t h hc hv
    have hleaves : Leaves c b last u (.ok last) t := .finished hc hv
    exact ⟨hof h hleaves, fun m last' u' h' => h.le_of_leaves hleaves h'⟩

/-- One round, and then the condition gives seven, which is true only to the embedding program. -/
theorem ends_loop_iff_seven :
    let c : Value := .list [.symbol "if", .list [.symbol "<", .symbol "i", .int 1],
      .list [.symbol "=", .symbol "i", .symbol "i"], .int 7]
    let b : Value := .list [.symbol "set", .symbol "i", .list [.symbol "+", .symbol "i", .int 1]]
    let s : State := { env := Env.empty.insert "i" (.int 0) }
    ∃ u t, RoundsTo c b (s.note (.dispatched "while" 3)) 1 (.int 1) u ∧
      Ends (eval · c) u (.ok (.int 7)) t ∧ (Value.int 7).truthy = true ∧
      t.env = Env.empty.insert "i" (.int 1) ∧
      Ends (eval · (.list [.symbol "while", c, b, .symbol "i"])) s (.ok (.int 1)) t := by
  intro c b s
  obtain ⟨u, t, hround, hseven, henv⟩ : ∃ u t,
      RoundsTo c b (s.note (.dispatched "while" 3)) 1 (.int 1) u ∧
        Ends (eval · c) u (.ok (.int 7)) t ∧ t.env = Env.empty.insert "i" (.int 1) :=
    ⟨_, _, .succ .zero ⟨0, fun _ _ => rfl⟩ ⟨0, fun _ _ => rfl⟩, ⟨0, fun _ _ => rfl⟩, rfl⟩
  obtain ⟨-, -, -, hover⟩ := ends_loop_iff c b [.symbol "i"] s
  obtain ⟨hloop, -⟩ := hover 1 (.int 1) u (.int 7) t hround hseven (by simp)
  exact ⟨u, t, hround, hseven, rfl, henv, hloop⟩

end PocketLisp
