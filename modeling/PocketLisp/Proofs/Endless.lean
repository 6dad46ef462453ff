import PocketLisp.Proofs.Frame
import PocketLisp.Proofs.Loop

/-!
# Loops without assignments

A loop that cannot reach an assignment comes back to the environment that it started from, so its
second round would go as its first one did. It is left in the first round or never.

* `eval_env_of_targets_eq_nil`: an expression without targets leaves the environment as it is.
* `Ends.of_env_eq`: how an expression ends depends on the environment alone, not on what happened
  before.
* `RoundsTo.env_eq`: rounds without assignments lead back to the environment of the start.
* `exists_roundsTo`: if such a loop goes through one round, it goes through any number of them.
* `ends_loop_of_targets_eq_nil`: how such a loop ends, and when it does not.
-/

namespace PocketLisp

theorem eval_env_of_targets_eq_nil {fuel : Nat} {room : Room} {e : Value} {s t : State}
    {r : Except Fault Value} (he : e.targets = []) (h : eval fuel e room s = .ended r t) :
    t.env = s.env := by
  refine eval_env_of_targets (P := (· = s.env)) (fun x hx => ?_) rfl h
  rw [he] at hx
  cases hx

namespace Ends

variable {e : Value} {s s' t : State} {r : Except Fault Value}

theorem env_eq (he : e.targets = []) (h : Ends (eval · e) s r t) : t.env = s.env := by
  obtain ⟨enough, hend⟩ := h
  exact eval_env_of_targets_eq_nil he (hend enough (Nat.le_refl _))

theorem of_env_eq (h : Ends (eval · e) s r t) (henv : s'.env = s.env) :
    ∃ t', Ends (eval · e) s' r t' := by
  obtain ⟨u, hu, -⟩ := h.fresh
  rw [← henv] at hu
  obtain ⟨t', ht', -⟩ := hu.of_fresh
  exact ⟨t', ht'⟩

end Ends

section Rounds

variable {c b : Value} (hc : c.targets = []) (hb : b.targets = [])
include hc hb

theorem RoundsTo.env_eq {s t : State} {n : Nat} {last : Value} (h : RoundsTo c b s n last t) :
    t.env = s.env := by
  induction h with
  | zero => rfl
  | succ _ hcond hbody ih => rw [hbody.env_eq hb, hcond.env_eq hc, ih]

theorem Leaves.env_eq {s t : State} {last : Value} {r : Except Fault Value}
    (h : Leaves c b last s r t) : t.env = s.env := by
  cases h with
  | finished hcond _ => exact hcond.env_eq hc
  | condition hcond => exact hcond.env_eq hc
  | body hcond hbody => rw [hbody.env_eq hb, hcond.env_eq hc]

/-- A loop without assignments that goes through one round goes through any number of rounds. The
induction is on that number: the next round starts in the environment of the first one. -/
theorem exists_roundsTo {s u w : State} {v : Value} (hcond : Ends (eval · c) s (.ok (.bool true)) u)
    (hbody : Ends (eval · b) u (.ok v) w) (n : Nat) : ∃ last t, RoundsTo c b s n last t := by
  induction n with
  | zero => exact ⟨_, s, .zero⟩
  | succ n ih =>
    obtain ⟨last, t, hrounds⟩ := ih
    obtain ⟨u', hcond'⟩ := hcond.of_env_eq (hrounds.env_eq hc hb)
    have henv : u'.env = u.env := by
      rw [hcond'.env_eq hc, hrounds.env_eq hc hb, hcond.env_eq hc]
    obtain ⟨w', hbody'⟩ := hbody.of_env_eq henv
    exact ⟨v, w', hrounds.succ hcond' hbody'⟩

/-- A loop without assignments is left before its first round is over. -/
theorem RoundsTo.eq_zero_of_leaves {s t u : State} {n : Nat} {last : Value} {r : Except Fault Value}
    (h : RoundsTo c b s n last t) (hleaves : Leaves c b last t r u) : n = 0 := by
  by_contra hn
  obtain ⟨last₁, s₁, u₁, v₁, w₁, hzero, hcond, hbody⟩ := h.exists_round (by omega : 0 < n)
  obtain ⟨-, rfl⟩ := hzero.unique .zero
  obtain ⟨last', t', hmore⟩ := exists_roundsTo hc hb hcond hbody (n + 1)
  have hle := h.le_of_leaves hleaves hmore
  omega

end Rounds

/-- **Loops without assignments.** If neither the condition nor the body reaches an assignment, the
loop ends exactly as it is left in its first round: with false because the condition gives something
else than true, with a fault of the condition, or with a fault of the body. Every name is then bound
as before. Where it ends with a value, that is false, and any other body in the place of the body
makes no difference. Where the condition gives true and then the body a value, the loop never ends.
The first round starts with the environment and the output of the state where the loop is
evaluated. -/
theorem ends_loop_of_targets_eq_nil (c b : Value) (extra : List Value) (hc : c.targets = [])
    (hb : b.targets = []) (s : State) :
    let loop (body : Value) : Value := .list (.symbol "while" :: c :: body :: extra)
    let start := s.note (.dispatched "while" (extra.length + 2))
    (start.env = s.env ∧ Event.outputText start.events = Event.outputText s.events) ∧
    (∀ r t, Ends (eval · (loop b)) s r t ↔ Leaves c b (.bool false) start r t) ∧
    (∀ r t, Ends (eval · (loop b)) s r t → ∀ x, t.env.get? x = s.env.get? x) ∧
    (∀ v t, Ends (eval · (loop b)) s (.ok v) t →
      v = .bool false ∧ ∀ body, Ends (eval · (loop body)) s (.ok v) t) ∧
    ∀ u v w, Ends (eval · c) start (.ok (.bool true)) u → Ends (eval · b) u (.ok v) w →
      Diverges (eval · (loop b)) s := by
  intro loop start
  have hiff (r : Except Fault Value) (t : State) :
      Ends (eval · (loop b)) s r t ↔ Leaves c b (.bool false) start r t := by
    refine ⟨fun h => ?_, fun h => ends_loop_iff_rounds.2 h.ends⟩
    obtain ⟨fuel, hfuel⟩ := ends_loop_iff_rounds.1 h
    obtain ⟨n, last, u, hrounds, hleaves⟩ :=
      RoundsTo.zero.exists_leaves (hfuel fuel (Nat.le_refl fuel))
    obtain rfl := hrounds.eq_zero_of_leaves hc hb hleaves
    obtain ⟨rfl, rfl⟩ := hrounds.unique .zero
    exact hleaves
  refine ⟨⟨rfl, ?_⟩, hiff, fun r t h x => ?_, fun v t h => ?_, ?_⟩
  · rw [State.events_note, Event.outputText_append]
    exact String.append_empty
  · rw [((hiff r t).1 h).env_eq hc hb]
    rfl
  · cases (hiff _ t).1 h with
    | finished hcond hv =>
      refine ⟨rfl, fun body => ends_loop_iff_rounds.2 ?_⟩
      have hleaves : Leaves c body (.bool false) start (.ok (.bool false)) t := .finished hcond hv
      exact hleaves.ends
  · intro u v w hcond hbody
    rcases eval_diverges_or_ends (loop b) s with hdiv | ⟨r, t, h⟩
    · exact hdiv
    · exact absurd ((hiff r t).1 h) fun hleaves => hleaves.not_round hcond hbody

/-- The value of `x` looks like an assignment, but it is only looked up. So the loop prints `y` for
ever; and with a body that fails, it ends in its first round and `x` has kept its value. -/
theorem ends_loop_of_targets_eq_nil_stored_assignment :
    let code : Value := .list [.symbol "set", .symbol "x", .int 1]
    let c : Value := .list [.symbol "=", .symbol "x", .list [.symbol "x"]]
    let b : Value := .list [.symbol "do", .symbol "x", .list [.symbol "print", .symbol "y"]]
    let b' : Value := .list [.symbol "+", .list [.symbol "print", .int 2], .symbol "x"]
    let s : State := { env := Env.empty.insert "x" code }
    (c.targets = [] ∧ b.targets = [] ∧ b'.targets = []) ∧
    Diverges (eval · (.list [.symbol "while", c, b])) s ∧
    ∃ t, Ends (eval · (.list [.symbol "while", c, b'])) s (.error (.eval (.mismatch .add))) t ∧
      t.env.get? "x" = some code := by
  intro code c b b' s
  have hc : c.targets = [] := by decide
  have hb : b.targets = [] := by decide
  have hb' : b'.targets = [] := by decide
  obtain ⟨u, v, w, t, hcond, hbody, hfails⟩ : ∃ u v w t,
      Ends (eval · c) (s.note (.dispatched "while" 2)) (.ok (.bool true)) u ∧
        Ends (eval · b) u (.ok v) w ∧ Ends (eval · b') u (.error (.eval (.mismatch .add))) t :=
    ⟨_, _, _, _, ⟨0, fun _ _ => rfl⟩, ⟨0, fun _ _ => rfl⟩, ⟨0, fun _ _ => rfl⟩⟩
  obtain ⟨-, -, -, -, hendless⟩ := ends_loop_of_targets_eq_nil c b [] hc hb s
  obtain ⟨-, hiff, hkept, -, -⟩ := ends_loop_of_targets_eq_nil c b' [] hc hb' s
  have hend := (hiff _ t).2 (.body hcond hfails)
  exact ⟨⟨hc, hb, hb'⟩, hendless u v w hcond hbody, t, hend, hkept _ t hend "x"⟩

end PocketLisp
