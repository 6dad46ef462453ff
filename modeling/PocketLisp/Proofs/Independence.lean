import PocketLisp.Proofs.Frame
import PocketLisp.Proofs.Sequence

/-!
# Independent expressions

Expressions that bind nothing which the other one reads or binds may be evaluated in either order.

* `Independent`: neither expression binds what the other one reads, and they bind different names.
* `eval_get?_of_notMem_targets`: a name that is no target is bound as before.
* `eval_of_agree`: an expression has the same value, prints the same and binds the same in any
  environment that agrees on what it reads.
* `eval_commute`: independent expressions in either order.
-/

namespace PocketLisp

/-- Neither expression may bind a name that the other one may look up or bind. -/
structure Independent (e₁ e₂ : Value) : Prop where
  targets : ∀ x ∈ e₁.targets, x ∉ e₂.targets
  right : ∀ x ∈ e₁.targets, x ∉ e₂.reads
  left : ∀ x ∈ e₂.targets, x ∉ e₁.reads

section One

variable {fuel : Nat} {e v : Value} {a b : Env} {s : State}

theorem eval_get?_of_notMem_targets (h : eval fuel e none { env := a } = .done v s) {x : String}
    (hx : x ∉ e.targets) : s.env.get? x = a.get? x := by
  refine eval_env_of_targets (P := fun env => env.get? x = a.get? x) (r := .ok v) ?_ rfl h
  intro y hy env w henv
  have hne : x ≠ y := fun hxy => hx (hxy ▸ hy)
  exact (Env.get?_insert_ne env w hne).trans henv

/-- In an environment that agrees on what an expression reads it has the same value and log, and it
leaves every name bound alike or as it was. -/
theorem eval_of_agree (hab : ∀ x ∈ e.reads, a.get? x = b.get? x)
    (h : eval fuel e none { env := a } = .done v s) :
    ∃ t, eval fuel e none { env := b } = .done v t ∧ t.events = s.events ∧
      ∀ y, t.env.get? y = s.env.get? y ∨ (t.env.get? y = b.get? y ∧ s.env.get? y = a.get? y) := by
  have hlock := eval_lockstep (R := {x | x ∈ e.reads}) (a := a) (b := b) fuel e fun _ hx => hx
  have hmatch := hlock.unbounded (Paired.start hab)
  rw [h] at hmatch
  cases ht : eval fuel e none { env := b } with
  | exhausted => rw [ht] at hmatch; cases hmatch
  | failed f t => rw [ht] at hmatch; cases hmatch
  | done w t =>
    rw [ht] at hmatch
    cases hmatch with
    | done hv hst =>
      refine ⟨t, by rw [hv], congrArg List.reverse hst.log.symm, fun y => ?_⟩
      exact (hst.apart y).imp Eq.symm And.symm

end One

/-- Independent expressions that succeed one after the other do so in the other order, each with the
same value and log, and leave the same environment. -/
theorem Independent.swap {fuel : Nat} {e₁ e₂ v₁ v₂ : Value} (h : Independent e₁ e₂) {env : Env}
    {s₁ s₂ : State} (h₁ : eval fuel e₁ none { env := env } = .done v₁ s₁)
    (h₂ : eval fuel e₂ none { env := s₁.env } = .done v₂ s₂) :
    ∃ t₂ t₁, eval fuel e₂ none { env := env } = .done v₂ t₂ ∧
      eval fuel e₁ none { env := t₂.env } = .done v₁ t₁ ∧
      t₂.events = s₂.events ∧ t₁.events = s₁.events ∧ t₁.env = s₂.env := by
  have hreads₂ (x : String) (hx : x ∈ e₂.reads) : s₁.env.get? x = env.get? x :=
    eval_get?_of_notMem_targets h₁ fun hx' => h.right x hx' hx
  obtain ⟨t₂, ht₂, hevents₂, hapart₂⟩ := eval_of_agree hreads₂ h₂
  have hreads₁ (x : String) (hx : x ∈ e₁.reads) : env.get? x = t₂.env.get? x :=
    (eval_get?_of_notMem_targets ht₂ fun hx' => h.left x hx' hx).symm
  obtain ⟨t₁, ht₁, hevents₁, hapart₁⟩ := eval_of_agree hreads₁ h₁
  refine ⟨t₂, t₁, ht₂, ht₁, hevents₂, hevents₁, Env.ext_get? fun y => ?_⟩
  -- At most one of the expressions binds the name, so the other one passes it on.
  by_cases hy : y ∈ e₂.targets
  · have hy₁ : y ∉ e₁.targets := fun hy₁ => h.targets y hy₁ hy
    have hs₁ := eval_get?_of_notMem_targets h₁ hy₁
    have ht₁ := eval_get?_of_notMem_targets ht₁ hy₁
    rcases hapart₂ y with hsame | ⟨ht, hs⟩
    · rw [ht₁, hsame]
    · rw [ht₁, ht, hs, hs₁]
  · have hs₂ := eval_get?_of_notMem_targets h₂ hy
    have ht₂ := eval_get?_of_notMem_targets ht₂ hy
    rcases hapart₁ y with hsame | ⟨ht, hs⟩
    · rw [hsame, hs₂]
    · rw [ht, ht₂, hs₂, hs]

theorem Outcome.done_of_seen? {α : Type} {o : Outcome α} {a : α} {env : Env} {out : String}
    (h : o.seen? = some ⟨.ok a, env, out⟩) :
    ∃ s, o = .done a s ∧ s.env = env ∧ Event.outputText s.events = out := by
  cases o with
  | done b s => cases h; exact ⟨s, rfl, rfl, rfl⟩
  | failed f s => cases h
  | exhausted => cases h

theorem Seen.ofForest?_pair {fuel : Nat} {env mid after : Env} {e₁ e₂ v₁ v₂ : Value}
    {out₁ out₂ : String} (h₁ : (eval fuel e₁ none { env := env }).seen? = some ⟨.ok v₁, mid, out₁⟩)
    (h₂ : (eval fuel e₂ none { env := mid }).seen? = some ⟨.ok v₂, after, out₂⟩) :
    ofForest? fuel env [e₁, e₂] = some ⟨.ok [v₁, v₂], after, out₁ ++ out₂⟩ := by
  rw [← List.singleton_append, ofForest?_append, ofForest?_singleton, h₁]
  show (ofForest? fuel mid [e₂]).map _ = _
  rw [ofForest?_singleton, h₂]
  rfl

/-- **Independent expressions commute.** If one expression and then an independent one succeed, they
succeed in the other order from the same environment, with the same fuel: each has the same value
and prints the same text, and the environment left is the same. -/
theorem eval_commute (fuel : Nat) (env env₁ env₂ : Env) (e₁ e₂ v₁ v₂ : Value) (out₁ out₂ : String)
    (h : Independent e₁ e₂)
    (h₁ : (eval fuel e₁ none { env := env }).seen? = some ⟨.ok v₁, env₁, out₁⟩)
    (h₂ : (eval fuel e₂ none { env := env₁ }).seen? = some ⟨.ok v₂, env₂, out₂⟩) :
    Seen.ofForest? fuel env [e₁, e₂] = some ⟨.ok [v₁, v₂], env₂, out₁ ++ out₂⟩ ∧
    Seen.ofForest? fuel env [e₂, e₁] = some ⟨.ok [v₂, v₁], env₂, out₂ ++ out₁⟩ ∧
    ∃ mid, (eval fuel e₂ none { env := env }).seen? = some ⟨.ok v₂, mid, out₂⟩ ∧
      (eval fuel e₁ none { env := mid }).seen? = some ⟨.ok v₁, env₂, out₁⟩ := by
  obtain ⟨s₁, hs₁, rfl, rfl⟩ := Outcome.done_of_seen? h₁
  obtain ⟨s₂, hs₂, rfl, rfl⟩ := Outcome.done_of_seen? h₂
  obtain ⟨t₂, t₁, ht₂, ht₁, hevents₂, hevents₁, henv⟩ := h.swap hs₁ hs₂
  have hseen₂ : (eval fuel e₂ none { env := env }).seen? =
      some ⟨.ok v₂, t₂.env, Event.outputText s₂.events⟩ := by
    rw [ht₂, Outcome.seen?, hevents₂]
  have hseen₁ : (eval fuel e₁ none { env := t₂.env }).seen? =
      some ⟨.ok v₁, s₂.env, Event.outputText s₁.events⟩ := by
    rw [ht₁, Outcome.seen?, hevents₁, henv]
  exact ⟨Seen.ofForest?_pair h₁ h₂, Seen.ofForest?_pair hseen₂ hseen₁, t₂.env, hseen₂, hseen₁⟩

/-- A loop that prints and counts `i` up to `n`, and an assignment that prints `n` too. -/
theorem eval_commute_loop :
    let e₁ : Value := .list [.symbol "while", .list [.symbol "<", .symbol "i", .symbol "n"],
      .list [.symbol "set", .symbol "i",
        .list [.symbol "+", .list [.symbol "print", .symbol "i"], .int 1]]]
    let e₂ : Value := .list [.symbol "set", .symbol "m", .list [.symbol "print", .symbol "n"]]
    let env := (Env.empty.insert "i" (.int 0)).insert "n" (.int 2)
    let after := (env.insert "i" (.int 2)).insert "m" (.int 2)
    Independent e₁ e₂ ∧
    Seen.ofForest? 3 env [e₁, e₂] =
      some ⟨.ok [.int 2, .int 2], after, "Int(0)\nInt(1)\n" ++ "Int(2)\n"⟩ ∧
    Seen.ofForest? 3 env [e₂, e₁] =
      some ⟨.ok [.int 2, .int 2], after, "Int(2)\n" ++ "Int(0)\nInt(1)\n"⟩ := by
  intro e₁ e₂ env after
  have h : Independent e₁ e₂ := ⟨by decide, by decide, by decide⟩
  have h₁ : (eval 3 e₁ none { env := env }).seen? =
      some ⟨.ok (.int 2), env.insert "i" (.int 2), "Int(0)\nInt(1)\n"⟩ :=
    Outcome.seen?_of_ended rfl rfl (by decide +kernel)
  have h₂ : (eval 3 e₂ none { env := env.insert "i" (.int 2) }).seen? =
      some ⟨.ok (.int 2), after, "Int(2)\n"⟩ :=
    Outcome.seen?_of_ended rfl rfl (by decide +kernel)
  obtain ⟨hforth, hback, -⟩ := eval_commute 3 env _ after e₁ e₂ _ _ _ _ h h₁ h₂
  exact ⟨h, hforth, hback⟩

end PocketLisp
