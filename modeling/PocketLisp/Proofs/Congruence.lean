import PocketLisp.Proofs.Covering

/-!
# Equivalent expressions

Two expressions are equivalent if nothing that can be seen tells them apart, in any environment.
Then neither does anything that is put around them: the evaluation of a list evaluates its operands
and does not look at them. The one operand that is looked at is the target of an assignment.

* `Equivalent`: both diverge or both end alike, in every environment.
* `Equivalent.covers`, `Equivalent.of_covers`: equivalent expressions are those that cover each
  other, from any state.
* `Equivalent.list`: lists with equivalent operands.
* `Context`: an expression with a hole at an operand, at any depth.
* `Head.minOperands`, `Equivalent.surplus`: the operands beyond those that a head needs make no
  difference.
* `equivalent_congruence`: equivalence is a congruence.
-/

namespace PocketLisp

/-- In every environment both expressions diverge, or both end with the same value or with faults of
the same kind and wording, leave the same environment and print the same. -/
def Equivalent (e₁ e₂ : Value) : Prop :=
  ∀ env : Env,
    (Diverges (eval · e₁) { env := env } ∧ Diverges (eval · e₂) { env := env }) ∨
    ∃ r₁ r₂ t₁ t₂, Ends (eval · e₁) { env := env } r₁ t₁ ∧ Ends (eval · e₂) { env := env } r₂ t₂ ∧
      (Outcome.ended r₁ t₁).Alike (.ended r₂ t₂)

theorem Outcome.Alike.ahead {α : Type} {r r' : Except Fault α} {s s' t t' : State} {out : String}
    (h : (Outcome.ended r t).Alike (.ended r' t')) (hs : Ahead out s t) (hs' : Ahead out s' t') :
    (Outcome.ended r s).Alike (.ended r' s') := by
  have hstate (ht : t.Alike t') : s.Alike s' := by
    refine ⟨?_, ?_⟩
    · rw [hs.env, hs'.env, ht.env]
    · rw [hs.printed, hs'.printed, ht.printed]
  cases r <;> cases r' <;> cases h
  · next hf ht => exact .failed hf (hstate ht)
  · next hv ht => exact .done hv (hstate ht)

namespace Equivalent

variable {e₁ e₂ e₃ : Value}

theorem ends (h : Equivalent e₁ e₂) {env : Env} {r : Except Fault Value} {t : State}
    (he : Ends (eval · e₁) { env := env } r t) :
    ∃ r' t', Ends (eval · e₂) { env := env } r' t' ∧ (Outcome.ended r t).Alike (.ended r' t') := by
  rcases h env with ⟨hdiv, -⟩ | ⟨r₁, r₂, t₁, t₂, h₁, h₂, halike⟩
  · exact absurd he hdiv.not_ends
  · obtain ⟨rfl, rfl⟩ := he.unique h₁
    exact ⟨r₂, t₂, h₂, halike⟩

theorem covers (h : Equivalent e₁ e₂) : Run.Covers (eval · e₁) (eval · e₂) := by
  intro fuel s s' r t hs hr
  have hend : Ends (eval · e₁) s r t := .of_run (fun i j hij => eval_below hij e₁) hr
  -- Equivalence speaks of environments; what happened before in the two states is put in front.
  obtain ⟨u₁, hu₁, hahead₁⟩ := hend.fresh
  obtain ⟨r', u', hu', halike⟩ := h.ends hu₁
  rw [hs.env] at hu'
  obtain ⟨t₂, ht₂, hahead₂⟩ := hu'.of_fresh
  rw [← hs.printed] at hahead₂
  exact ⟨r', t₂, ht₂, halike.ahead hahead₁ hahead₂⟩

theorem of_covers (h : Run.Covers (eval · e₁) (eval · e₂))
    (h' : Run.Covers (eval · e₂) (eval · e₁)) : Equivalent e₁ e₂ := by
  intro env
  rcases eval_diverges_or_ends e₁ { env := env } with hdiv | ⟨r, t, hend⟩
  · refine .inl ⟨hdiv, ?_⟩
    rcases eval_diverges_or_ends e₂ { env := env } with hdiv' | ⟨r, t, enough, hend⟩
    · exact hdiv'
    · obtain ⟨r', t', hend', -⟩ := h' enough _ _ r t (.refl _) (hend enough (Nat.le_refl _))
      exact absurd hend' hdiv.not_ends
  · obtain ⟨enough, hfuel⟩ := hend
    obtain ⟨r', t', hend', halike⟩ := h enough _ _ r t (.refl _) (hfuel enough (Nat.le_refl _))
    exact .inr ⟨r, r', t, t', ⟨enough, hfuel⟩, hend', halike⟩

theorem refl (e : Value) : Equivalent e e := by
  intro env
  rcases eval_diverges_or_ends e { env := env } with hdiv | ⟨r, t, hend⟩
  · exact .inl ⟨hdiv, hdiv⟩
  · exact .inr ⟨r, r, t, t, hend, hend, .refl _⟩

theorem symm (h : Equivalent e₁ e₂) : Equivalent e₂ e₁ := by
  intro env
  rcases h env with ⟨h₁, h₂⟩ | ⟨r₁, r₂, t₁, t₂, h₁, h₂, halike⟩
  · exact .inl ⟨h₂, h₁⟩
  · exact .inr ⟨r₂, r₁, t₂, t₁, h₂, h₁, halike.symm⟩

theorem trans (h : Equivalent e₁ e₂) (h' : Equivalent e₂ e₃) : Equivalent e₁ e₃ := by
  intro env
  rcases h env with ⟨h₁, h₂⟩ | ⟨r₁, r₂, t₁, t₂, h₁, h₂, halike⟩
  · rcases h' env with ⟨-, h₃⟩ | ⟨r₂, r₃, t₂, t₃, h₂', -, -⟩
    · exact .inl ⟨h₁, h₃⟩
    · exact absurd h₂' h₂.not_ends
  · obtain ⟨r₃, t₃, h₃, halike'⟩ := h'.ends h₂
    exact .inr ⟨r₁, r₃, t₁, t₃, h₁, h₃, halike.trans halike'⟩

end Equivalent

/-! ## Lists -/

namespace Run.Covers

variable {es es' : List Value}

/-- A form whose operands are covered one by one. The target of an assignment is looked at, so it
has to be the same. -/
theorem form (f : Form) (h : List.Forall₂ (fun e e' => Covers (eval · e) (eval · e')) es es')
    (ht : f = .assign → es.head? = es'.head?) :
    Covers (fun fuel => f.run fuel es (es.map (eval fuel)))
      (fun fuel => f.run fuel es' (es'.map (eval fuel))) := by
  have hbelow (e : Value) (i j : Nat) (hij : i ≤ j) := eval_below hij e
  cases f with
  | conditional =>
    match h with
    | .nil | .cons _ .nil | .cons _ (.cons _ .nil) => exact fail _
    | .cons hc (.cons hy (.cons hn _)) => exact deeper 1 1 (choose hc hy hn)
  | loop =>
    match h with
    | .nil | .cons _ .nil => exact fail _
    | .cons hc (.cons hb _) => exact deeper 1 1 (loop hc hb (hbelow _) (hbelow _))
  | sequence => exact deeper 2 2 (map Value.list (collect h))
  | assign =>
    match h with
    | .nil | .cons _ .nil => exact fail _
    | .cons _ (.cons he _) =>
      obtain rfl := Option.some.inj (ht rfl)
      exact deeper 1 1 (assignFrom _ he)
  | print =>
    match h with
    | .nil => exact fail _
    | .cons he _ => exact deeper 1 1 (printFrom he)

theorem operator (o : Operator)
    (h : List.Forall₂ (fun e e' => Covers (eval · e) (eval · e')) es es') :
    Covers (fun fuel => o.run (es.map (eval fuel))) (fun fuel => o.run (es'.map (eval fuel))) := by
  match h with
  | .nil | .cons _ .nil => exact fail _
  | .cons hl (.cons hr _) => exact bind hl fun v => bind hr fun w => ofExcept (o.apply v w)

/-- A list whose operands are covered one by one. -/
theorem list {head : Value}
    (h : List.Forall₂ (fun e e' => Covers (eval · e) (eval · e')) es es')
    (ht : head = .symbol "set" → es.head? = es'.head?) :
    Covers (eval · (.list (head :: es))) (eval · (.list (head :: es'))) := by
  by_cases hhead : ∃ x, head = .symbol x
  · obtain ⟨x, rfl⟩ := hhead
    cases hx : Head.ofName x with
    | ordinary =>
      simp only [eval_ordinary _ _ hx]
      exact dispatch (headValue x)
    | operator o =>
      obtain rfl := Head.eq_name_of_operator hx
      simp only [eval_operator]
      exact dispatch (operator o h)
    | form f =>
      obtain rfl := Head.eq_name_of_form hx
      simp only [eval_form]
      exact dispatch (form f h fun hf => ht (by rw [hf]; rfl))
  · have hbad (x : String) : head ≠ .symbol x := fun hx => hhead ⟨x, hx⟩
    simp only [eval_badHead _ _ hbad]
    exact deeper 1 1 (deeper _ _ (fail _))

end Run.Covers

/-- Lists with the same head and equivalent operands are equivalent, if the target of an assignment
is the same. -/
theorem Equivalent.list {head : Value} {es es' : List Value} (h : List.Forall₂ Equivalent es es')
    (ht : head = .symbol "set" → es.head? = es'.head?) :
    Equivalent (.list (head :: es)) (.list (head :: es')) := by
  refine .of_covers (.list (h.imp fun _ _ he => he.covers) ht) (.list ?_ fun hset => (ht hset).symm)
  exact h.flip.imp fun _ _ he => Equivalent.covers (Equivalent.symm he)

/-- One operand of a list may be replaced by an equivalent one. -/
theorem Equivalent.operand {head : Value} {before : List Value} {e₁ e₂ : Value}
    (h : Equivalent e₁ e₂) (ht : head = .symbol "set" → before ≠ []) (after : List Value) :
    Equivalent (.list (head :: (before ++ e₁ :: after)))
      (.list (head :: (before ++ e₂ :: after))) := by
  have hsame (es : List Value) : List.Forall₂ Equivalent es es :=
    List.forall₂_same.2 fun e _ => .refl e
  refine .list (List.rel_append (hsame before) (.cons h (hsame after))) fun hset => ?_
  cases before with
  | nil => exact absurd rfl (ht hset)
  | cons e before => rfl

/-! ## Contexts -/

/-- An expression with a hole at an operand, at any depth. The target of an assignment is no place
for a hole. -/
inductive Context where
  | hole
  | operand (head : Value) (before : List Value) (inner : Context) (after : List Value)
      (notTarget : head = .symbol "set" → before ≠ [])

/-- The expression with `e` in the hole. -/
def Context.fill : Context → Value → Value
  | .hole, e => e
  | .operand head before inner after _, e => .list (head :: (before ++ inner.fill e :: after))

theorem Equivalent.fill {e₁ e₂ : Value} (h : Equivalent e₁ e₂) (C : Context) :
    Equivalent (C.fill e₁) (C.fill e₂) := by
  induction C with
  | hole => exact h
  | operand head before inner after notTarget ih => exact ih.operand notTarget after

/-! ## Surplus operands -/

/-- The number of operands that a head needs. An ordinary name needs none. -/
def Head.minOperands : Head → Nat
  | .form f => f.minOperands
  | .operator _ => Operator.minOperands
  | .ordinary => 0

/-- All forms but the sequence ignore the operands beyond those that they need. -/
theorem Form.run_surplus {f : Form} (hf : f ≠ .sequence) {needed : List Value}
    (h : needed.length = f.minOperands) (fuel : Nat) (extra : List Value) :
    f.run fuel (needed ++ extra) ((needed ++ extra).map (eval fuel)) =
      f.run fuel needed (needed.map (eval fuel)) := by
  cases f with
  | sequence => exact absurd rfl hf
  | conditional =>
    obtain ⟨c, y, n, rfl⟩ := List.length_eq_three.1 h
    rfl
  | loop =>
    obtain ⟨c, b, rfl⟩ := List.length_eq_two.1 h
    rfl
  | assign =>
    obtain ⟨t, e, rfl⟩ := List.length_eq_two.1 h
    rfl
  | print =>
    obtain ⟨e, rfl⟩ := List.length_eq_one_iff.1 h
    rfl

theorem Operator.run_surplus (o : Operator) {needed : List Value}
    (h : needed.length = Operator.minOperands) (fuel : Nat) (extra : List Value) :
    o.run ((needed ++ extra).map (eval fuel)) = o.run (needed.map (eval fuel)) := by
  obtain ⟨l, r, rfl⟩ := List.length_eq_two.1 h
  rfl

/-- The operands beyond those that a head needs may be any others, or none. -/
theorem Run.Covers.surplus {x : String} (hx : Head.ofName x ≠ .form .sequence)
    {needed : List Value} (h : needed.length = (Head.ofName x).minOperands)
    (extra extra' : List Value) :
    Covers (eval · (.list (.symbol x :: (needed ++ extra))))
      (eval · (.list (.symbol x :: (needed ++ extra')))) := by
  have hsame : List.Forall₂ (fun e e' => Covers (eval · e) (eval · e')) needed needed :=
    List.forall₂_same.2 fun e _ => (Equivalent.refl e).covers
  cases hhead : Head.ofName x with
  | ordinary =>
    simp only [eval_ordinary _ _ hhead]
    exact dispatch (headValue x)
  | operator o =>
    rw [hhead] at h
    obtain rfl := Head.eq_name_of_operator hhead
    simp only [eval_operator, o.run_surplus h]
    exact dispatch (operator o hsame)
  | form f =>
    rw [hhead] at h hx
    have hf : f ≠ .sequence := fun hf => hx (by rw [hf])
    obtain rfl := Head.eq_name_of_form hhead
    simp only [eval_form, Form.run_surplus hf h]
    exact dispatch (form f hsame fun _ => rfl)

/-- **Congruence.** Equivalence is an equivalence relation. An operand of a list may be replaced by
an equivalent expression, if it is not the target of an assignment, and so may a part at any depth
that is reached through such operands. The operands beyond those that a head needs may be added,
dropped or replaced by any others, except under a sequence, which evaluates all of them. -/
theorem equivalent_congruence :
    Equivalence Equivalent ∧
    (∀ (head : Value) (before after : List Value) (e₁ e₂ : Value),
      (head = .symbol "set" → before ≠ []) → Equivalent e₁ e₂ →
      Equivalent (.list (head :: (before ++ e₁ :: after)))
        (.list (head :: (before ++ e₂ :: after)))) ∧
    (∀ (C : Context) (e₁ e₂ : Value), Equivalent e₁ e₂ → Equivalent (C.fill e₁) (C.fill e₂)) ∧
    ∀ (x : String) (needed extra extra' : List Value), Head.ofName x ≠ .form .sequence →
      needed.length = (Head.ofName x).minOperands →
      Equivalent (.list (.symbol x :: (needed ++ extra)))
        (.list (.symbol x :: (needed ++ extra'))) := by
  refine ⟨⟨.refl, .symm, .trans⟩, ?_, ?_, ?_⟩
  · exact fun head before after e₁ e₂ ht h => h.operand ht after
  · exact fun C e₁ e₂ h => h.fill C
  · exact fun x needed extra extra' hx h =>
      .of_covers (.surplus hx h extra extra') (.surplus hx h extra' extra)

/-- A choice that always goes one way stands for what it chooses, as the first thing that is done in
every round of a loop; and what is printed may be followed by anything. -/
theorem equivalent_congruence_loop_body :
    let e₁ : Value := .list [.symbol "set", .symbol "x", .int 1]
    let e₂ : Value := .list [.symbol "if", .list [.symbol "=", .int 2, .int 2], e₁,
      .list [.symbol "f"]]
    let loop (e : Value) : Value := .list [.symbol "while",
      .list [.symbol "<", .symbol "i", .int 3],
      .list [.symbol "do", e, .list [.symbol "set", .symbol "i",
        .list [.symbol "+", .symbol "i", .int 1]]]]
    Equivalent e₁ e₂ ∧ Equivalent (loop e₁) (loop e₂) ∧
      Equivalent (.list [.symbol "print", e₂])
        (.list [.symbol "print", e₁, .list [], .symbol "y"]) := by
  intro e₁ e₂ loop
  have h : Equivalent e₁ e₂ := by
    intro env
    have hset (s : State) : Ends (eval · e₁) s (.ok (.int 1))
        ((s.note (.dispatched "set" 2)).assign "x" (.int 1)) := ⟨0, fun _ _ => rfl⟩
    have hif (s : State) : Ends (eval · e₂) s (.ok (.int 1))
        ((((s.note (.dispatched "if" 3)).note (.dispatched "=" 2)).note
          (.dispatched "set" 2)).assign "x" (.int 1)) := ⟨0, fun _ _ => rfl⟩
    exact .inr ⟨_, _, _, _, hset _, hif _, .done rfl ⟨rfl, rfl⟩⟩
  obtain ⟨hequiv, hoperand, hfill, hsurplus⟩ := equivalent_congruence
  refine ⟨h, ?_, ?_⟩
  · exact hfill (.operand (.symbol "while") [_] (.operand (.symbol "do") [] .hole [_] (by simp))
      [] (by simp)) e₁ e₂ h
  · have hprint := hoperand (.symbol "print") [] [] e₂ e₁ (by simp) (hequiv.symm h)
    exact hequiv.trans hprint (hsurplus "print" [e₁] [] [.list [], .symbol "y"] (by decide) rfl)

end PocketLisp
