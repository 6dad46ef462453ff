import PocketLisp.Proofs.Observation
import PocketLisp.Proofs.Seam

/-!
# Texts in sequence

The expressions of a text are evaluated one after the other in one environment. So a text can be cut
where a newline stands between two expressions, and the parts evaluated one after the other; and a
text does the same as one sequence of its expressions.

* `Seen.andThen`: what can be seen of one part and then of another.
* `Seen.ofForest?_append`: a forest in two parts.
* `seen_seam`: a text in two parts, with a newline between them.
* `seen_sequence`: a text as one sequence.
-/

namespace PocketLisp

theorem Run.collect_append {α : Type} (ms ns : List (Run α)) :
    Run.collect (ms ++ ns) = Run.collect ms >>= fun vs => (vs ++ ·) <$> Run.collect ns := by
  induction ms with
  | nil => exact (id_map (Run.collect ns)).symm
  | cons m ms ih =>
    show (m >>= fun v => Run.collect (ms ++ ns) >>= fun vs => pure (v :: vs)) =
      (m >>= fun v => Run.collect ms >>= fun vs => pure (v :: vs)) >>=
        fun vs => (vs ++ ·) <$> Run.collect ns
    simp [ih]

namespace Seen

/-- What can be seen of a first part and, if that succeeded, of a second one in the environment that
the first one left: the values and the texts of both. -/
def andThen (first : Seen (List Value)) (second : Env → Option (Seen (List Value))) :
    Option (Seen (List Value)) :=
  match first.result with
  | .error _ => some first
  | .ok vs => (second first.env).map fun next =>
      ⟨next.result.map (vs ++ ·), next.env, first.printed ++ next.printed⟩

/-- A forest in two parts. -/
theorem ofForest?_append (fuel : Nat) (env : Env) (f g : Forest) :
    ofForest? fuel env (f ++ g) =
      (ofForest? fuel env f).bind fun first => first.andThen (ofForest? fuel · g) := by
  have hsplit : evalForest fuel (f ++ g) =
      evalForest fuel f >>= fun vs => (vs ++ ·) <$> evalForest fuel g := by
    simp only [evalForest, evalItems_eq_map, List.map_append, Run.collect_append]
  rw [ofForest?, ofForest?, hsplit, Run.bind_run]
  cases evalForest fuel f none { env := env } with
  | exhausted => rfl
  | failed e s => rfl
  | done vs s =>
    -- The second part starts where the first one stopped, with its text already printed.
    have hsecond := Run.seen_map (evalForest fuel g) (vs ++ ·) none s
    rw [seen_evalForest, Option.map_map] at hsecond
    exact hsecond

theorem ofForest?_singleton (fuel : Nat) (env : Env) (e : Value) :
    ofForest? fuel env [e] = (eval fuel e none { env := env }).seen?.map (map fun v => [v]) := by
  have hone : evalForest fuel [e] = (fun v => [v]) <$> eval fuel e := by
    show (eval fuel e >>= fun v => pure [] >>= fun vs => pure (v :: vs)) = _
    simp
  rw [ofForest?, hone, Run.seen_map]

/-- A forest that succeeds does so in both of its parts. -/
theorem ofForest?_append_ok {fuel : Nat} {env after : Env} {f g : Forest} {rs : List Value}
    {out : String} (h : ofForest? fuel env (f ++ g) = some ⟨.ok rs, after, out⟩) :
    ∃ vs ws mid out₁ out₂, rs = vs ++ ws ∧ ofForest? fuel env f = some ⟨.ok vs, mid, out₁⟩ ∧
      ofForest? fuel mid g = some ⟨.ok ws, after, out₂⟩ := by
  rw [ofForest?_append] at h
  obtain ⟨⟨r, mid, out₁⟩, hf, hthen⟩ := Option.bind_eq_some_iff.1 h
  cases r with
  | error e => cases hthen
  | ok vs =>
    obtain ⟨⟨r', last, out₂⟩, hg, hboth⟩ := Option.map_eq_some_iff.1 hthen
    cases r' with
    | error e => cases hboth
    | ok ws => cases hboth; exact ⟨vs, ws, mid, out₁, out₂, rfl, hf, hg⟩

theorem ofForest?_singleton_ok {fuel : Nat} {env after : Env} {e : Value} {rs : List Value}
    {out : String} (h : ofForest? fuel env [e] = some ⟨.ok rs, after, out⟩) :
    ∃ v, rs = [v] ∧ (eval fuel e none { env := env }).seen? = some ⟨.ok v, after, out⟩ := by
  rw [ofForest?_singleton] at h
  obtain ⟨⟨r, mid, out₁⟩, he, hmap⟩ := Option.map_eq_some_iff.1 h
  cases r with
  | error f => cases hmap
  | ok v => cases hmap; exact ⟨v, rfl, he⟩

theorem length_of_ofForest? {fuel : Nat} {env after : Env} {forest : Forest} {rs : List Value}
    {out : String} (h : ofForest? fuel env forest = some ⟨.ok rs, after, out⟩) :
    rs.length = forest.length := by
  induction forest generalizing env rs out with
  | nil => cases h; rfl
  | cons e es ih =>
    rw [← List.singleton_append] at h
    obtain ⟨vs, ws, mid, out₁, out₂, rfl, he, hes⟩ := ofForest?_append_ok h
    obtain ⟨v, rfl, -⟩ := ofForest?_singleton_ok he
    rw [List.length_append, ih hes, List.length_singleton, List.length_cons, Nat.add_comm]

/-- The value of each tree of a forest is that of the tree in the environment that the trees before
it left. -/
theorem value_of_ofForest? {fuel : Nat} {env after : Env} {forest : Forest} {rs : List Value}
    {out : String} (h : ofForest? fuel env forest = some ⟨.ok rs, after, out⟩) {i : Nat}
    {e : Value} (he : forest[i]? = some e) :
    ∃ v before mid out₁ out₂, rs[i]? = some v ∧
      ofForest? fuel env (forest.take i) = some ⟨.ok (rs.take i), before, out₁⟩ ∧
      (eval fuel e none { env := before }).seen? = some ⟨.ok v, mid, out₂⟩ := by
  obtain ⟨hi, rfl⟩ := List.getElem?_eq_some_iff.1 he
  have hcut : forest = forest.take i ++ ([forest[i]] ++ forest.drop (i + 1)) := by
    rw [List.singleton_append, List.getElem_cons_drop, List.take_append_drop]
  rw [hcut] at h
  obtain ⟨vs, ws, before, out₁, _, rfl, htake, hrest⟩ := ofForest?_append_ok h
  obtain ⟨us, _, mid, out₂, _, rfl, hone, -⟩ := ofForest?_append_ok hrest
  obtain ⟨v, rfl, hv⟩ := ofForest?_singleton_ok hone
  have hlength : vs.length = i := by
    rw [length_of_ofForest? htake, List.length_take, Nat.min_eq_left (Nat.le_of_lt hi)]
  refine ⟨v, before, mid, out₁, out₂, ?_, ?_, hv⟩
  · simp [hlength]
  · rw [htake, ← hlength, List.take_left]

/-- A sequence gives the list of the values of its operands, and all else is as for the operands
alone. -/
theorem seen_eval_sequence (fuel : Nat) (env : Env) (forest : Forest) :
    (eval fuel (.list (.symbol "do" :: forest)) none { env := env }).seen? =
      (ofForest? fuel env forest).map (map .list) := by
  have hnoted := seen_evalForest fuel forest
    (({ env := env } : State).note (.dispatched "do" forest.length))
  have hforest : evalForest fuel forest = .collect (forest.map (eval fuel)) := by
    rw [evalForest, evalItems_eq_map]
  rw [eval_sequence, ← hforest]
  show Outcome.seen? ((Value.list <$> evalForest fuel forest) none
    (({ env := env } : State).note (.dispatched "do" forest.length))) = _
  rw [Run.seen_map, hnoted]
  show ((ofForest? fuel env forest).map (after "")).map _ = _
  cases ofForest? fuel env forest with
  | none => rfl
  | some x => rw [Option.map_some, after_empty]

end Seen

/-- **A seam.** Of two texts that can be read, with a newline between them, the same can be seen as
of the first text and then, if that succeeded, of the second one in the environment that the first
one left. If both succeed, the values of both are given; if one fails, its fault. -/
theorem seen_seam (fuel : Nat) (env : Env) (s₁ s₂ : String) (f₁ f₂ : Forest)
    (h₁ : (readText s₁).result = .ok f₁) (h₂ : (readText s₂).result = .ok f₂) :
    Seen.ofText? fuel env (s₁ ++ "\n" ++ s₂) =
      match Seen.ofText? fuel env s₁ with
      | none => none
      | some ⟨.error f, env₁, out₁⟩ => some ⟨.error f, env₁, out₁⟩
      | some ⟨.ok vs, env₁, out₁⟩ =>
        match Seen.ofText? fuel env₁ s₂ with
        | none => none
        | some ⟨.error f, env₂, out₂⟩ => some ⟨.error f, env₂, out₁ ++ out₂⟩
        | some ⟨.ok ws, env₂, out₂⟩ => some ⟨.ok (vs ++ ws), env₂, out₁ ++ out₂⟩ := by
  rw [Seen.ofText?_of_read (readText_seam h₁ h₂), Seen.ofText?_of_read h₁, Seen.ofForest?_append]
  simp only [Seen.ofText?_of_read h₂]
  cases Seen.ofForest? fuel env f₁ with
  | none => rfl
  | some first =>
    obtain ⟨r, env₁, out₁⟩ := first
    cases r with
    | error f => rfl
    | ok vs =>
      show (Seen.ofForest? fuel env₁ f₂).map _ = _
      cases hsecond : Seen.ofForest? fuel env₁ f₂ with
      | none => simp [hsecond]
      | some next =>
        obtain ⟨r', env₂, out₂⟩ := next
        cases r' <;> simp [hsecond, Except.map]

/-- The second text fails after it has bound what the first one bound before. -/
theorem seen_seam_second_fails :
    let s₁ := "(set x 1) (print x)"
    let s₂ := "(set x (+ x 1)) (y)"
    (readText s₁).result = .ok [.list [.symbol "set", .symbol "x", .int 1],
      .list [.symbol "print", .symbol "x"]] ∧
    (readText s₂).result = .ok [.list [.symbol "set", .symbol "x",
      .list [.symbol "+", .symbol "x", .int 1]], .list [.symbol "y"]] ∧
    Seen.ofText? 0 .empty (s₁ ++ "\n" ++ s₂) =
      some ⟨.error (.eval (.unbound "y")), Env.empty.insert "x" (.int 2), "Int(1)\n"⟩ := by
  intro s₁ s₂
  have h₁ : (readText "(set x 1) (print x)").result = .ok [
      .list [.symbol "set", .symbol "x", .int 1], .list [.symbol "print", .symbol "x"]] := by with_unfolding_all rfl
  have h₂ : (readText "(set x (+ x 1)) (y)").result = .ok [.list [.symbol "set", .symbol "x",
      .list [.symbol "+", .symbol "x", .int 1]], .list [.symbol "y"]] := by with_unfolding_all rfl
  have hfirst : Seen.ofText? 0 .empty s₁ =
      some ⟨.ok [.int 1, .int 1], Env.empty.insert "x" (.int 1), "Int(1)\n"⟩ :=
    (Seen.ofText?_of_read h₁ 0 _).trans (Outcome.seen?_of_ended rfl rfl (by decide +kernel))
  have hsecond : Seen.ofText? 0 (Env.empty.insert "x" (.int 1)) s₂ =
      some ⟨.error (.eval (.unbound "y")), Env.empty.insert "x" (.int 2), ""⟩ :=
    (Seen.ofText?_of_read h₂ 0 _).trans (Outcome.seen?_of_ended rfl rfl (by decide +kernel))
  refine ⟨h₁, h₂, ?_⟩
  rw [seen_seam 0 .empty s₁ s₂ _ _ h₁ h₂, hfirst]
  simp only [hsecond]
  rfl

/-- **A sequence.** Of a text that can be read the same can be seen as of the one sequence of its
expressions: the sequence gives the list of their values, or fails as they do. There is one value
for each expression, in order: that of the expression in the environment that those before it
left. The depth of nesting is not bounded here. Within a bound each of the two may run out of room
instead, and the sequence does so earlier, since its expressions are nested three frames deeper. -/
theorem seen_sequence (fuel : Nat) (env : Env) (s : String) (forest : Forest)
    (h : (readText s).result = .ok forest) :
    Seen.ofText? fuel env ("(do " ++ s ++ "\n)") =
      (match Seen.ofText? fuel env s with
      | none => none
      | some ⟨.error f, after, out⟩ => some ⟨.error f, after, out⟩
      | some ⟨.ok rs, after, out⟩ => some ⟨.ok [.list rs], after, out⟩) ∧
    ∀ rs after out, Seen.ofText? fuel env s = some ⟨.ok rs, after, out⟩ →
      rs.length = forest.length ∧
      ∀ i e, forest[i]? = some e →
        ∃ v before mid out₁ out₂, rs[i]? = some v ∧
          Seen.ofForest? fuel env (forest.take i) = some ⟨.ok (rs.take i), before, out₁⟩ ∧
          (eval fuel e none { env := before }).seen? = some ⟨.ok v, mid, out₂⟩ := by
  rw [Seen.ofText?_of_read (readText_wrapped h), Seen.ofText?_of_read h,
    Seen.ofForest?_singleton, Seen.seen_eval_sequence]
  refine ⟨?_, fun rs after out hs => ⟨Seen.length_of_ofForest? hs, fun i e he => ?_⟩⟩
  · cases Seen.ofForest? fuel env forest with
    | none => rfl
    | some x =>
      obtain ⟨r, after, out⟩ := x
      cases r <;> rfl
  · exact Seen.value_of_ofForest? hs he

/-- Three expressions, of which the second one prints and the third one reads what the first one
bound. -/
theorem seen_sequence_three :
    let s := "(set x 2)\n(print (+ x 1)) x"
    (readText s).result = .ok [.list [.symbol "set", .symbol "x", .int 2],
      .list [.symbol "print", .list [.symbol "+", .symbol "x", .int 1]], .symbol "x"] ∧
    Seen.ofText? 0 .empty ("(do " ++ s ++ "\n)") =
      some ⟨.ok [.list [.int 2, .int 3, .int 2]], Env.empty.insert "x" (.int 2), "Int(3)\n"⟩ := by
  intro s
  have h : (readText "(set x 2)\n(print (+ x 1)) x").result = .ok [
      .list [.symbol "set", .symbol "x", .int 2],
      .list [.symbol "print", .list [.symbol "+", .symbol "x", .int 1]], .symbol "x"] := by
    with_unfolding_all rfl
  have hseen : Seen.ofText? 0 .empty s =
      some ⟨.ok [.int 2, .int 3, .int 2], Env.empty.insert "x" (.int 2), "Int(3)\n"⟩ :=
    (Seen.ofText?_of_read h 0 _).trans (Outcome.seen?_of_ended rfl rfl (by decide +kernel))
  refine ⟨h, ?_⟩
  rw [(seen_sequence 0 .empty s _ h).1, hseen]

end PocketLisp
