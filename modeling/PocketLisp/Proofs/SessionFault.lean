import PocketLisp.Proofs.WellFormed

/-!
# The faults of sessions

A session that starts with nothing bound and evaluates source texts fails with the faults of texts,
and with no others. What a text binds may come up again in any later one, so this rests on the
environment being well formed after every call, failed ones included.

* `Session.ofText_step`, `Session.ofText_run`: one call, and call after call.
* `Fault.textLabels`: the labels that these faults are reported under.
* `session_faults`: the faults of every call.
-/

namespace PocketLisp

/-- The labels under which the faults of texts are reported. The last one is that of an integer
literal with too many digits. -/
def Fault.textLabels : List String :=
  ["MlspLexError", "MlspParseError", "MlspStructureError", "MlspArityError", "MlspTypeError",
    "MlspOverflowError", "MlspInvalidSymbol", "MlspUnboundSymbol", "ValueError"]

theorem Fault.OfText.label_mem {f : Fault} (h : f.OfText) : f.kind.label ∈ textLabels := by
  cases h with
  | @lexical f h =>
    show f.kind.label ∈ _
    rw [h]
    decide
  | _ => simp [textLabels, Fault.kind, LexFault.kind, EvalFault.kind, Kind.label]

namespace Session

/-- The step: one call. Depth is not bounded, so it is no reason to fail. -/
theorem ofText_step {fuel : Nat} {session after : Session} {text : String} {reply : Reply}
    (henv : session.env.WellFormed Set.univ)
    (h : session.step fuel (.eval text) = some (reply, after)) {f : Fault}
    (hf : reply.answer = .error f) : f.OfText := by
  obtain ⟨r, s, hr, rfl, rfl⟩ := eq_of_perform h
  have hnames : ∀ x, Mentions text x → x ∈ Set.univ := fun x _ => Set.mem_univ x
  obtain ⟨-, hwell⟩ := (evalText_keeps fuel hnames).of_ended ⟨henv, by simp⟩ hr
  cases r with
  | ok vs => cases hf
  | error g =>
    cases hf
    exact (hwell.resolve_left fun hbound => hbound.1 rfl).ofText

/-- The run: call after call, each from the well-formed environment that the one before left. -/
theorem ofText_run {fuel : Nat} {session : Session} {texts : List String}
    {calls : List (Reply × Session)} (henv : session.env.WellFormed Set.univ)
    (h : session.run fuel (texts.map .eval) = some calls) :
    ∀ call ∈ calls, ∀ f, call.1.answer = .error f → f.OfText := by
  induction texts generalizing session calls with
  | nil => cases h; simp
  | cons text texts ih =>
    obtain ⟨reply, after, rest, hstep, hrest, rfl⟩ := run_cons_eq_some h
    have hcall := wellFormed_step (fun x _ => Set.mem_univ x) henv hstep
    intro call hmem f hf
    rcases List.mem_cons.1 hmem with rfl | hmem
    · exact ofText_step henv hstep hf
    · exact ih hcall.env hrest call hmem f hf

end Session

/-- **Faults of a session.** In a session that starts with nothing bound and evaluates texts, a call
that fails does so with a fault of a text: a lexical one, an unmatched parenthesis, an empty list or
a head that is no symbol, a missing operand, an operator on values that it is not defined on, an
overflow, an assignment to something that is no symbol, an unbound head, or an integer literal with
more digits than are converted. So no parenthesis is ever met in a tree, no token is stray, no name
is refused and no value that is printed has a foreign object in it. -/
theorem session_faults (fuel : Nat) (channel : Option String) (texts : List String)
    (calls : List (Reply × Session))
    (h : Session.run fuel { channel := channel } (texts.map .eval) = some calls) :
    calls.length = texts.length ∧
    ∀ call ∈ calls, ∀ f, call.1.answer = .error f →
      f.OfText ∧ f.kind.label ∈ Fault.textLabels ∧
      (∀ p, f ≠ .eval (.marker p)) ∧ (∀ v, f ≠ .parse (.stray v)) ∧ (∀ g, f ≠ .name g) ∧
      f.kind ≠ .hostType := by
  have hempty : Env.empty.WellFormed (mentioned []) := Env.wellFormed_empty
  refine ⟨(Session.wellFormed_run hempty h).1, fun call hcall f hf => ?_⟩
  have htext := Session.ofText_run Env.wellFormed_empty h call hcall f hf
  exact ⟨htext, htext.label_mem, htext.not_internal⟩

/-- Calls that fail in every way but one, after a list with a symbol in it was bound. -/
theorem session_faults_each_kind :
    let texts := ["(set x (do 1 y)) (print x)", "(x))", "(", "$", "()", "((x) 2)", "(if x 1)",
      "(+ x 1)", "(* 65536 65536)", "(set (x) 1)", "(y)"]
    ∃ calls, Session.run 0 {} (texts.map .eval) = some calls ∧
      calls.map (fun call => (match call.1.answer with
        | .ok _ => ""
        | .error f => f.kind.label)) =
        ["", "MlspParseError", "MlspParseError", "MlspLexError", "MlspStructureError",
          "MlspStructureError", "MlspArityError", "MlspTypeError", "MlspOverflowError",
          "MlspInvalidSymbol", "MlspUnboundSymbol"] ∧
      ∀ call ∈ calls, ∀ f, call.1.answer = .error f → f.OfText := by
  intro texts
  have hrun : (Session.run 0 {} (texts.map .eval)).map (fun calls => calls.map fun call =>
      match call.1.answer with
      | .ok _ => ""
      | .error f => f.kind.label) =
      some ["", "MlspParseError", "MlspParseError", "MlspLexError", "MlspStructureError",
        "MlspStructureError", "MlspArityError", "MlspTypeError", "MlspOverflowError",
        "MlspInvalidSymbol", "MlspUnboundSymbol"] := by
    decide +kernel
  obtain ⟨calls, h, hlabels⟩ := Option.map_eq_some_iff.1 hrun
  exact ⟨calls, h, hlabels, fun call hcall f hf =>
    ((session_faults 0 none texts calls h).2 call hcall f hf).1⟩

end PocketLisp
