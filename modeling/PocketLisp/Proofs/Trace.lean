import PocketLisp.Proofs.Frame
import PocketLisp.Proofs.Observation
import PocketLisp.Proofs.ReadingLaw

/-!
# The trace of a text

Evaluating a text leaves a trace: a record for every token taken off the text, then one record each
for the end of reading and for the start of evaluation, then a record for every list that is
evaluated. A text that cannot be read leaves the records of its tokens and nothing else.

* `lexerRecord`, `parserRecord`, `startRecord`, `dispatchRecord`: the four kinds of records.
* `readText_tokens`: the tokens that reading takes are all that scanning gives, unless a closing
  parenthesis is in surplus; then they end with it.
* `Forest.length_flatten`: the number of tokens of a forest, counted over its trees.
* `State.Evaluates s t`: from `s` to `t`, nothing was traced but lists that were evaluated.
* `evalText_trace`: the trace of a text.
-/

namespace PocketLisp

/-! ## Records -/

/-- The record of a token: its place and what it stands for. -/
def lexerRecord (t : Located) : String :=
  Event.record "mlsp.reader.lexer"
    ("line " ++ toString t.line ++ " pos " ++ toString t.pos ++ ": " ++ t.token.toValue.shown)

/-- The record of a text that was read. -/
def parserRecord (forms : Nat) : String :=
  Event.record "mlsp.reader.parser" ("parsed " ++ toString forms ++ " top-level form(s)")

/-- The record of an evaluation that begins. -/
def startRecord (forms : Nat) : String :=
  Event.record "mlsp.interpreter" ("evaluating " ++ toString forms ++ " form(s)")

/-- The record of a list that is evaluated: the symbol at its head and the number of operands. -/
def dispatchRecord (list : String × Nat) : String :=
  Event.record "mlsp.evaluation.evaluator"
    ("dispatch " ++ list.1 ++ " with " ++ toString list.2 ++ " operand(s)")

theorem trace_readingTrace (text : String) :
    Event.trace (readingTrace text) = (readText text).tokens.map lexerRecord := by
  rw [Event.trace, readingTrace, List.filterMap_map, ← List.filterMap_eq_map]
  rfl

theorem trace_startTrace (text : String) (forest : Forest) :
    Event.trace (startTrace text forest) =
      (readText text).tokens.map lexerRecord ++
        [parserRecord forest.length, startRecord forest.length] := by
  rw [startTrace, Event.trace_append, trace_readingTrace]
  rfl

/-! ## The tokens that reading takes -/

/-- Reading takes all tokens if none of them is refused. -/
theorem Cursor.readOn_tokens {c : Cursor} {b b' : Builder}
    (h : b.feedAll (stream c.tokens) = .ok b') (seen : List Located) :
    (c.readOn b seen).tokens = seen.reverse ++ c.tokens := by
  induction c using scanInduct generalizing b seen with
  | finish c d hnext => rw [readOn_of_finish b seen hnext, tokens_of_finish hnext]; simp
  | fault c f d hnext => rw [readOn_of_fault b seen hnext, tokens_of_fault hnext]; simp
  | token c t d hnext ih =>
    rw [tokens_of_token hnext, stream, List.map_cons, Builder.feedAll] at h
    cases hfeed : b.feed t.token.toValue with
    | error f => rw [hfeed] at h; cases h
    | ok b₁ =>
      rw [hfeed] at h
      rw [readOn_of_accepted b seen hnext hfeed, ih h, tokens_of_token hnext]
      simp

section Tokens

variable {text : String}

/-- Reading takes all tokens of a text, unless it stops at a surplus. -/
theorem readText_tokens (h : (readText text).result ≠ .error (.parse .surplusClose)) :
    (readText text).tokens = (Cursor.ofText text).tokens := by
  rcases readText_cases text with ⟨-, hresult⟩ | ⟨b, hfeed, -, -⟩
  · exact absurd hresult h
  · exact Cursor.readOn_tokens hfeed []

theorem readText_tokens_of_surplus (h : (readText text).result = .error (.parse .surplusClose)) :
    ∃ before t pre post, FirstSurplus text before t pre post ∧
      (readText text).tokens = before ++ [t] := by
  obtain ⟨before, t, pre, post, hfirst, hread, -⟩ := readText_stops (readText_eq_surplus_iff.1 h)
  exact ⟨before, t, pre, post, hfirst, by rw [hread]; rfl⟩

theorem readText_tokens_prefix (text : String) :
    (readText text).tokens <+: (Cursor.ofText text).tokens := by
  by_cases h : (readText text).result = .error (.parse .surplusClose)
  · obtain ⟨before, t, pre, post, hfirst, htokens⟩ := readText_tokens_of_surplus h
    obtain ⟨after, hafter⟩ := hfirst.tokens
    exact ⟨after, by rw [htokens, hafter]; simp⟩
  · exact readText_tokens h ▸ List.prefix_refl (readText text).tokens

end Tokens

/-! ## Counting tokens -/

namespace Forest

private theorem length_flatten_of {items : List Value}
    (h : ∀ v ∈ items, (flattenTree v).length =
      (shapeTree v).ints + (shapeTree v).symbols + 2 * (shapeTree v).lists) :
    (flatten items).length =
      (shape items).ints + (shape items).symbols + 2 * (shape items).lists := by
  induction items with
  | nil => rfl
  | cons v items ih =>
    have hv := h v List.mem_cons_self
    have hitems := ih fun w hw => h w (List.mem_cons_of_mem v hw)
    simp only [flatten, shape, List.length_append]
    omega

/-- An integer or a symbol is one token, and a list is two besides those of its items. -/
theorem length_flattenTree {v : Value} (h : v.Tree (·.isAtom = true)) :
    (flattenTree v).length =
      (shapeTree v).ints + (shapeTree v).symbols + 2 * (shapeTree v).lists := by
  induction h with
  | @leaf v h =>
    cases v with
    | int n => rfl
    | symbol x => rfl
    | _ => cases h
  | @list items _ ih =>
    have hitems := length_flatten_of ih
    simp only [flattenTree, shapeTree, List.cons_append, List.length_cons, List.length_append,
      List.length_nil]
    omega

theorem length_flatten {forest : Forest} (h : ∀ v ∈ forest, v.Tree (·.isAtom = true)) :
    (flatten forest).length =
      (shape forest).ints + (shape forest).symbols + 2 * (shape forest).lists :=
  length_flatten_of fun v hv => length_flattenTree (h v hv)

end Forest

theorem length_tokens_of_read {text : String} {forest : Forest}
    (h : (readText text).result = .ok forest) :
    (readText text).tokens.length = (Forest.shape forest).ints + (Forest.shape forest).symbols +
      2 * (Forest.shape forest).lists := by
  have htree : ∀ v ∈ forest, v.Tree (·.isAtom = true) := tree_of_readText h fun _ _ hatom => hatom
  rw [readText_tokens (by rw [h]; simp), ← Forest.length_flatten htree, flatten_of_readText h,
    textTokens, stream, List.length_map]

/-! ## Evaluation -/

/-- The event is one of evaluation, not of reading. -/
def Event.isEvaluation : Event → Bool
  | .dispatched .. | .bound .. | .printed _ => true
  | _ => false

/-- Of evaluation, only the lists that are evaluated are traced. -/
theorem Event.trace_of_isEvaluation {es : List Event} (h : ∀ e ∈ es, e.isEvaluation = true) :
    ∃ lists : List (String × Nat), trace es = lists.map dispatchRecord := by
  induction es with
  | nil => exact ⟨[], rfl⟩
  | cons e es ih =>
    obtain ⟨lists, hlists⟩ := ih fun e' he' => h e' (List.mem_cons_of_mem e he')
    have he := h e List.mem_cons_self
    rw [trace] at hlists ⊢
    cases e with
    | dispatched head operands =>
      exact ⟨(head, operands) :: lists, by rw [List.filterMap_cons, hlists]; rfl⟩
    | bound x v => exact ⟨lists, by rw [List.filterMap_cons, hlists]; rfl⟩
    | printed v => exact ⟨lists, by rw [List.filterMap_cons, hlists]; rfl⟩
    | _ => cases he

/-- From `s` to `t`, nothing happened but evaluation. -/
def State.Evaluates (s t : State) : Prop :=
  ∃ es, t.events = s.events ++ es ∧ ∀ e ∈ es, e.isEvaluation = true

namespace State.Evaluates

variable {s t : State}

theorem refl (s : State) : s.Evaluates s := ⟨[], by simp, by simp⟩

theorem note (h : s.Evaluates t) {e : Event} (he : e.isEvaluation = true) :
    s.Evaluates (t.note e) := by
  obtain ⟨es, hes, hall⟩ := h
  refine ⟨es ++ [e], by rw [State.events_note, hes, List.append_assoc], ?_⟩
  simpa [or_imp, forall_and, he] using hall

theorem assign (h : s.Evaluates t) (x : String) (v : Value) : s.Evaluates (t.assign x v) :=
  h.note rfl

end State.Evaluates

theorem evalForest_evaluates {fuel : Nat} {forest : Forest} {room : Room} {s t : State}
    {r : Except Fault (List Value)} (h : evalForest fuel forest room s = .ended r t) :
    s.Evaluates t := by
  have hkeeps : Run.Keeps s.Evaluates (fun _ => True) (fun _ => True)
      (.collect (forest.map (eval fuel))) := by
    refine .imp (.collect fun e _ => eval_keeps_of_targets fuel e ?_ ?_ ?_) fun _ _ => trivial
    · exact fun u head i hu => hu.note rfl
    · exact fun u v hu => hu.note rfl
    · exact fun x _ u v hu => hu.assign x v
  rw [← evalItems_eq_map] at hkeeps
  exact (hkeeps.of_ended (.refl s) h).1

/-- **The trace of a text.** The records of reading come first, one for each token taken off the
text, in order: a token stands at its place, which is behind that of the token before, and its line
is one more than the number of newlines before it. If the text cannot be read there are no others:
the tokens are all before the fault, or those up to a closing parenthesis in surplus and with it;
nothing is printed and nothing bound. If it can be read, there are as many tokens as the forest has
integers and symbols and twice as many as it has lists; one record says how many expressions there
are, another that their evaluation begins. From there the forest is evaluated, and if that ends, all
records that follow are of lists that are evaluated. -/
theorem evalText_trace (fuel : Nat) (room : Room) (env : Env) (text : String) :
    (∀ t ∈ (readText text).tokens, ∃ pre x post, (Cursor.ofText text).Stands pre x post t ∧
      t.pos = pre.length ∧ t.line = 1 + pre.count '\n') ∧
    ((readText text).tokens.Pairwise fun t u => t.pos < u.pos) ∧
    match (readText text).result with
    | .error f =>
      ∃ s, evalText fuel text room { env := env } = .failed f s ∧
        Event.trace s.events = (readText text).tokens.map lexerRecord ∧
        s.env = env ∧ Event.outputText s.events = "" ∧
        (f ≠ .parse .surplusClose → (readText text).tokens = (Cursor.ofText text).tokens) ∧
        (f = .parse .surplusClose → ∃ before t pre post, FirstSurplus text before t pre post ∧
          (readText text).tokens = before ++ [t])
    | .ok forest =>
      (readText text).tokens = (Cursor.ofText text).tokens ∧
      (readText text).tokens.length = (Forest.shape forest).ints + (Forest.shape forest).symbols +
        2 * (Forest.shape forest).lists ∧
      ∃ start : State, start.env = env ∧ Event.outputText start.events = "" ∧
        Event.trace start.events = (readText text).tokens.map lexerRecord ++
          [parserRecord forest.length, startRecord forest.length] ∧
        evalText fuel text room { env := env } = evalForest fuel forest room start ∧
        ∀ r s, evalForest fuel forest room start = .ended r s →
          ∃ lists : List (String × Nat),
            Event.trace s.events = Event.trace start.events ++ lists.map dispatchRecord := by
  have htaken := readText_tokens_prefix text
  refine ⟨fun t ht => ?_, (Cursor.pairwise_tokens _).sublist htaken.sublist, ?_⟩
  · obtain ⟨pre, x, post, hstands⟩ := Cursor.stands_of_mem_tokens (htaken.subset ht)
    exact ⟨pre, x, post, hstands, by simpa [Cursor.ofText] using hstands.pos, hstands.line⟩
  split
  · next f hread =>
    refine ⟨_, evalText_of_unread hread, ?_, rfl, ?_, fun hf => ?_, fun hf => ?_⟩
    · rw [State.events_noteAll]
      exact trace_readingTrace text
    · rw [State.events_noteAll]
      exact outputText_readingTrace text
    · refine readText_tokens fun h => hf ?_
      rw [hread] at h
      exact Except.error.inj h
    · exact readText_tokens_of_surplus (hf ▸ hread)
  · next forest hread =>
    refine ⟨readText_tokens (by rw [hread]; simp), length_tokens_of_read hread,
      _, rfl, ?_, ?_, evalText_of_read hread, fun r s hr => ?_⟩
    · rw [State.events_noteAll]
      exact outputText_startTrace text forest
    · rw [State.events_noteAll]
      exact trace_startTrace text forest
    · obtain ⟨es, hes, hall⟩ := evalForest_evaluates hr
      obtain ⟨lists, hlists⟩ := Event.trace_of_isEvaluation hall
      exact ⟨lists, by rw [hes, Event.trace_append, hlists]⟩

/-- A text that is read and fails in evaluation, and one that ends with a parenthesis in surplus
before a character that begins no token. -/
theorem evalText_trace_failing :
    let text := "(print\n x)\n(y)"
    (∃ s, evalText 0 text none {} = .failed (.eval (.unbound "y")) s ∧
      ∃ lists, Event.trace s.events =
        ["mlsp.reader.lexer: DEBUG: line 1 pos 0: Open",
          "mlsp.reader.lexer: DEBUG: line 1 pos 1: Symbol('print')",
          "mlsp.reader.lexer: DEBUG: line 2 pos 8: Symbol('x')",
          "mlsp.reader.lexer: DEBUG: line 2 pos 9: Close",
          "mlsp.reader.lexer: DEBUG: line 3 pos 11: Open",
          "mlsp.reader.lexer: DEBUG: line 3 pos 12: Symbol('y')",
          "mlsp.reader.lexer: DEBUG: line 3 pos 13: Close"] ++
        [parserRecord 2, startRecord 2] ++ List.map dispatchRecord lists) ∧
    ∃ s, evalText 0 "(set x 1))$" none {} = .failed (.parse .surplusClose) s ∧
      s.env = .empty ∧ Event.outputText s.events = "" ∧
      ∃ before t pre post, FirstSurplus "(set x 1))$" before t pre post ∧
        (readText "(set x 1))$").tokens = before ++ [t] := by
  intro text
  refine ⟨?_, ?_⟩
  · have hread : (readText "(print\n x)\n(y)").result = .ok [.list [.symbol "print", .symbol "x"],
        .list [.symbol "y"]] := by with_unfolding_all rfl
    have hrecords : (readText text).tokens.map lexerRecord =
        ["mlsp.reader.lexer: DEBUG: line 1 pos 0: Open",
          "mlsp.reader.lexer: DEBUG: line 1 pos 1: Symbol('print')",
          "mlsp.reader.lexer: DEBUG: line 2 pos 8: Symbol('x')",
          "mlsp.reader.lexer: DEBUG: line 2 pos 9: Close",
          "mlsp.reader.lexer: DEBUG: line 3 pos 11: Open",
          "mlsp.reader.lexer: DEBUG: line 3 pos 12: Symbol('y')",
          "mlsp.reader.lexer: DEBUG: line 3 pos 13: Close"] := by decide +kernel
    obtain ⟨s, hs⟩ : ∃ s, evalText 0 text none {} = .failed (.eval (.unbound "y")) s :=
      ⟨_, (evalText_of_read hread).trans rfl⟩
    have hlaw := (evalText_trace 0 none .empty text).2.2
    rw [hread] at hlaw
    obtain ⟨-, -, start, -, -, hstart, heval, hends⟩ := hlaw
    obtain ⟨lists, hlists⟩ := hends (.error (.eval (.unbound "y"))) s (heval.symm.trans hs)
    rw [hstart, hrecords] at hlists
    exact ⟨s, hs, lists, hlists⟩
  · have hread : (readText "(set x 1))$").result = .error (.parse .surplusClose) := by
      with_unfolding_all rfl
    have hlaw := (evalText_trace 0 none .empty "(set x 1))$").2.2
    rw [hread] at hlaw
    obtain ⟨s, hs, -, henv, hout, -, hfirst⟩ := hlaw
    exact ⟨s, hs, henv, hout, hfirst rfl⟩

end PocketLisp
