import PocketLisp.Proofs.Parsing

/-!
# The law of reading

Reading takes tokens and builds trees at the same time, and stops at the first thing that is wrong.
It comes to the same as scanning the whole text first and looking at the tokens then.

* `Cursor.readOn_result`: the result of reading, from the tokens and the fault that scanning gives.
* `readText_stops`: reading that meets a closing parenthesis in surplus stops right behind it, and
  is the same whatever follows.
* `flatten_of_readText`, `tree_of_readText`: the forest that is read has the tokens of the text.
* `readText_law`: which of the faults of a text is reported, and what is read if there is none.
-/

namespace PocketLisp

/-- The values of the tokens, as a token stream. -/
def stream (ts : List Located) : List Value := ts.map (·.token.toValue)

theorem isList_of_mem_stream {ts : List Located} {v : Value} (h : v ∈ stream ts) :
    v.isList = false := by
  obtain ⟨t, -, rfl⟩ := List.mem_map.1 h
  cases t.token <;> rfl

theorem isStray_of_mem_stream {ts : List Located} {v : Value} (h : v ∈ stream ts) :
    v.isStray = false := by
  obtain ⟨t, -, rfl⟩ := List.mem_map.1 h
  cases t.token <;> rfl

namespace Cursor

/-! ## Reading along the scan -/

section Steps

variable {c d : Cursor} (b : Builder) (seen : List Located)

theorem readOn_of_finish (h : c.next = (.finish, d)) :
    c.readOn b seen = ⟨seen.reverse, d, b.finish.mapError .parse⟩ := by
  rw [readOn]
  split <;> rename_i h' <;> rw [h] at h' <;> cases h'
  rfl

theorem readOn_of_fault {f : LexFault} (h : c.next = (.fault f, d)) :
    c.readOn b seen = ⟨seen.reverse, d, .error (.lex f)⟩ := by
  rw [readOn]
  split <;> rename_i h' <;> rw [h] at h' <;> cases h'
  rfl

theorem readOn_of_accepted {t : Located} {b' : Builder} (h : c.next = (.token t, d))
    (hfeed : b.feed t.token.toValue = .ok b') : c.readOn b seen = d.readOn b' (t :: seen) := by
  rw [readOn]
  split <;> rename_i h' <;> rw [h] at h' <;> cases h'
  rw [hfeed]

theorem readOn_of_refused {t : Located} {f : ParseFault} (h : c.next = (.token t, d))
    (hfeed : b.feed t.token.toValue = .error f) :
    c.readOn b seen = ⟨(t :: seen).reverse, d, .error (.parse f)⟩ := by
  rw [readOn]
  split <;> rename_i h' <;> rw [h] at h' <;> cases h'
  rw [hfeed]

end Steps

/-- The result of reading: the first refusal among the tokens, else the fault that scanning stops
at, else what the finished builder says. -/
theorem readOn_result (c : Cursor) (b : Builder) (seen : List Located) :
    (c.readOn b seen).result =
      match b.feedAll (stream c.tokens) with
      | .error f => .error (.parse f)
      | .ok b' =>
        match c.fault? with
        | some f => .error (.lex f)
        | none => b'.finish.mapError .parse := by
  induction c using scanInduct generalizing b seen with
  | finish c d h => rw [readOn_of_finish b seen h, tokens_of_finish h, fault?_of_finish h]; rfl
  | fault c f d h => rw [readOn_of_fault b seen h, tokens_of_fault h, fault?_of_fault h]; rfl
  | token c t d h ih =>
    rw [tokens_of_token h, fault?_of_token h, stream, List.map_cons, Builder.feedAll]
    cases hfeed : b.feed t.token.toValue with
    | ok b' => rw [readOn_of_accepted b seen h hfeed]; exact ih b' (t :: seen)
    | error f => rw [readOn_of_refused b seen h hfeed]

/-- Reading from `c` stopped at the closing parenthesis `t`, which closes nothing: the tokens
`before` were taken before it, it stands behind `pre`, and nothing behind it was looked at. -/
structure StopsAt (c : Cursor) (b : Builder) (seen before : List Located) (t : Located)
    (pre : List Char) : Prop where
  tokens : ∃ after, c.tokens = before ++ t :: after
  closing : t.token = .paren .closing
  open_lists : ∃ b', b.feedAll (stream before) = .ok b' ∧ b'.below = []
  taken : (c.readOn b seen).tokens = seen.reverse ++ before ++ [t]
  rest : c.rest = pre ++ ')' :: (c.readOn b seen).cursor.rest
  place : t.pos = c.pos + pre.length
  pos : (c.readOn b seen).cursor.pos = c.pos + pre.length + 1
  line : (c.readOn b seen).cursor.line = c.line + pre.count '\n'
  blind : ∀ post, ({ c with rest := pre ++ ')' :: post } : Cursor).readOn b seen =
    { c.readOn b seen with cursor := { (c.readOn b seen).cursor with rest := post } }

/-- A refused parenthesis is where reading stops. -/
theorem StopsAt.here {c d : Cursor} {b : Builder} {t : Located} (seen : List Located)
    (h : c.next = (.token t, d)) (hfeed : b.feed t.token.toValue = .error .surplusClose) :
    ∃ pre, c.StopsAt b seen [] t pre := by
  have hread := readOn_of_refused b seen h hfeed
  obtain ⟨gap, x, tok, hpass, rfl, htok⟩ := next_token h
  obtain ⟨htok', hb⟩ : tok = .paren .closing ∧ b.below = [] := by
    rcases Builder.feed_error hfeed with ⟨ht, hb, -⟩ | hf
    · cases tok <;> cases ht
      exact ⟨rfl, hb⟩
    · cases hf.2
  subst htok'
  obtain rfl : x = .paren .closing := by
    rcases Lexeme.token_cases htok with ⟨p, rfl, hp⟩ | ⟨cs, -, hcs⟩ | ⟨cs, -, -, -, hcs⟩
    · cases hp; rfl
    · cases hcs
    · cases hcs
  refine ⟨gap, ⟨d.tokens, tokens_of_token h⟩, rfl, ⟨b, rfl, hb⟩, ?_, ?_, rfl, ?_, ?_,
    fun post => ?_⟩
  · rw [hread]; simp
  · rw [hread]; exact hpass.rest
  · rw [hread]; exact hpass.pos
  · rw [hread]; exact hpass.line
  · rw [hread]
    exact readOn_of_refused b seen ((hpass.congr post rfl).next htok) hfeed

/-- Where reading stops behind a token that was accepted is where it stops before the token. -/
theorem StopsAt.token {c d : Cursor} {b b' : Builder} {u t : Located} {seen before : List Located}
    {pre : List Char} (h : c.next = (.token u, d)) (hfeed : b.feed u.token.toValue = .ok b')
    (hstop : d.StopsAt b' (u :: seen) before t pre) :
    ∃ pre', c.StopsAt b seen (u :: before) t pre' := by
  have hread := readOn_of_accepted b seen h hfeed
  obtain ⟨gap, x, tok, hpass, rfl, htok⟩ := next_token h
  obtain ⟨after, hafter⟩ := hstop.tokens
  obtain ⟨b₁, hb₁, hbelow⟩ := hstop.open_lists
  refine ⟨gap ++ (x.spelling ++ pre), ⟨after, ?_⟩, hstop.closing, ⟨b₁, ?_, hbelow⟩, ?_, ?_, ?_,
    ?_, ?_, fun post => ?_⟩
  · rw [tokens_of_token h, hafter]; rfl
  · rw [stream, List.map_cons, Builder.feedAll, hfeed]; exact hb₁
  · rw [hread, hstop.taken]; simp
  · rw [hread, hpass.rest, List.append_assoc, List.append_assoc, ← hstop.rest]
  · rw [hstop.place, hpass.pos]; simp only [List.length_append]; omega
  · rw [hread, hstop.pos, hpass.pos]; simp only [List.length_append]; omega
  · rw [hread, hstop.line, hpass.line]; simp only [List.count_append, hpass.count_newline]; omega
  · have hends : x.endsBefore (pre ++ ')' :: post) = true := by
      rw [← Lexeme.endsBefore_of_take hpass.take, hstop.rest]
      apply Lexeme.endsBefore_congr
      cases pre <;> rfl
    rw [hread, ← hstop.blind post, List.append_assoc, List.append_assoc]
    exact readOn_of_accepted b seen ((hpass.congr _ hends).next htok) hfeed

/-- Reading that fails with a closing parenthesis in surplus stops at it. -/
theorem stopsAt_of_surplus {c : Cursor} {b : Builder} {seen : List Located}
    (h : (c.readOn b seen).result = .error (.parse .surplusClose)) :
    ∃ before t pre, c.StopsAt b seen before t pre := by
  induction c using scanInduct generalizing b seen with
  | finish c d hnext =>
    rw [readOn_of_finish b seen hnext] at h
    rcases b.finish_cases with ⟨-, hb⟩ | ⟨-, hb⟩ <;> simp only [hb] at h <;> cases h
  | fault c f d hnext => rw [readOn_of_fault b seen hnext] at h; cases h
  | token c t d hnext ih =>
    cases hfeed : b.feed t.token.toValue with
    | error f =>
      rw [readOn_of_refused b seen hnext hfeed] at h
      cases h
      obtain ⟨pre, hstop⟩ := StopsAt.here seen hnext hfeed
      exact ⟨[], t, pre, hstop⟩
    | ok b' =>
      rw [readOn_of_accepted b seen hnext hfeed] at h
      obtain ⟨before, u, pre, hstop⟩ := ih h
      obtain ⟨pre', hstop'⟩ := hstop.token hnext hfeed
      exact ⟨t :: before, u, pre', hstop'⟩

end Cursor

/-! ## What is reported of a text -/

section Text

variable {text : String}

/-- The tokens of a text, up to where scanning stops. -/
def textTokens (text : String) : List Value := stream (Cursor.ofText text).tokens

/-- The token `t` is the first closing parenthesis of the text that closes nothing. The tokens
`before` stand before it, the characters `pre` in front of it and `post` behind it. -/
structure FirstSurplus (text : String) (before : List Located) (t : Located)
    (pre post : List Char) : Prop where
  tokens : ∃ after, (Cursor.ofText text).tokens = before ++ t :: after
  balanced : ¬ Surplus (stream before)
  surplus : Surplus (stream (before ++ [t]))
  text_eq : text.toList = pre ++ ')' :: post
  place : t.pos = pre.length

/-- What is read up to the surplus parenthesis `t` behind `pre`: the tokens with it as the last, and
a cursor right behind it. -/
def surplusReading (before : List Located) (t : Located) (pre post : List Char) : Reading :=
  ⟨before ++ [t], ⟨post, 1 + pre.count '\n', pre.length + 1⟩, .error (.parse .surplusClose)⟩

/-- A text is refused for a surplus, or its tokens are accepted and the rest decides. -/
theorem readText_cases (text : String) :
    (Surplus (textTokens text) ∧ (readText text).result = .error (.parse .surplusClose)) ∨
    ∃ b, ({} : Builder).feedAll (textTokens text) = .ok b ∧ ¬ Surplus (textTokens text) ∧
      (readText text).result =
        match (Cursor.ofText text).fault? with
        | some f => .error (.lex f)
        | none => b.finish.mapError .parse := by
  have hresult := Cursor.readOn_result (Cursor.ofText text) {} []
  cases hfeed : ({} : Builder).feedAll (textTokens text) with
  | error f =>
    obtain ⟨rfl, hs⟩ := Builder.surplus_of_error (fun _ => isStray_of_mem_stream) hfeed
    rw [textTokens] at hfeed
    rw [hfeed] at hresult
    exact .inl ⟨hs, hresult⟩
  | ok b =>
    have hs := Builder.not_surplus hfeed
    rw [textTokens] at hfeed
    rw [hfeed] at hresult
    exact .inr ⟨b, rfl, hs, hresult⟩

/-- What is read is what the tokens of the text are put together to. -/
theorem feedAll_of_readText {forest : Forest} (h : (readText text).result = .ok forest) :
    ∃ b, ({} : Builder).feedAll (textTokens text) = .ok b ∧ b.below = [] ∧
      b.top.reverse = forest := by
  rcases readText_cases text with ⟨-, hresult⟩ | ⟨b, hfeed, -, hresult⟩
  · rw [hresult] at h; cases h
  rw [hresult] at h
  split at h
  · cases h
  rcases b.finish_cases with ⟨hbelow, hb⟩ | ⟨-, hb⟩
  · rw [hb] at h
    cases h
    exact ⟨b, hfeed, hbelow, rfl⟩
  · rw [hb] at h; cases h

theorem tree_of_readText {leaf : Value → Prop} {text : String} {forest : Forest}
    (h : (readText text).result = .ok forest)
    (hleaf : ∀ t ∈ textTokens text, t.isAtom = true → leaf t) : ∀ v ∈ forest, v.Tree leaf := by
  obtain ⟨b, hfeed, -, rfl⟩ := feedAll_of_readText h
  have hempty : ({} : Builder).Holds (Value.Tree leaf) := ⟨by simp, by simp⟩
  have hholds := hempty.feedAll hleaf (fun _ => isList_of_mem_stream) hfeed
  exact fun v hv => hholds.1 v (List.mem_reverse.1 hv)

theorem flatten_of_readText {forest : Forest} (h : (readText text).result = .ok forest) :
    Forest.flatten forest = textTokens text := by
  obtain ⟨b, hfeed, hbelow, rfl⟩ := feedAll_of_readText h
  exact Builder.flatten_of_feedAll (fun _ => isList_of_mem_stream) hfeed hbelow

theorem readText_eq_surplus_iff :
    (readText text).result = .error (.parse .surplusClose) ↔ Surplus (textTokens text) := by
  rcases readText_cases text with ⟨hs, hresult⟩ | ⟨b, -, hs, hresult⟩
  · exact iff_of_true hresult hs
  · refine iff_of_false (fun h => ?_) hs
    rw [h] at hresult
    split at hresult
    · cases hresult
    · rcases b.finish_cases with ⟨-, hb⟩ | ⟨-, hb⟩ <;> rw [hb] at hresult <;> cases hresult

theorem readText_of_fault {f : LexFault} (hs : ¬ Surplus (textTokens text))
    (hf : (Cursor.ofText text).fault? = some f) : (readText text).result = .error (.lex f) := by
  rcases readText_cases text with ⟨hs', -⟩ | ⟨b, -, -, hresult⟩
  · exact absurd hs' hs
  · rw [hresult, hf]

theorem readText_eq_leftOpen_iff (hs : ¬ Surplus (textTokens text))
    (hf : (Cursor.ofText text).fault? = none) (k : Nat) :
    (readText text).result = .error (.parse (.leftOpen k)) ↔
      (openings (textTokens text) : Int) - closings (textTokens text) = k ∧ 0 < k := by
  rcases readText_cases text with ⟨hs', -⟩ | ⟨b, hfeed, -, hresult⟩
  · exact absurd hs' hs
  · have hdepth := Builder.depth_feedAll hfeed
    rw [hresult, hf]
    rcases b.finish_cases with ⟨hbelow, hb⟩ | ⟨hbelow, hb⟩
    · rw [hbelow] at hdepth
      simp only [List.length_nil] at hdepth
      refine iff_of_false (fun h => ?_) (by omega)
      rw [hb] at h
      cases h
    · have hpos := List.length_pos_iff.2 hbelow
      simp only [List.length_nil] at hdepth
      rw [hb]
      show Except.error (Fault.parse (.leftOpen b.below.length)) = _ ↔ _
      simp only [Except.error.injEq, Fault.parse.injEq, ParseFault.leftOpen.injEq]
      omega

theorem readText_of_balanced (hs : ¬ Surplus (textTokens text))
    (hf : (Cursor.ofText text).fault? = none)
    (hk : openings (textTokens text) ≤ closings (textTokens text)) :
    ∃ forms, (readText text).result = .ok forms ∧ Forest.flatten forms = textTokens text := by
  rcases readText_cases text with ⟨hs', -⟩ | ⟨b, hfeed, -, hresult⟩
  · exact absurd hs' hs
  · have hdepth := Builder.depth_feedAll hfeed
    have hbelow : b.below = [] := by
      simp only [List.length_nil] at hdepth
      exact List.length_eq_zero_iff.1 (by omega)
    have hflat := Builder.flatten_of_feedAll (fun _ => isList_of_mem_stream) hfeed hbelow
    refine ⟨b.top.reverse, ?_, hflat⟩
    rw [hresult, hf, Builder.finish, hbelow]
    rfl

/-- Reading stops right behind the first closing parenthesis in surplus, and what follows it makes
no difference. -/
theorem readText_stops (hs : Surplus (textTokens text)) :
    ∃ before t pre post, FirstSurplus text before t pre post ∧
      readText text = surplusReading before t pre post ∧
      ∀ other,
        readText (String.ofList (pre ++ ')' :: other)) = surplusReading before t pre other := by
  have hresult := readText_eq_surplus_iff.2 hs
  obtain ⟨before, t, pre, hstop⟩ := Cursor.stopsAt_of_surplus hresult
  obtain ⟨b, hb, hbelow⟩ := hstop.open_lists
  have htaken : (readText text).tokens = before ++ [t] := hstop.taken
  have hline : (readText text).cursor.line = 1 + pre.count '\n' := hstop.line
  have hpos : (readText text).cursor.pos = pre.length + 1 := by
    have hpos : (readText text).cursor.pos = 0 + pre.length + 1 := hstop.pos
    omega
  have hplace : t.pos = pre.length := by simpa [Cursor.ofText] using hstop.place
  have hread : readText text = surplusReading before t pre (readText text).cursor.rest := by
    rw [surplusReading, ← htaken, ← hline, ← hpos, ← hresult]
  have hsurplus : Surplus (stream (before ++ [t])) := by
    rw [stream, List.map_append, List.map_singleton, hstop.closing]
    exact Builder.surplus_of_below hb hbelow
  refine ⟨before, t, pre, (readText text).cursor.rest,
    ⟨hstop.tokens, Builder.not_surplus hb, hsurplus, hstop.rest, hplace⟩, hread, fun other => ?_⟩
  have hother : readText (String.ofList (pre ++ ')' :: other)) =
      { readText text with cursor := { (readText text).cursor with rest := other } } := by
    rw [readText, Cursor.read, Cursor.ofText, String.toList_ofList]
    exact hstop.blind other
  rw [hother, hread]
  rfl

/-- **The law of reading.** A text with a closing parenthesis in surplus among its tokens is refused
for that, whatever else is wrong behind it, and reading stops right behind the parenthesis. Else the
fault of scanning is reported, else the number of lists left open. A text with none of these is read
as the forest of its tokens. -/
theorem readText_law (text : String) :
    ((readText text).result = .error (.parse .surplusClose) ↔ Surplus (textTokens text)) ∧
    (¬ Surplus (textTokens text) →
      match (Cursor.ofText text).fault? with
      | some f => (readText text).result = .error (.lex f)
      | none =>
        (∀ k, (readText text).result = .error (.parse (.leftOpen k)) ↔
          (openings (textTokens text) : Int) - closings (textTokens text) = k ∧ 0 < k) ∧
        (openings (textTokens text) ≤ closings (textTokens text) →
          ∃ forms, (readText text).result = .ok forms ∧
            Forest.flatten forms = textTokens text)) ∧
    (Surplus (textTokens text) →
      ∃ before t pre post, FirstSurplus text before t pre post ∧
        readText text = surplusReading before t pre post ∧
        ∀ other,
          readText (String.ofList (pre ++ ')' :: other)) = surplusReading before t pre other) ∧
    (Fault.parse .surplusClose).message = "unmatched parenthesis: extra ')'" ∧
    (∀ k, (Fault.parse (.leftOpen k)).message =
      "unmatched parenthesis: " ++ toString k ++ " '(' left open") ∧
    ∀ f, (Fault.parse f).kind.label = "MlspParseError" := by
  refine ⟨readText_eq_surplus_iff, fun hs => ?_, readText_stops, rfl, fun k => ?_, fun f => rfl⟩
  · split
    · next f hf => exact readText_of_fault hs hf
    · next hf => exact ⟨readText_eq_leftOpen_iff hs hf, readText_of_balanced hs hf⟩
  · rfl

/-- The parenthesis is reported, not the character behind it that begins no token. -/
theorem readText_law_surplus_before_fault :
    Surplus (textTokens "(a))\n$") ∧
    (Cursor.ofText "(a))\n$").fault? = some (.unrecognized 2 5) ∧
    (readText "(a))\n$").result = .error (.parse .surplusClose) := by
  have hs : Surplus (textTokens "(a))\n$") := ⟨_, List.prefix_rfl, by decide +kernel⟩
  exact ⟨hs, by decide +kernel, (readText_law "(a))\n$").1.2 hs⟩

end Text

end PocketLisp
