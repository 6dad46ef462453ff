import PocketLisp.Proofs.RoundTrip

/-!
# Texts put together

Two texts put one behind the other are scanned one behind the other, if no spelling goes on over the
seam. A newline between them makes sure of that.

* `Cursor.next_append`, `Cursor.next_append_of_space`: what a step gives if more text follows.
* `Cursor.scan_of_rest`: the tokens of a text do not depend on where it stands.
* `Spells.append`: the tokens of two texts, one behind the other.
* `readText_seam`, `readText_wrapped`: what is read of two texts with a newline between them, and of
  a text inside a list.
-/

namespace PocketLisp

namespace Lexeme

theorem token_of_token {x : Lexeme} {line pos : Nat} {t : Token} (h : x.token line pos = .ok t)
    (line' pos' : Nat) : x.token line' pos' = .ok t := by
  rcases token_cases h with ⟨p, rfl, rfl⟩ | ⟨cs, rfl, rfl⟩ | ⟨cs, rfl, hfew, hrange, rfl⟩
  · rfl
  · rfl
  · rw [token, if_neg (by omega), if_pos hrange]

end Lexeme

namespace Cursor

/-! ## One step -/

/-- Scanning finishes where only white space is left. -/
theorem space_of_finish {c d : Cursor} (h : c.next = (.finish, d)) :
    ∀ ch ∈ c.rest, Text.isSpace ch = true := by
  have hgap : c.skipGap.rest = c.rest.dropWhile Text.isSpace := by rw [skipGap, skipFrom_eq]
  unfold next takeToken at h
  split at h
  · split at h <;> cases h
  · split at h
    · next hempty =>
      rw [hgap, List.isEmpty_iff] at hempty
      have hall : c.rest.takeWhile Text.isSpace = c.rest := by
        rw [← List.append_nil (c.rest.takeWhile _), ← hempty, List.takeWhile_append_dropWhile]
      exact fun ch hch => List.all_eq_true.1 List.all_takeWhile ch (hall ▸ hch)
    · cases h

/-- A token is taken in the same way if the text goes on and does not go on with it. -/
theorem next_append {c d : Cursor} {t : Located} (h : c.next = (.token t, d)) {tail : List Char}
    (hstop : stops tail = true) :
    ({ c with rest := c.rest ++ tail } : Cursor).next =
      (.token t, { d with rest := d.rest ++ tail }) := by
  obtain ⟨gap, x, tok, hpass, rfl, htok⟩ := next_token h
  have hends : x.endsBefore (d.rest ++ tail) = true := by
    cases hd : d.rest with
    | nil => exact endsBefore_of_stops x hstop
    | cons z zs =>
      rw [← Lexeme.endsBefore_of_take hpass.take, hd]
      exact Lexeme.endsBefore_congr x rfl
  have hnext := (hpass.congr (d.rest ++ tail) hends).next htok
  rwa [← List.append_assoc, ← List.append_assoc, List.append_assoc gap, ← hpass.rest] at hnext

theorem next_append_of_space {c : Cursor} (h : ∀ ch ∈ c.rest, Text.isSpace ch = true)
    (tail : List Char) :
    ({ c with rest := c.rest ++ tail } : Cursor).next =
      (⟨tail, c.line + c.rest.count '\n', c.pos + c.rest.length⟩ : Cursor).next := by
  simp only [next, skipGap, skipFrom_eq, List.takeWhile_append_of_pos h,
    List.dropWhile_append_of_pos h, List.count_append, List.length_append, Nat.add_assoc]

/-! ## The whole scan -/

/-- A text without a fault has the same tokens, and no fault, wherever it stands. -/
theorem scan_of_rest {c d : Cursor} (hrest : d.rest = c.rest) (h : c.fault? = none) :
    stream d.tokens = stream c.tokens ∧ d.fault? = none := by
  induction c using scanInduct generalizing d with
  | fault c f e hnext => rw [fault?_of_fault hnext] at h; cases h
  | finish c e hnext =>
    have hspace : ∀ ch ∈ d.rest, Text.isSpace ch = true := hrest ▸ space_of_finish hnext
    have hd := next_append_of_space hspace []
    rw [List.append_nil] at hd
    rw [tokens_of_finish hnext, tokens_of_finish hd, fault?_of_finish hd]
    exact ⟨rfl, rfl⟩
  | token c t e hnext ih =>
    obtain ⟨gap, x, tok, hpass, rfl, htok⟩ := next_token hnext
    obtain ⟨e', hrest', hd⟩ : ∃ e', e'.rest = e.rest ∧ d.Passes gap x e' :=
      ⟨⟨e.rest, d.line + gap.count '\n', d.pos + gap.length + x.spelling.length⟩, rfl,
        hrest ▸ hpass.rest, hpass.space, hpass.take, rfl, rfl⟩
    have hdnext := hd.next (Lexeme.token_of_token htok _ _)
    rw [fault?_of_token hnext] at h
    obtain ⟨htokens, hfault⟩ := ih hrest' h
    rw [tokens_of_token hnext, tokens_of_token hdnext, fault?_of_token hdnext]
    exact ⟨congrArg (tok.toValue :: ·) htokens, hfault⟩

/-- A text without a fault, and behind it another one that does not go on with its last spelling. -/
theorem scan_append {c : Cursor} (h : c.fault? = none) {tail : List Char} {ts : List Value}
    (hstop : stops tail = true) (htail : Spells tail ts) :
    stream ({ c with rest := c.rest ++ tail } : Cursor).tokens = stream c.tokens ++ ts ∧
      ({ c with rest := c.rest ++ tail } : Cursor).fault? = none := by
  induction c using scanInduct with
  | fault c f d hnext => rw [fault?_of_fault hnext] at h; cases h
  | finish c d hnext =>
    have hseam := next_append_of_space (space_of_finish hnext) tail
    rw [tokens, fault?, scan_congr hseam, tokens_of_finish hnext]
    exact htail _ _
  | token c t d hnext ih =>
    have hseam := next_append hnext hstop
    rw [fault?_of_token hnext] at h
    obtain ⟨htokens, hfault⟩ := ih h
    rw [tokens_of_token hseam, fault?_of_token hseam, tokens_of_token hnext]
    exact ⟨congrArg (t.token.toValue :: ·) htokens, hfault⟩

end Cursor

namespace Spells

variable {cs ds : List Char} {ts us : List Value}

theorem append (h : Spells cs ts) (hstop : stops ds = true) (h' : Spells ds us) :
    Spells (cs ++ ds) (ts ++ us) := by
  intro line pos
  obtain ⟨htokens, hfault⟩ := h line pos
  rw [← htokens]
  exact Cursor.scan_append hfault hstop h'

theorem seam (h : Spells cs ts) (h' : Spells ds us) : Spells (cs ++ '\n' :: ds) (ts ++ us) :=
  h.append rfl (h'.blank rfl)

end Spells

/-! ## Reading -/

section Reading

variable {s s₁ s₂ : String} {forest f₁ f₂ : Forest}

/-- A text that can be read spells the tokens of what is read. -/
theorem spells_of_readText (h : (readText s).result = .ok forest) :
    Spells s.toList (Forest.flatten forest) := by
  rcases readText_cases s with ⟨-, hresult⟩ | ⟨b, hfeed, -, hresult⟩
  · rw [hresult] at h; cases h
  rw [hresult] at h
  split at h
  · cases h
  · next hfault =>
    rcases b.finish_cases with ⟨hbelow, hb⟩ | ⟨-, hb⟩
    · rw [hb] at h
      cases h
      rw [Builder.flatten_of_feedAll (fun _ => isList_of_mem_stream) hfeed hbelow]
      exact fun line pos => Cursor.scan_of_rest rfl hfault
    · rw [hb] at h; cases h

/-- Two texts with a newline between them are read as the one forest and then the other. -/
theorem readText_seam (h₁ : (readText s₁).result = .ok f₁) (h₂ : (readText s₂).result = .ok f₂) :
    (readText (s₁ ++ "\n" ++ s₂)).result = .ok (f₁ ++ f₂) := by
  have hreadable : ∀ v ∈ f₁ ++ f₂, v.Readable := by
    intro v hv
    rcases List.mem_append.1 hv with hv | hv
    · exact readable_of_readText h₁ v hv
    · exact readable_of_readText h₂ v hv
  have hspells := (spells_of_readText h₁).seam (spells_of_readText h₂)
  refine readText_of_spells hreadable ?_
  rw [Forest.flatten_append]
  simpa using hspells

/-- A text behind the name of a sequence, all in parentheses, is read as one sequence. -/
theorem readText_wrapped (h : (readText s).result = .ok forest) :
    (readText ("(do " ++ s ++ "\n)")).result = .ok [.list (.symbol "do" :: forest)] := by
  have hdo : (Value.symbol "do").Readable := .leaf (by decide)
  have hreadable : (Value.list (.symbol "do" :: forest)).Readable :=
    .list (List.forall_mem_cons.2 ⟨hdo, readable_of_readText h⟩)
  -- The text is put together from its end to its front.
  have hclose : Spells [')'] [.marker .closing] :=
    Spells.nil.lexeme (x := .paren .closing) (t := .paren .closing) rfl rfl fun _ _ => rfl
  have hbody : Spells (' ' :: (s.toList ++ ['\n', ')']))
      (Forest.flatten forest ++ [.marker .closing]) :=
    ((spells_of_readText h).seam hclose).blank rfl
  have hname := hbody.lexeme (x := .symbol "do".toList) (t := .symbol "do") rfl rfl fun _ _ => rfl
  have hopen := hname.lexeme (x := .paren .opening) (t := .paren .opening) rfl rfl fun _ _ => rfl
  refine readText_of_spells (List.forall_mem_singleton.2 hreadable) ?_
  simpa [Forest.flatten, Forest.flattenTree, Lexeme.spelling, Paren.char, Token.toValue]
    using hopen

end Reading

end PocketLisp
