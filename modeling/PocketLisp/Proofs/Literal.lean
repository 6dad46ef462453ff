import PocketLisp.Proofs.Stepping

/-!
# Integer literals

What scanning makes of an integer literal of any length, and which faults it can meet besides. A
literal is converted before its range is looked at, and conversion has a limit of its own: a literal
with more than `maxDigits` digits ends in a fault that is no lexical one, even if all its digits are
zeros.

* `HasLongLiteral`: a literal with too many digits stands in a text.
* `Cursor.next_literal`: the answer at a literal.
* `Cursor.Moves.fault_cases`: a fault is lexical, or a literal with too many digits was passed.
* `literal_law`: the faults of scanning and of reading.
* `long_literal_not_lexical`: a text that is refused with a fault that is no lexical one.
-/

namespace PocketLisp

theorem Kind.reading_mem_lineage (k : Kind) :
    Kind.reading ∈ k.lineage ↔ k ∈ [Kind.reading, .lexical, .parsing] := by
  cases k <;> decide +kernel

/-- An integer literal with `count` digits, more than are converted, stands in the text. -/
structure HasLongLiteral (text : List Char) (count : Nat) : Prop where
  many : maxDigits < count
  literal : ∃ (sign : Sign) (ds : List Char), IsNumeral ds ∧ ds.length = count ∧
    sign.spelling ++ ds <:+: text

namespace Lexeme

variable {ds : List Char} (sign : Sign)

/-- The token of a literal is decided by the number of its digits, and then by what they write. -/
theorem token_literal (h : IsNumeral ds) (line pos : Nat) :
    token line pos (.integer (sign.spelling ++ ds)) =
      if maxDigits < ds.length then .error (.tooManyDigits ds.length)
      else if Value.inRange (sign.apply (decimal ds)) then .ok (.int (sign.apply (decimal ds)))
      else .error (.outOfRange (String.ofList (sign.spelling ++ ds)) line pos) := by
  rw [token, digits_literal sign h, intValue_literal sign h]

end Lexeme

namespace Cursor

section Literal

variable {c : Cursor} {gap ds post : List Char} {sign : Sign}

theorem passes_literal (hrest : c.rest = gap ++ (sign.spelling ++ ds ++ post))
    (hgap : ∀ ch ∈ gap, Text.isSpace ch = true) (hds : IsNumeral ds)
    (hpost : post.head?.any Char.isDigit = false) :
    c.Passes gap (.integer (sign.spelling ++ ds)) ⟨post, c.line + gap.count '\n',
      c.pos + gap.length + (sign.spelling ++ ds).length⟩ := by
  have hends : (Lexeme.integer (sign.spelling ++ ds)).endsBefore post = true := by
    rw [Lexeme.endsBefore, hpost]
    rfl
  have htake := Lexeme.take_spelling (x := .integer (sign.spelling ++ ds))
    (Lexeme.isInteger_literal sign hds) hends
  exact ⟨hrest, hgap, htake, rfl, rfl⟩

/-- The answer at a literal: a fault if it has too many digits, else the integer that they write if
it is in range, else a lexical fault at the start of the literal. -/
theorem next_literal (hrest : c.rest = gap ++ (sign.spelling ++ ds ++ post))
    (hgap : ∀ ch ∈ gap, Text.isSpace ch = true) (hds : IsNumeral ds)
    (hpost : post.head?.any Char.isDigit = false) :
    c.next.1 =
      if maxDigits < ds.length then .fault (.tooManyDigits ds.length)
      else if Value.inRange (sign.apply (decimal ds)) then
        .token ⟨c.line + gap.count '\n', c.pos + gap.length, .int (sign.apply (decimal ds))⟩
      else .fault (.outOfRange (String.ofList (sign.spelling ++ ds)) (c.line + gap.count '\n')
        (c.pos + gap.length)) := by
  have hpass := passes_literal hrest hgap hds hpost
  have htoken := Lexeme.token_literal sign hds (c.line + gap.count '\n') (c.pos + gap.length)
  split_ifs at htoken ⊢ with hmany hrange
  · rw [hpass.next_error htoken]
  · rw [hpass.next htoken]
  · rw [hpass.next_error htoken]

end Literal

/-- A fault is lexical, unless a literal with too many digits was passed. -/
theorem Moves.fault_cases {c d : Cursor} {gap word text : List Char} {f : LexFault}
    (h : c.Moves gap word (.fault f) d) (hc : c.In text) :
    f.kind = .lexical ∨ ∃ count, f = .tooManyDigits count ∧ HasLongLiteral text count := by
  cases h with
  | unrecognized hrest hspace hch htake => exact .inl rfl
  | literal hpass hf =>
    obtain ⟨cs, hcs, ⟨hmany, rfl⟩ | rfl⟩ := Lexeme.fault_of_token hf
    · cases hcs
      obtain ⟨sign, ds, rfl, hds⟩ := Lexeme.exists_literal (Lexeme.isProper_of_take hpass.take)
      rw [Lexeme.digits_literal sign hds] at hmany ⊢
      have hinfix : sign.spelling ++ ds <:+: text := by
        refine List.IsInfix.trans ?_ (List.drop_suffix c.pos text).isInfix
        rw [← hc.rest, hpass.rest, ← List.append_assoc]
        exact List.infix_append gap (sign.spelling ++ ds) d.rest
      exact .inr ⟨ds.length, rfl, hmany, sign, ds, hds, rfl, hinfix⟩
    · exact .inl rfl

/-- The fault that scanning stops at is the answer of one of the calls. -/
theorem exists_after_of_fault? {c : Cursor} {f : LexFault} (h : c.fault? = some f) :
    ∃ k, (c.after k).next.1 = .fault f := by
  induction c using scanInduct with
  | finish c d hnext => rw [fault?_of_finish hnext] at h; cases h
  | fault c g d hnext =>
    rw [fault?_of_fault hnext] at h
    cases h
    exact ⟨0, by rw [after, hnext]⟩
  | token c t d hnext ih =>
    rw [fault?_of_token hnext] at h
    obtain ⟨k, hk⟩ := ih h
    exact ⟨k + 1, by rwa [after_succ, hnext]⟩

theorem fault_of_after {text : String} {k : Nat} {f : LexFault}
    (h : ((ofText text).after k).next.1 = .fault f) :
    f.kind = .lexical ∨ ∃ count, f = .tooManyDigits count ∧ HasLongLiteral text.toList count := by
  obtain ⟨gap, word, hmove⟩ := ((ofText text).after k).exists_moves
  rw [h] at hmove
  exact hmove.fault_cases (in_after (in_ofText text) k)

end Cursor

theorem readText_numeral {ds : List Char} (hds : IsNumeral ds) (hmany : maxDigits < ds.length) :
    (Cursor.ofText (String.ofList ds)).next.1 = .fault (.tooManyDigits ds.length) ∧
      (readText (String.ofList ds)).result = .error (.lex (.tooManyDigits ds.length)) := by
  have hrest : (Cursor.ofText (String.ofList ds)).rest =
      [] ++ (Sign.none.spelling ++ ds ++ []) := by
    simp [Cursor.ofText, Sign.spelling]
  have hnext := Cursor.next_literal hrest (by simp) hds rfl
  rw [if_pos hmany] at hnext
  refine ⟨hnext, ?_⟩
  rw [readText, Cursor.read, Cursor.readOn_of_fault {} [] (Prod.ext hnext rfl)]

/-- **Faults of scanning.** A call that fails meets a lexical fault, with one exception: a literal
with more than `maxDigits` digits. Any other literal gives the integer that it writes in decimal, if
that is in range, and else a lexical fault at its start. So reading fails with a fault of reading,
again unless a literal with too many digits stands in the text. -/
theorem literal_law (text : String) :
    (∀ n, ∀ r ∈ (Cursor.ofText text).steps n, ∀ f, r.1 = .fault f →
      f.kind = .lexical ∨
        ∃ count, f = .tooManyDigits count ∧ HasLongLiteral text.toList count) ∧
    (∀ k (gap ds post : List Char) (sign : Sign),
      ((Cursor.ofText text).after k).rest = gap ++ (sign.spelling ++ ds ++ post) →
      (∀ ch ∈ gap, Text.isSpace ch = true) → IsNumeral ds →
      post.head?.any Char.isDigit = false →
      let start := ((Cursor.ofText text).after k).pos + gap.length
      let line := lineAt text.toList start
      ((Cursor.ofText text).after k).next.1 =
        if maxDigits < ds.length then .fault (.tooManyDigits ds.length)
        else if Value.inRange (sign.apply (decimal ds)) then
          .token ⟨line, start, .int (sign.apply (decimal ds))⟩
        else .fault (.outOfRange (String.ofList (sign.spelling ++ ds)) line start)) ∧
    ∀ f, (readText text).result = .error f →
      Kind.reading ∈ f.kind.lineage ∨
        ∃ count, f = .lex (.tooManyDigits count) ∧ HasLongLiteral text.toList count := by
  refine ⟨fun n r hr f hf => ?_, fun k gap ds post sign hrest hgap hds hpost => ?_, fun f hf => ?_⟩
  · obtain ⟨k, -, rfl⟩ := Cursor.mem_steps.1 hr
    exact Cursor.fault_of_after hf
  · have hspans := (Cursor.passes_literal hrest hgap hds hpost).spans
    have hline := hspans.lineAt_eq (Cursor.in_after (Cursor.in_ofText text) k)
    simp only [Cursor.next_literal hrest hgap hds hpost, hline]
  · rcases fault_of_readText hf with ⟨g, hg, rfl⟩ | rfl | ⟨count, -, rfl⟩
    · obtain ⟨k, hk⟩ := Cursor.exists_after_of_fault? hg
      rcases Cursor.fault_of_after hk with hkind | ⟨count, rfl, hlong⟩
      · exact .inl ((Kind.reading_mem_lineage _).2 (by simp [Fault.kind, hkind]))
      · exact .inr ⟨count, rfl, hlong⟩
    · exact .inl ((Kind.reading_mem_lineage _).2 (by simp [Fault.kind]))
    · exact .inl ((Kind.reading_mem_lineage _).2 (by simp [Fault.kind]))

/-- A literal with leading zeros on the second line. -/
theorem literal_law_padded :
    ((Cursor.ofText " \n-007)").after 0).rest = [' ', '\n'] ++ (Sign.minus.spelling ++
      ['0', '0', '7'] ++ [')']) ∧
    ((Cursor.ofText " \n-007)").after 0).next.1 = .token ⟨2, 2, .int (-7)⟩ := by
  have hrest : ((Cursor.ofText " \n-007)").after 0).rest = [' ', '\n'] ++
      (Sign.minus.spelling ++ ['0', '0', '7'] ++ [')']) := rfl
  have hnext := (literal_law " \n-007)").2.1 0 _ _ _ _ hrest (List.all_eq_true.1 rfl)
    ⟨by decide, List.all_eq_true.1 rfl⟩ rfl
  have hfew : ¬ maxDigits < ['0', '0', '7'].length := by decide
  have hrange : Value.inRange (Sign.minus.apply (decimal ['0', '0', '7'])) = true := by
    decide +kernel
  dsimp only at hnext
  rw [if_neg hfew, if_pos hrange] at hnext
  refine ⟨hrest, hnext.trans ?_⟩
  decide +kernel

/-- Nines alone, one more than are converted: scanning and reading refuse them, and not with a
lexical fault or any other fault of reading. -/
theorem long_literal_not_lexical :
    let text := String.ofList (List.replicate 4301 '9')
    (Cursor.ofText text).next.1 = .fault (.tooManyDigits 4301) ∧
    (LexFault.tooManyDigits 4301).kind ≠ .lexical ∧
    (readText text).result = .error (.lex (.tooManyDigits 4301)) ∧
    Kind.reading ∉ (Fault.lex (.tooManyDigits 4301)).kind.lineage := by
  have hlength : (List.replicate 4301 '9').length = 4301 := List.length_replicate
  have hnumeral : IsNumeral (List.replicate 4301 '9') :=
    ⟨List.ne_nil_of_length_pos (by rw [hlength]; decide),
      fun d hd => by rw [List.eq_of_mem_replicate hd]; rfl⟩
  have hrefused := readText_numeral hnumeral (by rw [hlength]; decide)
  rw [hlength] at hrefused
  refine ⟨hrefused.1, by decide, hrefused.2, ?_⟩
  rw [Kind.reading_mem_lineage]
  decide

end PocketLisp
