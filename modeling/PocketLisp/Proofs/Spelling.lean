import PocketLisp.Reading

/-!
# Spellings

Which texts spell a token, and where a spelling ends.

* `Lexeme.isInteger`, `Lexeme.isSymbol`: the spellings of integer literals and of symbols. They have
  nothing in common, because a sign before a digit belongs to the literal.
* `Lexeme.endsBefore`: a text does not go on with a character that would extend a spelling.
* `Lexeme.isProper_of_take`, `Lexeme.endsBefore_of_take`: what is taken off a text is a spelling of
  its class, up to where it ends.
* `Lexeme.take_spelling`: such a spelling is taken.
* `Lexeme.token_cases`: what the token of a spelling can be.
-/

namespace PocketLisp

namespace Text

theorem toNat_of_isSpace {c : Char} (h : isSpace c = true) : c.toNat ≤ 32 ∨ 128 ≤ c.toNat := by
  simp only [isSpace, isBlank, Bool.or_eq_true, beq_iff_eq, inRanges_iff] at h
  rcases h with rfl | ⟨r, hr, hlo, hhi⟩
  · decide
  · have hall : ∀ r ∈ blankRanges, r.2 ≤ 32 ∨ 128 ≤ r.1 := by decide
    have := hall r hr
    omega

theorem toNat_of_isAlpha {c : Char} (h : c.isAlpha = true) : 65 ≤ c.toNat ∧ c.toNat ≤ 122 := by
  have hcase : (decide ('A'.val ≤ c.val ∧ c.val ≤ 'Z'.val) ||
      (decide ('a'.val ≤ c.val) && decide (c.val ≤ 'z'.val))) = true := h
  simp only [Bool.or_eq_true, Bool.and_eq_true, decide_eq_true_eq, UInt32.le_iff_toNat_le] at hcase
  have hletters : 'A'.val.toNat = 65 ∧ 'Z'.val.toNat = 90 ∧ 'a'.val.toNat = 97 ∧
      'z'.val.toNat = 122 := by decide
  show 65 ≤ c.val.toNat ∧ c.val.toNat ≤ 122
  omega

theorem toNat_of_isDigit {c : Char} (h : c.isDigit = true) : 48 ≤ c.toNat ∧ c.toNat ≤ 57 :=
  Char.isDigit_iff_toNat.1 h

theorem isSpace_of_isAlphanum {c : Char} (h : c.isAlphanum = true) : isSpace c = false := by
  rw [Bool.eq_false_iff]
  intro hs
  have hspace := toNat_of_isSpace hs
  simp only [Char.isAlphanum, Bool.or_eq_true] at h
  rcases h with halpha | hdigit
  · have := toNat_of_isAlpha halpha
    omega
  · have := toNat_of_isDigit hdigit
    omega

end Text

namespace Lexeme

/-- The spelling of an integer literal: an optional sign and at least one digit. -/
def isInteger : List Char → Bool
  | [] => false
  | c :: cs => (c.isDigit || (isSign c && startsWithDigit cs)) && cs.all Char.isDigit

/-- The spelling of a symbol: a character that can begin one, then letters and digits. It is no sign
with a digit behind it. -/
def isSymbol : List Char → Bool
  | [] => false
  | c :: cs => isSymbolStart c && cs.all Char.isAlphanum && !(isSign c && startsWithDigit cs)

/-- A lexeme with a spelling of its class. -/
def isProper : Lexeme → Bool
  | .paren _ => true
  | .integer cs => isInteger cs
  | .symbol cs => isSymbol cs

theorem isSymbolStart_of_isSign {c : Char} (h : isSign c = true) : isSymbolStart c = true := by
  simp only [isSign, Bool.or_eq_true, beq_iff_eq] at h
  rcases h with rfl | rfl <;> rfl

theorem isSpace_of_isSymbolStart {c : Char} (h : isSymbolStart c = true) :
    Text.isSpace c = false := by
  simp only [isSymbolStart, Bool.or_eq_true, beq_iff_eq] at h
  rcases h with h | h
  · rcases h with ((((rfl | rfl) | rfl) | rfl) | rfl) | rfl <;> decide
  · exact Text.isSpace_of_isAlphanum (by simp [Char.isAlphanum, h])

theorem startsWithDigit_takeWhile (p : Char → Bool) (hp : ∀ c, c.isDigit = true → p c = true)
    (cs : List Char) : startsWithDigit (cs.takeWhile p) = startsWithDigit cs := by
  cases cs with
  | nil => rfl
  | cons c cs =>
    by_cases hc : p c = true
    · rw [List.takeWhile_cons_of_pos hc]; rfl
    · have hd : c.isDigit = false := by
        rw [Bool.eq_false_iff]; exact fun hd => hc (hp c hd)
      rw [List.takeWhile_cons_of_neg hc]
      simp [startsWithDigit, hd]

theorem isProper_of_take {cs rest : List Char} {x : Lexeme} (h : take cs = some (x, rest)) :
    x.isProper = true := by
  cases cs with
  | nil => cases h
  | cons c cs =>
    rw [take] at h
    split at h
    · cases h; rfl
    split at h
    · cases h; rfl
    split at h
    · next hc =>
      cases h
      simp only [isProper, isInteger, List.all_takeWhile, Bool.and_true]
      rwa [startsWithDigit_takeWhile _ fun _ h => h]
    split at h
    · next hint hc =>
      cases h
      simp only [Bool.or_eq_true, not_or, Bool.not_eq_true] at hint
      simp only [isProper, isSymbol, List.all_takeWhile, Bool.and_true, hc, Bool.true_and]
      rw [startsWithDigit_takeWhile _ fun _ h => by simp [Char.isAlphanum, h], hint.2]
      rfl
    · cases h

/-- A proper spelling is a parenthesis, or it is made of letters, digits and characters that can
begin a symbol. -/
theorem class_of_mem_spelling {x : Lexeme} (h : x.isProper = true) {ch : Char}
    (hch : ch ∈ x.spelling) :
    (∃ p : Paren, ch = p.char) ∨ ch.isAlphanum = true ∨ isSymbolStart ch = true := by
  have hdigit {d : Char} (hd : d.isDigit = true) : d.isAlphanum = true := by
    simp [Char.isAlphanum, hd]
  match x with
  | .paren p => exact .inl ⟨p, List.mem_singleton.1 hch⟩
  | .integer (c :: cs) =>
    simp only [isProper, isInteger, Bool.and_eq_true, Bool.or_eq_true, List.all_eq_true] at h
    rcases List.mem_cons.1 hch with rfl | hch
    · rcases h.1 with hd | ⟨hsign, -⟩
      · exact .inr (.inl (hdigit hd))
      · exact .inr (.inr (isSymbolStart_of_isSign hsign))
    · exact .inr (.inl (hdigit (h.2 ch hch)))
  | .symbol (c :: cs) =>
    simp only [isProper, isSymbol, Bool.and_eq_true, List.all_eq_true] at h
    rcases List.mem_cons.1 hch with rfl | hch
    · exact .inr (.inr h.1.1)
    · exact .inr (.inl (h.1.2 ch hch))

theorem isSpace_of_mem_spelling {x : Lexeme} (h : x.isProper = true) {ch : Char}
    (hch : ch ∈ x.spelling) : Text.isSpace ch = false := by
  rcases class_of_mem_spelling h hch with ⟨p, rfl⟩ | halnum | hstart
  · cases p <;> decide
  · exact Text.isSpace_of_isAlphanum halnum
  · exact isSpace_of_isSymbolStart hstart

/-- The run of a spelling ends where `rest` begins. -/
def endsBefore : Lexeme → List Char → Bool
  | .paren _, _ => true
  | .integer _, rest => !rest.head?.any Char.isDigit
  | .symbol _, rest => !rest.head?.any Char.isAlphanum

theorem endsBefore_cons (x : Lexeme) {z : Char} (hz : z.isAlphanum = false) (rest : List Char) :
    x.endsBefore (z :: rest) = true := by
  have hd : z.isDigit = false := by
    simp only [Char.isAlphanum, Bool.or_eq_false_iff] at hz
    exact hz.2
  cases x <;> simp [endsBefore, hz, hd]

theorem endsBefore_nil (x : Lexeme) : x.endsBefore [] = true := by
  cases x <;> rfl

theorem endsBefore_congr (x : Lexeme) {rest rest' : List Char} (h : rest.head? = rest'.head?) :
    x.endsBefore rest = x.endsBefore rest' := by
  cases x <;> simp [endsBefore, h]

theorem head?_dropWhile_any (p : Char → Bool) (cs : List Char) :
    (cs.dropWhile p).head?.any p = false := by
  have h := List.head?_dropWhile_not p cs
  cases hd : (cs.dropWhile p).head? with
  | none => rfl
  | some c => simpa [hd] using h

/-- A spelling is taken up to where it ends. -/
theorem endsBefore_of_take {cs rest : List Char} {x : Lexeme} (h : take cs = some (x, rest)) :
    x.endsBefore rest = true := by
  cases cs with
  | nil => cases h
  | cons c cs =>
    rw [take] at h
    split at h
    · cases h; rfl
    split at h
    · cases h; rfl
    split at h
    · cases h; rw [endsBefore, head?_dropWhile_any]; rfl
    split at h
    · cases h; rw [endsBefore, head?_dropWhile_any]; rfl
    · cases h

theorem span_run {p : Char → Bool} {run rest : List Char} (hrun : ∀ c ∈ run, p c = true)
    (hrest : rest.head?.any p = false) :
    (run ++ rest).takeWhile p = run ∧ (run ++ rest).dropWhile p = rest := by
  rw [List.takeWhile_append_of_pos hrun, List.dropWhile_append_of_pos hrun]
  cases rest with
  | nil => simp
  | cons c rest =>
    have hc : p c = false := by simpa using hrest
    simp [hc]

theorem startsWithDigit_append {cs rest : List Char} (h : rest.head?.any Char.isDigit = false) :
    startsWithDigit (cs ++ rest) = startsWithDigit cs := by
  cases cs with
  | cons c cs => rfl
  | nil =>
    cases rest with
    | nil => rfl
    | cons c rest => simpa [startsWithDigit] using h

theorem ne_paren {c : Char} (h : (c.isDigit || isSymbolStart c) = true) : c ≠ '(' ∧ c ≠ ')' := by
  constructor <;> rintro rfl <;> exact absurd h (by decide)

theorem isDigit_of_isSymbolStart {c : Char} (h : isSymbolStart c = true) : c.isDigit = false := by
  simp only [isSymbolStart, Bool.or_eq_true, beq_iff_eq] at h
  rcases h with h | h
  · rcases h with ((((rfl | rfl) | rfl) | rfl) | rfl) | rfl <;> decide
  · rw [Bool.eq_false_iff]
    intro hd
    have halpha := Text.toNat_of_isAlpha h
    have hdigit := Text.toNat_of_isDigit hd
    omega

/-- A proper spelling is taken off the front of a text that it ends in. -/
theorem take_spelling {x : Lexeme} (hx : x.isProper = true) {rest : List Char}
    (hrest : x.endsBefore rest = true) : take (x.spelling ++ rest) = some (x, rest) := by
  match x with
  | .paren p => cases p <;> rfl
  | .integer (c :: cs) =>
    simp only [isProper, isInteger, Bool.and_eq_true, List.all_eq_true] at hx
    simp only [endsBefore, Bool.not_eq_true'] at hrest
    obtain ⟨hrun, hleft⟩ := span_run hx.2 hrest
    have hstart : (c.isDigit || isSymbolStart c) = true := by
      simp only [Bool.or_eq_true, Bool.and_eq_true] at hx ⊢
      exact hx.1.imp_right fun h => isSymbolStart_of_isSign h.1
    have hint : (c.isDigit || (isSign c && startsWithDigit (cs ++ rest))) = true := by
      rw [startsWithDigit_append hrest]; exact hx.1
    rw [spelling, List.cons_append, take, if_neg (ne_paren hstart).1,
      if_neg (ne_paren hstart).2, if_pos hint, hrun, hleft]
  | .symbol (c :: cs) =>
    simp only [isProper, isSymbol, Bool.and_eq_true, List.all_eq_true, Bool.not_eq_true'] at hx
    simp only [endsBefore, Bool.not_eq_true'] at hrest
    obtain ⟨⟨hstart, hcs⟩, hsign⟩ := hx
    obtain ⟨hrun, hleft⟩ := span_run hcs hrest
    have hrest' : rest.head?.any Char.isDigit = false := by
      cases rest with
      | nil => rfl
      | cons z rest =>
        simp only [List.head?_cons, Option.any_some, Char.isAlphanum, Bool.or_eq_false_iff] at hrest
        exact hrest.2
    have hint : ¬ (c.isDigit || (isSign c && startsWithDigit (cs ++ rest))) = true := by
      rw [startsWithDigit_append hrest', isDigit_of_isSymbolStart hstart, hsign]
      decide
    have hparen := ne_paren (c := c) (by rw [hstart, Bool.or_true])
    rw [spelling, List.cons_append, take, if_neg hparen.1, if_neg hparen.2, if_neg hint,
      if_pos hstart, hrun, hleft]

/-- What the token of a spelling can be: the parenthesis, the name, or the number if it fits. -/
theorem token_cases {x : Lexeme} {line pos : Nat} {t : Token} (h : x.token line pos = .ok t) :
    (∃ p, x = .paren p ∧ t = .paren p) ∨
    (∃ cs, x = .symbol cs ∧ t = .symbol (String.ofList cs)) ∨
    ∃ cs, x = .integer cs ∧ (digits cs).length ≤ maxDigits ∧ Value.inRange (intValue cs) = true ∧
      t = .int (intValue cs) := by
  cases x with
  | paren p => cases h; exact .inl ⟨p, rfl, rfl⟩
  | symbol cs => cases h; exact .inr (.inl ⟨cs, rfl, rfl⟩)
  | integer cs =>
    rw [token] at h
    split at h
    · cases h
    · next hfew =>
      split at h
      · next hrange => cases h; exact .inr (.inr ⟨cs, rfl, by omega, hrange, rfl⟩)
      · cases h

end Lexeme

end PocketLisp
