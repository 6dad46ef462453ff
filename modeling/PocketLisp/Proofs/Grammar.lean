import Mathlib.Data.List.Chain
import Mathlib.Data.List.Induction
import Mathlib.Data.Nat.Digits.Defs
import PocketLisp.Proofs.Seam

/-!
# The grammar of tokens

Which texts are divided into which tokens, said without a cursor: a text is a gap and then
spellings, each with a gap behind it. A gap may be empty, except where the spelling before it would
go on with the spelling behind it.

* `Denotes cs t`: the text `cs` is a spelling of the token `t`. An integer is spelled by an optional
  sign and decimal digits, and denotes what these say in decimal.
* `Token.goesOn`: the characters that the spelling of a token would go on with.
* `Piece`: a spelling with the gap behind it. `Piece.MayPrecede` says where no gap is needed.
* `Cursor.Yields c ts`: scanning from `c` gives the tokens `ts`, one a step, and then the end.
* `Denotes.exists_lexeme`, `denotes_of_token`: the grammar has the spellings that scanning takes.
* `yields_iff_written`: scanning gives some tokens and the end exactly if the grammar does.
-/

namespace PocketLisp

/-! ## Spellings -/

/-- The number that digits write in decimal, the last of them counting the ones. -/
def decimal (ds : List Char) : Nat := Nat.ofDigits 10 (ds.reverse.map Lexeme.digitValue)

/-- The sign of an integer literal. -/
inductive Sign where
  | none
  | plus
  | minus

namespace Sign

/-- How a sign is written. -/
def spelling : Sign → List Char
  | .none => []
  | .plus => ['+']
  | .minus => ['-']

/-- The integer with this sign and the magnitude `n`. -/
def apply : Sign → Nat → Int
  | .none, n => n
  | .plus, n => n
  | .minus, n => -n

end Sign

/-- At least one decimal digit, and nothing else. -/
structure IsNumeral (ds : List Char) : Prop where
  nonempty : ds ≠ []
  digit : ∀ d ∈ ds, d.isDigit = true

/-- `cs` is a spelling of the token `t`. -/
inductive Denotes : List Char → Token → Prop where
  | paren (p : Paren) : Denotes [p.char] (.paren p)
  | integer (sign : Sign) {ds : List Char} (h : IsNumeral ds) (few : ds.length ≤ maxDigits)
      (range : Value.inRange (sign.apply (decimal ds)) = true) :
      Denotes (sign.spelling ++ ds) (.int (sign.apply (decimal ds)))
  | symbol {cs : List Char} (h : Lexeme.isSymbol cs = true) :
      Denotes cs (.symbol (String.ofList cs))

/-- The spelling of the token would go on with `ch`. -/
def Token.goesOn : Token → Char → Bool
  | .paren _, _ => false
  | .int _, ch => ch.isDigit
  | .symbol _, ch => ch.isAlphanum

namespace Lexeme

theorem natValue_eq_decimal (ds : List Char) : natValue ds = decimal ds := by
  induction ds using List.reverseRecOn with
  | nil => rfl
  | append_singleton ds d ih =>
    have hnat : natValue (ds ++ [d]) = 10 * natValue ds + digitValue d := by simp [natValue]
    have hdec : decimal (ds ++ [d]) = digitValue d + 10 * decimal ds := by
      simp [decimal, Nat.ofDigits_cons]
    rw [hnat, hdec, ih, Nat.add_comm]

section Literal

variable {ds : List Char} (sign : Sign)

theorem isInteger_literal (h : IsNumeral ds) : isInteger (sign.spelling ++ ds) = true := by
  obtain ⟨d, ds, rfl⟩ := List.exists_cons_of_ne_nil h.nonempty
  obtain ⟨hd, hds⟩ := List.forall_mem_cons.1 h.digit
  cases sign <;> simpa [Sign.spelling, isInteger, startsWithDigit, isSign, hd] using hds

theorem digits_literal (h : IsNumeral ds) : digits (sign.spelling ++ ds) = ds := by
  obtain ⟨d, ds, rfl⟩ := List.exists_cons_of_ne_nil h.nonempty
  have hd := isSign_of_isDigit (h.digit d List.mem_cons_self)
  cases sign with
  | none => simp [Sign.spelling, digits, hd]
  | plus => rfl
  | minus => rfl

/-- A literal denotes what its digits write, with its sign. -/
theorem intValue_literal (h : IsNumeral ds) :
    intValue (sign.spelling ++ ds) = sign.apply (decimal ds) := by
  rw [intValue, digits_literal sign h, natValue_eq_decimal]
  cases sign with
  | none =>
    have hne : ds.head? ≠ some '-' := by
      intro hd
      have hdigit := h.digit '-' (List.mem_of_head? hd)
      exact absurd hdigit (by decide)
    exact if_neg hne
  | plus => rfl
  | minus => rfl

/-- Every spelling of an integer is a sign, or none, and digits. -/
theorem exists_literal {cs : List Char} (h : isInteger cs = true) :
    ∃ sign ds, cs = Sign.spelling sign ++ ds ∧ IsNumeral ds := by
  match cs with
  | c :: cs =>
    simp only [isInteger, Bool.and_eq_true, Bool.or_eq_true, List.all_eq_true] at h
    obtain ⟨hstart, hcs⟩ := h
    rcases hstart with hc | ⟨hsign, hdigit⟩
    · exact ⟨.none, c :: cs, rfl, by simp, List.forall_mem_cons.2 ⟨hc, hcs⟩⟩
    · have hne : cs ≠ [] := by rintro rfl; cases hdigit
      simp only [isSign, Bool.or_eq_true, beq_iff_eq] at hsign
      rcases hsign with rfl | rfl
      · exact ⟨.plus, cs, rfl, hne, hcs⟩
      · exact ⟨.minus, cs, rfl, hne, hcs⟩

end Literal

theorem endsBefore_of_token {x : Lexeme} {line pos : Nat} {t : Token}
    (h : x.token line pos = .ok t) (rest : List Char) :
    x.endsBefore rest = !rest.head?.any t.goesOn := by
  rcases token_cases h with ⟨p, rfl, rfl⟩ | ⟨cs, rfl, rfl⟩ | ⟨cs, rfl, -, -, rfl⟩
  · cases rest <;> rfl
  · rfl
  · rfl

end Lexeme

theorem denotes_of_token {x : Lexeme} {line pos : Nat} {t : Token} (hx : x.isProper = true)
    (h : x.token line pos = .ok t) : Denotes x.spelling t := by
  rcases Lexeme.token_cases h with ⟨p, rfl, rfl⟩ | ⟨cs, rfl, rfl⟩ | ⟨cs, rfl, hfew, hrange, rfl⟩
  · exact .paren p
  · exact .symbol hx
  · obtain ⟨sign, ds, rfl, hds⟩ := Lexeme.exists_literal hx
    rw [Lexeme.digits_literal sign hds] at hfew
    rw [Lexeme.intValue_literal sign hds] at hrange ⊢
    exact .integer sign hds hfew hrange

theorem Denotes.exists_lexeme {cs : List Char} {t : Token} (h : Denotes cs t) :
    ∃ x : Lexeme, x.spelling = cs ∧ x.isProper = true ∧ ∀ line pos, x.token line pos = .ok t := by
  cases h with
  | paren p => exact ⟨.paren p, rfl, rfl, fun _ _ => rfl⟩
  | symbol h => exact ⟨.symbol cs, rfl, h, fun _ _ => rfl⟩
  | @integer sign ds h few range =>
    refine ⟨.integer _, rfl, Lexeme.isInteger_literal sign h, fun line pos => ?_⟩
    rw [Lexeme.token, Lexeme.digits_literal sign h, Lexeme.intValue_literal sign h,
      if_neg (Nat.not_lt.2 few), if_pos range]

theorem Denotes.ne_nil {cs : List Char} {t : Token} (h : Denotes cs t) : cs ≠ [] := by
  cases h with
  | paren p => simp
  | symbol h => rintro rfl; cases h
  | integer sign h => simp [h.nonempty]

/-- White space ends every spelling. -/
theorem Token.goesOn_of_isSpace (t : Token) {ch : Char} (h : Text.isSpace ch = true) :
    t.goesOn ch = false := by
  have halnum : ch.isAlphanum = false := by
    rw [Bool.eq_false_iff]
    intro hch
    rw [Text.isSpace_of_isAlphanum hch] at h
    cases h
  have hdigit : ch.isDigit = false := by
    simp only [Char.isAlphanum, Bool.or_eq_false_iff] at halnum
    exact halnum.2
  cases t with
  | paren p => rfl
  | int n => exact hdigit
  | symbol name => exact halnum

/-! ## Texts -/

/-- A spelling of a token, with the gap behind it. -/
structure Piece where
  spelling : List Char
  token : Token
  gap : List Char
  denotes : Denotes spelling token
  space : ∀ ch ∈ gap, Text.isSpace ch = true

namespace Piece

def text (p : Piece) : List Char := p.spelling ++ p.gap

/-- The piece `q` may stand behind `p`: there is a gap between them, or the spelling of `p` does not
go on with the first character of `q`. -/
def MayPrecede (p q : Piece) : Prop :=
  p.gap = [] → q.spelling.head?.any p.token.goesOn = false

/-- The spelling of a piece ends where what follows it begins. -/
theorem stops_of_isChain {p : Piece} {ps : List Piece} (h : (p :: ps).IsChain MayPrecede) :
    (p.gap ++ ps.flatMap text).head?.any p.token.goesOn = false := by
  cases hgap : p.gap with
  | cons ch gap => exact p.token.goesOn_of_isSpace (p.space ch (hgap ▸ List.mem_cons_self))
  | nil =>
    cases ps with
    | nil => rfl
    | cons q qs =>
      obtain ⟨hpq, -⟩ := List.isChain_cons_cons.1 h
      have hhead : ((q :: qs).flatMap text).head? = q.spelling.head? := by
        obtain ⟨z, zs, hz⟩ := List.exists_cons_of_ne_nil q.denotes.ne_nil
        simp [text, hz]
      rw [List.nil_append, hhead]
      exact hpq hgap

theorem isChain_cons {p : Piece} {ps : List Piece} (hps : ps.IsChain MayPrecede)
    (h : (p.gap ++ ps.flatMap text).head?.any p.token.goesOn = false) :
    (p :: ps).IsChain MayPrecede := by
  cases ps with
  | nil => exact .singleton p
  | cons q qs =>
    refine List.isChain_cons_cons.2 ⟨fun hgap => ?_, hps⟩
    obtain ⟨z, zs, hz⟩ := List.exists_cons_of_ne_nil q.denotes.ne_nil
    simpa [text, hgap, hz] using h

end Piece

/-! ## Scanning -/

namespace Cursor

/-- Scanning from the cursor gives the tokens, one a step, and then the end of the text. -/
inductive Yields : Cursor → List Token → Prop where
  | finish {c d : Cursor} (h : c.next = (.finish, d)) : Yields c []
  | token {c d : Cursor} {t : Located} {ts : List Token} (h : c.next = (.token t, d))
      (hd : Yields d ts) : Yields c (t.token :: ts)

/-- Pieces that may stand one behind the other are scanned one behind the other. -/
theorem yields_of_pieces {c : Cursor} {gap : List Char} {pieces : List Piece}
    (hgap : ∀ ch ∈ gap, Text.isSpace ch = true) (hrest : c.rest = gap ++ pieces.flatMap Piece.text)
    (hchain : pieces.IsChain Piece.MayPrecede) : c.Yields (pieces.map Piece.token) := by
  induction pieces generalizing c gap with
  | nil =>
    have hspace : ∀ ch ∈ c.rest, Text.isSpace ch = true := by simpa [hrest] using hgap
    have hnext := next_append_of_space hspace []
    rw [List.append_nil] at hnext
    exact .finish hnext
  | cons p ps ih =>
    obtain ⟨x, hx, hproper, htok⟩ := p.denotes.exists_lexeme
    have hends : x.endsBefore (p.gap ++ ps.flatMap Piece.text) = true := by
      rw [Lexeme.endsBefore_of_token (htok 0 0), Piece.stops_of_isChain hchain]
      rfl
    have hpass : c.Passes gap x ⟨p.gap ++ ps.flatMap Piece.text, c.line + gap.count '\n',
        c.pos + gap.length + x.spelling.length⟩ := by
      refine ⟨?_, hgap, Lexeme.take_spelling hproper hends, rfl, rfl⟩
      simp [hrest, hx, Piece.text]
    exact .token (hpass.next (htok _ _)) (ih p.space rfl hchain.tail)

/-- What is scanned without a fault is a gap and pieces that may stand one behind the other. -/
theorem Yields.exists_pieces {c : Cursor} {ts : List Token} (h : c.Yields ts) :
    ∃ (gap : List Char) (pieces : List Piece), (∀ ch ∈ gap, Text.isSpace ch = true) ∧
      c.rest = gap ++ pieces.flatMap Piece.text ∧ pieces.map Piece.token = ts ∧
      pieces.IsChain Piece.MayPrecede := by
  induction h with
  | @finish c d h => exact ⟨c.rest, [], space_of_finish h, by simp, rfl, .nil⟩
  | @token c d t ts h _ ih =>
    obtain ⟨gap, x, tok, hpass, rfl, htok⟩ := next_token h
    obtain ⟨gap', pieces, hgap', hrest, rfl, hchain⟩ := ih
    have hdenotes := denotes_of_token (Lexeme.isProper_of_take hpass.take) htok
    let piece : Piece := ⟨x.spelling, tok, gap', hdenotes, hgap'⟩
    have hends : (gap' ++ pieces.flatMap Piece.text).head?.any tok.goesOn = false := by
      have hx := Lexeme.endsBefore_of_take hpass.take
      rw [Lexeme.endsBefore_of_token htok, hrest] at hx
      simpa using hx
    refine ⟨gap, piece :: pieces, hpass.space, ?_, rfl, Piece.isChain_cons hchain hends⟩
    rw [hpass.rest, hrest]
    simp [piece, Piece.text]

end Cursor

/-- **The grammar of tokens.** Scanning a text gives the tokens `ts` and then the end exactly if the
text can be written as a gap and spellings of these tokens, each with a gap behind it, where no gap
is empty between a symbol and a letter or digit, or between an integer and a digit. -/
theorem yields_iff_written (text : String) (ts : List Token) :
    (Cursor.ofText text).Yields ts ↔
      ∃ (gap : List Char) (pieces : List Piece), (∀ ch ∈ gap, Text.isSpace ch = true) ∧
        text.toList = gap ++ pieces.flatMap Piece.text ∧ pieces.map Piece.token = ts ∧
        pieces.IsChain Piece.MayPrecede := by
  refine ⟨fun h => h.exists_pieces, ?_⟩
  rintro ⟨gap, pieces, hgap, hrest, rfl, hchain⟩
  exact Cursor.yields_of_pieces hgap hrest hchain

end PocketLisp
