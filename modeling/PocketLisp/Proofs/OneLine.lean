import PocketLisp.Proofs.RoundTrip
import PocketLisp.Proofs.WellFormed

/-!
# Forms of one line

What a program prints and what is said about its faults is written by the line, so no value and no
message may run over the end of one. Names are the only data that could bring a newline: inside
messages they are quoted, and where they are written bare they have the spelling of a token.

* `OneLine`: a text without a newline.
* `Value.oneLine_shown`: the form of a value inside messages, whatever the value is.
* `Value.WellFormed.oneLine_debug`: the printed form of a value, if its names are of one line.
* `Fault.WellFormed.oneLine_message`: the wording of a fault of a text.
* `Mentions.oneLine`: the names that a text mentions.
-/

namespace PocketLisp

/-- There is no newline in `s`. -/
def OneLine (s : String) : Prop := '\n' ∉ s.toList

instance (s : String) : Decidable (OneLine s) := inferInstanceAs (Decidable ('\n' ∉ s.toList))

namespace OneLine

theorem append {s t : String} (hs : OneLine s) (ht : OneLine t) : OneLine (s ++ t) := by
  rw [OneLine, String.toList_append, List.mem_append, not_or]
  exact ⟨hs, ht⟩

theorem between {left s right : String} (hleft : OneLine left) (hright : OneLine right)
    (hs : OneLine s) : OneLine (left ++ s ++ right) :=
  (hleft.append hs).append hright

theorem of_isProper {x : Lexeme} {s : String} (h : x.isProper = true)
    (hs : s.toList = x.spelling) : OneLine s := by
  intro hmem
  rw [hs] at hmem
  have hspace := Lexeme.isSpace_of_mem_spelling h hmem
  revert hspace
  decide

theorem toString_int (n : Int) : OneLine (toString n) :=
  of_isProper (x := .integer (toString n).toList) (Lexeme.isInteger_toString n) rfl

theorem toString_nat (n : Nat) : OneLine (toString n) := toString_int n

theorem joined {items : List String} (h : ∀ s ∈ items, OneLine s) :
    OneLine (Value.joined items) := by
  rw [Value.joined]
  induction items with
  | nil => decide
  | cons s items ih =>
    have hs := h s List.mem_cons_self
    have hrest := ih fun t ht => h t (List.mem_cons_of_mem s ht)
    cases items with
    | nil => rwa [String.intercalate_singleton]
    | cons t items =>
      rw [String.intercalate_cons_cons]
      exact (hs.append (by decide)).append hrest

end OneLine

/-! ## Quoted texts -/

namespace Text

theorem newline_notMem_toDigits (n : Nat) : '\n' ∉ Nat.toDigits 16 n := by
  induction n using Nat.strongRecOn with
  | ind n ih =>
    rw [Nat.toDigits_eq_if (by decide)]
    split
    · simp
    · next h =>
      rw [List.mem_append, not_or]
      exact ⟨ih (n / 16) (by omega), by simp⟩

theorem newline_notMem_escapeCode (n : Nat) : '\n' ∉ escapeCode n := by
  have hhex (width : Nat) : '\n' ∉ hex width n := by
    simp [hex, newline_notMem_toDigits]
  unfold escapeCode
  split_ifs <;> simp [hhex]

theorem newline_notMem_escape {quote : Char} (hquote : quote ≠ '\n') (c : Char) :
    '\n' ∉ escape quote c := by
  unfold escape
  split_ifs with hown htab hnewline hreturn
  · rcases hown with rfl | rfl
    · simpa using hquote.symm
    · simp
  · simp
  · simp
  · simp
  · simpa using Ne.symm hnewline
  · exact newline_notMem_escapeCode _

theorem oneLine_quoted (s : String) : OneLine (quoted s) := by
  have hquote : quoteFor s.toList ≠ '\n' := by
    unfold quoteFor
    split <;> decide
  simp [OneLine, quoted, hquote.symm, newline_notMem_escape hquote]

end Text

/-! ## Values and messages -/

theorem oneLine_truthText (b : Bool) : OneLine (truthText b) := by
  cases b <;> decide

theorem Paren.oneLine_text (p : Paren) : OneLine p.text := by
  cases p <;> decide

theorem Operator.oneLine_name (o : Operator) : OneLine o.name := by
  cases o <;> decide

theorem Foreign.oneLine_shown (x : Foreign) : OneLine x.shown := by
  cases x with
  | text s => exact Text.oneLine_quoted s
  | truth b => exact oneLine_truthText b
  | float n => exact (OneLine.toString_int n).append (by decide)
  | nothing => decide

theorem Value.oneLine_shown (v : Value) : OneLine v.shown := by
  induction v with
  | int n => exact .toString_int n
  | symbol x => exact .between (by decide) (by decide) (Text.oneLine_quoted x)
  | list items ih =>
    rw [shown_list]
    exact .between (by decide) (by decide) (.joined (by simpa using ih))
  | bool b => exact oneLine_truthText b
  | marker p => exact p.oneLine_text
  | foreign x => exact x.oneLine_shown

section WellFormed

variable {names : Set String}

/-- A printed value is of one line, if its names are. -/
theorem Value.WellFormed.oneLine_debug (hnames : ∀ x ∈ names, OneLine x) {v : Value}
    (h : v.WellFormed names) : OneLine v.debug := by
  induction h with
  | @leaf v h =>
    cases v with
    | int n => exact .between (by decide) (by decide) (.toString_int n)
    | symbol x => exact .between (by decide) (by decide) (hnames x h)
    | bool b => exact oneLine_truthText b
    | _ => exact h.elim
  | @list items _ ih =>
    rw [debug_list]
    exact .between (by decide) (by decide) (.joined (by simpa using ih))

theorem oneLine_tooManyDigitsText (count : Nat) : OneLine (tooManyDigitsText count) :=
  .append (.append (.between (by decide) (by decide) (.toString_nat maxDigits))
    (.toString_nat count)) (by decide)

theorem oneLine_placedText {message : String} (h : OneLine message) (line pos : Int) :
    OneLine (placedText message line pos) := by
  have hline := (h.append (by decide : OneLine " at line ")).append (.toString_int line)
  exact (hline.append (by decide)).append (.toString_int pos)

/-- The wording of a fault of a text is of one line. -/
theorem Fault.WellFormed.oneLine_message (hnames : ∀ x ∈ names, OneLine x) {f : Fault}
    (h : f.WellFormed names) : OneLine f.message := by
  cases h.ofText with
  | @lexical g hkind =>
    cases g with
    | unrecognized line pos => exact oneLine_placedText (by decide) line pos
    | outOfRange spelling line pos =>
      have hspelling : OneLine spelling :=
        .of_isProper (x := .integer spelling.toList) (h.literal _ rfl) rfl
      exact oneLine_placedText (.between (by decide) (by decide) hspelling) line pos
    | tooManyDigits count => cases hkind
  | tooManyDigits _ => exact oneLine_tooManyDigitsText _
  | surplusClose => decide +kernel
  | leftOpen _ => exact .between (by decide) (by decide) (.toString_nat _)
  | emptyList => decide +kernel
  | badHead _ => exact .append (by decide) (Value.oneLine_shown _)
  | formOperands f => cases f <;> decide +kernel
  | operatorOperands o => exact .append o.oneLine_name (by decide)
  | mismatch o => cases o <;> decide +kernel
  | overflow o l r =>
    have hname : OneLine ("integer overflow in (" ++ o.name ++ " ") :=
      .between (by decide) (by decide) o.oneLine_name
    have hblank : OneLine " " := by decide
    have hcall := ((hname.append (.toString_int l)).append hblank).append (.toString_int r)
    exact hcall.append (by decide)
  | badTarget _ => exact .append (by decide) (Value.oneLine_shown _)
  | unbound _ => exact .append (by decide) (hnames _ (h.unbound _ rfl))

end WellFormed

theorem Mentions.oneLine {text x : String} (h : Mentions text x) : OneLine x := by
  obtain ⟨t, ht, htoken, -⟩ := h
  obtain ⟨pre, y, post, hstands⟩ := Cursor.stands_of_mem_tokens ht
  have htok := hstands.token
  rw [htoken] at htok
  rcases Lexeme.token_cases htok with ⟨p, -, hp⟩ | ⟨cs, rfl, hcs⟩ | ⟨cs, -, -, -, hcs⟩
  · cases hp
  · cases hcs
    exact .of_isProper (Lexeme.isProper_of_take hstands.take) String.toList_ofList
  · cases hcs

end PocketLisp
