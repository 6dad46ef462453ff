import PocketLisp.Operator
import PocketLisp.Proofs.ReadingLaw

/-!
# The faults of source texts

Which faults can come of a source text. A text is refused when it is read, or one of its expressions
has no value. Some faults of the language are none of these: a parenthesis inside a tree, a stray
token, a foreign object and a name that is no symbol can only be handed in from outside.

* `Fault.OfText`: the faults that a source text can end with, each with what is known of its data.
* `Fault.OfText.not_internal`: none of the faults from outside is among them.
* `LexFault.Genuine`, `fault_of_readText`: what reading refuses a text for.
* `Operator.fault_of_apply`: how an operator fails.
-/

namespace PocketLisp

/-- A fault that a source text can end with. -/
inductive Fault.OfText : Fault → Prop where
  /-- A character that begins no token, or an integer literal out of range. -/
  | lexical {f : LexFault} (h : f.kind = .lexical) : OfText (.lex f)
  /-- An integer literal with more digits than are converted. -/
  | tooManyDigits {count : Nat} (h : maxDigits < count) : OfText (.lex (.tooManyDigits count))
  | surplusClose : OfText (.parse .surplusClose)
  | leftOpen {count : Nat} (h : 0 < count) : OfText (.parse (.leftOpen count))
  | emptyList : OfText (.eval .emptyList)
  | badHead {head : Value} (h : ∀ x, head ≠ .symbol x) : OfText (.eval (.badHead head))
  | formOperands (f : Form) : OfText (.eval (.formOperands f))
  | operatorOperands (o : Operator) : OfText (.eval (.operatorOperands o))
  | mismatch (o : Operator) : OfText (.eval (.mismatch o))
  | overflow (o : Operator) (l r : Int) : OfText (.eval (.overflow o l r))
  | badTarget {target : Value} (h : ∀ x, target ≠ .symbol x) : OfText (.eval (.badTarget target))
  | unbound {x : String} (h : Head.ofName x = .ordinary) : OfText (.eval (.unbound x))

/-- The faults from outside are not faults of a text. -/
theorem Fault.OfText.not_internal {f : Fault} (h : f.OfText) :
    (∀ p, f ≠ .eval (.marker p)) ∧ (∀ v, f ≠ .parse (.stray v)) ∧ (∀ g, f ≠ .name g) ∧
      f.kind ≠ .hostType := by
  refine ⟨?_, ?_, ?_, ?_⟩
  · rintro p rfl; cases h
  · rintro v rfl; cases h
  · rintro g rfl; cases h
  · intro hkind
    cases h with
    | lexical h =>
      have hlexical : Kind.lexical = .hostType := h.symm.trans hkind
      cases hlexical
    | _ => cases hkind

/-! ## Reading -/

/-- A spelling that is no token is an integer literal. -/
theorem Lexeme.fault_of_token {x : Lexeme} {line pos : Nat} {f : LexFault}
    (h : x.token line pos = .error f) :
    ∃ cs, x = .integer cs ∧
      (maxDigits < (digits cs).length ∧ f = .tooManyDigits (digits cs).length ∨
        f = .outOfRange (String.ofList cs) line pos) := by
  cases x with
  | paren p => cases h
  | symbol cs => cases h
  | integer cs =>
    refine ⟨cs, rfl, ?_⟩
    rw [token] at h
    split at h
    · next hmany => cases h; exact .inl ⟨hmany, rfl⟩
    · split at h
      · cases h
      · cases h; exact .inr rfl

/-- What is known of a lexical fault of a text: a literal out of range is spelled as an integer, and
one that is not converted has too many digits. -/
def LexFault.Genuine : LexFault → Prop
  | .unrecognized .. => True
  | .outOfRange spelling _ _ => Lexeme.isInteger spelling.toList = true
  | .tooManyDigits count => maxDigits < count

/-- The step: where scanning meets a fault. -/
theorem Cursor.genuine_of_next {c d : Cursor} {f : LexFault} (h : c.next = (.fault f, d)) :
    f.Genuine := by
  unfold next takeToken at h
  split at h
  · next x rest htake =>
    split at h
    · cases h
    · next htok =>
      cases h
      obtain ⟨cs, rfl, ⟨hmany, rfl⟩ | rfl⟩ := Lexeme.fault_of_token htok
      · exact hmany
      · rw [LexFault.Genuine, String.toList_ofList]
        exact Lexeme.isProper_of_take htake
  · split at h
    · cases h
    · cases h; trivial

/-- The run: scanning stops at a fault of the text. -/
theorem Cursor.genuine_of_fault? {c : Cursor} {f : LexFault} (h : c.fault? = some f) :
    f.Genuine := by
  induction c using scanInduct with
  | finish c d hnext => rw [fault?_of_finish hnext] at h; cases h
  | fault c g d hnext =>
    rw [fault?_of_fault hnext] at h
    cases h
    exact genuine_of_next hnext
  | token c t d hnext ih => rw [fault?_of_token hnext] at h; exact ih h

theorem LexFault.Genuine.ofText {f : LexFault} (h : f.Genuine) : (Fault.lex f).OfText := by
  cases f with
  | unrecognized line pos => exact .lexical rfl
  | outOfRange spelling line pos => exact .lexical rfl
  | tooManyDigits count => exact .tooManyDigits h

/-- What reading refuses a text for: the fault that scanning stops at, or a parenthesis. -/
theorem fault_of_readText {text : String} {f : Fault} (h : (readText text).result = .error f) :
    (∃ g : LexFault, (Cursor.ofText text).fault? = some g ∧ f = .lex g) ∨
      f = .parse .surplusClose ∨ ∃ count, 0 < count ∧ f = .parse (.leftOpen count) := by
  rcases readText_cases text with ⟨-, hresult⟩ | ⟨b, -, -, hresult⟩
  · rw [hresult] at h; cases h; exact .inr (.inl rfl)
  rw [hresult] at h
  split at h
  · next g hg => cases h; exact .inl ⟨g, hg, rfl⟩
  · rcases b.finish_cases with ⟨-, hb⟩ | ⟨hbelow, hb⟩
    · rw [hb] at h; cases h
    · rw [hb] at h; cases h; exact .inr (.inr ⟨_, List.length_pos_iff.2 hbelow, rfl⟩)

/-! ## Operators -/

namespace Operator

variable {o : Operator} {l r : Value} {f : EvalFault}

theorem fault_of_onInts {g : Int → Int → Int}
    (h : onInts o (fun m n => checked o m n (g m n)) l r = .error f) :
    f = .mismatch o ∨ ∃ m n, f = .overflow o m n := by
  unfold onInts at h
  split at h
  · next m n =>
    dsimp only [checked] at h
    split at h
    · cases h
    · cases h; exact .inr ⟨m, n, rfl⟩
  · cases h; exact .inl rfl

theorem fault_of_compared {ints : Int → Int → Bool} {texts : String → String → Bool}
    (h : compared o ints texts l r = .error f) : f = .mismatch o := by
  unfold compared at h
  split at h
  · cases h
  · cases h
  · cases h; rfl

theorem fault_of_apply (h : o.apply l r = .error f) :
    f = .mismatch o ∨ ∃ m n, f = .overflow o m n := by
  cases o with
  | add => exact fault_of_onInts h
  | subtract => exact fault_of_onInts h
  | multiply => exact fault_of_onInts h
  | greater => exact .inl (fault_of_compared h)
  | less => exact .inl (fault_of_compared h)
  | equal => cases h

end Operator

end PocketLisp
