import PocketLisp.Proofs.Stepping

/-!
# Scanning behind other text

Where a text stands decides which places scanning tells, and nothing else. So a text behind another
one, with a newline between them, is scanned as it is on its own, call by call, and every place is
moved by what stands before it. This holds for faults as well, and for what is scanned behind them.

* `LexFault.moved`, `Scan.moved`, `Cursor.moved`: so many lines and characters farther on.
* `Cursor.next_moved`, `Cursor.steps_moved`: one call and any number of calls at a moved cursor.
* `Cursor.followedBy`: a cursor in a text that goes on. `Cursor.behind` is the place where it does.
* `Cursor.steps_followedBy`: a text without a fault and then what follows it.
* `steps_newline`: two texts with a newline between them.
-/

namespace PocketLisp

/-- The fault told `lines` lines and `chars` characters farther on, if it has a place. -/
def LexFault.moved (lines chars : Nat) : LexFault → LexFault
  | .unrecognized line pos => .unrecognized (line + lines) (pos + chars)
  | .outOfRange spelling line pos => .outOfRange spelling (line + lines) (pos + chars)
  | .tooManyDigits count => .tooManyDigits count

/-- The same answer at a place `lines` lines and `chars` characters farther on. -/
def Scan.moved (lines chars : Nat) : Scan → Scan
  | .token t => .token ⟨t.line + lines, t.pos + chars, t.token⟩
  | .finish => .finish
  | .fault f => .fault (f.moved lines chars)

/-- The cursor before the same text, `lines` lines and `chars` characters farther on. -/
def Cursor.moved (lines chars : Nat) (c : Cursor) : Cursor :=
  ⟨c.rest, c.line + lines, c.pos + chars⟩

/-- The cursor in a text that goes on with `tail`. -/
def Cursor.followedBy (tail : List Char) (c : Cursor) : Cursor :=
  { c with rest := c.rest ++ tail }

/-- The cursor before `tail`, behind all that is left before `c`. -/
def Cursor.behind (tail : List Char) (c : Cursor) : Cursor :=
  ⟨tail, c.line + c.rest.count '\n', c.pos + c.rest.length⟩

/-! ## A moved cursor -/

section Moved

variable (lines chars : Nat)

/-- A spelling has the same token everywhere, and it is refused everywhere for the same reason. -/
theorem Lexeme.token_moved (x : Lexeme) (line pos : Nat) :
    x.token (line + lines) (pos + chars) =
      (x.token line pos).mapError (LexFault.moved lines chars) := by
  cases x with
  | paren p => rfl
  | symbol cs => rfl
  | integer cs =>
    simp only [token]
    split_ifs <;> rfl

namespace Cursor

theorem skipGap_moved (c : Cursor) :
    (c.moved lines chars).skipGap = c.skipGap.moved lines chars := by
  simp only [skipGap, skipFrom_eq, moved]
  congr 1 <;> omega

theorem takeToken_moved (c : Cursor) :
    (c.moved lines chars).takeToken =
      c.takeToken.map (Scan.moved lines chars) (Cursor.moved lines chars) := by
  have hrest : (c.moved lines chars).rest = c.rest := rfl
  simp only [takeToken, hrest]
  cases Lexeme.take c.rest with
  | none => by_cases hempty : c.rest.isEmpty <;> simp [hempty, Scan.moved, LexFault.moved, moved]
  | some taken =>
    obtain ⟨x, rest⟩ := taken
    have hpass : (c.moved lines chars).pass x rest = (c.pass x rest).moved lines chars := by
      simp only [pass, moved]
      congr 1
      omega
    have htoken : x.token (c.moved lines chars).line (c.moved lines chars).pos =
        (x.token c.line c.pos).mapError (LexFault.moved lines chars) :=
      x.token_moved lines chars c.line c.pos
    simp only [hpass, htoken]
    cases x.token c.line c.pos with
    | ok t => rfl
    | error f => rfl

/-- The step: a call at a moved cursor gives the same answer at a moved place. -/
theorem next_moved (c : Cursor) :
    (c.moved lines chars).next =
      c.next.map (Scan.moved lines chars) (Cursor.moved lines chars) := by
  rw [next, skipGap_moved, takeToken_moved, next]

/-- The run: so do any number of calls, whatever they answer. -/
theorem steps_moved (c : Cursor) (n : Nat) :
    (c.moved lines chars).steps n =
      (c.steps n).map (Prod.map (Scan.moved lines chars) (Cursor.moved lines chars)) := by
  induction n generalizing c with
  | zero => rfl
  | succ n ih =>
    rw [steps, steps, next_moved, List.map_cons, Prod.map_snd, ih]

end Cursor

end Moved

/-! ## A text that goes on -/

namespace Cursor

theorem steps_congr {c d : Cursor} (h : c.next = d.next) (n : Nat) : c.steps n = d.steps n := by
  cases n with
  | zero => rfl
  | succ n => rw [steps, steps, h]

theorem Passes.behind_eq {c d : Cursor} {gap : List Char} {x : Lexeme} (h : c.Passes gap x d)
    (tail : List Char) : d.behind tail = c.behind tail := by
  simp only [behind, h.rest, h.line, h.pos, List.count_append, List.length_append,
    h.count_newline]
  congr 1 <;> omega

theorem steps_tokens (c : Cursor) :
    (c.steps c.tokens.length).map (·.1) = c.tokens.map .token := by
  induction c using scanInduct with
  | finish c d hnext => rw [tokens_of_finish hnext]; rfl
  | fault c f d hnext => rw [tokens_of_fault hnext]; rfl
  | token c t d hnext ih =>
    rw [tokens_of_token hnext, List.length_cons, steps, hnext, List.map_cons, List.map_cons, ih]

theorem finish_after_tokens {c : Cursor} (h : c.fault? = none) :
    (c.after c.tokens.length).next.1 = .finish := by
  induction c using scanInduct with
  | fault c f d hnext => rw [fault?_of_fault hnext] at h; cases h
  | finish c d hnext => rw [tokens_of_finish hnext, List.length_nil, after, hnext]
  | token c t d hnext ih =>
    rw [fault?_of_token hnext] at h
    rw [tokens_of_token hnext, List.length_cons, after_succ, hnext]
    exact ih h

/-- The calls on a text without a fault that goes on, and not with its last spelling: first its own
tokens, and then those that a cursor behind it would answer. -/
theorem steps_followedBy {c : Cursor} (h : c.fault? = none) {tail : List Char}
    (hstop : stops tail = true) (n : Nat) :
    (c.followedBy tail).steps (c.tokens.length + n) =
      (c.steps c.tokens.length).map (Prod.map id (followedBy tail)) ++
        (c.behind tail).steps n := by
  induction c using scanInduct with
  | fault c f d hnext => rw [fault?_of_fault hnext] at h; cases h
  | finish c d hnext =>
    have hseam : (c.followedBy tail).next = (c.behind tail).next :=
      next_append_of_space (space_of_finish hnext) tail
    rw [tokens_of_finish hnext, List.length_nil, Nat.zero_add, steps_congr hseam]
    rfl
  | token c t d hnext ih =>
    have hseam : (c.followedBy tail).next = (.token t, d.followedBy tail) := next_append hnext hstop
    obtain ⟨gap, x, -, hpass, -⟩ := next_token hnext
    rw [fault?_of_token hnext] at h
    rw [tokens_of_token hnext, List.length_cons, Nat.add_right_comm, steps, hseam, ih h,
      hpass.behind_eq tail, steps, hnext, List.map_cons]
    rfl

/-- Behind a text and a newline, a text is scanned as from its own front, with the places moved. -/
theorem steps_behind_newline (s₁ s₂ : String) (n : Nat) :
    ((ofText s₁).behind ('\n' :: s₂.toList)).steps n =
      ((ofText s₂).moved (1 + s₁.toList.count '\n') (s₁.length + 1)).steps n := by
  refine steps_congr ?_ n
  have hskip : ((ofText s₁).behind ('\n' :: s₂.toList)).skipGap =
      ((ofText s₂).moved (1 + s₁.toList.count '\n') (s₁.length + 1)).skipGap := by
    simp only [skipGap, behind, moved, ofText, skipFrom, ↓reduceIte, String.length_toList]
    congr 1
    omega
  rw [next, next, hskip]

end Cursor

/-- **A newline between two texts.** Let the calls on a first text take its tokens and then be at
its end. With a newline and a second text behind it, the calls take the same tokens from the same
places, and go on as they do on the second text alone, for any number of calls and whatever these
answer: the tokens and the kinds of faults are the same, and every line and offset, of the answers
and of the cursor, is moved by what stands before the second text. -/
theorem steps_newline (s₁ s₂ : String) (h : (Cursor.ofText s₁).fault? = none) (n : Nat) :
    let first := Cursor.ofText s₁
    let count := first.tokens.length
    let lines := 1 + s₁.toList.count '\n'
    let chars := s₁.length + 1
    (first.steps count).map (·.1) = first.tokens.map .token ∧
    (first.after count).next.1 = .finish ∧
    (Cursor.ofText (s₁ ++ "\n" ++ s₂)).steps (count + n) =
      (first.steps count).map (Prod.map id (Cursor.followedBy ('\n' :: s₂.toList))) ++
        ((Cursor.ofText s₂).steps n).map
          (Prod.map (Scan.moved lines chars) (Cursor.moved lines chars)) := by
  intro first count lines chars
  have hboth : Cursor.ofText (s₁ ++ "\n" ++ s₂) = first.followedBy ('\n' :: s₂.toList) := by
    simp [Cursor.ofText, Cursor.followedBy, first]
  refine ⟨first.steps_tokens, Cursor.finish_after_tokens h, ?_⟩
  rw [hboth, Cursor.steps_followedBy h rfl n, Cursor.steps_behind_newline, Cursor.steps_moved]

/-- A text of two lines that ends in white space, and behind it a literal out of range, a name and a
character that begins no token and is met again. -/
theorem steps_newline_resumed :
    (Cursor.ofText "(f\n ").fault? = none ∧
    ((Cursor.ofText ("(f\n " ++ "\n" ++ "9999999999 a\n$")).steps 6).map (·.1) =
      [.token ⟨1, 0, .paren .opening⟩, .token ⟨1, 1, .symbol "f"⟩,
        .fault (.outOfRange "9999999999" 3 5), .token ⟨3, 16, .symbol "a"⟩,
        .fault (.unrecognized 4 18), .fault (.unrecognized 4 18)] := by
  have hfirst : (Cursor.ofText "(f\n ").fault? = none := by decide +kernel
  have hcount : (Cursor.ofText "(f\n ").tokens.length = 2 := by decide +kernel
  obtain ⟨-, -, hsteps⟩ := steps_newline "(f\n " "9999999999 a\n$" hfirst 4
  rw [hcount] at hsteps
  refine ⟨hfirst, ?_⟩
  rw [hsteps]
  decide +kernel

end PocketLisp
