import PocketLisp.Proofs.Grammar
import PocketLisp.Proofs.TextFault

/-!
# Scanning call by call

A cursor may be asked for the next token any number of times, whatever it answered before: it goes
on behind a literal that it could not convert, and it stays where nothing can be taken any more.

* `Cursor.after`: the cursor after so many calls. `Cursor.steps_eq_map` says what these answered.
* `Cursor.Moves`: what one call passes over, answers and leaves. `Cursor.exists_moves` says that
  this is all a call can do; the other facts about calls are read off it.
* `Cursor.In`: the place of a cursor in a text, kept by every call (`Cursor.Spans.place`).
* `Cursor.next_of_isFinal`: the end of the text and a character that begins no token are final.
* `scanning_law`: the state of scanning after any number of calls.
-/

namespace PocketLisp

/-- The line of the offset `pos`: one more than the newlines before it. -/
def lineAt (text : List Char) (pos : Nat) : Nat := 1 + (text.take pos).count '\n'

/-- An answer behind which scanning does not go on. -/
def Scan.isFinal : Scan → Bool
  | .finish | .fault (.unrecognized ..) => true
  | _ => false

namespace Cursor

/-! ## Any number of calls -/

/-- The cursor after `k` calls, whatever they answered. -/
def after (c : Cursor) : Nat → Cursor
  | 0 => c
  | k + 1 => (c.after k).next.2

theorem after_add (c : Cursor) (k i : Nat) : c.after (k + i) = (c.after k).after i := by
  induction i with
  | zero => rfl
  | succ i ih => rw [← Nat.add_assoc, after, after, ih]

theorem after_succ (c : Cursor) (k : Nat) : c.after (k + 1) = c.next.2.after k := by
  rw [Nat.add_comm, after_add]
  rfl

theorem steps_eq_map (c : Cursor) (n : Nat) :
    c.steps n = (List.range n).map fun k => (c.after k).next := by
  induction n generalizing c with
  | zero => rfl
  | succ n ih =>
    rw [steps, ih, List.range_succ_eq_map, List.map_cons, List.map_map]
    congr 2
    funext k
    simp only [Function.comp_apply, after_succ]

theorem mem_steps {c : Cursor} {n : Nat} {r : Scan × Cursor} :
    r ∈ c.steps n ↔ ∃ k < n, (c.after k).next = r := by
  simp [steps_eq_map]

/-! ## One call -/

/-- What one call at `c` can do: it passes the white space `gap` and the spelling `word` behind it,
answers, and leaves a cursor. -/
inductive Moves (c : Cursor) : List Char → List Char → Scan → Cursor → Prop where
  /-- A spelling is a token. -/
  | token {gap : List Char} {x : Lexeme} {t : Token} {d : Cursor} (h : c.Passes gap x d)
      (ht : x.token d.line (c.pos + gap.length) = .ok t) :
      Moves c gap x.spelling (.token ⟨d.line, c.pos + gap.length, t⟩) d
  /-- An integer literal is no token. -/
  | literal {gap cs : List Char} {f : LexFault} {d : Cursor} (h : c.Passes gap (.integer cs) d)
      (hf : (Lexeme.integer cs).token d.line (c.pos + gap.length) = .error f) :
      Moves c gap cs (.fault f) d
  /-- There is only white space left. -/
  | finish (h : ∀ ch ∈ c.rest, Text.isSpace ch = true) :
      Moves c c.rest [] .finish ⟨[], c.line + c.rest.count '\n', c.pos + c.rest.length⟩
  /-- No spelling begins with the next character. -/
  | unrecognized {gap rest : List Char} {ch : Char} (h : c.rest = gap ++ ch :: rest)
      (space : ∀ z ∈ gap, Text.isSpace z = true) (hch : Text.isSpace ch = false)
      (htake : Lexeme.take (ch :: rest) = none) :
      Moves c gap []
        (.fault (.unrecognized (c.line + gap.count '\n') (c.pos + gap.length)))
        ⟨ch :: rest, c.line + gap.count '\n', c.pos + gap.length⟩

/-- A spelling that is no token is passed all the same. -/
theorem Passes.next_error {c d : Cursor} {gap : List Char} {x : Lexeme} (h : c.Passes gap x d)
    {f : LexFault} (hf : x.token d.line (c.pos + gap.length) = .error f) :
    c.next = (.fault f, d) := by
  have hd : (⟨x.spelling ++ d.rest, d.line, c.pos + gap.length⟩ : Cursor).pass x d.rest = d := by
    rw [pass, ← h.pos]
  rw [Cursor.next, h.skipGap, takeToken, h.take]
  simp only [hf, hd]

/-- Every call does one of these. -/
theorem exists_moves (c : Cursor) : ∃ gap word, c.Moves gap word c.next.1 c.next.2 := by
  have hskip : c.skipGap = ⟨c.rest.dropWhile Text.isSpace,
      c.line + (c.rest.takeWhile Text.isSpace).count '\n',
      c.pos + (c.rest.takeWhile Text.isSpace).length⟩ := by rw [skipGap, skipFrom_eq]
  have hspace : ∀ ch ∈ c.rest.takeWhile Text.isSpace, Text.isSpace ch = true :=
    fun ch hch => List.all_eq_true.1 List.all_takeWhile ch hch
  have hsplit := List.takeWhile_append_dropWhile (p := Text.isSpace) (l := c.rest)
  cases htake : Lexeme.take c.skipGap.rest with
  | some taken =>
    obtain ⟨x, rest⟩ := taken
    have hpass := passes_of_take htake
    cases htok : x.token (c.skipGap.pass x rest).line
        (c.pos + (c.rest.takeWhile Text.isSpace).length) with
    | ok t => rw [hpass.next htok]; exact ⟨_, _, .token hpass htok⟩
    | error f =>
      obtain ⟨cs, rfl, -⟩ := Lexeme.fault_of_token htok
      rw [hpass.next_error htok]
      exact ⟨_, _, .literal hpass htok⟩
  | none =>
    cases hdrop : c.rest.dropWhile Text.isSpace with
    | nil =>
      rw [hdrop, List.append_nil] at hsplit
      rw [hdrop, hsplit] at hskip
      rw [hsplit] at hspace
      rw [next, takeToken, hskip]
      exact ⟨_, _, .finish hspace⟩
    | cons ch rest =>
      rw [hdrop] at hskip hsplit
      rw [hskip] at htake
      have hch : Text.isSpace ch = false := by
        have hhead := Lexeme.head?_dropWhile_any Text.isSpace c.rest
        rw [hdrop] at hhead
        exact hhead
      rw [next, takeToken, hskip]
      simp only [htake]
      exact ⟨_, _, .unrecognized hsplit.symm hspace hch htake⟩

theorem moves_of_next {c d : Cursor} {s : Scan} (h : c.next = (s, d)) :
    ∃ gap word, c.Moves gap word s d := by
  have hmove := c.exists_moves
  rw [h] at hmove
  exact hmove

/-- The end of the text and a character that begins no token are answered again and again, and the
cursor does not move any more. -/
theorem next_of_isFinal {c d : Cursor} {s : Scan} (h : c.next = (s, d)) (hs : s.isFinal = true) :
    d.next = (s, d) := by
  obtain ⟨gap, word, hmove⟩ := moves_of_next h
  cases hmove with
  | token hpass ht => cases hs
  | literal hpass hf =>
    obtain ⟨cs, -, ⟨-, rfl⟩ | rfl⟩ := Lexeme.fault_of_token hf
    · cases hs
    · cases hs
  | finish hspace => rfl
  | unrecognized hrest hspace hch htake =>
    rw [next, skipGap, skipFrom_eq, List.takeWhile_cons_of_neg (by simp [hch]),
      List.dropWhile_cons_of_neg (by simp [hch]), takeToken]
    simp only [htake]
    rfl

theorem next_after_of_isFinal {c : Cursor} (h : c.next.1.isFinal = true) (i : Nat) :
    (c.after i).next = c.next := by
  induction i with
  | zero => rfl
  | succ i ih =>
    rw [after, ih]
    exact next_of_isFinal rfl h

/-! ## Places -/

/-- From `c`, over the white space `gap` and over `word`, which stays on its line, to `d`. -/
structure Spans (c : Cursor) (gap word : List Char) (d : Cursor) : Prop where
  rest : c.rest = gap ++ (word ++ d.rest)
  space : ∀ ch ∈ gap, Text.isSpace ch = true
  oneLine : word.count '\n' = 0
  line : d.line = c.line + gap.count '\n'
  pos : d.pos = c.pos + gap.length + word.length

theorem Passes.spans {c d : Cursor} {gap : List Char} {x : Lexeme} (h : c.Passes gap x d) :
    c.Spans gap x.spelling d :=
  ⟨h.rest, h.space, h.count_newline, h.line, h.pos⟩

theorem Moves.spans {c d : Cursor} {gap word : List Char} {s : Scan}
    (h : c.Moves gap word s d) : c.Spans gap word d := by
  cases h with
  | token hpass ht => exact hpass.spans
  | literal hpass hf => exact hpass.spans
  | finish hspace => exact ⟨by simp, hspace, rfl, rfl, rfl⟩
  | unrecognized hrest hspace hch htake => exact ⟨hrest, hspace, rfl, rfl, rfl⟩

/-- The cursor stands inside `text`, and its place is the place of what it has before it. -/
structure In (c : Cursor) (text : List Char) : Prop where
  pos_le : c.pos ≤ text.length
  rest : c.rest = text.drop c.pos
  line : c.line = lineAt text c.pos

theorem in_ofText (text : String) : (ofText text).In text.toList := ⟨Nat.zero_le _, rfl, rfl⟩

section Place

variable {c d : Cursor} {gap word text : List Char}

theorem Spans.take_eq (h : c.Spans gap word d) (hc : c.In text) :
    text.take d.pos = text.take c.pos ++ (gap ++ word) := by
  rw [h.pos, Nat.add_assoc, ← List.length_append, List.take_add, ← hc.rest, h.rest,
    ← List.append_assoc, List.take_left]

theorem Spans.lineAt_eq (h : c.Spans gap word d) (hc : c.In text) :
    lineAt text (c.pos + gap.length) = d.line := by
  rw [lineAt, List.take_add, ← hc.rest, h.rest, List.take_left, List.count_append, h.line, hc.line,
    lineAt, Nat.add_assoc]

/-- The step: a call keeps the cursor in its text. -/
theorem Spans.place (h : c.Spans gap word d) (hc : c.In text) : d.In text := by
  have hlength := congrArg List.length h.rest
  rw [hc.rest] at hlength
  simp only [List.length_drop, List.length_append] at hlength
  have hpos := h.pos
  have hle := hc.pos_le
  refine ⟨by omega, ?_, ?_⟩
  · rw [hpos, Nat.add_assoc, ← List.length_append, ← List.drop_drop, ← hc.rest, h.rest,
      ← List.append_assoc, List.drop_left]
  · rw [lineAt, h.take_eq hc, List.count_append, List.count_append, h.oneLine, h.line, hc.line,
      lineAt]
    omega

end Place

/-- The run: after any number of calls the cursor is in its text. -/
theorem in_after {c : Cursor} {text : List Char} (h : c.In text) (k : Nat) :
    (c.after k).In text := by
  induction k with
  | zero => exact h
  | succ k ih =>
    obtain ⟨gap, word, hmove⟩ := (c.after k).exists_moves
    exact hmove.spans.place ih

end Cursor

/-! ## The state of scanning -/

/-- What an answer tells of `word`, which stands in `text` from the offset `start` on. -/
def Scan.Tells (text : List Char) (start : Nat) (word : List Char) : Scan → Prop
  | .token t => Denotes word t.token ∧ t.pos = start ∧ t.line = lineAt text start
  | .fault (.outOfRange spelling line pos) =>
      Lexeme.isInteger word = true ∧ spelling = String.ofList word ∧ pos = start ∧
        line = lineAt text start
  | .fault (.tooManyDigits count) =>
      Lexeme.isInteger word = true ∧ count = (Lexeme.digits word).length
  | .fault (.unrecognized line pos) =>
      word = [] ∧ pos = start ∧ line = lineAt text start ∧
        ∃ ch rest, text.drop start = ch :: rest ∧ Text.isSpace ch = false ∧
          Lexeme.take (ch :: rest) = none
  | .finish => word = [] ∧ start = text.length

/-- A call tells where the spelling that it passed stands, and what it spells. -/
theorem Cursor.Moves.tells {c d : Cursor} {gap word text : List Char} {s : Scan}
    (h : c.Moves gap word s d) (hc : c.In text) : s.Tells text (c.pos + gap.length) word := by
  have hline := h.spans.lineAt_eq hc
  have hplace := h.spans.place hc
  cases h with
  | token hpass ht =>
    exact ⟨denotes_of_token (Lexeme.isProper_of_take hpass.take) ht, rfl, hline.symm⟩
  | literal hpass hf =>
    have hint := Lexeme.isProper_of_take hpass.take
    obtain ⟨cs, hcs, ⟨-, rfl⟩ | rfl⟩ := Lexeme.fault_of_token hf
    · cases hcs; exact ⟨hint, rfl⟩
    · cases hcs; exact ⟨hint, rfl, rfl, hline.symm⟩
  | finish hspace =>
    have hle := List.drop_eq_nil_iff.1 hplace.rest.symm
    exact ⟨rfl, Nat.le_antisymm hplace.pos_le hle⟩
  | unrecognized hrest hspace hch htake =>
    exact ⟨rfl, rfl, hline.symm, _, _, hplace.rest.symm, hch, htake⟩

/-- **The state of scanning.** Every call on a text passes a gap of white space and the spelling
behind it, and the gaps and spellings of the calls so far make up the text before the cursor. The
line of the cursor, of a token and of a fault is counted by the newlines before it, and tokens and
faults are told at the offset where their spelling begins. Behind the end of the text, or before a
character that begins no token, all later calls answer the same and leave the same cursor. -/
theorem scanning_law (text : String) :
    ∃ gap word : Nat → List Char, ∀ k,
      let c := (Cursor.ofText text).after k
      c.In text.toList ∧
      text.toList.take c.pos = (List.range k).flatMap (fun i => gap i ++ word i) ∧
      (∀ ch ∈ gap k, Text.isSpace ch = true) ∧
      c.next.2.pos = c.pos + (gap k).length + (word k).length ∧
      c.next.1.Tells text.toList (c.pos + (gap k).length) (word k) ∧
      (c.next.1.isFinal = true → ∀ j ≥ k, ((Cursor.ofText text).after j).next = c.next) := by
  choose gap word hmove using fun k => ((Cursor.ofText text).after k).exists_moves
  have hin (k : Nat) := Cursor.in_after (Cursor.in_ofText text) k
  have htake (k : Nat) : text.toList.take ((Cursor.ofText text).after k).pos =
      (List.range k).flatMap (fun i => gap i ++ word i) := by
    induction k with
    | zero => rfl
    | succ k ih =>
      rw [List.range_succ, List.flatMap_append, ← ih, List.flatMap_singleton]
      exact (hmove k).spans.take_eq (hin k)
  refine ⟨gap, word, fun k => ⟨hin k, htake k, (hmove k).spans.space, (hmove k).spans.pos,
    (hmove k).tells (hin k), fun hfinal j hj => ?_⟩⟩
  obtain ⟨i, rfl⟩ := Nat.exists_eq_add_of_le hj
  rw [Cursor.after_add]
  exact Cursor.next_after_of_isFinal hfinal i

/-- Two tokens, a literal out of range on the next line, and then a character that begins no token,
which is met by every call from the fourth on. -/
theorem scanning_law_resumed :
    let c := Cursor.ofText "(a\n 99999999999 $"
    (c.steps 4).map (·.1) = [.token ⟨1, 0, .paren .opening⟩, .token ⟨1, 1, .symbol "a"⟩,
      .fault (.outOfRange "99999999999" 2 4), .fault (.unrecognized 2 16)] ∧
    ∀ j ≥ 3, (c.after j).next = (.fault (.unrecognized 2 16), ⟨['$'], 2, 16⟩) := by
  intro c
  have hsteps : (c.steps 4).map (·.1) = [.token ⟨1, 0, .paren .opening⟩,
      .token ⟨1, 1, .symbol "a"⟩, .fault (.outOfRange "99999999999" 2 4),
      .fault (.unrecognized 2 16)] := by decide +kernel
  have hstuck : (c.after 3).next = (.fault (.unrecognized 2 16), ⟨['$'], 2, 16⟩) := by
    decide +kernel
  obtain ⟨gap, word, hlaw⟩ := scanning_law "(a\n 99999999999 $"
  obtain ⟨-, -, -, -, -, hlater⟩ := hlaw 3
  refine ⟨hsteps, fun j hj => ?_⟩
  rw [← hstuck]
  exact hlater (by rw [hstuck]; rfl) j hj

end PocketLisp
