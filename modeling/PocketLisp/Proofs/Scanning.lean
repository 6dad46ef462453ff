import PocketLisp.Proofs.Spelling

/-!
# Scanning a text

What taking tokens off a text does, step by step and as a whole.

* `Cursor.tokens`, `Cursor.fault?`: the tokens that scanning gives until it stops, and the fault
  that it stops at, if it does not reach the end. `Cursor.scanInduct` is induction along them.
* `Cursor.Passes`: a cursor moves over a gap and a spelling, and its place with it.
* `Cursor.next_token`, `Cursor.Passes.next`: a token is taken exactly by passing its spelling.
* `Cursor.stands_of_mem_tokens`: every token has its spelling in the text, at its place.
* `Cursor.pairwise_tokens`: the tokens stand one behind the other.
-/

namespace PocketLisp

/-- The token that a step gave. -/
def Scan.token? : Scan → Option Located
  | .token t => some t
  | _ => none

/-- The fault that a step met. -/
def Scan.fault? : Scan → Option LexFault
  | .fault f => some f
  | _ => none

namespace Cursor

/-- The tokens that scanning gives until it stops. -/
def tokens (c : Cursor) : List Located := c.scan.filterMap (·.1.token?)

/-- The fault that scanning stops at, unless it reaches the end of the text. -/
def fault? (c : Cursor) : Option LexFault := c.scan.findSome? (·.1.fault?)

/-! ## Along the scan -/

section Scan

variable {c d : Cursor}

theorem scan_of_token {t : Located} (h : c.next = (.token t, d)) :
    c.scan = (.token t, d) :: d.scan := by
  rw [scan]
  split <;> rename_i h' <;> rw [h] at h' <;> cases h'
  rfl

theorem scan_of_finish (h : c.next = (.finish, d)) : c.scan = [(.finish, d)] := by
  rw [scan]
  split <;> rename_i h' <;> rw [h] at h' <;> cases h'
  rfl

theorem scan_of_fault {f : LexFault} (h : c.next = (.fault f, d)) :
    c.scan = [(.fault f, d)] := by
  rw [scan]
  split <;> rename_i h' <;> rw [h] at h' <;> cases h'
  rfl

theorem scan_congr (h : c.next = d.next) : c.scan = d.scan := by
  obtain ⟨⟨step, e⟩, hd⟩ : ∃ r, d.next = r := ⟨_, rfl⟩
  rw [hd] at h
  cases step with
  | token t => rw [scan_of_token h, scan_of_token hd]
  | finish => rw [scan_of_finish h, scan_of_finish hd]
  | fault f => rw [scan_of_fault h, scan_of_fault hd]

theorem tokens_of_token {t : Located} (h : c.next = (.token t, d)) :
    c.tokens = t :: d.tokens := by
  rw [tokens, scan_of_token h]; rfl

theorem tokens_of_finish (h : c.next = (.finish, d)) : c.tokens = [] := by
  rw [tokens, scan_of_finish h]; rfl

theorem tokens_of_fault {f : LexFault} (h : c.next = (.fault f, d)) : c.tokens = [] := by
  rw [tokens, scan_of_fault h]; rfl

theorem fault?_of_token {t : Located} (h : c.next = (.token t, d)) : c.fault? = d.fault? := by
  rw [fault?, scan_of_token h]; rfl

theorem fault?_of_finish (h : c.next = (.finish, d)) : c.fault? = none := by
  rw [fault?, scan_of_finish h]; rfl

theorem fault?_of_fault {f : LexFault} (h : c.next = (.fault f, d)) : c.fault? = some f := by
  rw [fault?, scan_of_fault h]; rfl

end Scan

@[elab_as_elim]
theorem scanInduct {motive : Cursor → Prop}
    (token : ∀ c t d, c.next = (.token t, d) → motive d → motive c)
    (finish : ∀ c d, c.next = (.finish, d) → motive c)
    (fault : ∀ c f d, c.next = (.fault f, d) → motive c)
    (c : Cursor) : motive c := by
  induction c using scan.induct with
  | case1 c t d h ih => exact token c t d h ih
  | case2 c d h => exact finish c d h
  | case3 c f d h => exact fault c f d h

/-! ## One step -/

/-- Skipping a gap drops the white space in front and counts its lines and characters. -/
theorem skipFrom_eq (line pos : Nat) (cs : List Char) :
    skipFrom line pos cs =
      ⟨cs.dropWhile Text.isSpace, line + (cs.takeWhile Text.isSpace).count '\n',
        pos + (cs.takeWhile Text.isSpace).length⟩ := by
  induction cs generalizing line pos with
  | nil => rfl
  | cons c cs ih =>
    by_cases hn : c = '\n'
    · subst hn
      have hs : Text.isSpace '\n' = true := rfl
      simp only [skipFrom, ↓reduceIte, ih, List.dropWhile_cons, List.takeWhile_cons, hs,
        List.count_cons_self, List.length_cons]
      congr 1 <;> omega
    · by_cases hb : Text.isBlank c
      · have hs : Text.isSpace c = true := by simp [Text.isSpace, hb]
        simp only [skipFrom, hn, hb, ↓reduceIte, ih, List.dropWhile_cons, List.takeWhile_cons, hs,
          List.count_cons_of_ne hn, List.length_cons]
        congr 1; omega
      · have hs : Text.isSpace c = false := by simp [Text.isSpace, hb, hn]
        simp [skipFrom, hn, hb, hs]

/-- From `c`, over the white space `gap` and the spelling of `x`, to `d`. -/
structure Passes (c : Cursor) (gap : List Char) (x : Lexeme) (d : Cursor) : Prop where
  rest : c.rest = gap ++ (x.spelling ++ d.rest)
  space : ∀ ch ∈ gap, Text.isSpace ch = true
  take : Lexeme.take (x.spelling ++ d.rest) = some (x, d.rest)
  line : d.line = c.line + gap.count '\n'
  pos : d.pos = c.pos + gap.length + x.spelling.length

theorem passes_of_take {c : Cursor} {x : Lexeme} {rest : List Char}
    (h : Lexeme.take c.skipGap.rest = some (x, rest)) :
    c.Passes (c.rest.takeWhile Text.isSpace) x (c.skipGap.pass x rest) := by
  obtain ⟨hrest, -⟩ := Lexeme.eq_append_of_take h
  rw [hrest] at h
  have hgap : c.skipGap.rest = c.rest.dropWhile Text.isSpace := by rw [skipGap, skipFrom_eq]
  refine ⟨?_, fun ch hch => List.all_eq_true.1 List.all_takeWhile ch hch, h, ?_, ?_⟩
  · rw [pass, ← hrest, hgap, List.takeWhile_append_dropWhile]
  · simp only [pass, skipGap, skipFrom_eq]
  · simp only [pass, skipGap, skipFrom_eq]

/-- A token is taken by passing its spelling. -/
theorem next_token {c d : Cursor} {t : Located} (h : c.next = (.token t, d)) :
    ∃ gap x tok, c.Passes gap x d ∧ t = ⟨d.line, c.pos + gap.length, tok⟩ ∧
      x.token d.line (c.pos + gap.length) = .ok tok := by
  unfold next takeToken at h
  split at h
  · next x rest hx =>
    have hpass := passes_of_take hx
    have hpos : c.skipGap.pos = c.pos + (c.rest.takeWhile Text.isSpace).length := by
      rw [skipGap, skipFrom_eq]
    split at h
    · next tok htok =>
      cases h
      refine ⟨_, x, tok, hpass, ?_, ?_⟩
      · rw [← hpos]; rfl
      · rw [← hpos]; exact htok
    · cases h
  · split at h <;> cases h

theorem Passes.skipGap {c d : Cursor} {gap : List Char} {x : Lexeme} (h : c.Passes gap x d) :
    c.skipGap = ⟨x.spelling ++ d.rest, d.line, c.pos + gap.length⟩ := by
  obtain ⟨-, hne⟩ := Lexeme.eq_append_of_take h.take
  have hx := Lexeme.isProper_of_take h.take
  have hhead : (x.spelling ++ d.rest).head?.any Text.isSpace = false := by
    cases hs : x.spelling with
    | nil => exact absurd hs hne
    | cons ch chs => simp [Lexeme.isSpace_of_mem_spelling hx (hs ▸ List.mem_cons_self)]
  obtain ⟨htake, hdrop⟩ := Lexeme.span_run h.space hhead
  rw [Cursor.skipGap, skipFrom_eq, h.rest, htake, hdrop, h.line]

theorem Passes.next {c d : Cursor} {gap : List Char} {x : Lexeme} (h : c.Passes gap x d)
    {t : Token} (ht : x.token d.line (c.pos + gap.length) = .ok t) :
    c.next = (.token ⟨d.line, c.pos + gap.length, t⟩, d) := by
  have hd : (⟨x.spelling ++ d.rest, d.line, c.pos + gap.length⟩ : Cursor).pass x d.rest = d := by
    rw [pass, ← h.pos]
  rw [Cursor.next, h.skipGap, takeToken, h.take]
  simp only [ht, hd]

/-- What a cursor passes depends on what follows only as far as the spelling might go on. -/
theorem Passes.congr {c d : Cursor} {gap : List Char} {x : Lexeme} (h : c.Passes gap x d)
    (rest : List Char) (hrest : x.endsBefore rest = true) :
    Passes { c with rest := gap ++ (x.spelling ++ rest) } gap x { d with rest := rest } :=
  ⟨rfl, h.space, Lexeme.take_spelling (Lexeme.isProper_of_take h.take) hrest, h.line, h.pos⟩

theorem Passes.count_newline {c d : Cursor} {gap : List Char} {x : Lexeme} (h : c.Passes gap x d) :
    x.spelling.count '\n' = 0 := by
  refine List.count_eq_zero.2 fun hmem => ?_
  have := Lexeme.isSpace_of_mem_spelling (Lexeme.isProper_of_take h.take) hmem
  simp [Text.isSpace] at this

/-! ## The spellings of the tokens -/

/-- The token `t` stands before a cursor: behind `pre` comes its spelling `x`, which ends where
`post` begins, and its place is counted through `pre`. -/
structure Stands (c : Cursor) (pre : List Char) (x : Lexeme) (post : List Char) (t : Located) :
    Prop where
  rest : c.rest = pre ++ (x.spelling ++ post)
  take : Lexeme.take (x.spelling ++ post) = some (x, post)
  token : x.token t.line t.pos = .ok t.token
  line : t.line = c.line + pre.count '\n'
  pos : t.pos = c.pos + pre.length

theorem Passes.stands {c d : Cursor} {gap pre post : List Char} {x y : Lexeme} {t : Located}
    (h : c.Passes gap y d) (ht : d.Stands pre x post t) :
    c.Stands (gap ++ (y.spelling ++ pre)) x post t := by
  refine ⟨?_, ht.take, ht.token, ?_, ?_⟩
  · rw [h.rest, ht.rest]; simp
  · rw [ht.line, h.line]; simp only [List.count_append, h.count_newline]; omega
  · rw [ht.pos, h.pos]; simp only [List.length_append]; omega

/-- Every token stands in the text, at its place. -/
theorem stands_of_mem_tokens {c : Cursor} {t : Located} (h : t ∈ c.tokens) :
    ∃ pre x post, c.Stands pre x post t := by
  induction c using scanInduct with
  | finish c d hnext => rw [tokens_of_finish hnext] at h; cases h
  | fault c f d hnext => rw [tokens_of_fault hnext] at h; cases h
  | token c u d hnext ih =>
    rw [tokens_of_token hnext] at h
    obtain ⟨gap, y, tok, hpass, rfl, htok⟩ := next_token hnext
    rcases List.mem_cons.1 h with rfl | h
    · exact ⟨gap, y, d.rest, hpass.rest, hpass.take, htok, hpass.line, rfl⟩
    · obtain ⟨pre, x, post, ht⟩ := ih h
      exact ⟨_, x, post, hpass.stands ht⟩

/-- The tokens of a text stand one behind the other. -/
theorem pairwise_tokens (c : Cursor) : c.tokens.Pairwise fun t u => t.pos < u.pos := by
  induction c using scanInduct with
  | finish c d hnext => rw [tokens_of_finish hnext]; exact .nil
  | fault c f d hnext => rw [tokens_of_fault hnext]; exact .nil
  | token c t d hnext ih =>
    rw [tokens_of_token hnext]
    refine List.pairwise_cons.2 ⟨fun u hu => ?_, ih⟩
    obtain ⟨gap, x, tok, hpass, rfl, -⟩ := next_token hnext
    obtain ⟨pre, _, _, hstands⟩ := stands_of_mem_tokens hu
    obtain ⟨-, hne⟩ := Lexeme.eq_append_of_take hpass.take
    have hlength := List.length_pos_iff.2 hne
    have hbehind := hpass.pos
    have hplace := hstands.pos
    show c.pos + gap.length < u.pos
    omega

end Cursor

end PocketLisp
