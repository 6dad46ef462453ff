import PocketLisp.Proofs.ReadingLaw

/-!
# Reading what was rendered

A forest that is written as text and read again is the same forest, provided that its leaves have a
spelling. Reading gives only such forests, so to render and to read once more changes nothing.

* `Value.Readable`: trees of lists whose leaves are integers in range and symbols with the spelling
  of a symbol.
* `Spells cs ts`: the text `cs` has no fault, and its tokens are `ts`. The rules follow the
  rendering from its end to its front: `Spells.lexeme`, `Spells.blank`, `Spells.tree`,
  `Spells.forest`.
* `readable_of_readText`: what is read is readable.
* `readText_roundtrip`: the round trip.
-/

namespace PocketLisp

/-- A leaf that has a spelling. -/
def Value.isReadableLeaf : Value → Bool
  | .int n => inRange n
  | .symbol name => Lexeme.isSymbol name.toList
  | _ => false

/-- A tree whose leaves are integers in range and symbols with the spelling of one. -/
def Value.Readable (v : Value) : Prop := v.Tree (·.isReadableLeaf = true)

namespace Lexeme

/-! ## Integers in decimal -/

theorem natValue_toDigits (n : Nat) : natValue (Nat.toDigits 10 n) = n := by
  have h := Nat.ofDigitChars_ten_toDigits (n := n)
  rwa [Nat.ofDigitChars_eq_foldl] at h

theorem exists_toDigits (n : Nat) :
    ∃ d ds, Nat.toDigits 10 n = d :: ds ∧ d.isDigit = true ∧ ds.all Char.isDigit = true := by
  have hdigit : ∀ c ∈ Nat.toDigits 10 n, c.isDigit = true :=
    fun c hc => Nat.isDigit_of_mem_toDigits (by decide) (by decide) hc
  obtain ⟨d, ds, hds⟩ := List.exists_cons_of_ne_nil (Nat.toDigits_ne_nil (n := n) (b := 10))
  rw [hds] at hdigit
  refine ⟨d, ds, hds, hdigit d List.mem_cons_self, List.all_eq_true.2 fun c hc => ?_⟩
  exact hdigit c (List.mem_cons_of_mem d hc)

theorem isSign_of_isDigit {c : Char} (h : c.isDigit = true) : isSign c = false := by
  rw [Bool.eq_false_iff]
  intro hs
  rw [isDigit_of_isSymbolStart (isSymbolStart_of_isSign hs)] at h
  cases h

/-- An integer in decimal: the digits of its magnitude, behind a sign if it is negative. -/
theorem toList_toString (n : Int) :
    (toString n).toList = if n < 0 then '-' :: Nat.toDigits 10 n.natAbs
      else Nat.toDigits 10 n.natAbs := by
  cases n with
  | ofNat n =>
    have hn : ¬ Int.ofNat n < 0 := by simp
    rw [if_neg hn]
    exact Nat.toList_repr
  | negSucc n =>
    rw [if_pos (Int.negSucc_lt_zero n)]
    show ("-" ++ Nat.repr (n + 1)).toList = _
    rw [String.toList_append, Nat.toList_repr]
    rfl

theorem isInteger_toString (n : Int) : isInteger (toString n).toList = true := by
  obtain ⟨d, ds, hds, hd, hall⟩ := exists_toDigits n.natAbs
  rw [toList_toString, hds]
  split
  · simp [isInteger, startsWithDigit, isSign, hd, hall]
  · simp [isInteger, hd, hall]

theorem digits_toString (n : Int) : digits (toString n).toList = Nat.toDigits 10 n.natAbs := by
  obtain ⟨d, ds, hds, hd, -⟩ := exists_toDigits n.natAbs
  rw [toList_toString, hds]
  split
  · rfl
  · rw [digits, isSign_of_isDigit hd]; rfl

theorem intValue_toString (n : Int) : intValue (toString n).toList = n := by
  have hsign : (toString n).toList.head? = some '-' ↔ n < 0 := by
    obtain ⟨d, ds, hds, hd, -⟩ := exists_toDigits n.natAbs
    rw [toList_toString, hds]
    by_cases hn : n < 0
    · simp [hn]
    · have hne : d ≠ '-' := by rintro rfl; cases hd
      simp [hn, hne]
  rw [intValue, digits_toString, natValue_toDigits]
  simp only [hsign]
  split <;> omega

/-- An integer in range has few digits in decimal, so it is converted and accepted. -/
theorem token_toString {n : Int} (h : Value.inRange n = true) (line pos : Nat) :
    token line pos (.integer (toString n).toList) = .ok (.int n) := by
  have hbound : n.natAbs < 10 ^ 10 := by
    rw [Value.inRange_iff, Value.minInt, Value.maxInt] at h
    omega
  have hlength : (Nat.toDigits 10 n.natAbs).length ≤ 10 :=
    (Nat.length_toDigits_le_iff (by decide) (by decide)).2 hbound
  have hfew : ¬ maxDigits < (digits (toString n).toList).length := by
    rw [digits_toString, maxDigits]
    omega
  rw [token, if_neg hfew, intValue_toString, if_pos h]

end Lexeme

/-! ## Texts and their tokens -/

/-- Scanning `cs` gives the tokens `ts` and reaches the end, wherever `cs` stands. -/
def Spells (cs : List Char) (ts : List Value) : Prop :=
  ∀ line pos, stream (⟨cs, line, pos⟩ : Cursor).tokens = ts ∧
    (⟨cs, line, pos⟩ : Cursor).fault? = none

/-- The text goes on with something that ends every spelling before it. -/
def stops (cs : List Char) : Bool := !cs.head?.any Char.isAlphanum

theorem endsBefore_of_stops (x : Lexeme) {cs : List Char} (h : stops cs = true) :
    x.endsBefore cs = true := by
  cases cs with
  | nil => exact x.endsBefore_nil
  | cons z cs => exact x.endsBefore_cons (by simpa [stops] using h) cs

namespace Spells

variable {cs : List Char} {ts : List Value}

theorem nil : Spells [] [] := by
  intro line pos
  have hnext : (⟨[], line, pos⟩ : Cursor).next = (.finish, ⟨[], line, pos⟩) := rfl
  rw [Cursor.tokens_of_finish hnext, Cursor.fault?_of_finish hnext]
  exact ⟨rfl, rfl⟩

theorem lexeme {x : Lexeme} {t : Token} (h : Spells cs ts) (hx : x.isProper = true)
    (hends : x.endsBefore cs = true) (htok : ∀ line pos, x.token line pos = .ok t) :
    Spells (x.spelling ++ cs) (t.toValue :: ts) := by
  intro line pos
  have hpass : (⟨x.spelling ++ cs, line, pos⟩ : Cursor).Passes [] x
      ⟨cs, line, pos + x.spelling.length⟩ :=
    ⟨rfl, by simp, Lexeme.take_spelling hx hends, rfl, rfl⟩
  have hnext := hpass.next (htok _ _)
  obtain ⟨htokens, hfault⟩ := h line (pos + x.spelling.length)
  rw [Cursor.tokens_of_token hnext, Cursor.fault?_of_token hnext]
  exact ⟨congrArg (t.toValue :: ·) htokens, hfault⟩

theorem blank {ch : Char} (hch : Text.isSpace ch = true) (h : Spells cs ts) :
    Spells (ch :: cs) ts := by
  intro line pos
  obtain ⟨line', hnext⟩ : ∃ line',
      (⟨ch :: cs, line, pos⟩ : Cursor).next = (⟨cs, line', pos + 1⟩ : Cursor).next := by
    by_cases hn : ch = '\n'
    · exact ⟨line + 1, by rw [Cursor.next, Cursor.skipGap, Cursor.skipFrom, if_pos hn]; rfl⟩
    · have hb : Text.isBlank ch = true := by simpa [Text.isSpace, hn] using hch
      exact ⟨line, by rw [Cursor.next, Cursor.skipGap, Cursor.skipFrom, if_neg hn, if_pos hb]; rfl⟩
  rw [Cursor.tokens, Cursor.fault?, Cursor.scan_congr hnext]
  exact h line' (pos + 1)

/-- The rendering of trees spells their tokens, if that holds of each of them. -/
private theorem forest_of {items : List Value}
    (ih : ∀ v ∈ items, ∀ cs ts, stops cs = true → Spells cs ts →
      Spells ((Forest.renderTree v).toList ++ cs) (Forest.flattenTree v ++ ts))
    (hstop : stops cs = true) (h : Spells cs ts) :
    Spells ((Forest.render items).toList ++ cs) (Forest.flatten items ++ ts) := by
  induction items with
  | nil => exact h
  | cons v items ih' =>
    have hv := ih v List.mem_cons_self
    have hrest := ih' fun w hw => ih w (List.mem_cons_of_mem v hw)
    cases items with
    | nil => simpa [Forest.render, Forest.renderTrees, Forest.flatten] using hv cs ts hstop h
    | cons w ws =>
      have hcut : (Forest.render (v :: w :: ws)).toList ++ cs =
          (Forest.renderTree v).toList ++ ' ' :: ((Forest.render (w :: ws)).toList ++ cs) := by
        simp [Forest.render, Forest.renderTrees, String.intercalate_cons_cons]
      rw [hcut, Forest.flatten, List.append_assoc]
      exact hv _ _ rfl (hrest.blank rfl)

/-- The rendering of a tree spells the tokens of the tree. -/
theorem tree {v : Value} (hv : v.Readable) (hstop : stops cs = true) (h : Spells cs ts) :
    Spells ((Forest.renderTree v).toList ++ cs) (Forest.flattenTree v ++ ts) := by
  induction hv generalizing cs ts with
  | @leaf v hleaf =>
    cases v with
    | int n =>
      exact h.lexeme (x := .integer (toString n).toList) (Lexeme.isInteger_toString n)
        (endsBefore_of_stops _ hstop) (Lexeme.token_toString hleaf)
    | symbol name =>
      refine h.lexeme (x := .symbol name.toList) (t := .symbol name) hleaf
        (endsBefore_of_stops _ hstop) fun line pos => ?_
      rw [Lexeme.token, String.ofList_toList]
    | _ => cases hleaf
  | @list items _ ih =>
    have hclose : Spells (')' :: cs) (.marker .closing :: ts) :=
      h.lexeme (x := .paren .closing) (t := .paren .closing) rfl rfl fun _ _ => rfl
    have hitems := forest_of (fun v hv cs ts hstop h => ih v hv hstop h) rfl hclose
    have hopen := hitems.lexeme (x := .paren .opening) (t := .paren .opening) rfl rfl fun _ _ => rfl
    have hcut : (Forest.renderTree (.list items)).toList ++ cs =
        '(' :: ((Forest.render items).toList ++ ')' :: cs) := by
      simp [Forest.render, Forest.renderTree]
    rw [hcut, Forest.flattenTree, List.append_assoc]
    exact hopen

theorem forest {forest : Forest} (hforest : ∀ v ∈ forest, v.Readable) :
    Spells (Forest.render forest).toList (Forest.flatten forest) := by
  have h := forest_of (fun v hv cs ts hstop h => tree (hforest v hv) hstop h) rfl Spells.nil
  rwa [List.append_nil, List.append_nil] at h

end Spells

/-! ## Back and forth -/

theorem Value.isAtom_of_isReadableLeaf {v : Value} (h : v.isReadableLeaf = true) :
    v.isAtom = true := by
  cases v with
  | int n => rfl
  | symbol name => rfl
  | _ => cases h

theorem isReadableLeaf_of_token {x : Lexeme} {line pos : Nat} {t : Token} (hx : x.isProper = true)
    (h : x.token line pos = .ok t) (hatom : t.toValue.isAtom = true) :
    t.toValue.isReadableLeaf = true := by
  rcases Lexeme.token_cases h with ⟨p, -, rfl⟩ | ⟨cs, rfl, rfl⟩ | ⟨cs, -, -, hrange, rfl⟩
  · cases hatom
  · simpa [Token.toValue, Value.isReadableLeaf, Lexeme.isProper] using hx
  · exact hrange

theorem readText_of_spells {text : String} {forest : Forest} (h : ∀ v ∈ forest, v.Readable)
    (hspells : Spells text.toList (Forest.flatten forest)) :
    (readText text).result = .ok forest := by
  obtain ⟨htokens, hfault⟩ := hspells 1 0
  have hatoms : ∀ v ∈ forest, v.Tree (·.isAtom = true) :=
    fun v hv => (h v hv).mono fun _ => Value.isAtom_of_isReadableLeaf
  have hfeed := Builder.feedAll_flatten hatoms {} []
  rw [List.append_nil, List.append_nil] at hfeed
  rw [readText, Cursor.read, Cursor.readOn_result, Cursor.ofText, htokens, hfault, hfeed]
  show (Except.ok forest.reverse.reverse : Except Fault Forest) = .ok forest
  rw [List.reverse_reverse]

theorem readText_render {forest : Forest} (h : ∀ v ∈ forest, v.Readable) :
    (readText (Forest.render forest)).result = .ok forest :=
  readText_of_spells h (Spells.forest h)

theorem readable_of_readText {text : String} {forest : Forest}
    (h : (readText text).result = .ok forest) : ∀ v ∈ forest, v.Readable := by
  refine tree_of_readText h fun v hv hatom => ?_
  obtain ⟨t, ht, rfl⟩ := List.mem_map.1 hv
  obtain ⟨pre, x, post, hstands⟩ := Cursor.stands_of_mem_tokens ht
  exact isReadableLeaf_of_token (Lexeme.isProper_of_take hstands.take) hstands.token hatom

/-- **Round trip.** A forest of lists, integers in range and symbols that have a spelling is read
from its rendering, and every forest that is read from a text is one of these. -/
theorem readText_roundtrip :
    (∀ forest : Forest, (∀ v ∈ forest, v.Readable) →
      (readText (Forest.render forest)).result = .ok forest) ∧
    ∀ (text : String) (forest : Forest), (readText text).result = .ok forest →
      (∀ v ∈ forest, v.Readable) ∧ (readText (Forest.render forest)).result = .ok forest := by
  refine ⟨fun forest => readText_render, fun text forest h => ?_⟩
  have hreadable := readable_of_readText h
  exact ⟨hreadable, readText_render hreadable⟩

/-- The least integer, a lone sign, a sign before a letter and an empty list. -/
theorem readText_roundtrip_nested :
    let forest : Forest := [.list [], .list [.int (-2147483648), .list [.symbol "-", .symbol "+a"]]]
    (∀ v ∈ forest, v.Readable) ∧ (readText (Forest.render forest)).result = .ok forest := by
  intro forest
  have hleaves : ∀ v ∈ [Value.int (-2147483648), .symbol "-", .symbol "+a"], v.Readable := by
    have hall : ∀ v ∈ [Value.int (-2147483648), .symbol "-", .symbol "+a"],
        v.isReadableLeaf = true := by decide
    exact fun v hv => .leaf (hall v hv)
  have hforest : ∀ v ∈ forest, v.Readable := by
    simp only [List.forall_mem_cons] at hleaves
    obtain ⟨hint, hminus, hname, -⟩ := hleaves
    have hsymbols : (Value.list [.symbol "-", .symbol "+a"]).Readable :=
      .list (List.forall_mem_cons.2 ⟨hminus, List.forall_mem_singleton.2 hname⟩)
    have hlist : (Value.list [.int (-2147483648), .list [.symbol "-", .symbol "+a"]]).Readable :=
      .list (List.forall_mem_cons.2 ⟨hint, List.forall_mem_singleton.2 hsymbols⟩)
    exact List.forall_mem_cons.2 ⟨.list (by simp), List.forall_mem_singleton.2 hlist⟩
  exact ⟨hforest, readText_roundtrip.1 forest hforest⟩

end PocketLisp
