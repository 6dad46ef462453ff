import PocketLisp.Proofs.Scanning

/-!
# Building trees from tokens

The stack of open lists against the tokens that were fed to it.

* `Value.Tree leaf`: a tree all of whose leaves satisfy `leaf`.
* `Builder.consumed`: the token stream that a builder stands for. Every token fed is added at its
  end (`Builder.consumed_feed`), so a builder is a record of all that it was fed.
* `Builder.depth_feedAll`: the number of open lists is the number of opening parentheses less the
  number of closing ones.
* `Builder.feedAll_error`: feeding fails at one token, and all before it was accepted.
* `Builder.feedAll_flatten`: the tokens of a forest are put together to that forest.
-/

namespace PocketLisp

/-! ## Trees by their leaves -/

/-- A tree of lists all of whose leaves satisfy `leaf`. -/
inductive Value.Tree (leaf : Value → Prop) : Value → Prop where
  | leaf {v : Value} (h : leaf v) : Tree leaf v
  | list {items : List Value} (h : ∀ v ∈ items, Tree leaf v) : Tree leaf (.list items)

namespace Value.Tree

variable {leaf leaf' : Value → Prop}

theorem mono (himp : ∀ v, leaf v → leaf' v) {v : Value} (h : Tree leaf v) : Tree leaf' v := by
  induction h with
  | leaf h => exact .leaf (himp _ h)
  | list _ ih => exact .list ih

theorem items (hleaf : ∀ items, ¬ leaf (.list items)) {items : List Value}
    (h : Tree leaf (.list items)) : ∀ v ∈ items, Tree leaf v := by
  cases h with
  | leaf h => exact absurd h (hleaf _)
  | list h => exact h

theorem of_atom {v : Value} (hv : v.isList = false) (h : Tree leaf v) : leaf v := by
  cases h with
  | leaf h => exact h
  | list h => cases hv

end Value.Tree

/-- An integer or a symbol: what a token other than a parenthesis stands for. -/
def Value.isAtom : Value → Bool
  | .int _ | .symbol _ => true
  | _ => false

/-- Something that is no part of a program, whatever stands around it. -/
def Value.isStray : Value → Bool
  | .bool _ | .foreign _ => true
  | _ => false

/-- The number of opening parentheses among the tokens. -/
def openings (ts : List Value) : Nat := ts.countP fun t => t matches .marker .opening

/-- The number of closing parentheses among the tokens. -/
def closings (ts : List Value) : Nat := ts.countP fun t => t matches .marker .closing

theorem Forest.flatten_of_atoms {ts : List Value} (h : ∀ t ∈ ts, t.isList = false) :
    flatten ts = ts := by
  induction ts with
  | nil => rfl
  | cons t ts ih =>
    have ht : flattenTree t = [t] := by
      cases t with
      | list items => cases h _ List.mem_cons_self
      | _ => rfl
    rw [flatten, ht, ih fun u hu => h u (List.mem_cons_of_mem _ hu)]
    rfl

namespace Builder

/-! ## One token -/

/-- The token stream of lists that are open, from the inside out. -/
def pending : List (List Value) → List Value
  | [] => []
  | items :: outer => pending outer ++ Forest.flatten items.reverse ++ [.marker .opening]

/-- The token stream that leads to a builder. -/
def consumed (b : Builder) : List Value := pending b.below ++ Forest.flatten b.top.reverse

theorem consumed_add (b : Builder) (v : Value) :
    (b.add v).consumed = b.consumed ++ Forest.flattenTree v := by
  simp [consumed, add, Forest.flatten]

/-- What a builder stands for after a token is what it stood for, and the token. -/
theorem consumed_feed {b b' : Builder} {t : Value} (h : b.feed t = .ok b') :
    b'.consumed = b.consumed ++ Forest.flattenTree t := by
  match t with
  | .int n => cases h; exact consumed_add b _
  | .symbol x => cases h; exact consumed_add b _
  | .list items => cases h; exact consumed_add b _
  | .marker .opening => cases h; simp [consumed, pending, Forest.flatten, Forest.flattenTree]
  | .marker .closing =>
    obtain ⟨top, below⟩ := b
    cases below with
    | nil => cases h
    | cons outer below =>
      cases h
      simp [consumed, pending, Forest.flatten, Forest.flattenTree]

/-- A token opens a list, closes one, or leaves their number as it is. -/
theorem depth_feed {b b' : Builder} {t : Value} (h : b.feed t = .ok b') :
    b'.below.length + closings [t] = b.below.length + openings [t] := by
  match t with
  | .int n => cases h; rfl
  | .symbol x => cases h; rfl
  | .list items => cases h; rfl
  | .marker .opening => cases h; rfl
  | .marker .closing =>
    obtain ⟨top, below⟩ := b
    cases below with
    | nil => cases h
    | cons outer below => cases h; rfl

/-- A token is refused if it closes no list, or if it is no part of a program. -/
theorem feed_error {b : Builder} {t : Value} {f : ParseFault} (h : b.feed t = .error f) :
    (t = .marker .closing ∧ b.below = [] ∧ f = .surplusClose) ∨
      (t.isStray = true ∧ f = .stray t) := by
  match t with
  | .marker .closing =>
    obtain ⟨top, below⟩ := b
    cases below with
    | nil => cases h; exact .inl ⟨rfl, rfl, rfl⟩
    | cons outer below => cases h
  | .bool x => cases h; exact .inr ⟨rfl, rfl⟩
  | .foreign x => cases h; exact .inr ⟨rfl, rfl⟩

theorem finish_cases (b : Builder) :
    (b.below = [] ∧ b.finish = .ok b.top.reverse) ∨
      (b.below ≠ [] ∧ b.finish = .error (.leftOpen b.below.length)) := by
  obtain ⟨top, below⟩ := b
  cases below with
  | nil => exact .inl ⟨rfl, rfl⟩
  | cons items below => exact .inr ⟨by simp, rfl⟩

/-! ## Many tokens -/

theorem feedAll_append (b : Builder) (ts us : List Value) :
    b.feedAll (ts ++ us) =
      match b.feedAll ts with
      | .ok b' => b'.feedAll us
      | .error f => .error f := by
  induction ts generalizing b with
  | nil => rfl
  | cons t ts ih =>
    simp only [List.cons_append, feedAll]
    cases b.feed t with
    | ok b' => exact ih b'
    | error f => rfl

theorem consumed_feedAll {b b' : Builder} {ts : List Value} (h : b.feedAll ts = .ok b') :
    b'.consumed = b.consumed ++ Forest.flatten ts := by
  induction ts generalizing b with
  | nil => cases h; simp [Forest.flatten]
  | cons t ts ih =>
    rw [feedAll] at h
    split at h
    · next b₁ hb₁ => rw [ih h, consumed_feed hb₁, Forest.flatten, List.append_assoc]
    · cases h

/-- The number of open lists is the number of opening parentheses less that of closing ones. -/
theorem depth_feedAll {b b' : Builder} {ts : List Value} (h : b.feedAll ts = .ok b') :
    b'.below.length + closings ts = b.below.length + openings ts := by
  induction ts generalizing b with
  | nil => cases h; rfl
  | cons t ts ih =>
    rw [feedAll] at h
    split at h
    · next b₁ hb₁ =>
      have hrest := ih h
      have hone := depth_feed hb₁
      simp only [closings, openings, ← List.singleton_append (l := ts), List.countP_append]
        at hrest hone ⊢
      omega
    · cases h

/-- Feeding fails at one token, and all before it was accepted. -/
theorem feedAll_error {b : Builder} {ts : List Value} {f : ParseFault}
    (h : b.feedAll ts = .error f) :
    ∃ before t after b', ts = before ++ t :: after ∧ b.feedAll before = .ok b' ∧
      b'.feed t = .error f := by
  induction ts generalizing b with
  | nil => cases h
  | cons t ts ih =>
    rw [feedAll] at h
    split at h
    · next b₁ hb₁ =>
      obtain ⟨before, u, after, b', rfl, hb', hu⟩ := ih h
      refine ⟨t :: before, u, after, b', rfl, ?_, hu⟩
      rw [feedAll, hb₁]
      exact hb'
    · next hf => cases h; exact ⟨[], t, ts, b, rfl, rfl, hf⟩

/-! ## What is built -/

/-- All items of the open lists satisfy `P`. -/
def Holds (P : Value → Prop) (b : Builder) : Prop :=
  (∀ v ∈ b.top, P v) ∧ ∀ items ∈ b.below, ∀ v ∈ items, P v

theorem Holds.add {P : Value → Prop} {b : Builder} {v : Value} (hb : b.Holds P) (hv : P v) :
    (b.add v).Holds P := by
  refine ⟨fun w hw => ?_, hb.2⟩
  rcases List.mem_cons.1 hw with rfl | hw
  · exact hv
  · exact hb.1 w hw

/-- From parentheses and leaves, only trees over these leaves are built. -/
theorem Holds.feed {leaf : Value → Prop} {b b' : Builder} {t : Value}
    (hb : b.Holds (Value.Tree leaf)) (ht : t.isAtom = true → leaf t) (hlist : t.isList = false)
    (h : b.feed t = .ok b') : b'.Holds (Value.Tree leaf) := by
  match t with
  | .int n => cases h; exact hb.add (.leaf (ht rfl))
  | .symbol x => cases h; exact hb.add (.leaf (ht rfl))
  | .marker .opening =>
    cases h
    refine ⟨by simp, fun items hitems => ?_⟩
    rcases List.mem_cons.1 hitems with rfl | hitems
    · exact hb.1
    · exact hb.2 items hitems
  | .marker .closing =>
    obtain ⟨top, below⟩ := b
    cases below with
    | nil => cases h
    | cons outer below =>
      cases h
      refine ⟨fun v hv => ?_, fun items hitems => hb.2 items (List.mem_cons_of_mem _ hitems)⟩
      rcases List.mem_cons.1 hv with rfl | hv
      · exact .list fun w hw => hb.1 w (List.mem_reverse.1 hw)
      · exact hb.2 outer List.mem_cons_self v hv

theorem Holds.feedAll {leaf : Value → Prop} {b b' : Builder} {ts : List Value}
    (hb : b.Holds (Value.Tree leaf)) (hts : ∀ t ∈ ts, t.isAtom = true → leaf t)
    (hlist : ∀ t ∈ ts, t.isList = false) (h : b.feedAll ts = .ok b') :
    b'.Holds (Value.Tree leaf) := by
  induction ts generalizing b with
  | nil => cases h; exact hb
  | cons t ts ih =>
    rw [Builder.feedAll] at h
    split at h
    · next b₁ hb₁ =>
      have hb' := hb.feed (hts t List.mem_cons_self) (hlist t List.mem_cons_self) hb₁
      exact ih hb' (fun u hu => hts u (List.mem_cons_of_mem _ hu))
        (fun u hu => hlist u (List.mem_cons_of_mem _ hu)) h
    · cases h

/-- The tokens of trees are put together to these trees, if that holds of each of them. -/
private theorem feedAll_flatten_of {items : List Value}
    (h : ∀ v ∈ items, ∀ (b : Builder) (ts : List Value),
      b.feedAll (Forest.flattenTree v ++ ts) = (b.add v).feedAll ts)
    (b : Builder) (ts : List Value) :
    b.feedAll (Forest.flatten items ++ ts) =
      ({ b with top := items.reverse ++ b.top } : Builder).feedAll ts := by
  induction items generalizing b with
  | nil => rfl
  | cons v items ih =>
    rw [Forest.flatten, List.append_assoc, h v List.mem_cons_self,
      ih fun w hw => h w (List.mem_cons_of_mem _ hw)]
    simp [add]

theorem feedAll_flattenTree {v : Value} (hv : v.Tree (·.isAtom = true)) (b : Builder)
    (ts : List Value) : b.feedAll (Forest.flattenTree v ++ ts) = (b.add v).feedAll ts := by
  induction hv generalizing b ts with
  | @leaf v h =>
    cases v with
    | int n => rfl
    | symbol x => rfl
    | _ => cases h
  | @list items _ ih =>
    rw [Forest.flattenTree, List.append_assoc, List.cons_append, feedAll]
    simp only [feed]
    rw [feedAll_flatten_of ih]
    simp [feedAll, feed, add]

theorem feedAll_flatten {forest : Forest} (h : ∀ v ∈ forest, v.Tree (·.isAtom = true))
    (b : Builder) (ts : List Value) :
    b.feedAll (Forest.flatten forest ++ ts) =
      ({ b with top := forest.reverse ++ b.top } : Builder).feedAll ts :=
  feedAll_flatten_of (fun v hv => feedAll_flattenTree (h v hv)) b ts

end Builder

/-! ## Surplus parentheses -/

/-- Some tokens at the front have more closing than opening parentheses among them. -/
def Surplus (ts : List Value) : Prop := ∃ front, front <+: ts ∧ openings front < closings front

theorem Surplus.mono {ts us : List Value} (h : Surplus ts) (hpre : ts <+: us) : Surplus us := by
  obtain ⟨front, hfront, hlt⟩ := h
  exact ⟨front, hfront.trans hpre, hlt⟩

namespace Builder

theorem not_surplus {b' : Builder} {ts : List Value} (h : ({} : Builder).feedAll ts = .ok b') :
    ¬ Surplus ts := by
  rintro ⟨front, ⟨after, rfl⟩, hlt⟩
  rw [feedAll_append] at h
  split at h
  · next b₁ hb₁ =>
    have hdepth := depth_feedAll hb₁
    simp only [List.length_nil] at hdepth
    omega
  · cases h

theorem surplus_of_below {b : Builder} {ts : List Value} (h : ({} : Builder).feedAll ts = .ok b)
    (hb : b.below = []) : Surplus (ts ++ [.marker .closing]) := by
  have hdepth := depth_feedAll h
  simp only [hb, List.length_nil] at hdepth
  refine ⟨_, List.prefix_rfl, ?_⟩
  have ho : openings (ts ++ [.marker .closing]) = openings ts := by
    rw [openings, List.countP_append]; rfl
  have hc : closings (ts ++ [.marker .closing]) = closings ts + 1 := by
    rw [closings, List.countP_append]; rfl
  omega

theorem surplus_of_error {ts : List Value} {f : ParseFault} (hts : ∀ t ∈ ts, t.isStray = false)
    (h : ({} : Builder).feedAll ts = .error f) : f = .surplusClose ∧ Surplus ts := by
  obtain ⟨before, t, after, b, rfl, hb, ht⟩ := feedAll_error h
  rcases feed_error ht with ⟨rfl, hbelow, rfl⟩ | ⟨hstray, -⟩
  · exact ⟨rfl, (surplus_of_below hb hbelow).mono ⟨after, by simp⟩⟩
  · rw [hts t (by simp)] at hstray; cases hstray

theorem flatten_of_feedAll {b : Builder} {ts : List Value} (hts : ∀ t ∈ ts, t.isList = false)
    (h : ({} : Builder).feedAll ts = .ok b) (hb : b.below = []) :
    Forest.flatten b.top.reverse = ts := by
  have hcons := consumed_feedAll h
  rw [Forest.flatten_of_atoms hts] at hcons
  simpa [consumed, hb, pending, Forest.flatten] using hcons

end Builder

end PocketLisp
