import PocketLisp.Proofs.Parsing

/-!
# The law of parsing

What becomes of a stream of tokens is decided by the first token that cannot stand where it does:
one that is no part of a program, or a closing parenthesis where no list is open. If there is none,
the parentheses are counted, and a stream with as many of one kind as of the other is the stream of
the forest that is built.

* `Offends before t f`: behind the tokens `before`, the token `t` is refused with `f`.
* `Inoffensive ts`: no token of `ts` is refused. `inoffensive_iff`: these are the tokens that are
  accepted one by one.
* `parse_eq_ok`: what it is to be parsed to a forest.
* `parse_of_offends`, `parse_of_inoffensive`: the outcome with and without an offending token.
* `parse_splice`: a finished list among the tokens stands for its own stream.
* `parse_law`: all of it.
-/

namespace PocketLisp

/-- A token that a source text can hold. -/
def Value.isPlain : Value → Bool
  | .int _ | .symbol _ | .marker _ => true
  | _ => false

theorem Value.isStray_of_isPlain (t : Value) (h : t.isPlain = true) : t.isStray = false := by
  match t with
  | .int _ | .symbol _ | .marker _ => rfl

theorem Value.isList_of_isPlain (t : Value) (h : t.isPlain = true) : t.isList = false := by
  match t with
  | .int _ | .symbol _ | .marker _ => rfl

/-- Behind the tokens `before`, the token is refused with the fault at the end. -/
inductive Offends (before : List Value) : Value → ParseFault → Prop where
  /-- It is no part of a program. -/
  | stray {t : Value} (h : t.isStray = true) : Offends before t (.stray t)
  /-- It closes a list, and none is open. -/
  | surplus (h : openings before ≤ closings before) :
      Offends before (.marker .closing) .surplusClose

/-- No token is refused behind those before it. -/
def Inoffensive (ts : List Value) : Prop :=
  ∀ before t after f, ts = before ++ t :: after → ¬ Offends before t f

/-! ## The first offending token -/

namespace Builder

variable {b : Builder} {before : List Value} {t : Value} {f : ParseFault}

theorem offends_of_feed (h : ({} : Builder).feedAll before = .ok b) (ht : b.feed t = .error f) :
    Offends before t f := by
  have hdepth := depth_feedAll h
  rcases feed_error ht with ⟨rfl, hbelow, rfl⟩ | ⟨hstray, rfl⟩
  · simp only [hbelow, List.length_nil] at hdepth
    exact .surplus (by omega)
  · exact .stray hstray

/-- An offending token is refused by the builder that the tokens before it led to. -/
theorem feed_of_offends (h : ({} : Builder).feedAll before = .ok b) (ht : Offends before t f) :
    b.feed t = .error f := by
  cases ht with
  | @stray t hstray =>
    match t with
    | .bool x => rfl
    | .foreign x => rfl
  | surplus hle =>
    have hdepth := depth_feedAll h
    simp only [List.length_nil] at hdepth
    have hbelow : b.below = [] := List.length_eq_zero_iff.1 (by omega)
    simp only [feed, hbelow]

/-- The tokens up to an offending one decide the outcome. -/
theorem feedAll_of_offends (h : ({} : Builder).feedAll before = .ok b) (ht : Offends before t f)
    (after : List Value) : ({} : Builder).feedAll (before ++ t :: after) = .error f := by
  rw [feedAll_append, h]
  simp only [feedAll, feed_of_offends h ht]

end Builder

/-- Tokens are accepted one by one exactly if none of them offends. -/
theorem inoffensive_iff {ts : List Value} :
    Inoffensive ts ↔ ∃ b, ({} : Builder).feedAll ts = .ok b := by
  constructor
  · intro h
    cases hfeed : ({} : Builder).feedAll ts with
    | ok b => exact ⟨b, rfl⟩
    | error f =>
      obtain ⟨before, t, after, b, rfl, hb, ht⟩ := Builder.feedAll_error hfeed
      exact absurd (Builder.offends_of_feed hb ht) (h before t after f rfl)
  · rintro ⟨b, hb⟩ before t after f rfl ht
    rw [Builder.feedAll_append] at hb
    cases hbefore : ({} : Builder).feedAll before with
    | error g => rw [hbefore] at hb; cases hb
    | ok b' =>
      rw [hbefore] at hb
      simp only [Builder.feedAll, Builder.feed_of_offends hbefore ht] at hb
      cases hb

theorem inoffensive_or_exists_offends (ts : List Value) :
    Inoffensive ts ∨
      ∃ before t after f, ts = before ++ t :: after ∧ Inoffensive before ∧ Offends before t f := by
  cases hfeed : ({} : Builder).feedAll ts with
  | ok b => exact .inl (inoffensive_iff.2 ⟨b, hfeed⟩)
  | error f =>
    obtain ⟨before, t, after, b, rfl, hb, ht⟩ := Builder.feedAll_error hfeed
    exact .inr ⟨before, t, after, f, rfl, inoffensive_iff.2 ⟨b, hb⟩, Builder.offends_of_feed hb ht⟩

/-! ## Outcomes -/

section Outcomes

variable {ts before : List Value} {t : Value} {f : ParseFault}

theorem parse_of_feedAll {b : Builder} (h : ({} : Builder).feedAll ts = .ok b) :
    parse ts = b.finish := by
  rw [parse, h]

/-- Tokens are parsed to a forest if they are all accepted, no list is left open, and the items of
the outermost list are the forest. -/
theorem parse_eq_ok {forms : Forest} :
    parse ts = .ok forms ↔
      ∃ b, ({} : Builder).feedAll ts = .ok b ∧ b.below = [] ∧ b.top.reverse = forms := by
  cases hfeed : ({} : Builder).feedAll ts with
  | error f => simp [parse, hfeed]
  | ok b =>
    rw [parse_of_feedAll hfeed]
    rcases b.finish_cases with ⟨hbelow, hb⟩ | ⟨hbelow, hb⟩
    · simp [hb, hbelow]
    · simp [hb, hbelow]

theorem parse_of_offends (h : Inoffensive before) (ht : Offends before t f) (after : List Value) :
    parse (before ++ t :: after) = .error f := by
  obtain ⟨b, hb⟩ := inoffensive_iff.1 h
  rw [parse, Builder.feedAll_of_offends hb ht after]

/-- Without an offending token the parentheses are counted. -/
theorem parse_of_inoffensive (h : Inoffensive ts) :
    closings ts ≤ openings ts ∧
    (closings ts < openings ts → parse ts = .error (.leftOpen (openings ts - closings ts))) ∧
    (openings ts = closings ts →
      ∃ forms, parse ts = .ok forms ∧ Forest.flatten forms = Forest.flatten ts) := by
  obtain ⟨b, hb⟩ := inoffensive_iff.1 h
  have hdepth := Builder.depth_feedAll hb
  simp only [List.length_nil] at hdepth
  refine ⟨by omega, fun hlt => ?_, fun heq => ?_⟩
  · rw [parse_of_feedAll hb]
    rcases b.finish_cases with ⟨hbelow, -⟩ | ⟨-, hfinish⟩
    · rw [hbelow, List.length_nil] at hdepth
      omega
    · have hcount : b.below.length = openings ts - closings ts := by omega
      rw [hfinish, hcount]
  · have hbelow : b.below = [] := List.length_eq_zero_iff.1 (by omega)
    refine ⟨b.top.reverse, parse_eq_ok.2 ⟨b, hb, hbelow, rfl⟩, ?_⟩
    have hcons := Builder.consumed_feedAll hb
    simpa [Builder.consumed, hbelow, Builder.pending, Forest.flatten] using hcons

/-- Plain tokens are parsed to a forest exactly if no closing parenthesis is in surplus and no list
is left open. -/
theorem parse_plain_iff (hts : ∀ t ∈ ts, t.isPlain = true) :
    (∃ forms, parse ts = .ok forms) ↔ ¬ Surplus ts ∧ openings ts = closings ts := by
  constructor
  · rintro ⟨forms, h⟩
    obtain ⟨b, hb, hbelow, -⟩ := parse_eq_ok.1 h
    have hdepth := Builder.depth_feedAll hb
    simp only [hbelow, List.length_nil] at hdepth
    exact ⟨Builder.not_surplus hb, by omega⟩
  · rintro ⟨hs, heq⟩
    cases hfeed : ({} : Builder).feedAll ts with
    | error f =>
      have hstray : ∀ t ∈ ts, t.isStray = false := fun t ht => t.isStray_of_isPlain (hts t ht)
      exact absurd (Builder.surplus_of_error hstray hfeed).2 hs
    | ok b =>
      obtain ⟨forms, hforms, -⟩ := (parse_of_inoffensive (inoffensive_iff.2 ⟨b, hfeed⟩)).2.2 heq
      exact ⟨forms, hforms⟩

theorem flatten_of_parse (hts : ∀ t ∈ ts, t.isPlain = true) {forms : Forest}
    (h : parse ts = .ok forms) : Forest.flatten forms = ts := by
  obtain ⟨b, hb, hbelow, rfl⟩ := parse_eq_ok.1 h
  exact Builder.flatten_of_feedAll (fun t ht => t.isList_of_isPlain (hts t ht)) hb hbelow

theorem parse_flatten {forest : Forest} (h : ∀ v ∈ forest, v.Tree (·.isAtom = true)) :
    parse (Forest.flatten forest) = .ok forest := by
  have hfeed := Builder.feedAll_flatten h {} []
  rw [List.append_nil, List.append_nil] at hfeed
  exact parse_eq_ok.2 ⟨_, hfeed, rfl, List.reverse_reverse forest⟩

/-- A finished tree among the tokens may be replaced by its stream. -/
theorem parse_splice {v : Value} (hv : v.Tree (·.isAtom = true)) (before after : List Value) :
    parse (before ++ v :: after) = parse (before ++ (Forest.flattenTree v ++ after)) := by
  have hadd (b : Builder) : b.feed v = .ok (b.add v) := by
    cases hv with
    | list _ => rfl
    | leaf h =>
      cases v with
      | int n => rfl
      | symbol x => rfl
      | _ => cases h
  have hsame (b : Builder) :
      b.feedAll (v :: after) = b.feedAll (Forest.flattenTree v ++ after) := by
    rw [Builder.feedAll_flattenTree hv, Builder.feedAll, hadd]
  rw [parse, parse, Builder.feedAll_append, Builder.feedAll_append]
  simp only [hsame]

end Outcomes

/-- **The law of parsing.** Plain tokens are parsed to a forest exactly if nowhere more lists are
closed than were opened, and in the end all are closed; the forest then has them as its stream. The
stream of a forest of integers, symbols and lists is parsed to that forest. Of any tokens, the first
one that offends decides the outcome; there is one unless all are accepted, and then the lists left
open are reported, or there is a forest. A finished list of integers, symbols and such lists among
the tokens may be replaced by its stream. -/
theorem parse_law :
    (∀ ts : List Value, (∀ t ∈ ts, t.isPlain = true) →
      ((∃ forms, parse ts = .ok forms) ↔ ¬ Surplus ts ∧ openings ts = closings ts) ∧
      ∀ forms, parse ts = .ok forms → Forest.flatten forms = ts) ∧
    (∀ forest : Forest, (∀ v ∈ forest, v.Tree (·.isAtom = true)) →
      parse (Forest.flatten forest) = .ok forest) ∧
    (∀ ts : List Value, Inoffensive ts ∨
      ∃ before t after f, ts = before ++ t :: after ∧ Inoffensive before ∧ Offends before t f) ∧
    (∀ before t after f, Inoffensive before → Offends before t f →
      parse (before ++ t :: after) = .error f) ∧
    (∀ ts : List Value, Inoffensive ts →
      closings ts ≤ openings ts ∧
      (closings ts < openings ts → parse ts = .error (.leftOpen (openings ts - closings ts))) ∧
      (openings ts = closings ts →
        ∃ forms, parse ts = .ok forms ∧ Forest.flatten forms = Forest.flatten ts)) ∧
    (∀ before items after, (Value.list items).Tree (·.isAtom = true) →
      parse (before ++ .list items :: after) =
        parse (before ++ (Forest.flattenTree (.list items) ++ after))) ∧
    (Fault.parse .surplusClose).message = "unmatched parenthesis: extra ')'" ∧
    (∀ k, (Fault.parse (.leftOpen k)).message =
      "unmatched parenthesis: " ++ toString k ++ " '(' left open") ∧
    (∀ v, (Fault.parse (.stray v)).message = "unrecognized token in parsing: " ++ v.shown) ∧
    ∀ f, (Fault.parse f).kind.label = "MlspParseError" := by
  refine ⟨fun ts hts => ⟨parse_plain_iff hts, fun forms => flatten_of_parse hts⟩,
    fun forest => parse_flatten, inoffensive_or_exists_offends,
    fun before t after f h ht => parse_of_offends h ht after, fun ts => parse_of_inoffensive,
    fun before items after h => parse_splice h before after, rfl, fun k => rfl, fun v => rfl,
    fun f => rfl⟩

/-- A truth value is reported before a closing parenthesis in surplus behind it, a list is left open
behind a finished one, and the finished one is put together from its stream. -/
theorem parse_law_stray_before_surplus :
    let finished : Value := .list [.int 1, .list []]
    let before : List Value := [.marker .opening, finished, .marker .closing]
    Inoffensive before ∧ Offends before (.bool true) (.stray (.bool true)) ∧
    parse (before ++ .bool true :: [.marker .closing]) = .error (.stray (.bool true)) ∧
    parse (.marker .opening :: before) = .error (.leftOpen 1) ∧
    parse before = parse [.marker .opening, .marker .opening, .int 1, .marker .opening,
      .marker .closing, .marker .closing, .marker .closing] := by
  intro finished before
  obtain ⟨-, -, -, hoffends, hcount, hsplice, -⟩ := parse_law
  have hbefore : Inoffensive before := inoffensive_iff.2 ⟨_, rfl⟩
  have hstray : Offends before (.bool true) (.stray (.bool true)) := .stray rfl
  have hopen : Inoffensive (.marker .opening :: before) := inoffensive_iff.2 ⟨_, rfl⟩
  have hone : (Value.int 1).Tree (·.isAtom = true) := .leaf rfl
  have hempty : (Value.list []).Tree (·.isAtom = true) := .list (by simp)
  have hfinished : finished.Tree (·.isAtom = true) :=
    .list (List.forall_mem_cons.2 ⟨hone, List.forall_mem_singleton.2 hempty⟩)
  refine ⟨hbefore, hstray, hoffends before _ _ _ hbefore hstray, ?_, ?_⟩
  · exact (hcount _ hopen).2.1 (by decide)
  · exact hsplice [.marker .opening] _ [.marker .closing] hfinished

end PocketLisp
