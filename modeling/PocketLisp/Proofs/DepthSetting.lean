import Mathlib.Data.List.Induction
import Mathlib.Data.List.TakeWhile
import PocketLisp.Command
import PocketLisp.Proofs.Spelling

/-!
# The setting of the depth

A setting of the depth is looked at twice. First its text, without the white space around it, has
to be all digits. Then the text is converted as it stands, and conversion has rules of its own: it
takes decimal digits only, not too many of them, and not all white space around them. Texts that are
no numbers are ignored, except for those that pass the first look and not the second one. Such a
setting ends the command before the file is read.

* `Writes ds n`: the decimal digits `ds`, of any scripts, write the number `n`.
* `Refused`: the texts that are all digits and cannot be converted.
* `Converts`: the texts that can be. `Converts.readNumeral_eq` and `converts_of_readNumeral` say
  that these are all; `Converts.not_refused` and `converts_strip` tell them from those that are
  refused.
* `depthLimit_of_not_refused`, `Command.roomFor_of_usable`: what any other setting asks for.
* `depth_law`: the depth that a setting asks for, and what the command makes of it.
* `depth_setting_not_ignored`: settings that end the command.
-/

namespace PocketLisp

namespace Text

/-- One of the four information separators, which are white space but no blanks around a numeral. -/
def isSeparator (c : Char) : Bool := decide (0x1C ≤ c.toNat) && decide (c.toNat ≤ 0x1F)

theorem isDecimalDigit_iff {c : Char} :
    isDecimalDigit c = true ↔ ∃ base ∈ decimalZeros, base ≤ c.toNat ∧ c.toNat < base + 10 := by
  simp [isDecimalDigit, decimalDigit?, List.find?_isSome]

/-- No decimal digit is white space. -/
theorem isSpace_of_isDecimalDigit {c : Char} (h : isDecimalDigit c = true) : isSpace c = false := by
  have hapart : ∀ base ∈ decimalZeros,
      10 < base ∧ ∀ r ∈ blankRanges, r.2 < base ∨ base + 10 ≤ r.1 := by decide +kernel
  obtain ⟨base, hbase, hlow, hhigh⟩ := isDecimalDigit_iff.1 h
  obtain ⟨hnewline, hblank⟩ := hapart base hbase
  rw [Bool.eq_false_iff]
  intro hspace
  simp only [isSpace, isBlank, Bool.or_eq_true, beq_iff_eq, inRanges_iff] at hspace
  rcases hspace with rfl | ⟨r, hr, hlow', hhigh'⟩
  · exact absurd hlow (Nat.not_le.2 hnewline)
  · have := hblank r hr
    omega

theorem isSpace_of_isSeparator {c : Char} (h : isSeparator c = true) : isSpace c = true := by
  simp only [isSeparator, Bool.and_eq_true, decide_eq_true_eq] at h
  have hblank : isBlank c = true :=
    inRanges_iff.2 ⟨(0x1C, 0x20), by decide, h.1, Nat.le_trans h.2 (by decide)⟩
  rw [isSpace, hblank, Bool.or_true]

/-! ## White space around a text -/

theorem head?_any_append {p : Char → Bool} {cs ds : List Char} (hne : cs ≠ [])
    (h : ∀ ch ∈ cs, p ch = false) : (cs ++ ds).head?.any p = false := by
  cases cs with
  | nil => exact absurd rfl hne
  | cons c cs => exact h c List.mem_cons_self

/-- What is stripped off a text is white space. -/
theorem exists_strip (cs : List Char) :
    ∃ front back, cs = front ++ (strip cs ++ back) ∧ ∀ ch ∈ front ++ back, isSpace ch = true := by
  refine ⟨cs.takeWhile isSpace, ((stripFront cs).reverse.takeWhile isSpace).reverse, ?_, ?_⟩
  · have hback : strip cs ++ ((stripFront cs).reverse.takeWhile isSpace).reverse =
        stripFront cs := by
      rw [strip, stripFront, ← List.reverse_append, List.takeWhile_append_dropWhile,
        List.reverse_reverse]
    rw [hback, stripFront, List.takeWhile_append_dropWhile]
  · intro ch hch
    rcases List.mem_append.1 hch with hfront | hback
    · exact List.mem_takeWhile_imp hfront
    · exact List.mem_takeWhile_imp (List.mem_reverse.1 hback)

/-- White space around a text that has none in it is stripped off, and nothing else is. -/
theorem strip_append {front body back : List Char} (hne : body ≠ [])
    (hbody : ∀ ch ∈ body, isSpace ch = false) (hspace : ∀ ch ∈ front ++ back, isSpace ch = true) :
    strip (front ++ (body ++ back)) = body := by
  have hfront : stripFront (front ++ (body ++ back)) = body ++ back :=
    (Lexeme.span_run (fun ch hch => hspace ch (List.mem_append_left _ hch))
      (head?_any_append hne hbody)).2
  have hback : stripFront (back.reverse ++ (body.reverse ++ [])) = body.reverse ++ [] := by
    refine (Lexeme.span_run (fun ch hch => ?_) (head?_any_append ?_ fun ch hch => ?_)).2
    · exact hspace ch (List.mem_append_right _ (List.mem_reverse.1 hch))
    · simpa using hne
    · exact hbody ch (List.mem_reverse.1 hch)
  rw [List.append_nil] at hback
  rw [strip, hfront, List.reverse_append, hback, List.reverse_reverse]

end Text

/-! ## Numbers in digits -/

/-- The decimal digits `ds`, of any scripts, write the number `n`. -/
inductive Writes : List Char → Nat → Prop where
  | digit {ch : Char} {d : Nat} (h : Text.decimalDigit? ch = some d) : Writes [ch] d
  | append {ds : List Char} {n : Nat} {ch : Char} {d : Nat} (hds : Writes ds n)
      (h : Text.decimalDigit? ch = some d) : Writes (ds ++ [ch]) (10 * n + d)

theorem numeralValue_append {ch : Char} {d : Nat} (h : Text.decimalDigit? ch = some d)
    (ds : List Char) : numeralValue (ds ++ [ch]) = 10 * numeralValue ds + d := by
  rw [numeralValue, List.filterMap_append, List.filterMap_cons_some h, List.filterMap_nil,
    Text.natOfDigits_concat, numeralValue]

theorem Writes.numeralValue_eq {ds : List Char} {n : Nat} (h : Writes ds n) :
    numeralValue ds = n := by
  induction h with
  | @digit ch d h => simpa [numeralValue] using numeralValue_append h []
  | append hds h ih => rw [numeralValue_append h, ih]

theorem Writes.isDecimalDigit {ds : List Char} {n : Nat} (h : Writes ds n) :
    ds ≠ [] ∧ ∀ ch ∈ ds, Text.isDecimalDigit ch = true := by
  induction h with
  | digit h => simp [Text.isDecimalDigit, h]
  | append hds h ih =>
    refine ⟨by simp, fun ch hch => ?_⟩
    rcases List.mem_append.1 hch with hch | hch
    · exact ih.2 ch hch
    · rw [List.mem_singleton.1 hch, Text.isDecimalDigit, h, Option.isSome_some]

theorem writes_numeralValue {ds : List Char} (hne : ds ≠ [])
    (h : ∀ ch ∈ ds, Text.isDecimalDigit ch = true) : Writes ds (numeralValue ds) := by
  induction ds using List.reverseRecOn with
  | nil => exact absurd rfl hne
  | append_singleton ds ch ih =>
    have hch : Text.isDecimalDigit ch = true := h ch (by simp)
    obtain ⟨d, hd⟩ := Option.isSome_iff_exists.1 hch
    rw [numeralValue_append hd]
    cases ds with
    | nil => simpa [numeralValue] using Writes.digit hd
    | cons c cs => exact .append (ih (by simp) fun z hz => h z (List.mem_append_left _ hz)) hd

theorem Writes.allDigits {ds : List Char} {n : Nat} (h : Writes ds n) : allDigits ds = true := by
  obtain ⟨hne, hall⟩ := h.isDecimalDigit
  have hany : ∀ ch ∈ ds, Text.isAnyDigit ch = true := fun ch hch => by
    rw [Text.isAnyDigit, hall ch hch, Bool.true_or]
  simpa [PocketLisp.allDigits, hne] using hany

/-! ## Conversion -/

/-- The text can be converted: it is `ds`, decimal digits and not too many, with blanks around. -/
structure Converts (raw ds : List Char) : Prop where
  text : ∃ front back, raw = front ++ (ds ++ back) ∧ ∀ ch ∈ front ++ back, isNumeralBlank ch = true
  nonempty : ds ≠ []
  digit : ∀ ch ∈ ds, Text.isDecimalDigit ch = true
  few : ds.length ≤ maxDigits

/-- The text is all digits, without the white space around it, and it cannot be converted: one of
the digits belongs to no decimal system, or there are too many, or a separator is part of the white
space. -/
structure Refused (raw : List Char) : Prop where
  digits : allDigits (Text.strip raw) = true
  cause : (∃ ch ∈ Text.strip raw, Text.isDecimalDigit ch = false) ∨
    maxDigits < (Text.strip raw).length ∨ ∃ ch ∈ raw, Text.isSeparator ch = true

theorem isNumeralBlank_iff {ch : Char} : isNumeralBlank ch = true ↔
    Text.isSpace ch = true ∧ Text.isSeparator ch = false := by
  rw [isNumeralBlank, Bool.and_eq_true, Bool.not_eq_true']
  rfl

theorem isNumeralBlank_of_isDecimalDigit {ch : Char} (h : Text.isDecimalDigit ch = true) :
    isNumeralBlank ch = false := by
  rw [isNumeralBlank, Text.isSpace_of_isDecimalDigit h, Bool.false_and]

theorem isDecimalDigit_of_isNumeralBlank {ch : Char} (h : isNumeralBlank ch = true) :
    Text.isDecimalDigit ch = false := by
  rw [Bool.eq_false_iff]
  intro hdigit
  rw [isNumeralBlank_of_isDecimalDigit hdigit] at h
  cases h

/-- A text of this form is converted to the number that its digits write. -/
theorem Converts.readNumeral_eq {raw : String} {ds : List Char} (h : Converts raw.toList ds) :
    readNumeral raw = .ok (numeralValue ds) := by
  obtain ⟨front, back, htext, hblank⟩ := h.text
  have hfront : raw.toList.dropWhile isNumeralBlank = ds ++ back := by
    rw [htext]
    refine (Lexeme.span_run (fun ch hch => hblank ch (List.mem_append_left _ hch)) ?_).2
    exact Text.head?_any_append h.nonempty fun ch hch =>
      isNumeralBlank_of_isDecimalDigit (h.digit ch hch)
  have hback : ∀ ch ∈ back, isNumeralBlank ch = true :=
    fun ch hch => hblank ch (List.mem_append_right _ hch)
  have hend : back.head?.any Text.isDecimalDigit = false := by
    cases back with
    | nil => rfl
    | cons ch back => exact isDecimalDigit_of_isNumeralBlank (hback ch List.mem_cons_self)
  obtain ⟨htake, hdrop⟩ := Lexeme.span_run h.digit hend
  have hempty : ds.isEmpty = false := by simpa using h.nonempty
  have hall : back.all isNumeralBlank = true := List.all_eq_true.2 hback
  simp only [readNumeral, hfront, htake, hdrop, if_neg (Nat.not_lt.2 h.few), hempty, hall]
  rfl

/-- No other text is converted. -/
theorem converts_of_readNumeral {raw : String} {n : Nat} (h : readNumeral raw = .ok n) :
    ∃ ds, Converts raw.toList ds ∧ numeralValue ds = n := by
  simp only [readNumeral] at h
  split_ifs at h with hmany hbad
  simp only [Bool.or_eq_true, Bool.not_eq_true', not_or, Bool.not_eq_true, Bool.not_eq_false,
    List.isEmpty_eq_false_iff] at hbad
  obtain ⟨hne, hrest⟩ := hbad
  refine ⟨_, ⟨⟨raw.toList.takeWhile isNumeralBlank,
    (raw.toList.dropWhile isNumeralBlank).dropWhile Text.isDecimalDigit, ?_, ?_⟩, hne,
    fun ch hch => List.mem_takeWhile_imp hch, Nat.not_lt.1 hmany⟩, Except.ok.inj h⟩
  · rw [List.takeWhile_append_dropWhile, List.takeWhile_append_dropWhile]
  · intro ch hch
    rcases List.mem_append.1 hch with hfront | hback
    · exact List.mem_takeWhile_imp hfront
    · exact List.all_eq_true.1 hrest ch hback

theorem kind_of_readNumeral {raw : String} {f : HostFault} (h : readNumeral raw = .error f) :
    f.kind = .hostValue := by
  simp only [readNumeral] at h
  split_ifs at h <;> cases h <;> rfl

/-- What is converted is the text without the white space around it. -/
theorem Converts.strip_eq {raw ds : List Char} (h : Converts raw ds) : Text.strip raw = ds := by
  obtain ⟨front, back, rfl, hblank⟩ := h.text
  exact Text.strip_append h.nonempty (fun ch hch => Text.isSpace_of_isDecimalDigit (h.digit ch hch))
    fun ch hch => (isNumeralBlank_iff.1 (hblank ch hch)).1

theorem Converts.not_refused {raw ds : List Char} (h : Converts raw ds) : ¬ Refused raw := by
  intro hrefused
  have hcause := hrefused.cause
  rw [h.strip_eq] at hcause
  rcases hcause with ⟨ch, hch, hother⟩ | hmany | ⟨ch, hch, hseparator⟩
  · rw [h.digit ch hch] at hother
    cases hother
  · exact absurd h.few (Nat.not_le.2 hmany)
  · -- A separator is white space, so it is no digit, and it is none of the blanks either.
    have hspace := Text.isSpace_of_isSeparator hseparator
    obtain ⟨front, back, rfl, hblank⟩ := h.text
    by_cases hmem : ch ∈ ds
    · rw [Text.isSpace_of_isDecimalDigit (h.digit ch hmem)] at hspace
      cases hspace
    · have haround : ch ∈ front ++ back := by
        simp only [List.mem_append] at hch ⊢
        tauto
      rw [(isNumeralBlank_iff.1 (hblank ch haround)).2] at hseparator
      cases hseparator

/-- A text that is all digits is converted, unless it is one of those that are refused. -/
theorem converts_strip {raw : List Char} (hdigits : allDigits (Text.strip raw) = true)
    (h : ¬ Refused raw) : Converts raw (Text.strip raw) := by
  have hcause := mt (Refused.mk hdigits) h
  simp only [not_or, not_exists, not_and, Bool.not_eq_false, Bool.not_eq_true, Nat.not_lt] at hcause
  obtain ⟨hdecimal, hfew, hseparator⟩ := hcause
  obtain ⟨front, back, htext, hspace⟩ := Text.exists_strip raw
  refine ⟨⟨front, back, htext, fun ch hch => ?_⟩, ?_, hdecimal, hfew⟩
  · have hmem : ch ∈ raw := by
      rw [htext]
      simp only [List.mem_append] at hch ⊢
      tauto
    exact isNumeralBlank_iff.2 ⟨hspace ch hch, hseparator ch hmem⟩
  · intro hempty
    rw [hempty] at hdigits
    cases hdigits

/-! ## The depth that is asked for -/

section Depth

variable {raw : String}

theorem depthLimit_of_refused (h : Refused raw.toList) :
    ∃ f, depthLimit (some raw) = .error f ∧ f.kind = .hostValue := by
  cases hread : readNumeral raw with
  | ok n =>
    obtain ⟨ds, hds, -⟩ := converts_of_readNumeral hread
    exact absurd h hds.not_refused
  | error f =>
    refine ⟨f, ?_, kind_of_readNumeral hread⟩
    simp only [depthLimit, h.digits, ↓reduceIte, hread]

/-- A setting that is not refused asks for the number that its digits write, if that is not too
small, and else for nothing. -/
theorem depthLimit_of_not_refused (h : ¬ Refused raw.toList) :
    ∃ depth?, depthLimit (some raw) = .ok depth? ∧
      ∀ n, depth? = some n ↔ minDepth ≤ n ∧ Writes (Text.strip raw.toList) n := by
  cases hdigits : allDigits (Text.strip raw.toList) with
  | false =>
    refine ⟨none, by simp [depthLimit, hdigits], fun n => ?_⟩
    constructor
    · intro hn
      cases hn
    · rintro ⟨-, hn⟩
      rw [hn.allDigits] at hdigits
      cases hdigits
  | true =>
    have hds := converts_strip hdigits h
    have hwrites := writes_numeralValue hds.nonempty hds.digit
    refine ⟨if minDepth ≤ numeralValue (Text.strip raw.toList)
      then some (numeralValue (Text.strip raw.toList)) else none, ?_, fun n => ?_⟩
    · simp only [depthLimit, hdigits, ↓reduceIte, hds.readNumeral_eq]
    · rw [Option.ite_none_right_eq_some, Option.some.injEq]
      constructor
      · rintro ⟨hleast, rfl⟩
        exact ⟨hleast, hwrites⟩
      · rintro ⟨hleast, hn⟩
        rw [hn.numeralValue_eq]
        exact ⟨hleast, rfl⟩

end Depth

/-! ## The command under a setting -/

namespace Command

/-- The setting cannot be converted, or it asks for more than can be set. -/
def Unusable (setting : Option String) : Prop :=
  ∃ raw, setting = some raw ∧
    (Refused raw.toList ∨ ∃ n, maxDepth < n ∧ Writes (Text.strip raw.toList) n)

theorem roomFor_of_unusable {setting : Option String} (h : Unusable setting) :
    ∃ f, roomFor setting = .error f := by
  obtain ⟨raw, rfl, hraw⟩ := h
  by_cases hrefused : Refused raw.toList
  · obtain ⟨f, hf, -⟩ := depthLimit_of_refused hrefused
    exact ⟨f, by rw [roomFor, hf]⟩
  · obtain ⟨n, hgreat, hn⟩ := hraw.resolve_left hrefused
    obtain ⟨depth?, hdepth, hiff⟩ := depthLimit_of_not_refused hrefused
    have hleast : minDepth ≤ n := Nat.le_trans (by decide) (Nat.le_of_lt hgreat)
    rw [(hiff n).2 ⟨hleast, hn⟩] at hdepth
    refine ⟨.limitTooGreat, ?_⟩
    simp only [roomFor, hdepth, if_neg (Nat.not_le.2 hgreat)]

theorem roomFor_of_usable {setting : Option String} (h : ¬ Unusable setting) :
    ∃ room, roomFor setting = .ok room := by
  cases setting with
  | none => exact ⟨_, rfl⟩
  | some raw =>
    have hrefused : ¬ Refused raw.toList := fun hr => h ⟨raw, rfl, .inl hr⟩
    obtain ⟨depth?, hdepth, hiff⟩ := depthLimit_of_not_refused hrefused
    cases depth? with
    | none => exact ⟨_, by rw [roomFor, hdepth]⟩
    | some n =>
      have hn := ((hiff n).1 rfl).2
      have hle : n ≤ maxDepth := Nat.not_lt.1 fun hgreat => h ⟨raw, rfl, .inr ⟨n, hgreat, hn⟩⟩
      exact ⟨n - framesOutside, by simp only [roomFor, hdepth, if_pos hle]⟩

section Run

variable {setup : Setup} {file : String} {results verbose : Bool}

/-- A setting that is unusable ends the command, whatever stands in the file. -/
theorem run_of_unusable (hargs : Args.parse setup.arguments = .ok (.run file results verbose))
    (h : Unusable setup.depth) (fuel : Nat) :
    ∃ f, ∀ read, Command.run fuel setup read = some (crash f) := by
  obtain ⟨f, hf⟩ := roomFor_of_unusable h
  refine ⟨f, fun read => ?_⟩
  simp only [Command.run, prepare, hargs, hf]

theorem run_of_usable (hargs : Args.parse setup.arguments = .ok (.run file results verbose))
    (hfile : '\x00' ∉ file.toList) (h : ¬ Unusable setup.depth) (fuel : Nat) :
    ∃ job : Job, job.file = file ∧
      ∀ read, Command.run fuel setup read = job.finish fuel (read file) := by
  obtain ⟨room, hroom⟩ := roomFor_of_usable h
  have hplain : file.toList.contains '\x00' = false := by simpa using hfile
  refine ⟨⟨file, results, verbose || (Level.ofSetting setup.level).traces, room⟩, rfl,
    fun read => ?_⟩
  simp only [Command.run, prepare, hargs, hroom, hplain]
  rfl

end Run

end Command

open Command

/-- **The depth.** Without a setting no depth is asked for. A setting that is all digits, with white
space around them, and cannot be converted is a fault. Any other setting asks for the number that
its text writes in decimal digits, if it does and the number is not too small, and else for nothing.
So the command fails before it reads its file if the setting cannot be converted or asks for more
than can be set, and it reads the file under every other setting. -/
theorem depth_law (setting : Option String) :
    (match setting with
    | none => depthLimit setting = .ok none
    | some raw =>
      (Refused raw.toList → ∃ f, depthLimit setting = .error f ∧ f.kind = .hostValue) ∧
      (¬ Refused raw.toList → ∃ depth?, depthLimit setting = .ok depth? ∧
        ∀ n, depth? = some n ↔ minDepth ≤ n ∧ Writes (Text.strip raw.toList) n)) ∧
    ∀ fuel setup file results verbose, setup.depth = setting →
      Args.parse setup.arguments = .ok (.run file results verbose) → '\x00' ∉ file.toList →
      (Unusable setting → ∃ f, ∀ read, Command.run fuel setup read = some (crash f)) ∧
      (¬ Unusable setting → ∃ job : Job, job.file = file ∧
        ∀ read, Command.run fuel setup read = job.finish fuel (read file)) := by
  constructor
  · cases setting with
    | none => rfl
    | some raw => exact ⟨depthLimit_of_refused, depthLimit_of_not_refused⟩
  · rintro fuel setup file results verbose rfl hargs hfile
    exact ⟨fun h => run_of_unusable hargs h fuel, fun h => run_of_usable hargs hfile h fuel⟩

/-- Digits of two scripts between a no-break space and a newline are a number that can be set. A
superscript digit is refused. -/
theorem depth_law_mixed_digits :
    let raw := "\u00a0٣000\n"
    (¬ Refused raw.toList ∧ depthLimit (some raw) = .ok (some 3000) ∧
      ∃ job : Job, job.file = "prog" ∧
        ∀ read, Command.run 0 { arguments := ["prog"], depth := some raw } read =
          job.finish 0 (read "prog")) ∧
    Refused "²".toList ∧ ∃ f, depthLimit (some "²") = .error f ∧ f.kind = .hostValue := by
  intro raw
  have hds : Converts raw.toList ['٣', '0', '0', '0'] :=
    ⟨⟨['\u00a0'], ['\n'], by decide +kernel, List.all_eq_true.1 rfl⟩, by decide,
      List.all_eq_true.1 (by decide +kernel), by decide⟩
  have hrefused := hds.not_refused
  have hwrites : Writes (Text.strip raw.toList) 3000 := by
    rw [hds.strip_eq]
    exact writes_numeralValue hds.nonempty hds.digit
  obtain ⟨⟨-, hsetting⟩, hcommand⟩ := depth_law (some raw)
  obtain ⟨depth?, hdepth, hiff⟩ := hsetting hrefused
  have husable : ¬ Unusable (some raw) := by
    rintro ⟨_, ⟨⟩, hrefused' | ⟨n, hgreat, hn⟩⟩
    · exact hrefused hrefused'
    · rw [← hn.numeralValue_eq, hwrites.numeralValue_eq] at hgreat
      exact absurd hgreat (by decide)
  rw [(hiff 3000).2 ⟨by decide, hwrites⟩] at hdepth
  have hruns := (hcommand 0 { arguments := ["prog"], depth := some raw } "prog" false false rfl
    (by decide) (by decide)).2 husable
  have hsuperscript : Refused "²".toList :=
    ⟨by decide +kernel, .inl ⟨'²', by decide +kernel, by decide +kernel⟩⟩
  exact ⟨⟨hrefused, hdepth, hruns⟩, hsuperscript, (depth_law (some "²")).1.1 hsuperscript⟩

/-- A superscript digit, a separator before decimal digits and a number that is too great: the first
two are faults of the setting, and each of the three ends the command before its file is read. -/
theorem depth_setting_not_ignored :
    depthLimit (some "²") = .error (.badNumeral "²") ∧
    Writes (Text.strip "\x1c3000".toList) 3000 ∧
    depthLimit (some "\x1c3000") = .error (.badNumeral "\x1c3000") ∧
    depthLimit (some "3000000000") = .ok (some 3000000000) ∧
    ∀ read,
      Command.run 0 { arguments := ["prog"], depth := some "²" } read =
        some (crash (.badNumeral "²")) ∧
      Command.run 0 { arguments := ["prog"], depth := some "\x1c3000" } read =
        some (crash (.badNumeral "\x1c3000")) ∧
      Command.run 0 { arguments := ["prog"], depth := some "3000000000" } read =
        some (crash .limitTooGreat) := by
  have hdigits : Text.strip "\x1c3000".toList = ['3', '0', '0', '0'] := by decide +kernel
  refine ⟨by decide +kernel, ?_, by decide +kernel, by decide +kernel,
    fun read => ⟨rfl, rfl, rfl⟩⟩
  rw [hdigits]
  exact writes_numeralValue (by decide) (List.all_eq_true.1 (by decide +kernel))

end PocketLisp
