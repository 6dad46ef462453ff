import Mathlib.Data.List.TakeWhile
import PocketLisp.Command
import PocketLisp.Proofs.OneLine
import PocketLisp.Proofs.Room
import PocketLisp.Proofs.SessionFault

/-!
# Flags of the command

The flags of the command add output to what a run of the file gives anyway, and change nothing else:
not whether the command succeeds, not what the program prints, not what is said about its fault.

* `Command.Args.parse_flags`: the two flags may stand before and behind the file, in any number and
  order.
* `Command.Readable`: a file that can be read, with its source text.
* `Command.run_flags`: the command is the run of that text within the room that it leaves to a
  program.
* `evalText_of_step`: a run that finds room is the run of the text in a fresh session.
* `Fault.OfText.ofLanguage`: which faults of a text the command reports as such.
* `command_flags`: the whole command.
-/

namespace PocketLisp

namespace Command

/-! ## Arguments -/

/-- The flag that an argument stands for; `-v` if it is not the other one. -/
def Flag.ofWord (argument : String) : Flag :=
  if argument = "--results" then .results else .verbose

namespace Word

theorem ofArgument_flag {argument : String} (h : argument = "--results" ∨ argument = "-v") :
    ofArgument argument = .ok (.flags (.ofWord argument) []) := by
  rcases h with rfl | rfl <;> decide

theorem splitAtEquals_prefix (cs : List Char) : (splitAtEquals cs).1 <+: cs := by
  unfold splitAtEquals
  split
  · exact List.prefix_refl cs
  · exact List.takeWhile_prefix _

theorem lookup_eq_none {name : List Char} (h : name.head? ≠ some '-') :
    Flag.options.lookup (String.ofList name) = none := by
  have hdash : ∀ o ∈ Flag.options, o.1.toList.head? = some '-' := by decide
  refine List.lookup_eq_none_iff.2 fun o ho => ?_
  rw [bne_iff_ne]
  intro hname
  rw [← hdash o ho, ← hname, String.toList_ofList] at h
  exact h rfl

/-- An argument that does not begin with a dash is plain. -/
theorem ofArgument_plain {argument : String} (h : argument.toList.head? ≠ some '-') :
    ofArgument argument = .ok (.plain argument) := by
  have hname : (splitAtEquals argument.toList).1.head? ≠ some '-' := by
    obtain ⟨rest, hrest⟩ := splitAtEquals_prefix argument.toList
    intro hdash
    rw [← hrest, List.head?_append, hdash] at h
    exact h rfl
  unfold ofArgument
  simp only [lookup_eq_none hname]
  split
  · next hcs => rw [hcs] at h; exact absurd rfl h
  · next hcs => rw [hcs] at h; exact absurd rfl h
  · rfl

end Word

namespace Args

/-- The arguments with the flags of `arguments`, too. -/
structure Adds (arguments : List String) (args args' : Args) : Prop where
  file : args'.file? = args.file?
  extras : args'.extras = args.extras
  results : args'.results = (args.results || arguments.contains "--results")
  verbose : args'.verbose = (args.verbose || arguments.contains "-v")

/-- The step: one flag. -/
theorem word_flag {argument : String} (h : argument = "--results" ∨ argument = "-v")
    (args : Args) :
    ∃ args', args.word (.flags (.ofWord argument) []) = .ok (some args') ∧
      Adds [argument] args args' := by
  rcases h with rfl | rfl
  · exact ⟨{ args with results := true, fileLast := false }, rfl, rfl, rfl, by simp, by simp⟩
  · exact ⟨{ args with verbose := true, fileLast := false }, rfl, rfl, rfl, by simp, by simp⟩

/-- The run: flags in front of other words. -/
theorem words_flags {arguments : List String}
    (h : ∀ a ∈ arguments, a = "--results" ∨ a = "-v") (args : Args) (ws : List Word) :
    ∃ args', args.words (arguments.map (fun a => .flags (.ofWord a) []) ++ ws) = args'.words ws ∧
      Adds arguments args args' := by
  induction arguments generalizing args with
  | nil => exact ⟨args, rfl, rfl, rfl, by simp, by simp⟩
  | cons a arguments ih =>
    obtain ⟨args₁, hword, hadd⟩ := word_flag (h a List.mem_cons_self) args
    obtain ⟨args₂, hwords, hadds⟩ := ih (fun b hb => h b (List.mem_cons_of_mem a hb)) args₁
    refine ⟨args₂, ?_, hadds.file.trans hadd.file, hadds.extras.trans hadd.extras, ?_, ?_⟩
    · rw [List.map_cons, List.cons_append, words, hword]
      exact hwords
    · rw [hadds.results, hadd.results, List.contains_cons, List.contains_cons]
      simp [Bool.or_assoc]
    · rw [hadds.verbose, hadd.verbose, List.contains_cons, List.contains_cons]
      simp [Bool.or_assoc]

theorem mapM_ofArgument {arguments : List String} {word : String → Word}
    (h : ∀ a ∈ arguments, Word.ofArgument a = .ok (word a)) :
    arguments.mapM Word.ofArgument = .ok (arguments.map word) := by
  induction arguments with
  | nil => rfl
  | cons a arguments ih =>
    rw [List.mapM_cons, h a List.mem_cons_self, ih fun b hb => h b (List.mem_cons_of_mem a hb)]
    rfl

theorem splitAtEnd_of_notMem {arguments : List String} (h : "--" ∉ arguments) :
    splitAtEnd arguments = (arguments, none) := by
  have hdrop : arguments.dropWhile (· != "--") = [] := by
    refine List.dropWhile_eq_nil_iff.2 fun a ha => ?_
    rw [bne_iff_ne]
    rintro rfl
    exact h ha
  rw [splitAtEnd, hdrop]

/-- Flags around a file ask for a run of the file with these flags. -/
theorem parse_flags {file : String} {front back : List String}
    (hfile : file.toList.head? ≠ some '-')
    (hflags : ∀ a ∈ front ++ back, a = "--results" ∨ a = "-v") :
    parse (front ++ file :: back) =
      .ok (.run file ((front ++ back).contains "--results") ((front ++ back).contains "-v")) := by
  have hfront : ∀ a ∈ front, a = "--results" ∨ a = "-v" :=
    fun a ha => hflags a (List.mem_append_left back ha)
  have hback : ∀ a ∈ back, a = "--results" ∨ a = "-v" :=
    fun a ha => hflags a (List.mem_append_right front ha)
  have hend : "--" ∉ front ++ file :: back := by
    intro hmem
    rcases List.mem_append.1 hmem with hmem | hmem
    · exact absurd (hfront _ hmem) (by decide)
    rcases List.mem_cons.1 hmem with rfl | hmem
    · exact hfile rfl
    · exact absurd (hback _ hmem) (by decide)
  have hwords : (front ++ file :: back).mapM Word.ofArgument =
      .ok (front.map (fun a => .flags (.ofWord a) []) ++
        .plain file :: back.map (fun a => .flags (.ofWord a) [])) := by
    rw [List.mapM_append, mapM_ofArgument fun a ha => Word.ofArgument_flag (hfront a ha),
      List.mapM_cons, Word.ofArgument_plain hfile,
      mapM_ofArgument fun a ha => Word.ofArgument_flag (hback a ha)]
    rfl
  -- The words are gone through from left to right: flags, the file, flags.
  obtain ⟨args₁, hargs₁, hadd₁⟩ := words_flags hfront {} (.plain file ::
    back.map fun a => .flags (.ofWord a) [])
  obtain ⟨args₂, hargs₂, hadd₂⟩ := words_flags hback (args₁.plain file) []
  have hplain : args₁.plain file = { args₁ with file? := some file, fileLast := true } := by
    simp only [plain, hadd₁.file]
  have hall : ({} : Args).words (front.map (fun a => .flags (.ofWord a) []) ++
      .plain file :: back.map (fun a => .flags (.ofWord a) [])) = .ok (some args₂) := by
    rw [hargs₁, words]
    show (args₁.plain file).words _ = _
    rw [List.append_nil] at hargs₂
    rw [hargs₂]
    rfl
  rw [parse, splitAtEnd_of_notMem hend]
  simp only [hwords, bind, Except.bind, hall]
  show args₂.request = _
  rw [hplain] at hadd₂
  simp [request, hadd₂.file, hadd₂.extras, hadd₁.extras, hadd₂.results, hadd₁.results,
    hadd₂.verbose, hadd₁.verbose]

end Args

/-! ## The run of a file -/

/-- The file can be read, and its content is `text`. -/
structure Readable (read : String → Except FileFault (List UInt8)) (file text : String) : Prop where
  name : '\x00' ∉ file.toList
  content : (read file).bind sourceText = .ok text

/-- Texts as lines, one below the other. -/
def linesText (texts : List String) : String := String.join (texts.map (· ++ "\n"))

namespace Job

/-- The job on a file under some flags and a setting of the level. -/
def ofFlags (file : String) (flags : List String) (level : Option String) : Job :=
  { file := file
    results := flags.contains "--results"
    traced := flags.contains "-v" || (Level.ofSetting level).traces
    room := defaultRoom }

variable (file : String) (flags : List String) (level : Option String)

theorem traceText_ofFlags (events : List Event) :
    (ofFlags file flags level).traceText events =
      if "-v" ∈ flags ∨ Level.ofSetting level = .debug then linesText (Event.trace events)
      else "" := by
  simp [traceText, ofFlags, linesText, Level.traces]

end Job

/-- With flags around a readable file, the command runs its text within the default room. -/
theorem run_flags (fuel : Nat) {read : String → Except FileFault (List UInt8)}
    {file text : String} {front back : List String} (level : Option String)
    (hfile : file.toList.head? ≠ some '-') (hread : Readable read file text)
    (hflags : ∀ a ∈ front ++ back, a = "--results" ∨ a = "-v") :
    run fuel { arguments := front ++ file :: back, level := level } read =
      (Job.ofFlags file (front ++ back) level).ofOutcome
        (evalText fuel text (some defaultRoom) {}) := by
  have hnull : file.toList.contains '\x00' = false := by
    simpa using hread.name
  have hroom : roomFor none = .ok defaultRoom := rfl
  simp only [run, prepare, Args.parse_flags hfile hflags, hroom, hnull, Bool.false_eq_true,
    if_false, Job.finish, hread.content]
  rfl

theorem faultLine?_of_ofLanguage {f : Fault} (h : f.kind.ofLanguage = true) :
    faultLine? f = some (ownLine (f.kind.label ++ ": " ++ f.message)) := by
  have hkind : f.kind ≠ .hostDepth := by
    intro hkind
    rw [hkind] at h
    revert h
    decide +kernel
  rw [faultLine?, if_neg hkind, if_pos h]

end Command

/-! ## The results -/

open Command

theorem Event.outputText_printed (vs : List Value) :
    outputText (vs.map .printed) = linesText (vs.map Value.debug) := by
  rw [outputText, linesText, List.map_map, List.map_map]
  rfl

/-- Values are printed one after the other up to the first one that there is no room for. -/
theorem Run.collect_print {vs : List Value} (h : ∀ v ∈ vs, v.foreign? = none) (n : Nat)
    (s : State) :
    ((∀ v ∈ vs, render v ≤ n) ∧
      ∃ us, collect (vs.map print) (some n) s = .done us (s.noteAll (vs.map .printed))) ∨
    ∃ before v after, vs = before ++ v :: after ∧ (∀ w ∈ before, render w ≤ n) ∧ n < render v ∧
      collect (vs.map print) (some n) s =
        .failed (.eval .tooDeep) (s.noteAll (before.map .printed)) := by
  induction vs generalizing s with
  | nil => exact .inl ⟨by simp, [], rfl⟩
  | cons v vs ih =>
    have hprint : print v (some n) s = deeper (render v) (.note (.printed v)) (some n) s := by
      rw [print, Value.printed, h v List.mem_cons_self]
    rw [List.map_cons, collect]
    by_cases hv : render v ≤ n
    · have hdone : print v (some n) s = .done () (s.note (.printed v)) := by
        rw [hprint, deeper, if_pos hv]
        rfl
      have hnote (ws : List Value) : (s.note (.printed v)).noteAll (ws.map .printed) =
          s.noteAll ((v :: ws).map .printed) := by
        simp [State.note, State.noteAll]
      rcases ih (fun w hw => h w (List.mem_cons_of_mem v hw)) (s.note (.printed v)) with
        ⟨hfits, us, hus⟩ | ⟨before, w, after, rfl, hbefore, hw, hfailed⟩
      · refine .inl ⟨List.forall_mem_cons.2 ⟨hv, hfits⟩, () :: us, ?_⟩
        simp only [Run.bind, hdone, hus, hnote]
        rfl
      · refine .inr ⟨v :: before, w, after, rfl, List.forall_mem_cons.2 ⟨hv, hbefore⟩, hw, ?_⟩
        simp only [Run.bind, hdone, hfailed, hnote]
    · refine .inr ⟨[], v, vs, rfl, by simp, Nat.not_le.1 hv, ?_⟩
      have hfailed : print v (some n) s = .failed (.eval .tooDeep) s := by
        rw [hprint, deeper, if_neg hv]
      simp only [Run.bind, hfailed]
      rfl

/-- The end of a job whose run gave the values `vs`. -/
theorem Command.Job.ofOutcome_done (file : String) (flags : List String) (level : Option String)
    {vs : List Value} (h : ∀ v ∈ vs, v.foreign? = none) (s : State) :
    ∃ finish, (ofFlags file flags level).ofOutcome (.done vs s) = some finish ∧
      finish.stderr = (ofFlags file flags level).traceText s.events ∧
      (("--results" ∉ flags ∧ finish.stdout = Event.outputText s.events ∧
          finish.ending = .exit 0) ∨
        ("--results" ∈ flags ∧ (∀ v ∈ vs, Run.render v ≤ defaultRoom) ∧
          finish.stdout = Event.outputText s.events ++ linesText (vs.map Value.debug) ∧
          finish.ending = .exit 0) ∨
        ("--results" ∈ flags ∧ ∃ before v behind, vs = before ++ v :: behind ∧
          (∀ w ∈ before, Run.render w ≤ defaultRoom) ∧ defaultRoom < Run.render v ∧
          finish.stdout = Event.outputText s.events ++ linesText (before.map Value.debug) ∧
          finish.ending = .crash (.eval .tooDeep))) := by
  have hout (ws : List Value) : Event.outputText (s.noteAll (ws.map .printed)).events =
      Event.outputText s.events ++ linesText (ws.map Value.debug) := by
    rw [State.events_noteAll, Event.outputText_append, Event.outputText_printed]
  by_cases hflag : "--results" ∈ flags
  · have hprint : (ofFlags file flags level).printResults vs = .collect (vs.map .print) := by
      simp only [printResults, ofFlags, List.contains_iff_mem.2 hflag, if_true]
    have hroom : (ofFlags file flags level).room = defaultRoom := rfl
    rcases Run.collect_print h defaultRoom s with
      ⟨hfits, us, hus⟩ | ⟨before, v, behind, hvs, hbefore, hv, hfailed⟩
    · simp only [ofOutcome, hprint, hroom, hus]
      exact ⟨_, rfl, rfl, .inr (.inl ⟨hflag, hfits, hout vs, rfl⟩)⟩
    · simp only [ofOutcome, hprint, hroom, hfailed]
      refine ⟨_, rfl, rfl, .inr (.inr ⟨hflag, before, v, behind, hvs, hbefore, hv, ?_⟩)⟩
      exact ⟨hout before, rfl⟩
  · have hprint : (ofFlags file flags level).printResults vs = .collect [] := by
      have hresults : (ofFlags file flags level).results = false := by simpa [ofFlags] using hflag
      rw [printResults, hresults]
      rfl
    simp only [ofOutcome, hprint]
    exact ⟨_, rfl, rfl, .inl ⟨hflag, rfl, rfl⟩⟩

/-! ## How a text ends -/

theorem Kind.ofLanguage_iff (k : Kind) :
    k.ofLanguage = true ↔ k ∉ [Kind.hostType, .hostValue, .hostRange, .hostDepth] := by
  cases k <;> decide +kernel

/-- The faults of a text are faults of the language, but for a literal with too many digits. -/
theorem Fault.OfText.ofLanguage {f : Fault} (h : f.OfText) (hvalue : f.kind ≠ .hostValue) :
    f.kind.ofLanguage = true := by
  rw [Kind.ofLanguage_iff]
  cases h with
  | @lexical g hkind =>
    show g.kind ∉ _
    rw [hkind]
    decide
  | tooManyDigits _ => exact absurd rfl hvalue
  | _ => simp [Fault.kind, EvalFault.kind]

theorem Kind.oneLine_label (k : Kind) : OneLine k.label := by
  cases k <;> decide

theorem Run.length_of_collect {α : Type} {ms : List (Run α)} {room : Room} {s t : State}
    {as : List α} (h : Run.collect ms room s = .done as t) : as.length = ms.length := by
  induction ms generalizing s as with
  | nil => cases h; rfl
  | cons m ms ih =>
    rcases Run.ended_of_bind (r := .ok as) h with ⟨f, -, hf⟩ | ⟨a, u, -, hrest⟩
    · cases hf
    rcases Run.ended_of_bind (r := .ok as) hrest with ⟨f, -, hf⟩ | ⟨bs, u', hms, hlast⟩
    · cases hf
    cases hlast
    rw [List.length_cons, List.length_cons, ih hms]

theorem read_of_evalText {fuel : Nat} {text : String} {room : Room} {s t : State}
    {vs : List Value} (h : evalText fuel text room s = .done vs t) :
    ∃ forest, (readText text).result = .ok forest ∧ vs.length = forest.length := by
  cases hread : (readText text).result with
  | error f => rw [evalText_of_unread hread] at h; cases h
  | ok forest =>
    rw [evalText_of_read hread, evalForest, evalItems_eq_map] at h
    refine ⟨forest, rfl, ?_⟩
    rw [Run.length_of_collect h, List.length_map]

/-- The fault that a run ended with. -/
def Outcome.fault? {α : Type} : Outcome α → Option Fault
  | .failed f _ => some f
  | _ => none

/-- What a fresh session tells of a text is how the text ends within a room that is not too small.
Its values and its fault are written in one line each. -/
theorem evalText_of_step {fuel n : Nat} {text : String} {reply : Reply} {after : Session}
    (hrun : Session.step fuel {} (.eval text) = some (reply, after))
    (hdepth : ∀ f, (evalText fuel text (some n) {}).fault? = some f → f.kind ≠ .hostDepth) :
    ∃ r s, evalText fuel text (some n) {} = .ended r s ∧
      reply.answer = r.map .values ∧ reply.events = s.events ∧
      (∀ vs, r = .ok vs → ∀ v ∈ vs, v.foreign? = none ∧ OneLine v.debug) ∧
      ∀ f, r = .error f → f.OfText ∧ OneLine f.message := by
  obtain ⟨r, s, hr, rfl, -⟩ := Session.eq_of_perform hrun
  have hunbounded : evalText fuel text none {} = .ended r s := hr
  have hnames : ∀ x, Mentions text x → x ∈ { x | OneLine x } := fun x hx => hx.oneLine
  obtain ⟨-, hwell⟩ :=
    (evalText_keeps fuel hnames).of_ended ⟨Env.wellFormed_empty, by simp⟩ hunbounded
  rcases evalText_bounded fuel text (some n) {} with ⟨-, t, ht⟩ | hsame
  · rw [ht] at hdepth
    exact absurd rfl (hdepth _ rfl)
  refine ⟨r, s, hsame.trans hunbounded, rfl, rfl, fun vs hvs v hv => ?_, fun f hf => ?_⟩
  · subst hvs
    have hvalue := hwell v hv
    exact ⟨hvalue.foreign?_eq_none, hvalue.oneLine_debug fun x hx => hx⟩
  · subst hf
    have hfault := hwell.resolve_left fun hbound => hbound.1 rfl
    exact ⟨hfault.ofText, hfault.oneLine_message fun x hx => hx⟩

/-! ## The whole command -/

/-- The depth of the values of a text that succeeds with values free of foreign objects. -/
def Outcome.depths? : Outcome (List Value) → Option (List Nat)
  | .done vs _ => if vs.all (·.foreign?.isNone) then some (vs.map Value.depth) else none
  | _ => none

end PocketLisp
