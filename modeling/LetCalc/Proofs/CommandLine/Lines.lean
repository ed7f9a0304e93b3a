import Mathlib.Data.List.ReduceOption
import LetCalc.Proofs.CommandLine.Options
import LetCalc.Proofs.CommandLine.Turns
import LetCalc.Proofs.Evaluation.Trace

/-!
# Lines that fail leave the others alone

Without a program the command works on the lines of standard input, until one asks to stop. Every
line that is not blank is run like a program of its own in scope 0 of one forest, which it gets from
the line before it and leaves to the next one, also if it fails (`Command.replies`).

* `Command.linesForest_apply`: what the work on lines shows, and the scopes it leaves.
* `Command.Inserted.evaluated_replies`: lines that are blank or no programs can be put anywhere
  among the others.
* `Command.lines_isolate_failures`: both for whole calls.
-/

namespace LetCalc.CommandLine.Command

open Shell

variable {options : Options} {sink : Sink} {c : Console}

/-- The lines of standard input. -/
def inputLines (input : String) : List (List Char) := Text.lines input.toList

/-- The lines that are worked on, which are those before the first one that asks to stop. -/
def asked (texts : List (List Char)) : List (List Char) :=
  texts.takeWhile fun text => Text.trim text ≠ "exit".toList

theorem asked_of_exit {text : List Char} (h : Text.trim text = "exit".toList)
    (rest : List (List Char)) : asked (text :: rest) = [] :=
  List.takeWhile_cons_of_neg (by simpa using h)

theorem asked_of_ne {text : List Char} (h : Text.trim text ≠ "exit".toList)
    (rest : List (List Char)) : asked (text :: rest) = text :: asked rest :=
  List.takeWhile_cons_of_pos (by simpa using h)

/-- The turns of lines, each in the scopes that the one before leaves, and the scopes after the last
one. A blank line has none. -/
def replies (level : Int) (forest : Forest) : List (List Char) → List (Option Turn) × Forest
  | [] => ([], forest)
  | text :: rest =>
    if Text.trim text = [] then
      let (more, last) := replies level forest rest
      (none :: more, last)
    else
      let (result, after, trace) := Program.run level 0 (String.ofList text) forest
      let (more, last) := replies level after rest
      (some ⟨result, trace⟩ :: more, last)

/-- What standard output shows of turns: every line is asked for, also the one that is not there. -/
def prompted (turns : List (Option Turn)) : String :=
  String.join (turns.map fun turn => "> " ++ turn.elim "" Turn.printed) ++ "> "

theorem replies_of_blank {text : List Char} (h : Text.trim text = []) (level : Int)
    (forest : Forest) (rest : List (List Char)) :
    replies level forest (text :: rest) =
      (none :: (replies level forest rest).1, (replies level forest rest).2) := by
  rw [replies, if_pos h]

theorem replies_of_ne {text : List Char} (h : Text.trim text ≠ []) (level : Int) (forest : Forest)
    (rest : List (List Char)) :
    replies level forest (text :: rest) =
      (some (.ofSource level (String.ofList text) forest) ::
          (replies level (Program.run level 0 (String.ofList text) forest).2.1 rest).1,
        (replies level (Program.run level 0 (String.ofList text) forest).2.1 rest).2) := by
  rw [replies, if_neg h]
  rfl

/-- Lines are worked on after others in the scopes that these leave. -/
theorem replies_append (level : Int) (forest : Forest) (before after : List (List Char)) :
    replies level forest (before ++ after) =
      ((replies level forest before).1 ++ (replies level (replies level forest before).2 after).1,
        (replies level (replies level forest before).2 after).2) := by
  induction before generalizing forest with
  | nil => rfl
  | cons text rest ih =>
    by_cases hblank : Text.trim text = []
    · rw [List.cons_append, replies_of_blank hblank, replies_of_blank hblank, ih, List.cons_append]
    · rw [List.cons_append, replies_of_ne hblank, replies_of_ne hblank, ih, List.cons_append]

theorem length_replies (level : Int) (forest : Forest) (texts : List (List Char)) :
    (replies level forest texts).1.length = texts.length := by
  induction texts generalizing forest with
  | nil => rfl
  | cons text rest ih =>
    by_cases hblank : Text.trim text = []
    · rw [replies_of_blank hblank, List.length_cons, List.length_cons, ih]
    · rw [replies_of_ne hblank, List.length_cons, List.length_cons, ih]

/-- The turns of lines are those of source texts. -/
theorem exists_of_mem_replies {level : Int} {forest : Forest} {texts : List (List Char)} {t : Turn}
    (h : t ∈ (replies level forest texts).1.reduceOption) :
    ∃ source forest, t = .ofSource level source forest := by
  induction texts generalizing forest with
  | nil => cases h
  | cons text rest ih =>
    by_cases hblank : Text.trim text = []
    · rw [replies_of_blank hblank, List.reduceOption_cons_of_none] at h
      exact ih h
    · rw [replies_of_ne hblank, List.reduceOption_cons_of_some] at h
      rcases List.mem_cons.1 h with rfl | h
      · exact ⟨_, _, rfl⟩
      · exact ih h

/-! ## The loop -/

/-- The work on lines, together with the scopes after it. -/
def linesForest (options : Options) (forest : Forest) : List (List Char) → Shell Forest
  | [] => do
    print "> "
    return forest
  | text :: rest => do
    print "> "
    match ← line options forest text with
    | none => return forest
    | some forest => linesForest options forest rest

/-- The scopes are all that the work on lines leaves out. -/
theorem lines_eq (options : Options) (forest : Forest) (texts : List (List Char)) :
    lines options forest texts = (do let _ ← linesForest options forest texts) := by
  induction texts generalizing forest with
  | nil => rfl
  | cons text rest ih =>
    simp only [lines, linesForest, bind_assoc]
    congr
    funext _
    congr
    funext next
    cases next with
    | none => rfl
    | some forest => exact ih forest

/-- The work on lines shows the turns of the lines that are asked for, one after the other, and ends
in the scopes of the last one. -/
theorem linesForest_apply (h : sink.Serves options c.disk) (forest : Forest)
    (texts : List (List Char)) :
    linesForest options forest texts c =
      (.ok (replies options.verbosity forest (asked texts)).2,
        ⟨c.output ++ prompted (replies options.verbosity forest (asked texts)).1,
          c.errors ++ String.join
            ((replies options.verbosity forest (asked texts)).1.reduceOption.map sink.told),
          (replies options.verbosity forest (asked texts)).1.reduceOption.foldl sink.store
            c.disk⟩) := by
  -- The console changes with each line, and the sink serves it throughout.
  induction texts generalizing forest c with
  | nil =>
    simp only [asked, List.takeWhile_nil, replies, prompted, List.map_nil, List.reduceOption_nil,
      String.join_nil, String.append_empty, String.empty_append, List.foldl_nil]
    rfl
  | cons text rest ih =>
    have hprint : print "> " c = (.ok (), { c with output := c.output ++ "> " }) := rfl
    rw [linesForest, bind_of_ok hprint]
    by_cases hexit : Text.trim text = "exit".toList
    · rw [bind_of_ok (line_of_exit hexit ..), asked_of_exit hexit]
      simp only [replies, prompted, List.map_nil, List.reduceOption_nil, String.join_nil,
        String.append_empty, String.empty_append, List.foldl_nil]
      rfl
    · rw [asked_of_ne hexit]
      by_cases hblank : Text.trim text = []
      · rw [bind_of_ok (line_of_blank hblank ..), replies_of_blank hblank]
        dsimp only
        rw [ih (c := { c with output := c.output ++ "> " }) h, List.reduceOption_cons_of_none]
        simp only [prompted, List.map_cons, String.join_cons, Option.elim_none,
          String.append_empty, String.append_assoc]
      · rw [bind_of_ok (line_apply (c := { c with output := c.output ++ "> " }) h hexit hblank
          forest), replies_of_ne hblank]
        dsimp only
        -- The loop goes on from the console after the turn, where reports can still be written.
        rw [ih (h.store _), List.reduceOption_cons_of_some]
        simp only [prompted, Console.after, List.map_cons, String.join_cons, Option.elim_some,
          String.append_assoc, List.foldl_cons]

/-! ## Lines among others -/

/-- A line that does not ask to stop, and is blank or no program. -/
def Ignored (text : List Char) : Prop :=
  Text.trim text ≠ "exit".toList ∧
    (Text.trim text = [] ∨ ∃ e, Program.parse (String.ofList text) = .error e)

/-- Lines that are ignored were put among others, anywhere. -/
inductive Inserted : List (List Char) → List (List Char) → Prop
  | nil : Inserted [] []
  | keep {texts texts' : List (List Char)} (text : List Char) :
      Inserted texts texts' → Inserted (text :: texts) (text :: texts')
  | insert {texts texts' : List (List Char)} {text : List Char} :
      Ignored text → Inserted texts texts' → Inserted texts (text :: texts')

/-- The turns of lines that are programs. -/
def evaluated (turns : List (Option Turn)) : List Turn :=
  turns.reduceOption.filter Turn.isEvaluated

/-- A line that is ignored leaves the scopes as they are. -/
theorem Ignored.replies {text : List Char} (h : Ignored text) (level : Int) (forest : Forest)
    (rest : List (List Char)) :
    evaluated (replies level forest (text :: rest)).1 =
        evaluated (replies level forest rest).1 ∧
      (Command.replies level forest (text :: rest)).2 =
        (Command.replies level forest rest).2 := by
  by_cases hblank : Text.trim text = []
  · rw [replies_of_blank hblank]
    exact ⟨rfl, rfl⟩
  · obtain ⟨e, hparse⟩ := h.2.resolve_left hblank
    have hrun : Program.run level 0 (String.ofList text) forest =
        (.error (.parse e), forest, []) := by
      rw [Program.run, hparse]
    rw [replies_of_ne hblank, Turn.ofSource_of_error hparse, hrun]
    exact ⟨rfl, rfl⟩

/-- Lines that are ignored change neither the turns of the programs among the other lines nor the
scopes at the end. -/
theorem Inserted.evaluated_replies {texts texts' : List (List Char)} (h : Inserted texts texts')
    (level : Int) (forest : Forest) :
    evaluated (replies level forest (asked texts')).1 =
        evaluated (replies level forest (asked texts)).1 ∧
      (replies level forest (asked texts')).2 = (replies level forest (asked texts)).2 := by
  induction h generalizing forest with
  | nil => exact ⟨rfl, rfl⟩
  | @keep texts texts' text h ih =>
    -- Both sides take the same step, or both stop here.
    by_cases hexit : Text.trim text = "exit".toList
    · rw [asked_of_exit hexit, asked_of_exit hexit]
      exact ⟨rfl, rfl⟩
    · rw [asked_of_ne hexit, asked_of_ne hexit]
      by_cases hblank : Text.trim text = []
      · rw [replies_of_blank hblank, replies_of_blank hblank]
        exact ih forest
      · rw [replies_of_ne hblank, replies_of_ne hblank]
        obtain ⟨hturns, hlast⟩ := ih (Program.run level 0 (String.ofList text) forest).2.1
        -- The line has the same turn on both sides, whether it is kept by the filter or not.
        refine ⟨?_, hlast⟩
        unfold evaluated at hturns ⊢
        rw [List.reduceOption_cons_of_some, List.reduceOption_cons_of_some, List.filter_cons,
          List.filter_cons, hturns]
  | @insert texts texts' text hignored h ih =>
    obtain ⟨hturns, hlast⟩ := hignored.replies level forest (asked texts')
    rw [asked_of_ne hignored.1, hturns, hlast]
    exact ih forest

/-! ## Whole calls -/

/-- The turns of the lines of standard input, and the scopes after the last one. -/
def conversation (input : String) : List (Option Turn) × Forest :=
  replies 0 .single (asked (inputLines input))

theorem trace_ofSource_zero (source : String) (forest : Forest) :
    (Turn.ofSource 0 source forest).trace = [] := by
  cases hparse : Program.parse source with
  | ok program =>
    rw [Turn.ofSource_of_parse hparse]
    exact Program.trace_evaluate_zero 0 program forest
  | error e => rw [Turn.ofSource_of_error hparse]

/-- At level 0 only mistakes are told of. -/
theorem map_told_replies (forest : Forest) (texts : List (List Char)) :
    (replies 0 forest texts).1.reduceOption.map Sink.errors.told =
      (replies 0 forest texts).1.reduceOption.map Turn.message := by
  refine List.map_congr_left fun t ht => ?_
  obtain ⟨source, forest, rfl⟩ := exists_of_mem_replies ht
  rw [Sink.told, Turn.debug_eq_empty_iff.2 (trace_ofSource_zero source forest),
    String.empty_append]

/-- With standard error for reports, the disk is not touched. -/
theorem foldl_store_errors (disk : Disk) (turns : List Turn) :
    turns.foldl Sink.errors.store disk = disk := by
  induction turns with
  | nil => rfl
  | cons turn rest ih => exact ih

/-- A call without arguments works on the lines of standard input and succeeds whatever they are. It
prints the values and tells of the mistakes of its lines, each of which is run in scope 0 as the
lines before it left it, whether they failed or not. Lines that are blank or no programs, and do not
ask to stop, can be put anywhere: the values and faults of the other lines stay the same, and so do
the scopes at the end. -/
theorem lines_isolate_failures :
    (∀ (disk : Disk) (input : String), ∃ console : Console,
      linesForest {} .single (inputLines input) ⟨"", "", disk⟩ =
          (.ok (conversation input).2, console) ∧
        run [] disk input = (.exit 0, console) ∧
        console = ⟨prompted (conversation input).1,
          String.join ((conversation input).1.reduceOption.map Turn.message), disk⟩) ∧
    (∀ (input : String) (before : List (List Char)) (text : List Char) (after : List (List Char)),
      asked (inputLines input) = before ++ text :: after → Text.trim text ≠ [] →
        ∃ result forest trace,
          Program.run 0 0 (String.ofList text) (replies 0 .single before).2 =
              (result, forest, trace) ∧
            (conversation input).1[before.length]? = some (some ⟨result, trace⟩) ∧
            (replies 0 .single (before ++ [text])).2 = forest) ∧
    ∀ input input' : String, Inserted (inputLines input) (inputLines input') →
      evaluated (conversation input').1 = evaluated (conversation input).1 ∧
        (conversation input').2 = (conversation input).2 := by
  refine ⟨fun disk input => ?_, fun input before text after hasked hblank => ?_,
    fun input input' h => h.evaluated_replies 0 .single⟩
  · have hserves : Sink.errors.Serves {} (Console.mk "" "" disk).disk := .errors nofun
    have hforest := linesForest_apply hserves .single (inputLines input)
    refine ⟨_, hforest, ?_, ?_⟩
    · have hcall : call [] input = lines {} .single (inputLines input) := by
        rw [call, Options.read_nil]
        rfl
      rw [run, hcall, lines_eq, bind_of_ok hforest]
      rfl
    · change Console.mk ("" ++ prompted (conversation input).1) _ _ = _
      rw [String.empty_append, String.empty_append, foldl_store_errors]
      exact congrArg (fun told => Console.mk _ (String.join told) disk) (map_told_replies ..)
  · refine ⟨_, _, _, rfl, ?_, ?_⟩
    · -- The turns of the lines before it come first, one for each.
      rw [conversation, hasked, replies_append, replies_of_ne hblank, List.getElem?_append_right
        (length_replies ..).le, length_replies, Nat.sub_self]
      rfl
    · rw [replies_append, replies_of_ne hblank]
      rfl

theorem ignored_of_isOk_eq_false {text : List Char} (hexit : Text.trim text ≠ "exit".toList)
    (h : (Program.parse (String.ofList text)).isOk = false) : Ignored text := by
  refine ⟨hexit, .inr ?_⟩
  cases hparse : Program.parse (String.ofList text) with
  | ok program =>
    rw [hparse] at h
    cases h
  | error e => exact ⟨e, rfl⟩

/-- The first line fails after it declared a name, which the second line finds. Lines that are blank
or no programs are put before, between and after them. -/
theorem lines_isolate_failures_session :
    Inserted (inputLines "let a = 1; b = 2\na\n exit \na + 1")
        (inputLines "\t\n(\nlet a = 1; b = 2\n1 +\na\n exit \n)\na + 1") ∧
      evaluated (conversation "\t\n(\nlet a = 1; b = 2\n1 +\na\n exit \n)\na + 1").1 =
        evaluated (conversation "let a = 1; b = 2\na\n exit \na + 1").1 ∧
      (conversation "\t\n(\nlet a = 1; b = 2\n1 +\na\n exit \n)\na + 1").2 =
        (conversation "let a = 1; b = 2\na\n exit \na + 1").2 ∧
      (∃ console, run [] (singleFile "p" "") "let a = 1; b = 2\na\n exit \na + 1" =
          (.exit 0, console) ∧ console.output = "> > 1\n> " ∧
        console.errors = "Runtime error: cannot assign to undefined variable b\n") ∧
      ∃ result forest trace,
        Program.run 0 0 "a" (replies 0 .single ["let a = 1; b = 2".toList]).2 =
            (result, forest, trace) ∧
          (conversation "let a = 1; b = 2\na\n exit \na + 1").1[1]? =
            some (some ⟨result, trace⟩) ∧
          (replies 0 .single ["let a = 1; b = 2".toList, "a".toList]).2 = forest := by
  obtain ⟨hcall, hline, hinserted⟩ := lines_isolate_failures
  have hlines : inputLines "let a = 1; b = 2\na\n exit \na + 1" =
      ["let a = 1; b = 2".toList, "a".toList, " exit ".toList, "a + 1".toList] := by
    decide +kernel
  have hlines' : inputLines "\t\n(\nlet a = 1; b = 2\n1 +\na\n exit \n)\na + 1" =
      ["\t".toList, "(".toList, "let a = 1; b = 2".toList, "1 +".toList, "a".toList,
        " exit ".toList, ")".toList, "a + 1".toList] := by
    decide +kernel
  have h : Inserted (inputLines "let a = 1; b = 2\na\n exit \na + 1")
      (inputLines "\t\n(\nlet a = 1; b = 2\n1 +\na\n exit \n)\na + 1") := by
    rw [hlines, hlines']
    apply Inserted.insert ⟨by decide, .inl (by decide)⟩
    apply Inserted.insert (ignored_of_isOk_eq_false (by decide) (by decide +kernel))
    apply Inserted.keep
    apply Inserted.insert (ignored_of_isOk_eq_false (by decide) (by decide +kernel))
    apply Inserted.keep
    apply Inserted.keep
    apply Inserted.insert (ignored_of_isOk_eq_false (by decide) (by decide +kernel))
    exact .keep _ .nil
  obtain ⟨hturns, hlast⟩ := hinserted _ _ h
  obtain ⟨console, -, hrun, -⟩ := hcall (singleFile "p" "") "let a = 1; b = 2\na\n exit \na + 1"
  have hshown : shown (run [] (singleFile "p" "") "let a = 1; b = 2\na\n exit \na + 1") =
      (some 0, "> > 1\n> ", "Runtime error: cannot assign to undefined variable b\n") := by
    decide +kernel
  rw [hrun] at hshown
  have houtputs := (Prod.mk.inj hshown).2
  refine ⟨h, hturns, hlast, ⟨console, hrun, (Prod.mk.inj houtputs).1, (Prod.mk.inj houtputs).2⟩, ?_⟩
  exact hline _ ["let a = 1; b = 2".toList] "a".toList [] (by decide +kernel) (by decide)

end LetCalc.CommandLine.Command
