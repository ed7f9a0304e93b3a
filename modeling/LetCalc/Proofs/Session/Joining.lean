import LetCalc.Proofs.Evaluation.Effect
import LetCalc.Proofs.Grammar.Extension
import LetCalc.Proofs.Parser.Correctness
import LetCalc.Session

/-!
# Running texts in turn

Source texts that are programs can be run one after the other, or joined with blanks between them
and run at once. Both come to the same:

* `Program.parse_joined`: the joined text is a program with the statements of all texts.
* `Program.evalFrom_flatten`: running these statements at once has the effect of running the texts
  in turn.
* `run_joined`: both together, for `Program.run`.
-/

namespace LetCalc

open Grammar

/-- Source texts in order, joined with blanks between any two of them. -/
inductive Joined : List String → String → Prop
  | nil : Joined [] ""
  | single (source : String) : Joined [source] source
  | cons {source blank next joined : String} {rest : List String} :
      blank ≠ "" → (∀ c ∈ blank.toList, c ∈ Lexer.blanks) → Joined (next :: rest) joined →
        Joined (source :: next :: rest) (source ++ blank ++ joined)

namespace Program

/-! ## The statements of joined texts -/

/-- The words of a text are those of a program. -/
def Writes (cs : List Char) (program : Program) : Prop :=
  ∃ ts : List Token, Lexer.Spells cs (ts.map Token.word) ∧ Statements ts program

theorem writes_of_parse {source : String} {program : Program}
    (h : Program.parse source = .ok program) : Writes source.toList program := by
  obtain ⟨ts, hts, hstatements⟩ := exists_statements_of_parse h
  exact ⟨ts, Lexer.spells_of_tokens (Lexer.tokenize_eq_ok_iff.1 hts), hstatements⟩

theorem parse_of_writes {source : String} {program : Program}
    (h : Writes source.toList program) : Program.parse source = .ok program := by
  obtain ⟨us, hus, hprogram⟩ := h
  obtain ⟨ts, hts, hwords⟩ := Lexer.exists_tokens_of_spells hus .origin
  have htokenize : Lexer.tokenize source = .ok ts := Lexer.tokenize_eq_ok_iff.2 hts
  have hstatements : Statements ts program := hprogram.derives ts hwords
  -- The text is not refused, and the grammar derives one program only.
  cases h : Program.parse source with
  | error e => exact absurd h (parse_ne_error htokenize ⟨program, hstatements⟩)
  | ok found =>
    obtain ⟨ts', hts', hfound⟩ := exists_statements_of_parse h
    obtain rfl : ts = ts' := by simpa [htokenize] using hts'
    rw [hfound.unique hstatements]

/-- A blank between two programs makes one program of them. -/
theorem Writes.append {cs ds blank : List Char} {p q : Program} (hp : Writes cs p)
    (hq : Writes ds q) (hne : blank ≠ []) (hblank : ∀ c ∈ blank, c ∈ Lexer.blanks) :
    Writes (cs ++ blank ++ ds) (p ++ q) := by
  obtain ⟨ts, hts, hp⟩ := hp
  obtain ⟨us, hus, hq⟩ := hq
  refine ⟨ts ++ us, ?_, hp.append hq.derives (ts ++ us) List.map_append⟩
  rw [List.map_append]
  exact hts.append hus hne fun c hc => Lexer.isSkipped_of_mem_blanks (hblank c hc)

theorem parse_joined {sources : List String} {programs : List Program} {joined : String}
    (hparse : List.Forall₂ (fun source program => parse source = .ok program) sources programs)
    (hjoined : Joined sources joined) : parse joined = .ok programs.flatten := by
  refine parse_of_writes ?_
  induction hjoined generalizing programs with
  | nil =>
    cases hparse
    exact ⟨[], .nil rfl, .nil⟩
  | single source =>
    cases hparse with
    | cons hsource hnil =>
      cases hnil
      rw [List.flatten_singleton]
      exact writes_of_parse hsource
  | cons hne hblank _ ih =>
    cases hparse with
    | cons hsource hrest =>
      rw [String.toList_append, String.toList_append, List.flatten_cons]
      refine (writes_of_parse hsource).append (ih hrest) ?_ hblank
      exact fun h => hne (String.toList_injective h)

/-! ## The effect of joined texts -/

/-- Runs source texts one after the other, up to the first that fails. -/
def runInTurn (level : Int) (scope : Nat) :
    List String → Forest → Except Failure (List Value) × Forest
  | [], forest => (.ok [], forest)
  | source :: rest, forest =>
    match run level scope source forest with
    | (.error e, forest, _) => (.error e, forest)
    | (.ok value, forest, _) =>
      let (values, forest) := runInTurn level scope rest forest
      (values.map (value :: ·), forest)

/-- The value of the last of some programs that has statements; `last` if none has. -/
def lastValue (last : Value) (programs : List Program) (values : List Value) : Value :=
  (((programs.zip values).filter fun r => r.1 ≠ []).getLast?.map (·.2)).getD last

@[simp]
theorem lastValue_nil (last : Value) (values : List Value) : lastValue last [] values = last := rfl

theorem lastValue_cons (last value : Value) (program : Program) (programs : List Program)
    (values : List Value) :
    lastValue last (program :: programs) (value :: values) =
      lastValue (if program = [] then last else value) programs values := by
  by_cases h : program = []
  · simp only [lastValue, h, List.zip_cons_cons, ne_eq, not_true_eq_false, decide_false,
      Bool.false_eq_true, not_false_eq_true, List.filter_cons_of_neg, if_true]
  · simp only [lastValue, List.zip_cons_cons, ne_eq, h, not_false_eq_true, decide_true,
      List.filter_cons_of_pos, List.getLast?_cons, if_false]
    cases ((programs.zip values).filter fun r => decide (¬ r.1 = [])).getLast? <;> rfl

theorem run_of_parse {source : String} {program : Program} (h : parse source = .ok program)
    (level : Int) (scope : Nat) (forest : Forest) :
    run level scope source forest =
      ((program.evaluate level scope forest).result.mapError .fault,
        (program.evaluate level scope forest).forest,
        (program.evaluate level scope forest).trace) := by
  rw [run, h]

/-- Running the statements of all programs at once has the effect of running the texts in turn. -/
theorem evalFrom_flatten {sources : List String} {programs : List Program}
    (hparse : List.Forall₂ (fun source program => parse source = .ok program) sources programs)
    (level : Int) (scope index : Nat) (last : Value) (m : Machine) :
    (evalFrom level scope index last programs.flatten m).1.mapError Failure.fault =
        (runInTurn level scope sources m.forest).1.map (lastValue last programs) ∧
      (evalFrom level scope index last programs.flatten m).2.forest =
        (runInTurn level scope sources m.forest).2 := by
  induction hparse generalizing index last m with
  | nil => exact ⟨rfl, rfl⟩
  | @cons source program sources programs hsource _ ih =>
    obtain ⟨hresult, hforest⟩ := evalFrom_effect level scope index last program m
    rw [List.flatten_cons, evalFrom_append, runInTurn, run_of_parse hsource, Run.bind_apply,
      hresult]
    -- The first program fails, or the others are run in the scopes that it leaves.
    cases (program.evaluate level scope m.forest).result with
    | error fault => exact ⟨rfl, hforest⟩
    | ok value =>
      have hrest := ih (index + program.length) (if program = [] then last else value)
        (program.evalFrom level scope index last m).2
      rw [hforest] at hrest
      refine ⟨hrest.1.trans ?_, hrest.2⟩
      show Except.map _ (runInTurn level scope sources _).1 =
        Except.map _ (Except.map _ (runInTurn level scope sources _).1)
      cases (runInTurn level scope sources (program.evaluate level scope m.forest).forest).1 with
      | error e => rfl
      | ok values => exact congrArg Except.ok (lastValue_cons ..).symm

end Program

/-- Texts that are programs can be joined with blanks between them. The joined text is the program
with the statements of all of them, and running it leaves the scopes as running the texts in turn
does. It fails as the first text that does, and else its value is that of the last text with a
statement. -/
theorem run_joined {sources : List String} {programs : List Program} {joined : String}
    (hparse : List.Forall₂ (fun source program => Program.parse source = .ok program)
      sources programs) (hjoined : Joined sources joined) :
    Program.parse joined = .ok programs.flatten ∧
      ∀ (level : Int) (scope : Nat) (forest : Forest),
        (Program.run level scope joined forest).1 =
            (Program.runInTurn level scope sources forest).1.map
              (Program.lastValue .null programs) ∧
          (Program.run level scope joined forest).2.1 =
            (Program.runInTurn level scope sources forest).2 := by
  have hprogram := Program.parse_joined hparse hjoined
  refine ⟨hprogram, fun level scope forest => ?_⟩
  rw [Program.run_of_parse hprogram]
  exact Program.evalFrom_flatten hparse level scope 0 .null ⟨forest, #[]⟩

/-- The third text gives `n` a new value and then fails, so that the fourth is not run. -/
theorem run_joined_fails :
    ∃ programs, List.Forall₂ (fun source program => Program.parse source = .ok program)
        ["let n = 2;", "\t", "n = n * 3 true = n", "n = 5"] programs ∧
      Program.parse "let n = 2;\n\t\x0c n = n * 3 true = n n = 5" = .ok programs.flatten ∧
      (Program.run 0 0 "let n = 2;\n\t\x0c n = n * 3 true = n n = 5" .single).1 =
        .error (.fault (.error (.constantAssigned (.text "true")))) ∧
      (Program.run 0 0 "let n = 2;\n\t\x0c n = n * 3 true = n n = 5" .single).2.1 =
        (Program.runInTurn 0 0 ["let n = 2;", "\t", "n = n * 3 true = n", "n = 5"] .single).2 := by
  obtain ⟨p, hp⟩ : ∃ p, Program.parse "let n = 2;" = .ok p :=
    exists_of_isOk_parse (by decide +kernel)
  obtain ⟨q, hq⟩ : ∃ q, Program.parse "\t" = .ok q := exists_of_isOk_parse (by decide +kernel)
  obtain ⟨r, hr⟩ : ∃ r, Program.parse "n = n * 3 true = n" = .ok r :=
    exists_of_isOk_parse (by decide +kernel)
  obtain ⟨s, hs⟩ : ∃ s, Program.parse "n = 5" = .ok s := exists_of_isOk_parse (by decide +kernel)
  have hprograms : List.Forall₂ (fun source program => Program.parse source = .ok program)
      ["let n = 2;", "\t", "n = n * 3 true = n", "n = 5"] [p, q, r, s] :=
    .cons hp (.cons hq (.cons hr (.cons hs .nil)))
  have hjoined : Joined ["let n = 2;", "\t", "n = n * 3 true = n", "n = 5"]
      ("let n = 2;" ++ "\n" ++ ("\t" ++ "\x0c " ++ ("n = n * 3 true = n" ++ " " ++ "n = 5"))) :=
    .cons (by decide) (by simp [Lexer.blanks]) (.cons (by decide) (by simp [Lexer.blanks])
      (.cons (by decide) (by simp [Lexer.blanks]) (.single _)))
  obtain ⟨hwhole, heffect⟩ := run_joined hprograms hjoined
  exact ⟨[p, q, r, s], hprograms, hwhole, by decide +kernel, (heffect 0 0 .single).2⟩

end LetCalc
