import LetCalc.CommandLine.Options
import Mathlib

/-!
# Reading options

What the arguments of some kinds of calls are read as: an option with its value
(`Options.read_value`), and a document, a source text or a program file to evaluate after any number
of flags that raise the verbosity (`Options.read_document`, `Options.read_source`,
`Options.read_program`). A debug file can be added in front of any arguments that have none
(`Options.read_debugFile`). An argument that starts with a hyphen is taken for a file name only in
rare cases, and not always stays one when an ending is added (`Role.classify_append`).
-/

namespace LetCalc.CommandLine

namespace Role

/-! ## Plain arguments -/

theorem space_not_mem_spelling : ∀ s ∈ Flag.spellings, ' ' ∉ s.1.toList := by decide

theorem ofSpelling?_eq_none {cs : List Char} (h : ' ' ∈ cs) : Flag.ofSpelling? cs = none := by
  rw [Flag.ofSpelling?, Option.map_eq_none_iff, List.find?_eq_none]
  intro s hs heq
  exact space_not_mem_spelling s hs (of_decide_eq_true heq ▸ h)

theorem candidates_eq_nil_iff {cs : List Char} :
    candidates cs = [] ↔ ∀ s ∈ Flag.spellings,
      ¬ if "--".toList.isPrefixOf cs then (cs.takeWhile (· ≠ '=')).isPrefixOf s.1.toList
        else s.1.toList = cs.take 2 := by
  rw [candidates, List.map_eq_nil_iff, List.filter_eq_nil_iff]
  refine forall₂_congr fun s _ => not_congr ?_
  by_cases hlong : "--".toList.isPrefixOf cs
  · simp only [hlong, if_true]
  · simp only [if_neg hlong, decide_eq_true_eq]

/-- Candidates are options. -/
theorem ne_plain_of_mem_candidates {cs : List Char} {c : String × Role} (h : c ∈ candidates cs) :
    c.2 ≠ .plain := by
  obtain ⟨s, -, rfl⟩ := List.mem_map.1 h
  exact nofun

/-- The arguments that are files or values. -/
theorem classify_eq_plain_iff {argument : String} :
    classify argument = .ok .plain ↔ argument.toList.head? ≠ some '-' ∨
      Flag.ofSpelling? argument.toList = none ∧
        Flag.ofSpelling? (argument.toList.takeWhile (· ≠ '=')) = none ∧
        (argument.toList.length = 1 ∨ candidates argument.toList = [] ∧
          (isNegativeNumber argument.toList || argument.toList.contains ' ')) := by
  unfold classify
  dsimp only
  by_cases hhead : argument.toList.head? = some '-'
  · rw [if_neg (Decidable.not_not.2 hhead), or_iff_right (Decidable.not_not.2 hhead)]
    -- The cases are in the order in which an argument with a hyphen is tried: as a spelling, as one
    -- with a value after an equality sign, as a hyphen alone, as an abbreviation.
    cases Flag.ofSpelling? argument.toList with
    | some flag => simp
    | none =>
      cases Flag.ofSpelling? (argument.toList.takeWhile (· ≠ '=')) with
      | some flag => simp
      | none =>
        dsimp only
        by_cases hone : argument.toList.length = 1
        · rw [if_pos hone]
          simp [hone]
        · rw [if_neg hone]
          cases hcandidates : candidates argument.toList with
          | nil =>
            dsimp only
            by_cases hplain : isNegativeNumber argument.toList || argument.toList.contains ' '
            · rw [if_pos hplain]
              exact iff_of_true rfl ⟨rfl, rfl, .inr ⟨rfl, hplain⟩⟩
            · rw [if_neg hplain]
              exact iff_of_false nofun fun h => h.2.2.elim hone fun h => hplain h.2
          | cons first more =>
            obtain ⟨spelling, role⟩ := first
            have hrole : role ≠ .plain :=
              ne_plain_of_mem_candidates (hcandidates ▸ List.mem_cons_self)
            cases more with
            | nil => simp [hone, hrole]
            | cons second more => simp [hone]
  · rw [if_pos hhead]
    simp [hhead]

/-- What comes before an equality sign stays the same with an ending, or holds all of the text. -/
theorem takeWhile_append_cases (cs ending : List Char) :
    (cs ++ ending).takeWhile (· ≠ '=') = cs.takeWhile (· ≠ '=') ∨
      cs ⊆ (cs ++ ending).takeWhile (· ≠ '=') := by
  rw [List.takeWhile_append]
  split
  · exact .inr (List.subset_append_left _ _)
  · exact .inl rfl

/-- A plain argument with an ending is plain if a space keeps it from being an option, or if it does
not start like one. -/
theorem classify_append {argument ending : String} (h : classify argument = .ok .plain)
    (hname : argument ≠ "" ∧ argument.toList.head? ≠ some '-' ∨ ' ' ∈ argument.toList) :
    classify (argument ++ ending) = .ok .plain := by
  rw [classify_eq_plain_iff, String.toList_append]
  generalize ending.toList = ending
  have hempty : argument.toList ≠ [] := by
    rcases hname with ⟨hempty, -⟩ | hspace
    · exact mt String.toList_eq_nil_iff.1 hempty
    · exact List.ne_nil_of_mem hspace
  by_cases hhead : argument.toList.head? = some '-'
  · -- Only a space makes such an argument plain.
    have hspace : ' ' ∈ argument.toList := hname.resolve_left fun h => h.2 hhead
    obtain ⟨-, hnone, hrest⟩ := (classify_eq_plain_iff.1 h).resolve_left (Decidable.not_not.2 hhead)
    obtain ⟨c, cs, hcs⟩ : ∃ c cs, argument.toList = '-' :: c :: cs := by
      obtain ⟨tail, htail⟩ := List.head?_eq_some_iff.1 hhead
      cases tail with
      | nil => simp [htail] at hspace
      | cons c cs => exact ⟨c, cs, htail⟩
    refine .inr ⟨ofSpelling?_eq_none (List.mem_append_left _ hspace), ?_,
      .inr ⟨?_, by simp [hspace]⟩⟩
    · rcases takeWhile_append_cases argument.toList ending with heq | hsubset
      · rw [heq, hnone]
      · exact ofSpelling?_eq_none (hsubset hspace)
    · have hnil := (hrest.resolve_left (by simp [hcs])).1
      -- The abbreviations of an argument are found by its first two characters, or by what comes
      -- before an equality sign.
      have hlong : "--".toList.isPrefixOf (argument.toList ++ ending) =
          "--".toList.isPrefixOf argument.toList := by
        rw [hcs]
        rfl
      have htake : (argument.toList ++ ending).take 2 = argument.toList.take 2 := by
        rw [hcs]
        rfl
      rw [candidates_eq_nil_iff] at hnil ⊢
      intro s hs
      have hs' := hnil s hs
      rw [hlong, htake]
      by_cases h : "--".toList.isPrefixOf argument.toList
      · rw [if_pos h] at hs' ⊢
        rcases takeWhile_append_cases argument.toList ending with heq | hsubset
        · rwa [heq]
        · intro hpre
          exact space_not_mem_spelling s hs ((List.isPrefixOf_iff_prefix.1 hpre).subset
            (hsubset hspace))
      · rwa [if_neg h] at hs' ⊢
  · refine .inl ?_
    rwa [List.head?_append_of_ne_nil _ hempty]

/-- An argument that is a file or a value. -/
def IsPlain (argument : String) : Prop := argument ≠ "--" ∧ classify argument = .ok .plain

theorem classifyAll_cons {argument : String} {role : Role} (hne : argument ≠ "--")
    (h : classify argument = .ok role) (rest : List String) :
    classifyAll (argument :: rest) = (classifyAll rest).map ((argument, role) :: ·) := by
  rw [classifyAll, if_neg hne, h]
  cases classifyAll rest <;> rfl

end Role

namespace Options

open Role

/-! ## Flags that raise the verbosity -/

/-- A flag that raises the verbosity by `n + 1`. -/
def verboseFlag (n : Nat) : String := String.ofList ('-' :: List.replicate (n + 1) 'v')

/-- The part of such a flag: after the first letter, the others are attached. -/
def verboseRole (n : Nat) : Role :=
  .option .verbose true (if n = 0 then none else some (List.replicate n 'v'))

theorem toList_verboseFlag (n : Nat) :
    (verboseFlag n).toList = '-' :: 'v' :: List.replicate n 'v' := by
  rw [verboseFlag, String.toList_ofList, List.replicate_succ]

theorem verboseFlag_ne (n : Nat) : verboseFlag n ≠ "--" := by
  intro h
  have := congrArg String.toList h
  rw [toList_verboseFlag] at this
  simp at this

theorem classify_verboseFlag (n : Nat) : classify (verboseFlag n) = .ok (verboseRole n) := by
  cases n with
  | zero => rfl
  | succ n =>
    have hname : ('-' :: 'v' :: List.replicate (n + 1) 'v').takeWhile (· ≠ '=') =
        '-' :: 'v' :: List.replicate (n + 1) 'v' := by
      simp
    have hnone : Flag.ofSpelling? ('-' :: 'v' :: List.replicate (n + 1) 'v') = none := by
      simp [Flag.ofSpelling?, Flag.spellings, List.replicate_succ]
    have hcandidates : candidates ('-' :: 'v' :: List.replicate (n + 1) 'v') =
        [("-v", verboseRole (n + 1))] := by
      have hlong : "--".toList.isPrefixOf ('-' :: 'v' :: List.replicate (n + 1) 'v') = false := rfl
      simp only [candidates, hlong]
      simp [Flag.spellings, verboseRole]
    rw [classify, toList_verboseFlag, hname, hnone]
    simp [hcandidates]

theorem classifyAll_verboseFlags (counts : List Nat) (rest : List String) :
    classifyAll (counts.map verboseFlag ++ rest) =
      (classifyAll rest).map (counts.map (fun n => (verboseFlag n, verboseRole n)) ++ ·) := by
  induction counts with
  | nil => cases h : classifyAll rest <;> simp [h, Except.map]
  | cons n counts ih =>
    rw [List.map_cons, List.cons_append,
      classifyAll_cons (verboseFlag_ne n) (classify_verboseFlag n), ih]
    cases classifyAll rest <;> rfl

/-- The verbosity raised. -/
def Progress.raise (p : Progress) (n : Nat) : Progress :=
  { p with options := { p.options with verbosity := p.options.verbosity + n } }

/-- Flags in one argument: all but the last come before it. -/
theorem cluster_verbose (n : Nat) :
    cluster .verbose true (List.replicate (n + 1) 'v') =
      .ok (List.replicate (n + 1) .verbose, .verbose, .absent) := by
  induction n with
  | zero => rfl
  | succ n ih =>
    -- The first of the letters is looked up by itself, the others are attached to it in turn.
    have hletter : Flag.ofSpelling? ['-', 'v'] = some .verbose := rfl
    rw [List.replicate_succ, cluster]
    simp only [Flag.takesValue, Bool.false_eq_true, if_false, if_true, hletter, ih]
    rfl

theorem foldlM_switch (n : Nat) (p : Progress) :
    (List.replicate n Flag.verbose).foldlM Progress.switch p = .ok (p.raise n) := by
  induction n generalizing p with
  | zero => rfl
  | succ n ih =>
    have hraise : (p.raise 1).raise n = p.raise (n + 1) := by
      simp only [Progress.raise, Nat.add_assoc, Nat.add_comm 1 n]
    rw [List.replicate_succ, List.foldlM_cons, ← hraise, ← ih]
    rfl

/-- A flag raises the verbosity by the number of its letters. -/
theorem scan_verbose (n : Nat) (argument : String) (rest : List (String × Role)) (p : Progress) :
    scan ((argument, verboseRole n) :: rest) p = scan rest (p.raise (n + 1)) := by
  cases n with
  | zero =>
    rw [verboseRole, scan]
    rfl
  | succ n =>
    rw [verboseRole, scan, if_neg (Nat.succ_ne_zero n), Option.elim_some, cluster_verbose]
    change (do
      let p ← (List.replicate (n + 1) Flag.verbose).foldlM Progress.switch p
      scan rest (← p.switch .verbose)) = _
    rw [foldlM_switch]
    rfl

theorem scan_verboseFlags (counts : List Nat) (rest : List (String × Role)) (p : Progress) :
    scan (counts.map (fun n => (verboseFlag n, verboseRole n)) ++ rest) p =
      scan rest (p.raise (counts.map (· + 1)).sum) := by
  induction counts generalizing p with
  | nil => rfl
  | cons n counts ih =>
    rw [List.map_cons, List.cons_append, scan_verbose, ih]
    simp only [Progress.raise, List.map_cons, List.sum_cons, Nat.add_assoc]

/-- The options that are read if no argument is left aside. -/
theorem read_eq_ok {arguments : List String} {roles : List (String × Role)} {p : Progress}
    (hroles : classifyAll arguments = .ok roles) (hscan : scan roles {} = .ok p)
    (hextras : p.extras = []) : read arguments = .ok p.options := by
  rw [read, hroles]
  change (scan roles {}).bind _ = _
  rw [hscan]
  change (if p.extras.isEmpty then _ else _) = _
  rw [hextras]
  rfl

theorem exists_of_read {arguments : List String} {options : Options}
    (h : read arguments = .ok options) :
    ∃ roles p, classifyAll arguments = .ok roles ∧ scan roles {} = .ok p ∧ p.extras = [] ∧
      p.options = options := by
  rw [read] at h
  cases hroles : classifyAll arguments with
  | error e =>
    rw [hroles] at h
    cases h
  | ok roles =>
    rw [hroles] at h
    change (scan roles {}).bind _ = _ at h
    cases hscan : scan roles {} with
    | error e =>
      rw [hscan] at h
      cases h
    | ok p =>
      rw [hscan] at h
      change (if p.extras.isEmpty then _ else _) = _ at h
      by_cases hextras : p.extras.isEmpty
      · rw [if_pos hextras] at h
        exact ⟨roles, p, rfl, hscan, List.isEmpty_iff.1 hextras, Except.ok.inj h⟩
      · rw [if_neg hextras] at h
        cases h

/-- Flags before other arguments only raise the verbosity. -/
theorem read_verboseFlags {counts : List Nat} {arguments : List String}
    {roles : List (String × Role)} {p : Progress} (hroles : classifyAll arguments = .ok roles)
    (hscan : scan roles { options := { verbosity := (counts.map (· + 1)).sum } } = .ok p)
    (hextras : p.extras = []) : read (counts.map verboseFlag ++ arguments) = .ok p.options := by
  have hall := classifyAll_verboseFlags counts arguments
  have hraise : Progress.raise {} (counts.map (· + 1)).sum =
      { options := { verbosity := (counts.map (· + 1)).sum } } := by
    simp only [Progress.raise, Nat.zero_add]
  rw [hroles] at hall
  refine read_eq_ok hall ?_ hextras
  rw [scan_verboseFlags, hraise, hscan]

/-! ## Calls -/

theorem read_nil : read [] = .ok {} := read_eq_ok rfl (by rw [scan]) rfl

/-- An option that takes a value, with that value. -/
theorem scan_value_cons {flag : Flag} (hflag : flag.takesValue) {short : Bool}
    (argument value : String) (rest : List (String × Role)) (p : Progress) :
    scan ((argument, .option flag short none) :: (value, .plain) :: rest) p =
      (p.give flag (.text value) >>= scan rest) := by
  rw [scan]
  change (if flag.takesValue then _ else _) = _
  rw [if_pos hflag]
  rfl

/-- The same at the end of the arguments. -/
theorem scan_value {flag : Flag} (hflag : flag.takesValue) {short : Bool}
    (argument value : String) (p : Progress) :
    scan [(argument, .option flag short none), (value, .plain)] p = p.give flag (.text value) := by
  rw [scan_value_cons hflag]
  cases p.give flag (.text value) with
  | error e => rfl
  | ok p => exact scan.eq_1 p

theorem scan_valueMissing {flag : Flag} (hflag : flag.takesValue) {role : Role}
    (hrole : role ≠ .plain) (argument other : String) (p : Progress) :
    scan [(argument, .option flag false none), (other, role)] p =
      .error (.usage (.valueMissing flag)) := by
  rw [scan]
  change (if flag.takesValue then _ else _) = _
  rw [if_pos hflag]
  cases role with
  | plain => exact absurd rfl hrole
  | _ => rfl

/-- A document to evaluate. -/
theorem read_document (counts : List Nat) {name : String} (h : IsPlain name) :
    read (counts.map verboseFlag ++ ["--ast", name]) =
      .ok { verbosity := (counts.map (· + 1)).sum, documentFile := .text name } := by
  have hroles : classifyAll ["--ast", name] =
      .ok [("--ast", .option .document false none), (name, .plain)] := by
    rw [classifyAll_cons (by decide) rfl, classifyAll_cons h.1 h.2]
    rfl
  exact read_verboseFlags hroles (scan_value rfl "--ast" name _) rfl

/-- A source text to evaluate. -/
theorem read_source (counts : List Nat) {source : String} (h : IsPlain source) :
    read (counts.map verboseFlag ++ ["-e", source]) =
      .ok { verbosity := (counts.map (· + 1)).sum, source := .text source } := by
  have hroles : classifyAll ["-e", source] =
      .ok [("-e", .option .source true none), (source, .plain)] := by
    rw [classifyAll_cons (by decide) rfl, classifyAll_cons h.1 h.2]
    rfl
  exact read_verboseFlags hroles (scan_value rfl "-e" source _) rfl

/-- A program file to evaluate. -/
theorem read_program (counts : List Nat) {name : String} (h : IsPlain name) :
    read (counts.map verboseFlag ++ [name]) =
      .ok { verbosity := (counts.map (· + 1)).sum, programFile := some name } := by
  have hroles : classifyAll [name] = .ok [(name, .plain)] := by
    rw [classifyAll_cons h.1 h.2]
    rfl
  have hscan : ∀ options : Options, scan [(name, .plain)] { options := options } =
      .ok (Progress.takeProgram { options := options } (some name)) := by
    intro options
    rw [scan, if_neg (by simp)]
    · rw [scan]
    · simp
  exact read_verboseFlags hroles (hscan _) rfl

/-- An option with a value as the only arguments: the value is read as such, or the arguments are
wrong. -/
theorem read_value (spelling : String) {flag : Flag} (hspelling : spelling ≠ "--")
    (hoption : classify spelling = .ok (.option flag false none)) (hflag : flag.takesValue)
    (name : String) {p : Progress} (hgive : Progress.give {} flag (.text name) = .ok p)
    (hextras : p.extras = []) :
    IsPlain name ∧ read [spelling, name] = .ok p.options ∨
      ∃ e, read [spelling, name] = .error (.usage e) := by
  -- Anything that is not plain is left for the next option, and the value is missing.
  have hmissing : ∀ role, role ≠ Role.plain → classifyAll [name] = .ok [(name, role)] →
      read [spelling, name] = .error (.usage (.valueMissing flag)) := by
    intro role hrole hname
    rw [read, classifyAll_cons hspelling hoption, hname]
    change (scan [(spelling, .option flag false none), (name, role)] {}).bind _ = _
    rw [scan_valueMissing hflag hrole]
    rfl
  by_cases hseparator : name = "--"
  · subst hseparator
    exact .inr ⟨_, hmissing .separator nofun rfl⟩
  · cases hrole : classify name with
    | error e =>
      refine .inr ⟨e, ?_⟩
      rw [read, classifyAll_cons hspelling hoption, classifyAll, if_neg hseparator, hrole]
      rfl
    | ok role =>
      by_cases hplain : role = .plain
      · subst hplain
        have hroles : classifyAll [spelling, name] =
            .ok [(spelling, .option flag false none), (name, .plain)] := by
          rw [classifyAll_cons hspelling hoption, classifyAll_cons hseparator hrole]
          rfl
        exact .inl ⟨⟨hseparator, hrole⟩,
          read_eq_ok hroles ((scan_value hflag spelling name {}).trans hgive) hextras⟩
      · refine .inr ⟨_, hmissing role hplain ?_⟩
        rw [classifyAll_cons hseparator hrole]
        rfl

/-- A program file to write as a document. -/
theorem read_emit (name : String) :
    IsPlain name ∧ read ["--emit-ast", name] = .ok { emitFile := .text name } ∨
      ∃ e, read ["--emit-ast", name] = .error (.usage e) :=
  read_value "--emit-ast" (by decide) rfl rfl name rfl rfl

/-! ## A debug file -/

/-- Options with a debug file in case they have none. -/
def lend (file : Setting) (options : Options) : Options :=
  { options with
    debugFile := match options.debugFile with
      | .absent => file
      | setting => setting }

/-- The same for options read so far. -/
def Progress.lend (file : Setting) (p : Progress) : Progress :=
  { p with options := p.options.lend file }

theorem switch_lend (file : Setting) (p : Progress) (flag : Flag) :
    (p.lend file).switch flag = (p.switch flag).map (Progress.lend file) := by
  cases flag <;> rfl

/-- Steps that do not depend on it can be taken one after the other. -/
theorem bind_lend {file : Setting} {x x' : Except Stop Progress}
    {f f' : Progress → Except Stop Progress} (hx : x' = x.map (Progress.lend file))
    (hf : ∀ p, f' (p.lend file) = (f p).map (Progress.lend file)) :
    (x' >>= f') = (x >>= f).map (Progress.lend file) := by
  subst hx
  cases x with
  | error e => rfl
  | ok p => exact hf p

theorem foldlM_switch_lend (file : Setting) (p : Progress) (flags : List Flag) :
    flags.foldlM Progress.switch (p.lend file) =
      (flags.foldlM Progress.switch p).map (Progress.lend file) := by
  induction flags generalizing p with
  | nil => rfl
  | cons flag flags ih =>
    rw [List.foldlM_cons, List.foldlM_cons]
    exact bind_lend (switch_lend file p flag) ih

/-- A debug file that is given replaces the other one. -/
theorem store_lend (file : Setting) (options : Options) (flag : Flag) {value : Setting}
    (hvalue : value ≠ .absent) :
    Progress.store (options.lend file) value flag =
      (Progress.store options value flag).lend file := by
  cases flag with
  | debugFile =>
    cases value with
    | absent => exact absurd rfl hvalue
    | _ => rfl
  | _ => rfl

theorem give_lend (file : Setting) (p : Progress) (flag : Flag) {value : Setting}
    (hvalue : value ≠ .absent) :
    (p.lend file).give flag value = (p.give flag value).map (Progress.lend file) := by
  obtain ⟨options, exclusive, hasProgram, extras⟩ := p
  simp only [Progress.give, Progress.lend, store_lend file options flag hvalue]
  by_cases hexclusive : flag.isExclusive
  · simp only [hexclusive, if_true]
    cases exclusive with
    | none => rfl
    | some other =>
      by_cases h : other = flag
      · simp only [h, if_true]
        rfl
      · simp only [h, if_false]
        rfl
  · simp only [hexclusive]
    rfl

/-- Reading the rest of the arguments does not depend on it. -/
theorem scan_lend (file : Setting) (roles : List (String × Role)) (p : Progress) :
    scan roles (p.lend file) = (scan roles p).map (Progress.lend file) := by
  induction hlength : roles.length using Nat.strong_induction_on generalizing roles p with
  | _ n ih =>
    subst hlength
    -- Each argument is followed by fewer ones, whatever becomes of it.
    have hrest : ∀ {rest : List (String × Role)}, rest.length < roles.length → ∀ p,
        scan rest (Progress.lend file p) = (scan rest p).map (Progress.lend file) :=
      fun h p => ih _ h _ p rfl
    cases roles with
    | nil => rw [scan, scan]; rfl
    | cons role rest =>
      obtain ⟨argument, role⟩ := role
      cases role with
      | unknown =>
        rw [scan, scan]
        exact hrest (by simp) (p.leave argument)
      | plain =>
        rw [scan.eq_def, scan.eq_def]
        dsimp only
        by_cases hprogram : p.hasProgram
        · have hprogram' : (p.lend file).hasProgram = true := hprogram
          rw [if_pos hprogram', if_pos hprogram]
          exact hrest (by simp) (p.leave argument)
        · have hprogram' : ¬(p.lend file).hasProgram = true := hprogram
          rw [if_neg hprogram', if_neg hprogram]
          split
          · exact hrest (by simp) (p.takeProgram (some argument))
          · exact hrest (by simp) (p.takeProgram (some argument))
      | separator =>
        rw [scan.eq_def, scan.eq_def]
        dsimp only
        by_cases hprogram : p.hasProgram
        · have hprogram' : (p.lend file).hasProgram = true := hprogram
          rw [if_pos hprogram', if_pos hprogram]
          exact hrest (by simp) (p.leave argument)
        · have hprogram' : ¬(p.lend file).hasProgram = true := hprogram
          rw [if_neg hprogram', if_neg hprogram]
          cases rest with
          | nil => rfl
          | cons other rest => exact hrest (by simp) (p.takeProgram (some other.1))
      | option flag short attached =>
        rw [scan, scan]
        cases (attached.elim (.ok ([], flag, .absent))
          (cluster flag short)).mapError Stop.usage with
        | error e => rfl
        | ok found =>
          obtain ⟨before, last, value⟩ := found
          change (if last.takesValue then _ else _) =
            Except.map _ (if last.takesValue then _ else _)
          have hswitched := foldlM_switch_lend file p before
          by_cases hlast : last.takesValue
          · rw [if_pos hlast, if_pos hlast]
            split
            · refine bind_lend hswitched fun p =>
                bind_lend (give_lend file p last (by simp)) fun p => ?_
              exact hrest (by simp) p
            · rfl
            · rename_i hvalue _
              refine bind_lend hswitched fun p => bind_lend (give_lend file p last ?_) fun p => ?_
              · rintro rfl
                exact hvalue rfl
              · exact hrest (by simp) p
          · rw [if_neg hlast, if_neg hlast]
            refine bind_lend hswitched fun p => bind_lend (switch_lend file p last) fun p => ?_
            exact hrest (by simp) p

/-- An option for the debug file in front of the arguments adds just that, unless they have one. -/
theorem read_debugFile {arguments : List String} {options : Options}
    (h : read arguments = .ok options) (habsent : options.debugFile = .absent) {name : String}
    (hname : IsPlain name) :
    read ("--debug-file" :: name :: arguments) = .ok { options with debugFile := .text name } := by
  obtain ⟨roles, p, hroles, hscan, hextras, rfl⟩ := exists_of_read h
  have hroles' : classifyAll ("--debug-file" :: name :: arguments) =
      .ok (("--debug-file", .option .debugFile false none) :: (name, .plain) :: roles) := by
    rw [classifyAll_cons (by decide) rfl, classifyAll_cons hname.1 hname.2, hroles]
    rfl
  have hlend : p.options.lend (.text name) = { p.options with debugFile := .text name } := by
    rw [lend, habsent]
  have hscan' : scan (("--debug-file", .option .debugFile false none) :: (name, .plain) :: roles)
      {} = .ok (p.lend (.text name)) := by
    rw [scan_value_cons rfl]
    exact (scan_lend (.text name) roles {}).trans (by rw [hscan]; rfl)
  rw [read_eq_ok hroles' hscan' hextras, ← hlend]
  rfl

end Options

end LetCalc.CommandLine
