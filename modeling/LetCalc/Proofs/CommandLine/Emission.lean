import LetCalc.Proofs.CommandLine.Calls
import LetCalc.Proofs.CommandLine.Disk
import LetCalc.Proofs.CommandLine.Options
import LetCalc.Proofs.Json.Lines
import LetCalc.Proofs.Node.Document
import LetCalc.Proofs.Text.Utf8

/-!
# Evaluating what was emitted

After a document was written for a program file, a call that evaluates the document and a call that
evaluates the file do the same (`Command.run_emitted`).

The steps are: writing the document keeps the file and is itself found again
(`Disk.find_write_addEnding`), its bytes and lines are read back as they were written, and so is the
program. From then on both calls evaluate one program with the same verbosity.

The name of the document is that of the file with an ending, but only if the name takes one
(`Command.TakesEnding`). Otherwise the document is there under another name, or its name is taken
for an option.
-/

namespace LetCalc.CommandLine

namespace Command

open Shell

variable {c c' : Console}

/-- Writing a document for a file succeeds only in one way. -/
theorem emit_cases (file : String) (c : Console) :
    (∃ content text program c', c.disk.find (Path.ofString file).text = .ok (.file content) ∧
      Text.Utf8.decode content = .ok text ∧
      Program.parse (String.ofList (Text.unifyNewlines text.toList)) = .ok program ∧
      c.disk.write ((Path.ofString file).addEnding ".ast.json").text
        (Text.Utf8.encode (Json.write (Node.program program).toJson)) = .ok c'.disk ∧
      emit file c = (.ok (), c')) ∨
      ∃ e c', emit file c = (.error e, c') ∧ e ≠ .exit 0 := by
  rcases readText_cases (.ofString file) c with ⟨content, text, hfind, hdecode⟩ | ⟨e, c', h, he⟩
  · rw [emit, bind_of_ok (readText_of_decode hfind hdecode)]
    cases hparse : Program.parse (String.ofList (Text.unifyNewlines text.toList)) with
    | error e =>
      obtain ⟨c', hc'⟩ := parse_of_error hparse c
      rw [bind_of_ok hc']
      exact .inr ⟨_, c', rfl, nofun⟩
    | ok program =>
      rw [bind_of_ok (parse_of_ok hparse c)]
      dsimp only
      rcases writeText_cases ((Path.ofString file).addEnding ".ast.json").text
        (Json.write (Node.program program).toJson) c with ⟨disk, hwrite, h⟩ | ⟨e, h⟩
      · rw [bind_of_ok h]
        exact .inl ⟨content, text, program, _, hfind, hdecode, hparse, hwrite, rfl⟩
      · rw [bind_of_error h]
        exact .inr ⟨_, c, rfl, nofun⟩
  · rw [emit, bind_of_error h]
    exact .inr ⟨e, c', rfl, he⟩

/-! ## Calls -/

/-- A file name to which an ending can be added where it stands: it ends in a part that names
something, and it starts like an option only if a space shows that it is none. -/
structure TakesEnding (file : String) : Prop where
  part : ∀ segment ∈ (segments file.toList).getLast?, Path.IsPart segment
  space : file.toList.head? = some '-' → ' ' ∈ file.toList

theorem TakesEnding.ne_empty {file : String} (h : TakesEnding file) : file ≠ "" := by
  rintro rfl
  exact (h.part [] rfl).1 rfl

theorem append_ne {file other : String} (h : other.length < 9) : file ++ ".ast.json" ≠ other := by
  rintro rfl
  rw [String.length_append] at h
  have hending : ".ast.json".length = 9 := rfl
  omega

/-- The name with the ending is taken for a file if the name is. -/
theorem TakesEnding.isPlain_append {file : String} (h : TakesEnding file)
    (hplain : Role.IsPlain file) : Role.IsPlain (file ++ ".ast.json") := by
  refine ⟨append_ne (by decide), Role.classify_append hplain.2 ?_⟩
  by_cases hhead : file.toList.head? = some '-'
  · exact .inr (h.space hhead)
  · exact .inl ⟨h.ne_empty, hhead⟩

/-- After a document was written for a file, both give the same program. -/
theorem exists_program_of_emit {file : String} (hfile : TakesEnding file)
    (h : emit file c = (.ok (), c')) :
    ∃ source program, Program.parse source = .ok program ∧
      ∀ console : Console, console.disk = c'.disk →
        readText (.ofString file) console = (.ok source, console) ∧
          loadDocument (file ++ ".ast.json") console = (.ok program, console) := by
  rcases emit_cases file c with ⟨content, text, program, d, hfind, hdecode, hparse, hwrite, hok⟩ |
    ⟨e, d, herror, -⟩
  · have hslash : '/' ∉ ".ast.json".toList := by decide
    -- The name with the ending names the file that was written.
    obtain ⟨hending, hparts⟩ := Path.ofString_append hslash hfile.part
    have hnormal := Path.isNormal_ofString (file ++ ".ast.json")
    rw [hending] at hnormal
    obtain rfl : c' = d := congrArg Prod.snd (h.symm.trans hok)
    obtain ⟨hfile', hdocument⟩ := Disk.find_write_addEnding (Path.isNormal_ofString file) hnormal
      hparts (by decide) hfind hwrite
    refine ⟨_, program, hparse, fun console hconsole => ?_⟩
    rw [← hconsole] at hfile' hdocument
    refine ⟨readText_of_decode hfile' hdecode, ?_⟩
    -- The document is read back from its bytes, then from its lines, then from its text.
    have hreadable := Program.readable_of_parse hparse
    refine loadDocument_of_read ?_ (Json.read_write hreadable) (Node.ofJson_toJson _)
    rw [hending, readText_of_decode hdocument (Text.Utf8.decode_encode _),
      Json.unifyNewlines_write hreadable, String.ofList_toList]
  · exact nomatch h.symm.trans herror

/-- The call that writes a document succeeds only if the file is taken for one and the document is
written. -/
theorem emit_of_run {file : String} (hfile : file ≠ "") {disk : Disk} {input : String}
    {console : Console} (h : run ["--emit-ast", file] disk input = (.exit 0, console)) :
    Role.IsPlain file ∧ emit file ⟨"", "", disk⟩ = (.ok (), console) := by
  rcases Options.read_emit file with ⟨hplain, hread⟩ | ⟨e, hread⟩
  · simp only [run, call, hread, perform_emit hfile] at h
    rcases emit_cases file ⟨"", "", disk⟩ with ⟨_, _, _, c, -, -, -, -, hok⟩ | ⟨e, c, herror, he⟩
    · rw [hok] at h
      obtain rfl : c = console := congrArg Prod.snd h
      exact ⟨hplain, hok⟩
    · rw [herror] at h
      exact absurd (congrArg Prod.fst h) he
  · rw [run, call, hread] at h
    cases congrArg Prod.fst h

/-- After a document was written for a program file, evaluating the document and evaluating the file
do the same, with any flags that raise the verbosity. What makes it so is that a program is read
back from the text of its document. -/
theorem run_emitted :
    (∀ (source : String) (program : Program), Program.parse source = .ok program →
      ∃ document, Json.read (Json.write (Node.program program).toJson) = .ok document ∧
        Node.ofJson document = .ok (.program program)) ∧
    ∀ (file : String) (disk : Disk) (input : String) (console : Console), TakesEnding file →
      run ["--emit-ast", file] disk input = (.exit 0, console) →
      ∀ (counts : List Nat) (input' : String),
        run (counts.map Options.verboseFlag ++ ["--ast", file ++ ".ast.json"]) console.disk input' =
          run (counts.map Options.verboseFlag ++ [file]) console.disk input' := by
  refine ⟨fun source program h => ⟨_, Json.read_write (Program.readable_of_parse h),
    Node.ofJson_toJson _⟩, fun file disk input console hfile h counts input' => ?_⟩
  obtain ⟨hplain, hemit⟩ := emit_of_run hfile.ne_empty h
  obtain ⟨source, program, hparse, hboth⟩ := exists_program_of_emit hfile hemit
  obtain ⟨hsource, hdocument⟩ := hboth ⟨"", "", console.disk⟩ rfl
  have hne : file ++ ".ast.json" ≠ "" := append_ne (by decide)
  refine run_congr (Options.read_document counts (hfile.isPlain_append hplain))
    (Options.read_program counts hplain) ?_
  -- Both calls come to the evaluation of one program from the same console.
  rw [perform_document hne, perform_program hfile.ne_empty, bind_of_ok hdocument,
    bind_of_ok hsource, evaluateSource, bind_of_ok (parse_of_ok hparse _)]

/-! ## Names with and without a part to add to -/

/-- A name with a hyphen and a space takes an ending. The program fails, in both forms alike. -/
theorem run_emitted_hyphen :
    TakesEnding "- p" ∧
      status? (run ["--emit-ast", "- p"] (singleFile "- p" "let x = 0.1; x + y") "").1 = some 0 ∧
      run ["-vv", "-v", "--ast", "- p.ast.json"]
          (run ["--emit-ast", "- p"] (singleFile "- p" "let x = 0.1; x + y") "").2.disk "" =
        run ["-vv", "-v", "- p"]
          (run ["--emit-ast", "- p"] (singleFile "- p" "let x = 0.1; x + y") "").2.disk "" ∧
      ∃ program document, Program.parse "let x = 0.1; x + y" = .ok program ∧
        Json.read (Json.write (Node.program program).toJson) = .ok document ∧
        Node.ofJson document = .ok (.program program) := by
  have hfile : TakesEnding "- p" := ⟨by decide, by decide⟩
  have hstatus : status? (run ["--emit-ast", "- p"] (singleFile "- p" "let x = 0.1; x + y") "").1 =
      some 0 := by decide +kernel
  obtain ⟨program, hprogram⟩ : ∃ program, Program.parse "let x = 0.1; x + y" = .ok program :=
    exists_of_isOk_parse (by decide +kernel)
  obtain ⟨document, hread, hload⟩ := run_emitted.1 _ _ hprogram
  exact ⟨hfile, hstatus, run_emitted.2 _ _ _ _ hfile (eq_exit_of_status? hstatus) [1, 0] "",
    program, document, hprogram, hread, hload⟩

/-- Without that the document is not found under the name of the file with the ending: a slash at
the end is dropped from the name before the ending is added, and a hyphen alone becomes an option.
-/
theorem run_emitted_elsewhere :
    (shown (run ["--emit-ast", "p/"] (singleFile "p" "1") "") = (some 0, "p.ast.json\n", "") ∧
      shown (run ["p/"] (run ["--emit-ast", "p/"] (singleFile "p" "1") "").2.disk "") =
        (some 0, "1\n", "") ∧
      shown (run ["--ast", "p/" ++ ".ast.json"]
          (run ["--emit-ast", "p/"] (singleFile "p" "1") "").2.disk "") =
        (some 1, "", "Error: file p/.ast.json not found\n")) ∧
    shown (run ["--emit-ast", "-"] (singleFile "-" "1") "") = (some 0, "-.ast.json\n", "") ∧
      shown (run ["-"] (run ["--emit-ast", "-"] (singleFile "-" "1") "").2.disk "") =
        (some 0, "1\n", "") ∧
      shown (run ["--ast", "-" ++ ".ast.json"]
          (run ["--emit-ast", "-"] (singleFile "-" "1") "").2.disk "") =
        (some 2, "",
          Options.usage ++ "letlang: error: argument --ast: expected one argument\n") := by
  decide +kernel

end Command

end LetCalc.CommandLine
