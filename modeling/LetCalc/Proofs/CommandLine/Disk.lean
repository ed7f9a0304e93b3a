import LetCalc.Proofs.CommandLine.Path
import LetCalc.Proofs.Result

/-!
# What writing a file keeps

A file that is written is found again, and nothing else on the disk changes: every other path leads
where it led before (`Disk.entry?_put_of_ne`), since the directory of the new file was there
already. Under the name it was written it is read (`Disk.read_put`), and can be written anew
(`Disk.target_put`). The last result is about a file and the one beside it whose name has an ending
added (`Disk.find_write_addEnding`).
-/

namespace LetCalc.CommandLine.Disk

variable {d d' : Disk} {path parent q : List String} {part : String} {content : List UInt8}

/-! ## Entries -/

theorem entry?_put_self (d : Disk) (path : List String) (content : List UInt8) :
    entry? (d.put path content) path = some (.file content) := by
  simp [ entry?, put]

/-- A path leads to the working directory or to something listed, or to a directory around one. -/
def Covers (d : Disk) (path : List String) : Prop :=
  path <+: d.workingDirectory ∨ ∃ listed ∈ d.entries, path <+: listed.1

theorem covers_iff :
    (path.isPrefixOf d.workingDirectory || d.entries.any (path.isPrefixOf ·.1)) = true ↔
      d.Covers path := by
  simp [Covers]

theorem covers_of_directory (h : d.entry? path = some .directory) : d.Covers path := by
  unfold entry? at h
  split at h
  · rename_i found hfound
    have heq : found.1 = path := by simpa using List.find?_some hfound
    exact .inr ⟨found, List.mem_of_find?_eq_some hfound, heq ▸ List.prefix_rfl⟩
  · by_cases hcovers : d.Covers path
    · exact hcovers
    · rw [if_neg (mt covers_iff.1 hcovers)] at h
      exact absurd h.symm (Option.some_ne_none _)

theorem Covers.put (h : d.Covers q) : (d.put path content).Covers q := by
  rcases h with h | ⟨listed, hlisted, h⟩
  · exact .inl h
  · -- An entry that the new file replaces has the path of the new file.
    by_cases heq : listed.1 = path
    · exact .inr ⟨_, List.mem_cons_self, heq ▸ h⟩
    · exact .inr ⟨listed, List.mem_cons_of_mem _ (List.mem_filter.2 ⟨hlisted, by simpa⟩), h⟩

/-- The directories around a new file were there already. -/
theorem covers_put_iff (hparent : d.entry? parent = some .directory) (hq : q ≠ parent ++ [part]) :
    (d.put (parent ++ [part]) content).Covers q ↔ d.Covers q := by
  constructor
  · rintro (hq' | ⟨listed, hlisted, hq'⟩)
    · exact .inl hq'
    · rcases List.mem_cons.1 hlisted with rfl | hlisted
      · have hpre : q <+: parent := (List.prefix_concat_iff.1 hq').resolve_left hq
        rcases covers_of_directory hparent with h | ⟨other, hother, h⟩
        · exact .inl (hpre.trans h)
        · exact .inr ⟨other, hother, hpre.trans h⟩
      · exact .inr ⟨listed, (List.mem_filter.1 hlisted).1, hq'⟩
  · exact Covers.put

/-- What is listed under another path stays listed. -/
theorem find?_put_of_ne (hq : q ≠ path) :
    (d.put path content).entries.find? (·.1 = q) = d.entries.find? (·.1 = q) := by
  rw [put, List.find?_cons_of_neg (by simpa using Ne.symm hq), List.find?_filter]
  congr 1
  funext listed
  by_cases h : listed.1 = q
  · simp [h, hq]
  · simp [h]

/-- A new file in a directory changes no other entry. -/
theorem entry?_put_of_ne (hparent : d.entry? parent = some .directory) (hq : q ≠ parent ++ [part]) :
    entry? (d.put (parent ++ [part]) content) q = d.entry? q := by
  unfold entry?
  rw [find?_put_of_ne hq]
  cases d.entries.find? (·.1 = q) with
  | some found => rfl
  | none =>
    -- What is not listed may still be a directory around something listed.
    refine if_congr ?_ rfl rfl
    exact covers_iff.trans ((covers_put_iff hparent hq).trans covers_iff.symm)

/-- A file that takes no directory's place leaves all directories. -/
theorem entry?_put_of_directory (hpath : d.entry? path ≠ some .directory)
    (hq : d.entry? q = some .directory) : entry? (d.put path content) q = some .directory := by
  have hne : q ≠ path := by
    rintro rfl
    exact hpath hq
  have hcovers : (d.put path content).Covers q := (covers_of_directory hq).put
  unfold entry? at hq ⊢
  rw [find?_put_of_ne hne]
  cases hfound : d.entries.find? (·.1 = q) with
  | some found =>
    rw [hfound] at hq
    exact hq
  | none => exact if_pos (covers_iff.2 hcovers)

/-- Only the last content of a file is left. -/
theorem put_put (d : Disk) (path : List String) (content content' : List UInt8) :
    (d.put path content).put path content' = d.put path content' := by
  simp [put, List.filter_filter]

/-! ## Walks -/

theorem enter_eq_ok_iff : d.enter path = .ok q ↔ d.entry? path = some .directory ∧ path = q := by
  unfold enter
  split <;> simp_all

/-- One step of a walk. -/
theorem walk_cons_eq_ok_iff {rest : List String} :
    d.walk path (part :: rest) = .ok q ↔ d.entry? path = some .directory ∧
      if part = ".." then d.walk path.dropLast rest = .ok q
      else part.utf8ByteSize ≤ 255 ∧ d.walk (path ++ [part]) rest = .ok q := by
  rw [walk, bind_eq_ok_iff]
  simp only [enter_eq_ok_iff, and_assoc, exists_and_left, exists_eq_left']
  refine and_congr_right fun _ => ?_
  by_cases hup : part = ".."
  · rw [if_pos hup, if_pos hup]
  · rw [if_neg hup, if_neg hup]
    by_cases hlong : 255 < part.utf8ByteSize
    · rw [if_pos hlong]
      exact ⟨nofun, fun h => absurd h.1 (Nat.not_le.2 hlong)⟩
    · rw [if_neg hlong, and_iff_right (Nat.le_of_not_gt hlong)]

/-- The last step of a walk. -/
theorem walk_concat_eq_ok_iff {init : List String} :
    d.walk path (init ++ [part]) = .ok q ↔ ∃ parent, d.walk path init = .ok parent ∧
      d.entry? parent = some .directory ∧
      if part = ".." then parent.dropLast = q
      else part.utf8ByteSize ≤ 255 ∧ parent ++ [part] = q := by
  induction init generalizing path with
  | nil =>
    rw [List.nil_append, walk_cons_eq_ok_iff]
    simp [walk]
  | cons step init ih =>
    simp only [List.cons_append, walk_cons_eq_ok_iff, ih]
    by_cases hup : step = ".."
    · simp [hup, and_assoc]
    · simp [hup, and_assoc]

/-- Directories are walked through as before as long as they are directories. -/
theorem walk_mono (h : ∀ q, d.entry? q = some .directory → d'.entry? q = some .directory)
    {parts : List String} (hwalk : d.walk path parts = .ok q) : d'.walk path parts = .ok q := by
  induction parts generalizing path with
  | nil => exact hwalk
  | cons part rest ih =>
    rw [walk_cons_eq_ok_iff] at hwalk ⊢
    refine ⟨h _ hwalk.1, ?_⟩
    by_cases hup : part = ".."
    · rw [if_pos hup] at hwalk ⊢
      exact ih hwalk.2
    · rw [if_neg hup] at hwalk ⊢
      exact ⟨hwalk.2.1, ih hwalk.2.2⟩

/-! ## Files -/

/-- A name in normal form starts at its root and has its own parts. -/
theorem start_text {p : Path} (hp : p.IsNormal) {parts : List String}
    (h : d.start p.text = .ok (path, parts)) :
    path = (if p.root.isEmpty then d.workingDirectory else []) ∧ parts = p.parts := by
  unfold start at h
  rw [hp.ofString_text] at h
  split at h
  · exact nomatch h
  · split at h
    · exact nomatch h
    · split at h
      · exact nomatch h
      · have hpair := Except.ok.inj h
        exact ⟨(congrArg Prod.fst hpair).symm, (congrArg Prod.snd hpair).symm⟩

theorem find_eq_ok_iff {name : String} {entry : Entry} :
    d.find name = .ok entry ↔ ∃ path parts file, d.start name = .ok (path, parts) ∧
      d.walk path parts = .ok file ∧ d.entry? file = some entry := by
  rw [find, bind_eq_ok_iff]
  constructor
  · rintro ⟨⟨path, parts⟩, hstart, h⟩
    obtain ⟨file, hwalk, h⟩ := bind_eq_ok_iff.1 h
    refine ⟨path, parts, file, hstart, hwalk, ?_⟩
    cases hentry : d.entry? file with
    | none =>
      rw [hentry] at h
      exact nomatch h
    | some found =>
      rw [hentry] at h
      exact congrArg some (Except.ok.inj h)
  · rintro ⟨path, parts, file, hstart, hwalk, hentry⟩
    refine ⟨(path, parts), hstart, bind_eq_ok_iff.2 ⟨file, hwalk, ?_⟩⟩
    rw [hentry]
    rfl

/-- A name under which a file can be written does not end like that of a directory, and there is
none. -/
theorem target_eq_ok_iff {name : String} {file : List String} :
    d.target name = .ok file ↔ endsInStep name.toList = false ∧
      name.toList.getLast? ≠ some '/' ∧ ∃ path parts, d.start name = .ok (path, parts) ∧
        d.walk path parts = .ok file ∧ d.entry? file ≠ some .directory := by
  rw [target, bind_eq_ok_iff]
  constructor
  · rintro ⟨⟨path, parts⟩, hstart, h⟩
    dsimp only at h
    split at h
    · obtain ⟨directory, -, h⟩ := bind_eq_ok_iff.1 h
      obtain ⟨_, -, h⟩ := bind_eq_ok_iff.1 h
      exact nomatch h
    · rename_i hstep
      split at h
      · obtain ⟨directory, -, h⟩ := bind_eq_ok_iff.1 h
        obtain ⟨_, -, h⟩ := bind_eq_ok_iff.1 h
        exact nomatch h
      · rename_i hslash
        obtain ⟨found, hwalk, h⟩ := bind_eq_ok_iff.1 h
        split at h
        · exact nomatch h
        · rename_i hentry
          obtain rfl := Except.ok.inj h
          exact ⟨by simpa using hstep, hslash, path, parts, hstart, hwalk, hentry⟩
  · rintro ⟨hstep, hslash, path, parts, hstart, hwalk, hentry⟩
    refine ⟨(path, parts), hstart, ?_⟩
    dsimp only
    rw [if_neg (by simp [hstep]), if_neg hslash]
    exact bind_eq_ok_iff.2 ⟨file, hwalk, if_neg hentry⟩

theorem exists_of_write {name : String} (h : d.write name content = .ok d') :
    ∃ file, d.target name = .ok file ∧ d' = d.put file content := by
  rw [write] at h
  cases htarget : d.target name with
  | error cause =>
    rw [htarget] at h
    exact nomatch h
  | ok file =>
    rw [htarget] at h
    exact ⟨file, rfl, (Except.ok.inj h).symm⟩

/-- A file that was written can be written again, in the same place. -/
theorem target_put {name : String} {file : List String} (h : d.target name = .ok file)
    (content : List UInt8) : target (d.put file content) name = .ok file := by
  obtain ⟨hstep, hslash, path, parts, hstart, hwalk, hentry⟩ := target_eq_ok_iff.1 h
  refine target_eq_ok_iff.2 ⟨hstep, hslash, path, parts, hstart, ?_, ?_⟩
  · exact walk_mono (fun q => entry?_put_of_directory hentry) hwalk
  · rw [entry?_put_self]
    simp

/-- What was written is read back. -/
theorem read_put {name : String} {file : List String} (h : d.target name = .ok file)
    (content : List UInt8) : read (d.put file content) name = .ok content := by
  obtain ⟨-, -, path, parts, hstart, hwalk, hentry⟩ := target_eq_ok_iff.1 h
  have hfind : find (d.put file content) name = .ok (.file content) :=
    find_eq_ok_iff.2 ⟨path, parts, file, hstart,
      walk_mono (fun q => entry?_put_of_directory hentry) hwalk, entry?_put_self ..⟩
  rw [read, hfind]

/-- Two names that differ in an ending of the last part lead to two files of one directory. -/
theorem exists_parent_of_walk {init file file' : List String} {last ending : String}
    (hending : 2 < ending.length) (h : d.walk path (init ++ [last]) = .ok file)
    (h' : d.walk path (init ++ [last ++ ending]) = .ok file') :
    ∃ parent, d.entry? parent = some .directory ∧ file' = parent ++ [last ++ ending] ∧
      file ≠ file' := by
  have hlength : (last ++ ending).length = last.length + ending.length :=
    String.length_append last ending
  -- The longer name does not lead upwards, though the shorter one may.
  have hup : last ++ ending ≠ ".." := by
    intro heq
    have : (last ++ ending).length = 2 := congrArg String.length heq
    omega
  obtain ⟨parent, hparent, hdirectory, hlast⟩ := walk_concat_eq_ok_iff.1 h
  obtain ⟨parent', hparent', -, hlast'⟩ := walk_concat_eq_ok_iff.1 h'
  obtain rfl := Except.ok.inj (hparent.symm.trans hparent')
  rw [if_neg hup] at hlast'
  refine ⟨parent, hdirectory, hlast'.2.symm, ?_⟩
  rw [← hlast'.2]
  by_cases hdots : last = ".."
  · rw [if_pos hdots] at hlast
    intro heq
    have := congrArg List.length (hlast.trans heq)
    simp at this
  · rw [if_neg hdots] at hlast
    intro heq
    have hparts : [last] = [last ++ ending] := List.append_cancel_left (hlast.2.trans heq)
    have := congrArg String.length (List.singleton_inj.1 hparts)
    omega

/-- After a file is written beside another one, under its name with an ending, both are found: the
new one with what was written, the other one as before. -/
theorem find_write_addEnding {p : Path} {ending : String} (hp : p.IsNormal)
    (hp' : (p.addEnding ending).IsNormal) (hparts : p.parts ≠ []) (hending : 2 < ending.length)
    {entry : Entry} (hfind : d.find p.text = .ok entry)
    (hwrite : d.write (p.addEnding ending).text content = .ok d') :
    d'.find p.text = .ok entry ∧ d'.find (p.addEnding ending).text = .ok (.file content) := by
  obtain ⟨path, parts, file, hstart, hwalk, hentry⟩ := find_eq_ok_iff.1 hfind
  obtain ⟨hpath, rfl⟩ := start_text hp hstart
  obtain ⟨file', htarget, rfl⟩ := exists_of_write hwrite
  obtain ⟨-, -, path', parts', hstart', hwalk', hentry'⟩ := target_eq_ok_iff.1 htarget
  obtain ⟨hpath', rfl⟩ := start_text hp' hstart'
  obtain rfl : path' = path := hpath'.trans hpath.symm
  -- Both names start at the same directory and have the same parts up to the last one.
  have hsplit : p.parts = p.parts.dropLast ++ [p.parts.getLastD ""] := by
    rw [List.getLastD_eq_getLast?, List.getLast?_eq_some_getLast hparts, Option.getD_some,
      List.dropLast_concat_getLast]
  obtain ⟨parent, hparent, rfl, hne⟩ :=
    exists_parent_of_walk hending (hsplit ▸ hwalk) hwalk'
  -- The new file is no directory before or after, so that both walks go on as before.
  have hkeeps : ∀ q, d.entry? q = some .directory →
      entry? (d.put (parent ++ [p.parts.getLastD "" ++ ending]) content) q = some .directory :=
    fun q => entry?_put_of_directory hentry'
  refine ⟨find_eq_ok_iff.2 ⟨path', _, file, hstart, walk_mono hkeeps hwalk, ?_⟩,
    find_eq_ok_iff.2 ⟨path', _, _, hstart', walk_mono hkeeps hwalk', entry?_put_self ..⟩⟩
  rw [entry?_put_of_ne hparent hne, hentry]

end LetCalc.CommandLine.Disk
