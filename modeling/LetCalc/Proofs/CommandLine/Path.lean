import LetCalc.CommandLine.Disk
import Mathlib.Data.List.TakeWhile

/-!
# File names in normal form

A name in normal form stays the same when it is read again from its text
(`Path.IsNormal.ofString_text`). An ending added to a name is added to the last part of its normal
form (`Path.ofString_append`), unless the last part is one that the normal form leaves out.
-/

namespace LetCalc.CommandLine

/-! ## Segments -/

theorem segments_eq_splitOn (cs : List Char) : segments cs = cs.splitOn '/' := by
  induction cs with
  | nil => rfl
  | cons c cs ih =>
    rw [segments, List.splitOn_cons_eq_if_modifyHead, ih]
    by_cases hc : c = '/'
    · simp [hc]
    · cases hsplit : cs.splitOn '/' with
      | nil => exact absurd hsplit (List.splitOn_ne_nil '/' cs)
      | cons first more => simp [hc]

theorem segments_eq_singleton {cs : List Char} (h : '/' ∉ cs) : segments cs = [cs] := by
  rw [segments_eq_splitOn, List.splitOn_eq_singleton h]

/-- What is added to a name without a slash is added to its last segment. -/
theorem exists_segments_append (cs : List Char) :
    ∃ init last, segments cs = init ++ [last] ∧
      ∀ ending, '/' ∉ ending → segments (cs ++ ending) = init ++ [last ++ ending] := by
  induction cs with
  | nil => exact ⟨[], [], rfl, fun ending h => segments_eq_singleton h⟩
  | cons c cs ih =>
    obtain ⟨init, last, hcs, happend⟩ := ih
    by_cases hc : c = '/'
    · refine ⟨[] :: init, last, by simp [segments, hc, hcs], fun ending h => ?_⟩
      simp [segments, hc, happend ending h]
    · -- A character other than a slash goes to the first segment, which may be the last one too.
      cases init with
      | nil =>
        refine ⟨[], c :: last, by simp [segments, hc, hcs], fun ending h => ?_⟩
        simp [segments, hc, happend ending h]
      | cons first init =>
        refine ⟨(c :: first) :: init, last, by simp [segments, hc, hcs], fun ending h => ?_⟩
        simp [segments, hc, happend ending h]

/-- Segments are made of the characters other than slashes. -/
theorem mem_of_mem_segments {cs segment : List Char} (h : segment ∈ segments cs) {d : Char}
    (hd : d ∈ segment) : d ∈ cs ∧ d ≠ '/' := by
  induction cs generalizing segment with
  | nil =>
    rw [List.mem_singleton.1 h] at hd
    exact absurd hd List.not_mem_nil
  | cons c cs ih =>
    rw [segments] at h
    by_cases hc : c = '/'
    · rw [if_pos hc] at h
      rcases List.mem_cons.1 h with rfl | h
      · exact absurd hd List.not_mem_nil
      · exact ⟨List.mem_cons_of_mem _ (ih h hd).1, (ih h hd).2⟩
    · rw [if_neg hc] at h
      cases hsegments : segments cs with
      | nil =>
        rw [hsegments] at h
        rw [List.mem_singleton.1 h, List.mem_singleton] at hd
        exact ⟨hd ▸ List.mem_cons_self, hd ▸ hc⟩
      | cons first more =>
        rw [hsegments] at h ih
        rcases List.mem_cons.1 h with rfl | h
        · rcases List.mem_cons.1 hd with rfl | hd
          · exact ⟨List.mem_cons_self, hc⟩
          · obtain ⟨hmem, hne⟩ := ih List.mem_cons_self hd
            exact ⟨List.mem_cons_of_mem _ hmem, hne⟩
        · obtain ⟨hmem, hne⟩ := ih (List.mem_cons_of_mem _ h) hd
          exact ⟨List.mem_cons_of_mem _ hmem, hne⟩

namespace Path

/-- The segments that are parts of a name. -/
def IsPart (segment : List Char) : Prop := segment ≠ [] ∧ segment ≠ ['.']

instance : DecidablePred IsPart := fun segment =>
  inferInstanceAs (Decidable (segment ≠ [] ∧ segment ≠ ['.']))

theorem parts_ofString (s : String) :
    (ofString s).parts = ((segments s.toList).filter (IsPart ·)).map String.ofList := rfl

/-- A name in normal form. -/
structure IsNormal (p : Path) : Prop where
  root : p.root = "" ∨ p.root = "/" ∨ p.root = "//"
  parts : ∀ part ∈ p.parts, IsPart part.toList ∧ '/' ∉ part.toList

theorem isNormal_ofString (s : String) : (ofString s).IsNormal := by
  refine ⟨?_, fun part hpart => ?_⟩
  · unfold ofString
    dsimp only
    split
    · exact .inl rfl
    · exact .inr (.inr rfl)
    · exact .inr (.inl rfl)
  · rw [parts_ofString] at hpart
    obtain ⟨segment, hsegment, rfl⟩ := List.mem_map.1 hpart
    obtain ⟨hmem, hkept⟩ := List.mem_filter.1 hsegment
    rw [String.toList_ofList]
    exact ⟨of_decide_eq_true hkept, fun hslash => (mem_of_mem_segments hmem hslash).2 rfl⟩

/-- The parts of a name, with slashes between them. -/
def body (p : Path) : List Char := ['/'].intercalate (p.parts.map String.toList)

theorem IsNormal.takeWhile_body {p : Path} (h : p.IsNormal) : p.body.takeWhile (· = '/') = [] := by
  rw [body]
  cases hparts : p.parts with
  | nil => rfl
  | cons part rest =>
    obtain ⟨hpart, hslash⟩ := h.parts part (by simp [hparts])
    cases hcs : part.toList with
    | nil => exact absurd hcs hpart.1
    | cons c cs =>
      have hc : c ≠ '/' := by
        rintro rfl
        exact hslash (by simp [hcs])
      cases rest <;> simp [hcs, hc, List.intercalate_cons_cons]

theorem IsNormal.filter_segments_body {p : Path} (h : p.IsNormal) :
    (segments p.body).filter (IsPart ·) = p.parts.map String.toList := by
  by_cases hparts : p.parts = []
  · rw [body, hparts]
    rfl
  · rw [body, segments_eq_splitOn, List.splitOn_intercalate, List.filter_eq_self]
    · intro segment hsegment
      obtain ⟨part, hpart, rfl⟩ := List.mem_map.1 hsegment
      exact decide_eq_true (h.parts part hpart).1
    · intro segment hsegment
      obtain ⟨part, hpart, rfl⟩ := List.mem_map.1 hsegment
      exact (h.parts part hpart).2
    · simpa using hparts

/-- A name is read back from its slashes and its parts. -/
theorem IsNormal.ofString_eq {p : Path} (h : p.IsNormal) {s : String}
    (hs : s.toList = p.root.toList ++ p.body) : ofString s = p := by
  have hparts : (ofString s).parts = p.parts := by
    have hbody : (segments s.toList).filter (IsPart ·) = (segments p.body).filter (IsPart ·) := by
      -- Every slash at the start makes an empty segment.
      rw [hs]
      rcases h.root with hroot | hroot | hroot <;> rw [hroot] <;> simp [segments, IsPart]
    rw [parts_ofString, hbody, h.filter_segments_body, List.map_map]
    simp
  have hroot : (ofString s).root = p.root := by
    unfold ofString
    dsimp only
    rcases h.root with hroot | hroot | hroot <;> rw [hs, hroot] <;> simp [h.takeWhile_body]
  cases p
  cases hp : ofString s
  simp_all

/-- A name in normal form is read back from its text. -/
theorem IsNormal.ofString_text {p : Path} (h : p.IsNormal) : ofString p.text = p := by
  rw [text]
  by_cases hempty : p.root.isEmpty && p.parts.isEmpty
  · rw [if_pos hempty]
    obtain ⟨root, parts⟩ := p
    simp only [Bool.and_eq_true, String.isEmpty_iff, List.isEmpty_iff] at hempty
    obtain ⟨rfl, rfl⟩ := hempty
    rfl
  · rw [if_neg hempty]
    refine h.ofString_eq ?_
    rw [String.toList_append, String.toList_intercalate, body]
    rfl

/-- An ending is added to the last part of a name. -/
theorem ofString_append {s ending : String} (hending : '/' ∉ ending.toList)
    (hlast : ∀ segment ∈ (segments s.toList).getLast?, IsPart segment) :
    ofString (s ++ ending) = (ofString s).addEnding ending ∧ (ofString s).parts ≠ [] := by
  obtain ⟨init, last, hs, happend⟩ := exists_segments_append s.toList
  have hpart : IsPart last := hlast last (by simp [hs])
  -- An ending makes no part that would be left out: the last one is not empty as it is.
  have hpart' : IsPart (last ++ ending.toList) := by
    refine ⟨by simp [hpart.1], fun hdot => ?_⟩
    rcases List.append_eq_singleton_iff.1 hdot with ⟨hnil, -⟩ | ⟨hdot, -⟩
    · exact hpart.1 hnil
    · exact hpart.2 hdot
  have hparts : (ofString s).parts =
      ((init.filter (IsPart ·)).map String.ofList) ++ [String.ofList last] := by
    simp [parts_ofString, hs, hpart]
  have hparts' : (ofString (s ++ ending)).parts =
      ((init.filter (IsPart ·)).map String.ofList) ++ [String.ofList last ++ ending] := by
    have hsegments := happend ending.toList hending
    rw [parts_ofString, String.toList_append, hsegments]
    simp [hpart']
  -- The last part has a character that is not a slash, so that the slashes at the start stay.
  have hroot : (ofString (s ++ ending)).root = (ofString s).root := by
    have hslashes : ((s ++ ending).toList.takeWhile (· = '/')) = s.toList.takeWhile (· = '/') := by
      have hsegment : last ∈ segments s.toList := by simp [hs]
      obtain ⟨d, hd⟩ := List.exists_mem_of_ne_nil last hpart.1
      obtain ⟨hmem, hne⟩ := mem_of_mem_segments hsegment hd
      rw [String.toList_append, List.takeWhile_append, if_neg]
      intro hlength
      rw [← (List.takeWhile_prefix _).eq_of_length hlength] at hmem
      have hslash := List.mem_takeWhile_imp hmem
      exact hne (of_decide_eq_true hslash)
    unfold ofString
    rw [hslashes]
  refine ⟨?_, by simp [hparts]⟩
  have hadd : (ofString s).addEnding ending =
      ⟨(ofString s).root, (init.filter (IsPart ·)).map String.ofList ++
        [String.ofList last ++ ending]⟩ := by
    rw [addEnding, hparts, List.dropLast_concat, List.getLastD_concat]
  rw [hadd, ← hroot, ← hparts']

end Path

end LetCalc.CommandLine
