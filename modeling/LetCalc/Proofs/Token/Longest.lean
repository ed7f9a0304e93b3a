import LetCalc.Proofs.Token.Terminal

/-!
# The next token is the longest word

A step of the lexer skips blanks and takes the longest word at the start of what is left. `Takes`
says so by means of the languages of words alone, and also when a step fails; it is all that there
is to know about a step:

* `Lexer.takes_next`: every step is as `Takes` says.
* `Lexer.Takes.unique`: `Takes` leaves no choice.
-/

namespace LetCalc

open Terminal

/-- The word `w`, of the terminal `T`, is the longest word at the start of the text `cs`. -/
structure LongestAt (cs : List Char) (T : Terminal) (w : List Char) : Prop where
  /-- The word is at the start of the text. -/
  starts : w <+: cs
  /-- It is a word of the terminal. -/
  mem : w ∈ T.language
  /-- No word of any terminal at the start of the text is longer. -/
  longest : ∀ (T' : Terminal) (v : List Char), v <+: cs → v ∈ T'.language → v.length ≤ w.length

/-- There is one longest word, and it is of one terminal. -/
theorem LongestAt.unique {cs w w' : List Char} {T T' : Terminal} (h : LongestAt cs T w)
    (h' : LongestAt cs T' w') : T = T' ∧ w = w' := by
  -- Each is at least as long as the other, and both are at the start of one text.
  have hlength : w.length = w'.length :=
    Nat.le_antisymm (h'.longest T w h.starts h.mem) (h.longest T' w' h'.starts h'.mem)
  have hword : w = w' :=
    (List.prefix_of_prefix_length_le h.starts h'.starts hlength.le).eq_of_length hlength
  subst hword
  exact ⟨eq_of_mem h.mem h'.mem, rfl⟩

/-- There is no word at the start of the empty text. -/
theorem LongestAt.ne_nil {cs w : List Char} {T : Terminal} (h : LongestAt cs T w) : cs ≠ [] := by
  rintro rfl
  obtain ⟨c, rest, rfl, -⟩ := exists_cons_of_mem h.mem
  exact List.cons_ne_nil c rest (List.prefix_nil.1 h.starts)

namespace Terminal

variable {c : Char} {rest : List Char}

/-- A word at the start of a text starts with the first character of the text. -/
theorem eq_cons_of_prefix {T : Terminal} {v : List Char} (hv : v <+: c :: rest)
    (hmem : v ∈ T.language) : ∃ cs, v = c :: cs ∧ cs <+: rest ∧ ofFirst? c = some T := by
  obtain ⟨d, cs, rfl, hd⟩ := exists_cons_of_mem hmem
  obtain ⟨rfl, hcs⟩ := List.cons_prefix_cons.1 hv
  exact ⟨cs, rfl, hcs, hd⟩

/-- A punctuation mark is the only word that starts with it. -/
theorem longestAt_singleton {T : Terminal} (hfirst : ofFirst? c = some T)
    (hlanguage : T.language = {[c]}) : LongestAt (c :: rest) T [c] := by
  refine ⟨⟨rest, rfl⟩, by rw [hlanguage]; rfl, fun T' v hv hmem => ?_⟩
  obtain ⟨cs, rfl, -, hT'⟩ := eq_cons_of_prefix hv hmem
  obtain rfl := Option.some.inj (hfirst.symm.trans hT')
  rw [hlanguage] at hmem
  exact Nat.le_of_eq (congrArg List.length hmem)

/-- The numeral that is found is the longest word. -/
theorem longestAt_of_scan? {n : Numeral} (h : Numeral.scan? (c :: rest) = some n) :
    LongestAt (c :: rest) .number n.text := by
  have hn := Numeral.wellFormed_of_scan? h
  have hstarts := Numeral.text_prefix_of_scan? h
  have hmem : n.text ∈ Terminal.number.language := mem_number_iff.2 ⟨n, hn, rfl⟩
  refine ⟨hstarts, hmem, fun T v hv hvmem => ?_⟩
  obtain ⟨-, -, -, hfirst⟩ := eq_cons_of_prefix hstarts hmem
  obtain ⟨-, -, -, hT⟩ := eq_cons_of_prefix hv hvmem
  obtain rfl := Option.some.inj (hfirst.symm.trans hT)
  -- The word is a numeral itself, and the numeral that is found starts with it.
  obtain ⟨m, hm, rfl⟩ := mem_number_iff.1 hvmem
  obtain ⟨after, hafter⟩ := hv
  obtain ⟨n', hscan, hlonger, -⟩ := Numeral.scan?_text_append hm after
  rw [hafter, h] at hscan
  obtain rfl := Option.some.inj hscan
  exact hlonger.length_le

/-- The characters that may follow in a name make the longest name. -/
theorem longestAt_of_isNameStart (h : Lexer.isNameStart c) :
    LongestAt (c :: rest) .identifier (c :: rest.takeWhile Lexer.isNamePart) := by
  have hstarts : c :: rest.takeWhile Lexer.isNamePart <+: c :: rest :=
    List.cons_prefix_cons.2 ⟨rfl, List.takeWhile_prefix _⟩
  have hmem : c :: rest.takeWhile Lexer.isNamePart ∈ Terminal.identifier.language :=
    mem_identifier_iff.2 ⟨c, _, h, fun d hd => List.mem_takeWhile_imp hd, rfl⟩
  refine ⟨hstarts, hmem, fun T v hv hvmem => ?_⟩
  obtain ⟨-, -, -, hfirst⟩ := eq_cons_of_prefix hstarts hmem
  obtain ⟨cs, rfl, ⟨after, rfl⟩, hT⟩ := eq_cons_of_prefix hv hvmem
  obtain rfl := Option.some.inj (hfirst.symm.trans hT)
  obtain ⟨d, ds, -, hds, heq⟩ := mem_identifier_iff.1 hvmem
  obtain ⟨rfl, rfl⟩ := List.cons.inj heq
  rw [List.takeWhile_append_of_pos hds]
  simp

/-- A character that starts no token starts no word. -/
theorem not_mem_of_unexpected (hmark : Token.Kind.ofPunctuation? c = none)
    (hdigit : Numeral.scan? (c :: rest) = none) (hname : Lexer.isNameStart c = false)
    (T : Terminal) {v : List Char} (hv : v <+: c :: rest) : v ∉ T.language := by
  intro hmem
  obtain ⟨-, -, -, hT⟩ := eq_cons_of_prefix hv hmem
  have hnotDigit : c.isDigit = false := Numeral.scan?_eq_none_iff.1 hdigit c rfl
  rw [ofFirst?, hnotDigit, hname, if_neg Bool.false_ne_true, if_neg Bool.false_ne_true,
    ofMark?_eq_none hmark] at hT
  exact Option.some_ne_none T hT.symm

end Terminal

namespace Lexer

/-- What a step of the lexer is, where the blanks before the text `cs` are skipped already. -/
inductive Takes (cs : List Char) (place : Place) : Step × Lexer → Prop
  /-- The text is at its end. -/
  | done : cs = [] → Takes cs place (.done, ⟨[], place⟩)
  /-- The longest word at the start makes a token. -/
  | token {T : Terminal} {word left : List Char} {kind : Token.Kind} :
      LongestAt cs T word → T.Tags (String.ofList word) kind → cs = word ++ left →
        Takes cs place (.token ⟨kind, String.ofList word, place⟩, ⟨left, place.advance word⟩)
  /-- The longest word is a numeral, but not that of a finite number. -/
  | outOfRange {numeral : List Char} :
      LongestAt cs .number numeral →
        (∀ x, Lenient.number? (String.ofList numeral) = some x → x.isFinite = false) →
          Takes cs place (.failure (.outOfRange (String.ofList numeral) place), ⟨[], place⟩)
  /-- There is no word at the start. -/
  | unexpected {c : Char} {rest : List Char} :
      cs = c :: rest → (∀ (T : Terminal) (w : List Char), w <+: cs → w ∉ T.language) →
        Takes cs place (.failure (.unexpectedCharacter c place), ⟨[], place⟩)

/-- Taking a word off a text that starts with it. -/
theorem takes_take {c : Char} {rest word : List Char} {T : Terminal} {kind : Token.Kind}
    {place : Place} (h : LongestAt (c :: rest) T word) (htags : T.Tags (String.ofList word) kind) :
    Takes (c :: rest) place (take kind word place rest) := by
  obtain ⟨cs, rfl, ⟨left, rfl⟩, -⟩ := eq_cons_of_prefix h.starts h.mem
  have hleft : (cs ++ left).drop ((c :: cs).length - 1) = left := by simp
  rw [take, hleft]
  exact .token h htags rfl

theorem takes_scan (c : Char) (rest : List Char) (place : Place) :
    Takes (c :: rest) place (scan c rest place) := by
  -- The cases are those of the first character: a mark, a digit, a letter, or none of them.
  unfold scan
  split
  · rename_i kind hmark
    obtain ⟨T, hfirst, hlanguage, htags⟩ := exists_of_ofPunctuation? hmark
    exact takes_take (longestAt_singleton hfirst hlanguage) (htags _)
  · rename_i numeral hmark hscan
    have hlongest := longestAt_of_scan? hscan
    have hnumber := Lenient.number?_text (Numeral.wellFormed_of_scan? hscan)
    dsimp only
    split
    · rename_i hfinite
      exact takes_take hlongest (.number hnumber hfinite)
    · rename_i hfinite
      refine .outOfRange hlongest fun x hx => ?_
      obtain rfl := Option.some.inj (hnumber.symm.trans hx)
      simpa using hfinite
  · rename_i hmark hscan
    split
    · rename_i hname
      exact takes_take (longestAt_of_isNameStart hname) (tags_ofWord _)
    · rename_i hname
      refine .unexpected rfl fun T v hv => ?_
      exact not_mem_of_unexpected hmark hscan (by simpa using hname) T hv

/-- A step takes the longest word after the blanks. -/
theorem takes_next (lexer : Lexer) :
    Takes (lexer.rest.dropWhile isSkipped)
      (lexer.place.advance (lexer.rest.takeWhile isSkipped)) lexer.next := by
  unfold next
  cases h : lexer.rest.dropWhile isSkipped with
  | nil => exact .done rfl
  | cons c rest => exact takes_scan c rest _

/-- There is only one step that takes the longest word. -/
theorem Takes.unique {cs : List Char} {place : Place} {r r' : Step × Lexer}
    (h : Takes cs place r) (h' : Takes cs place r') : r = r' := by
  cases h with
  | done hcs =>
    cases h' with
    | done => rfl
    | token h' => exact absurd hcs h'.ne_nil
    | outOfRange h' => exact absurd hcs h'.ne_nil
    | unexpected hcs' => exact absurd (hcs'.symm.trans hcs) (List.cons_ne_nil _ _)
  | token h htags hcs =>
    cases h' with
    | done hcs' => exact absurd hcs' h.ne_nil
    | token h' htags' hcs' =>
      obtain ⟨rfl, rfl⟩ := h.unique h'
      obtain rfl := htags.unique htags'
      obtain rfl := List.append_cancel_left (hcs.symm.trans hcs')
      rfl
    | outOfRange h' hlarge =>
      obtain ⟨rfl, rfl⟩ := h.unique h'
      cases htags with
      | number hx hfinite => exact absurd hfinite (by rw [hlarge _ hx]; decide)
    | unexpected _ hnone => exact absurd h.mem (hnone _ _ h.starts)
  | outOfRange h hlarge =>
    cases h' with
    | done hcs' => exact absurd hcs' h.ne_nil
    | token h' htags' =>
      obtain ⟨rfl, rfl⟩ := h.unique h'
      cases htags' with
      | number hx hfinite => exact absurd hfinite (by rw [hlarge _ hx]; decide)
    | outOfRange h' =>
      obtain ⟨-, rfl⟩ := h.unique h'
      rfl
    | unexpected _ hnone => exact absurd h.mem (hnone _ _ h.starts)
  | unexpected hcs hnone =>
    cases h' with
    | done hcs' => exact absurd (hcs.symm.trans hcs') (List.cons_ne_nil _ _)
    | token h' => exact absurd h'.mem (hnone _ _ h'.starts)
    | outOfRange h' => exact absurd h'.mem (hnone _ _ h'.starts)
    | unexpected hcs' =>
      obtain ⟨rfl, rfl⟩ := List.cons.inj (hcs.symm.trans hcs')
      rfl

/-! ## How a step ends -/

variable {cs : List Char} {place : Place} {r : Step × Lexer}

/-- There is no further token exactly if nothing is left. -/
theorem Takes.eq_done_iff (h : Takes cs place r) : r.1 = .done ↔ cs = [] := by
  constructor
  · intro hr
    cases h with
    | done hcs => exact hcs
    | _ => simp at hr
  · intro hcs
    rw [h.unique (.done hcs)]

/-- A character is refused exactly if it starts no word. -/
theorem Takes.eq_unexpectedCharacter_iff (h : Takes cs place r) {c : Char} {p : Place} :
    r.1 = .failure (.unexpectedCharacter c p) ↔
      p = place ∧ cs.head? = some c ∧
        ∀ (T : Terminal) (w : List Char), w <+: cs → w ∉ T.language := by
  constructor
  · intro hr
    cases h with
    | unexpected hcs hnone =>
      obtain ⟨rfl, rfl⟩ : _ ∧ _ := by simpa using hr
      exact ⟨rfl, by rw [hcs, List.head?_cons], hnone⟩
    | _ => simp at hr
  · rintro ⟨rfl, hhead, hnone⟩
    obtain ⟨rest, rfl⟩ := List.head?_eq_some_iff.1 hhead
    rw [h.unique (.unexpected rfl hnone)]

/-- A numeral is refused exactly if it is the longest word but too large. -/
theorem Takes.eq_outOfRange_iff (h : Takes cs place r) {numeral : String} {p : Place} :
    r.1 = .failure (.outOfRange numeral p) ↔
      p = place ∧ LongestAt cs .number numeral.toList ∧
        ∀ x, Lenient.number? numeral = some x → x.isFinite = false := by
  constructor
  · intro hr
    cases h with
    | @outOfRange word hlongest hlarge =>
      obtain ⟨rfl, rfl⟩ : String.ofList word = numeral ∧ place = p := by simpa using hr
      exact ⟨rfl, by rwa [String.toList_ofList], hlarge⟩
    | _ => simp at hr
  · rintro ⟨rfl, hlongest, hlarge⟩
    have htakes : Takes cs p (.failure (.outOfRange (String.ofList numeral.toList) p), ⟨[], p⟩) :=
      .outOfRange hlongest (by rwa [String.ofList_toList])
    rw [h.unique htakes, String.ofList_toList]

/-- A step fails at the place where it is made. -/
theorem Takes.place_eq (h : Takes cs place r) {e : LexError} (hr : r.1 = .failure e) :
    e.place = place := by
  cases e with
  | unexpectedCharacter c p => exact (h.eq_unexpectedCharacter_iff.1 hr).1
  | outOfRange numeral p => exact (h.eq_outOfRange_iff.1 hr).1

end Lexer

end LetCalc
