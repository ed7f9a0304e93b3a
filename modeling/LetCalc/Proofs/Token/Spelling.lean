import LetCalc.Proofs.Token.Scanning

/-!
# Texts side by side

What a text says does not depend on where it stands: `Lexer.Spells` gives the words of a text with
no regard to places. No word has a blank in it, so that a text cannot go on across one, and two
texts with a blank between them have the words of both.

* `Lexer.spells_of_tokens`, `Lexer.exists_tokens_of_spells`: the words of a text are those of its
  tokens.
* `Lexer.Spells.append`: the words of two texts with a blank between them.
-/

namespace LetCalc

/-- The kind and the text of a token, whatever its place. -/
def Token.word (t : Token) : Token.Kind × String := (t.kind, t.text)

/-- No word has a blank in it. -/
theorem Terminal.not_isSkipped_of_mem {T : Terminal} {w : List Char} (h : w ∈ T.language) :
    ∀ c ∈ w, Lexer.isSkipped c = false := by
  intro c hc
  rw [Bool.eq_false_iff, ne_eq, Lexer.isSkipped_eq, decide_eq_true_eq]
  intro hblank
  simp only [Lexer.blanks, List.mem_cons, List.not_mem_nil, or_false] at hblank
  cases T with
  | number =>
    obtain ⟨n, hn, rfl⟩ := mem_number_iff.1 h
    have hchar := hn.isNumeralChar c hc
    rcases hblank with rfl | rfl | rfl | rfl <;> simp [Numeral.IsNumeralChar] at hchar
  | identifier =>
    obtain ⟨d, ds, hd, hds, rfl⟩ := mem_identifier_iff.1 h
    have hpart : Lexer.isNameStart c = true ∨ Lexer.isNamePart c = true := by
      rcases List.mem_cons.1 hc with rfl | hc
      · exact .inl hd
      · exact .inr (hds c hc)
    rcases hblank with rfl | rfl | rfl | rfl <;> exact absurd hpart (by decide)
  | _ =>
    obtain rfl : w = [_] := h
    rcases hblank with rfl | rfl | rfl | rfl <;> simp at hc

theorem Terminal.lineFeed_not_mem {T : Terminal} {w : List Char} (h : w ∈ T.language) :
    '\n' ∉ w := by
  intro hmem
  have hblank := not_isSkipped_of_mem h '\n' hmem
  exact absurd hblank (by decide)

/-- A blank after a text makes no word longer. -/
theorem LongestAt.append_blank {cs rest w : List Char} {T : Terminal} {b : Char}
    (h : LongestAt cs T w) (hb : Lexer.isSkipped b = true) : LongestAt (cs ++ b :: rest) T w := by
  refine ⟨h.starts.trans (List.prefix_append _ _), h.mem, fun T' v hv hmem => ?_⟩
  by_cases hle : v.length ≤ cs.length
  · have hcs : v <+: cs := List.prefix_of_prefix_length_le hv (List.prefix_append _ _) hle
    exact h.longest T' v hcs hmem
  · -- A longer word would have the blank in it.
    have hcs : cs ++ [b] <+: v := by
      refine List.prefix_of_prefix_length_le ?_ hv (by simp; omega)
      exact ⟨rest, by simp⟩
    have hmemb : b ∈ v := hcs.subset (by simp)
    rw [Terminal.not_isSkipped_of_mem hmem b hmemb] at hb
    exact absurd hb Bool.false_ne_true

namespace Lexer

theorem isSkipped_of_mem_blanks {c : Char} (h : c ∈ blanks) : isSkipped c = true := by
  rw [isSkipped_eq]
  exact decide_eq_true h

/-- The words of a text, up to its end. -/
inductive Spells : List Char → List (Token.Kind × String) → Prop
  | nil {cs : List Char} : cs.dropWhile isSkipped = [] → Spells cs []
  | cons {cs word left : List Char} {T : Terminal} {kind : Token.Kind}
      {words : List (Token.Kind × String)} :
      LongestAt (cs.dropWhile isSkipped) T word → T.Tags (String.ofList word) kind →
        cs.dropWhile isSkipped = word ++ left → Spells left words →
          Spells cs ((kind, String.ofList word) :: words)

theorem spells_of_tokens {lexer : Lexer} {ts : List Token} (h : lexer.tokens = (ts, none)) :
    Spells lexer.rest (ts.map Token.word) := by
  have htakes := takes_next lexer
  induction lexer using run_induction generalizing ts with
  | done lexer left hnext =>
    rw [tokens_of_done hnext] at h
    obtain ⟨rfl, -⟩ := Prod.mk.inj h
    exact .nil (htakes.eq_done_iff.1 (by rw [hnext]))
  | failure lexer e left hnext => simp [tokens_of_failure hnext] at h
  | token lexer t left hnext ih =>
    rw [tokens_of_token hnext] at h
    obtain ⟨rfl, hnone⟩ := Prod.mk.inj h
    rw [hnext] at htakes
    cases htakes with
    | token hlongest htags hcs =>
      exact .cons hlongest htags hcs (ih (Prod.ext rfl hnone) (takes_next _))

theorem exists_tokens_of_spells {cs : List Char} {words : List (Token.Kind × String)}
    (h : Spells cs words) (place : Place) :
    ∃ ts, (⟨cs, place⟩ : Lexer).tokens = (ts, none) ∧ ts.map Token.word = words := by
  induction h generalizing place with
  | nil hcs =>
    exact ⟨[], tokens_of_done ((takes_next _).unique (.done hcs)), rfl⟩
  | cons hlongest htags hcs _ ih =>
    have hnext := (takes_next ⟨_, place⟩).unique (.token hlongest htags hcs)
    obtain ⟨ts, hts, hwords⟩ := ih _
    refine ⟨_, by rw [tokens_of_token hnext, hts], ?_⟩
    rw [List.map_cons, hwords]
    rfl

/-- Blanks before a text do not matter. -/
theorem Spells.of_dropWhile_eq {cs ds : List Char} {words : List (Token.Kind × String)}
    (h : Spells cs words) (heq : ds.dropWhile isSkipped = cs.dropWhile isSkipped) :
    Spells ds words := by
  cases h with
  | nil hcs => exact .nil (heq.trans hcs)
  | cons hlongest htags hcs hrest => exact .cons (heq ▸ hlongest) htags (heq.trans hcs) hrest

/-- Two texts with blanks between them have the words of both. -/
theorem Spells.append {cs ds blank : List Char} {words more : List (Token.Kind × String)}
    (h : Spells cs words) (hmore : Spells ds more) (hne : blank ≠ [])
    (hblank : ∀ c ∈ blank, isSkipped c = true) : Spells (cs ++ blank ++ ds) (words ++ more) := by
  obtain ⟨b, blank, rfl⟩ := List.exists_cons_of_ne_nil hne
  induction h with
  | nil hcs =>
    refine hmore.of_dropWhile_eq ?_
    rw [List.append_assoc, List.dropWhile_append_of_pos, List.dropWhile_append_of_pos hblank]
    exact List.dropWhile_eq_nil_iff.1 hcs
  | @cons cs word left T kind words hlongest htags hcs hrest ih =>
    -- The text has a word, so that the blanks at its start end before those that follow it.
    have hdrop : (cs ++ (b :: blank) ++ ds).dropWhile isSkipped =
        cs.dropWhile isSkipped ++ b :: (blank ++ ds) := by
      rw [List.append_assoc, List.dropWhile_append, if_neg (by simpa using hlongest.ne_nil)]
      rfl
    have hleft : (cs ++ (b :: blank) ++ ds).dropWhile isSkipped =
        word ++ (left ++ (b :: blank) ++ ds) := by
      rw [hdrop, hcs, List.append_assoc, List.append_assoc]
      rfl
    have hblanks : isSkipped b = true := hblank b (List.mem_cons_self)
    exact .cons (hdrop ▸ hlongest.append_blank hblanks) htags hleft ih

end Lexer

end LetCalc
