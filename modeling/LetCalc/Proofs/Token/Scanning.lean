import LetCalc.Proofs.Token.Longest
import LetCalc.Proofs.Token.Upcoming

/-!
# Reading a whole source text

The tokens of a source text lie side by side in it, with nothing but blanks between them, and each
is the longest word where it starts. Both facts follow from what a lexer holds between two steps:
the text from some offset on, and the place of that offset (`Lexer.At`). A step keeps this, and so
does a run, so that every token of a run is the token of a step at the offset where the tokens
before it stop (`Lexer.At.exists_step`), and what ends a run is a step after its last token
(`Lexer.At.exists_last`).

* `Lexer.tokens_longest`: which tokens a text has, and when and how it fails.
* `Lexer.tokens_tile`: the tokens and the blanks between them make up the text.
-/

namespace LetCalc

/-! ## Places in a text -/

namespace Place

/-- The line of the character that follows a text, counted from one. -/
def lineAfter (cs : List Char) : Nat := 1 + cs.count '\n'

/-- The column of the character that follows a text: one more than the number of characters since
the last line feed. -/
def columnAfter (cs : List Char) : Nat := 1 + (cs.reverse.takeWhile (· ≠ '\n')).length

theorem advance_append (p : Place) (cs ds : List Char) :
    p.advance (cs ++ ds) = (p.advance cs).advance ds := List.foldl_append

theorem origin_advance (cs : List Char) :
    origin.advance cs = ⟨cs.length, lineAfter cs, columnAfter cs⟩ := by
  -- A place is moved by the last character, so that the induction is on the end of the text.
  induction cs using List.reverseRecOn with
  | nil => rfl
  | append_singleton cs c ih =>
    rw [advance_append, ih]
    by_cases hc : c = '\n'
    · subst hc
      simp [advance, step, lineAfter, columnAfter, Nat.add_assoc]
    · simp [advance, step, lineAfter, columnAfter, hc, Nat.add_assoc]

@[simp]
theorem offset_origin_advance (cs : List Char) : (origin.advance cs).offset = cs.length := by
  rw [origin_advance]

end Place

/-- A message ends with the line and the column of the failure. -/
theorem LexError.exists_message_eq (e : LexError) :
    ∃ what : String, e.message = s!"{what} at {e.place.line}:{e.place.column}" := by
  have htoString : ∀ s : String, toString s = s := fun _ => rfl
  unfold message
  cases e with
  | unexpectedCharacter c p =>
    refine ⟨s!"unexpected character {Text.quoted (String.singleton c)}", ?_⟩
    dsimp only
    simp only [htoString, String.append_assoc]
  | outOfRange numeral p =>
    refine ⟨s!"numeric literal {numeral} is out of range", ?_⟩
    have hat : " is out of range at " = " is out of range" ++ " at " := by decide
    dsimp only
    simp only [htoString, String.append_assoc, hat]

theorem Token.span_stop (t : Token) : t.span.stop = t.span.start + t.text.toList.length := rfl

/-- Where tokens stop, if they are read from the offset `k` on. -/
def Token.stopOf (k : Nat) (ts : List Token) : Nat := (ts.getLast?.map (·.span.stop)).getD k

@[simp]
theorem Token.stopOf_nil (k : Nat) : stopOf k [] = k := rfl

@[simp]
theorem Token.stopOf_cons (k : Nat) (t : Token) (ts : List Token) :
    stopOf k (t :: ts) = stopOf t.span.stop ts := by
  cases h : ts.getLast? <;> simp [stopOf, List.getLast?_cons, h]

namespace Lexer

/-- The characters that may stand between tokens. -/
def blanks : List Char := [' ', '\t', '\n', '\x0c']

theorem isSkipped_eq : isSkipped = fun c => decide (c ∈ blanks) := by
  funext c
  simp [isSkipped, blanks, Bool.or_assoc]

/-- What is left of a source text after tokens and the blanks that follow them. -/
def remaining (source : String) (ts : List Token) : List Char :=
  (source.toList.drop (Token.stopOf 0 ts)).dropWhile (· ∈ blanks)

/-! ## Between two steps -/

/-- A lexer that has come to the offset `k` of the text `cs`. -/
structure At (cs : List Char) (k : Nat) (lexer : Lexer) : Prop where
  /-- The offset is one of the text. -/
  le : k ≤ cs.length
  /-- The lexer holds what follows. -/
  rest : lexer.rest = cs.drop k
  /-- It knows the place of the offset. -/
  place : lexer.place = Place.origin.advance (cs.take k)

theorem at_ofSource (source : String) : At source.toList 0 (ofSource source) :=
  ⟨Nat.zero_le _, rfl, rfl⟩

/-- The offset after the blanks that start at an offset. -/
def skip (cs : List Char) (k : Nat) : Nat := k + ((cs.drop k).takeWhile isSkipped).length

variable {cs : List Char} {k : Nat}

theorem le_skip (cs : List Char) (k : Nat) : k ≤ skip cs k := Nat.le_add_right k _

theorem skip_le (h : k ≤ cs.length) : skip cs k ≤ cs.length := by
  have hle := (List.takeWhile_prefix isSkipped (l := cs.drop k)).length_le
  rw [List.length_drop] at hle
  rw [skip]
  omega

theorem drop_skip (cs : List Char) (k : Nat) :
    cs.drop (skip cs k) = (cs.drop k).dropWhile isSkipped := by
  have hdrop : ∀ {as bs ds : List Char}, as ++ bs = ds → ds.drop as.length = bs := by
    rintro as bs _ rfl
    exact List.drop_left
  rw [skip, ← List.drop_drop]
  exact hdrop List.takeWhile_append_dropWhile

theorem extract_skip (cs : List Char) (k : Nat) :
    cs.extract k (skip cs k) = (cs.drop k).takeWhile isSkipped := by
  rw [List.extract_eq_take_drop, skip, Nat.add_sub_cancel_left]
  exact (List.prefix_iff_eq_take.1 (List.takeWhile_prefix isSkipped)).symm

theorem take_skip (cs : List Char) (k : Nat) :
    cs.take (skip cs k) = cs.take k ++ (cs.drop k).takeWhile isSkipped := by
  rw [← extract_skip, List.extract_eq_take_drop, skip, Nat.add_sub_cancel_left, List.take_add]

/-- Nothing but blanks is skipped. -/
theorem mem_blanks_of_mem_extract_skip {c : Char} (h : c ∈ cs.extract k (skip cs k)) :
    c ∈ blanks := by
  rw [extract_skip, isSkipped_eq] at h
  simpa using List.mem_takeWhile_imp h

theorem remaining_eq_drop (source : String) (ts : List Token) :
    remaining source ts = source.toList.drop (skip source.toList (Token.stopOf 0 ts)) := by
  rw [drop_skip, remaining, isSkipped_eq]

theorem length_sub_remaining {source : String} {ts : List Token}
    (h : Token.stopOf 0 ts ≤ source.toList.length) :
    source.length - (remaining source ts).length =
      skip source.toList (Token.stopOf 0 ts) := by
  have hle := skip_le h
  rw [remaining_eq_drop, List.length_drop, ← String.length_toList]
  omega

/-- A step takes the longest word after the blanks. -/
theorem At.takes {lexer : Lexer} (h : At cs k lexer) :
    Takes (cs.drop (skip cs k)) (Place.origin.advance (cs.take (skip cs k))) lexer.next := by
  have htakes := takes_next lexer
  rwa [h.rest, h.place, ← Place.advance_append, ← take_skip, ← drop_skip] at htakes

/-- What a step with a token gives. -/
theorem At.of_token {lexer left : Lexer} {t : Token} (h : At cs k lexer)
    (hnext : lexer.next = (.token t, left)) :
    (∃ T : Terminal, LongestAt (cs.drop (skip cs k)) T t.text.toList ∧ T.Tags t.text t.kind) ∧
      t.place = Place.origin.advance (cs.take (skip cs k)) ∧
      At cs t.span.stop left := by
  have htakes := h.takes
  rw [hnext] at htakes
  cases htakes with
  | @token T word rest kind hlongest htags hcs =>
    -- The word lies within the text, so that the lexer is at the offset after it.
    have hlength := congrArg List.length hcs
    have hle := skip_le h.le
    rw [List.length_drop, List.length_append] at hlength
    have hstop : (Place.origin.advance (cs.take (skip cs k))).offset +
        (String.ofList word).length = skip cs k + word.length := by
      rw [Place.offset_origin_advance, List.length_take_of_le hle, String.length_ofList]
    refine ⟨⟨T, by rwa [String.toList_ofList], htags⟩, rfl, ?_⟩
    show At cs (_ + _) _
    rw [hstop]
    refine ⟨by omega, ?_, ?_⟩
    · rw [← List.drop_drop, hcs, List.drop_left]
    · rw [List.take_add, hcs, List.take_left, Place.advance_append]

/-! ## All steps -/

/-- A fact about the tokens of a lexer follows from one about each of its steps. -/
theorem run_induction {P : Lexer → Prop}
    (done : ∀ lexer left, lexer.next = (.done, left) → P lexer)
    (failure : ∀ lexer e left, lexer.next = (.failure e, left) → P lexer)
    (token : ∀ lexer t left, lexer.next = (.token t, left) → P left → P lexer)
    (lexer : Lexer) : P lexer :=
  match h : lexer.next with
  | (.done, left) => done lexer left h
  | (.failure e, left) => failure lexer e left h
  | (.token t, left) => token lexer t left h (run_induction done failure token left)
termination_by lexer.rest.length
decreasing_by exact next_rest_length_lt h

/-- Every token of a run is the token of a step at the offset where the tokens before it stop. -/
theorem At.exists_step {lexer : Lexer} (h : At cs k lexer) {before after : List Token} {t : Token}
    (hts : lexer.tokens.1 = before ++ t :: after) :
    ∃ m left, At cs (Token.stopOf k before) m ∧ m.next = (.token t, left) := by
  induction lexer using run_induction generalizing k before with
  | done lexer left hnext => simp [tokens_of_done hnext] at hts
  | failure lexer e left hnext => simp [tokens_of_failure hnext] at hts
  | token lexer u left hnext ih =>
    rw [tokens_of_token hnext] at hts
    cases before with
    | nil =>
      obtain ⟨rfl, -⟩ := List.cons.inj hts
      exact ⟨lexer, left, h, hnext⟩
    | cons first before =>
      obtain ⟨rfl, hrest⟩ := List.cons.inj hts
      rw [Token.stopOf_cons]
      exact ih (h.of_token hnext).2.2 hrest

/-- A run ends with a step at the offset where its last token stops. -/
theorem At.exists_last {lexer : Lexer} (h : At cs k lexer) :
    ∃ m, At cs (Token.stopOf k lexer.tokens.1) m ∧ (lexer.tokens.2 = none ↔ m.next.1 = .done) ∧
      ∀ e, lexer.tokens.2 = some e ↔ m.next.1 = .failure e := by
  induction lexer using run_induction generalizing k with
  | done lexer left hnext =>
    rw [tokens_of_done hnext]
    exact ⟨lexer, h, by simp [hnext], by simp [hnext]⟩
  | failure lexer e left hnext =>
    rw [tokens_of_failure hnext]
    exact ⟨lexer, h, by simp [hnext], by simp [hnext]⟩
  | token lexer t left hnext ih =>
    rw [tokens_of_token hnext, Token.stopOf_cons]
    exact ih (h.of_token hnext).2.2

/-- The tokens of a run follow each other. -/
theorem At.pairwise {lexer : Lexer} (h : At cs k lexer) :
    (∀ t ∈ lexer.tokens.1, k ≤ t.span.start) ∧
      lexer.tokens.1.Pairwise fun t u => t.span.stop ≤ u.span.start := by
  induction lexer using run_induction generalizing k with
  | done lexer left hnext => simp [tokens_of_done hnext]
  | failure lexer e left hnext => simp [tokens_of_failure hnext]
  | token lexer t left hnext ih =>
    obtain ⟨-, hplace, hleft⟩ := h.of_token hnext
    obtain ⟨hafter, hpairwise⟩ := ih hleft
    have hstart : k ≤ t.span.start := by
      rw [Token.span, hplace, Place.offset_origin_advance, List.length_take_of_le (skip_le h.le)]
      exact le_skip cs k
    rw [tokens_of_token hnext]
    refine ⟨fun u hu => ?_, List.pairwise_cons.2 ⟨hafter, hpairwise⟩⟩
    rcases List.mem_cons.1 hu with rfl | hu
    · exact hstart
    · have hstop : t.span.start ≤ t.span.stop := Nat.le_add_right _ _
      exact hstart.trans (hstop.trans (hafter u hu))

/-! ## The tokens of a source text -/

/-- Where the tokens of a text end: at its failure, or else at its end. -/
def limit (source : String) (failure : Option LexError) : Nat :=
  (failure.map (·.span.start)).getD source.toList.length

/-- A source ends, or fails, after the blanks that follow its last token. -/
theorem limit_eq_skip (source : String) :
    limit source (ofSource source).tokens.2 =
      skip source.toList (Token.stopOf 0 (ofSource source).tokens.1) := by
  obtain ⟨m, hm, hnone, hsome⟩ := (at_ofSource source).exists_last
  have hle := skip_le hm.le
  cases hfailure : (ofSource source).tokens.2 with
  | none =>
    -- Without a failure nothing is left after the blanks.
    have hrest := hm.takes.eq_done_iff.1 (hnone.1 hfailure)
    exact Nat.le_antisymm (List.drop_eq_nil_iff.1 hrest) hle
  | some e =>
    have hplace := hm.takes.place_eq ((hsome e).1 hfailure)
    have hstart : e.span.start = e.place.offset := by cases e <;> rfl
    rw [limit, Option.map_some, Option.getD_some, hstart, hplace,
      Place.offset_origin_advance, List.length_take_of_le hle]

/-- The tokens `ts`, blanks, and the given failure, if any, make up a source. -/
structure Tiles (source : String) (ts : List Token) (failure : Option LexError) : Prop where
  /-- Tokens do not overlap. -/
  ordered : ts.Pairwise fun t u => t.span.stop ≤ u.span.start
  /-- Tokens are not empty. -/
  nonempty : ∀ t ∈ ts, t.span.start < t.span.stop
  /-- Each token is the part of the source that it covers. -/
  text : ∀ t ∈ ts, t.span.stop ≤ source.toList.length ∧
    t.text.toList = source.toList.extract t.span.start t.span.stop
  /-- The line and the column of a token are those of its first character. -/
  place : ∀ t ∈ ts, t.place.line = Place.lineAfter (source.toList.take t.span.start) ∧
    t.place.column = Place.columnAfter (source.toList.take t.span.start)
  /-- There is nothing but blanks between a token and those before it. -/
  between : ∀ before t after, ts = before ++ t :: after →
    Token.stopOf 0 before ≤ t.span.start ∧
      ∀ c ∈ source.toList.extract (Token.stopOf 0 before) t.span.start, c ∈ blanks
  /-- There is nothing but blanks after the last token. -/
  last : Token.stopOf 0 ts ≤ limit source failure ∧ limit source failure ≤ source.toList.length ∧
    ∀ c ∈ source.toList.extract (Token.stopOf 0 ts) (limit source failure), c ∈ blanks
  /-- The message of a failure tells its line and its column. -/
  message : ∀ e, failure = some e → ∃ what : String, e.message =
    s!"{what} at {Place.lineAfter (source.toList.take (limit source failure))}:" ++
      s!"{Place.columnAfter (source.toList.take (limit source failure))}"

/-- Where a token of a source is, and what the source has there. -/
theorem exists_of_split {source : String} {before after : List Token} {t : Token}
    (hts : (ofSource source).tokens.1 = before ++ t :: after) :
    t.place = ⟨skip source.toList (Token.stopOf 0 before),
      Place.lineAfter (source.toList.take (skip source.toList (Token.stopOf 0 before))),
      Place.columnAfter (source.toList.take (skip source.toList (Token.stopOf 0 before)))⟩ ∧
    (∃ c rest, t.text.toList = c :: rest) ∧
    t.text.toList <+: source.toList.drop (skip source.toList (Token.stopOf 0 before)) ∧
    t.span.stop ≤ source.toList.length := by
  obtain ⟨m, left, hm, hnext⟩ := (at_ofSource source).exists_step hts
  obtain ⟨⟨T, hlongest, -⟩, hplace, hleft⟩ := hm.of_token hnext
  obtain ⟨c, rest, hcons, -⟩ := Terminal.exists_cons_of_mem hlongest.mem
  rw [Place.origin_advance, List.length_take_of_le (skip_le hm.le)] at hplace
  exact ⟨hplace, ⟨c, rest, hcons⟩, hlongest.starts, hleft.le⟩

/-- No character of a source is lost, taken twice or said to be in another place. -/
theorem tokens_tile (source : String) :
    Tiles source (ofSource source).tokens.1 (ofSource source).tokens.2 := by
  obtain ⟨m, hm, -, hsome⟩ := (at_ofSource source).exists_last
  have hlimit := limit_eq_skip source
  refine ⟨(at_ofSource source).pairwise.2, ?_, ?_, ?_, ?_, ?_, ?_⟩
  · intro t ht
    obtain ⟨before, after, hts⟩ := List.append_of_mem ht
    obtain ⟨-, ⟨c, rest, hcons⟩, -, -⟩ := exists_of_split hts
    rw [Token.span_stop, hcons, List.length_cons]
    omega
  · intro t ht
    obtain ⟨before, after, hts⟩ := List.append_of_mem ht
    obtain ⟨hplace, -, hword, hle⟩ := exists_of_split hts
    refine ⟨hle, ?_⟩
    rw [List.extract_eq_take_drop, Token.span_stop, Nat.add_sub_cancel_left, Token.span, hplace]
    exact List.prefix_iff_eq_take.1 hword
  · intro t ht
    obtain ⟨before, after, hts⟩ := List.append_of_mem ht
    obtain ⟨hplace, -, -, -⟩ := exists_of_split hts
    rw [Token.span, hplace]
    exact ⟨rfl, rfl⟩
  · intro before t after hts
    obtain ⟨hplace, -, -, -⟩ := exists_of_split hts
    rw [Token.span, hplace]
    exact ⟨le_skip _ _, fun c hc => mem_blanks_of_mem_extract_skip hc⟩
  · rw [hlimit]
    exact ⟨le_skip _ _, skip_le hm.le, fun c hc => mem_blanks_of_mem_extract_skip hc⟩
  · intro e he
    have hplace := hm.takes.place_eq ((hsome e).1 he)
    rw [Place.origin_advance] at hplace
    obtain ⟨what, hmessage⟩ := e.exists_message_eq
    refine ⟨what, ?_⟩
    rw [hmessage, hplace, hlimit]

end Lexer

end LetCalc
