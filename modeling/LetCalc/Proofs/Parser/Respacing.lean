import LetCalc.Proofs.Node.Source

/-!
# Blanks do not matter

A source text can be written anew with the same words and other blanks between them. It then has the
same tokens in other places, and the parser builds the same program of them or refuses them for the
same reason.

The parser is followed on both texts at once. `Reading.Alike` says that two computations, used where
the same words are ahead, either both succeed, with results that are related, and again have the
same words ahead, or both fail with errors that differ in places only.

* `Token.AreWords.spells_joined`: words with blanks between them are read back.
* `Reading.alike_program` and the lemmas before it: every rule is alike on both texts.
* `parse_respaced`: both together, for `Program.parse`.
-/

namespace LetCalc

/-- A token without its place. -/
def Token.unplaced (t : Token) : Token := .ofWord t.kind t.text

theorem Token.unplaced_eq {t u : Token} (hkind : t.kind = u.kind) (htext : t.text = u.text) :
    t.unplaced = u.unplaced := by
  rw [unplaced, unplaced, hkind, htext]

/-- An error about tokens without the places in it. What is left is the kind of the error and all
that its message mentions. An error of the lexer stays as it is. -/
def ParseError.unplaced : ParseError → ParseError
  | .lexer e => .lexer e
  | .unexpectedEnd _ => .unexpectedEnd ⟨0, 0⟩
  | .operandMissing _ => .operandMissing ⟨0, 0⟩
  | .keywordOperand t => .keywordOperand t.unplaced
  | .unexpectedToken t => .unexpectedToken t.unplaced
  | .nameMissing keyword _ => .nameMissing keyword ⟨0, 0⟩
  | .valueMissing name _ => .valueMissing name ⟨0, 0⟩
  | .equalsMissing name _ => .equalsMissing name ⟨0, 0⟩
  | .semicolonMissing name _ => .semicolonMissing name ⟨0, 0⟩

/-! ## Words with other blanks -/

theorem Token.AreWords.spells_joined {ts : List Token} (h : AreWords ts) {joined : String}
    (hjoined : Joined (ts.map Token.text) joined) :
    Lexer.Spells joined.toList (ts.map Token.word) := by
  induction ts generalizing joined with
  | nil =>
    cases hjoined
    exact .nil rfl
  | cons t ts ih =>
    obtain ⟨hword, hts⟩ := areWords_cons.1 h
    cases ts with
    | nil =>
      cases hjoined
      exact hword.spells
    | cons u ts =>
      cases hjoined with
      | cons hne hblank hrest =>
        rw [String.toList_append, String.toList_append]
        refine hword.spells.append (ih hts hrest) ?_ fun c hc => ?_
        · exact fun hnil => hne (String.toList_injective hnil)
        · exact Lexer.isSkipped_of_mem_blanks (hblank c hc)

/-- Blanks around a text do not matter. -/
theorem Lexer.Spells.pad {cs before after : List Char} {words : List (Token.Kind × String)}
    (h : Spells cs words) (hbefore : ∀ c ∈ before, c ∈ blanks) (hafter : ∀ c ∈ after, c ∈ blanks) :
    Spells (before ++ cs ++ after) words := by
  have hskip : Spells (before ++ cs) words := by
    apply h.of_dropWhile_eq
    exact List.dropWhile_append_of_pos fun c hc => isSkipped_of_mem_blanks (hbefore c hc)
  cases after with
  | nil => rwa [List.append_nil]
  | cons b blanks =>
    -- What follows the blanks is a text without words.
    have hend : Spells [] [] := .nil rfl
    have happend := hskip.append hend (List.cons_ne_nil b blanks) fun c hc =>
      isSkipped_of_mem_blanks (hafter c hc)
    rwa [List.append_nil, List.append_nil] at happend

/-! ## Cursors with the same words ahead -/

namespace Cursor

/-- Two cursors, perhaps in different sources, have the same words ahead, up to the ends of the
sources. -/
structure SameWords (c d : Cursor) : Prop where
  words_eq : c.upcoming.map Token.word = d.upcoming.map Token.word
  failure_left : c.failure = none
  failure_right : d.failure = none

namespace SameWords

variable {c d : Cursor}

theorem ne_failed (h : SameWords c d) (e : LexError) : c.ahead ≠ .failed e := by
  intro hc
  have hfailure := failure_of_failed hc
  rw [h.failure_left] at hfailure
  exact nomatch hfailure

theorem of_finished (h : SameWords c d) (hc : c.ahead = .finished) : d.ahead = .finished := by
  have hwords := h.words_eq
  rw [upcoming_of_finished hc, List.map_nil, eq_comm, List.map_eq_nil_iff] at hwords
  exact ahead_eq_finished_iff.2 ⟨hwords, h.failure_right⟩

/-- The tokens ahead are of one kind and text, and after them the words are the same again. -/
theorem of_token (h : SameWords c d) {t : Token} (hc : c.ahead = .token t) :
    ∃ u, d.ahead = .token u ∧ t.kind = u.kind ∧ t.text = u.text ∧ SameWords c.next d.next := by
  have hwords := h.words_eq
  rw [upcoming_of_token hc, List.map_cons] at hwords
  obtain ⟨u, us, hus, hword, hrest⟩ := List.map_eq_cons_iff.1 hwords.symm
  have hd : d.ahead = .token u := ahead_eq_token_iff.2 (by rw [hus]; rfl)
  obtain ⟨hkind, htext⟩ := Prod.mk.inj hword
  refine ⟨u, hd, hkind.symm, htext.symm, ?_, ?_, ?_⟩
  · obtain ⟨-, rfl⟩ := List.cons.inj ((upcoming_of_token hd).symm.trans hus)
    exact hrest.symm
  · rw [← failure_of_token hc, h.failure_left]
  · rw [← failure_of_token hd, h.failure_right]

end SameWords

end Cursor

/-! ## Computations that do not depend on places -/

namespace Reading

variable {α β : Type}

/-- Two results are both successes, related and with the same words ahead, or they are both errors,
the same except for places. -/
inductive Agrees (R : α → α → Prop) :
    Except ParseError α × Cursor → Except ParseError α × Cursor → Prop
  | ok {a b : α} {c d : Cursor} : R a b → c.SameWords d → Agrees R (.ok a, c) (.ok b, d)
  | error {e f : ParseError} {c d : Cursor} :
      e.unplaced = f.unplaced → Agrees R (.error e, c) (.error f, d)

/-- With the same words ahead, two computations have results that agree. -/
def Alike (R : α → α → Prop) (r s : Reading α) : Prop :=
  ∀ c d, c.SameWords d → Agrees R (r c) (s d)

variable {R : α → α → Prop} {S : β → β → Prop}

/-- A success on one side is one on the other. -/
theorem Agrees.of_eq_ok {result result' : Except ParseError α × Cursor}
    (h : Agrees R result result') {a : α} {c : Cursor} (hresult : result = (.ok a, c)) :
    ∃ b d, result' = (.ok b, d) ∧ R a b ∧ c.SameWords d := by
  subst hresult
  cases h with
  | ok hab hcd => exact ⟨_, _, rfl, hab, hcd⟩

/-- So is a failure. -/
theorem Agrees.of_eq_error {result result' : Except ParseError α × Cursor}
    (h : Agrees R result result') {e : ParseError} {c : Cursor} (hresult : result = (.error e, c)) :
    ∃ f d, result' = (.error f, d) ∧ e.unplaced = f.unplaced := by
  subst hresult
  cases h with
  | error hef => exact ⟨_, _, rfl, hef⟩

theorem alike_pure {a b : α} (h : R a b) : Alike R (pure a) (pure b) := fun _ _ hcd => .ok h hcd

theorem alike_fail {error error' : Span → ParseError}
    (h : ∀ s s', (error s).unplaced = (error' s').unplaced) :
    Alike R (fail error) (fail error') := fun _ _ _ => .error (h _ _)

theorem Alike.bind {r s : Reading α} {f g : α → Reading β} (h : Alike R r s)
    (hfg : ∀ a b, R a b → Alike S (f a) (g b)) : Alike S (r >>= f) (s >>= g) := by
  intro c d hcd
  rw [bind_apply, bind_apply]
  rcases hr : r c with ⟨e | a, c'⟩
  · obtain ⟨e', d', hs, he⟩ := (h _ _ hcd).of_eq_error hr
    rw [hs]
    exact .error he
  · obtain ⟨b, d', hs, hab, hcd'⟩ := (h _ _ hcd).of_eq_ok hr
    rw [hs]
    exact hfg a b hab c' d' hcd'

/-- What follows equal results need only be compared for one of them. -/
theorem Alike.bind_same {r s : Reading α} {f g : α → Reading β} (h : Alike Eq r s)
    (hfg : ∀ a, Alike S (f a) (g a)) : Alike S (r >>= f) (s >>= g) := by
  refine h.bind fun a b hab => ?_
  subst hab
  exact hfg a

/-- The tokens that are taken are the same except for their places. -/
theorem alike_advance_bind {f g : Token → Reading α}
    (h : ∀ t u : Token, t.kind = u.kind → t.text = u.text → Alike R (f t) (g u)) :
    Alike R (advance >>= f) (advance >>= g) := by
  have hadvance : Alike (fun t u : Token => t.kind = u.kind ∧ t.text = u.text) advance advance := by
    intro c d hcd
    unfold advance
    cases hc : c.ahead with
    | token t =>
      obtain ⟨u, hd, hkind, htext, hnext⟩ := hcd.of_token hc
      rw [hd]
      exact .ok ⟨hkind, htext⟩ hnext
    | failed e => exact absurd hc (hcd.ne_failed e)
    | finished =>
      rw [hcd.of_finished hc]
      exact .error rfl
  exact hadvance.bind fun t u htu => h t u htu.1 htu.2

/-- A look at the kind of the token ahead gives the same answer on both sides. -/
theorem alike_ite_sees {kinds : Token.Kind → Bool} {r r' s s' : Reading α} (hr : Alike R r r')
    (hs : Alike R s s') :
    Alike R (do if ← sees kinds then r else s) (do if ← sees kinds then r' else s') := by
  have hsees : Alike Eq (sees kinds) (sees kinds) := by
    intro c d hcd
    unfold sees
    cases hc : c.ahead with
    | token t =>
      obtain ⟨u, hd, hkind, -, -⟩ := hcd.of_token hc
      rw [hd]
      exact .ok (congrArg kinds hkind) hcd
    | failed e => exact absurd hc (hcd.ne_failed e)
    | finished =>
      rw [hcd.of_finished hc]
      exact .ok rfl hcd
  refine hsees.bind_same fun b => ?_
  cases b with
  | true => exact hr
  | false => exact hs

/-! ## The rules

The rules that call themselves are followed by the recursion on the first text, and the second text
takes the same case each time. Keeping the words ahead in the result is what makes the statements
inductive: the hypothesis is applied where the call before it stopped. -/

theorem alike_primary : Alike Eq primary primary := by
  intro c d hcd
  unfold primary
  cases hc : c.ahead with
  | failed e => exact absurd hc (hcd.ne_failed e)
  | finished =>
    rw [hcd.of_finished hc]
    exact .error rfl
  | token t =>
    obtain ⟨u, hd, hkind, htext, hnext⟩ := hcd.of_token hc
    have htoken := Token.unplaced_eq hkind htext
    rw [hd]
    dsimp only
    rw [hkind, htext]
    split
    · exact .ok rfl hnext
    · exact .ok rfl hnext
    · exact .error (congrArg ParseError.keywordOperand htoken)
    · exact .error (congrArg ParseError.keywordOperand htoken)
    · exact .error (congrArg ParseError.unexpectedToken htoken)

theorem alike_chain {operator? : Token.Kind → Option Operator} {operand : Reading Node}
    (hoperand : Alike Eq operand operand) (shrinks : operand.Shrinks) (left : Node) :
    Alike Eq (chain operator? operand shrinks left) (chain operator? operand shrinks left) := by
  intro c d hcd
  induction left, c using chain_induction operator? shrinks generalizing d with
  | failed left c e hc => exact absurd hc (hcd.ne_failed e)
  | finished left c hc =>
    rw [chain_of_finished hc, chain_of_finished (hcd.of_finished hc)]
    exact .ok rfl hcd
  | other left c t hc hop =>
    obtain ⟨u, hd, hkind, -, -⟩ := hcd.of_token hc
    rw [chain_of_other hc hop, chain_of_other hd (hkind ▸ hop)]
    exact .ok rfl hcd
  | refused left c t hc op hop e c' hr =>
    obtain ⟨u, hd, hkind, -, hnext⟩ := hcd.of_token hc
    obtain ⟨e', d', hr', he⟩ := (hoperand _ _ hnext).of_eq_error hr
    rw [chain_of_refused hc hop hr, chain_of_refused hd (hkind ▸ hop) hr']
    exact .error he
  | operation left c t hc op hop right c' hr ih =>
    obtain ⟨u, hd, hkind, -, hnext⟩ := hcd.of_token hc
    obtain ⟨right', d', hr', rfl, hcd'⟩ := (hoperand _ _ hnext).of_eq_ok hr
    rw [chain_of_operation hc hop hr, chain_of_operation hd (hkind ▸ hop) hr']
    exact ih d' hcd'

theorem alike_multiplicative : Alike Eq multiplicative multiplicative :=
  alike_primary.bind_same fun first => alike_chain alike_primary _ first

theorem alike_additive : Alike Eq additive additive :=
  alike_multiplicative.bind_same fun first => alike_chain alike_multiplicative _ first

theorem alike_assignment : Alike Eq assignment assignment := by
  intro c d hcd
  induction c using assignment_induction generalizing d with
  | refused c e c' hl =>
    obtain ⟨e', d', hl', he⟩ := (alike_additive _ _ hcd).of_eq_error hl
    rw [assignment_of_refused hl, assignment_of_refused hl']
    exact .error he
  | failed c left c' hl e hc =>
    obtain ⟨left', d', hl', rfl, hcd'⟩ := (alike_additive _ _ hcd).of_eq_ok hl
    exact absurd hc (hcd'.ne_failed e)
  | finished c left c' hl hc =>
    obtain ⟨left', d', hl', rfl, hcd'⟩ := (alike_additive _ _ hcd).of_eq_ok hl
    rw [assignment_of_finished hl hc, assignment_of_finished hl' (hcd'.of_finished hc)]
    exact .ok rfl hcd'
  | valueRefused c left c' hl t hc hequals e c'' hv ih =>
    obtain ⟨left', d', hl', rfl, hcd'⟩ := (alike_additive _ _ hcd).of_eq_ok hl
    obtain ⟨u, hd, hkind, -, hnext⟩ := hcd'.of_token hc
    obtain ⟨e', d'', hv', he⟩ := (ih d'.next hnext).of_eq_error hv
    rw [assignment_of_valueRefused hl hc hequals hv,
      assignment_of_valueRefused hl' hd (hkind ▸ hequals) hv']
    exact .error he
  | assigned c left c' hl t hc hequals value c'' hv ih =>
    obtain ⟨left', d', hl', rfl, hcd'⟩ := (alike_additive _ _ hcd).of_eq_ok hl
    obtain ⟨u, hd, hkind, -, hnext⟩ := hcd'.of_token hc
    obtain ⟨value', d'', hv', rfl, hcd''⟩ := (ih d'.next hnext).of_eq_ok hv
    rw [assignment_of_assigned hl hc hequals hv,
      assignment_of_assigned hl' hd (hkind ▸ hequals) hv']
    exact .ok rfl hcd''
  | other c left c' hl t hc hequals =>
    obtain ⟨left', d', hl', rfl, hcd'⟩ := (alike_additive _ _ hcd).of_eq_ok hl
    obtain ⟨u, hd, hkind, -, -⟩ := hcd'.of_token hc
    rw [assignment_of_other hl hc hequals, assignment_of_other hl' hd (hkind ▸ hequals)]
    exact .ok rfl hcd'

theorem alike_declaration : Alike Eq declaration declaration := by
  refine alike_advance_bind fun keyword keyword' hkeyword hword => ?_
  -- The kind of the keyword decides, and its text and that of the name are mentioned.
  rw [hkeyword, hword]
  refine alike_ite_sees ?_ (alike_fail fun _ _ => rfl)
  refine alike_advance_bind fun name name' _ hname => ?_
  rw [hname]
  refine alike_ite_sees ?_ (alike_ite_sees ?_ (alike_fail fun _ _ => rfl))
  · split
    · exact alike_fail fun _ _ => rfl
    · exact alike_advance_bind fun _ _ _ _ => alike_pure rfl
  · refine alike_advance_bind fun _ _ _ _ => alike_assignment.bind_same fun value => ?_
    exact alike_ite_sees (alike_advance_bind fun _ _ _ _ => alike_pure rfl)
      (alike_fail fun _ _ => rfl)

theorem alike_statement : Alike Eq statement statement := by
  refine alike_ite_sees alike_declaration (alike_assignment.bind_same fun node => ?_)
  exact alike_ite_sees (alike_advance_bind fun _ _ _ _ => alike_pure rfl) (alike_pure rfl)

theorem alike_program : Alike Eq program program := by
  intro c d hcd
  induction c using program_induction generalizing d with
  | failed c e hc => exact absurd hc (hcd.ne_failed e)
  | finished c hc =>
    rw [program_of_finished hc, program_of_finished (hcd.of_finished hc)]
    exact .ok rfl hcd
  | refused c t hc e c' hs =>
    obtain ⟨u, hd, -⟩ := hcd.of_token hc
    obtain ⟨e', d', hs', he⟩ := (alike_statement _ _ hcd).of_eq_error hs
    rw [program_of_refused hc hs, program_of_refused hd hs']
    exact .error he
  | restRefused c t hc node c' hs e c'' hrest ih =>
    obtain ⟨u, hd, -⟩ := hcd.of_token hc
    obtain ⟨node', d', hs', rfl, hcd'⟩ := (alike_statement _ _ hcd).of_eq_ok hs
    obtain ⟨e', d'', hrest', he⟩ := (ih d' hcd').of_eq_error hrest
    rw [program_of_restRefused hc hs hrest, program_of_restRefused hd hs' hrest']
    exact .error he
  | more c t hc node c' hs rest c'' hrest ih =>
    obtain ⟨u, hd, -⟩ := hcd.of_token hc
    obtain ⟨node', d', hs', rfl, hcd'⟩ := (alike_statement _ _ hcd).of_eq_ok hs
    obtain ⟨rest', d'', hrest', rfl, hcd''⟩ := (ih d' hcd').of_eq_ok hrest
    rw [program_of_more hc hs hrest, program_of_more hd hs' hrest']
    exact .ok rfl hcd''

end Reading

/-! ## Both texts -/

theorem Cursor.sameWords_ofSource {source other : String} {ts us : List Token}
    (hts : Lexer.tokenize source = .ok ts) (hus : Lexer.tokenize other = .ok us)
    (hwords : ts.map Token.word = us.map Token.word) :
    SameWords (ofSource source) (ofSource other) := by
  rw [Lexer.tokenize_eq_ok_iff] at hts hus
  refine ⟨?_, ?_, ?_⟩
  · rw [upcoming_ofSource, upcoming_ofSource, hts, hus]
    exact hwords
  · rw [failure_ofSource, hts]
  · rw [failure_ofSource, hus]

/-- Texts with the same words are the same program, or are refused for the same reason. -/
theorem Program.parse_congr {source other : String} {ts us : List Token}
    (hts : Lexer.tokenize source = .ok ts) (hus : Lexer.tokenize other = .ok us)
    (hwords : ts.map Token.word = us.map Token.word) :
    (parse source).mapError ParseError.unplaced = (parse other).mapError ParseError.unplaced := by
  have hagrees := Reading.alike_program _ _ (Cursor.sameWords_ofSource hts hus hwords)
  unfold parse
  generalize Reading.program (.ofSource source) = result at hagrees
  generalize Reading.program (.ofSource other) = result' at hagrees
  cases hagrees with
  | ok hprogram _ => rw [hprogram]
  | error he => exact congrArg Except.error he

/-- The words of a source text can be written with any blanks between them, before the first and
after the last. The new text has the same words, and it is the same program or is refused for the
same reason. -/
theorem parse_respaced {source joined before after : String} {ts : List Token}
    (htokens : Lexer.tokenize source = .ok ts) (hjoined : Joined (ts.map Token.text) joined)
    (hbefore : ∀ c ∈ before.toList, c ∈ Lexer.blanks)
    (hafter : ∀ c ∈ after.toList, c ∈ Lexer.blanks) :
    ∃ us, Lexer.tokenize (before ++ joined ++ after) = .ok us ∧
      us.map Token.word = ts.map Token.word ∧
      (Program.parse (before ++ joined ++ after)).mapError ParseError.unplaced =
        (Program.parse source).mapError ParseError.unplaced := by
  have hareWords : Token.AreWords ts := by
    intro t ht
    have hmem : t ∈ (Lexer.ofSource source).tokens.1 := by rwa [Lexer.tokenize_eq_ok_iff.1 htokens]
    exact Lexer.isWord_of_mem_tokens hmem
  have hspells : Lexer.Spells (before ++ joined ++ after).toList (ts.map Token.word) := by
    rw [String.toList_append, String.toList_append]
    exact (hareWords.spells_joined hjoined).pad hbefore hafter
  obtain ⟨us, hus, hwords⟩ := Lexer.exists_tokens_of_spells hspells .origin
  have htokenize : Lexer.tokenize (before ++ joined ++ after) = .ok us :=
    Lexer.tokenize_eq_ok_iff.2 hus
  exact ⟨us, htokenize, hwords, Program.parse_congr htokenize htokens hwords⟩

/-- A numeral where a name has to be, next to a name without a blank between them. -/
theorem parse_respaced_refused :
    ∃ ts us, Lexer.tokenize "let 2x=1" = .ok ts ∧
      Joined (ts.map Token.text) "let\t2 \nx\x0c= 1" ∧
      Lexer.tokenize "\nlet\t2 \nx\x0c= 1 \t" = .ok us ∧
      us.map Token.word = ts.map Token.word ∧
      (Program.parse "\nlet\t2 \nx\x0c= 1 \t").mapError ParseError.unplaced =
        .error (.nameMissing "let" ⟨0, 0⟩) := by
  obtain ⟨ts, hts, htexts⟩ : ∃ ts, Lexer.tokenize "let 2x=1" = .ok ts ∧
      ts.map Token.text = ["let", "2", "x", "=", "1"] := by
    have htokens : (Lexer.tokenize "let 2x=1").toOption.map (·.map Token.text) =
        some ["let", "2", "x", "=", "1"] := by decide +kernel
    cases h : Lexer.tokenize "let 2x=1" with
    | error e => simp [h, Except.toOption] at htokens
    | ok ts => exact ⟨ts, rfl, by simpa [h, Except.toOption] using htokens⟩
  have hjoined : Joined (ts.map Token.text)
      ("let" ++ "\t" ++ ("2" ++ " \n" ++ ("x" ++ "\x0c" ++ ("=" ++ " " ++ "1")))) := by
    rw [htexts]
    refine .cons (by decide) (by simp [Lexer.blanks]) (.cons (by decide) (by simp [Lexer.blanks])
      (.cons (by decide) (by simp [Lexer.blanks]) (.cons (by decide) (by simp [Lexer.blanks])
        (.single _))))
  have hrefused : (Program.parse "let 2x=1").mapError ParseError.unplaced =
      .error (.nameMissing "let" ⟨0, 0⟩) := by
    -- Equality of programs is not decidable here, so that a program is dropped before comparing.
    have herror : ((Program.parse "let 2x=1").map fun _ => ()).mapError ParseError.unplaced =
        .error (.nameMissing "let" ⟨0, 0⟩) := by decide +kernel
    cases h : Program.parse "let 2x=1" with
    | ok program => simp [h, Except.map, Except.mapError] at herror
    | error e =>
      rw [h] at herror
      exact congrArg Except.error (Except.error.inj herror)
  have hbefore : ∀ c ∈ "\n".toList, c ∈ Lexer.blanks := by simp [Lexer.blanks]
  have hafter : ∀ c ∈ " \t".toList, c ∈ Lexer.blanks := by simp [Lexer.blanks]
  obtain ⟨us, hus, hwords, hparse⟩ := parse_respaced hts hjoined hbefore hafter
  exact ⟨ts, us, hts, hjoined, hus, hwords, hparse.trans hrefused⟩

end LetCalc
