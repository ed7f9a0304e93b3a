import LetCalc.Proofs.Decimal.Nearest
import LetCalc.Proofs.Node.Source

/-!
# Numerals in range

A numeral denotes a rational number, exactly and however long it is written. The lexer refuses it if
that number is `Binary64.overflowBound` or more, and otherwise makes it a token with the nearest
finite number. So all numbers of a program that was parsed are finite, and have no sign.

* `Numeral.Denotes`: the number that a text denotes. There is one for each numeral.
* `Lexer.At.tokens_of_numeral`: how a lexer goes on where a numeral comes next.
* `Node.HasLiterals`: the numbers in a node are values of numerals. There is one lemma for each kind
  of shape.
* `Lexer.numerals_in_range`: both, for the numerals and the program of a source text.
-/

namespace LetCalc

/-! ## The number that a text denotes -/

namespace Numeral

/-- The text is a numeral of the number. -/
def Denotes (word : String) (q : ℚ) : Prop :=
  ∃ n : Numeral, n.WellFormed ∧ word.toList = n.text ∧ q = n.value

/-- A text can be divided into the parts of a numeral in one way only. -/
theorem WellFormed.eq_of_text_eq {n m : Numeral} (hn : n.WellFormed) (hm : m.WellFormed)
    (h : n.text = m.text) : n = m := by
  have hscan : ∀ {k : Numeral}, k.WellFormed → scan? k.text = some k := by
    intro k hk
    obtain ⟨found, hfound, -, heq⟩ := scan?_text_append hk []
    rw [List.append_nil] at hfound
    rw [hfound, heq .nil]
  exact Option.some.inj ((hscan hn).symm.trans (h ▸ hscan hm))

/-- A numeral denotes one rational number. -/
theorem existsUnique_denotes {word : String} (h : word.toList ∈ Terminal.number.language) :
    ∃! q, Denotes word q := by
  obtain ⟨n, hn, hword⟩ := Terminal.mem_number_iff.1 h
  refine ⟨n.value, ⟨n, hn, hword, rfl⟩, ?_⟩
  rintro q ⟨m, hm, hword', rfl⟩
  rw [hn.eq_of_text_eq hm (hword.symm.trans hword')]

end Numeral

/-! ## Numerals in a source text -/

namespace Lexer

variable {cs : List Char} {k : Nat} {lexer : Lexer}

/-- After some of its tokens a lexer goes on with the others. -/
theorem At.exists_split (h : At cs k lexer) {before after : List Token}
    (hts : lexer.tokens.1 = before ++ after) :
    ∃ m, At cs (Token.stopOf k before) m ∧ m.tokens = (after, lexer.tokens.2) := by
  induction before generalizing k lexer with
  | nil => exact ⟨lexer, h, Prod.ext hts rfl⟩
  | cons t before ih =>
    rcases hnext : lexer.next with ⟨_ | u | e, left⟩
    · simp [tokens_of_done hnext] at hts
    · rw [tokens_of_token hnext] at hts ⊢
      obtain ⟨rfl, hrest⟩ := List.cons.inj hts
      rw [Token.stopOf_cons]
      exact ih (h.of_token hnext).2.2 hrest
    · simp [tokens_of_failure hnext] at hts

/-- A numeral that comes next is refused if it is too large, and ends the tokens. Otherwise it is
the next token, with the nearest number. -/
theorem At.tokens_of_numeral (h : At cs k lexer) {n : Numeral} (hn : n.WellFormed)
    (hlongest : LongestAt (cs.drop (skip cs k)) .number n.text) :
    let place := Place.origin.advance (cs.take (skip cs k))
    (Binary64.overflowBound ≤ n.value →
        lexer.tokens = ([], some (.outOfRange (String.ofList n.text) place))) ∧
      (n.value < Binary64.overflowBound → ∃ rank rest, Binary64.IsNearest n.value rank ∧
        lexer.tokens.1 =
          ⟨.number (.finite false rank), String.ofList n.text, place⟩ :: rest) := by
  intro place
  have hread := Lenient.number?_text hn
  have hfinite : (n.decimal.toBinary64 false).isFinite ↔ n.value < Binary64.overflowBound := by
    rw [Decimal.isFinite_toBinary64_iff, n.value_decimal]
  constructor
  · intro hlarge
    have htakes : Takes (cs.drop (skip cs k)) place
        (.failure (.outOfRange (String.ofList n.text) place), ⟨[], place⟩) := by
      refine .outOfRange hlongest fun x hx => ?_
      obtain rfl := Option.some.inj (hread.symm.trans hx)
      exact Bool.eq_false_iff.2 fun hx => absurd (hfinite.1 hx) (not_lt.2 hlarge)
    exact tokens_of_failure (h.takes.unique htakes)
  · intro hsmall
    obtain ⟨rank, hrank⟩ := Binary64.eq_finite_of_toBinary64 (hfinite.2 hsmall)
    obtain ⟨left, hleft⟩ := hlongest.starts
    rw [hrank] at hread
    have htakes := h.takes.unique (.token hlongest (.number hread rfl) hleft.symm)
    refine ⟨rank, _, ?_, congrArg Prod.fst (tokens_of_token htakes)⟩
    rw [← n.value_decimal]
    exact Decimal.isNearest_of_toBinary64 hrank

/-- The range of a word that comes next in a source, after some tokens and the blanks that follow
them. -/
def nextSpan (source : String) (before : List Token) (word : String) : Span :=
  let start := source.length - (remaining source before).length
  ⟨start, start + word.length⟩

/-- How a numeral `word` of the number `q` is read that comes next in a source, after the tokens
`before`. -/
structure ReadsNumeral (source : String) (before : List Token) (word : String) (q : ℚ) : Prop where
  /-- It is refused, from its start to its end, exactly if it is too large. -/
  refused : (∃ place, (ofSource source).tokens = (before, some (.outOfRange word place)) ∧
      (LexError.outOfRange word place).span = nextSpan source before word) ↔
    Binary64.overflowBound ≤ q
  /-- Otherwise it is the next token, with the nearest number, which is finite and has no sign. -/
  taken : q < Binary64.overflowBound → ∃ t after rank,
    (ofSource source).tokens.1 = before ++ t :: after ∧ t.text = word ∧
      t.span = nextSpan source before word ∧ t.kind = .number (.finite false rank) ∧
      Binary64.IsNearest q rank

/-- The lexer reads the longest numeral, or refuses it for its value. -/
theorem readsNumeral {source : String} {before : List Token} {n : Numeral} {word : String}
    (hbefore : before <+: (ofSource source).tokens.1) (hn : n.WellFormed)
    (hword : word.toList = n.text)
    (hlongest : LongestAt (remaining source before) .number word.toList) :
    ReadsNumeral source before word n.value := by
  obtain ⟨after, hafter⟩ := hbefore
  obtain ⟨m, hm, htokens⟩ := (at_ofSource source).exists_split hafter.symm
  have hoffset : (Place.origin.advance (source.toList.take (skip source.toList
      (Token.stopOf 0 before)))).offset = (nextSpan source before word).start := by
    rw [Place.offset_origin_advance, List.length_take_of_le (skip_le hm.le),
      ← length_sub_remaining hm.le]
    rfl
  rw [remaining_eq_drop, hword] at hlongest
  obtain ⟨hlarge, hsmall⟩ := hm.tokens_of_numeral hn hlongest
  rw [← hword, String.ofList_toList, htokens] at hlarge hsmall
  generalize Place.origin.advance _ = place at hoffset hlarge hsmall
  refine ⟨⟨?_, fun hbound => ⟨place, ?_, ?_⟩⟩, fun hbound => ?_⟩
  · -- If the tokens end here, the numeral is no token.
    rintro ⟨place', hfailure, -⟩
    by_contra hbound
    obtain ⟨rank, rest, -, hnext⟩ := hsmall (not_le.1 hbound)
    rw [hfailure] at hafter
    simp [List.append_right_eq_self.1 hafter] at hnext
  · obtain ⟨rfl, hfailure⟩ := Prod.mk.inj (hlarge hbound)
    exact Prod.ext (hafter.symm.trans (List.append_nil before)) hfailure
  · rw [LexError.span, hoffset]
    rfl
  · obtain ⟨rank, rest, hnearest, hnext⟩ := hsmall hbound
    refine ⟨⟨.number (.finite false rank), word, place⟩, rest, rank, ?_, rfl, ?_, rfl, hnearest⟩
    · rw [← hafter]
      exact congrArg (before ++ ·) hnext
    · rw [Token.span, hoffset]
      rfl

end Lexer

/-! ## Numbers in a program -/

namespace Node

/-- The numbers in a node are values of numerals. -/
def HasLiterals (node : Node) : Prop := ∀ x, number x ∈ node.parts → x.IsLiteral

section Parts

variable {op : Operator} {left right target value initializer : Node} {isConst : Bool} {name : Json}

theorem hasLiterals_binary :
    (binary op left right).HasLiterals ↔ left.HasLiterals ∧ right.HasLiterals := by
  simp [HasLiterals, parts, or_imp, forall_and]

theorem hasLiterals_assignment :
    (assignment target value).HasLiterals ↔ target.HasLiterals ∧ value.HasLiterals := by
  simp [HasLiterals, parts, or_imp, forall_and]

theorem hasLiterals_declaration :
    (declaration name isConst initializer).HasLiterals ↔ initializer.HasLiterals := by
  simp [HasLiterals, parts]

end Parts

theorem IsLeaf.hasLiterals {node : Node} (h : node.IsLeaf) : node.HasLiterals := by
  intro x hx
  cases h with
  | number hliteral =>
    obtain rfl := number.inj (List.mem_singleton.1 hx)
    exact hliteral
  | identifier _ => exact nomatch List.mem_singleton.1 hx

/-- The numbers in a chain are those in its operands. -/
theorem IsChain.hasLiterals {signs : List Operator} {IsOperand : Node → Prop}
    (hoperand : ∀ node, IsOperand node → node.HasLiterals) {node : Node}
    (h : node.IsChain signs IsOperand) : node.HasLiterals := by
  induction h with
  | single hnode => exact hoperand _ hnode
  | binary _ _ hright ih => exact hasLiterals_binary.2 ⟨ih, hoperand _ hright⟩

theorem IsSum.hasLiterals {node : Node} (h : node.IsSum) : node.HasLiterals :=
  IsChain.hasLiterals (fun _ => IsChain.hasLiterals fun _ => IsLeaf.hasLiterals) h

theorem IsExpression.hasLiterals {node : Node} (h : node.IsExpression) : node.HasLiterals := by
  induction h with
  | sum h => exact h.hasLiterals
  | assignment htarget _ ih => exact hasLiterals_assignment.2 ⟨htarget.hasLiterals, ih⟩

/-- All numbers in a statement are literals. -/
theorem IsStatement.hasLiterals {node : Node} (h : node.IsStatement) : node.HasLiterals := by
  cases h with
  | expression h => exact h.hasLiterals
  | empty _ => exact hasLiterals_declaration.2 (by simp [HasLiterals, parts])
  | valued _ hvalue => exact hasLiterals_declaration.2 hvalue.hasLiterals

end Node

/-- So are those in a program. -/
theorem Program.IsWritten.isLiteral {program : Program} (h : program.IsWritten) {x : Binary64}
    (hx : .number x ∈ Program.parts program) : x.IsLiteral := by
  induction program with
  | nil => exact absurd hx List.not_mem_nil
  | cons statement rest ih =>
    obtain ⟨hstatement, hrest⟩ := List.forall_mem_cons.1 h
    rw [parts] at hx
    rcases List.mem_append.1 hx with hx | hx
    · exact hstatement.hasLiterals x hx
    · exact ih hrest hx

/-- The exact range of numerals. A numeral that comes next in a source, after some of its tokens,
denotes one rational number, whatever its digits and its power of ten. It is refused exactly if that
number is not below the bound, and otherwise read as the nearest finite number. So all numbers in a
program are finite and have no sign. -/
theorem Lexer.numerals_in_range (source : String) :
    (∀ (before : List Token) (word : String), before <+: (ofSource source).tokens.1 →
      LongestAt (remaining source before) .number word.toList →
        (∃! q, Numeral.Denotes word q) ∧
          ∀ q, Numeral.Denotes word q → ReadsNumeral source before word q) ∧
      ∀ program, Program.parse source = .ok program → ∀ x, .number x ∈ Program.parts program →
        ∃ rank, x = .finite false rank := by
  refine ⟨fun before word hbefore hlongest => ⟨?_, ?_⟩, fun program hparse x hx => ?_⟩
  · exact Numeral.existsUnique_denotes hlongest.mem
  · rintro q ⟨n, hn, hword, rfl⟩
    exact readsNumeral hbefore hn hword hlongest
  · exact Binary64.isLiteral_iff.1 ((Program.isWritten_of_parse hparse).isLiteral hx)

/-- The bound itself is out of range, also if it is written with a negative power of ten, and a
numeral below it is not, however near it is. -/
theorem Lexer.numerals_in_range_bound :
    let word (n : Nat) := String.ofList (Nat.toDigits 10 n ++ ['e', '-', '3'])
    let bound := Binary64.overflowBound * 1000
    (∃ place, (ofSource (word bound)).tokens = ([], some (.outOfRange (word bound) place))) ∧
      (∃ t after rank, (ofSource (word (bound - 1))).tokens.1 = t :: after ∧
        t.kind = .number (.finite false rank)) ∧
      ∃ x rank, Program.parse "5e-324" = .ok [.number x] ∧ x = .finite false rank := by
  intro word bound
  let numeral (n : Nat) : Numeral := ⟨Nat.toDigits 10 n, none, some ⟨'e', some '-', ['3']⟩⟩
  have hwellFormed : ∀ n, (numeral n).WellFormed := by
    intro n
    refine ⟨isWholePart_toDigits n, by simp [numeral], ?_⟩
    rintro p ⟨⟩
    exact ⟨by simp, by simp, by simp [Numeral.IsDigits]⟩
  have htext : ∀ n, (word n).toList = (numeral n).text := by
    intro n
    simp [word, numeral, Numeral.text, Numeral.Power.text]
  have hdenotes : ∀ n : Nat, Numeral.Denotes (word n) (n / 1000) := by
    intro n
    have hexponent : Numeral.Power.exponent ⟨'e', some '-', ['3']⟩ = -3 := by decide
    refine ⟨numeral n, hwellFormed n, htext n, ?_⟩
    norm_num [numeral, Numeral.value, hexponent, div_eq_mul_inv]
  have hlongest : ∀ n, LongestAt (remaining (word n) []) .number (word n).toList := by
    intro n
    have hmem := Terminal.mem_number_iff.2 ⟨_, hwellFormed n, htext n⟩
    have hremaining : remaining (word n) [] = (word n).toList := by
      have hskipped := Terminal.number.dropWhile_isSkipped hmem
      rwa [isSkipped_eq] at hskipped
    rw [hremaining]
    exact .self hmem
  have hreads := fun n =>
    ((numerals_in_range (word n)).1 [] (word n) List.nil_prefix (hlongest n)).2 _ (hdenotes n)
  have hone : 1 ≤ bound := by decide +kernel
  have hbound : (bound : ℚ) / 1000 = Binary64.overflowBound := by
    rw [Nat.cast_mul]
    exact mul_div_cancel_right₀ _ (by norm_num)
  refine ⟨?_, ?_, ?_⟩
  · obtain ⟨place, htokens, -⟩ := (hreads bound).refused.2 hbound.ge
    exact ⟨place, htokens⟩
  · have hless : ((bound - 1 : Nat) : ℚ) / 1000 < Binary64.overflowBound := by
      rw [← hbound]
      gcongr
      exact Nat.sub_lt hone Nat.one_pos
    obtain ⟨t, after, rank, htokens, -, -, hkind, -⟩ := (hreads (bound - 1)).taken hless
    exact ⟨t, after, rank, htokens, hkind⟩
  · have htypes : (Program.parse "5e-324").toOption.map (·.map Node.typeName) =
        some ["Number"] := by decide +kernel
    cases hparse : Program.parse "5e-324" with
    | error e => simp [hparse, Except.toOption] at htypes
    | ok program =>
      have hnames : program.map Node.typeName = ["Number"] := by
        simpa [hparse, Except.toOption] using htypes
      obtain ⟨node, rfl, hname⟩ := List.map_eq_singleton_iff.1 hnames
      cases node with
      | number x =>
        have hmem : .number x ∈ Program.parts [.number x] := by simp [Program.parts, Node.parts]
        obtain ⟨rank, hrank⟩ := (numerals_in_range "5e-324").2 _ hparse x hmem
        exact ⟨x, rank, rfl, hrank⟩
      | _ => simp [Node.typeName] at hname

end LetCalc
