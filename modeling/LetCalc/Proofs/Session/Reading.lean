import LetCalc.Proofs.Node.Source

/-!
# Results as source texts

A result that is a finite number without a sign is shown by a numeral of that very number: the text
is one word, and running it gives the number again. A whole number is shown by all its digits,
however many there are, and any other number by the decimal with the fewest digits that rounds to
it.

* `Value.isWord_text_number`: the text of a result is a numeral of it.
* `Lexer.tokenize_of_isWord`: a word alone is read as one token.
* `Value.text_number_reads_back`: results can be read back.
-/

namespace LetCalc

open Grammar

/-! ## Whole numbers -/

namespace Binary64

variable {rank : Fin rankBound} {n : Nat}

/-- A number without a sign is whole if it is a multiple of the number one. -/
theorem integer?_of_units (h : unitsAt rank = n * unitsPerOne) :
    (finite false rank).integer? = some (n : Int) := by
  have hmod : unitsAt rank % unitsPerOne = 0 := by
    rw [h]
    exact Nat.mul_mod_left n unitsPerOne
  have hdiv : signedUnits false rank / unitsPerOne = n := by
    rw [signedUnits, if_neg Bool.false_ne_true, h, Nat.cast_mul]
    exact Int.mul_ediv_cancel _ (Int.natCast_ne_zero.2 (Nat.ne_of_gt unitsPerOne_pos))
  rw [integer?, if_pos hmod, hdiv]

/-- The other numbers are not. -/
theorem integer?_of_ne (h : ∀ n, unitsAt rank ≠ n * unitsPerOne) :
    (finite false rank).integer? = none := by
  apply if_neg
  intro hmod
  obtain ⟨n, hn⟩ := Nat.dvd_of_mod_eq_zero hmod
  exact h n (hn.trans (Nat.mul_comm _ _))

/-- The digits of a whole number have its value, however many there are. -/
theorem toBinary64_of_units (h : unitsAt rank = n * unitsPerOne) :
    (⟨n, 0⟩ : Decimal).toBinary64 false = .finite false rank := by
  by_cases hn : n = 0
  · -- Zero is read without rounding, and it is the one number without any units.
    have hrank : rank = ⟨0, by decide⟩ := by
      apply Fin.ext
      apply Nat.eq_zero_of_not_pos
      intro hpos
      have hunits := unitsAt_pos hpos
      rw [h, hn, Nat.zero_mul] at hunits
      exact Nat.lt_irrefl 0 hunits
    rw [hrank, hn]
    rfl
  · have hone : n * 10 ^ (0 : Int).toNat * unitsPerOne = unitsAt rank := by
      rw [h]
      simp
    rw [Decimal.toBinary64_eq_ofUnits hn (by dsimp only; omega) (by dsimp only; omega), hone]
    exact ofUnits_unitsAt false rank

end Binary64

/-! ## The text of a number -/

namespace Value

variable {rank : Fin Binary64.rankBound}

theorem toList_text_of_units {n : Nat}
    (h : Binary64.unitsAt rank = n * Binary64.unitsPerOne) :
    (number (.finite false rank)).text.toList = Nat.toDigits 10 n := by
  rw [text, Binary64.integer?_of_units h]
  simp [toString, Int.repr, Nat.repr]

/-- A result is shown by a numeral of it. -/
theorem isWord_text_number (rank : Fin Binary64.rankBound) :
    Lexer.IsWord (.number (.finite false rank), (number (.finite false rank)).text) := by
  by_cases hwhole : ∃ n, Binary64.unitsAt rank = n * Binary64.unitsPerOne
  · obtain ⟨n, hn⟩ := hwhole
    have hdecimal : (⟨Nat.toDigits 10 n, none, none⟩ : Numeral).decimal = ⟨n, 0⟩ := by
      apply Numeral.decimal_eq
      · simp [Nat.ofDigitChars_ten_toDigits]
      · rfl
    apply Binary64.isWord_of_numeral (n := ⟨Nat.toDigits 10 n, none, none⟩)
    · exact ⟨isWholePart_toDigits n, by simp, by simp⟩
    · rw [toList_text_of_units hn]
      simp [Numeral.text]
    · rw [hdecimal, Binary64.toBinary64_of_units hn]
    · rfl
  · -- Any other number is shown as it is in diagnostics and documents.
    have htext : (number (.finite false rank)).text = (Binary64.finite false rank).text := by
      rw [text, Binary64.integer?_of_ne (not_exists.1 hwhole)]
    rw [htext]
    exact (Binary64.isLiteral_iff.2 ⟨rank, rfl⟩).isWord

end Value

/-! ## Reading the text -/

/-- A word alone is one token, from the start of the source to its end. -/
theorem Lexer.tokenize_of_isWord {kind : Token.Kind} {text : String} (h : IsWord (kind, text)) :
    tokenize text = .ok [⟨kind, text, .origin⟩] := by
  obtain ⟨T, hmem, htags⟩ := h
  have hnext : (ofSource text).next =
      (.token ⟨kind, text, .origin⟩, ⟨[], Place.origin.advance text.toList⟩) := by
    apply (takes_next (ofSource text)).unique
    have htake : text.toList.takeWhile isSkipped = [] := T.takeWhile_isSkipped hmem
    have hdrop : text.toList.dropWhile isSkipped = text.toList := T.dropWhile_isSkipped hmem
    show Takes (text.toList.dropWhile isSkipped)
      (Place.origin.advance (text.toList.takeWhile isSkipped)) _
    rw [hdrop, htake]
    have htoken : Takes text.toList .origin (.token ⟨kind, String.ofList text.toList, .origin⟩,
        ⟨[], Place.origin.advance text.toList⟩) :=
      .token (.self hmem) ((String.ofList_toList (s := text)).symm ▸ htags)
        (List.append_nil _).symm
    rwa [String.ofList_toList] at htoken
  apply tokenize_eq_ok_iff.2
  rw [tokens_of_token hnext, tokens_of_done rfl]

/-- A numeral alone is a program. -/
theorem Program.parse_of_isWord {x : Binary64} {text : String}
    (h : Lexer.IsWord (.number x, text)) : Program.parse text = .ok [.number x] := by
  let t : Token := .ofWord (.number x) text
  have hprimary : Primary [t] (.number x) [] := .number rfl
  have hproduct : Multiplicative [t] (.number x) [] := ⟨_, [], [], hprimary, .nil, rfl⟩
  have hsum : Additive [t] (.number x) [] := ⟨_, [], [], hproduct, .nil, rfl⟩
  have hword : Lexer.IsWord t.word := h
  exact parse_of_writes ⟨[t], hword.spells, .cons (.expression (.plain hsum)) .nil⟩

namespace Value

/-- Results can be read back. The text of a finite number without a sign is one numeral from its
first character to its last, the value of that numeral is the number, and so is the result of
running the text, wherever that is done. A whole number is shown by its digits, without
superfluous zeros at the front. -/
theorem text_number_reads_back (rank : Fin Binary64.rankBound) :
    let x := Binary64.finite false rank
    let text := (number x).text
    (∃ t : Token, Lexer.tokenize text = .ok [t] ∧ t.kind = .number x ∧ t.text = text ∧
        t.span = ⟨0, text.length⟩) ∧
      (∀ (level : Int) (scope : Nat) (forest : Forest),
        (Program.run level scope text forest).1 = .ok (number x) ∧
          (Program.run level scope text forest).2.1 = forest) ∧
      (∀ n : Nat, Binary64.unitsAt rank = n * Binary64.unitsPerOne →
        Numeral.IsWholePart text.toList ∧ Nat.ofDigitChars 10 text.toList 0 = n) := by
  intro x text
  have hword : Lexer.IsWord (.number x, text) := isWord_text_number rank
  refine ⟨?_, ?_, ?_⟩
  · refine ⟨_, Lexer.tokenize_of_isWord hword, rfl, rfl, ?_⟩
    show (⟨0, 0 + text.length⟩ : Span) = _
    rw [Nat.zero_add]
  · intro level scope forest
    rw [Program.run_of_parse (Program.parse_of_isWord hword)]
    exact ⟨rfl, Run.forest_report level (.statement 0 (number x)) ⟨forest, #[]⟩⟩
  · intro n hn
    have hdigits : text.toList = Nat.toDigits 10 n := toList_text_of_units hn
    rw [hdigits]
    exact ⟨isWholePart_toDigits n, Nat.ofDigitChars_ten_toDigits⟩

/-- The largest finite number is shown by all its digits. -/
theorem text_largest_number_reads_back :
    let largest : Fin Binary64.rankBound := ⟨Binary64.rankBound - 1, by decide⟩
    let n := Nat.pow 2 1024 - Nat.pow 2 971
    let text := (number (.finite false largest)).text
    Binary64.unitsAt largest = n * Binary64.unitsPerOne ∧
      (Program.run 0 0 text .single).1 = .ok (number (.finite false largest)) ∧
        Numeral.IsWholePart text.toList ∧ Nat.ofDigitChars 10 text.toList 0 = n := by
  intro largest n text
  have hunits : Binary64.unitsAt largest = n * Binary64.unitsPerOne := by decide +kernel
  obtain ⟨-, hrun, hwhole⟩ := text_number_reads_back largest
  exact ⟨hunits, (hrun 0 0 .single).1, hwhole n hunits⟩

end Value

end LetCalc
