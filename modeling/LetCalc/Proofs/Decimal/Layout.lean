import LetCalc.Decimal.Layout
import LetCalc.Proofs.Decimal.Numeral
import LetCalc.Proofs.Decimal.Rounding

/-!
# Numbers as text

The text of a finite number is a numeral, possibly after a minus sign, and never that of a whole
number. It reads back as the number (`Binary64.exists_numeral`). The layouts only place the point:
the numeral denotes the decimal that is written, digit for digit, except that a whole number gets a
zero after the point.
-/

namespace LetCalc

open Numeral

/-- The first digit of a positive number is not zero. -/
theorem head?_toDigits_ne {n : Nat} (h : 0 < n) : (Nat.toDigits 10 n).head? ≠ some '0' := by
  induction n using Nat.strongRecOn with
  | ind n ih =>
    by_cases hlt : n < 10
    · rw [Nat.toDigits_of_lt_base hlt, List.head?_cons]
      simp only [ne_eq, Option.some.injEq, Nat.digitChar_eq_zero]
      omega
    · rw [Nat.toDigits_of_base_le (by decide) (by omega),
        List.head?_append_of_ne_nil _ Nat.toDigits_ne_nil]
      exact ih (n / 10) (by omega) (by omega)

theorem isDigits_toDigits (n : Nat) : IsDigits (Nat.toDigits 10 n) :=
  ⟨Nat.toDigits_ne_nil, fun _ hc => Nat.isDigit_of_mem_toDigits (by decide) (by decide) hc⟩

/-- The digits of a number are a whole part. Zero is the one number whose digits start with a
zero. -/
theorem isWholePart_toDigits (n : Nat) : IsWholePart (Nat.toDigits 10 n) := by
  by_cases hn : n = 0
  · rw [hn]
    exact .inl rfl
  · exact .inr ⟨isDigits_toDigits n, head?_toDigits_ne (Nat.pos_of_ne_zero hn)⟩

theorem isDigits_replicate_append {ds : List Char} (h : IsDigits ds) (n : Nat) :
    IsDigits (List.replicate n '0' ++ ds) := by
  refine ⟨by simp [h.1], fun c hc => ?_⟩
  rcases List.mem_append.1 hc with hc | hc
  · rw [List.eq_of_mem_replicate hc]
    decide
  · exact h.2 c hc

/-- Zeros at the front do not count. -/
theorem ofDigitChars_replicate_append (n : Nat) (ds : List Char) :
    Nat.ofDigitChars 10 (List.replicate n '0' ++ ds) 0 = Nat.ofDigitChars 10 ds 0 := by
  rw [Nat.ofDigitChars_append, Nat.ofDigitChars_replicate_zero, Nat.mul_zero]

/-- A numeral with a fraction or a power of ten. -/
structure Numeral.IsFractional (n : Numeral) : Prop extends n.WellFormed where
  isWhole : n.isWhole = false

theorem Numeral.decimal_eq (n : Numeral) {digits : Nat} {exponent : Int}
    (hdigits : Nat.ofDigitChars 10 (n.whole ++ n.fraction.getD []) 0 = digits)
    (hexponent : (n.power.map Power.exponent).getD 0 - (n.fraction.getD []).length = exponent) :
    n.decimal = ⟨digits, exponent⟩ := by
  rw [Numeral.decimal, Decimal.ofParts, hdigits, hexponent]

namespace Layout

variable {digits : List Char} {point : Int}

/-- Digits after the point only. -/
theorem exists_positional_of_nonpos (hdigits : IsDigits digits) (h : point ≤ 0) :
    ∃ n : Numeral, n.IsFractional ∧ n.text = standard.positional digits point ∧
      n.decimal = ⟨Nat.ofDigitChars 10 digits 0, point - digits.length⟩ := by
  refine ⟨⟨['0'], some (List.replicate (-point).toNat '0' ++ digits), none⟩, ⟨?_, rfl⟩, ?_, ?_⟩
  · refine ⟨.inl rfl, fun ds hds => ?_, by simp⟩
    obtain rfl := Option.some.inj hds
    exact isDigits_replicate_append hdigits _
  · simp [text, positional, h]
  · refine Numeral.decimal_eq _ ?_ ?_
    · exact ofDigitChars_replicate_append ((-point).toNat + 1) digits
    · simp only [Option.map_none, Option.getD_none, Option.getD_some, List.length_append,
        List.length_replicate]
      omega

/-- Digits before the point only, and a zero after it. -/
theorem exists_positional_of_length_le (hdigits : IsDigits digits) (hhead : digits.head? ≠ some '0')
    (h : digits.length ≤ point) :
    ∃ n : Numeral, n.IsFractional ∧ n.text = standard.positional digits point ∧
      n.decimal = ⟨Nat.ofDigitChars 10 digits 0 * 10 ^ (point.toNat - digits.length + 1), -1⟩ := by
  have hpos : ¬ point ≤ 0 := by
    have := List.length_pos_iff.2 hdigits.1
    omega
  refine ⟨⟨digits ++ List.replicate (point.toNat - digits.length) '0', some ['0'], none⟩,
    ⟨?_, rfl⟩, ?_, ?_⟩
  · refine ⟨.inr ⟨⟨by simp [hdigits.1], fun c hc => ?_⟩, ?_⟩, fun ds hds => ?_, by simp⟩
    · rcases List.mem_append.1 hc with hc | hc
      · exact hdigits.2 c hc
      · rw [List.eq_of_mem_replicate hc]
        decide
    · rwa [List.head?_append_of_ne_nil _ hdigits.1]
    · obtain rfl := Option.some.inj hds
      exact ⟨by simp, by simp⟩
  · simp [text, positional, hpos, h, standard]
  · refine Numeral.decimal_eq _ ?_ rfl
    have hzeros : List.replicate (point.toNat - digits.length) '0' ++ ['0'] =
        List.replicate (point.toNat - digits.length + 1) '0' := List.replicate_succ'.symm
    rw [Option.getD_some, List.append_assoc, hzeros, Nat.ofDigitChars_append,
      Nat.ofDigitChars_replicate_zero, Nat.mul_comm]

/-- Digits on both sides of the point. -/
theorem exists_positional_of_lt_length (hdigits : IsDigits digits) (hhead : digits.head? ≠ some '0')
    (hpos : 0 < point) (h : point < digits.length) :
    ∃ n : Numeral, n.IsFractional ∧ n.text = standard.positional digits point ∧
      n.decimal = ⟨Nat.ofDigitChars 10 digits 0, point - digits.length⟩ := by
  have htake : digits.take point.toNat ≠ [] := by
    rw [ne_eq, List.take_eq_nil_iff, not_or]
    exact ⟨by omega, hdigits.1⟩
  have hdrop : digits.drop point.toNat ≠ [] := by
    rw [ne_eq, List.drop_eq_nil_iff]
    omega
  refine ⟨⟨digits.take point.toNat, some (digits.drop point.toNat), none⟩, ⟨?_, rfl⟩, ?_, ?_⟩
  · refine ⟨.inr ⟨⟨htake, fun c hc => hdigits.2 c (List.mem_of_mem_take hc)⟩, ?_⟩,
      fun ds hds => ?_, by simp⟩
    · rwa [List.head?_take, if_neg (by omega)]
    · obtain rfl := Option.some.inj hds
      exact ⟨hdrop, fun c hc => hdigits.2 c (List.mem_of_mem_drop hc)⟩
  · simp [text, positional, show ¬ point ≤ 0 by omega,
      show ¬ (digits.length : Int) ≤ point by omega]
  · refine Numeral.decimal_eq _ ?_ ?_
    · rw [Option.getD_some, List.take_append_drop]
    · simp only [Option.map_none, Option.getD_none, Option.getD_some, List.length_drop]
      omega

/-- The power of ten at the end of a text. -/
theorem exists_power (exponent : Int) :
    ∃ p : Power, p.WellFormed ∧ p.text = standard.power exponent ∧ p.exponent = exponent := by
  refine ⟨⟨'e', some (if exponent < 0 then '-' else '+'),
    List.replicate (2 - (Nat.toDigits 10 exponent.natAbs).length) '0' ++
      Nat.toDigits 10 exponent.natAbs⟩, ⟨.inl rfl, ?_, ?_⟩, rfl, ?_⟩
  · intro c hc
    obtain rfl := Option.some.inj hc
    split
    · exact .inr rfl
    · exact .inl rfl
  · exact isDigits_replicate_append (isDigits_toDigits _) _
  · simp only [Power.exponent, ofDigitChars_replicate_append, Nat.ofDigitChars_ten_toDigits]
    by_cases h : exponent < 0
    · rw [if_pos h, if_pos rfl]
      omega
    · rw [if_neg h, if_neg (by decide)]
      omega

/-- One digit before the point, and a power of ten. -/
theorem exists_scientific (hdigits : IsDigits digits) (hhead : digits.head? ≠ some '0')
    (exponent : Int) :
    ∃ n : Numeral, n.IsFractional ∧ n.text = standard.scientific digits exponent ∧
      n.decimal = ⟨Nat.ofDigitChars 10 digits 0, exponent + 1 - digits.length⟩ := by
  obtain ⟨p, hp, htext, hexponent⟩ := exists_power exponent
  have hpower : ∀ q ∈ some p, Power.WellFormed q := by
    intro q hq
    obtain rfl := Option.some.inj hq
    exact hp
  cases digits with
  | nil => exact absurd rfl hdigits.1
  | cons c rest =>
    have hwhole : IsWholePart [c] := .inr ⟨⟨by simp, by simpa using hdigits.head_isDigit⟩, hhead⟩
    -- A single digit is written without a point.
    cases rest with
    | nil =>
      refine ⟨⟨[c], none, some p⟩, ⟨⟨hwhole, by simp, hpower⟩, rfl⟩, ?_, ?_⟩
      · simp [text, scientific, htext]
      · refine Numeral.decimal_eq _ rfl ?_
        simp only [Option.map_some, Option.getD_some, Option.getD_none, List.length_nil,
          List.length_singleton, hexponent]
        omega
    | cons d rest =>
      have hfraction : ∀ ds ∈ some (d :: rest), IsDigits ds := by
        intro ds hds
        obtain rfl := Option.some.inj hds
        exact ⟨by simp, fun e he => hdigits.2 e (List.mem_cons_of_mem c he)⟩
      refine ⟨⟨[c], some (d :: rest), some p⟩, ⟨⟨hwhole, hfraction, hpower⟩, rfl⟩, ?_, ?_⟩
      · simp [text, scientific, htext]
      · refine Numeral.decimal_eq _ rfl ?_
        simp only [Option.map_some, Option.getD_some, List.length_cons, hexponent]
        omega

/-- The text of a positive decimal is a numeral that reads as the decimal does. -/
theorem exists_decimal {d : Decimal} (h : 0 < d.digits) :
    ∃ n : Numeral, n.IsFractional ∧ n.text = standard.decimal d ∧
      ∀ negative, n.decimal.toBinary64 negative = d.toBinary64 negative := by
  have hdigits := isDigits_toDigits d.digits
  have hhead := head?_toDigits_ne h
  have hvalue : Nat.ofDigitChars 10 (Nat.toDigits 10 d.digits) 0 = d.digits :=
    Nat.ofDigitChars_ten_toDigits
  have hpoint : d.exponent + (Nat.toDigits 10 d.digits).length - 1 + 1 -
      (Nat.toDigits 10 d.digits).length = d.exponent := by omega
  rw [decimal]
  split
  · rename_i hrange
    by_cases hsmall : d.exponent + (Nat.toDigits 10 d.digits).length - 1 + 1 ≤ 0
    · obtain ⟨n, hn, htext, hdecimal⟩ := exists_positional_of_nonpos hdigits hsmall
      rw [hvalue, hpoint] at hdecimal
      exact ⟨n, hn, htext, fun negative => by rw [hdecimal]⟩
    · by_cases hlarge : (Nat.toDigits 10 d.digits).length ≤
          d.exponent + (Nat.toDigits 10 d.digits).length - 1 + 1
      · obtain ⟨n, hn, htext, hdecimal⟩ := exists_positional_of_length_le hdigits hhead hlarge
        -- Positional numbers are small, so that the added zero does not change how they are read.
        have hexponent : d.exponent.toNat < 310 := by
          have := hrange.2
          simp only [standard] at this
          omega
        have hwhole : (d.exponent + (Nat.toDigits 10 d.digits).length - 1 + 1).toNat -
            (Nat.toDigits 10 d.digits).length = d.exponent.toNat := by omega
        refine ⟨n, hn, htext, fun negative => ?_⟩
        rw [hdecimal, hvalue, hwhole, Decimal.toBinary64_mul_ten hexponent,
          Int.toNat_of_nonneg (by omega)]
      · obtain ⟨n, hn, htext, hdecimal⟩ := exists_positional_of_lt_length hdigits hhead
          (Int.not_le.1 hsmall) (Int.not_le.1 hlarge)
        rw [hvalue, hpoint] at hdecimal
        exact ⟨n, hn, htext, fun negative => by rw [hdecimal]⟩
  · obtain ⟨n, hn, htext, hdecimal⟩ := exists_scientific hdigits hhead
      (d.exponent + (Nat.toDigits 10 d.digits).length - 1)
    rw [hvalue, hpoint] at hdecimal
    exact ⟨n, hn, htext, fun negative => by rw [hdecimal]⟩

end Layout

/-- The text of a finite number is a numeral, after a minus sign if the number is negative, and
reads back as the number. -/
theorem Binary64.exists_numeral (negative : Bool) (rank : Fin rankBound) :
    ∃ n : Numeral, n.IsFractional ∧
      (finite negative rank).text.toList = (if negative then '-' :: n.text else n.text) ∧
      n.decimal.toBinary64 negative = .finite negative rank := by
  by_cases hzero : rank.val = 0
  · refine ⟨⟨['0'], some ['0'], none⟩, ⟨⟨.inl rfl, ?_, by simp⟩, rfl⟩, ?_, ?_⟩
    · intro ds hds
      obtain rfl := Option.some.inj hds
      exact ⟨by simp, by simp⟩
    · rw [text, if_pos hzero, String.toList_ofList]
      rfl
    · have hrank : rank = ⟨0, by decide⟩ := Fin.ext hzero
      rw [hrank]
      rfl
  · have hpos : 0 < rank.val := Nat.pos_of_ne_zero hzero
    obtain ⟨n, hn, htext, hread⟩ := Layout.exists_decimal (Decimal.digits_shortest_pos hpos)
    refine ⟨n, hn, ?_, ?_⟩
    · rw [text, if_neg hzero, String.toList_ofList, htext]
    · rw [hread]
      exact Decimal.toBinary64_of_false (Decimal.toBinary64_shortest hpos) negative

end LetCalc
