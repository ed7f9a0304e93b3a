import LetCalc.Decimal.Numeral
import LetCalc.Proofs.Decimal.Overflow

/-!
# The nearest number

Numbers are read by rounding: a decimal becomes the finite number that is nearest to its exact
value, and of two that are equally near the one with the even rank, unless it is too large for any.
The exact values are rational here, with any number of digits and any power of ten.

* `Binary64.exists_neighbours`: a quotient lies between the magnitudes at two neighbouring ranks,
  and is rounded to the nearer one.
* `Decimal.toBinary64_eq`: settling some decimals by their size does not change how they are read.
* `Decimal.isFinite_toBinary64_iff`: the decimals that are not too large.
* `Decimal.isNearest_of_toBinary64`: the others are read as the number nearest to them.
-/

namespace LetCalc

namespace Binary64

/-- The finite magnitude at a rank. -/
def magnitude (rank : Nat) : ℚ := unitsAt rank / unitsPerOne

/-- The magnitude at the rank is nearest to `q` among all finite ones. If another one is as near,
the rank is even. -/
structure IsNearest (q : ℚ) (rank : Fin rankBound) : Prop where
  le : ∀ other : Fin rankBound, |q - magnitude rank| ≤ |q - magnitude other|
  even : ∀ other : Fin rankBound, other ≠ rank →
    |q - magnitude rank| = |q - magnitude other| → rank.val % 2 = 0

/-! ## Neighbouring ranks -/

/-- The magnitude at a rank of a block, or at the first rank after it. -/
theorem unitsAt_block {shift m : Nat} (hm : m ≤ 2 ^ 53) (hshift : shift = 0 ∨ 2 ^ 52 ≤ m) :
    unitsAt (shift * 2 ^ 52 + m) = m * 2 ^ shift := by
  rcases Nat.lt_or_eq_of_le hm with hlt | rfl
  · rcases hshift with rfl | hge
    · rw [Nat.zero_mul, Nat.zero_add, unitsAt_of_lt hlt, Nat.pow_zero, Nat.mul_one]
    · exact unitsAt_eq rfl hge hlt
  · have hnext : shift * 2 ^ 52 + 2 ^ 53 = (shift + 1) * 2 ^ 52 + 2 ^ 52 := by ring
    rw [unitsAt_eq hnext (Nat.le_refl _) (by decide)]
    ring

/-- The magnitudes at two neighbouring ranks of a block differ by its step. -/
theorem unitsAt_block_succ {shift m : Nat} (hm : m < 2 ^ 53) (hshift : shift = 0 ∨ 2 ^ 52 ≤ m) :
    unitsAt (shift * 2 ^ 52 + m + 1) = m * 2 ^ shift + 2 ^ shift := by
  rw [Nat.add_assoc, unitsAt_block hm (hshift.imp_right Nat.le_succ_of_le), Nat.add_one_mul]

theorem unitsAt_strictMono : StrictMono unitsAt := by
  refine strictMono_nat_of_lt_succ fun rank => ?_
  obtain ⟨shift, m, rfl, hm, hshift⟩ : ∃ shift m, rank = shift * 2 ^ 52 + m ∧ m < 2 ^ 53 ∧
      (shift = 0 ∨ 2 ^ 52 ≤ m) := by
    by_cases hlt : rank < 2 ^ 52
    · exact ⟨0, rank, by omega, by omega, .inl rfl⟩
    · obtain ⟨shift, m, hrank, hm, hm'⟩ := exists_block (Nat.le_of_not_lt hlt)
      exact ⟨shift, m, hrank, hm', .inr hm⟩
  rw [unitsAt_block hm.le hshift, unitsAt_block_succ hm hshift]
  exact Nat.lt_add_of_pos_right (Nat.two_pow_pos shift)

/-- A quotient lies between two neighbouring magnitudes. It is rounded to the nearer one, and in the
middle to the one with the even rank. -/
theorem exists_neighbours (num : Nat) {den : Nat} (hden : 0 < den) :
    ∃ rank, unitsAt rank * den ≤ num ∧ num < unitsAt (rank + 1) * den ∧
      (nearestRank num den = rank ∧ 2 * num ≤ (unitsAt rank + unitsAt (rank + 1)) * den ∨
        nearestRank num den = rank + 1 ∧ (unitsAt rank + unitsAt (rank + 1)) * den ≤ 2 * num) ∧
      (2 * num = (unitsAt rank + unitsAt (rank + 1)) * den → nearestRank num den % 2 = 0) := by
  have hlt := div_lt_of_log2 num den
  have hge := le_div_of_log2 num den
  rw [nearestRank_def]
  generalize hs : (num / den).log2 - 52 = shift at hlt hge ⊢
  have hd : 0 < den * 2 ^ shift := Nat.mul_pos hden (Nat.two_pow_pos shift)
  have hsplit := Nat.div_add_mod num (den * 2 ^ shift)
  have hrest := Nat.mod_lt num hd
  rw [divideToEven]
  generalize num / (den * 2 ^ shift) = m at hlt hge hsplit ⊢
  generalize num % (den * 2 ^ shift) = r at hsplit hrest ⊢
  have hshift : shift = 0 ∨ 2 ^ 52 ≤ m := by
    by_cases hlarge : 52 ≤ (num / den).log2
    · exact .inr (hge hlarge)
    · exact .inl (by omega)
  -- The two ranks are next to each other in the block, or the second one starts the next block.
  have hbelow : unitsAt (shift * 2 ^ 52 + m) * den = den * 2 ^ shift * m := by
    rw [unitsAt_block hlt.le hshift]
    ring
  have habove : unitsAt (shift * 2 ^ 52 + m + 1) * den = den * 2 ^ shift * m + den * 2 ^ shift := by
    rw [unitsAt_block_succ hlt hshift]
    ring
  refine ⟨shift * 2 ^ 52 + m, by omega, by omega, ?_⟩
  rw [Nat.add_mul, hbelow, habove]
  split <;> omega

/-- The number of units `x` lies between the magnitudes at `rank` and at the rank after it, and
`nearest` is the rank of the nearer one, or in the middle the even rank. -/
structure Rounds (x : ℚ) (rank nearest : Nat) : Prop where
  le : unitsAt rank ≤ x
  lt : x < unitsAt (rank + 1)
  nearer : nearest = rank ∧ 2 * x ≤ unitsAt rank + unitsAt (rank + 1) ∨
    nearest = rank + 1 ∧ unitsAt rank + unitsAt (rank + 1) ≤ 2 * x
  even : 2 * x = unitsAt rank + unitsAt (rank + 1) → nearest % 2 = 0

theorem exists_rounds (num : Nat) {den : Nat} (hden : 0 < den) :
    ∃ rank, Rounds (num / den) rank (nearestRank num den) := by
  obtain ⟨rank, hle, hlt, hnearer, heven⟩ := exists_neighbours num hden
  have hpos : (0 : ℚ) < den := Nat.cast_pos.2 hden
  refine ⟨rank, ?_, ?_, ?_, ?_⟩
  · rw [le_div_iff₀ hpos]
    exact_mod_cast hle
  · rw [div_lt_iff₀ hpos]
    exact_mod_cast hlt
  · rw [← mul_div_assoc, div_le_iff₀ hpos, le_div_iff₀ hpos]
    exact_mod_cast hnearer
  · rw [← mul_div_assoc, div_eq_iff hpos.ne']
    exact_mod_cast heven

namespace Rounds

variable {x : ℚ} {rank nearest : Nat}

theorem abs_sub_of_le (h : Rounds x rank nearest) {n : Nat} (hn : n ≤ rank) :
    |x - unitsAt n| = x - unitsAt n := by
  have hmono : (unitsAt n : ℚ) ≤ unitsAt rank := Nat.cast_le.2 (unitsAt_strictMono.monotone hn)
  exact abs_of_nonneg (sub_nonneg.2 (hmono.trans h.le))

theorem abs_sub_of_lt (h : Rounds x rank nearest) {n : Nat} (hn : rank < n) :
    |x - unitsAt n| = unitsAt n - x := by
  have hmono : (unitsAt (rank + 1) : ℚ) ≤ unitsAt n :=
    Nat.cast_le.2 (unitsAt_strictMono.monotone hn)
  rw [abs_of_nonpos (sub_nonpos.2 (h.lt.le.trans hmono)), neg_sub]

/-- No magnitude is nearer, and if another one is as near, the rank is even. -/
theorem abs_sub_le (h : Rounds x rank nearest) (other : Nat) :
    |x - unitsAt nearest| ≤ |x - unitsAt other| ∧
      (other ≠ nearest → |x - unitsAt nearest| = |x - unitsAt other| → nearest % 2 = 0) := by
  -- A magnitude on one side of `x` is no nearer than the neighbour on that side.
  rcases Nat.lt_or_ge rank other with hother | hother
  · have hmono : (unitsAt (rank + 1) : ℚ) ≤ unitsAt other :=
      Nat.cast_le.2 (unitsAt_strictMono.monotone hother)
    rw [h.abs_sub_of_lt hother]
    rcases h.nearer with ⟨rfl, hle⟩ | ⟨rfl, hle⟩
    · rw [h.abs_sub_of_le (Nat.le_refl _)]
      exact ⟨by linarith, fun _ heq => h.even (by linarith)⟩
    · rw [h.abs_sub_of_lt (Nat.lt_succ_self _)]
      refine ⟨by linarith, fun hne heq => absurd ?_ hne⟩
      have hunits : (unitsAt other : ℚ) = unitsAt (rank + 1) := by linarith
      exact unitsAt_strictMono.injective (Nat.cast_injective hunits)
  · have hmono : (unitsAt other : ℚ) ≤ unitsAt rank :=
      Nat.cast_le.2 (unitsAt_strictMono.monotone hother)
    rw [h.abs_sub_of_le hother]
    rcases h.nearer with ⟨rfl, hle⟩ | ⟨rfl, hle⟩
    · rw [h.abs_sub_of_le (Nat.le_refl _)]
      refine ⟨by linarith, fun hne heq => absurd ?_ hne⟩
      have hunits : (unitsAt other : ℚ) = unitsAt nearest := by linarith
      exact unitsAt_strictMono.injective (Nat.cast_injective hunits)
    · rw [h.abs_sub_of_lt (Nat.lt_succ_self _)]
      exact ⟨by linarith, fun _ heq => h.even (by linarith)⟩

end Rounds

/-- A quotient of units is rounded to the nearest number. -/
theorem isNearest_of_ofUnits {negative : Bool} {num den : Nat} (hden : 0 < den)
    {rank : Fin rankBound} (h : ofUnits negative num den = .finite negative rank) {q : ℚ}
    (hq : q * unitsPerOne = num / den) : IsNearest q rank := by
  have hrank : nearestRank num den = rank := by
    unfold ofUnits at h
    split at h
    · simpa [Fin.ext_iff] using h
    · simp at h
  obtain ⟨below, hrounds⟩ := exists_rounds num hden
  rw [hrank, ← hq] at hrounds
  have hpos : (0 : ℚ) < unitsPerOne := Nat.cast_pos.2 unitsPerOne_pos
  -- Distances are counted in units.
  have hdist : ∀ n : Nat, |q - magnitude n| = |q * unitsPerOne - unitsAt n| / unitsPerOne := by
    intro n
    rw [magnitude, ← abs_of_pos hpos, ← abs_div, sub_div, abs_of_pos hpos,
      mul_div_cancel_right₀ _ hpos.ne']
  refine ⟨fun other => ?_, fun other hne heq => ?_⟩
  · rw [hdist, hdist]
    exact div_le_div_of_nonneg_right (hrounds.abs_sub_le other).1 hpos.le
  · rw [hdist, hdist, div_left_inj' hpos.ne'] at heq
    exact (hrounds.abs_sub_le other).2 (fun h => hne (Fin.ext h)) heq

/-- Less than half a unit is rounded to zero. -/
theorem nearestRank_eq_zero {num den : Nat} (h : 2 * num < den) : nearestRank num den = 0 := by
  have hdiv : num / den = 0 := Nat.div_eq_of_lt (by omega)
  rw [nearestRank_def, hdiv, Nat.log2_zero, Nat.zero_sub, Nat.pow_zero, Nat.mul_one, divideToEven,
    hdiv, Nat.mod_eq_of_lt (by omega), if_neg (by omega), Nat.zero_mul]

theorem ofUnits_eq_zero (negative : Bool) {num den : Nat} (h : 2 * num < den) :
    ofUnits negative num den = zero negative := by
  have hrank := nearestRank_eq_zero h
  rw [ofUnits, dif_pos (by rw [hrank]; decide)]
  simp only [hrank, zero]

theorem ofUnits_eq_infinite (negative : Bool) {num den : Nat} (hden : 0 < den)
    (h : overflowBound * unitsPerOne * den ≤ num) : ofUnits negative num den = .infinite negative :=
  dif_neg (Nat.not_lt.2 ((rankBound_le_nearestRank_iff hden).2 h))

end Binary64

namespace Decimal

open Binary64

/-- The exact value of a decimal. -/
def value (d : Decimal) : ℚ := d.digits * 10 ^ d.exponent

/-- The value in units, as the quotient that is rounded. -/
theorem value_mul_unitsPerOne (d : Decimal) :
    d.value * unitsPerOne =
      (d.digits * 10 ^ d.exponent.toNat * unitsPerOne : Nat) /
        (10 ^ (-d.exponent).toNat : Nat) := by
  have hpower : (10 : ℚ) ^ d.exponent = 10 ^ d.exponent.toNat / 10 ^ (-d.exponent).toNat := by
    nth_rewrite 1 [← Int.toNat_sub_toNat_neg d.exponent]
    rw [zpow_sub₀ (by norm_num), zpow_natCast, zpow_natCast]
  rw [value, hpower]
  push_cast
  ring

/-- A decimal that is taken for zero because of its size is less than half a unit. -/
theorem two_mul_units_lt {digits k n : Nat} (hone : unitsPerOne = Nat.pow 2 n)
    (h : digits.log2 + 1 + (n + 1) ≤ 3 * k) : 2 * (digits * unitsPerOne) < 10 ^ k := by
  change unitsPerOne = 2 ^ n at hone
  rw [hone]
  calc 2 * (digits * 2 ^ n)
      < 2 * (2 ^ (digits.log2 + 1) * 2 ^ n) := by
        gcongr
        exact Nat.lt_log2_self
    _ = 2 ^ (digits.log2 + 1 + (n + 1)) := by ring
    _ ≤ 2 ^ (3 * k) := Nat.pow_le_pow_right (by decide) h
    _ = 8 ^ k := Nat.pow_mul 2 3 k
    _ ≤ 10 ^ k := Nat.pow_le_pow_left (by decide) k

/-- A decimal may be rounded at once: those that are settled by their size are rounded to the same
number. -/
theorem toBinary64_eq (negative : Bool) (d : Decimal) :
    d.toBinary64 negative =
      ofUnits negative (d.digits * 10 ^ d.exponent.toNat * unitsPerOne)
        (10 ^ (-d.exponent).toNat) := by
  have hden : 0 < 10 ^ (-d.exponent).toNat := Nat.pow_pos (by decide)
  by_cases hzero : d.digits = 0
  · rw [toBinary64, if_pos hzero, hzero, Nat.zero_mul, Nat.zero_mul, ofUnits_eq_zero _ hden]
  by_cases hlarge : 310 ≤ d.exponent
  · obtain ⟨n, hn, hpow⟩ : ∃ n, n ≤ 310 ∧ overflowBound ≤ Nat.pow 10 n :=
      ⟨310, by decide, by decide +kernel⟩
    have hdigits : overflowBound ≤ d.digits * 10 ^ d.exponent.toNat := calc
      overflowBound ≤ 10 ^ n := hpow
      _ ≤ 10 ^ d.exponent.toNat := Nat.pow_le_pow_right (by decide) (by omega)
      _ ≤ d.digits * 10 ^ d.exponent.toNat := Nat.le_mul_of_pos_left _ (Nat.pos_of_ne_zero hzero)
    have hwhole : (-d.exponent).toNat = 0 := by omega
    rw [toBinary64, if_neg hzero, if_pos hlarge, ofUnits_eq_infinite _ hden]
    rw [hwhole, Nat.pow_zero, Nat.mul_one]
    exact Nat.mul_le_mul_right _ hdigits
  by_cases hsmall : (d.digits.log2 : Int) + 1 + 3 * d.exponent < -1076
  · have hfraction : d.exponent.toNat = 0 := by omega
    rw [toBinary64, if_neg hzero, if_neg hlarge, if_pos hsmall, ofUnits_eq_zero]
    rw [hfraction, Nat.pow_zero, Nat.mul_one]
    exact two_mul_units_lt (n := 1074) (by decide +kernel) (by omega)
  · exact toBinary64_eq_ofUnits hzero (by omega) (by omega) negative

/-- The decimals that are not too large. -/
theorem isFinite_toBinary64_iff {negative : Bool} {d : Decimal} :
    (d.toBinary64 negative).isFinite ↔ d.value < overflowBound := by
  have hden : 0 < 10 ^ (-d.exponent).toNat := Nat.pow_pos (by decide)
  have hpos : (0 : ℚ) < unitsPerOne := Nat.cast_pos.2 unitsPerOne_pos
  rw [toBinary64_eq, isFinite_ofUnits_iff hden, ← mul_lt_mul_iff_left₀ hpos, value_mul_unitsPerOne,
    div_lt_iff₀ (Nat.cast_pos.2 hden)]
  exact_mod_cast Iff.rfl

/-- They are read as the nearest number. -/
theorem isNearest_of_toBinary64 {negative : Bool} {d : Decimal} {rank : Fin rankBound}
    (h : d.toBinary64 negative = .finite negative rank) : IsNearest d.value rank := by
  rw [toBinary64_eq] at h
  exact isNearest_of_ofUnits (Nat.pow_pos (by decide)) h (value_mul_unitsPerOne d)

end Decimal

namespace Numeral

/-- The exact value that a numeral denotes. -/
def value (n : Numeral) : ℚ :=
  let fraction := n.fraction.getD []
  (Nat.ofDigitChars 10 n.whole 0 + Nat.ofDigitChars 10 fraction 0 / 10 ^ fraction.length) *
    10 ^ (n.power.map Power.exponent).getD 0

/-- The digits of a fraction may be counted with a smaller power of ten. -/
theorem value_decimal (n : Numeral) : n.decimal.value = n.value := by
  have hten : (10 : ℚ) ^ (n.fraction.getD []).length ≠ 0 := pow_ne_zero _ (by norm_num)
  rw [decimal, Decimal.ofParts, Decimal.value, value, zpow_sub₀ (by norm_num), zpow_natCast,
    Nat.ofDigitChars_append, Nat.ofDigitChars_eq_ofDigitChars_zero]
  push_cast
  field_simp

end Numeral

end LetCalc
