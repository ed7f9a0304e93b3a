import LetCalc.Decimal
import Mathlib

/-!
# Rounding

Rounding depends on a quotient and not on how it is written (`Binary64.ofUnits_mul_right`), and it
changes nothing where the quotient is a magnitude already (`Binary64.ofUnits_unitsAt`). Therefore
the decimal that is found for a number reads back as that number (`Decimal.toBinary64_shortest`):
either it was checked, or it is exact.
-/

namespace LetCalc

namespace Binary64

variable {k : Nat}

theorem unitsPerOne_pos : 0 < unitsPerOne := by decide +kernel

theorem divideToEven_mul_right (n d : Nat) (hk : 0 < k) :
    divideToEven (n * k) (d * k) = divideToEven n d := by
  have hlt : d * k < 2 * (n % d * k) ↔ d < 2 * (n % d) := by
    rw [← Nat.mul_assoc, Nat.mul_lt_mul_right hk]
  have heq : d * k = 2 * (n % d * k) ↔ d = 2 * (n % d) := by
    rw [← Nat.mul_assoc, Nat.mul_left_inj (Nat.ne_of_gt hk)]
  simp only [divideToEven, Nat.mul_div_mul_right n d hk, Nat.mul_mod_mul_right, hlt, heq]

theorem divideToEven_mul_self (n : Nat) {d : Nat} (hd : 0 < d) : divideToEven (n * d) d = n := by
  unfold divideToEven
  rw [Nat.mul_mod_left, Nat.mul_div_cancel n hd, if_neg (by omega)]

theorem nearestRank_mul_right (num den : Nat) (hk : 0 < k) :
    nearestRank (num * k) (den * k) = nearestRank num den := by
  simp only [nearestRank, Nat.mul_div_mul_right num den hk]
  rw [Nat.mul_right_comm, divideToEven_mul_right _ _ hk]

theorem ofUnits_mul_right (negative : Bool) (num den : Nat) (hk : 0 < k) :
    ofUnits negative (num * k) (den * k) = ofUnits negative num den := by
  simp only [ofUnits, nearestRank_mul_right num den hk]

theorem unitsAt_def (rank : Nat) :
    unitsAt rank =
      (rank - (rank / 2 ^ 52 - 1) * 2 ^ 52) * 2 ^ (rank / 2 ^ 52 - 1) := rfl

theorem nearestRank_def (num den : Nat) :
    nearestRank num den = ((num / den).log2 - 52) * 2 ^ 52 +
      divideToEven num (den * 2 ^ ((num / den).log2 - 52)) := rfl

/-- The first two blocks of ranks count units. -/
theorem unitsAt_of_lt {rank : Nat} (h : rank < 2 ^ 53) : unitsAt rank = rank := by
  have hshift : rank / 2 ^ 52 - 1 = 0 := by omega
  rw [unitsAt_def, hshift, Nat.zero_mul, Nat.sub_zero, Nat.pow_zero, Nat.mul_one]

/-- The magnitude at a rank of a later block. -/
theorem unitsAt_eq {rank shift m : Nat} (h : rank = shift * 2 ^ 52 + m) (hm : 2 ^ 52 ≤ m)
    (hm' : m < 2 ^ 53) : unitsAt rank = m * 2 ^ shift := by
  have hshift : rank / 2 ^ 52 - 1 = shift := by omega
  have hrest : rank - shift * 2 ^ 52 = m := by omega
  rw [unitsAt_def, hshift, hrest]

/-- Every rank of a later block is of the form that `unitsAt_eq` speaks of. -/
theorem exists_block {rank : Nat} (h : 2 ^ 52 ≤ rank) :
    ∃ shift m, rank = shift * 2 ^ 52 + m ∧ 2 ^ 52 ≤ m ∧ m < 2 ^ 53 :=
  ⟨rank / 2 ^ 52 - 1, rank - (rank / 2 ^ 52 - 1) * 2 ^ 52, by omega, by omega, by omega⟩

theorem unitsAt_pos {rank : Nat} (h : 0 < rank) : 0 < unitsAt rank := by
  by_cases hlt : rank < 2 ^ 53
  · rwa [unitsAt_of_lt hlt]
  · have hle : 2 ^ 52 ≤ rank := by omega
    obtain ⟨shift, m, hrank, hm, hm'⟩ := exists_block hle
    rw [unitsAt_eq hrank hm hm']
    exact Nat.mul_pos (by omega) (Nat.two_pow_pos shift)

/-- The rank nearest to a magnitude is its own. -/
theorem nearestRank_unitsAt (rank : Nat) : nearestRank (unitsAt rank) 1 = rank := by
  by_cases hlt : rank < 2 ^ 52
  · -- Ranks of the first block are not shifted.
    have hshift : rank.log2 - 52 = 0 := by
      by_cases hzero : rank = 0
      · rw [hzero, Nat.log2_zero]
      · have := (Nat.log2_lt hzero).2 hlt
        omega
    rw [unitsAt_of_lt (by omega), nearestRank_def, Nat.div_one, hshift]
    simpa using divideToEven_mul_self rank Nat.one_pos
  · obtain ⟨shift, m, hrank, hm, hm'⟩ := exists_block (Nat.le_of_not_lt hlt)
    -- The number of binary digits tells the block.
    have hlog : (m * 2 ^ shift).log2 - 52 = shift := by
      have hne : m * 2 ^ shift ≠ 0 :=
        Nat.mul_ne_zero (by omega) (Nat.ne_of_gt (Nat.two_pow_pos shift))
      have hle : 52 + shift ≤ (m * 2 ^ shift).log2 := by
        rw [Nat.le_log2 hne, Nat.pow_add]
        exact Nat.mul_le_mul_right _ hm
      have hlt : (m * 2 ^ shift).log2 < 53 + shift := by
        rw [Nat.log2_lt hne, Nat.pow_add]
        exact Nat.mul_lt_mul_of_pos_right hm' (Nat.two_pow_pos shift)
      omega
    rw [unitsAt_eq hrank hm hm', nearestRank_def, Nat.div_one, hlog, Nat.one_mul,
      divideToEven_mul_self m (Nat.two_pow_pos shift), hrank]

/-- A magnitude is not changed by rounding. -/
theorem ofUnits_unitsAt (negative : Bool) (rank : Fin rankBound) :
    ofUnits negative (unitsAt rank) 1 = .finite negative rank := by
  have hrank := nearestRank_unitsAt rank
  have hlt : nearestRank (unitsAt rank) 1 < rankBound := by
    rw [hrank]
    exact rank.isLt
  have hfin : (⟨nearestRank (unitsAt rank) 1, hlt⟩ : Fin rankBound) = rank := Fin.ext hrank
  rw [ofUnits, dif_pos hlt, hfin]

end Binary64

namespace Decimal

open Binary64

/-- The result of reading a decimal that is not settled by its size. -/
theorem toBinary64_eq_ofUnits {d : Decimal} (hdigits : d.digits ≠ 0) (hexponent : d.exponent < 310)
    (hsize : -1076 ≤ (d.digits.log2 : Int) + 1 + 3 * d.exponent) (negative : Bool) :
    d.toBinary64 negative =
      .ofUnits negative (d.digits * 10 ^ d.exponent.toNat * unitsPerOne)
        (10 ^ (-d.exponent).toNat) := by
  rw [toBinary64, if_neg hdigits, if_neg (by omega), if_neg (by omega)]
  rfl

/-- The sign is not looked at. -/
theorem toBinary64_of_false {d : Decimal} {rank : Fin rankBound}
    (h : d.toBinary64 false = .finite false rank) (negative : Bool) :
    d.toBinary64 negative = .finite negative rank := by
  have hzero : ∀ b, zero b = .finite b rank ↔ (⟨0, by decide⟩ : Fin rankBound) = rank := by
    simp [zero]
  have hunits : ∀ b num den, ofUnits b num den = .finite b rank ↔ nearestRank num den = rank := by
    intro b num den
    unfold ofUnits
    split
    · simp [Fin.ext_iff]
    · rename_i hlarge
      simp only [reduceCtorEq, false_iff]
      exact fun hrank => hlarge (hrank ▸ rank.isLt)
  unfold toBinary64 at h ⊢
  by_cases hdigits : d.digits = 0
  · rw [if_pos hdigits] at h ⊢
    exact (hzero negative).2 ((hzero false).1 h)
  · rw [if_neg hdigits] at h ⊢
    by_cases hlarge : 310 ≤ d.exponent
    · simp [hlarge] at h
    · rw [if_neg hlarge] at h ⊢
      by_cases hsmall : (d.digits.log2 : Int) + 1 + 3 * d.exponent < -1076
      · rw [if_pos hsmall] at h ⊢
        exact (hzero negative).2 ((hzero false).1 h)
      · rw [if_neg hsmall] at h ⊢
        exact (hunits negative _ _).2 ((hunits false _ _).1 h)

/-- The exact value of a number of units reads back. The binary digits after the point are as many
as a unit has. -/
theorem toBinary64_exact {units n : Nat} (hunits : 0 < units) (hn : n ≤ 1077)
    (hone : unitsPerOne = Nat.pow 2 n) (negative : Bool) :
    toBinary64 negative ⟨units * Nat.pow 5 n, -n⟩ = ofUnits negative units 1 := by
  change unitsPerOne = 2 ^ n at hone
  change toBinary64 negative ⟨units * 5 ^ n, -n⟩ = _
  have hne : units * 5 ^ n ≠ 0 :=
    Nat.mul_ne_zero (Nat.ne_of_gt hunits) (Nat.ne_of_gt (Nat.pow_pos (by decide)))
  -- There are enough digits for the decimal not to be taken for zero at once.
  have hlog : 2 * n ≤ (units * 5 ^ n).log2 := by
    rw [Nat.le_log2 hne, Nat.pow_mul]
    exact Nat.le_trans (Nat.pow_le_pow_left (by decide) n) (Nat.le_mul_of_pos_left _ hunits)
  have hscale : units * 5 ^ n * 2 ^ n = units * 10 ^ n := by
    rw [Nat.mul_assoc, ← Nat.mul_pow]
  have hten : 0 < 10 ^ n := Nat.pow_pos (by decide)
  rw [toBinary64_eq_ofUnits hne (by dsimp only; omega) (by dsimp only; omega), hone]
  have hzero : (-(n : Int)).toNat = 0 := by omega
  have hexponent : (-(-(n : Int))).toNat = n := by omega
  dsimp only
  rw [hzero, hexponent, Nat.pow_zero, Nat.mul_one, hscale]
  have hround := ofUnits_mul_right negative units 1 hten
  rwa [Nat.one_mul] at hround

/-- The decimal with the fewest digits reads back. -/
theorem toBinary64_shortest {rank : Fin rankBound} (h : 0 < rank.val) :
    (shortest rank).toBinary64 false = .finite false rank := by
  have hsteps : ∀ steps exponent,
      (shortestFrom rank steps exponent).toBinary64 false = .finite false rank := by
    intro steps
    induction steps with
    | zero =>
      intro exponent
      -- After the last step the exact value is taken, with all its digits.
      have hexact := toBinary64_exact (n := 1074) (unitsAt_pos h) (by decide) rfl false
      exact hexact.trans (ofUnits_unitsAt false rank)
    | succ steps ih =>
      intro exponent
      rw [shortestFrom]
      cases hneighbour : neighbour? rank exponent with
      | none => exact ih (exponent - 1)
      | some d =>
        -- A neighbour is taken only if it reads back.
        have hfound := List.find?_some hneighbour
        simpa using hfound
  exact hsteps _ _

theorem digits_shortest_pos {rank : Fin rankBound} (h : 0 < rank.val) :
    0 < (shortest rank).digits := by
  refine Nat.pos_of_ne_zero fun hzero => ?_
  have hread := toBinary64_shortest h
  rw [toBinary64, if_pos hzero, zero] at hread
  simp only [finite.injEq, true_and] at hread
  rw [← hread] at h
  exact Nat.lt_irrefl 0 h

/-- A whole number may be written with a fraction that is zero. -/
theorem toBinary64_mul_ten {digits exponent : Nat} (h : exponent < 310) (negative : Bool) :
    toBinary64 negative ⟨digits * 10 ^ (exponent + 1), -1⟩ =
      toBinary64 negative ⟨digits, exponent⟩ := by
  by_cases hdigits : digits = 0
  · simp [toBinary64, hdigits]
  · have hne : digits * 10 ^ (exponent + 1) ≠ 0 :=
      Nat.mul_ne_zero hdigits (Nat.ne_of_gt (Nat.pow_pos (by decide)))
    rw [toBinary64_eq_ofUnits hne (by simp) (by simp; omega),
      toBinary64_eq_ofUnits hdigits (by dsimp only; omega) (by dsimp only; omega)]
    show ofUnits negative (digits * 10 ^ (exponent + 1) * 10 ^ 0 * unitsPerOne) (10 ^ 1) =
      ofUnits negative (digits * 10 ^ exponent * unitsPerOne) (10 ^ (-(exponent : Int)).toNat)
    have hzero : (-(exponent : Int)).toNat = 0 := by omega
    have hten : digits * 10 ^ (exponent + 1) * 10 ^ 0 * unitsPerOne =
        digits * 10 ^ exponent * unitsPerOne * 10 := by
      rw [Nat.pow_zero, Nat.mul_one, Nat.pow_succ, ← Nat.mul_assoc, Nat.mul_right_comm]
    rw [hzero, hten, Nat.pow_zero]
    exact ofUnits_mul_right negative (digits * 10 ^ exponent * unitsPerOne) 1 (by decide)

end Decimal

end LetCalc
