import LetCalc.Proofs.Decimal.Rounding

/-!
# Numbers that are too large

A quotient is rounded past the last rank exactly if it is not below the middle between the largest
finite number, `2 ^ 1024 - 2 ^ 971`, and the number that would come next: the middle itself goes to
the even rank, which is past the last (`Binary64.rankBound_le_nearestRank_iff`). So a whole number
is that of no finite number exactly if it is at least `Binary64.overflowBound` in magnitude
(`Binary64.ofInt?_eq_none_iff`).
-/

namespace LetCalc

namespace Binary64

/-- The least magnitude that is rounded past the largest finite number. -/
def overflowBound : Nat := Nat.pow 2 1024 - Nat.pow 2 970

theorem le_divideToEven (n d : Nat) : n / d ≤ divideToEven n d := by
  unfold divideToEven
  split <;> omega

theorem divideToEven_le (n d : Nat) : divideToEven n d ≤ n / d + 1 := by
  unfold divideToEven
  split <;> omega

/-- The middle after an odd number is rounded up. -/
theorem lt_divideToEven_iff {n d m : Nat} (hm : m % 2 = 1) (hd : 0 < d) :
    m < divideToEven n d ↔ (2 * m + 1) * d ≤ 2 * n := by
  have hn : d * (n / d) + n % d = n := Nat.div_add_mod n d
  have hr : n % d < d := Nat.mod_lt n hd
  have hodd : (2 * m + 1) * d = 2 * (d * m) + d := by ring
  rcases Nat.lt_trichotomy (n / d) m with hlt | heq | hgt
  · have hle := divideToEven_le n d
    have hstep : d * (n / d) + d ≤ d * m := Nat.mul_le_mul_left d hlt
    exact iff_of_false (by omega) (by omega)
  · unfold divideToEven
    rw [heq] at hn ⊢
    split <;> omega
  · have hle := le_divideToEven n d
    have hstep : d * m + d ≤ d * (n / d) := Nat.mul_le_mul_left d hgt
    exact iff_of_true (by omega) (by omega)

section NearestRank

variable {num den : Nat}

/-- A quotient is below the power of two after its own. -/
theorem div_lt_of_log2 (num den : Nat) :
    num / (den * 2 ^ ((num / den).log2 - 52)) < 2 ^ 53 := by
  rw [← Nat.div_div_eq_div_mul, Nat.div_lt_iff_lt_mul (Nat.two_pow_pos _), ← Nat.pow_add]
  by_cases hzero : num / den = 0
  · rw [hzero]
    exact Nat.two_pow_pos _
  · exact (Nat.log2_lt hzero).1 (by omega)

theorem le_div_of_log2 (num den : Nat) (h : 52 ≤ (num / den).log2) :
    2 ^ 52 ≤ num / (den * 2 ^ ((num / den).log2 - 52)) := by
  have hne : num / den ≠ 0 := by
    intro hzero
    rw [hzero, Nat.log2_zero] at h
    omega
  rw [← Nat.div_div_eq_div_mul, Nat.le_div_iff_mul_le (Nat.two_pow_pos _), ← Nat.pow_add]
  exact (Nat.le_log2 hne).1 (by omega)

/-- The first rank of a block is reached from the middle before it on. -/
theorem block_le_nearestRank_iff (k : Nat) (hden : 0 < den) :
    (k + 3) * 2 ^ 52 ≤ nearestRank num den ↔ (2 ^ 54 - 1) * 2 ^ k * den ≤ num := by
  have hlt := div_lt_of_log2 num den
  have hge := le_div_of_log2 num den
  rw [nearestRank_def]
  generalize hshift : (num / den).log2 - 52 = shift at hlt hge ⊢
  have hd : 0 < den * 2 ^ shift := Nat.mul_pos hden (Nat.two_pow_pos shift)
  have hup := divideToEven_le num (den * 2 ^ shift)
  have hdown := le_divideToEven num (den * 2 ^ shift)
  -- The blocks before the last one, the last one, and those after it.
  rcases Nat.lt_trichotomy shift (k + 1) with hless | heq | hmore
  · refine iff_of_false (by omega) ?_
    have hnum : num < 2 ^ 53 * (den * 2 ^ shift) := (Nat.div_lt_iff_lt_mul hd).1 hlt
    have hpow : 2 ^ shift ≤ 2 ^ k := Nat.pow_le_pow_right (by decide) (by omega)
    have hle : den * 2 ^ shift ≤ den * 2 ^ k := Nat.mul_le_mul_left den hpow
    have hswap : (2 ^ 54 - 1) * 2 ^ k * den = (2 ^ 54 - 1) * (den * 2 ^ k) := by ring
    omega
  · obtain ⟨m, hm⟩ : ∃ m, m + 1 = 2 ^ 53 := ⟨2 ^ 53 - 1, by norm_num⟩
    have hiff := lt_divideToEven_iff (n := num) (m := m) (by omega) hd
    have hlast : 2 ^ 54 - 1 = 2 * m + 1 := by omega
    have hswap : (2 * m + 1) * (den * 2 ^ shift) = 2 * ((2 * m + 1) * 2 ^ k * den) := by
      rw [heq]
      ring
    rw [hswap] at hiff
    rw [hlast]
    omega
  · have hlarge := hge (by omega)
    refine iff_of_true (by omega) ?_
    have hnum : 2 ^ 52 * (den * 2 ^ shift) ≤ num := (Nat.le_div_iff_mul_le hd).1 hlarge
    have hpow : 2 ^ (k + 2) ≤ 2 ^ shift := Nat.pow_le_pow_right (by decide) hmore
    have hle : den * 2 ^ (k + 2) ≤ den * 2 ^ shift := Nat.mul_le_mul_left den hpow
    have hswap : (2 ^ 54 - 1) * 2 ^ k * den = (2 ^ 54 - 1) * (den * 2 ^ k) := by ring
    have hfour : den * 2 ^ (k + 2) = 4 * (den * 2 ^ k) := by ring
    omega

theorem rankBound_le_nearestRank_iff (hden : 0 < den) :
    rankBound ≤ nearestRank num den ↔ overflowBound * unitsPerOne * den ≤ num := by
  have hrank : rankBound = (2044 + 3) * 2 ^ 52 := by decide +kernel
  have hbound : overflowBound * unitsPerOne = (2 ^ 54 - 1) * 2 ^ 2044 := by decide +kernel
  rw [hrank, hbound]
  exact block_le_nearestRank_iff 2044 hden

end NearestRank

/-- Rounding gives a finite number exactly below the bound. -/
theorem isFinite_ofUnits_iff {negative : Bool} {num den : Nat} (hden : 0 < den) :
    (ofUnits negative num den).isFinite ↔ num < overflowBound * unitsPerOne * den := by
  rw [← Nat.not_le, ← rankBound_le_nearestRank_iff hden, Nat.not_le]
  unfold ofUnits
  split
  · rename_i h
    exact iff_of_true rfl h
  · rename_i h
    exact iff_of_false Bool.false_ne_true h

theorem isFinite_ofUnits_natAbs_iff {negative : Bool} {i : Int} :
    (ofUnits negative (i.natAbs * unitsPerOne) 1).isFinite ↔ i.natAbs < overflowBound := by
  rw [isFinite_ofUnits_iff Nat.one_pos, Nat.mul_one, Nat.mul_lt_mul_right unitsPerOne_pos]

/-- The whole numbers that are too large. -/
theorem ofInt?_eq_none_iff {i : Int} : ofInt? i = none ↔ overflowBound ≤ i.natAbs := by
  have hnone : ofInt? i = none ↔ ¬ (ofUnits (i < 0) (i.natAbs * unitsPerOne) 1).isFinite := by
    simp [ofInt?]
  rw [hnone, isFinite_ofUnits_natAbs_iff, Nat.not_lt]

/-- The other whole numbers are rounded. -/
theorem ofInt?_eq_some_iff {i : Int} {x : Binary64} :
    ofInt? i = some x ↔
      i.natAbs < overflowBound ∧ ofUnits (i < 0) (i.natAbs * unitsPerOne) 1 = x := by
  have hsome : ofInt? i = some x ↔ (ofUnits (i < 0) (i.natAbs * unitsPerOne) 1).isFinite ∧
      ofUnits (i < 0) (i.natAbs * unitsPerOne) 1 = x := by
    simp [ofInt?]
  rw [hsome, isFinite_ofUnits_natAbs_iff]

end Binary64

end LetCalc
