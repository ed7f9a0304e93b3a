import LetCalc.Decimal.Lenient
import LetCalc.Proofs.Decimal.Numeral
import Mathlib

/-!
# Numerals in free text

The lenient way to read a number accepts every numeral, and reads it as the number that the numeral
denotes (`Lenient.number?_text`). A numeral has neither blanks nor a sign nor underscores, so that
only its three parts matter.
-/

namespace LetCalc

/-- Where nothing is to be trimmed, trimming changes nothing. -/
theorem Text.trimBy_eq_self {p : Char → Bool} {cs : List Char} (h : ∀ c ∈ cs, p c = false) :
    trimBy p cs = cs := by
  have hdrop : ∀ {l : List Char}, (∀ c ∈ l, p c = false) → l.dropWhile p = l := by
    intro l hl
    cases l with
    | nil => rfl
    | cons c l => rw [List.dropWhile_cons_of_neg (by simp [hl c (by simp)])]
  rw [trimBy, hdrop h, hdrop fun c hc => h c (List.mem_reverse.1 hc), List.reverse_reverse]

namespace Lenient

open Numeral

/-- The characters of numerals are basic ones, and neither blanks nor underscores. -/
theorem basic_of_isNumeralChar {c : Char} (h : IsNumeralChar c) :
    basic c = c ∧ isBasicBlank c = false ∧ c ≠ '_' := by
  rcases h with h | h
  · have hrange := Char.isDigit_iff_toNat.1 h
    simp only [Char.reduceToNat] at hrange
    refine ⟨?_, ?_, ?_⟩
    · rw [basic, if_pos (by omega)]
    · have hblank : c ≠ ' ' := by
        rintro rfl
        simp at h
      simp only [isBasicBlank, hblank, decide_false, Bool.or_false, Bool.and_eq_false_imp,
        decide_eq_true_eq, decide_eq_false_iff_not]
      omega
    · rintro rfl
      simp at h
  · simp only [List.mem_cons, List.not_mem_nil, or_false] at h
    rcases h with rfl | rfl | rfl | rfl | rfl <;> decide

theorem withoutUnderscores?_eq_some {cs : List Char} (h : ∀ c ∈ cs, c ≠ '_') (before : Char) :
    withoutUnderscores? before cs = some cs := by
  induction cs generalizing before with
  | nil => rfl
  | cons c cs ih =>
    have hc : c ≠ '_' := h c (by simp)
    rw [withoutUnderscores?, ih (fun d hd => h d (List.mem_cons_of_mem c hd)), Option.map_some]
    exact hc

theorem exponent?_text {p : Power} (h : p.WellFormed) : exponent? p.text = some p.exponent := by
  have hall : p.digits.all Char.isDigit := by simpa using h.digits.2
  have hne : p.digits.isEmpty = false := by simpa using h.digits.1
  rcases p with ⟨mark, _ | sign, digits⟩
  · cases digits with
    | nil => simp at hne
    | cons d ds =>
      -- Without a sign the digits come at once, and the first of them is no sign.
      have hsign : ∀ c : Char, c.isDigit = false → ∀ cs, d :: ds ≠ c :: cs := by
        rintro c hc cs heq
        obtain ⟨rfl, -⟩ := List.cons.inj heq
        exact absurd h.digits.head_isDigit (by simp [hc])
      rw [Power.text, exponent?, if_pos h.mark]
      · simp [hall, Power.exponent]
      · exact hsign '-' (by decide)
      · exact hsign '+' (by decide)
  · rcases h.sign sign rfl with rfl | rfl
    · simp only [Power.text, exponent?, h.mark, ↓reduceIte, Option.toList_some,
        List.singleton_append, hne, hall]
      simp [Power.exponent]
    · simp only [Power.text, exponent?, h.mark, ↓reduceIte, Option.toList_some,
        List.singleton_append, hne, hall]
      simp [Power.exponent]

/-- Digits are told from a text that does not start with one. -/
theorem dropWhile_isDigit_append {ds rest : List Char} (h : ∀ c ∈ ds, c.isDigit)
    (hrest : rest.takeWhile Char.isDigit = []) :
    (ds ++ rest).takeWhile Char.isDigit = ds ∧ (ds ++ rest).dropWhile Char.isDigit = rest := by
  have hsplit := List.takeWhile_append_dropWhile (p := Char.isDigit) (l := rest)
  rw [hrest, List.nil_append] at hsplit
  rw [List.takeWhile_append_of_pos h, List.dropWhile_append_of_pos h, hrest, hsplit,
    List.append_nil]
  exact ⟨rfl, rfl⟩

theorem decimal?_text {n : Numeral} (h : n.WellFormed) : decimal? n.text = some n.decimal := by
  -- The whole part ends where the digits end.
  have htail := h.takeWhile_tail_eq_nil [] (.inr .nil)
  rw [List.append_nil] at htail
  obtain ⟨hwhole, hrest⟩ := dropWhile_isDigit_append h.whole.isDigits.2 htail
  rw [← List.append_assoc] at hwhole hrest
  have hpower : ((n.power.map Power.text).getD []).takeWhile Char.isDigit = [] ∧
      ((n.power.map Power.text).getD []).head? ≠ some '.' := by
    cases hp : n.power with
    | none => simp
    | some p => simpa using (h.power p hp).head?_text_append []
  have hexponent : exponent? ((n.power.map Power.text).getD []) =
      some ((n.power.map Power.exponent).getD 0) := by
    cases hp : n.power with
    | none => rfl
    | some p => exact exponent?_text (h.power p hp)
  have hne : n.whole.isEmpty = false := by simpa using h.whole.isDigits.1
  rw [decimal?, text, hwhole, hrest, decimal]
  generalize (n.power.map Power.text).getD [] = powerText at hpower hexponent
  cases hf : n.fraction with
  | none =>
    simp only [Option.map_none, Option.getD_none, List.nil_append]
    split
    · simp at hpower
    · simp [hne, hexponent]
  | some ds =>
    obtain ⟨hds, hafter⟩ := dropWhile_isDigit_append (h.fraction ds hf).2 hpower.1
    simp [hne, hds, hafter, hexponent]

/-- A text that starts with a digit is none of the words. -/
theorem magnitude?_of_isDigit {c : Char} (hc : c.isDigit) (negative : Bool) (cs : List Char) :
    magnitude? negative (c :: cs) = (decimal? (c :: cs)).map (·.toBinary64 negative) := by
  have hword : ∀ c' cs', c'.isDigit = false →
      String.ofList ((c :: cs).map Char.toLower) ≠ String.ofList (c' :: cs') := by
    intro c' cs' hc' heq
    have hlower : c.toLower = c := by
      have hrange := Char.isDigit_iff_toNat.1 hc
      simp only [Char.reduceToNat] at hrange
      rw [Char.toLower, dif_neg]
      simp only [Char.reduceVal, ge_iff_le, UInt32.le_iff_toNat_le, UInt32.reduceToNat,
        Char.toNat_val, not_and, not_le]
      omega
    obtain ⟨hhead, -⟩ := List.cons.inj (String.ofList_injective heq)
    rw [hlower] at hhead
    rw [hhead, hc'] at hc
    exact absurd hc (by decide)
  rw [magnitude?, if_neg, if_neg]
  · exact hword 'n' ['a', 'n'] (by decide)
  · rintro (heq | heq)
    · exact hword 'i' ['n', 'f'] (by decide) heq
    · exact hword 'i' ['n', 'f', 'i', 'n', 'i', 't', 'y'] (by decide) heq

/-- A numeral is read as the number that it denotes. -/
theorem number?_text {n : Numeral} (h : n.WellFormed) :
    number? (String.ofList n.text) = some (n.decimal.toBinary64 false) := by
  have hchar := fun c hc => basic_of_isNumeralChar (h.isNumeralChar c hc)
  have hbasic : n.text.map basic = n.text :=
    (List.map_congr_left fun c hc => (hchar c hc).1).trans (List.map_id _)
  have htrim : Text.trimBy isBasicBlank n.text = n.text :=
    Text.trimBy_eq_self fun c hc => (hchar c hc).2.1
  have hunderscores : withoutUnderscores? ' ' n.text = some n.text :=
    withoutUnderscores?_eq_some (fun c hc => (hchar c hc).2.2) ' '
  have hmagnitude : magnitude? false n.text = some (n.decimal.toBinary64 false) := by
    obtain ⟨c, cs, hcs, hc⟩ := h.exists_text_eq_cons
    rw [hcs, magnitude?_of_isDigit hc, ← hcs, decimal?_text h, Option.map_some]
  rw [number?, String.toList_ofList, hbasic, htrim, hunderscores, Option.bind_eq_bind,
    Option.bind_some]
  -- The first character is a digit, so that no sign is taken off.
  obtain ⟨c, cs, hcs, hc⟩ := h.exists_text_eq_cons
  split
  · rename_i rest hrest
    obtain ⟨rfl, -⟩ := List.cons.inj (hcs.symm.trans hrest)
    exact absurd hc (by decide)
  · rename_i rest hrest
    obtain ⟨rfl, -⟩ := List.cons.inj (hcs.symm.trans hrest)
    exact absurd hc (by decide)
  · exact hmagnitude

end Lenient

end LetCalc
