import LetCalc.Proofs.Json.RoundTrip
import LetCalc.Value

/-!
# Texts of a single line

A text is a line if it has no line feed. Numbers and values are written as lines, and whatever is
put in quotation marks becomes one. A text that is made of lines is made of one list of them only
(`Text.IsMadeOf.unique`), so that one can speak of the lines of an output.
-/

namespace LetCalc

namespace Text

/-- The text has no line feed. -/
abbrev IsLine (s : String) : Prop := '\n' ∉ s.toList

/-- A text inserted into another one is written as it is. -/
@[simp]
theorem toString_text (s : String) : toString s = s := rfl

/-! ## Several lines -/

/-- The text is made of the given lines, each with a line feed after it. -/
structure IsMadeOf (text : String) (lines : List String) : Prop where
  eq : text = String.join (lines.map (· ++ "\n"))
  isLine : ∀ line ∈ lines, IsLine line

/-- A line ends at its line feed. -/
theorem takeWhile_append_lineFeed {cs : List Char} (h : '\n' ∉ cs) (rest : List Char) :
    (cs ++ '\n' :: rest).takeWhile (· ≠ '\n') = cs := by
  have hall : ∀ c ∈ cs, decide (c ≠ '\n') = true := by
    intro c hc
    exact decide_eq_true fun heq => h (heq ▸ hc)
  rw [List.takeWhile_append_of_pos hall, List.takeWhile_cons_of_neg (by simp), List.append_nil]

/-- A text is made of one list of lines only. -/
theorem IsMadeOf.unique {text : String} {lines lines' : List String} (h : IsMadeOf text lines)
    (h' : IsMadeOf text lines') : lines = lines' := by
  induction lines generalizing text lines' with
  | nil =>
    have htext : text = "" := h.eq
    cases lines' with
    | nil => rfl
    | cons line' rest' =>
      have hnil := congrArg String.toList (htext.symm.trans h'.eq)
      simp at hnil
  | cons line rest ih =>
    have htext : text.toList =
        line.toList ++ '\n' :: (String.join (rest.map (· ++ "\n"))).toList := by
      simp [h.eq]
    cases lines' with
    | nil =>
      have hnil : text = "" := h'.eq
      simp [hnil] at htext
    | cons line' rest' =>
      have htext' : text.toList =
          line'.toList ++ '\n' :: (String.join (rest'.map (· ++ "\n"))).toList := by
        simp [h'.eq]
      obtain ⟨hline, hrest⟩ := List.forall_mem_cons.1 h.isLine
      obtain ⟨hline', hrest'⟩ := List.forall_mem_cons.1 h'.isLine
      -- The first line is what comes before the first line feed.
      have hlines : line.toList = line'.toList := by
        rw [← takeWhile_append_lineFeed hline, ← htext, htext', takeWhile_append_lineFeed hline']
      have hjoin : String.join (rest.map (· ++ "\n")) = String.join (rest'.map (· ++ "\n")) := by
        rw [htext, hlines] at htext'
        exact String.toList_injective (List.cons.inj (List.append_cancel_left htext')).2
      rw [String.toList_injective hlines, ih ⟨rfl, hrest⟩ ⟨hjoin, hrest'⟩]

/-! ## Digits and quotation marks -/

/-- No digit is a line feed, up to those of hexadecimal numbers. -/
theorem lineFeed_not_mem_toDigits {base : Nat} (hbase : 1 < base) (hle : base ≤ 16) (n : Nat) :
    '\n' ∉ Nat.toDigits base n := by
  have hdigit : ∀ d : Fin 16, '\n' ≠ Nat.digitChar d := by decide
  induction n using Nat.strongRecOn with
  | ind n ih =>
    by_cases hlt : n < base
    · rw [Nat.toDigits_of_lt_base hlt, List.mem_singleton]
      exact hdigit ⟨n, by omega⟩
    · have hquotient : n / base < n := Nat.div_lt_self (by omega) hbase
      have hrest : n % base < base := Nat.mod_lt n (by omega)
      rw [Nat.toDigits_of_base_le hbase (by omega), List.mem_append, List.mem_singleton]
      rintro (hmem | heq)
      · exact ih (n / base) hquotient hmem
      · exact hdigit ⟨n % base, by omega⟩ heq

@[simp]
theorem lineFeed_not_mem_decimal (n : Nat) : '\n' ∉ Nat.toDigits 10 n :=
  lineFeed_not_mem_toDigits (by decide) (by decide) n

@[simp]
theorem lineFeed_not_mem_hexadecimal (width n : Nat) : '\n' ∉ hexadecimal width n := by
  have hdigits : '\n' ∉ Nat.toDigits 16 n :=
    lineFeed_not_mem_toDigits (by decide) (by decide) n
  simp [hexadecimal, hdigits]

/-- A quoted text has its line feeds escaped. -/
theorem lineFeed_not_mem_escape {mark : Char} (hmark : mark ≠ '\n') (c : Char) :
    '\n' ∉ escape mark c := by
  unfold escape
  split_ifs with hc hfeed hreturn htab hprintable hbyte hpair
  · rcases hc with rfl | rfl
    · simp [hmark.symm]
    · simp
  · simp
  · simp
  · simp
  · -- Only a line feed itself could stand here, and it is written in another way.
    exact fun hmem => hfeed (List.mem_singleton.1 hmem).symm
  all_goals simp

/-- Whatever is quoted is a line. -/
theorem isLine_quoted (s : String) : IsLine (quoted s) := by
  have hmark : quoteMark s.toList ≠ '\n' := by
    unfold quoteMark
    split <;> decide
  simp [IsLine, quoted, hmark.symm, lineFeed_not_mem_escape hmark]

theorem isLine_toString_int (i : Int) : IsLine (toString i) := by
  cases i with
  | ofNat n =>
    show IsLine n.repr
    simp [IsLine]
  | negSucc n =>
    show IsLine ("-" ++ (n + 1).repr)
    simp [IsLine]

end Text

open Text

theorem Numeral.WellFormed.lineFeed_not_mem {n : Numeral} (h : n.WellFormed) : '\n' ∉ n.text := by
  intro hmem
  have hchar := h.isNumeralChar _ hmem
  simp [IsNumeralChar] at hchar

/-- A number is shown on a line, finite or not. -/
theorem Binary64.isLine_text (x : Binary64) : IsLine x.text := by
  cases x with
  | nan => decide
  | infinite negative => cases negative <;> decide
  | finite negative rank =>
    obtain ⟨n, hn, htext, -⟩ := exists_numeral negative rank
    rw [IsLine, htext]
    cases negative <;> simp [hn.toWellFormed.lineFeed_not_mem]

/-- So is every value. -/
@[simp]
theorem Value.isLine_text (value : Value) : IsLine value.text := by
  cases value with
  | null => decide
  | boolean b => cases b <;> decide
  | number x =>
    unfold text
    dsimp only
    split
    · exact isLine_toString_int _
    · exact x.isLine_text

end LetCalc
