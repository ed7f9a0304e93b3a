import LetCalc.Token.Lexer
import LetCalc.Proofs.Decimal.Lenient
import Mathlib

/-!
# The words that tokens are made of

Every token is a word of one of ten languages, the *terminals*. They are given as regular languages,
without a word about how a text is searched for them:

    NUMBER     = (0 | [1-9][0-9]*) (. [0-9]+)? ([eE] [+-]? [0-9]+)?
    IDENTIFIER = [A-Za-z_] [A-Za-z0-9_]*

and eight punctuation marks. The first character of a word tells its terminal.

* `Terminal.mem_number_iff`: the words of `NUMBER` are the texts of the numerals.
* `Terminal.Tags`: the kind of the token that a word makes.
* `Terminal.Tags.unique`: a word makes tokens of one kind only.
-/

namespace LetCalc

open Computability

/-- A character class: the words of one character in one of the given ranges. -/
def charClass (ranges : List (Char × Char)) : Language Char :=
  {w | ∃ c, (∃ r ∈ ranges, r.1 ≤ c ∧ c ≤ r.2) ∧ w = [c]}

/-- The languages that words belong to. -/
inductive Terminal where
  | leftParen
  | rightParen
  | plus
  | minus
  | star
  | slash
  | equals
  | semicolon
  | number
  | identifier
deriving DecidableEq, Repr

namespace Terminal

/-- A digit. -/
def digit : Language Char := charClass [('0', '9')]

/-- The words of a terminal. -/
def language : Terminal → Language Char
  | .leftParen => {['(']}
  | .rightParen => {[')']}
  | .plus => {['+']}
  | .minus => {['-']}
  | .star => {['*']}
  | .slash => {['/']}
  | .equals => {['=']}
  | .semicolon => {[';']}
  | .number =>
    ({['0']} + charClass [('1', '9')] * digit∗) *
      (1 + {['.']} * (digit * digit∗)) *
      (1 + charClass [('e', 'e'), ('E', 'E')] * (1 + charClass [('+', '+'), ('-', '-')]) *
        (digit * digit∗))
  | .identifier =>
    charClass [('A', 'Z'), ('a', 'z'), ('_', '_')] *
      (charClass [('A', 'Z'), ('a', 'z'), ('0', '9'), ('_', '_')])∗

/-- The kind of the tokens that a word of a terminal makes. A numeral has to be finite when it is
read as a number, and two words are keywords. -/
inductive Tags : Terminal → String → Token.Kind → Prop
  | leftParen {word : String} : Tags .leftParen word .leftParen
  | rightParen {word : String} : Tags .rightParen word .rightParen
  | plus {word : String} : Tags .plus word .plus
  | minus {word : String} : Tags .minus word .minus
  | star {word : String} : Tags .star word .star
  | slash {word : String} : Tags .slash word .slash
  | equals {word : String} : Tags .equals word .equals
  | semicolon {word : String} : Tags .semicolon word .semicolon
  | number {word : String} {x : Binary64} :
      Lenient.number? word = some x → x.isFinite → Tags .number word (.number x)
  | letKeyword {word : String} : word = "let" → Tags .identifier word .letKeyword
  | constKeyword {word : String} : word = "const" → Tags .identifier word .constKeyword
  | identifier {word : String} :
      word ≠ "let" → word ≠ "const" → Tags .identifier word .identifier

/-! ## Words as lists of characters -/

theorem mem_charClass_iff {ranges : List (Char × Char)} {p : Char → Bool}
    (h : ∀ c, p c = true ↔ ∃ r ∈ ranges, r.1 ≤ c ∧ c ≤ r.2) {w : List Char} :
    w ∈ charClass ranges ↔ ∃ c, p c = true ∧ w = [c] := by
  simp only [h]
  rfl

/-- Repeating a character class gives the words of its characters. -/
theorem mem_kstar_charClass_iff {ranges : List (Char × Char)} {p : Char → Bool}
    (h : ∀ c, p c = true ↔ ∃ r ∈ ranges, r.1 ≤ c ∧ c ≤ r.2) {w : List Char} :
    w ∈ (charClass ranges)∗ ↔ ∀ c ∈ w, p c = true := by
  rw [Language.mem_kstar]
  constructor
  · rintro ⟨parts, rfl, hparts⟩ c hc
    obtain ⟨part, hpart, hcpart⟩ := List.mem_flatten.1 hc
    obtain ⟨d, hd, rfl⟩ := (mem_charClass_iff h).1 (hparts part hpart)
    rwa [List.mem_singleton.1 hcpart]
  · intro hw
    -- A word is repeated from its characters, one at a time.
    have hflat : w = (w.map fun c => [c]).flatten := by
      rw [← List.flatMap_def, List.flatMap_singleton']
    refine ⟨w.map fun c => [c], hflat, fun part hpart => ?_⟩
    obtain ⟨c, hc, rfl⟩ := List.mem_map.1 hpart
    exact (mem_charClass_iff h).2 ⟨c, hw c hc, rfl⟩

theorem isDigit_iff (c : Char) :
    c.isDigit = true ↔ ∃ r ∈ [('0', '9')], r.1 ≤ c ∧ c ≤ r.2 := by
  simp [Char.isDigit, Char.le_def]

/-- A single character is a range. -/
theorem eq_iff_range {c d : Char} : c = d ↔ d ≤ c ∧ c ≤ d :=
  ⟨fun h => h ▸ ⟨Char.le_refl c, Char.le_refl c⟩, fun h => Char.le_antisymm h.2 h.1⟩

theorem isNameStart_iff (c : Char) :
    Lexer.isNameStart c = true ↔
      ∃ r ∈ [('A', 'Z'), ('a', 'z'), ('_', '_')], r.1 ≤ c ∧ c ≤ r.2 := by
  simp [Lexer.isNameStart, Char.isAlpha, Char.isUpper, Char.isLower, Char.le_def, or_assoc,
    eq_iff_range (d := '_')]

theorem isNamePart_iff (c : Char) :
    Lexer.isNamePart c = true ↔
      ∃ r ∈ [('A', 'Z'), ('a', 'z'), ('0', '9'), ('_', '_')], r.1 ≤ c ∧ c ≤ r.2 := by
  simp [Lexer.isNamePart, Char.isAlphanum, Char.isAlpha, Char.isUpper, Char.isLower, Char.isDigit,
    Char.le_def, or_assoc, eq_iff_range (d := '_')]

/-- The words of digits. -/
theorem mem_digits_iff {w : List Char} : w ∈ digit * digit∗ ↔ Numeral.IsDigits w := by
  rw [Language.mem_mul]
  constructor
  · rintro ⟨first, hfirst, rest, hrest, rfl⟩
    obtain ⟨c, hc, rfl⟩ := (mem_charClass_iff isDigit_iff).1 hfirst
    refine ⟨by simp, ?_⟩
    rintro d hd
    rcases List.mem_cons.1 hd with rfl | hd
    · exact hc
    · exact (mem_kstar_charClass_iff isDigit_iff).1 hrest d hd
  · rintro ⟨hne, hdigits⟩
    cases w with
    | nil => exact absurd rfl hne
    | cons c rest =>
      refine ⟨[c], (mem_charClass_iff isDigit_iff).2 ⟨c, hdigits c (by simp), rfl⟩, rest, ?_, rfl⟩
      rw [digit, mem_kstar_charClass_iff isDigit_iff]
      exact fun d hd => hdigits d (List.mem_cons_of_mem c hd)

/-- The words for a whole part. -/
theorem mem_whole_iff {w : List Char} :
    w ∈ ({['0']} + charClass [('1', '9')] * digit∗ : Language Char) ↔ Numeral.IsWholePart w := by
  have hnonzero : ∀ c : Char, (c.isDigit && c ≠ '0') = true ↔
      ∃ r ∈ [('1', '9')], r.1 ≤ c ∧ c ≤ r.2 := by
    intro c
    -- Ranges of characters are compared by their numbers.
    have hzero : c = '0' ↔ c.toNat = 48 := Char.toNat_inj.symm
    simp only [Bool.and_eq_true, Char.isDigit_iff_toNat, hzero, decide_eq_true_eq, Char.reduceToNat,
      List.mem_singleton, exists_eq_left, Char.le_def, UInt32.le_iff_toNat_le, ne_eq]
    simp only [Char.reduceVal, UInt32.reduceToNat, Char.toNat_val]
    omega
  rw [Language.mem_add, Language.mem_mul]
  constructor
  · rintro (hzero | ⟨first, hfirst, rest, hrest, rfl⟩)
    · exact .inl hzero
    · obtain ⟨c, hc, rfl⟩ := (mem_charClass_iff hnonzero).1 hfirst
      obtain ⟨hdigit, hne⟩ := Bool.and_eq_true_iff.1 hc
      refine .inr ⟨⟨by simp, fun d hd => ?_⟩, by simpa using hne⟩
      rcases List.mem_cons.1 hd with rfl | hd
      · exact hdigit
      · exact (mem_kstar_charClass_iff isDigit_iff).1 hrest d hd
  · rintro (hzero | ⟨⟨hne, hdigits⟩, hhead⟩)
    · exact .inl hzero
    · cases w with
      | nil => exact absurd rfl hne
      | cons c rest =>
        have hc : c ≠ '0' := by simpa using hhead
        refine .inr ⟨[c], (mem_charClass_iff hnonzero).2 ⟨c, by simp [hdigits c, hc], rfl⟩, rest,
          ?_, rfl⟩
        rw [digit, mem_kstar_charClass_iff isDigit_iff]
        exact fun d hd => hdigits d (List.mem_cons_of_mem c hd)

/-- The words for a fraction. -/
theorem mem_fraction_iff {w : List Char} :
    w ∈ (1 + {['.']} * (digit * digit∗) : Language Char) ↔
      ∃ fraction : Option (List Char), (∀ ds ∈ fraction, Numeral.IsDigits ds) ∧
        w = (fraction.map ('.' :: ·)).getD [] := by
  rw [Language.mem_add, Language.mem_mul, Language.mem_one]
  constructor
  · rintro (rfl | ⟨point, rfl, ds, hds, rfl⟩)
    · exact ⟨none, by simp, rfl⟩
    · exact ⟨some ds, by simpa using mem_digits_iff.1 hds, rfl⟩
  · rintro ⟨_ | ds, hds, rfl⟩
    · exact .inl rfl
    · exact .inr ⟨['.'], rfl, ds, mem_digits_iff.2 (hds ds rfl), rfl⟩

/-- The words for the sign of a power of ten. -/
theorem mem_sign_iff {w : List Char} :
    w ∈ (1 + charClass [('+', '+'), ('-', '-')] : Language Char) ↔
      ∃ sign : Option Char, (∀ c ∈ sign, c = '+' ∨ c = '-') ∧ w = sign.toList := by
  have hsign : ∀ c : Char, (c = '+' || c = '-') = true ↔
      ∃ r ∈ [('+', '+'), ('-', '-')], r.1 ≤ c ∧ c ≤ r.2 := by
    intro c
    simp [eq_iff_range]
  rw [Language.mem_add, Language.mem_one, mem_charClass_iff hsign]
  constructor
  · rintro (rfl | ⟨c, hc, rfl⟩)
    · exact ⟨none, by simp, rfl⟩
    · exact ⟨some c, by simpa using hc, rfl⟩
  · rintro ⟨_ | c, hc, rfl⟩
    · exact .inl rfl
    · exact .inr ⟨c, by simpa using hc c rfl, rfl⟩

/-- The words for a power of ten. -/
theorem mem_power_iff {w : List Char} :
    w ∈ (1 + charClass [('e', 'e'), ('E', 'E')] * (1 + charClass [('+', '+'), ('-', '-')]) *
        (digit * digit∗) : Language Char) ↔
      ∃ power : Option Numeral.Power, (∀ p ∈ power, p.WellFormed) ∧
        w = (power.map Numeral.Power.text).getD [] := by
  have hmark : ∀ c : Char, (c = 'e' || c = 'E') = true ↔
      ∃ r ∈ [('e', 'e'), ('E', 'E')], r.1 ≤ c ∧ c ≤ r.2 := by
    intro c
    simp [eq_iff_range]
  rw [Language.mem_add, Language.mem_mul, Language.mem_one]
  constructor
  · rintro (rfl | ⟨start, hstart, ds, hds, rfl⟩)
    · exact ⟨none, by simp, rfl⟩
    · obtain ⟨mark, hm, signText, hs, rfl⟩ := Language.mem_mul.1 hstart
      obtain ⟨c, hc, rfl⟩ := (mem_charClass_iff hmark).1 hm
      obtain ⟨sign, hsign, rfl⟩ := mem_sign_iff.1 hs
      have hwellFormed : Numeral.Power.WellFormed ⟨c, sign, ds⟩ :=
        ⟨by simpa using hc, hsign, mem_digits_iff.1 hds⟩
      refine ⟨some ⟨c, sign, ds⟩, ?_, by simp [Numeral.Power.text]⟩
      rintro p hp
      rwa [← Option.some.inj hp]
  · rintro ⟨_ | p, hp, rfl⟩
    · exact .inl rfl
    · have hwellFormed := hp p rfl
      have hm : [p.mark] ∈ charClass [('e', 'e'), ('E', 'E')] :=
        (mem_charClass_iff hmark).2 ⟨p.mark, by simpa using hwellFormed.mark, rfl⟩
      have hs := mem_sign_iff.2 ⟨p.sign, hwellFormed.sign, rfl⟩
      refine .inr ⟨_, Language.append_mem_mul hm hs, p.digits, ?_, by simp [Numeral.Power.text]⟩
      exact mem_digits_iff.2 hwellFormed.digits

/-- The words of `NUMBER` are the texts of the numerals. -/
theorem mem_number_iff {w : List Char} :
    w ∈ Terminal.number.language ↔ ∃ n : Numeral, n.WellFormed ∧ w = n.text := by
  rw [language, Language.mem_mul]
  constructor
  · rintro ⟨start, hstart, powerText, hpower, rfl⟩
    obtain ⟨whole, hwhole, fractionText, hfraction, rfl⟩ := Language.mem_mul.1 hstart
    obtain ⟨fraction, hdigits, rfl⟩ := mem_fraction_iff.1 hfraction
    obtain ⟨power, hwellFormed, rfl⟩ := mem_power_iff.1 hpower
    exact ⟨⟨whole, fraction, power⟩, ⟨mem_whole_iff.1 hwhole, hdigits, hwellFormed⟩, rfl⟩
  · rintro ⟨n, hn, rfl⟩
    refine ⟨_, Language.append_mem_mul (mem_whole_iff.2 hn.whole) ?_, _, ?_, rfl⟩
    · exact mem_fraction_iff.2 ⟨n.fraction, hn.fraction, rfl⟩
    · exact mem_power_iff.2 ⟨n.power, hn.power, rfl⟩

/-- The words of `IDENTIFIER`. -/
theorem mem_identifier_iff {w : List Char} :
    w ∈ Terminal.identifier.language ↔
      ∃ c cs, Lexer.isNameStart c = true ∧ (∀ d ∈ cs, Lexer.isNamePart d = true) ∧ w = c :: cs := by
  rw [language, Language.mem_mul]
  constructor
  · rintro ⟨first, hfirst, rest, hrest, rfl⟩
    obtain ⟨c, hc, rfl⟩ := (mem_charClass_iff isNameStart_iff).1 hfirst
    exact ⟨c, rest, hc, (mem_kstar_charClass_iff isNamePart_iff).1 hrest, rfl⟩
  · rintro ⟨c, cs, hc, hcs, rfl⟩
    exact ⟨[c], (mem_charClass_iff isNameStart_iff).2 ⟨c, hc, rfl⟩, cs,
      (mem_kstar_charClass_iff isNamePart_iff).2 hcs, rfl⟩

/-! ## The first character of a word -/

/-- The terminal of a punctuation mark. -/
def ofMark? : Char → Option Terminal
  | '(' => some .leftParen
  | ')' => some .rightParen
  | '+' => some .plus
  | '-' => some .minus
  | '*' => some .star
  | '/' => some .slash
  | '=' => some .equals
  | ';' => some .semicolon
  | _ => none

/-- The terminal of the words that start with a character. -/
def ofFirst? (c : Char) : Option Terminal :=
  if c.isDigit then some .number
  else if Lexer.isNameStart c then some .identifier
  else ofMark? c

theorem not_isDigit_of_isNameStart {c : Char} (h : Lexer.isNameStart c) : c.isDigit = false := by
  rw [Bool.eq_false_iff, ne_eq, Char.isDigit_iff_toNat]
  simp only [isNameStart_iff, List.mem_cons, List.not_mem_nil, or_false, Char.le_def,
    UInt32.le_iff_toNat_le, Char.toNat_val] at h
  obtain ⟨r, rfl | rfl | rfl, hlow, hhigh⟩ := h
  all_goals
    simp only [Char.reduceToNat] at hlow hhigh ⊢
    omega

/-- A word starts with a character, which tells its terminal. -/
theorem exists_cons_of_mem {T : Terminal} {w : List Char} (h : w ∈ T.language) :
    ∃ c cs, w = c :: cs ∧ ofFirst? c = some T := by
  cases T with
  | number =>
    obtain ⟨n, hn, rfl⟩ := mem_number_iff.1 h
    obtain ⟨c, cs, hcs, hc⟩ := hn.exists_text_eq_cons
    exact ⟨c, cs, hcs, by rw [ofFirst?, if_pos hc]⟩
  | identifier =>
    obtain ⟨c, cs, hc, -, rfl⟩ := mem_identifier_iff.1 h
    refine ⟨c, cs, rfl, ?_⟩
    rw [ofFirst?, not_isDigit_of_isNameStart hc, if_neg Bool.false_ne_true, if_pos hc]
  | _ => exact ⟨_, [], h, by decide⟩

theorem eq_of_mem {T T' : Terminal} {w : List Char} (h : w ∈ T.language) (h' : w ∈ T'.language) :
    T = T' := by
  obtain ⟨c, cs, rfl, hc⟩ := exists_cons_of_mem h
  obtain ⟨c', cs', hcs, hc'⟩ := exists_cons_of_mem h'
  obtain ⟨rfl, rfl⟩ := List.cons.inj hcs
  exact Option.some.inj (hc.symm.trans hc')

/-! ## The kinds of tokens -/

/-- A word makes tokens of one kind only. -/
theorem Tags.unique {T : Terminal} {word : String} {kind kind' : Token.Kind}
    (h : T.Tags word kind) (h' : T.Tags word kind') : kind = kind' := by
  cases h with
  | number hx _ =>
    cases h' with
    | number hx' _ => rw [Option.some.inj (hx.symm.trans hx')]
  | letKeyword hword =>
    cases h' with
    | letKeyword => rfl
    | constKeyword hword' => exact absurd (hword.symm.trans hword') (by decide)
    | identifier hlet _ => exact absurd hword hlet
  | constKeyword hword =>
    cases h' with
    | letKeyword hword' => exact absurd (hword.symm.trans hword') (by decide)
    | constKeyword => rfl
    | identifier _ hconst => exact absurd hword hconst
  | identifier hlet hconst =>
    cases h' with
    | letKeyword hword => exact absurd hword hlet
    | constKeyword hword => exact absurd hword hconst
    | identifier => rfl
  | _ =>
    cases h'
    rfl

theorem tags_ofWord (word : List Char) :
    Tags .identifier (String.ofList word) (Token.Kind.ofWord word) := by
  by_cases hlet : word = ['l', 'e', 't']
  · subst hlet
    exact .letKeyword rfl
  · by_cases hconst : word = ['c', 'o', 'n', 's', 't']
    · subst hconst
      exact .constKeyword rfl
    · rw [Token.Kind.ofWord, if_neg hlet, if_neg hconst]
      exact .identifier (fun h => hlet (String.ofList_injective h))
        (fun h => hconst (String.ofList_injective h))

/-- A punctuation mark is the only word of its terminal. -/
theorem exists_of_ofPunctuation? {c : Char} {kind : Token.Kind}
    (h : Token.Kind.ofPunctuation? c = some kind) :
    ∃ T : Terminal, ofFirst? c = some T ∧ T.language = {[c]} ∧ ∀ word, T.Tags word kind := by
  unfold Token.Kind.ofPunctuation? at h
  split at h
  case h_9 => simp at h
  all_goals
    obtain rfl := Option.some.inj h
    exact ⟨_, rfl, rfl, fun _ => by constructor⟩

/-- A character without a kind of its own is the mark of no terminal. -/
theorem ofMark?_eq_none {c : Char} (h : Token.Kind.ofPunctuation? c = none) : ofMark? c = none := by
  unfold ofMark?
  split
  case h_9 => rfl
  all_goals simp [Token.Kind.ofPunctuation?] at h

end Terminal

end LetCalc
