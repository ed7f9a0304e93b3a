import LetCalc.Decimal.Numeral
import Mathlib.Data.List.TakeWhile

/-!
# Numerals at the start of a text

`Numeral.WellFormed` says which numerals may be written, independently of how they are found.
Scanning finds them greedily, part by part, and never takes a part back. Here this is shown to give
the longest numeral there is:

* `Numeral.wellFormed_of_scan?`, `Numeral.text_prefix_of_scan?`: what is found is a numeral at the
  start of the text.
* `Numeral.scan?_text_append`: where a text starts with a numeral, the numeral that is found starts
  with it, and is the same if what follows cannot continue it.
-/

namespace LetCalc.Numeral

/-- One digit or more. -/
def IsDigits (cs : List Char) : Prop := cs ≠ [] ∧ ∀ c ∈ cs, c.isDigit

/-- A whole part: a single zero, or digits that do not start with one. -/
def IsWholePart (cs : List Char) : Prop := cs = ['0'] ∨ IsDigits cs ∧ cs.head? ≠ some '0'

/-- A power of ten that may be written. -/
structure Power.WellFormed (p : Power) : Prop where
  mark : p.mark = 'e' ∨ p.mark = 'E'
  sign : ∀ c ∈ p.sign, c = '+' ∨ c = '-'
  digits : IsDigits p.digits

/-- A numeral that may be written. -/
structure WellFormed (n : Numeral) : Prop where
  whole : IsWholePart n.whole
  fraction : ∀ ds ∈ n.fraction, IsDigits ds
  power : ∀ p ∈ n.power, p.WellFormed

/-- The characters that may continue a numeral that is complete. -/
def Continues (c : Char) : Prop := c.isDigit ∨ c = '.' ∨ c = 'e' ∨ c = 'E'

/-- A text that does not continue a numeral before it. -/
def Stops (cs : List Char) : Prop := ∀ c ∈ cs.head?, ¬ Continues c

theorem Stops.nil : Stops [] := by simp [Stops]

theorem IsDigits.head_isDigit {c : Char} {cs : List Char} (h : IsDigits (c :: cs)) :
    c.isDigit = true :=
  h.2 c (by simp)

theorem IsWholePart.isDigits {cs : List Char} (h : IsWholePart cs) : IsDigits cs := by
  rcases h with rfl | h
  · exact ⟨by simp, by simp⟩
  · exact h.1

/-- A numeral starts with a digit. -/
theorem WellFormed.exists_text_eq_cons {n : Numeral} (h : n.WellFormed) :
    ∃ c cs, n.text = c :: cs ∧ c.isDigit := by
  have hwhole := h.whole.isDigits
  cases hw : n.whole with
  | nil => exact absurd hw hwhole.1
  | cons c cs => exact ⟨c, _, by rw [text, hw]; rfl, hwhole.2 c (by simp [hw])⟩

/-- The characters of numerals. -/
def IsNumeralChar (c : Char) : Prop := c.isDigit ∨ c ∈ ['.', 'e', 'E', '+', '-']

theorem WellFormed.isNumeralChar {n : Numeral} (h : n.WellFormed) :
    ∀ c ∈ n.text, IsNumeralChar c := by
  have hdigits : ∀ {ds : List Char}, IsDigits ds → ∀ c ∈ ds, IsNumeralChar c :=
    fun hds c hc => .inl (hds.2 c hc)
  intro c hc
  simp only [text, List.mem_append] at hc
  rcases hc with (hc | hc) | hc
  · exact hdigits h.whole.isDigits c hc
  · cases hf : n.fraction with
    | none => simp [hf] at hc
    | some ds =>
      simp only [hf, Option.map_some, Option.getD_some, List.mem_cons] at hc
      rcases hc with rfl | hc
      · exact .inr (by simp)
      · exact hdigits (h.fraction ds hf) c hc
  · cases hp : n.power with
    | none => simp [hp] at hc
    | some p =>
      have hpower := h.power p hp
      simp only [hp, Option.map_some, Option.getD_some, Power.text, List.mem_cons,
        List.mem_append, Option.mem_toList] at hc
      rcases hc with rfl | hc | hc
      · rcases hpower.mark with hmark | hmark <;> exact .inr (by simp [hmark])
      · rcases hpower.sign c hc with rfl | rfl <;> exact .inr (by simp)
      · exact hdigits hpower.digits c hc

/-- The digits at the start of a text, if there are any. -/
theorem isDigits_takeWhile {cs : List Char} (h : (cs.takeWhile Char.isDigit).isEmpty = false) :
    IsDigits (cs.takeWhile Char.isDigit) :=
  ⟨by simpa using h, fun _ hc => List.mem_takeWhile_imp hc⟩

/-- Digits are followed by the further digits of the text. -/
theorem takeWhile_isDigit_append {ds : List Char} (h : ∀ c ∈ ds, c.isDigit) (rest : List Char) :
    (ds ++ rest).takeWhile Char.isDigit = ds ++ rest.takeWhile Char.isDigit :=
  List.takeWhile_append_of_pos h

theorem Stops.takeWhile_eq_nil {cs : List Char} (h : Stops cs) :
    cs.takeWhile Char.isDigit = [] := by
  cases cs with
  | nil => rfl
  | cons c cs =>
    have hc : c.isDigit = false := by
      have := h c rfl
      simp only [Continues, not_or] at this
      simpa using this.1
    simp [hc]

/-! ## What is found is a numeral -/

theorem isWholePart_of_scanWhole? {cs w : List Char} (h : scanWhole? cs = some w) :
    IsWholePart w ∧ w <+: cs := by
  cases cs with
  | nil => simp [scanWhole?] at h
  | cons c rest =>
    by_cases hzero : c = '0'
    · subst hzero
      obtain rfl : ['0'] = w := by simpa [scanWhole?] using h
      exact ⟨.inl rfl, ⟨rest, rfl⟩⟩
    · by_cases hdigit : c.isDigit
      · obtain rfl : c :: rest.takeWhile Char.isDigit = w := by
          simpa [scanWhole?, hzero, hdigit] using h
        refine ⟨.inr ⟨⟨by simp, ?_⟩, by simpa using hzero⟩, ?_⟩
        · intro d hd
          rcases List.mem_cons.1 hd with rfl | hd
          · exact hdigit
          · exact List.mem_takeWhile_imp hd
        · exact List.cons_prefix_cons.2 ⟨rfl, List.takeWhile_prefix _⟩
      · simp [scanWhole?, hzero, hdigit] at h

theorem isDigits_of_scanFraction? {cs ds : List Char} (h : scanFraction? cs = some ds) :
    IsDigits ds ∧ '.' :: ds <+: cs := by
  unfold scanFraction? at h
  split at h
  · rename_i rest
    by_cases hempty : (rest.takeWhile Char.isDigit).isEmpty
    · simp [hempty] at h
    · obtain rfl : rest.takeWhile Char.isDigit = ds := by simpa [hempty] using h
      refine ⟨isDigits_takeWhile (by simpa using hempty), ?_⟩
      exact List.cons_prefix_cons.2 ⟨rfl, List.takeWhile_prefix _⟩
  · simp at h

/-- A sign is where it was found. -/
theorem scanSign?_toList_prefix (cs : List Char) :
    (scanSign? cs).toList <+: cs ∧ ∀ c ∈ scanSign? cs, c = '+' ∨ c = '-' := by
  cases cs with
  | nil => simp [scanSign?]
  | cons c cs =>
    by_cases hc : c = '+' ∨ c = '-'
    · simp [scanSign?, hc]
    · simp [scanSign?, hc]

theorem wellFormed_of_scanPower? {cs : List Char} {p : Power} (h : scanPower? cs = some p) :
    p.WellFormed ∧ p.text <+: cs := by
  unfold scanPower? at h
  split at h
  · rename_i mark rest
    obtain ⟨hsign, hsigns⟩ := scanSign?_toList_prefix rest
    obtain ⟨rest', hrest⟩ := hsign
    by_cases hmark : mark = 'e' ∨ mark = 'E'
    · simp only [hmark, ↓reduceIte] at h
      split at h
      · simp at h
      · rename_i hempty
        obtain rfl := Option.some.inj h
        refine ⟨⟨hmark, hsigns, isDigits_takeWhile (by simpa using hempty)⟩, ?_⟩
        -- After the sign come the digits.
        have hdrop : rest.drop (scanSign? rest).toList.length = rest' :=
          List.drop_left' rfl |>.symm.trans (by rw [hrest]) |>.symm
        refine List.cons_prefix_cons.2 ⟨rfl, ?_⟩
        show (scanSign? rest).toList ++ List.takeWhile _ (rest.drop _) <+: rest
        rw [hdrop]
        obtain ⟨after, hafter⟩ := List.takeWhile_prefix (l := rest') Char.isDigit
        exact ⟨after, by rw [List.append_assoc, hafter, hrest]⟩
    · simp [hmark] at h
  · simp at h

/-- A numeral is found exactly if a whole part is; the other parts may be missing. -/
theorem scan?_eq_map (cs : List Char) :
    scan? cs = (scanWhole? cs).map fun whole =>
      let rest := cs.drop whole.length
      let fraction := scanFraction? rest
      ⟨whole, fraction, scanPower? (rest.drop ((fraction.map ('.' :: ·)).getD []).length)⟩ := by
  unfold scan?
  cases scanWhole? cs <;> rfl

theorem scan?_eq_some_iff {cs : List Char} {n : Numeral} :
    scan? cs = some n ↔ scanWhole? cs = some n.whole ∧
      n.fraction = scanFraction? (cs.drop n.whole.length) ∧
      n.power = scanPower? ((cs.drop n.whole.length).drop
        ((n.fraction.map ('.' :: ·)).getD []).length) := by
  rw [scan?_eq_map, Option.map_eq_some_iff]
  constructor
  · rintro ⟨w, hw, rfl⟩
    exact ⟨hw, rfl, rfl⟩
  · rintro ⟨hw, hfraction, hpower⟩
    refine ⟨n.whole, hw, ?_⟩
    rcases n with ⟨whole, fraction, power⟩
    simp only at hfraction hpower ⊢
    rw [hpower, hfraction]

theorem wellFormed_of_scan? {cs : List Char} {n : Numeral} (h : scan? cs = some n) :
    n.WellFormed := by
  obtain ⟨hwhole, hfraction, hpower⟩ := scan?_eq_some_iff.1 h
  refine ⟨(isWholePart_of_scanWhole? hwhole).1, fun ds hds => ?_, fun p hp => ?_⟩
  · exact (isDigits_of_scanFraction? (hfraction.symm.trans hds)).1
  · exact (wellFormed_of_scanPower? (hpower.symm.trans hp)).1

theorem text_prefix_of_scan? {cs : List Char} {n : Numeral} (h : scan? cs = some n) :
    n.text <+: cs := by
  obtain ⟨hwhole, hfraction, hpower⟩ := scan?_eq_some_iff.1 h
  obtain ⟨rest, hrest⟩ := (isWholePart_of_scanWhole? hwhole).2
  rw [← hrest, List.drop_left] at hfraction hpower
  have hfractionText : (n.fraction.map ('.' :: ·)).getD [] <+: rest := by
    cases hf : n.fraction with
    | none => simp
    | some ds => exact (isDigits_of_scanFraction? (hfraction.symm.trans hf)).2
  obtain ⟨rest', hrest'⟩ := hfractionText
  rw [← hrest', List.drop_left] at hpower
  -- The power is looked for after the fraction, where that was found.
  have hpowerText : (n.power.map Power.text).getD [] <+: rest' := by
    cases hp : n.power with
    | none => simp
    | some p => exact (wellFormed_of_scanPower? (hpower.symm.trans hp)).2
  rw [text, ← hrest, ← hrest', List.append_assoc, List.prefix_append_right_inj,
    List.prefix_append_right_inj]
  exact hpowerText

/-- No numeral is found exactly if the text does not start with a digit. -/
theorem scan?_eq_none_iff {cs : List Char} :
    scan? cs = none ↔ ∀ c ∈ cs.head?, c.isDigit = false := by
  cases cs with
  | nil => simp [scan?, scanWhole?]
  | cons c rest =>
    by_cases hzero : c = '0'
    · subst hzero
      simp [scan?, scanWhole?]
    · by_cases hdigit : c.isDigit <;> simp [scan?, scanWhole?, hzero, hdigit]

/-! ## A numeral at the start is found -/

/-- A whole part is found with the digits after it, unless it is zero, which has none. -/
theorem exists_scanWhole?_append {w : List Char} (h : IsWholePart w) (rest : List Char) :
    ∃ more, scanWhole? (w ++ rest) = some (w ++ more) ∧
      (rest.takeWhile Char.isDigit = [] → more = []) := by
  rcases h with rfl | ⟨hdigits, hhead⟩
  · exact ⟨[], rfl, fun _ => rfl⟩
  · cases w with
    | nil => exact absurd rfl hdigits.1
    | cons c ds =>
      have hzero : c ≠ '0' := by simpa using hhead
      refine ⟨rest.takeWhile Char.isDigit, ?_, id⟩
      have hmore :=
        takeWhile_isDigit_append (fun d hd => hdigits.2 d (List.mem_cons_of_mem c hd)) rest
      simp [scanWhole?, hzero, hdigits.head_isDigit, hmore]

theorem scanFraction?_append {ds : List Char} (h : IsDigits ds) (rest : List Char) :
    scanFraction? ('.' :: (ds ++ rest)) = some (ds ++ rest.takeWhile Char.isDigit) := by
  have hne : ds ++ rest.takeWhile Char.isDigit ≠ [] := by simp [h.1]
  simp [scanFraction?, takeWhile_isDigit_append h.2, List.isEmpty_iff, hne]

theorem scanFraction?_eq_none {cs : List Char} (h : cs.head? ≠ some '.') :
    scanFraction? cs = none := by
  unfold scanFraction?
  split
  · simp at h
  · rfl

theorem scanPower?_eq_none {cs : List Char} (h : ∀ c ∈ cs.head?, ¬ (c = 'e' ∨ c = 'E')) :
    scanPower? cs = none := by
  cases cs with
  | nil => rfl
  | cons c cs => simp [scanPower?, h c rfl]

/-- The sign of a power of ten is found again: a digit is no sign. -/
theorem scanSign?_append {sign : Option Char} {ds : List Char}
    (hsign : ∀ c ∈ sign, c = '+' ∨ c = '-') (hdigits : IsDigits ds) (rest : List Char) :
    scanSign? (sign.toList ++ (ds ++ rest)) = sign := by
  cases sign with
  | some c => simp [scanSign?, hsign c rfl]
  | none =>
    cases ds with
    | nil => exact absurd rfl hdigits.1
    | cons d ds =>
      have hd : ¬ (d = '+' ∨ d = '-') := by
        rintro (rfl | rfl)
        · exact absurd hdigits.head_isDigit (by decide)
        · exact absurd hdigits.head_isDigit (by decide)
      simp [scanSign?, hd]

theorem scanPower?_append {p : Power} (h : p.WellFormed) (rest : List Char) :
    scanPower? (p.text ++ rest) =
      some { p with digits := p.digits ++ rest.takeWhile Char.isDigit } := by
  have hsign := scanSign?_append h.sign h.digits rest
  have hne : p.digits ++ rest.takeWhile Char.isDigit ≠ [] := by simp [h.digits.1]
  simp [Power.text, scanPower?, h.mark, hsign, takeWhile_isDigit_append h.digits.2,
    List.isEmpty_iff, hne]

/-- Further digits stand at the end of a power of ten. -/
theorem Power.text_append_digits (p : Power) (ds : List Char) :
    Power.text { p with digits := p.digits ++ ds } = p.text ++ ds := by
  simp [Power.text]

/-- A power of ten starts with its mark, which is no digit and no point. -/
theorem Power.WellFormed.head?_text_append {p : Power} (h : p.WellFormed) (rest : List Char) :
    (p.text ++ rest).takeWhile Char.isDigit = [] ∧ (p.text ++ rest).head? ≠ some '.' := by
  rcases h.mark with hmark | hmark <;> simp [Power.text, hmark]

theorem Stops.scanFraction?_eq_none {cs : List Char} (h : Stops cs) : scanFraction? cs = none := by
  refine Numeral.scanFraction?_eq_none fun hhead => ?_
  exact h '.' hhead (.inr (.inl rfl))

theorem Stops.scanPower?_eq_none {cs : List Char} (h : Stops cs) : scanPower? cs = none :=
  Numeral.scanPower?_eq_none fun c hc hmark => h c hc (.inr (.inr hmark))

/-- What follows the whole part of a numeral is found, possibly as the start of a longer text. -/
theorem exists_scan_tail {fraction : Option (List Char)} {power : Option Power}
    (hfraction : ∀ ds ∈ fraction, IsDigits ds) (hpower : ∀ p ∈ power, p.WellFormed)
    (rest : List Char) :
    let tail := (fraction.map ('.' :: ·)).getD [] ++ (power.map Power.text).getD [] ++ rest
    let found := scanFraction? tail
    let found' := scanPower? (tail.drop ((found.map ('.' :: ·)).getD []).length)
    (fraction.map ('.' :: ·)).getD [] ++ (power.map Power.text).getD [] <+:
        (found.map ('.' :: ·)).getD [] ++ (found'.map Power.text).getD [] ∧
      (Stops rest → found = fraction ∧ found' = power) := by
  -- A part with a further part after it is found as it is; only the last part may be longer.
  intro tail found found'
  rcases fraction with _ | ds <;> rcases power with _ | p
  · refine ⟨List.nil_prefix, fun hstops => ?_⟩
    have hfound : found = none := hstops.scanFraction?_eq_none
    refine ⟨hfound, ?_⟩
    simpa [found', hfound, tail] using hstops.scanPower?_eq_none
  · have hp := hpower p rfl
    have hfound : found = none := scanFraction?_eq_none (hp.head?_text_append rest).2
    have hfound' : found' = some { p with digits := p.digits ++ rest.takeWhile Char.isDigit } := by
      simpa [found', hfound, tail] using scanPower?_append hp rest
    refine ⟨?_, fun hstops => ⟨hfound, ?_⟩⟩
    · simp [hfound, hfound', Power.text_append_digits]
    · simp [hfound', hstops.takeWhile_eq_nil]
  · have hfound : found = some (ds ++ rest.takeWhile Char.isDigit) := by
      simpa [found, tail] using scanFraction?_append (hfraction ds rfl) rest
    refine ⟨?_, fun hstops => ?_⟩
    · simp [hfound]
    · rw [hstops.takeWhile_eq_nil, List.append_nil] at hfound
      refine ⟨hfound, ?_⟩
      simpa [found', hfound, tail] using hstops.scanPower?_eq_none
  · have hp := hpower p rfl
    have hfound : found = some ds := by
      have hscan := scanFraction?_append (hfraction ds rfl) (p.text ++ rest)
      rw [(hp.head?_text_append rest).1, List.append_nil] at hscan
      simpa [found, tail] using hscan
    have hfound' : found' = some { p with digits := p.digits ++ rest.takeWhile Char.isDigit } := by
      simpa [found', hfound, tail] using scanPower?_append hp rest
    refine ⟨?_, fun hstops => ⟨hfound, ?_⟩⟩
    · simp [hfound, hfound', Power.text_append_digits]
    · simp [hfound', hstops.takeWhile_eq_nil]

/-- What follows the whole part of a numeral does not start with a digit. -/
theorem WellFormed.takeWhile_tail_eq_nil {n : Numeral} (h : n.WellFormed) (rest : List Char)
    (hrest : (n.fraction.map ('.' :: ·)).getD [] ++ (n.power.map Power.text).getD [] ≠ [] ∨
      Stops rest) :
    ((n.fraction.map ('.' :: ·)).getD [] ++ (n.power.map Power.text).getD [] ++ rest).takeWhile
      Char.isDigit = [] := by
  rcases n with ⟨whole, _ | ds, _ | p⟩
  · simpa using (hrest.resolve_left (by simp)).takeWhile_eq_nil
  · simpa using ((h.power p rfl).head?_text_append rest).1
  · simp
  · simp

/-- A numeral at the start of a text is found, possibly as the start of a longer one. It is found as
it is if the text cannot continue it. -/
theorem scan?_text_append {n : Numeral} (h : n.WellFormed) (rest : List Char) :
    ∃ m, scan? (n.text ++ rest) = some m ∧ n.text <+: m.text ∧ (Stops rest → m = n) := by
  have htail := exists_scan_tail h.fraction h.power rest
  have hdigits := h.takeWhile_tail_eq_nil rest
  have htext : n.text = n.whole ++
    ((n.fraction.map ('.' :: ·)).getD [] ++ (n.power.map Power.text).getD []) := by simp [text]
  rw [htext, List.append_assoc]
  generalize (n.fraction.map ('.' :: ·)).getD [] ++ (n.power.map Power.text).getD [] = tail
    at htail hdigits
  -- The whole part can only be found longer if it is all of the numeral.
  obtain ⟨more, hwhole, hmore⟩ := exists_scanWhole?_append h.whole (tail ++ rest)
  refine ⟨_, by rw [scan?_eq_map, hwhole, Option.map_some], ?_, fun hstops => ?_⟩
  · by_cases hnil : tail = []
    · subst hnil
      simp [text]
    · obtain rfl := hmore (hdigits (.inl hnil))
      simpa [text] using htail.1
  · obtain rfl := hmore (hdigits (.inr hstops))
    obtain ⟨hfraction, hpower⟩ := htail.2 hstops
    rw [hfraction] at hpower
    simp [hfraction, hpower]

end LetCalc.Numeral
