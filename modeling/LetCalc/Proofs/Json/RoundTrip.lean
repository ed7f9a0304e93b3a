import LetCalc.Json.Printer
import LetCalc.Json.Reader
import LetCalc.Proofs.Decimal.Layout
import LetCalc.Proofs.Text.Loose

/-!
# Reading what was written

A document is read back from its own text (`Json.read_write`), provided that its texts and keys are
whole, that no object has two fields with one key and that no whole number has more digits than
reading allows.

`Reader.Gives` says what a reading function gives and what it leaves. Each reading function has
lemmas of that form for the texts that are written. What stands after a value matters for numbers
only, which the text after them must not continue (`Numeral.Stops`); in a document a comma, a line
feed or nothing follows.
-/

namespace LetCalc

/-- A scalar that is read back from its text: a whole number may not have too many digits, and a
text may not be torn, because two halves that are escaped one after the other are read as a pair. -/
def Scalar.Readable : Scalar → Prop
  | .int i => (Nat.toDigits 10 i.natAbs).length ≤ Json.Reader.digitLimit
  | .text t => t.IsWhole
  | _ => True

namespace Json

namespace Reader

/-- A reading function gives `a` and leaves the text `rest`. -/
def Gives {α : Type} {p : List Char → Prop}
    (r : Except Refusal (α × { rest : List Char // p rest })) (a : α) (rest : List Char) : Prop :=
  ∃ h, r = .ok (a, ⟨rest, h⟩)

/-! ## Texts -/

/-- Four hexadecimal digits are read, whatever follows them. -/
theorem hexQuad?_hexadecimal {n : Nat} (hn : n < 0x20) (c : Char) (rest : List Char) :
    (Text.hexadecimal 4 n).length = 4 ∧
      hexQuad? (Text.hexadecimal 4 n ++ c :: rest) = some n := by
  -- Only control characters are written by number, so that there are few cases to check.
  have hall : ∀ m : Fin 0x20, (Text.hexadecimal 4 m).length = 4 ∧
      hexQuad? (Text.hexadecimal 4 m ++ ['0']) = some m.val := by decide +kernel
  obtain ⟨hlength, hquad⟩ := hall ⟨n, hn⟩
  refine ⟨hlength, ?_⟩
  match h : Text.hexadecimal 4 n, hlength with
  | [a, b, d, e], _ =>
    simp only [h] at hquad
    exact hquad

theorem unicodeEscape_hexadecimal {n : Nat} (hn : n < 0x20) (c : Char) (rest : List Char) :
    unicodeEscape (Text.hexadecimal 4 n ++ c :: rest) = .ok (.char (Char.ofNat n), 4) := by
  rw [unicodeEscape, (hexQuad?_hexadecimal hn c rest).2]
  dsimp only
  rw [if_neg (by omega), CodePoint.ofNat, dif_neg (by omega)]

variable {opening : Nat} {cs rest : List Char} {ds : List CodePoint}

theorem gives_text_plain {c : Char} (hquote : c ≠ '\x22') (hslash : c ≠ '\\')
    (hcontrol : ¬ c.toNat < 0x20) (h : Gives (text opening cs) ds rest) :
    Gives (text opening (c :: cs)) (.char c :: ds) rest := by
  obtain ⟨hle, h⟩ := h
  rw [text.eq_def]
  dsimp only
  rw [if_neg hquote, if_neg hslash, if_neg hcontrol, h]
  exact ⟨_, rfl⟩

/-- A backslash and one further character. -/
theorem gives_text_simple {e c : Char} (he : simpleEscape? e = some c)
    (h : Gives (text opening cs) ds rest) :
    Gives (text opening ('\\' :: e :: cs)) (.char c :: ds) rest := by
  have hu : e ≠ 'u' := by
    rintro rfl
    simp [simpleEscape?] at he
  obtain ⟨hle, h⟩ := h
  rw [text, if_neg (by decide), if_pos rfl]
  · rw [he]
    dsimp only
    rw [h]
    exact ⟨_, rfl⟩
  · exact hu

/-- A backslash and the number of a code point. -/
theorem gives_text_unicode {point : CodePoint} {used : Nat}
    (hescape : unicodeEscape cs = .ok (point, used))
    (h : Gives (text opening (cs.drop used)) ds rest) :
    Gives (text opening ('\\' :: 'u' :: cs)) (point :: ds) rest := by
  obtain ⟨hle, h⟩ := h
  rw [text, if_neg (by decide), if_pos rfl, hescape]
  dsimp only
  rw [h]
  exact ⟨_, rfl⟩

/-- The three forms of an escaped character. -/
theorem escape_cases (c : Char) :
    (∃ e, simpleEscape? e = some c ∧ Printer.escape c = ['\\', e]) ∨
    (c.toNat < 0x20 ∧ Printer.escape c = '\\' :: 'u' :: Text.hexadecimal 4 c.toNat) ∨
    (c ≠ '\x22' ∧ c ≠ '\\' ∧ ¬ c.toNat < 0x20 ∧ Printer.escape c = [c]) := by
  unfold Printer.escape
  by_cases hmark : c = '\x22' ∨ c = '\\'
  · rw [if_pos hmark]
    rcases hmark with rfl | rfl <;> exact .inl ⟨_, rfl, rfl⟩
  · obtain ⟨hquote, hslash⟩ := not_or.1 hmark
    rw [if_neg hmark]
    -- Five control characters have a letter of their own; the others are written by number.
    by_cases hletter : c ∈ ['\n', '\r', '\t', '\x0c', '\x08']
    · simp only [List.mem_cons, List.not_mem_nil, or_false] at hletter
      rcases hletter with rfl | rfl | rfl | rfl | rfl <;> exact .inl ⟨_, rfl, rfl⟩
    · simp only [List.mem_cons, List.not_mem_nil, or_false, not_or] at hletter
      obtain ⟨hn, hr, ht, hf, hb⟩ := hletter
      rw [if_neg hn, if_neg hr, if_neg ht, if_neg hf, if_neg hb]
      by_cases hcontrol : c.toNat < 0x20
      · rw [if_pos hcontrol]
        exact .inr (.inl ⟨hcontrol, rfl⟩)
      · rw [if_neg hcontrol]
        exact .inr (.inr ⟨hquote, hslash, hcontrol, rfl⟩)

/-- A character is read back from its escaped form. Something has to follow it, as a closing
quotation mark always does. -/
theorem gives_text_escape (c : Char) {d : Char} (h : Gives (text opening (d :: cs)) ds rest) :
    Gives (text opening (Printer.escape c ++ d :: cs)) (.char c :: ds) rest := by
  rcases escape_cases c with ⟨e, he, hc⟩ | ⟨hcontrol, hc⟩ | ⟨hquote, hslash, hcontrol, hc⟩
  · rw [hc]
    exact gives_text_simple he h
  · have hescape := unicodeEscape_hexadecimal hcontrol d cs
    rw [Char.ofNat_toNat] at hescape
    rw [hc, List.cons_append, List.cons_append]
    refine gives_text_unicode hescape ?_
    rwa [List.drop_left' (hexQuad?_hexadecimal hcontrol d cs).1]
  · rw [hc]
    exact gives_text_plain hquote hslash hcontrol h

/-- An escaped text is read back, up to and with the quotation mark after it. -/
theorem gives_text_flatMap (opening : Nat) (cs rest : List Char) :
    Gives (text opening (cs.flatMap Printer.escape ++ '\x22' :: rest)) (cs.map .char) rest := by
  induction cs with
  | nil =>
    rw [List.flatMap_nil, List.nil_append, text.eq_def]
    exact ⟨_, rfl⟩
  | cons c cs ih =>
    rw [List.flatMap_cons, List.append_assoc]
    -- What follows the first character starts with a character, if only with the mark.
    cases hcs : cs.flatMap Printer.escape ++ '\x22' :: rest with
    | nil => simp at hcs
    | cons d more =>
      rw [hcs] at ih
      exact gives_text_escape c ih

theorem ofPoints_toList (t : String) : LooseText.ofPoints (t.toList.map .char) = t := by
  rw [LooseText.ofPoints_map_char, String.ofList_toList]

theorem text_append (t : String) (rest : List Char) :
    Printer.text t ++ rest = '\x22' :: (t.toList.flatMap Printer.escape ++ '\x22' :: rest) := by
  simp [Printer.text, LooseText.points, List.flatMap_map, Printer.escapePoint]

/-! ## Scalars -/

/-- The text of a numeral, after a minus sign if one is wanted. -/
def signed (negative : Bool) (n : Numeral) : List Char := if negative then '-' :: n.text else n.text

/-- The scalar that a numeral stands for. -/
def scalarOf (negative : Bool) (n : Numeral) : Except Refusal Scalar :=
  if n.isWhole then whole negative n.whole else .ok (.float (n.decimal.toBinary64 negative))

/-- A numeral, with or without a minus sign, is read in full. -/
theorem number_signed {n : Numeral} (hn : n.WellFormed) (negative : Bool)
    (hrest : Numeral.Stops rest) :
    number (signed negative n ++ rest) =
      (scalarOf negative n).map (·, (signed negative n).length) := by
  obtain ⟨m, hscan, -, hm⟩ := Numeral.scan?_text_append hn rest
  obtain rfl := hm hrest
  cases negative with
  | false =>
    -- A numeral starts with a digit, so that no sign is seen.
    have hhead : ¬ (m.text ++ rest).head? = some '-' := by
      obtain ⟨c, cs, htext, hdigit⟩ := hn.exists_text_eq_cons
      rw [htext, List.cons_append, List.head?_cons, Option.some.injEq]
      rintro rfl
      exact absurd hdigit (by decide)
    simp only [signed, scalarOf, number, Bool.false_eq_true, if_false, hhead, hscan, decide_false]
    split <;> rfl
  | true =>
    simp only [signed, scalarOf, number, if_true, List.cons_append, List.head?_cons,
      List.tail_cons, hscan, decide_true]
    split <;> rfl

/-- No constant starts with a digit, nor with a minus sign and a digit. -/
theorem find?_constants_eq_none {c : Char} (hc : c.isDigit) (cs : List Char) :
    constants.find? (·.1.isPrefixOf (c :: cs)) = none ∧
      constants.find? (·.1.isPrefixOf ('-' :: c :: cs)) = none := by
  have hne : ∀ d : Char, d.isDigit = false → d ≠ c := by
    rintro d hd rfl
    exact absurd hc (by simp [hd])
  simp [constants, hne]

theorem toList_toString_int (i : Int) :
    (toString i).toList = signed (i < 0) ⟨Nat.toDigits 10 i.natAbs, none, none⟩ := by
  cases i with
  | ofNat m => simp [signed, Numeral.text, toString, Int.repr, Nat.repr]
  | negSucc m => simp [signed, Numeral.text, toString, Int.repr, Nat.repr, Int.negSucc_lt_zero]

theorem scalarOf_toDigits {i : Int} (h : (Scalar.int i).Readable) :
    scalarOf (i < 0) ⟨Nat.toDigits 10 i.natAbs, none, none⟩ = .ok (.int i) := by
  have hlength : ¬ digitLimit < (Nat.toDigits 10 i.natAbs).length := Nat.not_lt.2 h
  change whole (i < 0) (Nat.toDigits 10 i.natAbs) = _
  rw [whole, if_neg hlength, Nat.ofDigitChars_ten_toDigits]
  by_cases hneg : i < 0
  · simp only [hneg, decide_true, if_true]
    rw [show -(i.natAbs : Int) = i by omega]
  · simp only [hneg, decide_false, Bool.false_eq_true, if_false]
    rw [show (i.natAbs : Int) = i by omega]

/-- A scalar is written as a text, as a constant or as a numeral. -/
theorem scalar_cases {s : Scalar} (h : s.Readable) :
    (∃ t : String, s = .text t) ∨ (Printer.scalar s, s) ∈ constants ∨
      ∃ negative n, n.WellFormed ∧ Printer.scalar s = signed negative n ∧
        scalarOf negative n = .ok s := by
  cases s with
  | null => exact .inr (.inl (by simp [constants, Printer.scalar]))
  | bool b => exact .inr (.inl (by cases b <;> simp [constants, Printer.scalar]))
  | int i =>
    exact .inr (.inr ⟨_, _, ⟨isWholePart_toDigits _, by simp, by simp⟩, toList_toString_int i,
      scalarOf_toDigits h⟩)
  | float x =>
    cases x with
    | nan => exact .inr (.inl (by simp [constants, Printer.scalar, Printer.float]))
    | infinite negative =>
      exact .inr (.inl (by cases negative <;> simp [constants, Printer.scalar, Printer.float]))
    | finite negative rank =>
      obtain ⟨n, hn, htext, hread⟩ := Binary64.exists_numeral negative rank
      refine .inr (.inr ⟨negative, n, hn.toWellFormed, htext, ?_⟩)
      rw [scalarOf, hn.isWhole, hread]
      rfl
  | text t =>
    obtain ⟨t, rfl⟩ := h
    exact .inl ⟨t, rfl⟩

/-- The characters that start a constant or a number. -/
def StartsScalar (c : Char) : Prop := c.isAlphanum ∨ c = '-'

instance : DecidablePred StartsScalar :=
  fun c => inferInstanceAs (Decidable (c.isAlphanum ∨ c = '-'))

/-- A scalar that is not a text is read in full, and its first character gives it away. -/
theorem scalar_printed {s : Scalar} (h : s.Readable) (htext : ∀ t : String, s ≠ .text t)
    (hrest : Numeral.Stops rest) :
    (∃ c ∈ (Printer.scalar s).head?, StartsScalar c) ∧
      scalar (Printer.scalar s ++ rest) = .ok (s, (Printer.scalar s).length) := by
  rcases scalar_cases h with ⟨t, ht⟩ | hconstant | ⟨negative, n, hn, hprinted, hvalue⟩
  · exact absurd ht (htext t)
  · have hall : constants.all (fun entry => entry.1.head?.any (StartsScalar ·)) = true := by decide
    have hstarts := List.all_eq_true.1 hall _ hconstant
    simp only [Option.any_eq_true, decide_eq_true_eq] at hstarts
    refine ⟨hstarts, ?_⟩
    -- No constant starts with another one, so that each is the first that is found.
    generalize Printer.scalar s = word at hconstant ⊢
    simp only [constants, List.mem_cons, Prod.mk.injEq, List.not_mem_nil, or_false] at hconstant
    rcases hconstant with ⟨rfl, rfl⟩ | ⟨rfl, rfl⟩ | ⟨rfl, rfl⟩ | ⟨rfl, rfl⟩ | ⟨rfl, rfl⟩ |
      ⟨rfl, rfl⟩
    all_goals rfl
  · rw [hprinted, scalar]
    obtain ⟨c, cs, hcs, hdigit⟩ := hn.exists_text_eq_cons
    -- A numeral is tried only after the constants, one of which starts with a minus sign as well.
    obtain ⟨hplain, hminus⟩ := find?_constants_eq_none hdigit (cs ++ rest)
    have hnumber := number_signed hn negative hrest
    rw [hvalue] at hnumber
    cases negative with
    | false =>
      refine ⟨⟨c, by simp [signed, hcs], .inl (by simp [Char.isAlphanum, hdigit])⟩, ?_⟩
      rw [show signed false n ++ rest = c :: (cs ++ rest) by simp [signed, hcs]] at hnumber ⊢
      rw [hplain]
      exact hnumber
    | true =>
      refine ⟨⟨'-', rfl, .inr rfl⟩, ?_⟩
      rw [show signed true n ++ rest = '-' :: c :: (cs ++ rest) by simp [signed, hcs]] at hnumber ⊢
      rw [hminus]
      exact hnumber

/-! ## Values -/

theorem gives_ok {α : Type} {p : List Char → Prop} {a : α} {found : { rest : List Char // p rest }}
    (h : found.val = rest) :
    Gives (.ok (a, found) : Except Refusal (α × { rest : List Char // p rest })) a rest := by
  subst h
  exact ⟨found.property, rfl⟩

theorem StartsScalar.ne {c : Char} (h : StartsScalar c) : c ≠ '\x22' ∧ c ≠ '[' ∧ c ≠ '\x7b' := by
  refine ⟨?_, ?_, ?_⟩ <;> rintro rfl <;> simp [StartsScalar] at h

theorem gives_value_scalar {s : Scalar} (h : s.Readable) (hrest : Numeral.Stops rest) :
    Gives (value (Printer.scalar s ++ rest)) (.scalar s) rest := by
  by_cases htext : ∃ t : String, s = .text t
  · obtain ⟨t, rfl⟩ := htext
    rw [Printer.scalar, text_append, value.eq_def]
    dsimp only
    obtain ⟨hle, hread⟩ := gives_text_flatMap
      ((t.toList.flatMap Printer.escape ++ '\x22' :: rest).length + 1) t.toList rest
    rw [if_pos rfl, hread]
    refine ⟨?_, ?_⟩
    · simp only [List.length_cons]
      omega
    · exact congrArg (fun t => Except.ok (Json.scalar (.text t), _)) (ofPoints_toList t)
  · obtain ⟨⟨c, hc, hstart⟩, hscalar⟩ := scalar_printed h (not_exists.1 htext) hrest
    obtain ⟨cs, hcs⟩ := List.head?_eq_some_iff.1 hc
    obtain ⟨hquote, hbracket, hbrace⟩ := hstart.ne
    rw [hcs, List.cons_append] at hscalar ⊢
    rw [value.eq_def]
    dsimp only
    rw [if_neg hquote, if_neg hbracket, if_neg hbrace, hscalar]
    exact gives_ok List.drop_left

/-- What may follow a part of a collection: the mark that closes it if there are no further parts,
or a comma and the further parts. -/
def Follows {α : Type} (close : Char)
    (read : (cs : List Char) →
      Except Refusal (List α × { rest : List Char // rest.length < cs.length }))
    (parts : List α) (cs left : List Char) : Prop :=
  (skipBlanks cs).val = close :: left ∧ parts = [] ∨
    (skipBlanks cs).val.head? = some ',' ∧ Gives (read (skipOne (skipBlanks cs)).val) parts left

variable {j : Json} {js : List Json} {fields : List (LooseText × Json)} {left : List Char}

theorem gives_items (h : Gives (value cs) j rest) (hfollows : Follows ']' items js rest left) :
    Gives (items cs) (j :: js) left := by
  obtain ⟨hlt, h⟩ := h
  rw [items.eq_def, h]
  dsimp only [bind, Except.bind]
  rcases hfollows with ⟨hclose, rfl⟩ | ⟨hcomma, hlt', hmore⟩
  · have hhead : (skipBlanks rest).val.head? = some ']' := congrArg List.head? hclose
    rw [if_pos hhead]
    exact gives_ok (congrArg List.tail hclose)
  · rw [if_neg (by rw [hcomma]; simp), if_pos hcomma, hmore]
    exact gives_ok rfl

theorem gives_members {key : String} (h : Gives (value (skipBlanks cs).val) j rest)
    (hfollows : Follows '\x7d' members fields rest left) :
    Gives (members (Printer.text key ++ ':' :: ' ' :: cs)) ((key, j) :: fields) left := by
  have hname : LooseText.ofPoints (key.toList.map .char) = key := ofPoints_toList key
  obtain ⟨hle, hkey⟩ := gives_text_flatMap
    ((key.toList.flatMap Printer.escape ++ '\x22' :: ':' :: ' ' :: cs).length + 1)
    key.toList (':' :: ' ' :: cs)
  have hcolon : (skipBlanks (':' :: ' ' :: cs)).val.head? = some ':' := rfl
  obtain ⟨hlt, h⟩ := h
  -- The blank after the colon is skipped with those at the start of the value.
  have hvalue : value (skipOne (skipBlanks (':' :: ' ' :: cs)).val).val = .ok (j, ⟨rest, hlt⟩) := h
  rw [text_append, members.eq_def]
  dsimp only
  rw [if_pos rfl, hkey]
  dsimp only [bind, Except.bind]
  rw [if_pos hcolon, hvalue]
  dsimp only
  rcases hfollows with ⟨hclose, rfl⟩ | ⟨hcomma, hlt', hmore⟩
  · have hhead : (skipBlanks rest).val.head? = some '\x7d' := congrArg List.head? hclose
    rw [if_pos hhead, hname]
    exact gives_ok (congrArg List.tail hclose)
  · rw [if_neg (by rw [hcomma]; simp), if_pos hcomma, hmore, hname]
    exact gives_ok rfl

theorem gives_value_array (hhead : (skipBlanks cs).val.head? ≠ some ']')
    (h : Gives (items (skipBlanks cs).val) js left) :
    Gives (value ('[' :: cs)) (.array js) left := by
  obtain ⟨hlt, h⟩ := h
  rw [value.eq_def]
  dsimp only
  rw [if_neg (by decide), if_pos rfl, if_neg hhead, h]
  exact gives_ok rfl

theorem gives_value_object (hhead : (skipBlanks cs).val.head? ≠ some '\x7d')
    (h : Gives (members (skipBlanks cs).val) fields left) :
    Gives (value ('\x7b' :: cs)) (.object (fields.foldl addField [])) left := by
  obtain ⟨hlt, h⟩ := h
  rw [value.eq_def]
  dsimp only
  rw [if_neg (by decide), if_neg (by decide), if_pos rfl, if_neg hhead, h]
  exact gives_ok rfl

/-- The characters that start a value. -/
def StartsValue (c : Char) : Prop := StartsScalar c ∨ c = '\x22' ∨ c = '[' ∨ c = '\x7b'

instance : DecidablePred StartsValue := fun c =>
  inferInstanceAs (Decidable (StartsScalar c ∨ c = '\x22' ∨ c = '[' ∨ c = '\x7b'))

/-- A value is not taken for a blank, for the end of an array, or for the mark that may start a
file. -/
theorem StartsValue.ne {c : Char} (h : StartsValue c) :
    isBlank c = false ∧ c ≠ ']' ∧ c ≠ '\ufeff' := by
  have hne : ∀ d : Char, ¬ StartsValue d → c ≠ d := by
    rintro d hd rfl
    exact hd h
  refine ⟨?_, hne ']' (by decide), hne '\ufeff' (by decide)⟩
  simp only [isBlank, Bool.or_eq_false_iff, decide_eq_false_iff_not]
  exact ⟨⟨⟨hne ' ' (by decide), hne '\t' (by decide)⟩, hne '\n' (by decide)⟩, hne '\r' (by decide)⟩

/-- A value that is read back from its text, whatever follows that. Only a number could be continued
by what follows. -/
structure ReadsBack (indent : Nat) (j : Json) : Prop where
  starts : ∃ c ∈ (Printer.value indent j).head?, StartsValue c
  gives : ∀ rest, Numeral.Stops rest → Gives (value (Printer.value indent j ++ rest)) j rest

theorem readsBack_scalar {s : Scalar} (h : s.Readable) (indent : Nat) :
    ReadsBack indent (.scalar s) := by
  refine ⟨?_, fun rest hrest => gives_value_scalar h hrest⟩
  by_cases htext : ∃ t : String, s = .text t
  · obtain ⟨t, rfl⟩ := htext
    exact ⟨'\x22', rfl, .inr (.inl rfl)⟩
  · obtain ⟨⟨c, hc, hstart⟩, -⟩ := scalar_printed h (not_exists.1 htext) Numeral.Stops.nil
    exact ⟨c, hc, .inl hstart⟩

theorem skipBlanks_append {blanks : List Char} (hblanks : ∀ c ∈ blanks, isBlank c) {c : Char}
    (hc : isBlank c = false) (rest : List Char) :
    (skipBlanks (blanks ++ c :: rest)).val = c :: rest := by
  change (blanks ++ c :: rest).dropWhile isBlank = c :: rest
  rw [List.dropWhile_append_of_pos hblanks, List.dropWhile_cons_of_neg (by simp [hc])]

/-- The blanks before a value are skipped. -/
theorem ReadsBack.skipBlanks_value {indent : Nat} (h : ReadsBack indent j) {blanks : List Char}
    (hblanks : ∀ c ∈ blanks, isBlank c) (rest : List Char) :
    (skipBlanks (blanks ++ (Printer.value indent j ++ rest))).val =
      Printer.value indent j ++ rest := by
  obtain ⟨c, hc, hstart⟩ := h.starts
  obtain ⟨cs, hcs⟩ := List.head?_eq_some_iff.1 hc
  rw [hcs, List.cons_append, skipBlanks_append hblanks hstart.ne.1]

theorem isBlank_of_mem_newline (indent : Nat) : ∀ c ∈ Printer.newline indent, isBlank c := by
  intro c hc
  rcases List.mem_cons.1 hc with rfl | hc
  · rfl
  · rw [List.eq_of_mem_replicate hc]
    rfl

/-- The blanks before a key are skipped. -/
theorem skipBlanks_text (indent : Nat) (key : String) (rest : List Char) :
    (skipBlanks (Printer.newline indent ++ (Printer.text key ++ rest))).val =
      Printer.text key ++ rest := by
  rw [Printer.text, List.cons_append]
  exact skipBlanks_append (isBlank_of_mem_newline indent) (by decide) _

/-- A field is read back together with the fields after it. -/
theorem ReadsBack.gives_members {indent : Nat} (h : ReadsBack indent j) (key : String)
    (hrest : Numeral.Stops rest) (hfollows : Follows '\x7d' members fields rest left) :
    Gives (members (Printer.text key ++ ':' :: ' ' :: (Printer.value indent j ++ rest)))
      ((key, j) :: fields) left := by
  have hvalue := h.gives rest hrest
  rw [← h.skipBlanks_value (List.forall_mem_nil _)] at hvalue
  exact Reader.gives_members hvalue hfollows

theorem stops_cons {c : Char} (hc : c = ',' ∨ c = '\n') (rest : List Char) :
    Numeral.Stops (c :: rest) := by
  intro d hd
  obtain rfl := Option.some.inj hd
  rcases hc with rfl | rfl <;> simp [Numeral.Continues]

theorem stops_items (indent outer : Nat) (js : List Json) (rest : List Char) :
    Numeral.Stops (Printer.items indent js ++ (Printer.newline outer ++ rest)) := by
  cases js with
  | nil => exact stops_cons (.inr rfl) _
  | cons j js => exact stops_cons (.inl rfl) _

theorem stops_members (indent outer : Nat) (fields : List (LooseText × Json)) (rest : List Char) :
    Numeral.Stops (Printer.members indent fields ++ (Printer.newline outer ++ rest)) := by
  cases fields with
  | nil => exact stops_cons (.inr rfl) _
  | cons field fields => exact stops_cons (.inl rfl) _

/-- The items after one are read back, up to and with the closing bracket. -/
theorem follows_items {indent : Nat} (h : ∀ j ∈ js, ReadsBack indent j) (outer : Nat)
    (left : List Char) :
    Follows ']' items js
      (Printer.items indent js ++ (Printer.newline outer ++ ']' :: left)) left := by
  induction js with
  | nil => exact .inl ⟨skipBlanks_append (isBlank_of_mem_newline outer) (by decide) left, rfl⟩
  | cons j js ih =>
    obtain ⟨hj, hjs⟩ := List.forall_mem_cons.1 h
    -- The item after a comma stands on a line of its own; the line feed and the indent are skipped.
    have hstart := hj.skipBlanks_value (isBlank_of_mem_newline indent)
      (Printer.items indent js ++ (Printer.newline outer ++ ']' :: left))
    have hgives := gives_items (hj.gives _ (stops_items indent outer js _)) (ih hjs)
    rw [← hstart] at hgives
    refine .inr ⟨rfl, ?_⟩
    rw [Printer.items, List.cons_append, List.append_assoc, List.append_assoc]
    exact hgives

/-- The fields after one are read back, up to and with the closing brace. -/
theorem follows_members {indent : Nat} (hwhole : ∀ field ∈ fields, field.1.IsWhole)
    (h : ∀ field ∈ fields, ReadsBack indent field.2) (outer : Nat) (left : List Char) :
    Follows '\x7d' members fields
      (Printer.members indent fields ++ (Printer.newline outer ++ '\x7d' :: left)) left := by
  induction fields with
  | nil => exact .inl ⟨skipBlanks_append (isBlank_of_mem_newline outer) (by decide) left, rfl⟩
  | cons field fields ih =>
    obtain ⟨⟨key, hkey⟩, hkeys⟩ := List.forall_mem_cons.1 hwhole
    obtain ⟨hj, hfields⟩ := List.forall_mem_cons.1 h
    obtain ⟨_, j⟩ := field
    obtain rfl := hkey
    have hgives := hj.gives_members key (stops_members indent outer fields _) (ih hkeys hfields)
    rw [← skipBlanks_text indent] at hgives
    refine .inr ⟨rfl, ?_⟩
    rw [Printer.members, List.cons_append, List.append_assoc, List.append_assoc, List.append_assoc,
      List.append_assoc]
    exact hgives

/-- Different keys never meet. -/
theorem foldl_addField (fields found : List (LooseText × Json))
    (h : ((found ++ fields).map (·.1)).Nodup) : fields.foldl addField found = found ++ fields := by
  induction fields generalizing found with
  | nil => simp
  | cons field fields ih =>
    -- The fields found so far are carried along: a key is new if none of them has it.
    have hnew : found.any (·.1 = field.1) = false := by
      rw [List.map_append, List.nodup_append] at h
      simp only [List.any_eq_false, decide_eq_true_eq]
      intro other hother
      exact h.2.2 _ (List.mem_map_of_mem hother) _ (by simp)
    rw [List.foldl_cons, addField, hnew, if_neg (by simp), ih]
    · simp
    · simpa using h

end Reader

/-- A document that is read back from its text: its scalars are, keys are whole, and no object has
two fields with one key. -/
inductive Readable : Json → Prop
  | scalar {s : Scalar} (h : s.Readable) : Readable (.scalar s)
  | array {items : List Json} (h : ∀ item ∈ items, Readable item) : Readable (.array items)
  | object {fields : List (LooseText × Json)} (hkeys : (fields.map (·.1)).Nodup)
    (hwhole : ∀ field ∈ fields, field.1.IsWhole) (h : ∀ field ∈ fields, Readable field.2) :
    Readable (.object fields)

namespace Reader

theorem readsBack_array {js : List Json} (h : ∀ j ∈ js, ∀ indent, ReadsBack indent j)
    (indent : Nat) : ReadsBack indent (.array js) := by
  cases js with
  | nil =>
    refine ⟨⟨'[', rfl, by decide⟩, fun rest _ => ?_⟩
    rw [Printer.value, List.cons_append, value.eq_def]
    exact ⟨_, rfl⟩
  | cons j js =>
    obtain ⟨hj, hjs⟩ := List.forall_mem_cons.1 h
    have hj := hj (indent + 2)
    refine ⟨⟨'[', by rw [Printer.value]; rfl, by decide⟩, fun rest _ => ?_⟩
    have hprinted : Printer.value indent (.array (j :: js)) ++ rest =
        '[' :: (Printer.newline (indent + 2) ++ (Printer.value (indent + 2) j ++
          (Printer.items (indent + 2) js ++ (Printer.newline indent ++ ']' :: rest)))) := by
      simp [Printer.value]
    have hstart := hj.skipBlanks_value (isBlank_of_mem_newline (indent + 2))
      (Printer.items (indent + 2) js ++ (Printer.newline indent ++ ']' :: rest))
    rw [hprinted]
    refine gives_value_array ?_ ?_
    · obtain ⟨c, hc, hvalue⟩ := hj.starts
      rw [hstart, List.head?_append, Option.mem_def.1 hc, Option.some_or, ne_eq, Option.some.injEq]
      exact hvalue.ne.2.1
    · rw [hstart]
      exact gives_items (hj.gives _ (stops_items _ _ _ _))
        (follows_items (fun item hitem => hjs item hitem (indent + 2)) indent rest)

theorem readsBack_object {fields : List (LooseText × Json)} (hkeys : (fields.map (·.1)).Nodup)
    (hwhole : ∀ field ∈ fields, field.1.IsWhole)
    (h : ∀ field ∈ fields, ∀ indent, ReadsBack indent field.2) (indent : Nat) :
    ReadsBack indent (.object fields) := by
  cases fields with
  | nil =>
    refine ⟨⟨'\x7b', rfl, by decide⟩, fun rest _ => ?_⟩
    rw [Printer.value, List.cons_append, value.eq_def]
    exact ⟨_, rfl⟩
  | cons field fields =>
    obtain ⟨⟨key, hkey⟩, hothers⟩ := List.forall_mem_cons.1 hwhole
    obtain ⟨hj, hfields⟩ := List.forall_mem_cons.1 h
    obtain ⟨_, j⟩ := field
    obtain rfl := hkey
    refine ⟨⟨'\x7b', by rw [Printer.value]; rfl, by decide⟩, fun rest _ => ?_⟩
    have hprinted : Printer.value indent (.object ((.whole key, j) :: fields)) ++ rest =
        '\x7b' :: (Printer.newline (indent + 2) ++ (Printer.text key ++ ':' :: ' ' ::
          (Printer.value (indent + 2) j ++ (Printer.members (indent + 2) fields ++
            (Printer.newline indent ++ '\x7d' :: rest))))) := by
      simp [Printer.value]
    have hmembers := (hj (indent + 2)).gives_members key (stops_members _ _ _ _)
      (follows_members hothers (fun field hfield => hfields field hfield (indent + 2)) indent rest)
    rw [← skipBlanks_text (indent + 2)] at hmembers
    have hhead : (skipBlanks (Printer.newline (indent + 2) ++ (Printer.text key ++ ':' :: ' ' ::
        (Printer.value (indent + 2) j ++ (Printer.members (indent + 2) fields ++
          (Printer.newline indent ++ '\x7d' :: rest)))))).val.head? ≠ some '\x7d' := by
      rw [skipBlanks_text]
      simp [Printer.text]
    have hobject := gives_value_object hhead hmembers
    rw [foldl_addField _ [] hkeys] at hobject
    rw [hprinted]
    exact hobject

/-- Every part of a document is read back where it stands. -/
theorem readsBack {j : Json} (h : Readable j) : ∀ indent, ReadsBack indent j := by
  induction h with
  | scalar h => exact readsBack_scalar h
  | array _ ih => exact readsBack_array ih
  | object hkeys hwhole _ ih => exact readsBack_object hkeys hwhole ih

end Reader

/-- A document is read back from its text. -/
theorem read_write {j : Json} (h : Readable j) : read (write j) = .ok j := by
  have hreads := Reader.readsBack h 0
  -- The text starts with the value: there is no mark to refuse and no blank to skip.
  have hmark : (Printer.value 0 j).head? ≠ some '\ufeff' := by
    obtain ⟨c, hc, hstart⟩ := hreads.starts
    rw [Option.mem_def.1 hc, ne_eq, Option.some.injEq]
    exact hstart.ne.2.2
  have hskip := hreads.skipBlanks_value (List.forall_mem_nil _) []
  have hgives := hreads.gives [] .nil
  rw [List.nil_append, List.append_nil] at hskip
  rw [List.append_nil, ← hskip] at hgives
  obtain ⟨hlt, hvalue⟩ := hgives
  rw [read, write, String.toList_ofList, readAll, if_neg hmark, hvalue]
  rfl

end Json

end LetCalc
