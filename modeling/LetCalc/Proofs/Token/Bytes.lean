import LetCalc.Proofs.Token.Scanning
import LetCalc.Text.Utf8

/-!
# Spans in bytes

Places count characters, while a span is a range of bytes. The two agree because nothing but ASCII
is ever read past: words and blanks are made of it, and the first other character is where reading
stops. Only that character itself is measured in bytes.

* `Span.IsByteRange`: the span is the range of the bytes of a part of a source.
* `Lexer.isAscii_take_skip`: everything before a step of the lexer is ASCII.
* `Lexer.isByteRange_token`, `Lexer.isByteRange_failure`: the spans of tokens, and of what ends
  them.
* `Lexer.isByteRange_end`: a source that is read to its end is as long in bytes as in characters.
-/

namespace LetCalc

/-! ## Bytes of a text -/

namespace Text.Utf8

theorem encode_append (s t : String) : encode (s ++ t) = encode s ++ encode t := by
  rw [encode, String.toList_append, List.flatMap_append]
  rfl

theorem encode_singleton (c : Char) : encode (String.singleton c) = String.utf8EncodeChar c := by
  simp [encode]

end Text.Utf8

open Text.Utf8 (encode encode_append encode_singleton)

/-- Characters that take one byte each. -/
def IsAscii (cs : List Char) : Prop := ∀ c ∈ cs, c.utf8Size = 1

theorem IsAscii.append {cs ds : List Char} (hcs : IsAscii cs) (hds : IsAscii ds) :
    IsAscii (cs ++ ds) := by
  intro c hc
  rcases List.mem_append.1 hc with hc | hc
  · exact hcs c hc
  · exact hds c hc

/-- A text in ASCII has as many bytes as characters. -/
theorem IsAscii.length_encode {s : String} (h : IsAscii s.toList) :
    (encode s).length = s.length := by
  have hsizes : s.toList.map (fun c => (String.utf8EncodeChar c).length) =
      s.toList.map fun _ => 1 :=
    List.map_congr_left fun c hc => (String.length_utf8EncodeChar c).trans (h c hc)
  rw [encode, List.length_flatMap, hsizes, List.map_const', List.sum_replicate, smul_eq_mul,
    mul_one, String.length_toList]

namespace Span

/-- The span is the range of the bytes of `part`, which stands after `offset` characters of the
source. -/
def IsByteRange (span : Span) (source : String) (offset : Nat) (part : String) : Prop :=
  ∃ before after : String, source = before ++ part ++ after ∧ before.length = offset ∧
    span.start = (encode before).length ∧ span.stop = (encode (before ++ part)).length

variable {span : Span} {source part : String} {offset : Nat}

/-- The range cuts the part out of the bytes of the source. -/
theorem IsByteRange.extract_eq (h : span.IsByteRange source offset part) :
    (encode source).extract span.start span.stop = encode part := by
  obtain ⟨before, after, rfl, -, hstart, hstop⟩ := h
  rw [hstart, hstop, encode_append, encode_append, List.length_append, List.extract_eq_take_drop,
    Nat.add_sub_cancel_left, List.append_assoc, List.drop_left, List.take_left]

theorem IsByteRange.le (h : span.IsByteRange source offset part) :
    span.start ≤ span.stop ∧ span.stop ≤ (encode source).length := by
  obtain ⟨before, after, rfl, -, hstart, hstop⟩ := h
  simp only [hstart, hstop, encode_append, List.length_append]
  omega

/-- After characters in ASCII, the range of a part starts where the characters before it are
counted to. -/
theorem isByteRange_of_isAscii (hbefore : IsAscii (source.toList.take offset))
    (hle : offset ≤ source.toList.length) (hpart : part.toList <+: source.toList.drop offset) :
    IsByteRange ⟨offset, offset + (encode part).length⟩ source offset part := by
  obtain ⟨after, hafter⟩ := hpart
  have hlength : (String.ofList (source.toList.take offset)).length = offset := by
    rw [String.length_ofList, List.length_take_of_le hle]
  have hbytes : (encode (String.ofList (source.toList.take offset))).length = offset := by
    rw [IsAscii.length_encode (by rwa [String.toList_ofList]), hlength]
  refine ⟨.ofList (source.toList.take offset), .ofList after, ?_, hlength, hbytes.symm, ?_⟩
  · apply String.toList_injective
    rw [String.toList_append, String.toList_append, String.toList_ofList, String.toList_ofList,
      List.append_assoc, hafter, List.take_append_drop]
  · rw [encode_append, List.length_append, hbytes]

end Span

/-! ## What is read past -/

theorem utf8Size_eq_one_of_toNat_le {c : Char} (h : c.toNat ≤ 127) : c.utf8Size = 1 := by
  rw [Char.utf8Size_eq_one_iff, UInt32.le_iff_toNat_le]
  exact h

/-- Words are made of ASCII characters. -/
theorem Terminal.isAscii_of_mem {T : Terminal} {w : List Char} (h : w ∈ T.language) :
    IsAscii w := by
  -- The characters of names and numerals come in ranges, all of which end before the bound.
  have hrange : ∀ {c : Char} {ranges : List (Char × Char)},
      (∀ r ∈ ranges, r.2.toNat ≤ 127) → (∃ r ∈ ranges, r.1 ≤ c ∧ c ≤ r.2) → c.utf8Size = 1 := by
    rintro c ranges hranges ⟨r, hr, -, hc⟩
    exact utf8Size_eq_one_of_toNat_le (Nat.le_trans hc (hranges r hr))
  intro c hc
  cases T with
  | number =>
    obtain ⟨n, hn, rfl⟩ := mem_number_iff.1 h
    rcases hn.isNumeralChar c hc with hdigit | hmark
    · exact hrange (by decide) ((isDigit_iff c).1 hdigit)
    · simp only [List.mem_cons, List.not_mem_nil, or_false] at hmark
      rcases hmark with rfl | rfl | rfl | rfl | rfl <;> rfl
  | identifier =>
    obtain ⟨d, ds, hd, hds, rfl⟩ := mem_identifier_iff.1 h
    rcases List.mem_cons.1 hc with rfl | hc
    · exact hrange (by decide) ((isNameStart_iff c).1 hd)
    · exact hrange (by decide) ((isNamePart_iff c).1 (hds c hc))
  | _ =>
    obtain rfl : w = [_] := h
    obtain rfl := List.mem_singleton.1 hc
    rfl

namespace Lexer

variable {cs : List Char} {k : Nat}

theorem isAscii_blanks {ds : List Char} (h : ∀ c ∈ ds, c ∈ blanks) : IsAscii ds := by
  intro c hc
  have hblank := h c hc
  simp only [blanks, List.mem_cons, List.not_mem_nil, or_false] at hblank
  rcases hblank with rfl | rfl | rfl | rfl <;> rfl

/-- Blanks keep it so. -/
theorem isAscii_take_skip_of_take (h : IsAscii (cs.take k)) : IsAscii (cs.take (skip cs k)) := by
  rw [take_skip, ← extract_skip]
  exact h.append (isAscii_blanks fun c hc => mem_blanks_of_mem_extract_skip hc)

/-- A step with a token keeps it so. -/
theorem At.isAscii_of_token {lexer left : Lexer} {t : Token} (h : At cs k lexer)
    (hnext : lexer.next = (.token t, left)) (hascii : IsAscii (cs.take k)) :
    IsAscii (cs.take t.span.stop) := by
  obtain ⟨⟨T, hlongest, -⟩, hplace, -⟩ := h.of_token hnext
  have hstop : t.span.stop = skip cs k + t.text.toList.length := by
    rw [Token.span_stop, Token.span, hplace, Place.offset_origin_advance,
      List.length_take_of_le (skip_le h.le)]
  have hword := List.prefix_iff_eq_take.1 hlongest.starts
  rw [hstop, List.take_add, ← hword]
  exact (isAscii_take_skip_of_take hascii).append (Terminal.isAscii_of_mem hlongest.mem)

/-- So does a run, up to the end of each of its tokens. -/
theorem At.isAscii_take_stopOf {lexer : Lexer} (h : At cs k lexer) (hascii : IsAscii (cs.take k))
    {before : List Token} (hbefore : before <+: lexer.tokens.1) :
    IsAscii (cs.take (Token.stopOf k before)) := by
  induction lexer using run_induction generalizing k before with
  | done lexer left hnext =>
    rw [tokens_of_done hnext, List.prefix_nil] at hbefore
    rwa [hbefore]
  | failure lexer e left hnext =>
    rw [tokens_of_failure hnext, List.prefix_nil] at hbefore
    rwa [hbefore]
  | token lexer t left hnext ih =>
    rw [tokens_of_token hnext] at hbefore
    cases before with
    | nil => exact hascii
    | cons u before =>
      obtain ⟨rfl, hrest⟩ := List.cons_prefix_cons.1 hbefore
      rw [Token.stopOf_cons]
      exact ih (h.of_token hnext).2.2 (h.isAscii_of_token hnext hascii) hrest

/-- Everything before a step of the lexer is ASCII. -/
theorem isAscii_take_skip {source : String} {before : List Token}
    (hbefore : before <+: (ofSource source).tokens.1) :
    IsAscii (source.toList.take (skip source.toList (Token.stopOf 0 before))) :=
  isAscii_take_skip_of_take
    ((at_ofSource source).isAscii_take_stopOf (by simp [IsAscii]) hbefore)

/-! ## Spans -/

/-- The span of a token is the range of its bytes. -/
theorem isByteRange_token {source : String} {t : Token} (ht : t ∈ (ofSource source).tokens.1) :
    t.span.IsByteRange source t.place.offset t.text := by
  obtain ⟨before, after, hts⟩ := List.append_of_mem ht
  obtain ⟨m, left, hm, hnext⟩ := (at_ofSource source).exists_step hts
  obtain ⟨⟨T, hlongest, -⟩, hplace, -⟩ := hm.of_token hnext
  have hbefore : before <+: (ofSource source).tokens.1 := hts ▸ List.prefix_append before _
  have hascii := isAscii_take_skip hbefore
  have hoffset : t.place.offset = skip source.toList (Token.stopOf 0 before) := by
    rw [hplace, Place.offset_origin_advance, List.length_take_of_le (skip_le hm.le)]
  have hrange := Span.isByteRange_of_isAscii hascii (skip_le hm.le) hlongest.starts
  rwa [(Terminal.isAscii_of_mem hlongest.mem).length_encode, ← hoffset] at hrange

end Lexer

/-- What a failure of the lexer is about: a character, or a numeral. -/
def LexError.offender : LexError → String
  | .unexpectedCharacter c _ => String.singleton c
  | .outOfRange numeral _ => numeral

namespace Lexer

/-- The span of a failure is the range of the bytes of the character or the numeral. -/
theorem isByteRange_failure {source : String} {e : LexError}
    (he : (ofSource source).tokens.2 = some e) :
    e.span.IsByteRange source e.place.offset e.offender := by
  obtain ⟨m, hm, -, hsome⟩ := (at_ofSource source).exists_last
  have hfailure := (hsome e).1 he
  have hascii := isAscii_take_skip (List.prefix_refl (ofSource source).tokens.1)
  have hle := skip_le hm.le
  have hoffset : e.place.offset =
      skip source.toList (Token.stopOf 0 (ofSource source).tokens.1) := by
    rw [hm.takes.place_eq hfailure, Place.offset_origin_advance, List.length_take_of_le hle]
  rw [← hoffset] at hascii hle
  cases e with
  | unexpectedCharacter c p =>
    obtain ⟨-, hhead, -⟩ := hm.takes.eq_unexpectedCharacter_iff.1 hfailure
    rw [← hoffset] at hhead
    obtain ⟨rest, hrest⟩ := List.head?_eq_some_iff.1 hhead
    have hpart : (String.singleton c).toList <+: source.toList.drop p.offset := by
      rw [String.toList_singleton]
      exact ⟨rest, hrest.symm⟩
    have hrange := Span.isByteRange_of_isAscii hascii hle hpart
    rwa [encode_singleton, String.length_utf8EncodeChar] at hrange
  | outOfRange numeral p =>
    obtain ⟨-, hlongest, -⟩ := hm.takes.eq_outOfRange_iff.1 hfailure
    have hstarts := hlongest.starts
    rw [← hoffset] at hstarts
    have hrange := Span.isByteRange_of_isAscii hascii hle hstarts
    rwa [(Terminal.isAscii_of_mem hlongest.mem).length_encode] at hrange

/-- At the end of a source without a failure there is the empty range of bytes. -/
theorem isByteRange_end {source : String} (h : (ofSource source).tokens.2 = none) :
    Span.IsByteRange ⟨source.length, source.length⟩ source source.length "" := by
  have hlimit := limit_eq_skip source
  have hascii := isAscii_take_skip (List.prefix_refl (ofSource source).tokens.1)
  rw [h] at hlimit
  rw [← hlimit] at hascii
  have hend : limit source none = source.length := String.length_toList
  rw [hend] at hascii
  exact Span.isByteRange_of_isAscii hascii (Nat.le_of_eq String.length_toList.symm) List.nil_prefix

end Lexer

end LetCalc
