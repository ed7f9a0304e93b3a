import LetCalc.Text.Utf8

/-!
# Text read back from bytes

Decoding inverts encoding (`Utf8.decode_encode`). `Utf8.Encodes` says what makes a first byte and
the bytes after it one character for the decoder; decoding then goes on after them, whatever
follows. The encoding of every character has that form, with one case for each number of bytes.
-/

namespace LetCalc.Text.Utf8

/-- A first byte and the bytes after it make up the character `c`. -/
structure Encodes (c : Char) (first : UInt8) (more : List UInt8) : Prop where
  announced : announced? first = some (more.length + 1)
  continued : ∀ rest, continuations first more.length (more ++ rest) = more
  denoted : codePoint first more = c.toNat

/-- Decoding takes one character and goes on after it. -/
theorem Encodes.decodeFrom_append {c : Char} {first : UInt8} {more : List UInt8}
    (h : Encodes c first more) (position : Nat) (rest : List UInt8) :
    decodeFrom position (first :: (more ++ rest)) =
      (decodeFrom (position + (more.length + 1)) rest).map (c :: ·) := by
  rw [decodeFrom, h.announced]
  simp only [Nat.add_sub_cancel, h.continued, if_true, List.drop_left, h.denoted, Char.ofNat_toNat]

/-! ## Bytes as numbers -/

theorem announced?_ofNat {n : Nat} (hn : n < 256) :
    announced? (.ofNat n) =
      if n ≤ 0x7f then some 1
      else if 0xc2 ≤ n ∧ n ≤ 0xdf then some 2
      else if 0xe0 ≤ n ∧ n ≤ 0xef then some 3
      else if 0xf0 ≤ n ∧ n ≤ 0xf4 then some 4
      else none := by
  simp [announced?, UInt8.le_iff_toNat_le, Nat.mod_eq_of_lt hn]

theorem isContinuation_ofNat {n : Nat} (hn : n < 256) :
    isContinuation (.ofNat n) = true ↔ 0x80 ≤ n ∧ n ≤ 0xbf := by
  simp [isContinuation, UInt8.le_iff_toNat_le, Nat.mod_eq_of_lt hn]

theorem isSecond_ofNat {m n : Nat} (hm : m < 256) (hn : n < 256) :
    isSecond (.ofNat m) (.ofNat n) = true ↔
      (0x80 ≤ n ∧ n ≤ 0xbf) ∧ (m ≠ 0xe0 ∨ 0xa0 ≤ n) ∧ (m ≠ 0xed ∨ n < 0xa0) ∧
        (m ≠ 0xf0 ∨ 0x90 ≤ n) ∧ (m ≠ 0xf4 ∨ n < 0x90) := by
  have hne : ∀ k : UInt8, (UInt8.ofNat m != k) = true ↔ m ≠ k.toNat := by
    intro k
    rw [bne_iff_ne, ne_eq, ← UInt8.toNat_inj, UInt8.toNat_ofNat', Nat.mod_eq_of_lt hm]
  simp only [isSecond, Bool.and_eq_true, Bool.or_eq_true, isContinuation_ofNat hn, hne,
    decide_eq_true_eq, UInt8.le_iff_toNat_le, UInt8.lt_iff_toNat_lt, UInt8.toNat_ofNat',
    Nat.mod_eq_of_lt hn, and_assoc]
  rfl

/-! ## Characters by their number of bytes -/

theorem toNat_ofNat {n : Nat} (hn : n < 256) : (UInt8.ofNat n).toNat = n := by
  rw [UInt8.toNat_ofNat', Nat.mod_eq_of_lt hn]

/-- A character of one byte. -/
theorem encodes_one {c : Char} {a : Nat} (ha : a ≤ 0x7f) (hc : a = c.toNat) :
    Encodes c (.ofNat a) [] where
  announced := by
    rw [announced?_ofNat (by omega), if_pos ha]
    rfl
  continued := fun rest => by cases rest <;> rfl
  denoted := (toNat_ofNat (by omega)).trans hc

/-- A character of two bytes; the first one is not so small that one byte would do. -/
theorem encodes_two {c : Char} {a b : Nat} (ha : 0xc2 ≤ a ∧ a ≤ 0xdf) (hb : 0x80 ≤ b ∧ b ≤ 0xbf)
    (hc : a % 0x20 * 0x40 + b % 0x40 = c.toNat) : Encodes c (.ofNat a) [.ofNat b] where
  announced := by
    rw [announced?_ofNat (by omega), if_neg (by omega), if_pos ha]
    rfl
  continued := fun rest => by
    have hsecond : isSecond (.ofNat a) (.ofNat b) := by
      rw [isSecond_ofNat (by omega) (by omega)]
      omega
    simp [continuations, hsecond]
  denoted := by
    simp only [codePoint, List.length_singleton, List.foldl_cons, List.foldl_nil]
    rw [toNat_ofNat (by omega), toNat_ofNat (by omega), hc]

/-- A character of three bytes, which is no half of a surrogate pair. -/
theorem encodes_three {c : Char} {a b d : Nat} (ha : 0xe0 ≤ a ∧ a ≤ 0xef)
    (hb : 0x80 ≤ b ∧ b ≤ 0xbf) (hab : (a ≠ 0xe0 ∨ 0xa0 ≤ b) ∧ (a ≠ 0xed ∨ b < 0xa0))
    (hd : 0x80 ≤ d ∧ d ≤ 0xbf) (hc : (a % 0x10 * 0x40 + b % 0x40) * 0x40 + d % 0x40 = c.toNat) :
    Encodes c (.ofNat a) [.ofNat b, .ofNat d] where
  announced := by
    rw [announced?_ofNat (by omega), if_neg (by omega), if_neg (by omega), if_pos ha]
    rfl
  continued := fun rest => by
    have hsecond : isSecond (.ofNat a) (.ofNat b) := by
      rw [isSecond_ofNat (by omega) (by omega)]
      omega
    have hthird : isContinuation (.ofNat d) := (isContinuation_ofNat (by omega)).2 hd
    simp [continuations, hsecond, hthird]
  denoted := by
    simp only [codePoint, List.length_cons, List.length_nil, List.foldl_cons, List.foldl_nil]
    rw [toNat_ofNat (by omega), toNat_ofNat (by omega), toNat_ofNat (by omega), hc]

/-- A character of four bytes, up to the last code point. -/
theorem encodes_four {c : Char} {a b d e : Nat} (ha : 0xf0 ≤ a ∧ a ≤ 0xf4)
    (hb : 0x80 ≤ b ∧ b ≤ 0xbf) (hab : (a ≠ 0xf0 ∨ 0x90 ≤ b) ∧ (a ≠ 0xf4 ∨ b < 0x90))
    (hd : 0x80 ≤ d ∧ d ≤ 0xbf) (he : 0x80 ≤ e ∧ e ≤ 0xbf)
    (hc : ((a % 0x8 * 0x40 + b % 0x40) * 0x40 + d % 0x40) * 0x40 + e % 0x40 = c.toNat) :
    Encodes c (.ofNat a) [.ofNat b, .ofNat d, .ofNat e] where
  announced := by
    rw [announced?_ofNat (by omega), if_neg (by omega), if_neg (by omega), if_neg (by omega),
      if_pos ha]
    rfl
  continued := fun rest => by
    have hsecond : isSecond (.ofNat a) (.ofNat b) := by
      rw [isSecond_ofNat (by omega) (by omega)]
      omega
    have hthird : isContinuation (.ofNat d) := (isContinuation_ofNat (by omega)).2 hd
    have hfourth : isContinuation (.ofNat e) := (isContinuation_ofNat (by omega)).2 he
    simp [continuations, hsecond, hthird, hfourth]
  denoted := by
    simp only [codePoint, List.length_cons, List.length_nil, List.foldl_cons, List.foldl_nil]
    rw [toNat_ofNat (by omega), toNat_ofNat (by omega), toNat_ofNat (by omega),
      toNat_ofNat (by omega), hc]

/-- The bytes of a character are found again by the decoder. -/
theorem exists_encodes (c : Char) :
    ∃ first more, String.utf8EncodeChar c = first :: more ∧ Encodes c first more := by
  -- That surrogates are no characters is needed for the second of three bytes, and the upper bound
  -- for the second of four.
  have hvalid : c.toNat < 0xd800 ∨ 0xdfff < c.toNat ∧ c.toNat < 0x110000 := c.valid
  have hv : c.val.toNat = c.toNat := rfl
  rw [String.utf8EncodeChar, hv]
  by_cases hone : c.toNat ≤ 0x7f
  · rw [if_pos hone]
    exact ⟨_, _, rfl, encodes_one hone rfl⟩
  · rw [if_neg hone]
    by_cases htwo : c.toNat ≤ 0x7ff
    · rw [if_pos htwo]
      exact ⟨_, _, rfl, encodes_two (by omega) (by omega) (by omega)⟩
    · rw [if_neg htwo]
      by_cases hthree : c.toNat ≤ 0xffff
      · rw [if_pos hthree]
        exact ⟨_, _, rfl, encodes_three (by omega) (by omega) (by omega) (by omega) (by omega)⟩
      · rw [if_neg hthree]
        exact ⟨_, _, rfl, encodes_four (by omega) (by omega) (by omega) (by omega) (by omega)
          (by omega)⟩

/-- Characters are decoded one after the other, wherever they start. -/
theorem decodeFrom_flatMap (cs : List Char) (position : Nat) :
    decodeFrom position (cs.flatMap String.utf8EncodeChar) = .ok cs := by
  induction cs generalizing position with
  | nil => rw [List.flatMap_nil, decodeFrom]
  | cons c cs ih =>
    obtain ⟨first, more, hc, hencodes⟩ := exists_encodes c
    rw [List.flatMap_cons, hc, List.cons_append, hencodes.decodeFrom_append, ih]
    rfl

/-- Every text is decoded from its bytes. -/
theorem decode_encode (s : String) : decode (encode s) = .ok s := by
  rw [decode, encode, decodeFrom_flatMap]
  exact congrArg Except.ok String.ofList_toList

end LetCalc.Text.Utf8
