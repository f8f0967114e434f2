import Mathlib.Tactic.Common
import Mathlib.Tactic.SplitIfs
import NoteShell.Text.Utf8

/-!
# The bytes of a text are the text

Every character is written as one to four bytes, which are read as one unit: the character. A text
is therefore read back from its bytes, and different texts have different bytes.

The strict reader accepts the bytes of texts and no others: what it reads as characters are exactly
the bytes of these characters. Bytes that belong to no text are therefore always reported.

## Main results

* `unitsLoop_utf8EncodeChar`: the bytes of a character are the unit of that character.
* `decodeUtf8_encodeUtf8`: a text is read back from its bytes.
* `encodeUtf8_inj`: different texts have different bytes.
* `exists_unitsOf` : units that are characters come from the bytes of these characters.
* `eq_encodeUtf8_of_decodeUtf8` : bytes that are read as a text are the bytes of this text.
* `exists_fault_iff` : bytes are reported if and only if they are the bytes of no text.
-/

namespace NoteShell.Text

/-! ### Bytes -/

theorem toNat_byte {n : Nat} (h : n < 256) : (UInt8.ofNat n).toNat = n :=
  UInt8.toNat_ofNat_of_lt' h

/-- The byte of a small number is compared with another byte as the number is. -/
theorem le_byte {b : UInt8} {n : Nat} (h : n < 256) : b ≤ UInt8.ofNat n ↔ b.toNat ≤ n := by
  rw [UInt8.le_iff_toNat_le, toNat_byte h]

theorem byte_le {b : UInt8} {n : Nat} (h : n < 256) : UInt8.ofNat n ≤ b ↔ n ≤ b.toNat := by
  rw [UInt8.le_iff_toNat_le, toNat_byte h]

theorem byte_eq {b : UInt8} {n : Nat} (h : n < 256) : UInt8.ofNat n = b ↔ n = b.toNat := by
  rw [← UInt8.toNat_inj, toNat_byte h]

theorem isTail_byte (n : Nat) : isTail (UInt8.ofNat (n % 64 + 128)) = true := by
  have hn : n % 64 + 128 < 256 := by omega
  simp only [isTail, le_byte hn, byte_le hn, Bool.and_eq_true, decide_eq_true_eq]
  exact ⟨by simp, by simp; omega⟩

theorem low6_byte (n : Nat) : low6 (UInt8.ofNat (n % 64 + 128)) = n % 64 := by
  rw [low6, toNat_byte (by omega)]
  omega

/-! ### The bytes of one character -/

/-- The numbers of characters: those of no surrogate. -/
theorem toNat_char (c : Char) : c.toNat < 0xD800 ∨ 0xDFFF < c.toNat ∧ c.toNat < 0x110000 :=
  c.valid

theorem isSecondOfThree_byte {c : Char} (hlow : 2047 < c.toNat) (hhigh : c.toNat ≤ 65535) :
    isSecondOfThree (UInt8.ofNat (c.toNat / 4096 % 16 + 224))
      (UInt8.ofNat (c.toNat / 64 % 64 + 128)) = true := by
  have hc := toNat_char c
  have ha : c.toNat / 4096 % 16 + 224 < 256 := by omega
  have hb : c.toNat / 64 % 64 + 128 < 256 := by omega
  simp only [isSecondOfThree, isTail_byte, byte_eq ha, le_byte hb, byte_le hb]
  split_ifs with h₁ h₂ <;> simp at * <;> omega

theorem isSecondOfFour_byte {c : Char} (hlow : 65535 < c.toNat) :
    isSecondOfFour (UInt8.ofNat (c.toNat / 262144 % 8 + 240))
      (UInt8.ofNat (c.toNat / 4096 % 64 + 128)) = true := by
  have hc := toNat_char c
  have ha : c.toNat / 262144 % 8 + 240 < 256 := by omega
  have hb : c.toNat / 4096 % 64 + 128 < 256 := by omega
  simp only [isSecondOfFour, isTail_byte, byte_eq ha, le_byte hb, byte_le hb]
  split_ifs with h₁ h₂ <;> simp at * <;> omega

/-! ### Units of one to four bytes -/

section Units

variable {acc : List Utf8Unit} {a b c d : UInt8} {rest : Bytes}

theorem unitsLoop_one (ha : a.toNat ≤ 0x7F) :
    unitsLoop acc (a :: rest) = unitsLoop (.char (Char.ofNat a.toNat) 1 :: acc) rest := by
  have h₁ : a < 0x80 := UInt8.lt_iff_toNat_lt.mpr (by simp; omega)
  rw [unitsLoop.eq_def]
  simp only [h₁, if_true]

theorem not_lt_of_toNat_le (ha : 0x80 ≤ a.toNat) : ¬ a < 0x80 := fun h => by
  have := UInt8.lt_iff_toNat_lt.mp h
  simp at this
  omega

theorem unitsLoop_two (hlow : 0xC2 ≤ a.toNat) (hhigh : a.toNat ≤ 0xDF) (hb : isTail b = true) :
    unitsLoop acc (a :: b :: rest) =
      unitsLoop (.char (Char.ofNat (a.toNat % 32 * 64 + low6 b)) 2 :: acc) rest := by
  have h₁ : ¬ a < 0x80 := not_lt_of_toNat_le (by omega)
  have h₂ : 0xC2 ≤ a ∧ a ≤ 0xDF :=
    ⟨UInt8.le_iff_toNat_le.mpr hlow, UInt8.le_iff_toNat_le.mpr hhigh⟩
  rw [unitsLoop.eq_def]
  simp only [h₁, h₂, hb, if_true, if_false, Bool.and_self, decide_true]

theorem unitsLoop_three (hlow : 0xE0 ≤ a.toNat) (hhigh : a.toNat ≤ 0xEF)
    (hb : isSecondOfThree a b = true) (hc : isTail c = true) :
    unitsLoop acc (a :: b :: c :: rest) =
      unitsLoop (.char (Char.ofNat ((a.toNat % 16 * 64 + low6 b) * 64 + low6 c)) 3 :: acc)
        rest := by
  have h₁ : ¬ a < 0x80 := not_lt_of_toNat_le (by omega)
  have h₂ : ¬ a ≤ 0xDF := fun h => by have := UInt8.le_iff_toNat_le.mp h; simp at this; omega
  have h₃ : 0xE0 ≤ a ∧ a ≤ 0xEF :=
    ⟨UInt8.le_iff_toNat_le.mpr hlow, UInt8.le_iff_toNat_le.mpr hhigh⟩
  rw [unitsLoop.eq_def]
  simp only [h₁, h₂, h₃, hb, hc, if_true, if_false, Bool.and_self, Bool.and_false, decide_true,
    decide_false, Bool.not_true, Bool.false_eq_true]

theorem unitsLoop_four (hlow : 0xF0 ≤ a.toNat) (hhigh : a.toNat ≤ 0xF4)
    (hb : isSecondOfFour a b = true) (hc : isTail c = true) (hd : isTail d = true) :
    unitsLoop acc (a :: b :: c :: d :: rest) =
      unitsLoop (.char (Char.ofNat
        (((a.toNat % 8 * 64 + low6 b) * 64 + low6 c) * 64 + low6 d)) 4 :: acc) rest := by
  have h₁ : ¬ a < 0x80 := not_lt_of_toNat_le (by omega)
  have h₂ : ¬ a ≤ 0xDF := fun h => by have := UInt8.le_iff_toNat_le.mp h; simp at this; omega
  have h₃ : ¬ a ≤ 0xEF := fun h => by have := UInt8.le_iff_toNat_le.mp h; simp at this; omega
  have h₄ : 0xF0 ≤ a ∧ a ≤ 0xF4 :=
    ⟨UInt8.le_iff_toNat_le.mpr hlow, UInt8.le_iff_toNat_le.mpr hhigh⟩
  rw [unitsLoop.eq_def]
  simp only [h₁, h₂, h₃, h₄, hb, hc, hd, if_true, if_false, Bool.and_self, Bool.and_false,
    decide_true, decide_false, Bool.not_true, Bool.false_eq_true]

end Units

/-! ### Texts -/

theorem utf8Size_eq (c : Char) : c.utf8Size =
    if c.toNat ≤ 127 then 1 else if c.toNat ≤ 2047 then 2
      else if c.toNat ≤ 65535 then 3 else 4 := by
  rw [Char.utf8Size]
  simp only [UInt32.le_iff_toNat_le]
  rfl

/-- The bytes of a character are read as that character. -/
theorem unitsLoop_utf8EncodeChar (acc : List Utf8Unit) (c : Char) (rest : Bytes) :
    unitsLoop acc (String.utf8EncodeChar c ++ rest) =
      unitsLoop (.char c c.utf8Size :: acc) rest := by
  have hc := toNat_char c
  have hval : c.val.toNat = c.toNat := rfl
  rw [String.utf8EncodeChar.eq_1, hval, utf8Size_eq]
  split_ifs with h₁ h₂ h₃
  · refine (unitsLoop_one ?_).trans ?_ <;> rw [toNat_byte (by omega)]
    · exact h₁
    · rw [Char.ofNat_toNat]; rfl
  · refine (unitsLoop_two ?_ ?_ (isTail_byte _)).trans ?_ <;> rw [toNat_byte (by omega)]
    · omega
    · omega
    · rw [low6_byte, show (c.toNat / 64 % 32 + 192) % 32 * 64 + c.toNat % 64 = c.toNat by omega,
        Char.ofNat_toNat]
      rfl
  · refine (unitsLoop_three ?_ ?_ (isSecondOfThree_byte (by omega) h₃) (isTail_byte _)).trans ?_
      <;> rw [toNat_byte (by omega)]
    · omega
    · omega
    · rw [low6_byte, low6_byte,
        show ((c.toNat / 4096 % 16 + 224) % 16 * 64 + c.toNat / 64 % 64) * 64 +
        c.toNat % 64 = c.toNat by omega, Char.ofNat_toNat]
      rfl
  · refine (unitsLoop_four ?_ ?_ (isSecondOfFour_byte (by omega)) (isTail_byte _)
      (isTail_byte _)).trans ?_ <;> rw [toNat_byte (by omega)]
    · omega
    · omega
    · rw [low6_byte, low6_byte, low6_byte, show (((c.toNat / 262144 % 8 + 240) % 8 * 64 +
        c.toNat / 4096 % 64) * 64 + c.toNat / 64 % 64) * 64 + c.toNat % 64 = c.toNat by omega,
        Char.ofNat_toNat]
      rfl

/-- The bytes of characters are read as units that are these characters. -/
theorem exists_units (cs : List Char) :
    ∃ units, (∀ acc, unitsLoop acc (cs.flatMap String.utf8EncodeChar) = acc.reverse ++ units) ∧
      ∀ index acc, charsOfUnits index acc units = .ok (acc.reverse ++ cs) := by
  induction cs with
  | nil => exact ⟨[], fun acc => by rw [List.flatMap_nil, unitsLoop, List.append_nil],
      fun index acc => by rw [charsOfUnits, List.append_nil]⟩
  | cons c cs ih =>
    obtain ⟨units, hunits, hchars⟩ := ih
    refine ⟨.char c c.utf8Size :: units, fun acc => ?_, fun index acc => ?_⟩
    · rw [List.flatMap_cons, unitsLoop_utf8EncodeChar, hunits, List.reverse_cons, List.append_assoc]
      rfl
    · rw [charsOfUnits, hchars, List.reverse_cons, List.append_assoc]
      rfl

theorem toList_loop (bytes : ByteArray) (i : Nat) (acc : List UInt8) :
    ByteArray.toList.loop bytes i acc = acc.reverse ++ bytes.data.toList.drop i := by
  fun_induction ByteArray.toList.loop bytes i acc with
  | case1 i acc hi ih =>
    have hi' : i < bytes.data.toList.length := by simpa using hi
    rw [ih, List.drop_eq_getElem_cons hi', List.reverse_cons, List.append_assoc]
    simp [ByteArray.get!, hi]
  | case2 i acc hi =>
    rw [List.drop_eq_nil_of_le (by simpa using hi), List.append_nil]

theorem encodeUtf8_eq (s : String) : encodeUtf8 s = s.toList.flatMap String.utf8EncodeChar := by
  conv => lhs; rw [encodeUtf8, ← String.ofList_toList (s := s), String.toUTF8_eq_toByteArray]
  rw [String.toByteArray_ofList, ByteArray.toList, toList_loop, List.utf8Encode,
    List.data_toByteArray]
  rfl

/-- A text is read back from its bytes. -/
theorem decodeUtf8_encodeUtf8 (s : String) : decodeUtf8 (encodeUtf8 s) = .ok s := by
  obtain ⟨units, hunits, hchars⟩ := exists_units s.toList
  rw [decodeUtf8, utf8Units, encodeUtf8_eq, hunits, List.reverse_nil, List.nil_append, hchars,
    List.reverse_nil, List.nil_append, Except.map, String.ofList_toList]

/-- Different texts have different bytes. -/
theorem encodeUtf8_inj {s t : String} : encodeUtf8 s = encodeUtf8 t ↔ s = t := by
  refine ⟨fun h => ?_, fun h => by rw [h]⟩
  have hst := congrArg decodeUtf8 h
  rw [decodeUtf8_encodeUtf8, decodeUtf8_encodeUtf8] at hst
  exact Except.ok.inj hst

/-! ### Bytes that follow the first one -/

theorem isTail_iff {b : UInt8} : isTail b = true ↔ 0x80 ≤ b.toNat ∧ b.toNat ≤ 0xBF := by
  rw [isTail, Bool.and_eq_true, decide_eq_true_eq, decide_eq_true_eq, UInt8.le_iff_toNat_le,
    UInt8.le_iff_toNat_le]
  rfl

/-- The second byte of a character of three or four bytes, where two first bytes narrow its
range. -/
theorem toNat_of_second {a b low high least greatest : UInt8} (hne : low ≠ high)
    (hleast : 0x80 ≤ least.toNat) (hgreatest : greatest.toNat ≤ 0xBF)
    (h : (if a = low then decide (least ≤ b) && decide (b ≤ 0xBF)
      else if a = high then decide (0x80 ≤ b) && decide (b ≤ greatest) else isTail b) = true) :
    0x80 ≤ b.toNat ∧ b.toNat ≤ 0xBF ∧ (a.toNat = low.toNat → least.toNat ≤ b.toNat) ∧
      (a.toNat = high.toNat → b.toNat ≤ greatest.toNat) := by
  rw [UInt8.toNat_inj, UInt8.toNat_inj]
  split_ifs at h with hlow hhigh
  · rw [Bool.and_eq_true, decide_eq_true_eq, decide_eq_true_eq, UInt8.le_iff_toNat_le,
      UInt8.le_iff_toNat_le] at h
    exact ⟨Nat.le_trans hleast h.1, h.2, fun _ => h.1, fun hhigh =>
      absurd (hlow.symm.trans hhigh) hne⟩
  · rw [Bool.and_eq_true, decide_eq_true_eq, decide_eq_true_eq, UInt8.le_iff_toNat_le,
      UInt8.le_iff_toNat_le] at h
    exact ⟨h.1, Nat.le_trans h.2 hgreatest, fun ha => absurd ha hlow, fun _ => h.2⟩
  · have htail := isTail_iff.mp h
    exact ⟨htail.1, htail.2, fun ha => absurd ha hlow, fun ha => absurd ha hhigh⟩

/-- The character is not too small for three bytes, and no surrogate. -/
theorem toNat_of_isSecondOfThree {a b : UInt8} (h : isSecondOfThree a b = true) :
    0x80 ≤ b.toNat ∧ b.toNat ≤ 0xBF ∧ (a.toNat = 0xE0 → 0xA0 ≤ b.toNat) ∧
      (a.toNat = 0xED → b.toNat ≤ 0x9F) :=
  toNat_of_second (by decide) (by decide) (by decide) h

/-- The character is neither too small nor too large for four bytes. -/
theorem toNat_of_isSecondOfFour {a b : UInt8} (h : isSecondOfFour a b = true) :
    0x80 ≤ b.toNat ∧ b.toNat ≤ 0xBF ∧ (a.toNat = 0xF0 → 0x90 ≤ b.toNat) ∧
      (a.toNat = 0xF4 → b.toNat ≤ 0x8F) :=
  toNat_of_second (by decide) (by decide) (by decide) h

/-! ### The bytes of one character -/

theorem toNat_ofNat {n : Nat} (h : n.isValidChar) : (Char.ofNat n).toNat = n := by
  rw [Char.ofNat, dif_pos h]
  rfl

/-- A byte is the one of its number. -/
theorem byte_of_toNat {b : UInt8} {n : Nat} (h : n = b.toNat) : UInt8.ofNat n = b := by
  rw [h, UInt8.ofNat_toNat]

section Bytes

variable {a b c d : UInt8}

theorem utf8EncodeChar_one (ha : a.toNat < 0x80) :
    String.utf8EncodeChar (Char.ofNat a.toNat) = [a] := by
  have hchar : (Char.ofNat a.toNat).val.toNat = a.toNat := toNat_ofNat (.inl (by omega))
  rw [String.utf8EncodeChar.eq_1, hchar, if_pos (by omega), UInt8.ofNat_toNat]

theorem utf8EncodeChar_two (hlow : 0xC2 ≤ a.toNat) (hhigh : a.toNat ≤ 0xDF)
    (hb : isTail b = true) :
    String.utf8EncodeChar (Char.ofNat (a.toNat % 32 * 64 + low6 b)) = [a, b] := by
  have hb := isTail_iff.mp hb
  rw [low6]
  generalize hn : a.toNat % 32 * 64 + b.toNat % 64 = n
  have hchar : (Char.ofNat n).val.toNat = n := toNat_ofNat (.inl (by omega))
  rw [String.utf8EncodeChar.eq_1, hchar, if_neg (by omega), if_pos (by omega),
    byte_of_toNat (b := a) (by omega), byte_of_toNat (b := b) (by omega)]

theorem utf8EncodeChar_three (hlow : 0xE0 ≤ a.toNat) (hhigh : a.toNat ≤ 0xEF)
    (hb : isSecondOfThree a b = true) (hc : isTail c = true) :
    String.utf8EncodeChar (Char.ofNat ((a.toNat % 16 * 64 + low6 b) * 64 + low6 c)) =
      [a, b, c] := by
  obtain ⟨hb₁, hb₂, hb₃, hb₄⟩ := toNat_of_isSecondOfThree hb
  have hc := isTail_iff.mp hc
  rw [low6, low6]
  generalize hn : (a.toNat % 16 * 64 + b.toNat % 64) * 64 + c.toNat % 64 = n
  have hvalid : n.isValidChar := by
    rw [Nat.isValidChar]
    omega
  have hchar : (Char.ofNat n).val.toNat = n := toNat_ofNat hvalid
  rw [String.utf8EncodeChar.eq_1, hchar, if_neg (by omega), if_neg (by omega), if_pos (by omega),
    byte_of_toNat (b := a) (by omega), byte_of_toNat (b := b) (by omega),
    byte_of_toNat (b := c) (by omega)]

theorem utf8EncodeChar_four (hlow : 0xF0 ≤ a.toNat) (hhigh : a.toNat ≤ 0xF4)
    (hb : isSecondOfFour a b = true) (hc : isTail c = true) (hd : isTail d = true) :
    String.utf8EncodeChar
      (Char.ofNat (((a.toNat % 8 * 64 + low6 b) * 64 + low6 c) * 64 + low6 d)) = [a, b, c, d] := by
  obtain ⟨hb₁, hb₂, hb₃, hb₄⟩ := toNat_of_isSecondOfFour hb
  have hc := isTail_iff.mp hc
  have hd := isTail_iff.mp hd
  rw [low6, low6, low6]
  generalize hn :
    ((a.toNat % 8 * 64 + b.toNat % 64) * 64 + c.toNat % 64) * 64 + d.toNat % 64 = n
  have hvalid : n.isValidChar := by
    rw [Nat.isValidChar]
    omega
  have hchar : (Char.ofNat n).val.toNat = n := toNat_ofNat hvalid
  rw [String.utf8EncodeChar.eq_1, hchar, if_neg (by omega), if_neg (by omega), if_neg (by omega),
    byte_of_toNat (b := a) (by omega), byte_of_toNat (b := b) (by omega),
    byte_of_toNat (b := c) (by omega), byte_of_toNat (b := d) (by omega)]

end Bytes

/-! ### Texts -/

/-- If the units are all characters, then the bytes are those of these characters. -/
def UnitsOf (bytes : Bytes) (units : List Utf8Unit) : Prop :=
  ∀ index acc cs, charsOfUnits index acc units = .ok cs →
    ∃ ds, cs = acc.reverse ++ ds ∧ bytes = ds.flatMap String.utf8EncodeChar

theorem unitsOf_nil : UnitsOf [] [] := by
  intro index acc cs hcs
  rw [charsOfUnits] at hcs
  cases hcs
  exact ⟨[], (List.append_nil _).symm, rfl⟩

/-- The bytes of a character stand before those of the other units. -/
theorem UnitsOf.cons {c : Char} {size : Nat} {bytes rest : Bytes} {units : List Utf8Unit}
    (hc : String.utf8EncodeChar c = bytes) (h : UnitsOf rest units) :
    UnitsOf (bytes ++ rest) (.char c size :: units) := by
  intro index acc cs hcs
  rw [charsOfUnits] at hcs
  obtain ⟨ds, rfl, hrest⟩ := h _ _ _ hcs
  exact ⟨c :: ds, by simp, by rw [List.flatMap_cons, hc, hrest]⟩

theorem unitsOf_invalid (bytes : Bytes) (size : Nat) (units : List Utf8Unit) :
    UnitsOf bytes (.invalid size :: units) := nofun

theorem unitsOf_incomplete (bytes : Bytes) (units : List Utf8Unit) :
    UnitsOf bytes (.incomplete :: units) := nofun

/-- The units of some bytes are added after those that have been read. -/
theorem exists_unitsOf (acc : List Utf8Unit) (bytes : Bytes) :
    ∃ units, unitsLoop acc bytes = acc.reverse ++ units ∧ UnitsOf bytes units := by
  have hnext {unit : Utf8Unit} {acc units xs : List Utf8Unit}
      (h : xs = (unit :: acc).reverse ++ units) : xs = acc.reverse ++ unit :: units := by
    rw [h, List.reverse_cons, List.append_assoc]
    rfl
  have hrange {a low high : UInt8} (h : (decide (low ≤ a) && decide (a ≤ high)) = true) :
      low.toNat ≤ a.toNat ∧ a.toNat ≤ high.toNat := by
    rwa [Bool.and_eq_true, decide_eq_true_eq, decide_eq_true_eq, UInt8.le_iff_toNat_le,
      UInt8.le_iff_toNat_le] at h
  have hnot {b : Bool} (h : ¬ (!b) = true) : b = true := by simpa using h
  have hlast (acc : List Utf8Unit) (bytes : Bytes) :
      ∃ units, (.incomplete :: acc).reverse = acc.reverse ++ units ∧ UnitsOf bytes units :=
    ⟨[.incomplete], List.reverse_cons, unitsOf_incomplete _ _⟩
  fun_induction unitsLoop acc bytes with
  | case1 acc => exact ⟨[], (List.append_nil _).symm, unitsOf_nil⟩
  -- A character of one to four bytes.
  | case2 acc a rest ha ih =>
    obtain ⟨units, hunits, hread⟩ := ih
    exact ⟨_, hnext hunits, .cons (utf8EncodeChar_one (UInt8.lt_iff_toNat_lt.mp ha)) hread⟩
  | case4 acc a _ ha b rest hb ih =>
    obtain ⟨units, hunits, hread⟩ := ih
    have ha := hrange ha
    have hread : UnitsOf ([a, b] ++ rest) (.char _ 2 :: units) :=
      .cons (utf8EncodeChar_two ha.1 ha.2 hb) hread
    exact ⟨_, hnext hunits, hread⟩
  | case9 acc a _ _ ha b hb c rest hc n ih =>
    obtain ⟨units, hunits, hread⟩ := ih
    have ha := hrange ha
    have hread : UnitsOf ([a, b, c] ++ rest) (.char _ 3 :: units) :=
      .cons (utf8EncodeChar_three ha.1 ha.2 (hnot hb) hc) hread
    exact ⟨_, hnext hunits, hread⟩
  | case16 acc a _ _ _ ha b hb c hc d rest hd n ih =>
    obtain ⟨units, hunits, hread⟩ := ih
    have ha := hrange ha
    have hread : UnitsOf ([a, b, c, d] ++ rest) (.char _ 4 :: units) :=
      .cons (utf8EncodeChar_four ha.1 ha.2 (hnot hb) (hnot hc) hd) hread
    exact ⟨_, hnext hunits, hread⟩
  -- A character that the end cuts off.
  | case3 | case6 | case8 | case11 | case13 | case15 => exact hlast _ _
  -- Bytes that begin no character.
  | _ =>
    rename_i ih
    obtain ⟨units, hunits, -⟩ := ih
    exact ⟨_, hnext hunits, unitsOf_invalid _ _ _⟩

/-- Bytes that are read as a text are the bytes of this text. -/
theorem eq_encodeUtf8_of_decodeUtf8 {bytes : Bytes} {s : String} (h : decodeUtf8 bytes = .ok s) :
    bytes = encodeUtf8 s := by
  obtain ⟨units, hunits, hread⟩ := exists_unitsOf [] bytes
  rw [decodeUtf8, utf8Units, hunits, List.reverse_nil, List.nil_append] at h
  cases hchars : charsOfUnits 0 [] units with
  | error fault =>
    rw [hchars] at h
    cases h
  | ok cs =>
    rw [hchars] at h
    cases h
    obtain ⟨ds, rfl, rfl⟩ := hread 0 [] cs hchars
    rw [encodeUtf8_eq, String.toList_ofList]

/-- Bytes are reported if and only if they are the bytes of no text. -/
theorem exists_fault_iff {bytes : Bytes} :
    (∃ fault, decodeUtf8 bytes = .error fault) ↔ ∀ s, bytes ≠ encodeUtf8 s := by
  cases h : decodeUtf8 bytes with
  | ok s => simpa using ⟨s, eq_encodeUtf8_of_decodeUtf8 h⟩
  | error fault =>
    refine ⟨fun _ s hs => ?_, fun _ => ⟨fault, rfl⟩⟩
    rw [hs, decodeUtf8_encodeUtf8] at h
    cases h

end NoteShell.Text
