import LexicalPaths.Proofs.Text.Utf8
import LexicalPaths.Uri.Percent

/-!
# Percent encoding is undone

An encoded text holds letters, digits and six other characters.  So nothing that separates the parts
of a URI is left in it, and it can be read byte by byte: a plain byte as its character, and any
other byte as a percent sign with the two digits of its number.
-/

namespace LexicalPaths.Uri

/-- What encoded texts are made of. -/
def isEncoded (c : Char) : Bool :=
  c.isAlphanum || c == '_' || c == '.' || c == '-' || c == '~' || c == '/' || c == '%'

theorem isHexDigit_hexDigit : ∀ n < 16, Text.isHexDigit (hexDigit n) = true := by
  decide

theorem hexValue_hexDigit : ∀ n < 16, Text.hexValue (hexDigit n) = n := by
  decide

theorem isEncoded_hexDigit : ∀ n < 16, isEncoded (hexDigit n) = true := by
  decide

theorem percentBytes_cons_of_ne {c : Char} (hc : c ≠ '%') (t : Text) :
    percentBytes (c :: t) = UInt8.ofNat c.toNat :: percentBytes t := by
  rw [percentBytes]
  exact fun _ _ _ heq => absurd heq hc

theorem toNat_ofNat_of_lt {n : Nat} (hn : n < 0x80) : (Char.ofNat n).toNat = n :=
  Text.toNat_ofNat (.inl (by omega))

/-- A plain byte is the byte of a character of encoded texts. -/
theorem isPlainByte_bounds {b : UInt8} (hb : isPlainByte b = true) :
    b.toNat < 0x80 ∧ isEncoded (Char.ofNat b.toNat) = true ∧ Char.ofNat b.toNat ≠ '%' := by
  unfold isPlainByte at hb
  extract_lets c at hb
  obtain ⟨hlt, hplain⟩ := Bool.and_eq_true_iff.mp hb
  refine ⟨by simpa [UInt8.lt_iff_toNat_lt] using hlt, ?_, ?_⟩
  · show isEncoded c = true
    rw [isEncoded, hplain, Bool.true_or]
  · intro hpercent
    have hc : c = '%' := hpercent
    rw [hc] at hplain
    contradiction

theorem percentBytes_encodeByte (b : UInt8) (t : Text) :
    percentBytes (encodeByte b ++ t) = b :: percentBytes t := by
  unfold encodeByte
  split
  next hplain =>
    obtain ⟨hlt, -, hne⟩ := isPlainByte_bounds hplain
    rw [List.cons_append, List.nil_append, percentBytes_cons_of_ne hne, toNat_ofNat_of_lt hlt,
      UInt8.ofNat_toNat]
  next =>
    have hbyte : b.toNat < 256 := b.toNat_lt
    have hhigh : b.toNat / 16 < 16 := by omega
    have hlow : b.toNat % 16 < 16 := by omega
    have hnumber : Text.natOfDigits 16 [hexDigit (b.toNat / 16), hexDigit (b.toNat % 16)] =
        b.toNat := by
      simp only [Text.natOfDigits, List.foldl_cons, List.foldl_nil, hexValue_hexDigit _ hhigh,
        hexValue_hexDigit _ hlow]
      omega
    simp only [List.cons_append, List.nil_append, percentBytes, isHexDigit_hexDigit _ hhigh,
      isHexDigit_hexDigit _ hlow, Bool.and_self, if_true, hnumber, UInt8.ofNat_toNat]

theorem percentBytes_percentEncode (t : Text) : percentBytes (percentEncode t) = Utf8.encode t := by
  unfold percentEncode
  induction Utf8.encode t with
  | nil => rfl
  | cons b bytes ih => rw [List.flatMap_cons, percentBytes_encodeByte, ih]

theorem isEncoded_of_mem_percentEncode {t : Text} {c : Char} (hc : c ∈ percentEncode t) :
    isEncoded c = true := by
  obtain ⟨b, -, hc⟩ := List.mem_flatMap.mp hc
  have hbyte : b.toNat < 256 := b.toNat_lt
  unfold encodeByte at hc
  split at hc
  next hplain =>
    rw [List.mem_singleton.mp hc]
    exact (isPlainByte_bounds hplain).2.1
  next =>
    simp only [List.mem_cons, List.not_mem_nil, or_false] at hc
    rcases hc with rfl | rfl | rfl
    · rfl
    · exact isEncoded_hexDigit _ (by omega)
    · exact isEncoded_hexDigit _ (by omega)

/-- A character that no encoded text is made of is not found in one. -/
theorem notMem_percentEncode {c : Char} (hc : isEncoded c = false) (t : Text) :
    c ∉ percentEncode t := by
  intro hmem
  rw [isEncoded_of_mem_percentEncode hmem] at hc
  contradiction

theorem isEncoded_bounds {c : Char} (hc : isEncoded c = true) :
    0x20 < c.toNat ∧ c.toNat < 0x80 := by
  have hval : c.toNat = c.val.toNat := rfl
  unfold isEncoded Char.isAlphanum Char.isAlpha Char.isUpper Char.isLower Char.isDigit at hc
  simp only [Bool.or_eq_true, Bool.and_eq_true, decide_eq_true_eq, beq_iff_eq,
    UInt32.le_iff_toNat_le, ge_iff_le] at hc
  rcases hc with ((((((((hc | hc) | hc) | rfl) | rfl) | rfl) | rfl) | rfl) | rfl)
  iterate 3
    simp only [Char.reduceVal, UInt32.reduceToNat] at hc
    omega
  all_goals decide

theorem percentDecodeFrom_of_isAscii (pending : Text) {t : Text}
    (ht : ∀ c ∈ t, isAscii c = true) :
    percentDecodeFrom pending t =
      Utf8.decodeReplacing (percentBytes (pending.reverse ++ t)) := by
  induction t generalizing pending with
  | nil => rw [percentDecodeFrom, List.append_nil]
  | cons c t ih =>
      rw [percentDecodeFrom, if_pos (ht c List.mem_cons_self),
        ih (c :: pending) fun d hd => ht d (List.mem_cons_of_mem c hd)]
      simp

/-- Every text is read from its encoded form. -/
theorem percentDecode_percentEncode (t : Text) : percentDecode (percentEncode t) = t := by
  have hascii : ∀ c ∈ percentEncode t, isAscii c = true := fun c hc => by
    simpa [isAscii] using (isEncoded_bounds (isEncoded_of_mem_percentEncode hc)).2
  rw [percentDecode, percentDecodeFrom_of_isAscii [] hascii, List.reverse_nil, List.nil_append,
    percentBytes_percentEncode, Utf8.decodeReplacing_encode]

theorem percentEncode_injective : Function.Injective percentEncode :=
  Function.LeftInverse.injective percentDecode_percentEncode

theorem percentEncode_slash (t : Text) : percentEncode ('/' :: t) = '/' :: percentEncode t := by
  have hslash : encodeByte 47 = ['/'] := by decide
  have hencode : Utf8.encode ('/' :: t) = 47 :: Utf8.encode t := rfl
  rw [percentEncode, hencode, List.flatMap_cons, hslash]
  rfl

end LexicalPaths.Uri
