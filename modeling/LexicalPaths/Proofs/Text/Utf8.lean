import LexicalPaths.Proofs.Text.Basic
import LexicalPaths.Text.Utf8
import Mathlib.Tactic.Common

/-!
# Encoded texts are decoded again

Every character is encoded by bytes that are read as this character, whatever follows them.  No
other bytes are read as a character, so a text has one encoding only.
-/

namespace LexicalPaths.Utf8

theorem toNat_ofNat {n : Nat} (hn : n < 256) : (UInt8.ofNat n).toNat = n := by
  simp [UInt8.toNat_ofNat']
  omega

theorem isTail_of_lt {n : Nat} (hn : n < 0x40) : isTail (0x80 + n) = true := by
  simp [isTail]
  omega

theorem isSecond_iff (a b : Nat) :
    isSecond a b = true ↔ (0x80 ≤ b ∧ b ≤ 0xBF) ∧ (a = 0xE0 → 0xA0 ≤ b) ∧ (a = 0xED → b < 0xA0) ∧
      (a = 0xF0 → 0x90 ≤ b) ∧ (a = 0xF4 → b < 0x90) := by
  simp only [isSecond, isTail, Bool.and_eq_true, Bool.not_eq_true', Bool.and_eq_false_iff,
    beq_eq_false_iff_ne, decide_eq_true_eq, decide_eq_false_iff_not]
  omega

theorem toNat_lt (c : Char) : c.toNat < 0xD800 ∨ 0xDFFF < c.toNat ∧ c.toNat < 0x110000 :=
  c.valid

/-- The bytes of a character are read as that character. -/
theorem step_encodeChar (c : Char) (rest : List UInt8) :
    step (encodeChar c ++ rest) = .char c (encodeChar c).length := by
  have hvalid := toNat_lt c
  have hchar := Char.ofNat_toNat c
  generalize hn : c.toNat = n at hvalid hchar
  unfold encodeChar
  rw [hn]
  by_cases hone : n < 0x80
  · simp only [hone, if_true, List.cons_append, List.nil_append, step]
    rw [toNat_ofNat (by omega), if_pos hone, hchar]
    rfl
  by_cases htwo : n < 0x800
  · simp only [hone, htwo, if_true, if_false, List.cons_append, List.nil_append, step, two]
    rw [toNat_ofNat (by omega), toNat_ofNat (by omega), if_neg (by omega), if_neg (by omega),
      if_pos (by omega), if_pos (isTail_of_lt (by omega))]
    have hsum : (0xC0 + n / 0x40 - 0xC0) * 0x40 + (0x80 + n % 0x40 - 0x80) = n := by omega
    rw [hsum, hchar]
    rfl
  by_cases hthree : n < 0x10000
  · have hsecond : isSecond (0xE0 + n / 0x1000) (0x80 + n / 0x40 % 0x40) = true := by
      rw [isSecond_iff]
      omega
    simp only [hone, htwo, hthree, if_true, if_false, List.cons_append, List.nil_append, step,
      three]
    rw [toNat_ofNat (by omega), toNat_ofNat (by omega), toNat_ofNat (by omega),
      if_neg (by omega), if_neg (by omega), if_neg (by omega), if_pos (by omega), hsecond,
      if_pos (isTail_of_lt (by omega))]
    have hsum : (0xE0 + n / 0x1000 - 0xE0) * 0x1000 + (0x80 + n / 0x40 % 0x40 - 0x80) * 0x40 +
        (0x80 + n % 0x40 - 0x80) = n := by omega
    rw [hsum, hchar]
    rfl
  · have hsecond : isSecond (0xF0 + n / 0x40000) (0x80 + n / 0x1000 % 0x40) = true := by
      rw [isSecond_iff]
      omega
    simp only [hone, htwo, hthree, if_false, List.cons_append, List.nil_append, step, four]
    rw [toNat_ofNat (by omega), toNat_ofNat (by omega), toNat_ofNat (by omega),
      toNat_ofNat (by omega), if_neg (by omega), if_neg (by omega), if_neg (by omega),
      if_neg (by omega), if_pos (by omega), hsecond, isTail_of_lt (by omega),
      if_pos (isTail_of_lt (by omega))]
    have hsum : (0xF0 + n / 0x40000 - 0xF0) * 0x40000 +
        (0x80 + n / 0x1000 % 0x40 - 0x80) * 0x1000 + (0x80 + n / 0x40 % 0x40 - 0x80) * 0x40 +
        (0x80 + n % 0x40 - 0x80) = n := by omega
    rw [hsum, hchar]
    rfl

theorem ofNat_eq (b : UInt8) {n : Nat} (hn : n = b.toNat) : UInt8.ofNat n = b := by
  rw [hn, UInt8.ofNat_toNat]

theorem encodeChar_of_two {a b : UInt8} (ha : 0xC2 ≤ a.toNat ∧ a.toNat < 0xE0)
    (hb : isTail b.toNat = true) :
    encodeChar (Char.ofNat ((a.toNat - 0xC0) * 0x40 + (b.toNat - 0x80))) = [a, b] := by
  simp only [isTail, Bool.and_eq_true, decide_eq_true_eq] at hb
  rw [encodeChar, Text.toNat_ofNat (.inl (by omega))]
  rw [if_neg (by omega), if_pos (by omega), ofNat_eq a (by omega), ofNat_eq b (by omega)]

theorem encodeChar_of_three {a b c : UInt8} (ha : 0xE0 ≤ a.toNat ∧ a.toNat < 0xF0)
    (hb : isSecond a.toNat b.toNat = true) (hc : isTail c.toNat = true) :
    encodeChar (Char.ofNat
      ((a.toNat - 0xE0) * 0x1000 + (b.toNat - 0x80) * 0x40 + (c.toNat - 0x80))) = [a, b, c] := by
  rw [isSecond_iff] at hb
  simp only [isTail, Bool.and_eq_true, decide_eq_true_eq] at hc
  have hvalid : ((a.toNat - 0xE0) * 0x1000 + (b.toNat - 0x80) * 0x40 +
      (c.toNat - 0x80)).isValidChar := by
    unfold Nat.isValidChar
    omega
  rw [encodeChar, Text.toNat_ofNat hvalid]
  rw [if_neg (by omega), if_neg (by omega), if_pos (by omega), ofNat_eq a (by omega),
    ofNat_eq b (by omega), ofNat_eq c (by omega)]

theorem encodeChar_of_four {a b c d : UInt8} (ha : 0xF0 ≤ a.toNat ∧ a.toNat < 0xF5)
    (hb : isSecond a.toNat b.toNat = true) (hc : isTail c.toNat = true)
    (hd : isTail d.toNat = true) :
    encodeChar (Char.ofNat ((a.toNat - 0xF0) * 0x40000 + (b.toNat - 0x80) * 0x1000 +
      (c.toNat - 0x80) * 0x40 + (d.toNat - 0x80))) = [a, b, c, d] := by
  rw [isSecond_iff] at hb
  simp only [isTail, Bool.and_eq_true, decide_eq_true_eq] at hc hd
  have hvalid : ((a.toNat - 0xF0) * 0x40000 + (b.toNat - 0x80) * 0x1000 +
      (c.toNat - 0x80) * 0x40 + (d.toNat - 0x80)).isValidChar := by
    unfold Nat.isValidChar
    omega
  rw [encodeChar, Text.toNat_ofNat hvalid]
  rw [if_neg (by omega), if_neg (by omega), if_neg (by omega), ofNat_eq a (by omega),
    ofNat_eq b (by omega), ofNat_eq c (by omega), ofNat_eq d (by omega)]

/-- Only the bytes of a character are read as that character. -/
theorem eq_of_step {bytes : List UInt8} {c : Char} {size : Nat}
    (hstep : step bytes = .char c size) : bytes = encodeChar c ++ bytes.drop size := by
  unfold step at hstep
  split at hstep
  case h_1 => contradiction
  case h_2 a rest =>
  extract_lets n at hstep
  split at hstep
  next hone =>
    obtain ⟨rfl, rfl⟩ := Step.char.inj hstep
    rw [encodeChar, Text.toNat_ofNat (.inl (by omega)), if_pos hone, ofNat_eq a rfl]
    rfl
  split at hstep
  next => contradiction
  split at hstep
  next hlow hhigh =>
    unfold two at hstep
    split at hstep
    next => contradiction
    next b more =>
      split at hstep
      next hb =>
        obtain ⟨rfl, rfl⟩ := Step.char.inj hstep
        rw [encodeChar_of_two ⟨by omega, hhigh⟩ hb]
        rfl
      next => contradiction
  split at hstep
  next hlow hhigh =>
    unfold three at hstep
    split at hstep
    next => contradiction
    next b more =>
      split at hstep
      next => contradiction
      next hb =>
        split at hstep
        next => contradiction
        next c more =>
          split at hstep
          next hc =>
            obtain ⟨rfl, rfl⟩ := Step.char.inj hstep
            rw [encodeChar_of_three ⟨by omega, hhigh⟩ (by simpa using hb) hc]
            rfl
          next => contradiction
  split at hstep
  next hlow hhigh =>
    unfold four at hstep
    split at hstep
    next => contradiction
    next b more =>
      split at hstep
      next => contradiction
      next hb =>
        split at hstep
        next => contradiction
        next c more =>
          split at hstep
          next => contradiction
          next hc =>
            split at hstep
            next => contradiction
            next d more =>
              split at hstep
              next hd =>
                obtain ⟨rfl, rfl⟩ := Step.char.inj hstep
                rw [encodeChar_of_four ⟨by omega, hhigh⟩ (by simpa using hb) (by simpa using hc) hd]
                rfl
              next => contradiction
  next => contradiction

theorem encode_append (t u : Text) : encode (t ++ u) = encode t ++ encode u :=
  List.flatMap_append

theorem encodeChar_ne_nil (c : Char) : encodeChar c ≠ [] := by
  intro hnil
  have hstep := step_encodeChar c []
  rw [hnil] at hstep
  contradiction

theorem decodeFrom_encode (t : Text) {fuel : Nat} (hfuel : (encode t).length ≤ fuel)
    (offset : Nat) : decodeFrom fuel offset (encode t) = .ok t := by
  induction t generalizing fuel offset with
  | nil => cases fuel <;> rfl
  | cons c t ih =>
      have hcons : encode (c :: t) = encodeChar c ++ encode t := rfl
      have hpos := List.length_pos_iff.mpr (encodeChar_ne_nil c)
      rw [hcons, List.length_append] at hfuel
      rw [hcons]
      cases fuel with
      | zero => omega
      | succ fuel =>
          rw [decodeFrom, step_encodeChar]
          simp only [List.drop_left]
          rw [ih (by omega)]
          rfl

/-- The bytes of a text spell that text. -/
theorem decode_encode (t : Text) : decode (encode t) = .ok t :=
  decodeFrom_encode t (Nat.le_refl _) 0

theorem step_ne_done (a : UInt8) (rest : List UInt8) : step (a :: rest) ≠ .done := by
  have htwo : ∀ n, two n rest ≠ .done := by
    unfold two
    grind
  have hthree : ∀ n, three n rest ≠ .done := by
    unfold three
    grind
  have hfour : ∀ n, four n rest ≠ .done := by
    unfold four
    grind
  unfold step
  grind

theorem eq_encode_of_decodeFrom {fuel offset : Nat} {bytes : List UInt8} {t : Text}
    (hfuel : bytes.length ≤ fuel) (hdecode : decodeFrom fuel offset bytes = .ok t) :
    bytes = encode t := by
  induction fuel generalizing offset bytes t with
  | zero =>
      obtain rfl := Except.ok.inj hdecode
      exact List.eq_nil_of_length_eq_zero (by omega)
  | succ fuel ih =>
      unfold decodeFrom at hdecode
      split at hdecode
      next hdone =>
        obtain rfl := Except.ok.inj hdecode
        cases bytes with
        | nil => rfl
        | cons a rest => exact absurd hdone (step_ne_done a rest)
      next c size hchar =>
        have heq := eq_of_step hchar
        have hlength := congrArg List.length heq
        have hpos := List.length_pos_iff.mpr (encodeChar_ne_nil c)
        rw [List.length_append] at hlength
        cases hrest : decodeFrom fuel (offset + size) (bytes.drop size) with
        | error e =>
            rw [hrest] at hdecode
            contradiction
        | ok u =>
            rw [hrest] at hdecode
            obtain rfl := Except.ok.inj hdecode
            have hmore := ih (by omega) hrest
            rw [heq, hmore]
            rfl
      next => contradiction

/-- The bytes that spell a text are its encoding. -/
theorem decode_eq_ok_iff {bytes : List UInt8} {t : Text} :
    decode bytes = .ok t ↔ bytes = encode t := by
  constructor
  · exact eq_encode_of_decodeFrom (Nat.le_refl _)
  · rintro rfl
    exact decode_encode t

theorem decodeReplacingFrom_encode (t : Text) {fuel : Nat} (hfuel : (encode t).length ≤ fuel) :
    decodeReplacingFrom fuel (encode t) = t := by
  induction t generalizing fuel with
  | nil => cases fuel <;> rfl
  | cons c t ih =>
      have hcons : encode (c :: t) = encodeChar c ++ encode t := rfl
      have hpos := List.length_pos_iff.mpr (encodeChar_ne_nil c)
      rw [hcons, List.length_append] at hfuel
      rw [hcons]
      cases fuel with
      | zero => omega
      | succ fuel =>
          rw [decodeReplacingFrom, step_encodeChar]
          simp only [List.drop_left]
          rw [ih (by omega)]

/-- No byte of a text has to be replaced. -/
theorem decodeReplacing_encode (t : Text) : decodeReplacing (encode t) = t :=
  decodeReplacingFrom_encode t (Nat.le_refl _)

end LexicalPaths.Utf8
