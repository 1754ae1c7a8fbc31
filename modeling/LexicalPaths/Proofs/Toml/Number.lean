import LexicalPaths.Proofs.Toml.Lines

/-!
# Whole numbers

A whole number that is not negative is read from its decimal digits, unless there are more of them
than a reader takes.  At the end of a line its digits begin no date, no time and no number to
another base.
-/

namespace LexicalPaths.Toml

/-! ## Decimal digits -/

theorem natOfDigits_toDigits (n : Nat) : Text.natOfDigits 10 (Nat.toDigits 10 n) = n := by
  have hvalue : ∀ ds : Text, (∀ c ∈ ds, c.isDigit = true) → ∀ start,
      ds.foldl (fun m c => 10 * m + Text.hexValue c) start = Nat.ofDigitChars 10 ds start := by
    intro ds hdigits
    induction ds with
    | nil => exact fun _ => rfl
    | cons c ds ih =>
        intro start
        obtain ⟨hc, hmore⟩ := List.forall_mem_cons.mp hdigits
        rw [List.foldl_cons, ih hmore, Nat.ofDigitChars_cons, Text.hexValue, if_pos hc]
  have hdigits : ∀ c ∈ Nat.toDigits 10 n, c.isDigit = true := fun c hmem =>
    Nat.isDigit_of_mem_toDigits (by decide) (by decide) hmem
  rw [Text.natOfDigits, hvalue _ hdigits, Nat.ofDigitChars_ten_toDigits]

theorem digitChar_ne_zero : ∀ n < 10, n ≠ 0 → Nat.digitChar n ≠ '0' := by
  decide

/-- The digits of a positive number do not begin with zero. -/
theorem toDigits_ne_zero_cons {n : Nat} (hn : n ≠ 0) (more : Text) :
    Nat.toDigits 10 n ≠ '0' :: more := by
  induction n using Nat.strongRecOn generalizing more with
  | ind n ih =>
      rw [Nat.toDigits_eq_if (by decide)]
      split
      next hsmall =>
        intro heq
        exact digitChar_ne_zero n hsmall hn (List.cons.inj heq).1
      next hlarge =>
        intro heq
        have hdiv : n / 10 ≠ 0 := by omega
        rcases hdigits : Nat.toDigits 10 (n / 10) with _ | ⟨c, ds⟩
        · exact Nat.toDigits_ne_nil hdigits
        · rw [hdigits] at heq
          obtain rfl := (List.cons.inj heq).1
          exact ih (n / 10) (by omega) hdiv ds hdigits

/-! ## Digits at the end of a line -/

section

variable {ds : Text} (hds : ∀ c ∈ ds, c.isDigit = true) (rest : Text)
include hds

theorem moreDigits_lineEnd : moreDigits Char.isDigit (ds ++ '\n' :: rest) = (ds, '\n' :: rest) := by
  have hdigit : ∀ c t, c.isDigit = true → moreDigits Char.isDigit (c :: t) =
      (c :: (moreDigits Char.isDigit t).1, (moreDigits Char.isDigit t).2) := by
    intro c t hc
    rw [moreDigits, if_pos hc]
    rintro d u rfl
    exact absurd hc (by decide)
  induction ds with
  | nil =>
      rw [List.nil_append, moreDigits, if_neg (by decide)]
      intro d u heq
      exact absurd heq (by decide)
  | cons c ds ih =>
      obtain ⟨hc, hmore⟩ := List.forall_mem_cons.mp hds
      rw [List.cons_append, hdigit _ _ hc, ih hmore]

/-- Behind a number of fixed length there is a digit or the line end. -/
theorem exists_cons_of_fixedNumber? {count n : Nat} {t : Text}
    (hfixed : fixedNumber? count (ds ++ '\n' :: rest) = some (n, t)) :
    ∃ c u, t = c :: u ∧ (c.isDigit = true ∨ c = '\n') := by
  unfold fixedNumber? at hfixed
  simp only at hfixed
  split at hfixed
  next hfound =>
    obtain ⟨-, rfl⟩ := Prod.mk.inj (Option.some.inj hfixed)
    have hcount : count ≤ ds.length := by
      by_contra hover
      rw [List.take_append] at hfound
      have hpast : '\n' ∈ ('\n' :: rest).take (count - ds.length) := by
        obtain ⟨k, hk⟩ : ∃ k, count - ds.length = k + 1 := ⟨count - ds.length - 1, by omega⟩
        rw [hk]
        exact List.mem_cons_self
      exact absurd (List.all_eq_true.mp hfound.2 _ (List.mem_append_right _ hpast)) (by decide)
    rw [List.drop_append_of_le_length hcount]
    rcases hdrop : ds.drop count with _ | ⟨c, more⟩
    · exact ⟨'\n', rest, rfl, .inr rfl⟩
    · exact ⟨c, more ++ '\n' :: rest, rfl,
        .inl (hds c (List.mem_of_mem_drop (hdrop ▸ List.mem_cons_self)))⟩
  next => nomatch hfixed

/-- No separator follows a number of fixed length, so no date and no time begins there. -/
theorem after?_of_fixedNumber? {count n : Nat} {t : Text}
    (hfixed : fixedNumber? count (ds ++ '\n' :: rest) = some (n, t)) {d : Char}
    (hdigit : d.isDigit = false) (hend : d ≠ '\n') : after? d t = none := by
  obtain ⟨c, u, rfl, hc⟩ := exists_cons_of_fixedNumber? hds rest hfixed
  refine if_neg ?_
  rintro rfl
  rcases hc with hc | rfl
  · rw [hdigit] at hc
    nomatch hc
  · exact hend rfl

theorem readMoment?_lineEnd : readMoment? (ds ++ '\n' :: rest) = none := by
  have hdate : date? (ds ++ '\n' :: rest) = none := by
    unfold date?
    rcases hyear : fixedNumber? 4 (ds ++ '\n' :: rest) with _ | ⟨year, t⟩
    · rfl
    · have hnone := after?_of_fixedNumber? hds rest hyear (d := '-') (by decide) (by decide)
      simp [hnone]
  have htime : time? (ds ++ '\n' :: rest) = none := by
    unfold time? hourMinute?
    rcases hhour : fixedNumber? 2 (ds ++ '\n' :: rest) with _ | ⟨hour, t⟩
    · rfl
    · have hnone := after?_of_fixedNumber? hds rest hhour (d := ':') (by decide) (by decide)
      simp [hnone]
  rw [readMoment?, hdate, htime]

/-- Behind a first digit there is a digit or the line end, and no letter for a base. -/
theorem ne_of_lineEnd {first c d : Char} {t : Text} (hfirst : first.isDigit = true)
    (hds' : ds ++ '\n' :: rest = first :: c :: t) (hdigit : d.isDigit = false) (hend : d ≠ '\n') :
    c ≠ d := by
  rintro rfl
  rcases ds with _ | ⟨a, _ | ⟨b, ds⟩⟩
  · obtain rfl := (List.cons.inj hds').1
    exact absurd hfirst (by decide)
  · obtain ⟨-, hsecond⟩ := List.cons.inj hds'
    exact hend (List.cons.inj hsecond).1.symm
  · obtain ⟨-, hsecond⟩ := List.cons.inj hds'
    obtain rfl := (List.cons.inj hsecond).1
    rw [hds b (by simp)] at hdigit
    nomatch hdigit

theorem prefixed?_lineEnd : prefixed? (ds ++ '\n' :: rest) = none := by
  unfold prefixed?
  split
  next heq => exact absurd rfl (ne_of_lineEnd hds rest (by decide) heq (by decide) (by decide))
  next heq => exact absurd rfl (ne_of_lineEnd hds rest (by decide) heq (by decide) (by decide))
  next heq => exact absurd rfl (ne_of_lineEnd hds rest (by decide) heq (by decide) (by decide))
  next => rfl

end

theorem isDigit_of_mem_toDigits (n : Nat) : ∀ c ∈ Nat.toDigits 10 n, c.isDigit = true :=
  fun _ hmem => Nat.isDigit_of_mem_toDigits (by decide) (by decide) hmem

theorem exists_toDigits_eq_cons (n : Nat) :
    ∃ c ds, Nat.toDigits 10 n = c :: ds ∧ c.isDigit = true := by
  have hne : Nat.toDigits 10 n ≠ [] := Nat.toDigits_ne_nil
  obtain ⟨c, ds, hdigits⟩ := List.exists_cons_of_ne_nil hne
  exact ⟨c, ds, hdigits, isDigit_of_mem_toDigits n c (hdigits ▸ List.mem_cons_self)⟩

/-- The digits before the point are those of the number. -/
theorem integerPart?_toDigits (n : Nat) (rest : Text) :
    integerPart? (Nat.toDigits 10 n ++ '\n' :: rest) = some (Nat.toDigits 10 n, '\n' :: rest) := by
  rcases eq_or_ne n 0 with rfl | hn
  · rfl
  · obtain ⟨c, ds, hdigits, hc⟩ := exists_toDigits_eq_cons n
    have hmore : ∀ d ∈ ds, d.isDigit = true := fun d hmem =>
      isDigit_of_mem_toDigits n d (hdigits ▸ List.mem_cons_of_mem c hmem)
    rw [hdigits, List.cons_append]
    unfold integerPart?
    split
    next heq =>
      obtain rfl := (List.cons.inj heq).1
      exact absurd hdigits (toDigits_ne_zero_cons hn ds)
    next =>
      rw [digits?, if_pos hc, moreDigits_lineEnd hmore]

theorem decimal?_toDigits {n : Nat} (hn : n < Nat.pow 10 Text.maxDigits) (rest : Text) :
    decimal? false (Nat.toDigits 10 n ++ '\n' :: rest) = some (.ok (.int n, '\n' :: rest)) := by
  have hlength : (Nat.toDigits 10 n).length ≤ Text.maxDigits := by
    -- The bound is named, or else Lean tries to compute the power.
    have hpositive : 0 < Text.maxDigits := by decide
    generalize Text.maxDigits = most at hn hpositive ⊢
    exact (Nat.length_toDigits_le_iff (by decide) hpositive).mpr hn
  have hfraction : fraction ('\n' :: rest) = ([], '\n' :: rest) := rfl
  have hexponent : exponent ('\n' :: rest) = (none, '\n' :: rest) := by
    simp [exponent]
  rw [decimal?, integerPart?_toDigits, Option.map_some]
  simp only [hfraction, hexponent, and_self, if_true, if_neg (Nat.not_lt.mpr hlength),
    natOfDigits_toDigits]
  rfl

theorem sign_of_isDigit {c : Char} (hc : c.isDigit = true) (t : Text) :
    sign (c :: t) = (false, c :: t) := by
  unfold sign
  split
  next heq => exact absurd (List.cons.inj heq).1 (Text.ne_of_kind hc (by decide))
  next heq => exact absurd (List.cons.inj heq).1 (Text.ne_of_kind hc (by decide))
  next => rfl

/-- A whole number is read if its digits are not too many. -/
theorem readNumber_toDigits {n : Nat} (hn : n < Nat.pow 10 Text.maxDigits) (rest : Text) :
    readNumber (Nat.toDigits 10 n ++ '\n' :: rest) = .ok (.int n, '\n' :: rest) := by
  have hsign : sign (Nat.toDigits 10 n ++ '\n' :: rest) =
      (false, Nat.toDigits 10 n ++ '\n' :: rest) := by
    obtain ⟨c, ds, hdigits, hc⟩ := exists_toDigits_eq_cons n
    rw [hdigits, List.cons_append, sign_of_isDigit hc]
  rw [readNumber, prefixed?_lineEnd (isDigit_of_mem_toDigits n)]
  simp only [hsign, decimal?_toDigits hn]

/-- A value that begins with a digit is a moment or a number. -/
theorem readValue_of_isDigit (fuel : Nat) {c : Char} (hc : c.isDigit = true) (t : Text) :
    readValue (fuel + 1) (c :: t) = (readMoment? (c :: t)).getD (readNumber (c :: t)) := by
  rw [readValue]
  all_goals
    intro u heq
    exact Text.ne_of_kind hc (by decide) (List.cons.inj heq).1

theorem valueText_int (n : Nat) : Config.valueText (.int n) = Nat.toDigits 10 n :=
  Nat.toList_repr

theorem isPlain_valueText_int (n : Nat) : IsPlain (Config.valueText (.int n)) := by
  rw [valueText_int]
  intro c hmem
  apply isControl_of_isBareChar
  simp [isBareChar, Char.isAlphanum, isDigit_of_mem_toDigits n c hmem]

theorem isWritable_int (n : Int) :
    (Datum.int n).isWritable = decide (n.natAbs < Nat.pow 10 Text.maxDigits) := by
  rw [Datum.isWritable]

/-- A whole number is read as it was written. -/
theorem isReadAs_valueText_int {n : Nat} (hwritable : (Datum.int n).isWritable = true) :
    IsReadAs (Config.valueText (.int n)) (.int n) := by
  have hn : n < Nat.pow 10 Text.maxDigits := by
    rw [isWritable_int] at hwritable
    generalize Text.maxDigits = most at hwritable ⊢
    exact of_decide_eq_true hwritable
  intro fuel rest
  obtain ⟨c, ds, hdigits, hc⟩ := exists_toDigits_eq_cons n
  have hspace : skipSpace (Nat.toDigits 10 n ++ '\n' :: rest) =
      Nat.toDigits 10 n ++ '\n' :: rest := by
    rw [hdigits]
    exact skipSpace_cons (Text.ne_of_kind hc (by decide)) (Text.ne_of_kind hc (by decide)) _
  have hvalue : readValue (fuel + 1) (Nat.toDigits 10 n ++ '\n' :: rest) =
      (readMoment? (Nat.toDigits 10 n ++ '\n' :: rest)).getD
        (readNumber (Nat.toDigits 10 n ++ '\n' :: rest)) := by
    rw [hdigits]
    exact readValue_of_isDigit fuel hc _
  rw [valueText_int, hspace, hvalue, readMoment?_lineEnd (isDigit_of_mem_toDigits n),
    Option.getD_none, readNumber_toDigits hn]

end LexicalPaths.Toml
