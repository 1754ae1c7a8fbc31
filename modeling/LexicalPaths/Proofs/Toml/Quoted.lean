import LexicalPaths.Config.Basic
import LexicalPaths.Proofs.Text.Basic
import LexicalPaths.Toml.Value
import Mathlib.Tactic.Common

/-!
# Texts between quotes

A configuration writes a text between double quotes and escapes backslashes and quotes.  The reader
of a document undoes these escapes, but it refuses the controls other than the tab, which are
written as they are: a text without them is read back, and any other text is refused at its first
control.
-/

namespace LexicalPaths.Toml

open Config (escapeChar stringText)

/-- The text has no character that a string of one line refuses. -/
def IsPlain (t : Text) : Prop :=
  ∀ c ∈ t, isControl c = false

instance (t : Text) : Decidable (IsPlain t) :=
  List.decidableBAll (fun c => isControl c = false) t

theorem isPlain_nil : IsPlain [] := by
  simp [IsPlain]

theorem isPlain_cons_iff {c : Char} {t : Text} :
    IsPlain (c :: t) ↔ isControl c = false ∧ IsPlain t :=
  List.forall_mem_cons

theorem isPlain_append_iff {s t : Text} : IsPlain (s ++ t) ↔ IsPlain s ∧ IsPlain t :=
  List.forall_mem_append

/-- A text that is not plain has a first control. -/
theorem exists_control_of_not_isPlain {t : Text} (ht : ¬ IsPlain t) :
    ∃ s c u, t = s ++ c :: u ∧ IsPlain s ∧ isControl c = true := by
  induction t with
  | nil => exact absurd isPlain_nil ht
  | cons c t ih =>
      cases hc : isControl c with
      | true => exact ⟨[], c, t, rfl, isPlain_nil, hc⟩
      | false =>
          obtain ⟨s, d, u, rfl, hs, hd⟩ := ih fun hplain => ht (isPlain_cons_iff.mpr ⟨hc, hplain⟩)
          exact ⟨c :: s, d, u, rfl, isPlain_cons_iff.mpr ⟨hc, hs⟩, hd⟩

/-! ## Reading what was escaped -/

theorem escapedFrom_cons (fuel : Nat) {c : Char} (hquote : c ≠ '"') (hslash : c ≠ '\\')
    (t : Text) : escapedFrom false (fuel + 1) (c :: t) =
      if isControl c then fail (c :: t) else consRead c (escapedFrom false fuel t) := by
  simp [escapedFrom, hquote, hslash, isRefused]

theorem isPlain_escapeChar {c : Char} (hc : isControl c = false) : IsPlain (escapeChar c) := by
  unfold escapeChar
  split
  · decide
  · split
    · decide
    · exact isPlain_cons_iff.mpr ⟨hc, isPlain_nil⟩

theorem isPlain_flatMap_escapeChar {t : Text} (ht : IsPlain t) :
    IsPlain (t.flatMap escapeChar) := by
  intro c hmem
  obtain ⟨d, hd, hc⟩ := List.mem_flatMap.mp hmem
  exact isPlain_escapeChar (ht d hd) c hc

theorem isPlain_stringText {t : Text} (ht : IsPlain t) : IsPlain (stringText t) :=
  isPlain_cons_iff.mpr ⟨by decide, isPlain_append_iff.mpr
    ⟨isPlain_flatMap_escapeChar ht, by decide⟩⟩

/-- The reader takes one character for an escaped one. -/
theorem escapedFrom_escapeChar (fuel : Nat) {c : Char} (hc : isControl c = false) (u : Text) :
    escapedFrom false (fuel + 1) (escapeChar c ++ u) = consRead c (escapedFrom false fuel u) := by
  unfold escapeChar
  split
  next hslash =>
    subst hslash
    rfl
  next hslash =>
    split
    next hquote =>
      subst hquote
      rfl
    next hquote =>
      rw [List.singleton_append, escapedFrom_cons _ hquote hslash, hc, if_neg (by decide)]

/-- A plain text that was escaped is read first, and then what follows it. -/
theorem escapedFrom_flatMap_escapeChar (fuel : Nat) {t : Text} (ht : IsPlain t) (u : Text) :
    escapedFrom false (fuel + t.length) (t.flatMap escapeChar ++ u) =
      t.foldr consRead (escapedFrom false fuel u) := by
  induction t with
  | nil => rfl
  | cons c t ih =>
      obtain ⟨hc, hplain⟩ := isPlain_cons_iff.mp ht
      rw [List.flatMap_cons, List.append_assoc, List.length_cons, ← Nat.add_assoc,
        escapedFrom_escapeChar _ hc, ih hplain, List.foldr_cons]

theorem foldr_consRead_ok (t s rest : Text) :
    t.foldr consRead (.ok (s, rest)) = .ok (t ++ s, rest) := by
  induction t with
  | nil => rfl
  | cons c t ih =>
      rw [List.foldr_cons, ih]
      rfl

theorem foldr_consRead_error (t : Text) (e : Error) :
    t.foldr consRead (.error e) = .error e := by
  induction t with
  | nil => rfl
  | cons c t ih =>
      rw [List.foldr_cons, ih]
      rfl

theorem length_le_length_flatMap_escapeChar (t : Text) :
    t.length ≤ (t.flatMap escapeChar).length := by
  induction t with
  | nil => exact Nat.le_refl 0
  | cons c t ih =>
      have hpositive : 1 ≤ (escapeChar c).length := by
        unfold escapeChar
        split
        · decide
        · split <;> simp
      rw [List.flatMap_cons, List.length_append, List.length_cons]
      omega

/-- The reader of a string has more fuel than a text needs at its beginning. -/
theorem exists_fuel (t u : Text) (c : Char) :
    ∃ fuel, (t.flatMap escapeChar ++ c :: u).length.succ = fuel + 1 + t.length := by
  have hlength := length_le_length_flatMap_escapeChar t
  refine ⟨(t.flatMap escapeChar ++ c :: u).length - t.length, ?_⟩
  rw [List.length_append]
  omega

/-- A plain text is read back. -/
theorem readEscaped_flatMap_escapeChar {t : Text} (ht : IsPlain t) (rest : Text) :
    readEscaped (t.flatMap escapeChar ++ '"' :: rest) = .ok (t, rest) := by
  obtain ⟨fuel, hfuel⟩ := exists_fuel t rest '"'
  have hclosed : escapedFrom false (fuel + 1) ('"' :: rest) = .ok ([], rest) := rfl
  rw [readEscaped, hfuel, escapedFrom_flatMap_escapeChar _ ht, hclosed, foldr_consRead_ok,
    List.append_nil]

/-- A text is refused at its first control. -/
theorem readEscaped_of_control {s : Text} (hs : IsPlain s) {c : Char} (hc : isControl c = true)
    (u : Text) : readEscaped (s.flatMap escapeChar ++ c :: u) = fail (c :: u) := by
  obtain ⟨fuel, hfuel⟩ := exists_fuel s u c
  have hrefused : escapedFrom false (fuel + 1) (c :: u) = fail (c :: u) := by
    rw [escapedFrom_cons _ (Text.ne_of_kind hc (by decide)) (Text.ne_of_kind hc (by decide)),
      if_pos hc]
  rw [readEscaped, hfuel, escapedFrom_flatMap_escapeChar _ hs, hrefused, fail,
    foldr_consRead_error]

/-! ## Reading strings as values -/

theorem isTripled_of_ne {c : Char} (hc : c ≠ '"') (u : Text) : isTripled '"' (c :: u) = false := by
  cases u <;> simp [isTripled, hc]

/-- Behind the first quote of a text no second and third follow. -/
theorem isTripled_flatMap_escapeChar (t : Text) {u : Text} (hu : isTripled '"' u = false) :
    isTripled '"' (t.flatMap escapeChar ++ u) = false := by
  cases t with
  | nil => exact hu
  | cons d t =>
      rw [List.flatMap_cons]
      unfold escapeChar
      split
      · exact isTripled_of_ne (by decide) _
      · split
        · exact isTripled_of_ne (by decide) _
        next hquote => exact isTripled_of_ne hquote _

/-- A plain text at the end of a line is read as it was written. -/
theorem readValue_stringText (fuel : Nat) {t : Text} (ht : IsPlain t) (rest : Text) :
    readValue (fuel + 1) (stringText t ++ '\n' :: rest) = .ok (.text t, '\n' :: rest) := by
  have hsingle : isTripled '"' (t.flatMap escapeChar ++ '"' :: '\n' :: rest) = false :=
    isTripled_flatMap_escapeChar t (by simp [isTripled])
  have htext : stringText t ++ '\n' :: rest =
      '"' :: (t.flatMap escapeChar ++ '"' :: '\n' :: rest) := by
    simp [stringText]
  rw [htext, readValue, hsingle, if_neg (by decide), readEscaped_flatMap_escapeChar ht]
  rfl

/-- A text with a control is refused there, whatever follows. -/
theorem readValue_of_control (fuel : Nat) {s : Text} (hs : IsPlain s) {c : Char}
    (hc : isControl c = true) (u : Text) :
    readValue (fuel + 1) ('"' :: (s.flatMap escapeChar ++ c :: u)) = fail (c :: u) := by
  have hsingle : isTripled '"' (s.flatMap escapeChar ++ c :: u) = false :=
    isTripled_flatMap_escapeChar s (isTripled_of_ne (Text.ne_of_kind hc (by decide)) u)
  rw [readValue, hsingle, if_neg (by decide), readEscaped_of_control hs hc]
  rfl

end LexicalPaths.Toml
