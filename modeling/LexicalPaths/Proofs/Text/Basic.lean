import LexicalPaths.Text.Basic
import Mathlib.Tactic.Common

/-!
# Cutting texts

Where a text is cut at a character, the parts hold no other characters than the text, and a
character that the text does not hold cuts nothing.
-/

namespace LexicalPaths.Text

/-- A character of one kind is none that is not of this kind. -/
theorem ne_of_kind {kind : Char → Bool} {c d : Char} (hc : kind c = true) (hd : kind d = false) :
    c ≠ d := by
  rintro rfl
  rw [hc] at hd
  nomatch hd

theorem toNat_ofNat {n : Nat} (hvalid : n.isValidChar) : (Char.ofNat n).toNat = n := by
  have hchar : Char.ofNat n = Char.ofNatAux n hvalid := dif_pos hvalid
  rw [hchar]
  rfl

variable {c : Char} {t : Text}

theorem cut?_of_notMem (ht : c ∉ t) : t.cut? c = none := by
  induction t with
  | nil => rfl
  | cons x t ih =>
      obtain ⟨hx, hrest⟩ := List.ne_and_not_mem_of_not_mem_cons ht
      rw [cut?, if_neg (Ne.symm hx), ih hrest]
      rfl

theorem cut?_append_cons (ht : c ∉ t) (u : Text) : (t ++ c :: u).cut? c = some (t, u) := by
  induction t with
  | nil => simp [cut?]
  | cons x t ih =>
      obtain ⟨hx, hrest⟩ := List.ne_and_not_mem_of_not_mem_cons ht
      rw [List.cons_append, cut?, if_neg (Ne.symm hx), ih hrest]
      rfl

theorem before_append_cons (ht : c ∉ t) (u : Text) : (t ++ c :: u).before c = t := by
  have hall : ∀ x ∈ t, (x != c) = true := fun x hx => by
    rw [bne_iff_ne]
    rintro rfl
    exact ht hx
  rw [before, List.takeWhile_append_of_pos hall, List.takeWhile_cons]
  simp

theorem replaceChar_of_notMem (ht : c ∉ t) (u : Text) : t.replaceChar c u = t := by
  induction t with
  | nil => rfl
  | cons x t ih =>
      obtain ⟨hx, hrest⟩ := List.ne_and_not_mem_of_not_mem_cons ht
      have hcons : replaceChar (x :: t) c u =
          (if x = c then u else [x]) ++ replaceChar t c u := rfl
      rw [hcons, if_neg (Ne.symm hx), ih hrest]
      rfl

theorem holds_iff : t.holds c = true ↔ c ∈ t := by
  simp [holds]

theorem mem_of_mem_splitAt {x : Char} {n : Text} (hn : n ∈ t.splitAt c) (hx : x ∈ n) : x ∈ t := by
  induction t generalizing n with
  | nil =>
      obtain rfl : n = [] := by simpa [splitAt] using hn
      contradiction
  | cons d t ih =>
      unfold splitAt at hn
      split at hn
      · rcases List.mem_cons.mp hn with rfl | hn
        · contradiction
        · exact List.mem_cons_of_mem d (ih hn hx)
      · split at hn
        · obtain rfl : n = [d] := by simpa using hn
          rw [List.mem_singleton.mp hx]
          exact List.mem_cons_self
        next piece pieces hpieces =>
          rw [hpieces] at ih
          rcases List.mem_cons.mp hn with rfl | hn
          · rcases List.mem_cons.mp hx with rfl | hx
            · exact List.mem_cons_self
            · exact List.mem_cons_of_mem d (ih List.mem_cons_self hx)
          · exact List.mem_cons_of_mem d (ih (List.mem_cons_of_mem piece hn) hx)

/-! ## Splitting and joining -/

theorem splitAt_append_cons {n : Text} (hn : c ∉ n) (u : Text) :
    (n ++ c :: u).splitAt c = n :: u.splitAt c := by
  induction n with
  | nil => simp [splitAt]
  | cons x n ih =>
      obtain ⟨hx, hrest⟩ := List.ne_and_not_mem_of_not_mem_cons hn
      rw [List.cons_append, splitAt, if_neg (Ne.symm hx), ih hrest]

theorem splitAt_of_notMem (ht : c ∉ t) : t.splitAt c = [t] := by
  induction t with
  | nil => rfl
  | cons x t ih =>
      obtain ⟨hx, hrest⟩ := List.ne_and_not_mem_of_not_mem_cons ht
      rw [splitAt, if_neg (Ne.symm hx), ih hrest]

theorem splitAt_replicate_append (count : Nat) (u : Text) :
    splitAt c (List.replicate count c ++ u) = List.replicate count [] ++ u.splitAt c := by
  induction count with
  | zero => rfl
  | succ count ih =>
      rw [List.replicate_succ, List.cons_append, splitAt, if_pos rfl, ih]
      rfl

/-- The pieces hold no character to split at. -/
theorem notMem_of_mem_splitAt {n : Text} (hn : n ∈ t.splitAt c) : c ∉ n := by
  induction t generalizing n with
  | nil =>
      obtain rfl : n = [] := by simpa [splitAt] using hn
      exact List.not_mem_nil
  | cons d t ih =>
      unfold splitAt at hn
      split at hn
      · rcases List.mem_cons.mp hn with rfl | hn
        · exact List.not_mem_nil
        · exact ih hn
      next hne =>
        have hfirst : ∀ n : Text, c ∉ n → c ∉ d :: n := fun n hn hmem =>
          (List.mem_cons.mp hmem).elim (fun heq => hne heq.symm) hn
        split at hn
        · obtain rfl : n = [d] := by simpa using hn
          exact hfirst [] List.not_mem_nil
        next piece pieces hpieces =>
          rw [hpieces] at ih
          rcases List.mem_cons.mp hn with rfl | hn
          · exact hfirst piece (ih List.mem_cons_self)
          · exact ih (List.mem_cons_of_mem piece hn)

/-- Pieces that were joined are found again. -/
theorem splitAt_joinWith {names : List Text} (hne : names ≠ []) (hnames : ∀ n ∈ names, c ∉ n) :
    (joinWith [c] names).splitAt c = names := by
  induction names with
  | nil => exact absurd rfl hne
  | cons n names ih =>
      obtain ⟨hn, hmore⟩ := List.forall_mem_cons.mp hnames
      cases names with
      | nil => exact splitAt_of_notMem hn
      | cons m names =>
          rw [joinWith, List.append_assoc, List.singleton_append, splitAt_append_cons hn,
            ih (List.cons_ne_nil m names) hmore]

end LexicalPaths.Text
