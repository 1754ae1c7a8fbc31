import LexicalPaths.Proofs.Path.Reachable
import Mathlib.Data.List.DropRight

/-!
# The parts of a path and its names text

Navigation moves offsets in a text that paths share.  Where it ends up is a function of the names
text alone: the last name and what stands before it are cut off at the last separator, and names
that are counted lie where they lie in the names text, as far behind the start of the names.
-/

namespace LexicalPaths

namespace Separator

/-- The text behind the last separator. -/
def lastPiece (t : Text) : Text :=
  t.rtakeWhile fun c => !isSeparator c

/-- The text up to its last separator, with it. -/
def beforeLastPiece (t : Text) : Text :=
  t.rdropWhile fun c => !isSeparator c

theorem beforeLastPiece_append_lastPiece (t : Text) :
    beforeLastPiece t ++ lastPiece t = t :=
  List.rdropWhile_append_rtakeWhile

theorem beforeLastPiece_concat_of_separator {c : Char} (hc : isSeparator c = true) (t : Text) :
    beforeLastPiece (t ++ [c]) = t ++ [c] :=
  List.rdropWhile_concat_neg _ _ _ (by simp [hc])

theorem beforeLastPiece_concat_of_not {c : Char} (hc : isSeparator c = false) (t : Text) :
    beforeLastPiece (t ++ [c]) = beforeLastPiece t :=
  List.rdropWhile_concat_pos _ _ _ (by simp [hc])

theorem length_beforeLastPiece_le (t : Text) : (beforeLastPiece t).length ≤ t.length :=
  (List.rdropWhile_prefix _ _).length_le

theorem drop_length_beforeLastPiece (t : Text) :
    t.drop (beforeLastPiece t).length = lastPiece t := by
  have hsplit :=
    congrArg (List.drop (beforeLastPiece t).length) (beforeLastPiece_append_lastPiece t)
  rw [List.drop_left] at hsplit
  exact hsplit.symm

theorem take_length_beforeLastPiece (t : Text) :
    t.take (beforeLastPiece t).length = beforeLastPiece t := by
  have hsplit :=
    congrArg (List.take (beforeLastPiece t).length) (beforeLastPiece_append_lastPiece t)
  rw [List.take_left] at hsplit
  exact hsplit.symm

end Separator

namespace Path

open Separator

theorem drop_slice (t : Text) (i j k : Nat) : (t.slice i j).drop k = t.slice (i + k) j := by
  simp [Text.slice, List.drop_drop]

theorem take_slice (t : Text) {i j k : Nat} (hk : i + k ≤ j) :
    (t.slice i j).take k = t.slice i (i + k) := by
  rw [Text.slice, Text.slice, List.take_drop, List.take_take, Nat.min_eq_left hk]

theorem slice_slice (t : Text) {i j a b : Nat} (hb : i + b ≤ j) :
    (t.slice i j).slice a b = t.slice (i + a) (i + b) := by
  rw [Text.slice, take_slice t hb, drop_slice]

theorem slice_append (t : Text) {i j k : Nat} (hij : i ≤ j) (hjk : j ≤ k) :
    t.slice i k = t.slice i j ++ t.slice j k := by
  have hj : i + (j - i) = j := by omega
  have htake := take_slice t (hj.le.trans hjk)
  have hdrop := drop_slice t i k (j - i)
  rw [hj] at htake hdrop
  rw [← htake, ← hdrop, List.take_append_drop]

theorem slice_add_one {t : Text} {i j : Nat} (hij : i ≤ j) (hj : j < t.length) :
    t.slice i (j + 1) = t.slice i j ++ [t[j]] := by
  have htake : t.take (j + 1) = t.take j ++ [t[j]] := by simp
  rw [Text.slice, Text.slice, htake, List.drop_append_of_le_length]
  rw [List.length_take]
  omega

theorem separatorBefore_add_one {p : Path} {i : Nat} (hi : i < p.text.length) :
    p.separatorBefore (i + 1) = isSeparator p.text[i] := by
  simp [separatorBefore, hi]

/-- The walk to the start of a name goes back to the last separator, and not before the names. -/
theorem nameStart_eq {p : Path} {i : Nat} (hstart : p.start ≤ i) (hi : i ≤ p.text.length) :
    p.nameStart i = p.start + (beforeLastPiece (p.text.slice p.start i)).length := by
  induction i with
  | zero =>
      have hzero : p.start = 0 := by omega
      rw [hzero, slice_self]
      rfl
  | succ i ih =>
      unfold nameStart
      -- a character before the start of the names is never asked for
      by_cases hlt : p.start < i + 1
      · have hsplit := slice_add_one (t := p.text) (i := p.start) (j := i) (by omega) (by omega)
        rw [separatorBefore_add_one (by omega), hsplit]
        cases hc : isSeparator p.text[i] with
        | true =>
            rw [beforeLastPiece_concat_of_separator hc, ← hsplit]
            simp [Text.slice]
            omega
        | false =>
            rw [beforeLastPiece_concat_of_not hc, ← ih (by omega) (by omega)]
            simp [hlt]
      · have hall : p.start = i + 1 := by omega
        rw [hall, slice_self]
        simp [beforeLastPiece]

theorem boundsFrom_add (k first i : Nat) (t : Text) :
    boundsFrom (k + first) (k + i) t =
      (boundsFrom first i t).map fun b => (k + b.1, k + b.2) := by
  induction t generalizing first i with
  | nil =>
      unfold boundsFrom
      by_cases hlt : first < i
      · rw [if_pos (by omega), if_pos hlt]
        rfl
      · rw [if_neg (by omega), if_neg hlt]
        rfl
  | cons c t ih =>
      unfold boundsFrom
      split
      · rw [List.map_cons, Nat.add_assoc, ih]
      · rw [Nat.add_assoc, ih]

/-- The offsets of the names, counted from the start of the names text. -/
def relativeBounds (names : Text) : List (Nat × Nat) :=
  boundsFrom 0 0 (trimEnd names)

namespace WellFormed

variable {p : Path} (hp : p.WellFormed)
include hp

theorem nameBounds_eq :
    p.nameBounds = (relativeBounds p.namesText).map fun b => (p.start + b.1, p.start + b.2) := by
  have hshift := boundsFrom_add p.start 0 0 (trimEnd p.namesText)
  rw [Nat.add_zero] at hshift
  rw [nameBounds, hp.slice_namesEnd, hshift]
  rfl

theorem afterDrive_le : Root.afterDrive p.rootText ≤ p.rootEnd := by
  rw [← hp.length_rootText]
  exact Nat.sub_le _ _

theorem nameCount_eq : p.nameCount = (relativeBounds p.namesText).length := by
  rw [nameCount, hp.nameBounds_eq, List.length_map]

theorem length_trimEnd : (trimEnd p.namesText).length = p.namesEnd - p.start := by
  have hend := hp.namesEnd_le
  rw [← hp.slice_namesEnd]
  simp [Text.slice]
  omega

theorem nameStart_namesEnd :
    p.nameStart p.namesEnd = p.start + (beforeLastPiece (trimEnd p.namesText)).length := by
  rw [nameStart_eq hp.start_le_namesEnd hp.namesEnd_le, hp.slice_namesEnd]

theorem namesText_fileName : p.fileName.namesText = lastPiece (trimEnd p.namesText) := by
  show p.text.slice (p.nameStart p.namesEnd) p.namesEnd = _
  rw [hp.nameStart_namesEnd, ← drop_slice, hp.slice_namesEnd, drop_length_beforeLastPiece]

/-- The names text of a parent that is not the root: the last separator goes with the last name. -/
theorem slice_parent (hfront : 1 < (beforeLastPiece (trimEnd p.namesText)).length) :
    p.text.slice p.start (p.nameStart p.namesEnd - 1) =
      (beforeLastPiece (trimEnd p.namesText)).dropLast := by
  have hle := length_beforeLastPiece_le (trimEnd p.namesText)
  have hstart := hp.start_le_namesEnd
  rw [hp.length_trimEnd] at hle
  have hstop : p.nameStart p.namesEnd - 1 =
      p.start + ((beforeLastPiece (trimEnd p.namesText)).length - 1) := by
    rw [hp.nameStart_namesEnd]
    omega
  rw [hstop, ← take_slice p.text (show _ ≤ p.namesEnd by omega), hp.slice_namesEnd,
    List.dropLast_eq_take]
  conv_rhs => rw [← take_length_beforeLastPiece (trimEnd p.namesText)]
  rw [List.take_take, take_length_beforeLastPiece, Nat.min_eq_left (by omega)]

end WellFormed

end Path

end LexicalPaths
