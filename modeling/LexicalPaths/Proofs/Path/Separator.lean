import LexicalPaths.Path.Basic
import Mathlib.Tactic.Common

/-!
# Separator style

Writing every separator of a text as one and the same separator changes its style and nothing
else.  The replacement acts character by character, so it commutes with taking texts apart, and
only the last style that a text was given can be seen.
-/

namespace LexicalPaths.Separator

/-- The character that stands for `c` in the style of the separator `s`. -/
def restyle (s c : Char) : Char :=
  if isSeparator c then s else c

@[simp] theorem isSeparator_portable : isSeparator portable = true := rfl

@[simp] theorem isSeparator_backslash : isSeparator backslash = true := rfl

@[simp] theorem isSeparator_driveColon : isSeparator driveColon = false := rfl

theorem isSeparator_iff {c : Char} : isSeparator c = true ↔ c = portable ∨ c = backslash := by
  simp [isSeparator]

theorem isSeparator_detect (t : Text) : isSeparator (detect t) = true := by
  induction t with
  | nil => rfl
  | cons c t ih =>
      unfold detect
      split
      · rfl
      · split
        · rfl
        · exact ih

theorem ne_driveColon_of_isSeparator {c : Char} (hc : isSeparator c = true) : c ≠ driveColon := by
  intro h
  rw [h] at hc
  simp at hc

theorem isSeparator_restyle {s : Char} (hs : isSeparator s = true) (c : Char) :
    isSeparator (restyle s c) = isSeparator c := by
  unfold restyle
  split
  next h => rw [hs, h]
  next => rfl

theorem restyle_restyle {s : Char} (hs : isSeparator s = true) (r c : Char) :
    restyle r (restyle s c) = restyle r c := by
  rw [restyle, isSeparator_restyle hs]
  unfold restyle
  split <;> rfl

theorem restyle_of_not {s c : Char} (hc : isSeparator c = false) : restyle s c = c := by
  simp [restyle, hc]

theorem unify_eq_map {s : Char} (hs : isSeparator s = true) (t : Text) :
    unify [s] t = t.map (restyle s) := by
  unfold unify Text.replaceChar
  induction t with
  | nil => rfl
  | cons c t ih =>
      simp only [List.flatMap_cons, List.flatMap_append, List.map_cons, ih]
      by_cases hp : c = portable
      · subst hp
        rcases isSeparator_iff.mp hs with rfl | rfl <;> rfl
      · by_cases hb : c = backslash
        · subst hb
          rfl
        · have hc : isSeparator c = false := by simp [isSeparator, hp, hb]
          simp [hp, hb, restyle_of_not hc]

section

variable {s : Char} (hs : isSeparator s = true)
include hs

theorem unify_append (t u : Text) : unify [s] (t ++ u) = unify [s] t ++ unify [s] u := by
  simp [unify_eq_map hs]

theorem unify_cons (c : Char) (t : Text) : unify [s] (c :: t) = restyle s c :: unify [s] t := by
  simp [unify_eq_map hs]

theorem length_unify (t : Text) : (unify [s] t).length = t.length := by
  simp [unify_eq_map hs]

theorem unify_take (t : Text) (n : Nat) : unify [s] (t.take n) = (unify [s] t).take n := by
  simp [unify_eq_map hs, List.map_take]

theorem unify_drop (t : Text) (n : Nat) : unify [s] (t.drop n) = (unify [s] t).drop n := by
  simp [unify_eq_map hs, List.map_drop]

theorem unify_eq_nil_iff (t : Text) : unify [s] t = [] ↔ t = [] := by
  simp [unify_eq_map hs]

theorem unify_unify {r : Char} (hr : isSeparator r = true) (t : Text) :
    unify [r] (unify [s] t) = unify [r] t := by
  rw [unify_eq_map hr, unify_eq_map hs, unify_eq_map hr, List.map_map]
  exact List.map_congr_left fun c _ => restyle_restyle hs r c

theorem unify_of_forall_not {t : Text} (ht : ∀ c ∈ t, isSeparator c = false) :
    unify [s] t = t := by
  rw [unify_eq_map hs]
  calc t.map (restyle s) = t.map id :=
        List.map_congr_left fun c hc => restyle_of_not (ht c hc)
    _ = t := List.map_id t

end

/-- Rewriting backslashes is the same as choosing the portable style. -/
theorem replaceChar_backslash (t : Text) :
    t.replaceChar backslash [portable] = unify [portable] t := by
  rw [unify_eq_map isSeparator_portable]
  induction t with
  | nil => rfl
  | cons c t ih =>
      have hcons : Text.replaceChar (c :: t) backslash [portable] =
          (if c = backslash then [portable] else [c]) ++
            Text.replaceChar t backslash [portable] := rfl
      rw [hcons, ih, List.map_cons]
      by_cases hb : c = backslash
      · subst hb
        rfl
      · by_cases hp : c = portable
        · subst hp
          rfl
        · have hc : isSeparator c = false := by simp [isSeparator, hp, hb]
          simp [hb, restyle_of_not hc]

/-- Two texts that differ in their separator style only. -/
def Alike (t u : Text) : Prop :=
  unify [portable] t = unify [portable] u

theorem Alike.refl (t : Text) : Alike t t := rfl

theorem Alike.symm {t u : Text} (h : Alike t u) : Alike u t := Eq.symm h

theorem Alike.trans {t u v : Text} (htu : Alike t u) (huv : Alike u v) : Alike t v :=
  Eq.trans htu huv

theorem alike_unify {s : Char} (hs : isSeparator s = true) (t : Text) : Alike (unify [s] t) t :=
  unify_unify hs isSeparator_portable t

theorem Alike.unify_eq {s : Char} (hs : isSeparator s = true) {t u : Text} (h : Alike t u) :
    unify [s] t = unify [s] u := by
  rw [← unify_unify isSeparator_portable hs t, ← unify_unify isSeparator_portable hs u, h]

end LexicalPaths.Separator
