import LexicalPaths.Host.Links
import Mathlib.Tactic.Common

/-!
# Ways without links

The way along a path starts where the path is read from, or at the root behind a link that names an
absolute path.  Where there are no links, the way is the path itself.
-/

namespace LexicalPaths.Links

section

variable {links : Links} {follow : Place → List Text → List Text → Way}

theorem start_wayBy
    (hfollow : ∀ start passed names, (follow start passed names).start = start ∨
      (follow start passed names).start = [])
    (start : Place) (passed names : List Text) :
    (links.wayBy follow start passed names).start = start ∨
      (links.wayBy follow start passed names).start = [] := by
  induction names generalizing passed with
  | nil => exact .inl rfl
  | cons name rest ih =>
      unfold wayBy
      split
      next => exact ih _
      next target _ =>
        split
        next => exact (hfollow [] [] _).elim .inr .inr
        next => exact hfollow start passed _

end

theorem start_wayWithin (links : Links) (count : Nat) (start : Place)
    (passed names : List Text) :
    (links.wayWithin count start passed names).start = start ∨
      (links.wayWithin count start passed names).start = [] := by
  induction count generalizing start passed names with
  | zero => exact start_wayBy (fun _ _ _ => .inl rfl) start passed names
  | succ count ih => exact start_wayBy ih start passed names

theorem start_way (links : Links) (start : Place) (names : List Text) :
    (links.way start names).start = start ∨ (links.way start names).start = [] :=
  start_wayWithin links maxFollowed start [] names

/-! ## No links -/

@[simp] theorem target?_nil (place : Place) (name : Text) : target? [] place name = none := by
  rw [target?, List.lookup_nil, ite_self]

theorem wayBy_nil (follow : Place → List Text → List Text → Way) (start : Place)
    (passed names : List Text) :
    wayBy [] follow start passed names = ⟨start, passed ++ names, true⟩ := by
  induction names generalizing passed with
  | nil => rw [wayBy, List.append_nil]
  | cons name rest ih =>
      rw [wayBy, target?_nil]
      simp only [ih, List.append_assoc, List.singleton_append]

@[simp] theorem way_nil (start : Place) (names : List Text) :
    way [] start names = ⟨start, names, true⟩ :=
  wayBy_nil _ start [] names

theorem traceBy_nil (enter : Place → Text → HostPath → Place × Bool) (place : Place)
    (names : List Text) : traceBy [] enter place names = (HostPath.collapse place names, true) := by
  induction names generalizing place with
  | nil => rfl
  | cons name rest ih =>
      rw [traceBy, target?_nil]
      simp only [ih, HostPath.collapse]
      split <;> rfl

@[simp] theorem trace_nil (place : Place) (names : List Text) :
    trace [] place names = (HostPath.collapse place names, true) :=
  traceBy_nil _ place names

end LexicalPaths.Links
