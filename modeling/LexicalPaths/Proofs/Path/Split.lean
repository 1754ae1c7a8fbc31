import LexicalPaths.Proofs.Path.Root

/-!
# Where the root ends

A text can be cut into a root and names at one offset alone, and the length of its root is that
offset: a shorter beginning would leave a separator or a drive behind it, and a longer one would be
no root.  The root stays the root when the names are taken away or exchanged for others, which is
why paths that are derived from one another can share its length.
-/

namespace LexicalPaths.Root

open Separator

/-- At the offset `n` the text is cut into a root and what is no part of a root.  An empty root is
one only where no separator comes first and no colon comes before the first separator. -/
structure SplitsAt (t : Text) (n : Nat) : Prop where
  le : n ≤ t.length
  root : IsRoot (t.take n)
  startsBare : StartsBare (t.drop n)
  rootless : n = 0 → StartsBare t ∧ driveColon ∉ lead t

theorem splitsAt_length (t : Text) : SplitsAt t (length t) where
  le := length_le t
  root := isRoot_take_length t
  startsBare := startsBare_drop_length t
  rootless := by
    intro hzero
    have hbare := startsBare_drop_length t
    rw [hzero, List.drop_zero] at hbare
    exact ⟨hbare, not_mem_lead_of_length_eq_zero hzero⟩

namespace SplitsAt

variable {t : Text} {n : Nat} (hsplit : SplitsAt t n)
include hsplit

theorem eq_length : n = length t := by
  -- Only at the offset 0 is the root empty, and there the names are all of the text.
  have hlead : t.take n = [] → driveColon ∉ lead (t.drop n) := by
    intro hnil
    have hzero : n = 0 := by
      rw [← List.length_take_of_le hsplit.le, hnil, List.length_nil]
    rw [hzero, List.drop_zero]
    exact (hsplit.rootless hzero).2
  calc n = (t.take n).length := (List.length_take_of_le hsplit.le).symm
    _ = length (t.take n ++ t.drop n) :=
        (length_of_split hsplit.root hsplit.startsBare hlead).symm
    _ = length t := by rw [List.take_append_drop]

theorem append {u : Text} (hpos : 0 < n) (hu : StartsBare u) : SplitsAt (t.take n ++ u) n := by
  have hlength : (t.take n).length = n := List.length_take_of_le hsplit.le
  constructor
  case le =>
    rw [List.length_append, hlength]
    exact Nat.le_add_right n u.length
  case root =>
    rw [List.take_left' hlength]
    exact hsplit.root
  case startsBare =>
    rw [List.drop_left' hlength]
    exact hu
  case rootless => exact fun hzero => absurd hzero (Nat.ne_of_gt hpos)

theorem take : SplitsAt (t.take n) n := by
  by_cases hzero : n = 0
  · rw [hzero, List.take_zero]
    exact splitsAt_length []
  · have halone := hsplit.append (Nat.pos_of_ne_zero hzero) startsBare_nil
    rwa [List.append_nil] at halone

end SplitsAt

/-- The text is cut at the end of its root and nowhere else, and its root is read alike with any
names behind it. -/
structure EndsOnce (t : Text) : Prop where
  splitsAt : SplitsAt t (length t)
  unique : ∀ n, SplitsAt t n → n = length t
  alone : length (t.take (length t)) = length t
  followed : 0 < length t → ∀ u, StartsBare u → length (t.take (length t) ++ u) = length t

/-- Every text has one root, which does not depend on the names behind it. -/
theorem endsOnce (t : Text) : EndsOnce t := by
  have hsplit := splitsAt_length t
  constructor
  case splitsAt => exact hsplit
  case unique => exact fun n hn => hn.eq_length
  case alone => exact hsplit.take.eq_length.symm
  case followed => exact fun hpos u hu => (hsplit.append hpos hu).eq_length.symm

end LexicalPaths.Root
