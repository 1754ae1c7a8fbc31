import LexicalPaths.Proofs.Path.View

/-!
# The last name

The last name of a path and the path without it are found by going back from the end of the names
text, and the names by going forward from its start.  Both ways agree unless empty names stand near
the end: going forward, a separator at the end closes a name, and going back it precedes an empty
one.
-/

namespace LexicalPaths

namespace Separator

/-! ## The last piece -/

theorem not_separator_of_mem_lastPiece {t : Text} {c : Char} (hc : c ∈ lastPiece t) :
    isSeparator c = false := by
  simpa using List.mem_rtakeWhile_imp hc

theorem isName_lastPiece {t : Text} (hne : lastPiece t ≠ []) : IsName (lastPiece t) :=
  ⟨hne, fun _ => not_separator_of_mem_lastPiece⟩

/-- Before the last piece there is nothing, or a separator at the end. -/
theorem beforeLastPiece_cases (t : Text) :
    beforeLastPiece t = [] ∨ ∃ u s, beforeLastPiece t = u ++ [s] ∧ isSeparator s = true := by
  by_cases hnil : beforeLastPiece t = []
  · exact .inl hnil
  · have hlast : ¬ (!isSeparator ((beforeLastPiece t).getLast hnil)) = true :=
      List.rdropWhile_last_not (fun c => !isSeparator c) t hnil
    exact .inr ⟨_, _, (List.dropLast_append_getLast hnil).symm, by simpa using hlast⟩

theorem endsInSeparator_of_lastPiece {t : Text} (hne : lastPiece t ≠ []) :
    endsInSeparator t = false := by
  rw [← beforeLastPiece_append_lastPiece t, endsInSeparator_append hne]
  cases hends : endsInSeparator (lastPiece t) with
  | false => rfl
  | true =>
      obtain ⟨u, s, heq, hs⟩ := exists_of_endsInSeparator hends
      have hmem : s ∈ lastPiece t := by simp [heq]
      rw [not_separator_of_mem_lastPiece hmem] at hs
      contradiction

/-- A further separator begins an empty piece behind the text, since there is nothing that it could
close. -/
def IsClosed (t : Text) : Prop :=
  t = [] ∨ endsInSeparator t = true

theorem isClosed_iff {t : Text} : IsClosed t ↔ lastPiece t = [] := by
  constructor
  · rintro (rfl | hends)
    · rfl
    · by_contra hne
      rw [endsInSeparator_of_lastPiece hne] at hends
      contradiction
  · intro hlast
    have hsplit := beforeLastPiece_append_lastPiece t
    rw [hlast, List.append_nil] at hsplit
    rcases beforeLastPiece_cases t with hfront | ⟨u, s, hfront, hs⟩
    · exact .inl (hsplit.symm.trans hfront)
    · rw [← hsplit, hfront]
      exact .inr (by simp [endsInSeparator, hs])

theorem isClosed_concat {s : Char} (hs : isSeparator s = true) (t : Text) : IsClosed (t ++ [s]) :=
  .inr (by simp [endsInSeparator, hs])

theorem trimEnd_of_not_isClosed {t : Text} (ht : ¬ IsClosed t) : trimEnd t = t :=
  if_neg fun hends => ht (.inr hends)

section

variable {s : Char} (hs : isSeparator s = true)
include hs

theorem trimEnd_concat (t : Text) : trimEnd (t ++ [s]) = t := by
  rw [trimEnd, if_pos (by simp [endsInSeparator, hs]), List.dropLast_concat]

theorem pieces_singleton : pieces [s] = [[]] := by
  rw [pieces_cons_of_separator hs]
  rfl

/-- What follows a separator is a piece of its own. -/
theorem pieces_concat_append {last : Text} (hlast : ∀ c ∈ last, isSeparator c = false)
    (t : Text) :
    pieces (t ++ [s] ++ last) = pieces (t ++ [s]) ++ if last = [] then [] else [last] := by
  rw [List.append_assoc, List.singleton_append, pieces_append_cons hs]
  by_cases hnil : last = []
  · simp [hnil, pieces]
  · rw [if_neg hnil, pieces_of_isName ⟨hnil, hlast⟩]

theorem pieces_concat_of_isClosed {t : Text} (ht : IsClosed t) :
    pieces (t ++ [s]) = pieces t ++ [[]] := by
  rcases ht with rfl | hends
  · exact pieces_singleton hs
  · obtain ⟨u, r, rfl, hr⟩ := exists_of_endsInSeparator hends
    rw [List.append_assoc, List.singleton_append, pieces_append_cons hr, pieces_singleton hs]

end

theorem getLast?_pieces {t : Text} (ht : ¬ IsClosed t) :
    (pieces t).getLast? = some (lastPiece t) := by
  have hname := isName_lastPiece (isClosed_iff.not.mp ht)
  have hsplit := beforeLastPiece_append_lastPiece t
  rcases beforeLastPiece_cases t with hfront | ⟨u, r, hfront, hr⟩
  · rw [hfront, List.nil_append] at hsplit
    rw [← hsplit, pieces_of_isName (hsplit ▸ hname)]
    simp [hsplit]
  · have hpieces := pieces_concat_append hr hname.2 u
    rw [← hfront, hsplit, if_neg hname.1] at hpieces
    rw [hpieces, List.getLast?_concat]

section

variable {s : Char} (hs : isSeparator s = true)
include hs

theorem pieces_concat_of_not_isClosed {t : Text} (ht : ¬ IsClosed t) :
    pieces (t ++ [s]) = pieces t := by
  have hname := isName_lastPiece (isClosed_iff.not.mp ht)
  have hclosed : pieces (lastPiece t ++ [s]) = pieces (lastPiece t) := by
    rw [pieces_append_separator hname.2 hs, pieces_of_isName hname]
    rfl
  rw [← beforeLastPiece_append_lastPiece t]
  rcases beforeLastPiece_cases t with hfront | ⟨u, r, hfront, hr⟩
  · rw [hfront, List.nil_append, hclosed]
  · rw [hfront, List.append_assoc, List.append_assoc, List.singleton_append, List.append_assoc,
      List.singleton_append, pieces_append_cons hr, hclosed, ← pieces_append_cons hr]

/-- Behind a separator the last piece is empty exactly if the separator closes nothing. -/
theorem getLast?_pieces_concat_iff (t : Text) :
    (pieces (t ++ [s])).getLast? = some [] ↔ IsClosed t := by
  by_cases ht : IsClosed t
  · simp [pieces_concat_of_isClosed hs ht, ht]
  · rw [pieces_concat_of_not_isClosed hs ht, getLast?_pieces ht]
    simpa [ht] using isClosed_iff.not.mp ht

theorem pieces_concat_eq_iff (t : Text) : pieces t = pieces (t ++ [s]) ↔ ¬ IsClosed t := by
  by_cases ht : IsClosed t
  · simp [pieces_concat_of_isClosed hs ht, ht]
  · simp [pieces_concat_of_not_isClosed hs ht, ht]

/-- Without its own closing separator a text has the pieces that it has with a further one, unless
the further one closes nothing. -/
theorem pieces_trimEnd_eq_iff (t : Text) :
    pieces (trimEnd t) = pieces (t ++ [s]) ↔ ¬ IsClosed t := by
  by_cases ht : IsClosed t
  · rw [pieces_concat_of_isClosed hs ht]
    simp only [ht, not_true, iff_false]
    intro heq
    have hlen := congrArg List.length heq
    rcases ht with rfl | hends
    · simp [trimEnd, endsInSeparator, pieces] at hlen
    · obtain ⟨u, r, rfl, hr⟩ := exists_of_endsInSeparator hends
      rw [trimEnd_concat hr] at hlen
      rcases pieces_append_singleton hr u with hpieces | hpieces <;> simp [hpieces] at hlen
  · rw [trimEnd_of_not_isClosed ht]
    exact pieces_concat_eq_iff hs t

end

/-! ## Without the last piece -/

/-- The last piece is the last of the pieces, unless a separator stands at the end and closes a
piece that is not empty. -/
theorem getLast?_pieces_eq_iff {t : Text} (hne : t ≠ []) :
    (pieces t).getLast? = some (lastPiece t) ↔
      (endsInSeparator t = true → (pieces t).getLast? = some []) := by
  by_cases hlast : lastPiece t = []
  · rcases isClosed_iff.mpr hlast with hnil | hends
    · exact absurd hnil hne
    · simp [hlast, hends]
  · have hopen := isClosed_iff.not.mpr hlast
    simp [getLast?_pieces hopen, endsInSeparator_of_lastPiece hlast]

theorem pieces_trimEnd_eq_dropLast_iff {s : Char} (hs : isSeparator s = true) {u last : Text}
    (hlast : ∀ c ∈ last, isSeparator c = false) :
    pieces (trimEnd u) = (pieces (u ++ [s] ++ last)).dropLast ↔
      (last = [] → (pieces (u ++ [s] ++ last)).getLast? = some []) ∧
        (pieces (u ++ [s] ++ last)).dropLast.getLast? ≠ some [] := by
  rw [pieces_concat_append hs hlast]
  by_cases hnil : last = []
  · rw [if_pos hnil, List.append_nil, getLast?_pieces_concat_iff hs]
    by_cases hu : IsClosed u
    · rw [pieces_concat_of_isClosed hs hu, List.dropLast_concat]
      rcases hu with rfl | hends
      · simp [trimEnd, endsInSeparator, pieces, IsClosed]
      · obtain ⟨w, r, rfl, hr⟩ := exists_of_endsInSeparator hends
        rw [trimEnd_concat hr, pieces_concat_eq_iff hr, Ne, getLast?_pieces_concat_iff hr]
        simp [isClosed_concat hr w]
    · rw [pieces_concat_of_not_isClosed hs hu, trimEnd_of_not_isClosed hu]
      refine iff_of_false ?_ fun h => hu (h.1 hnil)
      intro heq
      have hpos := List.length_pos_iff.mpr (pieces_eq_nil_iff.not.mpr fun h => hu (.inl h))
      have hlen := congrArg List.length heq
      rw [List.length_dropLast] at hlen
      omega
  · rw [if_neg hnil, List.dropLast_concat, Ne, getLast?_pieces_concat_iff hs,
      pieces_trimEnd_eq_iff hs]
    simp [hnil]

/-- Going back over the last piece and the separator before it leaves the other pieces, unless the
last but one is empty, or the last one would be if it were not left out at the end. -/
theorem pieces_front_eq_dropLast_iff {t : Text} (hne : t ≠ []) :
    pieces (trimEnd (beforeLastPiece t).dropLast) = (pieces t).dropLast ↔
      (endsInSeparator t = true → (pieces t).getLast? = some []) ∧
        (pieces t).dropLast.getLast? ≠ some [] := by
  have hends : endsInSeparator t = true ↔ lastPiece t = [] := by
    rw [← isClosed_iff]
    simp [IsClosed, hne]
  have hsplit := beforeLastPiece_append_lastPiece t
  rcases beforeLastPiece_cases t with hfront | ⟨u, s, hfront, hs⟩
  · -- there is a single piece, and it is not empty
    rw [hfront, List.nil_append] at hsplit
    have hlast : lastPiece t ≠ [] := by rwa [hsplit]
    have hpieces : pieces t = [t] := by
      rw [← hsplit]
      exact pieces_of_isName (isName_lastPiece hlast)
    have hnone : pieces (trimEnd ([] : Text).dropLast) = [] := rfl
    rw [hends, hfront, hpieces, hnone]
    simp [hlast]
  · have hlast : ∀ c ∈ lastPiece t, isSeparator c = false :=
      fun _ => not_separator_of_mem_lastPiece
    have hiff := pieces_trimEnd_eq_dropLast_iff hs (u := u) hlast
    rw [← hfront, hsplit] at hiff
    rw [hends, ← hiff, hfront, List.dropLast_concat]

end Separator

namespace Path

open Separator

/-! ## The last name of a path -/

/-- The names text ends in two separators, the second of which is no part of any name. -/
def ClosesTwice (p : Path) : Prop :=
  ∃ front s r, p.namesText = front ++ [s, r] ∧ isSeparator s = true ∧ isSeparator r = true

theorem closesTwice_iff (p : Path) :
    p.ClosesTwice ↔ endsInSeparator (trimEnd p.namesText) = true := by
  constructor
  · rintro ⟨front, s, r, hnames, hs, hr⟩
    rw [hnames, List.append_cons, trimEnd_concat hr]
    simp [endsInSeparator, hs]
  · intro hends
    obtain ⟨front, s, htrim, hs⟩ := exists_of_endsInSeparator hends
    unfold trimEnd at htrim
    split at htrim
    next hlast =>
      obtain ⟨u, r, hu, hr⟩ := exists_of_endsInSeparator hlast
      rw [hu, List.dropLast_concat] at htrim
      exact ⟨front, s, r, by rw [hu, htrim]; simp, hs, hr⟩
    next hlast =>
      rw [htrim] at hlast
      simp [endsInSeparator, hs] at hlast

/-- What the last name and the parent of a path have to do with its names.  Where the separators at
the end of the names text hide an empty name, the last name is not found; and where the last name
but one is empty, the parent lacks it. -/
structure LastName (p : Path) : Prop where
  root?_fileName : p.fileName.root? = none
  root?_parent? : p.parent?.bind root? = p.root?
  fileName_iff : p.names.getLast? = some p.fileName.raw ↔
    (p.ClosesTwice → p.names.getLast? = some [])
  names_parent?_iff : (p.parent?.map names).getD [] = p.names.dropLast ↔
    (p.ClosesTwice → p.names.getLast? = some []) ∧ p.names.dropLast.getLast? ≠ some []

namespace WellFormed

variable {p : Path} (hp : p.WellFormed)
include hp

theorem trimEnd_ne_nil (hne : p.names ≠ []) : trimEnd p.namesText ≠ [] := by
  rwa [hp.names_eq, Ne, pieces_eq_nil_iff] at hne

theorem raw_fileName : p.fileName.raw = lastPiece (trimEnd p.namesText) := by
  rw [raw, hp.namesText_fileName]
  rfl

theorem root?_parent? (hne : p.names ≠ []) : p.parent?.bind root? = p.root? := by
  have hnames := hp.namesEnd_le_start_iff.not.mpr (hp.trimEnd_ne_nil hne)
  rw [parent?, if_neg hnames]
  split
  · by_cases hzero : p.rootEnd = 0 <;> simp [root?, hzero]
  · rfl

/-- The parent has the names that are found before the last separator, of which one more may stand
at their end. -/
theorem names_parent? :
    (p.parent?.map names).getD [] =
      pieces (trimEnd (beforeLastPiece (trimEnd p.namesText)).dropLast) := by
  have hsegments : p.parent?.map names = p.view.parent?.map View.segments := by
    rw [← hp.view_parent?, Option.map_map]
    apply Option.map_congr
    intro q hq
    exact (hp.parent hq).segments_view.symm
  rw [hsegments, View.parent?, names_view]
  by_cases hnil : trimEnd p.namesText = []
  · rw [if_pos hnil, hnil]
    rfl
  rw [if_neg hnil]
  by_cases hone : (beforeLastPiece (trimEnd p.namesText)).length ≤ 1
  · have hfront : (beforeLastPiece (trimEnd p.namesText)).dropLast = [] :=
      List.eq_nil_of_length_eq_zero (by rw [List.length_dropLast]; omega)
    rw [if_pos hone, hfront, View.root?]
    split <;> rfl
  · rw [if_neg hone]
    rfl

end WellFormed

/-- The last name of a path is the last of its names, and its parent has the others, exactly if no
empty name stands near the end. -/
theorem lastName_of_reachable {p : Path} (hp : Reachable p) (hne : p.names ≠ []) :
    p.LastName := by
  have hwf := hp.wellFormed
  have htrim := hwf.trimEnd_ne_nil hne
  constructor
  case root?_fileName => rfl
  case root?_parent? => exact hwf.root?_parent? hne
  case fileName_iff =>
    rw [hwf.raw_fileName, hwf.names_eq, closesTwice_iff]
    exact getLast?_pieces_eq_iff htrim
  case names_parent?_iff =>
    rw [hwf.names_parent?, hwf.names_eq, closesTwice_iff]
    exact pieces_front_eq_dropLast_iff htrim

/-- The only name of `a//` is `a`, but its last name is empty, and its parent is `a`. -/
theorem not_lastName_of_two_separators :
    (parse localUri "a//".toList).names.getLast? ≠
        some (parse localUri "a//".toList).fileName.raw ∧
      ((parse localUri "a//".toList).parent?.map names).getD [] ≠
        (parse localUri "a//".toList).names.dropLast := by
  have hlast := lastName_of_reachable (.parse localUri "a//".toList) (by decide)
  have hcloses : (parse localUri "a//".toList).ClosesTwice :=
    ⟨['a'], '/', '/', by decide, rfl, rfl⟩
  rw [Ne, Ne, hlast.fileName_iff, hlast.names_parent?_iff]
  exact ⟨fun h => absurd (h hcloses) (by decide), fun h => absurd (h.1 hcloses) (by decide)⟩

end Path

end LexicalPaths
