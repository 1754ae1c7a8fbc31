import LexicalPaths.Proofs.Path.Root
import LexicalPaths.Proofs.Text.Basic

/-!
# Upper case and the marks of a path text

The separators and the drive colon are their own upper case, and nothing else becomes one of them.
So a change of case neither makes a drive nor splits a name.
-/

namespace LexicalPaths.Text

open Separator

/-- The characters that take a path text apart. -/
def marks : Text :=
  [portable, backslash, driveColon]

theorem mem_marks_of_isSeparator {c : Char} (hc : isSeparator c = true) : c ∈ marks := by
  rcases isSeparator_iff.mp hc with rfl | rfl <;> decide

theorem expansions_without_marks :
    (UpperCase.expansions.all fun e => e.2.all fun n => !marks.contains (Char.ofNat n)) = true := by
  decide +kernel

theorem runs_without_marks :
    (UpperCase.runs.all fun run =>
      marks.all fun x => !run.holds ((x.toNat : Int) - run.shift).toNat) = true := by
  decide +kernel

theorem notMem_marks_of_mem_expansions {e : Nat × List Nat} (he : e ∈ UpperCase.expansions)
    {n : Nat} (hn : n ∈ e.2) : Char.ofNat n ∉ marks := by
  have hall := List.all_eq_true.mp (List.all_eq_true.mp expansions_without_marks e he) n hn
  simpa using hall

theorem not_holds_of_mem_runs {run : UpperCase.Run} (hrun : run ∈ UpperCase.runs) {x : Char}
    (hx : x ∈ marks) : run.holds ((x.toNat : Int) - run.shift).toNat = false := by
  have hall := List.all_eq_true.mp (List.all_eq_true.mp runs_without_marks run hrun) x hx
  simpa using hall

theorem toNat_of_ofNat_mem_marks {n : Nat} (hn : Char.ofNat n ∈ marks) :
    (Char.ofNat n).toNat = n := by
  by_cases hvalid : n.isValidChar
  · exact toNat_ofNat hvalid
  · have hzero : Char.ofNat n = Char.ofNat 0 := dif_neg hvalid
    rw [hzero] at hn
    exact absurd hn (by decide)

theorem upperChar_cases (c : Char) :
    (∃ e ∈ UpperCase.expansions, upperChar c = e.2.map Char.ofNat) ∨
      (∃ run ∈ UpperCase.runs, run.holds c.toNat = true ∧
        upperChar c = [Char.ofNat (c.toNat + run.shift).toNat]) ∨
      upperChar c = [c] := by
  unfold upperChar
  split
  next codes hcodes =>
    obtain ⟨pre, post, hsplit, -⟩ := List.lookup_eq_some_iff.mp hcodes
    exact .inl ⟨(c.toNat, codes), by simp [hsplit], rfl⟩
  next =>
    split
    next run hrun =>
      have hholds : run.holds c.toNat = true := by simpa using List.find?_some hrun
      exact .inr (.inl ⟨run, List.mem_of_find?_eq_some hrun, hholds, rfl⟩)
    next => exact .inr (.inr rfl)

/-- Only a mark has a mark in its upper case. -/
theorem eq_of_mem_upperChar {c x : Char} (hx : x ∈ marks) (hmem : x ∈ upperChar c) : x = c := by
  rcases upperChar_cases c with ⟨e, he, hupper⟩ | ⟨run, hrun, hholds, hupper⟩ | hupper
  · rw [hupper, List.mem_map] at hmem
    obtain ⟨n, hn, rfl⟩ := hmem
    exact absurd hx (notMem_marks_of_mem_expansions he hn)
  · rw [hupper, List.mem_singleton] at hmem
    subst hmem
    have hpos : (c.toNat + run.shift).toNat ≠ 0 := by
      intro hzero
      rw [hzero] at hx
      exact absurd hx (by decide)
    have hback : ((c.toNat + run.shift).toNat : Int) - run.shift = c.toNat := by omega
    have hnot := not_holds_of_mem_runs hrun hx
    rw [toNat_of_ofNat_mem_marks hx, hback, Int.toNat_natCast, hholds] at hnot
    contradiction
  · rwa [hupper, List.mem_singleton] at hmem

theorem mem_of_mem_upper {t : Text} {x : Char} (hx : x ∈ marks) (hmem : x ∈ upper t) : x ∈ t := by
  obtain ⟨c, hc, hxc⟩ := List.mem_flatMap.mp hmem
  rwa [eq_of_mem_upperChar hx hxc]

end LexicalPaths.Text
