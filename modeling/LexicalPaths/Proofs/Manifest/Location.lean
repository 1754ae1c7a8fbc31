import LexicalPaths.Proofs.Manifest.Reload
import LexicalPaths.Proofs.Path.Location

/-!
# Recorded paths that stay where they are

A manifest that is loaded and saved again and again passes each path through its record again and
again.  `Stays` says exactly when one such passage keeps the location of a path: a path without a
root must not be moved by the folder of the manifest, a path below the folder must have the root of
the folder in the same case, and none may be misread.
-/

namespace LexicalPaths.Manifest

open Separator
open LexicalPaths.Path (Legible LiesBelow SameLocation trip parentName)

/-- The first names make no difference to where the further ones lead: they climb as far as they go
down, and the further ones climb at least as far. -/
def Idle (names more : List Text) : Prop :=
  (trip names).ups = (trip names).downs.length ∧ (trip names).downs.length ≤ (trip more).ups

/-- The path has the same location after it was recorded in the manifest of `base` and read. -/
structure Stays (base p : Path) : Prop where
  /-- A path without a root is not moved by a folder that has no root either. -/
  rootless : p.rootText = [] → p.uri = base.uri →
    base.rootText = [] ∧ Idle base.properNames p.properNames
  /-- A path below the folder takes over its root. -/
  below : ∀ {first rest}, LiesBelow base p first rest → first ≠ parentName → driveColon ∉ first →
    Separator.Alike base.rootText p.rootText
  /-- A name that is read as a drive is the root of the path itself. -/
  drive : ∀ {first rest}, LiesBelow base p first rest → driveColon ∈ first →
    FallsOnDrive base first rest ∧ Separator.Alike (first ++ [portable]) p.rootText

theorem trip_append_eq_iff (names more : List Text) :
    trip (names ++ more) = trip more ↔ Idle names more := by
  rw [Path.trip_append, Path.Trip.ext_iff, Path.Trip.ups_mul, Path.Trip.downs_mul,
    List.append_right_eq_self, List.drop_eq_nil_iff]
  unfold Idle
  omega

theorem legible_placed {base q : Path} (hbase : base.Legible) (hq : q.Legible) :
    (placed base q).Legible := by
  unfold placed
  split
  next => exact hq.resolve hbase
  next => exact hq

theorem legible_reloaded {base : Path} (hbase : base.Legible) (p : Path) :
    (reloaded base p).Legible :=
  legible_placed hbase (legible_reread base p)

theorem legible_iterate {base p : Path} (hbase : base.Legible) (hp : p.Legible) (n : Nat) :
    ((reloaded base)^[n] p).Legible := by
  cases n with
  | zero => exact hp
  | succ n =>
      rw [Function.iterate_succ_apply']
      exact legible_reloaded hbase _

/-! ## One passage -/

theorem samePlace_of_sameLocation {p q : Path} (hsame : SameLocation p q) : SamePlace p q where
  uri := hsame.uri
  rootKey := by
    rw [Path.rootKey_eq, Path.rootKey_eq, ← Root.key_unify isSeparator_portable,
      hsame.rootText.unify_eq isSeparator_portable, Root.key_unify isSeparator_portable]
  names := hsame.names

section

variable {base p : Path} (hbase : base.WellFormed) (hp : p.WellFormed)
include hbase hp

theorem sameLocation_resolve_iff (hroot : p.rootText = []) (huri : p.uri = base.uri) :
    SameLocation (base.resolve p) p ↔
      base.rootText = [] ∧ Idle base.properNames p.properNames := by
  by_cases hempty : base.isEmpty = true
  · obtain ⟨hnone, hnames⟩ := hbase.isEmpty_iff.mp hempty
    rw [Path.resolve_of_isEmpty hempty, hbase.properNames_eq, hnames, ← trip_append_eq_iff]
    exact iff_of_true (.refl p) ⟨hnone, rfl⟩
  rw [Bool.not_eq_true] at hempty
  have hsame := hbase.rootText_resolve_of_rootText_nil hp hempty hroot
  have huris := (Path.WellFormed.uri_resolve_of_rootText_nil hp hempty hroot).trans huri.symm
  have hproper := hbase.properNames_resolve_of_rootText_nil hp hempty hroot
  by_cases hbare : base.rootText = []
  · have htrail : p.keptNames ≠ [] →
        (base.resolve p).hasTrailingSeparator = p.hasTrailingSeparator := by
      intro hkept
      have hne : p.namesText ≠ [] := by
        intro hnil
        rw [Path.keptNames, hp.names_eq, hnil] at hkept
        exact hkept rfl
      exact hbase.hasTrailingSeparator_resolve_of_rootText_nil hp hempty hroot hne
    rw [(hbase.resolve hp).sameLocation_iff_of_rootText_nil hp huris (hsame.trans hbare) hroot
      htrail, hproper, trip_append_eq_iff]
    simp [hbare]
  · refine iff_of_false (fun hlocation => ?_) fun hboth => hbare hboth.1
    have hnone := (Path.rootText_eq_nil_iff_of_alike hlocation.rootText).mpr hroot
    exact hbare (hsame.symm.trans hnone)

variable {first : Text} {rest : List Text} (hbelow : LiesBelow base p first rest)
include hbelow

theorem sameLocation_reloaded_of_plain_iff (hup : first ≠ parentName)
    (hcolon : driveColon ∉ first) :
    SameLocation (reloaded base p) p ↔ Separator.Alike base.rootText p.rootText := by
  have hroot := rootText_reloaded_of_plain hbase hp hbelow hup hcolon
  have hsame := samePlace_reloaded_of_below hbase hp hbelow hup hcolon
  have hne := hp.rootText_ne_nil_of_isAbsolute hbelow.isAbsolute
  constructor
  · intro hlocation
    rw [← hroot]
    exact hlocation.rootText
  · intro halike
    rw [← hroot] at halike
    exact (wellFormed_reloaded hbase p).sameLocation_of_rootText hp hsame.uri halike hne hsame.names

theorem rootText_reloaded_of_fallsOnDrive (hfalls : FallsOnDrive base first rest) :
    (reloaded base p).rootText = first ++ [portable] := by
  obtain ⟨⟨d, hfirst, hd⟩, -, hups⟩ := hfalls
  rw [reloaded_of_bare_drive hbase hp hbelow hfirst hd,
    (windows_reread_of_bare_drive hbase hp hbelow hfirst hd).1]
  cases rest with
  | nil => simp at hups
  | cons n rest => simp

theorem sameLocation_reloaded_of_drive_iff (hcolon : driveColon ∈ first) :
    SameLocation (reloaded base p) p ↔
      FallsOnDrive base first rest ∧ Separator.Alike (first ++ [portable]) p.rootText := by
  have hup := Path.ne_parentName_of_driveColon_mem hcolon
  have hplace := samePlace_reloaded_of_below_iff hbase hp hbelow hup
  have hne := hp.rootText_ne_nil_of_isAbsolute hbelow.isAbsolute
  constructor
  · intro hlocation
    have hfalls : FallsOnDrive base first rest := by
      have hnot := hplace.mp (samePlace_of_sameLocation hlocation)
      simpa [hcolon] using hnot
    rw [← rootText_reloaded_of_fallsOnDrive hbase hp hbelow hfalls]
    exact ⟨hfalls, hlocation.rootText⟩
  · rintro ⟨hfalls, halike⟩
    have hsame := hplace.mpr (by simp [hfalls])
    rw [← rootText_reloaded_of_fallsOnDrive hbase hp hbelow hfalls] at halike
    exact (wellFormed_reloaded hbase p).sameLocation_of_rootText hp hsame.uri halike hne hsame.names

end

/-- A path that is recorded and read has the same location as before exactly if it stays. -/
theorem sameLocation_reloaded_iff {base p : Path} (hbase : base.WellFormed) (hp : p.Legible) :
    SameLocation (reloaded base p) p ↔ Stays base p := by
  have hwf := hp.wellFormed
  by_cases hrootless : p.rootText = [] ∧ p.uri = base.uri
  · obtain ⟨hroot, huri⟩ := hrootless
    have habs := hwf.isAbsolute_of_rootText_nil hroot
    have hnone : ∀ first rest, ¬ LiesBelow base p first rest := by
      intro first rest hbelow
      rw [hbelow.isAbsolute] at habs
      contradiction
    have hresolved := (alike_reloaded hbase hp hroot huri).sameLocation
      (wellFormed_reloaded hbase p) (hbase.resolve hwf)
    have hiff := sameLocation_resolve_iff hbase hwf hroot huri
    constructor
    · intro hsame
      have hidle := hiff.mp (hresolved.symm.trans hsame)
      exact ⟨fun _ _ => hidle, fun h => absurd h (hnone _ _), fun h => absurd h (hnone _ _)⟩
    · intro hstays
      exact hresolved.trans (hiff.mpr (hstays.rootless hroot huri))
  · have hrooted : p.rootText = [] → p.uri = base.uri → False := fun h huri => hrootless ⟨h, huri⟩
    by_cases hnot : ∀ first rest, LiesBelow base p first rest → first = parentName
    · have halike := alike_reloaded_of_not_below hbase hp hnot (by tauto)
      apply iff_of_true (halike.sameLocation (wellFormed_reloaded hbase p) hwf)
      refine ⟨fun h huri => (hrooted h huri).elim, ?_, ?_⟩
      · intro first rest hbelow hup
        exact absurd (hnot first rest hbelow) hup
      · intro first rest hbelow hcolon
        exact absurd (hnot first rest hbelow) (Path.ne_parentName_of_driveColon_mem hcolon)
    · push Not at hnot
      obtain ⟨first, rest, hbelow, hup⟩ := hnot
      by_cases hcolon : driveColon ∈ first
      · rw [sameLocation_reloaded_of_drive_iff hbase hwf hbelow hcolon]
        refine ⟨fun hdrive => ?_, fun hstays => hstays.drive hbelow hcolon⟩
        refine ⟨fun h huri => (hrooted h huri).elim, ?_, ?_⟩
        · intro m more hother _ hplain
          obtain ⟨rfl, rfl⟩ := hbelow.eq hother
          exact absurd hcolon hplain
        · intro m more hother _
          obtain ⟨rfl, rfl⟩ := hbelow.eq hother
          exact hdrive
      · rw [sameLocation_reloaded_of_plain_iff hbase hwf hbelow hup hcolon]
        refine ⟨fun halike => ?_, fun hstays => hstays.below hbelow hup hcolon⟩
        refine ⟨fun h huri => (hrooted h huri).elim, fun _ _ _ => halike, ?_⟩
        intro m more hother hdrive
        obtain ⟨rfl, rfl⟩ := hbelow.eq hother
        exact absurd hdrive hcolon

/-! ## Many passages -/

/-- A path keeps its location through `n` passages exactly if it stays at each of them. -/
theorem sameLocation_iterate_iff {base p : Path} (hbase : base.Legible) (hp : p.Legible)
    (n : Nat) :
    (∀ k ≤ n, SameLocation ((reloaded base)^[k] p) p) ↔
      ∀ k < n, Stays base ((reloaded base)^[k] p) := by
  have hstep : ∀ k, SameLocation ((reloaded base)^[k + 1] p) ((reloaded base)^[k] p) ↔
      Stays base ((reloaded base)^[k] p) := by
    intro k
    rw [Function.iterate_succ_apply']
    exact sameLocation_reloaded_iff hbase.wellFormed (legible_iterate hbase hp k)
  constructor
  · intro hsame k hk
    exact (hstep k).mp ((hsame (k + 1) hk).trans (hsame k (by omega)).symm)
  · intro hstays k hk
    induction k with
    | zero => exact .refl p
    | succ k ih => exact ((hstep k).mpr (hstays k hk)).trans (ih (by omega))

end LexicalPaths.Manifest
