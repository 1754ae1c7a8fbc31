import LexicalPaths.Proofs.Path.Style

/-!
# Locations

A path says where something is by its filesystem, its root and the names that normalization keeps.
Under one root the names alone decide.  Without a root the trip along the names decides: the root
and the names of a normal form tell which names were kept, although the first of these can have
been read as a drive.
-/

namespace LexicalPaths.Path

open Separator

/-- Two paths have the same location: on one filesystem, under one root up to separator style, which
normalization does not set apart, and along the same names once they are normalized. -/
structure SameLocation (p q : Path) : Prop where
  uri : p.uri = q.uri
  rootText : Separator.Alike p.rootText q.rootText
  normalRoot : Separator.Alike p.normalize.rootText q.normalize.rootText
  names : p.normalize.names = q.normalize.names

namespace SameLocation

theorem refl (p : Path) : SameLocation p p :=
  ⟨rfl, .refl _, .refl _, rfl⟩

theorem symm {p q : Path} (hsame : SameLocation p q) : SameLocation q p :=
  ⟨hsame.uri.symm, hsame.rootText.symm, hsame.normalRoot.symm, hsame.names.symm⟩

theorem trans {p q r : Path} (hone : SameLocation p q) (htwo : SameLocation q r) :
    SameLocation p r where
  uri := hone.uri.trans htwo.uri
  rootText := hone.rootText.trans htwo.rootText
  normalRoot := hone.normalRoot.trans htwo.normalRoot
  names := hone.names.trans htwo.names

end SameLocation

theorem Alike.sameLocation {p q : Path} (halike : p.Alike q) (hp : p.WellFormed)
    (hq : q.WellFormed) : SameLocation p q where
  uri := halike.uri
  rootText := halike.rootText
  normalRoot := (halike.normalize hp hq).rootText
  names := (halike.normalize hp hq).names hp.normalize hq.normalize

theorem rootText_eq_nil_iff_of_alike {p q : Path} (halike : Separator.Alike p.rootText q.rootText) :
    p.rootText = [] ↔ q.rootText = [] := by
  rw [← unify_eq_nil_iff isSeparator_portable p.rootText, halike.unify_eq isSeparator_portable,
    unify_eq_nil_iff isSeparator_portable]

/-- Under a root, normalization sets nothing apart. -/
theorem WellFormed.sameLocation_of_rootText {p q : Path} (hp : p.WellFormed) (hq : q.WellFormed)
    (huri : p.uri = q.uri) (halike : Separator.Alike p.rootText q.rootText)
    (hroot : q.rootText ≠ []) (hnames : p.normalize.names = q.normalize.names) :
    SameLocation p q := by
  refine ⟨huri, halike, ?_, hnames⟩
  have hother := (rootText_eq_nil_iff_of_alike halike).not.mpr hroot
  rw [hp.rootText_normalize fun hnil => absurd hnil hother,
    hq.rootText_normalize fun hnil => absurd hnil hroot]
  exact (alike_unify hp.separator _).trans (halike.trans (alike_unify hq.separator _).symm)

/-! ## Without a root -/

/-- The names that were kept for a normal form with the given root and names. -/
def rejoin (root : Text) (names : List Text) : List Text :=
  if endsInSeparator root then root.dropLast :: names else glue root names

theorem rejoin_drive (d : Text) (names : List Text) :
    rejoin (d ++ [driveColon]) names = glue (d ++ [driveColon]) names := by
  rw [rejoin, Root.endsInSeparator_drive]
  rfl

theorem rejoin_closed_drive (d : Text) (names : List Text) :
    rejoin (d ++ [driveColon, portable]) names = (d ++ [driveColon]) :: names := by
  have hclosed : endsInSeparator [portable] = true := rfl
  rw [rejoin, Root.endsInSeparator_drive, if_pos hclosed, List.append_cons, List.dropLast_concat]

theorem WellFormed.keptNames_eq_rejoin {p : Path} (hp : p.WellFormed) (hroot : p.rootText = []) :
    p.keptNames = rejoin (unify [portable] p.normalize.rootText) p.normalize.names := by
  have hs := hp.separator
  have hnil : unify [portable] [] = [] := rfl
  by_cases hread : p.ReadsBack
  · rw [hp.rootText_normalize hread, hp.names_normalize hread, hroot,
      (unify_eq_nil_iff hs []).mpr rfl, hnil]
    exact (glue_nil p.keptNames).symm
  · obtain ⟨-, d, r, rest, hkept, hd⟩ := exists_drive_of_not_readsBack hread
    have hdrive := hp.isDriveName_of_keptNames hkept hd
    have hnames := hp.forall_isName_of_keptNames hkept
    rw [hp.normalize.names_eq]
    by_cases hr : r = []
    · subst hr
      have hrest : ∀ n ∈ rest, IsName n := fun n hn => hnames n (List.mem_cons_of_mem _ hn)
      obtain ⟨hnormal, htext⟩ := hp.windows_normalize_of_bare_drive hroot hd hkept
      rw [hkept, hnormal, htext, trimEnd_spell hrest hs, pieces_spell hrest hs,
        Root.unify_drive isSeparator_portable hdrive]
      by_cases hclosed : (p.hasTrailingSeparator || !rest.isEmpty) = true
      · have hone : unify [portable] [p.separator] = [portable] := by
          simp [unify_eq_map isSeparator_portable, restyle, hs]
        rw [if_pos hclosed, hone, rejoin_closed_drive]
      · obtain ⟨-, rfl⟩ := by simpa using hclosed
        rw [if_neg hclosed, hnil, rejoin_drive]
        simp [glue]
    · obtain ⟨hnormal, htext⟩ := hp.windows_normalize_of_drive hroot hd hkept hr
      have hbehind := forall_isName_behind_drive hnames hr
      rw [hkept, hnormal, htext, trimEnd_spell hbehind hs, pieces_spell hbehind hs,
        Root.unify_drive isSeparator_portable hdrive, hnil, rejoin_drive, glue, List.append_assoc,
        List.singleton_append]

theorem WellFormed.trip_keptNames {p : Path} (hp : p.WellFormed) (hroot : p.rootText = []) :
    trip p.keptNames = trip p.properNames := by
  rw [keptNames, hp.isAbsolute_of_rootText_nil hroot, trip_remainingNames_false, trip_properNames]

theorem WellFormed.keptNames_of_trip {p q : Path} (hp : p.WellFormed) (hq : q.WellFormed)
    (hroot : p.rootText = []) (hother : q.rootText = [])
    (htrip : trip p.properNames = trip q.properNames) : p.keptNames = q.keptNames := by
  rw [keptNames, keptNames, hp.isAbsolute_of_rootText_nil hroot,
    hq.isAbsolute_of_rootText_nil hother, remainingNames_eq, remainingNames_eq,
    ← trip_properNames, ← trip_properNames, htrip]

/-- Without roots, paths whose texts end alike have the same location exactly if the trips along
their names are the same. -/
theorem WellFormed.sameLocation_iff_of_rootText_nil {p q : Path} (hp : p.WellFormed)
    (hq : q.WellFormed) (huri : p.uri = q.uri) (hroot : p.rootText = []) (hother : q.rootText = [])
    (htrail : q.keptNames ≠ [] → p.hasTrailingSeparator = q.hasTrailingSeparator) :
    SameLocation p q ↔ trip p.properNames = trip q.properNames := by
  constructor
  · intro hsame
    rw [← hp.trip_keptNames hroot, ← hq.trip_keptNames hother, hp.keptNames_eq_rejoin hroot,
      hq.keptNames_eq_rejoin hother, hsame.names, hsame.normalRoot.unify_eq isSeparator_portable]
  · intro htrip
    have hkept := hp.keptNames_of_trip hq hroot hother htrip
    have hspell : spell portable p.keptNames p.hasTrailingSeparator =
        spell portable q.keptNames q.hasTrailingSeparator := by
      by_cases hnil : q.keptNames = []
      · rw [hkept, hnil, spell_nil, spell_nil]
      · rw [hkept, htrail hnil]
    have htext : Separator.Alike p.normalText q.normalText := by
      show unify [portable] _ = unify [portable] _
      rw [hp.normalText_of_rootText_nil hroot, hq.normalText_of_rootText_nil hother,
        unify_spell (fun _ => hp.isName_of_mem_keptNames) hp.separator isSeparator_portable,
        unify_spell (fun _ => hq.isName_of_mem_keptNames) hq.separator isSeparator_portable, hspell]
    have hnormal := alike_normalize huri htext
    refine ⟨huri, ?_, hnormal.rootText, hnormal.names hp.normalize hq.normalize⟩
    rw [hroot, hother]
    exact .refl []

end LexicalPaths.Path
