import LexicalPaths.Manifest.Document
import LexicalPaths.Proofs.Path.Below
import LexicalPaths.Proofs.Path.Style

/-!
# Recorded paths that are read again

A path is recorded by its portable text, below the folder of the manifest without the part that
leads to the folder, and read again in the place of the folder.  What comes back names the same
place, with one exception: a path below the folder whose first name there holds a colon is read as
a path on a drive of that name.
-/

namespace LexicalPaths.Manifest

open Separator
open LexicalPaths.Path (Alike Legible LiesBelow Trip parse parentName trip tail)

/-- The path that is read from the record of `p`. -/
def reread (base p : Path) : Path :=
  parse (stored base p).uri (stored base p).portableText

/-- The path that comes back for `p` from the manifest of the folder `old` once that has become the
folder `new`. -/
def moved (old new p : Path) : Path :=
  placed new (reread old p)

/-- The path that comes back for `p` from the manifest of the folder `base`. -/
def reloaded (base p : Path) : Path :=
  placed base (reread base p)

/-- Two paths name the same place, along the same names once they are normalized. -/
abbrev SamePlace (p q : Path) : Prop :=
  Path.AgreeBy Path.uri Path.rootKey (fun path => path.normalize.names) p q

/-- The first name of a path below `base` is read as the drive of `base` itself, and what follows
climbs out of all the names of `base`. -/
def FallsOnDrive (base : Path) (first : Text) (rest : List Text) : Prop :=
  (∃ d, first = d ++ [driveColon] ∧ driveColon ∉ d) ∧
    Root.key (first ++ [portable]) = base.rootKey ∧
      (trip base.properNames).downs.length < (trip rest).ups

/-- The first name of `p` below `base` is read as a drive, which leads elsewhere. -/
def Misread (base p : Path) : Prop :=
  ∃ first rest, LiesBelow base p first rest ∧ driveColon ∈ first ∧
    ¬ FallsOnDrive base first rest

theorem SamePlace.of_alike {p q : Path} (halike : p.Alike q) (hp : p.WellFormed)
    (hq : q.WellFormed) : SamePlace p q where
  uri := halike.uri
  rootKey := halike.rootKey
  names := (halike.normalize hp hq).names hp.normalize hq.normalize

/-! ## What is recorded -/

section

variable {base p : Path} (hbase : base.WellFormed) (hp : p.WellFormed)
include hbase hp

theorem stored_of_below {first : Text} {rest : List Text} (hbelow : LiesBelow base p first rest)
    (hup : first ≠ parentName) : stored base p = p.tail (first :: rest) := by
  have hsome := (Path.below?_eq_some_iff hbase hp hbelow.isAbsolute hbelow.uri).mpr
    ⟨first, rest, hbelow, hup, rfl⟩
  simp [stored, hbelow.isAbsolute, hbelow.uri, hsome]

theorem stored_of_not_below
    (hnot : ∀ first rest, LiesBelow base p first rest → first = parentName) :
    stored base p = p := by
  unfold stored
  split
  next hsame =>
    obtain ⟨habs, huri⟩ := by simpa using hsame
    cases hsome : base.below? p with
    | none => rfl
    | some r =>
        obtain ⟨first, rest, hbelow, hup, -⟩ :=
          (Path.below?_eq_some_iff hbase hp habs huri).mp hsome
        exact absurd (hnot first rest hbelow) hup
  next => rfl

end

theorem portableText_tail {p : Path} (hp : p.WellFormed) {names : List Text}
    (hnames : ∀ n ∈ names, IsName n) :
    (p.tail names).portableText = spell portable names p.hasTrailingSeparator := by
  rw [Path.portableText, replaceChar_backslash, tail, Path.raw_withRoot,
    unify_spell hnames hp.separator isSeparator_portable]

theorem reread_of_below {base p : Path} (hbase : base.WellFormed) (hp : p.WellFormed)
    {first : Text} {rest : List Text} (hbelow : LiesBelow base p first rest)
    (hup : first ≠ parentName) :
    reread base p = parse p.uri (spell portable (first :: rest) p.hasTrailingSeparator) := by
  rw [reread, stored_of_below hbase hp hbelow hup, portableText_tail hp (hbelow.isName hp)]
  rfl

theorem alike_reread_of_not_below {base p : Path} (hbase : base.WellFormed) (hp : p.Legible)
    (hnot : ∀ first rest, LiesBelow base p first rest → first = parentName) :
    (reread base p).Alike p := by
  rw [reread, stored_of_not_below hbase hp.wellFormed hnot]
  exact hp.alike_parse_portableText

theorem legible_reread (base p : Path) : (reread base p).Legible :=
  Path.legible_parse _ _

/-! ## Where it is placed -/

theorem placed_of_rootText {base q : Path} (hq : q.WellFormed)
    (hplace : q.rootText ≠ [] ∨ q.uri ≠ base.uri) : placed base q = q := by
  unfold placed
  rw [if_neg]
  rintro ⟨hzero, huri⟩
  exact hplace.elim (fun hne => hne (hq.rootText_eq_nil_iff.mpr hzero)) (fun hne => hne huri)

theorem placed_of_rootText_nil {base q : Path} (hq : q.WellFormed) (hroot : q.rootText = [])
    (huri : q.uri = base.uri) : placed base q = base.resolve q := by
  unfold placed
  rw [if_pos ⟨hq.rootText_eq_nil_iff.mp hroot, huri⟩]

theorem wellFormed_placed {base q : Path} (hbase : base.WellFormed) (hq : q.WellFormed) :
    (placed base q).WellFormed := by
  unfold placed
  split
  · exact hbase.resolve hq
  · exact hq

theorem wellFormed_reloaded {base : Path} (hbase : base.WellFormed) (p : Path) :
    (reloaded base p).WellFormed :=
  wellFormed_placed hbase (legible_reread base p).wellFormed

section

variable {base p : Path} (hbase : base.WellFormed) (hp : p.Legible)
include hbase hp

/-- What is recorded without a root comes back in the place of the folder. -/
theorem alike_reloaded (hroot : p.rootText = []) (huri : p.uri = base.uri) :
    (reloaded base p).Alike (base.resolve p) := by
  have hnot : ∀ first rest, LiesBelow base p first rest → first = parentName := by
    intro first rest hbelow
    exact absurd hroot (hp.wellFormed.rootText_ne_nil_of_isAbsolute hbelow.isAbsolute)
  have halike := alike_reread_of_not_below hbase hp hnot
  have hread := (legible_reread base p).wellFormed
  have hbare := halike.rootText_eq_nil_iff.mpr hroot
  rw [reloaded, placed_of_rootText_nil hread hbare (halike.uri.trans huri)]
  exact halike.resolve hread hp.wellFormed hbase

theorem alike_reloaded_of_not_below
    (hnot : ∀ first rest, LiesBelow base p first rest → first = parentName)
    (hplace : p.rootText ≠ [] ∨ p.uri ≠ base.uri) : (reloaded base p).Alike p := by
  have halike := alike_reread_of_not_below hbase hp hnot
  have hread := (legible_reread base p).wellFormed
  rw [reloaded, placed_of_rootText hread]
  · exact halike
  · rwa [halike.uri, Ne, halike.rootText_eq_nil_iff]

end

/-! ## Below the folder -/

section

variable {base p : Path} (hbase : base.WellFormed) (hp : p.WellFormed) {first : Text}
  {rest : List Text} (hbelow : LiesBelow base p first rest)
include hbase hp hbelow

theorem reread_of_below_of_plain (hup : first ≠ parentName) (hcolon : driveColon ∉ first) :
    (reread base p).rootText = [] ∧ (reread base p).properNames = first :: rest := by
  have hnames := hbelow.isName hp
  have hread := (legible_reread base p).wellFormed
  have hzero := Path.length_spell p.hasTrailingSeparator isSeparator_portable hnames
    (by simpa using hcolon)
  have heq := reread_of_below hbase hp hbelow hup
  constructor
  · rw [heq, parse, hzero]
    rfl
  · rw [hread.properNames_eq, heq, parse, hzero, Path.namesText_withRoot, List.drop_zero,
      properPieces_spell hnames isSeparator_portable]

theorem uri_reread_of_below (hup : first ≠ parentName) : (reread base p).uri = p.uri := by
  rw [reread_of_below hbase hp hbelow hup]
  rfl

theorem rootText_reloaded_of_plain (hup : first ≠ parentName) (hcolon : driveColon ∉ first) :
    (reloaded base p).rootText = base.rootText := by
  obtain ⟨hbare, -⟩ := reread_of_below_of_plain hbase hp hbelow hup hcolon
  have hread := (legible_reread base p).wellFormed
  have habs := hbelow.isAbsolute_base hbase hp
  have hempty := Path.not_isEmpty_of_rootText hbase (hbase.rootText_ne_nil_of_isAbsolute habs)
  have huri := (uri_reread_of_below hbase hp hbelow hup).trans hbelow.uri
  rw [reloaded, placed_of_rootText_nil hread hbare huri,
    hbase.rootText_resolve_of_rootText_nil hread hempty hbare]

theorem samePlace_reloaded_of_below (hup : first ≠ parentName) (hcolon : driveColon ∉ first) :
    SamePlace (reloaded base p) p := by
  obtain ⟨hbare, hproper⟩ := reread_of_below_of_plain hbase hp hbelow hup hcolon
  have hrootText := rootText_reloaded_of_plain hbase hp hbelow hup hcolon
  have hread := (legible_reread base p).wellFormed
  have habs := hbelow.isAbsolute_base hbase hp
  have hempty := Path.not_isEmpty_of_rootText hbase (hbase.rootText_ne_nil_of_isAbsolute habs)
  have huri := (uri_reread_of_below hbase hp hbelow hup).trans hbelow.uri
  have hplaced : reloaded base p = base.resolve (reread base p) :=
    placed_of_rootText_nil hread hbare huri
  have hresolved := hbase.resolve hread
  rw [hplaced] at hrootText ⊢
  have habsolute : (base.resolve (reread base p)).isAbsolute = true := by
    rw [hresolved.isAbsolute_eq, hrootText, ← hbase.isAbsolute_eq, habs]
  refine ⟨?_, ?_, ?_⟩
  · rw [Path.WellFormed.uri_resolve_of_rootText_nil hread hempty hbare, hbelow.uri]
  · rw [← hbelow.rootKey, Path.rootKey_eq, Path.rootKey_eq, hrootText]
  · rw [hresolved.names_normalize_of_isAbsolute habsolute,
      hp.names_normalize_of_isAbsolute hbelow.isAbsolute,
      hbase.properNames_resolve_of_rootText_nil hread hempty hbare, hproper, hbelow.names]

/-- What is read behind the colon of the first name is no part of the root. -/
theorem not_samePlace_of_drive {d r : Text} (hfirst : first = d ++ driveColon :: r)
    (hd : driveColon ∉ d) (hr : r ≠ []) : ¬ SamePlace (reloaded base p) p := by
  have hnames := hbelow.isName hp
  have hread := (legible_reread base p).wellFormed
  have hdrive : Root.IsDriveName d := isDriveName_of_isName (hfirst ▸ hnames first (by simp)) hd
  have hroot : (reread base p).rootText = d ++ [driveColon] := by
    have hup : first ≠ parentName := Path.ne_parentName_of_driveColon_mem (by simp [hfirst])
    rw [reread_of_below hbase hp hbelow hup, hfirst, parse]
    refine (Path.windows_spell_drive _ hdrive ?_).1
    rw [hfirst] at hnames
    exact forall_isName_behind_drive hnames hr
  intro hsame
  rw [reloaded, placed_of_rootText hread (.inl (by simp [hroot]))] at hsame
  have habs := Path.isAbsolute_eq_of_rootKey hread hp hsame.rootKey
  rw [hread.isAbsolute_eq, hroot, Root.endsInSeparator_drive, hbelow.isAbsolute] at habs
  exact Bool.false_ne_true habs

/-- A name that is a drive and nothing else becomes a root, behind which only the further names
are left. -/
theorem windows_reread_of_bare_drive {d : Text} (hfirst : first = d ++ [driveColon])
    (hd : driveColon ∉ d) :
    (reread base p).rootText =
        first ++ (if p.hasTrailingSeparator || !rest.isEmpty then [portable] else []) ∧
      (reread base p).namesText = spell portable rest p.hasTrailingSeparator := by
  have hnames := hbelow.isName hp
  have hrest : ∀ n ∈ rest, IsName n := fun n hn => hnames n (List.mem_cons_of_mem _ hn)
  have hdrive : Root.IsDriveName d := isDriveName_of_isName (hfirst ▸ hnames first (by simp)) hd
  have hup := Path.ne_parentName_of_driveColon_mem (n := first) (by simp [hfirst])
  rw [reread_of_below hbase hp hbelow hup, hfirst, List.append_assoc]
  exact Path.windows_spell_bare_drive _ isSeparator_portable hdrive hrest

theorem reloaded_of_bare_drive {d : Text} (hfirst : first = d ++ [driveColon])
    (hd : driveColon ∉ d) : reloaded base p = reread base p := by
  obtain ⟨hroot, -⟩ := windows_reread_of_bare_drive hbase hp hbelow hfirst hd
  exact placed_of_rootText (legible_reread base p).wellFormed (.inl (by simp [hroot, hfirst]))

theorem samePlace_of_bare_drive_iff {d : Text} (hfirst : first = d ++ [driveColon])
    (hd : driveColon ∉ d) : SamePlace (reloaded base p) p ↔ FallsOnDrive base first rest := by
  have hrest : ∀ n ∈ rest, IsName n := fun n hn =>
    hbelow.isName hp n (List.mem_cons_of_mem _ hn)
  have hread := (legible_reread base p).wellFormed
  have hcolon : driveColon ∈ first := by simp [hfirst]
  have hup := Path.ne_parentName_of_driveColon_mem hcolon
  obtain ⟨hroot, htext⟩ := windows_reread_of_bare_drive hbase hp hbelow hfirst hd
  have hproper : (reread base p).properNames = rest := by
    rw [hread.properNames_eq, htext, properPieces_spell hrest isSeparator_portable]
  have huri := uri_reread_of_below hbase hp hbelow hup
  rw [reloaded_of_bare_drive hbase hp hbelow hfirst hd]
  by_cases hclosed : (p.hasTrailingSeparator || !rest.isEmpty) = true
  · rw [if_pos hclosed] at hroot
    have habs : (reread base p).isAbsolute = true := by
      rw [hread.isAbsolute_eq, hroot, endsInSeparator_append (by simp)]
      rfl
    have hfalls : (reread base p).normalize.names = p.normalize.names ↔
        (trip base.properNames).downs.length < (trip rest).ups := by
      rw [hread.names_normalize_of_isAbsolute habs,
        hp.names_normalize_of_isAbsolute hbelow.isAbsolute, hproper, hbelow.names,
        List.reverse_inj, eq_comm,
        Path.downs_trip_append_cons_eq_iff (Path.isOrdinary_of_driveColon_mem hcolon)]
    constructor
    · intro hsame
      have hkey := hsame.rootKey
      rw [← hbelow.rootKey, Path.rootKey_eq, hroot] at hkey
      exact ⟨⟨d, hfirst, hd⟩, hkey, hfalls.mp hsame.names⟩
    · rintro ⟨-, hkey, hups⟩
      refine ⟨huri, ?_, hfalls.mpr hups⟩
      rw [← hbelow.rootKey, Path.rootKey_eq, hroot, hkey]
  · rw [if_neg hclosed, List.append_nil, hfirst] at hroot
    constructor
    · intro hsame
      have habs := Path.isAbsolute_eq_of_rootKey hread hp hsame.rootKey
      rw [hread.isAbsolute_eq, hroot, Root.endsInSeparator_drive, hbelow.isAbsolute] at habs
      exact absurd habs Bool.false_ne_true
    · rintro ⟨-, -, hups⟩
      obtain ⟨-, rfl⟩ := by simpa using hclosed
      simp at hups

theorem samePlace_reloaded_of_below_iff (hup : first ≠ parentName) :
    SamePlace (reloaded base p) p ↔ ¬ (driveColon ∈ first ∧ ¬ FallsOnDrive base first rest) := by
  by_cases hcolon : driveColon ∈ first
  · obtain ⟨d, r, hfirst, hd⟩ := List.eq_append_cons_of_mem hcolon
    by_cases hr : r = []
    · subst hr
      rw [samePlace_of_bare_drive_iff hbase hp hbelow hfirst hd]
      simp [hcolon]
    · have hnot := not_samePlace_of_drive hbase hp hbelow hfirst hd hr
      have hfalls : ¬ FallsOnDrive base first rest := by
        rintro ⟨⟨c, hc, hnone⟩, -⟩
        have hfront := congrArg List.dropLast (hfirst.symm.trans hc)
        rw [List.dropLast_concat, List.dropLast_append_of_ne_nil (by simp),
          List.dropLast_cons_of_ne_nil hr] at hfront
        exact hnone (by simp [← hfront])
      simp [hnot, hcolon, hfalls]
  · have hsame := samePlace_reloaded_of_below hbase hp hbelow hup hcolon
    simp [hsame, hcolon]

end

/-- Recorded paths come back as paths to the same place, unless they are misread.  Paths without a
root on the filesystem of the manifest are apart: they come back in the place of the folder. -/
theorem samePlace_reloaded_iff {base p : Path} (hbase : base.WellFormed) (hp : p.Legible)
    (hplace : p.rootText ≠ [] ∨ p.uri ≠ base.uri) :
    SamePlace (reloaded base p) p ↔ ¬ Misread base p := by
  by_cases hnot : ∀ first rest, LiesBelow base p first rest → first = parentName
  · have halike := alike_reloaded_of_not_below hbase hp hnot hplace
    have hsame := SamePlace.of_alike halike (wellFormed_reloaded hbase p) hp.wellFormed
    apply iff_of_true hsame
    rintro ⟨first, rest, hbelow, hcolon, -⟩
    exact Path.ne_parentName_of_driveColon_mem hcolon (hnot first rest hbelow)
  · push Not at hnot
    obtain ⟨first, rest, hbelow, hup⟩ := hnot
    rw [samePlace_reloaded_of_below_iff hbase hp.wellFormed hbelow hup, not_iff_not]
    constructor
    · rintro ⟨hcolon, hfalls⟩
      exact ⟨first, rest, hbelow, hcolon, hfalls⟩
    · rintro ⟨m, more, hother, hcolon, hfalls⟩
      obtain ⟨rfl, rfl⟩ := hbelow.eq hother
      exact ⟨hcolon, hfalls⟩

end LexicalPaths.Manifest
