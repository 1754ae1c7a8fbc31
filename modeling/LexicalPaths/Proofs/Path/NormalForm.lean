import LexicalPaths.Path.Order
import LexicalPaths.Proofs.Path.Trip
import LexicalPaths.Proofs.Path.Window

/-!
# Normal forms

A normal form is written down anew and read again.  What is read is the root of the path and the
names that were kept, with one exception: a path without a root whose first kept name holds a
colon.  That name is read as a drive, and what stands behind its colon becomes a name.  Such a
name can be `.`, which a second normalization drops, so normalizing once is not always enough.
-/

namespace LexicalPaths.Path

open Separator

/-- The names that normalization keeps. -/
def keptNames (p : Path) : List Text :=
  remainingNames p.isAbsolute p.names

/-- The text of the normal form of a path. -/
def normalText (p : Path) : Text :=
  unify [p.separator] p.rootText ++ spell p.separator p.keptNames p.hasTrailingSeparator

/-- The normal form starts with the root of the path, or without one if there is none. -/
def ReadsBack (p : Path) : Prop :=
  p.rootText = [] → ∀ n ∈ p.keptNames.head?, driveColon ∉ n

theorem normalize_eq (p : Path) :
    p.normalize = withRoot p.uri p.normalText (Root.length p.normalText) p.separator := by
  unfold normalize normalText
  rw [← joinWith_append_nil]
  cases hp : p.root? with
  | none =>
      have hzero := (root?_eq_none_iff p).mp hp
      have hroot : unify [p.separator] p.rootText = [] := by
        simp [rootText, hzero, unify, Text.replaceChar]
      rw [hroot]
      rfl
  | some root =>
      rw [← raw_of_root? hp]
      rfl

@[simp] theorem uri_normalize (p : Path) : p.normalize.uri = p.uri := by
  rw [normalize_eq]
  rfl

@[simp] theorem separator_normalize (p : Path) : p.normalize.separator = p.separator := by
  rw [normalize_eq]
  rfl

theorem isName_parentName : IsName parentName := by
  simp [IsName, parentName, isSeparator, portable, backslash]

theorem isName_of_mem_remainingNames {absolute : Bool} {t n : Text}
    (hn : n ∈ remainingNames absolute (pieces t)) : IsName n := by
  rcases mem_remainingNames hn with ⟨hmem, hord⟩ | rfl
  · exact ⟨hord.1, not_separator_of_mem_pieces hmem⟩
  · exact isName_parentName

namespace WellFormed

variable {p : Path} (hp : p.WellFormed)
include hp

theorem normalize : p.normalize.WellFormed := by
  rw [normalize_eq]
  exact wellFormed_withRoot (Root.length_le _) hp.separator (Root.isRoot_take_length _)

theorem isName_of_mem_keptNames {n : Text} (hn : n ∈ p.keptNames) : IsName n := by
  rw [keptNames, hp.names_eq] at hn
  exact isName_of_mem_remainingNames hn

theorem length_normalText (hread : p.ReadsBack) :
    Root.length p.normalText = p.rootText.length := by
  have hs := hp.separator
  have hkept : ∀ n ∈ p.keptNames, IsName n := fun _ => hp.isName_of_mem_keptNames
  have hlead : unify [p.separator] p.rootText = [] →
      driveColon ∉ lead (spell p.separator p.keptNames p.hasTrailingSeparator) := by
    rw [unify_eq_nil_iff hs]
    exact fun hroot => driveColon_notMem_lead_spell _ hs hkept (hread hroot)
  rw [normalText, Root.length_of_split (Root.isRoot_unify hs hp.root) (startsBare_spell hkept _)
    hlead, length_unify hs]

section

variable (hread : p.ReadsBack)
include hread

theorem rootText_normalize : p.normalize.rootText = unify [p.separator] p.rootText := by
  have hlen : p.rootText.length = (unify [p.separator] p.rootText).length :=
    (length_unify hp.separator _).symm
  rw [normalize_eq, rootText_withRoot, hp.length_normalText hread, hlen, normalText,
    List.take_left]

theorem namesText_normalize :
    p.normalize.namesText = spell p.separator p.keptNames p.hasTrailingSeparator := by
  have hlen : p.rootText.length = (unify [p.separator] p.rootText).length :=
    (length_unify hp.separator _).symm
  rw [normalize_eq, namesText_withRoot, hp.length_normalText hread, hlen, normalText,
    List.drop_left]

/-- The names of a normal form are the names that were kept. -/
theorem names_normalize : p.normalize.names = p.keptNames := by
  have hnames := fun n => hp.isName_of_mem_keptNames (n := n)
  rw [hp.normalize.names_eq, hp.namesText_normalize hread, trimEnd_spell hnames hp.separator,
    pieces_spell hnames hp.separator]

theorem isAbsolute_normalize : p.normalize.isAbsolute = p.isAbsolute := by
  rw [hp.normalize.isAbsolute_eq, hp.rootText_normalize hread,
    endsInSeparator_unify hp.separator, hp.isAbsolute_eq]

end

/-- A normal form is not changed any more if its names remain as they are. -/
theorem normalize_normalize_of_spell {names : List Text} {trail : Bool}
    (hnames : ∀ n ∈ names, IsName n)
    (hroot : unify [p.separator] p.normalize.rootText = p.normalize.rootText)
    (htext : p.normalize.namesText = spell p.separator names trail)
    (hkept : remainingNames p.normalize.isAbsolute names = names) :
    p.normalize.normalize = p.normalize := by
  have hs := hp.separator
  have hread : p.normalize.names = names := by
    rw [hp.normalize.names_eq, htext, trimEnd_spell hnames hs, pieces_spell hnames hs]
  have htrail : spell p.separator names p.normalize.hasTrailingSeparator =
      spell p.separator names trail := by
    rw [hp.normalize.hasTrailingSeparator_eq, htext, endsInSeparator_spell hnames hs]
    cases names <;> simp
  have hraw : p.normalize.normalText = p.normalize.raw := by
    rw [normalText, keptNames, hread, hkept, separator_normalize, hroot, htrail, ← htext]
    rfl
  have hsame : p.normalize.normalText = p.normalText := by
    rw [hraw, normalize_eq, raw_withRoot]
  rw [normalize_eq p.normalize, hsame, uri_normalize, separator_normalize, ← normalize_eq]

theorem normalize_normalize (hread : p.ReadsBack) : p.normalize.normalize = p.normalize := by
  refine hp.normalize_normalize_of_spell (fun _ => hp.isName_of_mem_keptNames) ?_
    (hp.namesText_normalize hread) ?_
  · rw [hp.rootText_normalize hread, unify_unify hp.separator hp.separator]
  · rw [hp.isAbsolute_normalize hread]
    exact remainingNames_remainingNames _ _

end WellFormed

/-! ## A name that is read as a drive -/

/-- The first name that is kept is a drive and the folder itself, on a path without a root. -/
def ExposesSelf (p : Path) : Prop :=
  p.root? = none ∧ ∃ drive rest,
    p.keptNames = (drive ++ driveColon :: selfName) :: rest ∧ driveColon ∉ drive

theorem exists_drive_of_not_readsBack {p : Path} (hread : ¬ p.ReadsBack) :
    p.rootText = [] ∧
      ∃ d r rest, p.keptNames = (d ++ driveColon :: r) :: rest ∧ driveColon ∉ d := by
  obtain ⟨hroot, hhead⟩ := Classical.not_imp.mp hread
  push Not at hhead
  obtain ⟨n, hn, hcolon⟩ := hhead
  obtain ⟨d, r, rfl, hd⟩ := List.eq_append_cons_of_mem hcolon
  refine ⟨hroot, d, r, ?_⟩
  cases hkept : p.keptNames with
  | nil => simp [hkept] at hn
  | cons m rest =>
      obtain rfl : m = d ++ driveColon :: r := by simpa [hkept] using hn
      exact ⟨rest, rfl, hd⟩

theorem forall_isOrdinary_of_head_ne {names : List Text} {n : Text} {rest : List Text}
    (hnames : remainingNames false names = n :: rest) (hn : n ≠ parentName) :
    ∀ m ∈ n :: rest, IsOrdinary m := by
  rw [remainingNames_false] at hnames
  cases hups : (trip names).ups with
  | zero =>
      intro m hm
      rw [← hnames, hups] at hm
      exact (mem_downs_trip (by simpa using hm)).2
  | succ k =>
      rw [hups, List.replicate_succ, List.cons_append] at hnames
      exact absurd (List.cons.inj hnames).1.symm hn

theorem ne_parentName_of_driveColon_mem {n : Text} (hn : driveColon ∈ n) : n ≠ parentName := by
  rintro rfl
  simp [parentName, driveColon] at hn

theorem isOrdinary_of_driveColon_mem {n : Text} (hn : driveColon ∈ n) : IsOrdinary n := by
  refine ⟨List.ne_nil_of_mem hn, ?_, ne_parentName_of_driveColon_mem hn⟩
  rintro rfl
  simp [selfName, driveColon] at hn

theorem remainingNames_of_forall_isOrdinary {absolute : Bool} {names : List Text}
    (hnames : ∀ n ∈ names, IsOrdinary n) : remainingNames absolute names = names := by
  rw [remainingNames_eq, trip_of_forall_isOrdinary hnames]
  simp [Trip.stack]

namespace WellFormed

variable {p : Path} (hp : p.WellFormed) {d r : Text} {rest : List Text}

include hp

theorem forall_isName_of_keptNames {names : List Text} (hkept : p.keptNames = names) :
    ∀ n ∈ names, IsName n := by
  subst hkept
  exact fun _ => hp.isName_of_mem_keptNames

theorem isDriveName_of_keptNames (hkept : p.keptNames = (d ++ driveColon :: r) :: rest)
    (hd : driveColon ∉ d) : Root.IsDriveName d :=
  isDriveName_of_isName (hp.forall_isName_of_keptNames hkept _ List.mem_cons_self) hd

variable (hroot : p.rootText = [])
include hroot

theorem forall_isOrdinary_keptNames (hkept : p.keptNames = (d ++ driveColon :: r) :: rest) :
    ∀ n ∈ (d ++ driveColon :: r) :: rest, IsOrdinary n := by
  have hremain : remainingNames false p.names = (d ++ driveColon :: r) :: rest := by
    rw [← hp.isAbsolute_of_rootText_nil hroot]
    exact hkept
  exact forall_isOrdinary_of_head_ne hremain (ne_parentName_of_driveColon_mem (by simp))

theorem normalText_of_rootText_nil :
    p.normalText = spell p.separator p.keptNames p.hasTrailingSeparator := by
  rw [normalText, hroot, (unify_eq_nil_iff hp.separator []).mpr rfl, List.nil_append]

variable (hd : driveColon ∉ d)
include hd

theorem windows_normalize_of_drive (hkept : p.keptNames = (d ++ driveColon :: r) :: rest)
    (hr : r ≠ []) :
    p.normalize.rootText = d ++ [driveColon] ∧
      p.normalize.namesText = spell p.separator (r :: rest) p.hasTrailingSeparator := by
  rw [normalize_eq, hp.normalText_of_rootText_nil hroot, hkept]
  exact windows_spell_drive _ (hp.isDriveName_of_keptNames hkept hd)
    (forall_isName_behind_drive (hp.forall_isName_of_keptNames hkept) hr)

theorem windows_normalize_of_bare_drive (hkept : p.keptNames = (d ++ [driveColon]) :: rest) :
    p.normalize.rootText =
        d ++ driveColon :: (if p.hasTrailingSeparator || !rest.isEmpty then [p.separator] else []) ∧
      p.normalize.namesText = spell p.separator rest p.hasTrailingSeparator := by
  rw [normalize_eq, hp.normalText_of_rootText_nil hroot, hkept]
  exact windows_spell_bare_drive _ hp.separator (hp.isDriveName_of_keptNames hkept hd) fun n hn =>
    hp.isName_of_mem_keptNames (hkept ▸ List.mem_cons_of_mem _ hn)

/-- What follows a drive is left alone by a second normalization, unless it starts with the folder
itself. -/
theorem normalize_normalize_of_drive (hkept : p.keptNames = (d ++ driveColon :: r) :: rest)
    (hr : r ≠ []) (hself : r ≠ selfName) : p.normalize.normalize = p.normalize := by
  obtain ⟨hdrive, htext⟩ := hp.windows_normalize_of_drive hroot hd hkept hr
  have hord := hp.forall_isOrdinary_keptNames hroot hkept
  have hrest : ∀ n ∈ rest, IsOrdinary n := fun n hn => hord n (List.mem_cons_of_mem _ hn)
  have hnames := forall_isName_behind_drive (hp.forall_isName_of_keptNames hkept) hr
  refine hp.normalize_normalize_of_spell hnames ?_ htext ?_
  · rw [hdrive, Root.unify_drive hp.separator (hp.isDriveName_of_keptNames hkept hd)]
    rfl
  · have habs : p.normalize.isAbsolute = false := by
      rw [hp.normalize.isAbsolute_eq, hdrive]
      simp [endsInSeparator]
    rw [habs]
    by_cases hup : r = parentName
    · subst hup
      rw [remainingNames_false, trip_cons, trip_of_forall_isOrdinary hrest,
        Trip.ofName_parentName]
      simp
    · refine remainingNames_of_forall_isOrdinary fun n hn => ?_
      rcases List.mem_cons.mp hn with rfl | hn
      · exact ⟨hr, hself, hup⟩
      · exact hrest n hn

theorem normalize_normalize_of_bare_drive (hkept : p.keptNames = (d ++ [driveColon]) :: rest) :
    p.normalize.normalize = p.normalize := by
  obtain ⟨hdrive, htext⟩ := hp.windows_normalize_of_bare_drive hroot hd hkept
  have hord := hp.forall_isOrdinary_keptNames hroot hkept
  have hnames : ∀ n ∈ rest, IsName n := fun n hn =>
    hp.isName_of_mem_keptNames (hkept ▸ List.mem_cons_of_mem _ hn)
  refine hp.normalize_normalize_of_spell hnames ?_ htext ?_
  · rw [hdrive, Root.unify_drive hp.separator (hp.isDriveName_of_keptNames hkept hd)]
    split
    · simp [unify_eq_map hp.separator, restyle]
    · simp [unify_eq_map hp.separator]
  · exact remainingNames_of_forall_isOrdinary fun n hn => hord n (List.mem_cons_of_mem _ hn)

/-- The folder itself behind a drive is dropped by a second normalization. -/
theorem names_normalize_normalize_of_self
    (hkept : p.keptNames = (d ++ driveColon :: selfName) :: rest) :
    p.normalize.names = selfName :: rest ∧ p.normalize.normalize.names = rest := by
  have hr : selfName ≠ [] := by simp [selfName]
  obtain ⟨hdrive, htext⟩ := hp.windows_normalize_of_drive hroot hd hkept hr
  have hnames := forall_isName_behind_drive (hp.forall_isName_of_keptNames hkept) hr
  have hs := hp.separator
  have hread : p.normalize.names = selfName :: rest := by
    rw [hp.normalize.names_eq, htext, trimEnd_spell hnames hs, pieces_spell hnames hs]
  have hord := hp.forall_isOrdinary_keptNames hroot hkept
  have hrest : ∀ n ∈ rest, IsOrdinary n := fun n hn => hord n (List.mem_cons_of_mem _ hn)
  have hrooted : p.normalize.ReadsBack := by
    intro hnil
    rw [hdrive] at hnil
    simp at hnil
  refine ⟨hread, ?_⟩
  rw [hp.normalize.names_normalize hrooted, keptNames, hread, remainingNames_eq, trip_cons]
  have hstay : Trip.ofName selfName = 1 := rfl
  rw [hstay, one_mul, ← remainingNames_eq, remainingNames_of_forall_isOrdinary hrest]

end WellFormed

theorem same_refl (p : Path) : p.same p = true := by
  simp [same]

namespace WellFormed

theorem names_eq_of_same {p q : Path} (hp : p.WellFormed) (hq : q.WellFormed)
    (hsame : p.same q = true) : p.names = q.names := by
  have htext : p.namesText = q.namesText := by
    unfold same at hsame
    simp only [Bool.and_eq_true, beq_iff_eq] at hsame
    exact hsame.2
  rw [hp.names_eq, hq.names_eq, htext]

variable {p : Path} (hp : p.WellFormed)
include hp

theorem not_same_of_exposesSelf (hself : p.ExposesSelf) :
    p.normalize.normalize.same p.normalize = false := by
  obtain ⟨hroot, drive, rest, hkept, hdrive⟩ := hself
  obtain ⟨honce, htwice⟩ := hp.names_normalize_normalize_of_self
    (hp.root?_eq_none_iff_rootText.mp hroot) hdrive hkept
  cases hsame : p.normalize.normalize.same p.normalize with
  | false => rfl
  | true =>
      have heq := hp.normalize.normalize.names_eq_of_same hp.normalize hsame
      rw [honce, htwice] at heq
      simp at heq

/-- One normalization is enough exactly if it does not read `.` behind a drive. -/
theorem normalize_normalize_of_not_exposesSelf (hself : ¬ p.ExposesSelf) :
    p.normalize.normalize = p.normalize := by
  by_cases hread : p.ReadsBack
  · exact hp.normalize_normalize hread
  · obtain ⟨hroot, d, r, rest, hkept, hd⟩ := exists_drive_of_not_readsBack hread
    by_cases hnil : r = []
    · subst hnil
      exact hp.normalize_normalize_of_bare_drive hroot hd hkept
    · apply hp.normalize_normalize_of_drive hroot hd hkept hnil
      rintro rfl
      exact hself ⟨hp.root?_eq_none_iff_rootText.mpr hroot, d, rest, hkept, hd⟩

end WellFormed

end LexicalPaths.Path
