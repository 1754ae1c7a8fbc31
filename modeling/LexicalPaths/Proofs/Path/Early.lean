import LexicalPaths.Proofs.Path.Location
import LexicalPaths.Proofs.Path.Walk

/-!
# Normalizing early

A path that is normalized before it is resolved, or before something is resolved against it, leads
to the same location as one that is not.  What resolution does with a path is decided by the two
roots alone, and normalization writes a root in one separator style, which decides nothing.  Where
names are appended to names, the walk along both passes through the folder at which the walk along
the first of them ends, and that is the folder of their normal form.
-/

namespace LexicalPaths

namespace Root

open Separator

/-- A path with the root `other` goes on where a path with the root `root` ends: it has no root, or
the same drive without a separator behind it. -/
def Continues (root other : Text) : Prop :=
  endsInSeparator other = false ∧
    (other = [] ∨ root ≠ [] ∧ driveName root = driveName other)

/-- A path with the root `other` starts at the top of the drive that `root` names. -/
def Borrows (root other : Text) : Prop :=
  endsInSeparator other = true ∧ other.length = 1 ∧ 0 < afterDrive root

section

variable {s : Char} (hs : isSeparator s = true)
include hs

/-- A root without a separator at its end has none at all. -/
theorem IsRoot.unify_of_not_endsInSeparator {r : Text} (hr : IsRoot r)
    (hend : endsInSeparator r = false) : unify [s] r = r := by
  cases hr with
  | run hrun =>
      by_cases hnil : r = []
      · rw [hnil, (unify_eq_nil_iff hs []).mpr rfl]
      · rw [endsInSeparator_of_isRun hrun hnil] at hend
        contradiction
  | @drive d t hd hrun =>
      rw [endsInSeparator_drive] at hend
      have hnil : t = [] := by
        by_contra hne
        rw [endsInSeparator_of_isRun hrun hne] at hend
        contradiction
      rw [hnil, unify_drive hs hd, (unify_eq_nil_iff hs []).mpr rfl]

theorem continues_unify_left {root other : Text} (hother : IsRoot other) :
    Continues (unify [s] root) other ↔ Continues root other := by
  unfold Continues
  apply and_congr_right
  intro hend
  by_cases hnil : other = []
  · simp [hnil]
  · have hbare := hother.not_separator_of_not_endsInSeparator hnil hend
    rw [ne_eq, unify_eq_nil_iff hs, driveName, driveName, before_unify hs,
      upper_unify_eq_iff hs hbare]
    rfl

theorem continues_unify_right {root other : Text} (hother : IsRoot other) :
    Continues root (unify [s] other) ↔ Continues root other := by
  cases hend : endsInSeparator other with
  | true => simp [Continues, endsInSeparator_unify hs, hend]
  | false => rw [hother.unify_of_not_endsInSeparator hs hend]

theorem borrows_unify (root other : Text) :
    Borrows (unify [s] root) (unify [s] other) ↔ Borrows root other := by
  rw [Borrows, afterDrive_unify hs, endsInSeparator_unify hs, Separator.length_unify hs]
  rfl

end

section

variable {root root' other other' : Text} (hroot : Alike root root') (hother : Alike other other')
include hroot

theorem afterDrive_eq_of_alike : afterDrive root = afterDrive root' := by
  rw [← afterDrive_unify isSeparator_portable root, hroot.unify_eq isSeparator_portable,
    afterDrive_unify isSeparator_portable]

include hother

/-- Separator style does not decide whether a path goes on. -/
theorem continues_iff_of_alike (hr : IsRoot other) (hr' : IsRoot other') :
    Continues root other ↔ Continues root' other' := by
  rw [← continues_unify_right isSeparator_portable hr,
    ← continues_unify_right isSeparator_portable hr', hother.unify_eq isSeparator_portable,
    ← continues_unify_left isSeparator_portable (isRoot_unify isSeparator_portable hr'),
    hroot.unify_eq isSeparator_portable,
    continues_unify_left isSeparator_portable (isRoot_unify isSeparator_portable hr')]

theorem borrows_iff_of_alike : Borrows root other ↔ Borrows root' other' := by
  rw [← borrows_unify isSeparator_portable root, hroot.unify_eq isSeparator_portable,
    hother.unify_eq isSeparator_portable, borrows_unify isSeparator_portable]

end

end Root

namespace Path

open Separator

/-! ## Resolution by roots -/

namespace WellFormed

variable {p q : Path} (hp : p.WellFormed) (hq : q.WellFormed)
include hp hq

omit hq in
theorem resolve_of_isEmpty_of_continues (hempty : p.isEmpty = true) (huri : p.uri = q.uri)
    (hgoes : Root.Continues p.rootText q.rootText) :
    (p.resolve q).uri = p.uri ∧ (p.resolve q).rootText = p.rootText ∧
      (p.resolve q).properNames = p.properNames ++ q.properNames := by
  obtain ⟨hroot, hnames⟩ := hp.isEmpty_iff.mp hempty
  have hother : q.rootText = [] := hgoes.2.resolve_right fun h => h.1 hroot
  have hnone : p.properNames = [] := by
    rw [hp.properNames_eq, hnames]
    rfl
  rw [resolve_of_isEmpty hempty, hroot, hother, hnone]
  exact ⟨huri.symm, rfl, rfl⟩

/-- The names of a path that goes on are appended. -/
theorem resolve_of_continues (huri : p.uri = q.uri)
    (hgoes : Root.Continues p.rootText q.rootText) :
    (p.resolve q).uri = p.uri ∧ (p.resolve q).rootText = p.rootText ∧
      (p.resolve q).properNames = p.properNames ++ q.properNames := by
  by_cases hempty : p.isEmpty = true
  · exact hp.resolve_of_isEmpty_of_continues hempty huri hgoes
  rw [Bool.not_eq_true] at hempty
  obtain ⟨hend, hdrive⟩ := hgoes
  have habs : q.isAbsolute = false := hq.isAbsolute_eq.trans hend
  have hroots : q.rootEnd ≠ 0 → compatibleRoots p.root? q.root? = true := by
    intro hzero
    have hne := hq.rootText_eq_nil_iff.not.mpr hzero
    obtain ⟨hmine, hsame⟩ := hdrive.resolve_left hne
    apply eq_true_of_ne_false
    intro hfalse
    exact ((hp.compatibleRoots_eq_false_iff hq hne).mp hfalse).elim hmine fun hnot => hnot hsame
  rw [resolve_of_relative hempty habs hroots]
  by_cases hnil : q.start = q.stop
  · rw [if_pos hnil, hq.properNames_eq, hq.namesText_eq_nil_iff.mpr hnil]
    exact ⟨rfl, rfl, (List.append_nil _).symm⟩
  · rw [if_neg hnil, hq.properNames_eq]
    exact ⟨rfl, hp.rootText_appended _, hp.properNames_appended _⟩

/-- The names of a path that starts at the top of the drive replace those of the base. -/
theorem resolve_of_borrows (hborrow : Root.Borrows p.rootText q.rootText) :
    (p.resolve q).uri = p.uri ∧
      (p.resolve q).rootText = p.rootText.take (Root.afterDrive p.rootText) ++ [p.separator] ∧
      (p.resolve q).properNames = q.properNames := by
  obtain ⟨hend, hone, hdrive⟩ := hborrow
  have habs : q.isAbsolute = true := by rw [hq.isAbsolute_eq, hend]
  have hview := hp.view_resolve_of_drive hq habs hone hdrive
  obtain ⟨c, hc⟩ := List.length_eq_one_iff.mp hone
  have hsep : isSeparator c = true := by
    rw [hc] at hend
    simpa [endsInSeparator] using hend
  have hroot : unify [p.separator] q.rootText = [p.separator] := by
    rw [hc, unify_eq_map hp.separator, List.map_singleton, restyle, if_pos hsep]
  refine ⟨congrArg View.uri hview, ?_, ?_⟩
  · rw [← hroot]
    exact congrArg View.root hview
  · have hnames : (p.resolve q).namesText = unify [p.separator] q.namesText :=
      congrArg View.names hview
    rw [(hp.resolve hq).properNames_eq, hnames, properPieces_unify hp.separator, hq.properNames_eq]

/-- Any other path replaces the base. -/
theorem resolve_of_replaces (hgoes : ¬ Root.Continues p.rootText q.rootText)
    (hborrow : ¬ Root.Borrows p.rootText q.rootText) : p.resolve q = q := by
  by_cases hempty : p.isEmpty = true
  · exact resolve_of_isEmpty hempty q
  rw [Bool.not_eq_true] at hempty
  cases habs : q.isAbsolute with
  | true =>
      apply resolve_of_isAbsolute hempty habs
      rw [← hq.length_rootText]
      exact fun hdrive => hborrow ⟨hq.isAbsolute_eq.symm.trans habs, hdrive⟩
  | false =>
      have hend : endsInSeparator q.rootText = false := hq.isAbsolute_eq.symm.trans habs
      obtain ⟨hne, hdrive⟩ := not_or.mp fun h => hgoes ⟨hend, h⟩
      apply resolve_of_otherDrive hempty habs (hq.rootText_eq_nil_iff.not.mp hne)
      rw [hp.compatibleRoots_eq_false_iff hq hne, or_iff_not_imp_left]
      exact fun hmine hsame => hdrive ⟨hmine, hsame⟩

end WellFormed

/-! ## Locations and walks -/

theorem walk_append (folder names more : List Text) :
    walk folder (names ++ more) = walk (walk folder names) more :=
  List.foldl_append

theorem walk_properNames (p : Path) (folder : List Text) :
    walk folder p.properNames = walk folder p.names := by
  rw [walk_eq, walk_eq, trip_properNames]

theorem driveColon_notMem_properNames_iff {p : Path} :
    (∀ n ∈ p.properNames, driveColon ∉ n) ↔ ∀ n ∈ p.names, driveColon ∉ n := by
  constructor
  · intro hproper n hn
    by_cases hnil : n = []
    · simp [hnil]
    · exact hproper n (List.mem_filter.mpr ⟨hn, by simp [hnil]⟩)
  · exact fun hnames n hn => hnames n (List.mem_of_mem_filter hn)

/-- A path none of whose names can be taken for a drive. -/
structure Plain (p : Path) : Prop where
  wellFormed : p.WellFormed
  names : ∀ n ∈ p.properNames, driveColon ∉ n

/-- Two paths are followed alike, on one filesystem and under roots that are alike. -/
structure LeadsLike (p q : Path) : Prop where
  uri : p.uri = q.uri
  rootText : Separator.Alike p.rootText q.rootText
  walk : ∀ folder, p.StartsFrom folder → walk folder p.properNames = walk folder q.properNames

theorem LeadsLike.refl (p : Path) : LeadsLike p p :=
  ⟨rfl, .refl _, fun _ _ => rfl⟩

namespace Plain

variable {p q : Path} (hp : p.Plain) (hq : q.Plain)
include hp

theorem readsBack : p.ReadsBack :=
  hp.wellFormed.readsBack_of_hidesNoDrive (.inr (driveColon_notMem_properNames_iff.mp hp.names))

theorem normalize : p.normalize.Plain := by
  refine ⟨hp.wellFormed.normalize, driveColon_notMem_properNames_iff.mpr ?_⟩
  rw [hp.wellFormed.names_normalize hp.readsBack]
  exact driveColon_notMem_remainingNames (driveColon_notMem_properNames_iff.mp hp.names)

/-- A path leads where its normal form leads. -/
theorem leadsLike_normalize : LeadsLike p p.normalize := by
  constructor
  case uri => exact (uri_normalize p).symm
  case rootText =>
    rw [hp.wellFormed.rootText_normalize hp.readsBack]
    exact (alike_unify hp.wellFormed.separator _).symm
  case walk =>
    intro folder hstart
    rw [walk_properNames, walk_properNames, hp.wellFormed.names_normalize hp.readsBack]
    exact (walk_remainingNames hstart _).symm

include hq

theorem resolve (huri : p.uri = q.uri) : (p.resolve q).Plain := by
  refine ⟨hp.wellFormed.resolve hq.wellFormed, ?_⟩
  by_cases hgoes : Root.Continues p.rootText q.rootText
  · rw [(hp.wellFormed.resolve_of_continues hq.wellFormed huri hgoes).2.2]
    exact fun n hn => (List.mem_append.mp hn).elim (hp.names n) (hq.names n)
  by_cases hborrow : Root.Borrows p.rootText q.rootText
  · rw [(hp.wellFormed.resolve_of_borrows hq.wellFormed hborrow).2.2]
    exact hq.names
  · rw [hp.wellFormed.resolve_of_replaces hq.wellFormed hgoes hborrow]
    exact hq.names

end Plain

/-- Paths that are followed alike have the same location. -/
theorem LeadsLike.sameLocation {p q : Path} (halike : LeadsLike p q) (hp : p.Plain)
    (hq : q.Plain) : SameLocation p q := by
  have hpwf := hp.wellFormed
  have hqwf := hq.wellFormed
  have habs : p.isAbsolute = q.isAbsolute := by
    rw [hpwf.isAbsolute_eq, hqwf.isAbsolute_eq, ← endsInSeparator_unify isSeparator_portable,
      halike.rootText.unify_eq isSeparator_portable, endsInSeparator_unify isSeparator_portable]
  have hkept : p.keptNames = q.keptNames := by
    rw [keptNames, keptNames, ← habs, remainingNames_eq_iff]
    intro folder hstart _
    rw [← walk_properNames, halike.walk folder hstart, walk_properNames]
  refine ⟨halike.uri, halike.rootText, ?_, ?_⟩
  · rw [hpwf.rootText_normalize hp.readsBack, hqwf.rootText_normalize hq.readsBack]
    exact (alike_unify hpwf.separator _).trans
      (halike.rootText.trans (alike_unify hqwf.separator _).symm)
  · rw [hpwf.names_normalize hp.readsBack, hqwf.names_normalize hq.readsBack, hkept]

/-! ## Resolution of paths that are followed alike -/

namespace LeadsLike

section

variable {p p' q q' : Path} (hbase : LeadsLike p p') (hother : LeadsLike q q')
  (hp : p.WellFormed) (hp' : p'.WellFormed) (hq : q.WellFormed) (hq' : q'.WellFormed)
include hbase hother hp hp' hq hq'

theorem resolve_of_continues (huri : p.uri = q.uri)
    (hgoes : Root.Continues p.rootText q.rootText) :
    LeadsLike (p.resolve q) (p'.resolve q') := by
  have hgoes' := (Root.continues_iff_of_alike hbase.rootText hother.rootText hq.root
    hq'.root).mp hgoes
  have huri' : p'.uri = q'.uri := hbase.uri.symm.trans (huri.trans hother.uri)
  obtain ⟨hfile, hroot, hnames⟩ := hp.resolve_of_continues hq huri hgoes
  obtain ⟨hfile', hroot', hnames'⟩ := hp'.resolve_of_continues hq' huri' hgoes'
  refine ⟨hfile.trans (hbase.uri.trans hfile'.symm), ?_, fun folder hstart => ?_⟩
  · rw [hroot, hroot']
    exact hbase.rootText
  · have hfirst : p.StartsFrom folder := fun habs => hstart <| by
      rw [(hp.resolve hq).isAbsolute_eq, hroot, ← hp.isAbsolute_eq, habs]
    have hthen : q.StartsFrom (Path.walk folder p.properNames) := fun habs =>
      absurd (hgoes.1.symm.trans (hq.isAbsolute_eq.symm.trans habs)) Bool.false_ne_true
    rw [hnames, hnames', walk_append, walk_append, hother.walk _ hthen, hbase.walk folder hfirst]

theorem resolve_of_borrows (hborrow : Root.Borrows p.rootText q.rootText) :
    LeadsLike (p.resolve q) (p'.resolve q') := by
  have hborrow' := (Root.borrows_iff_of_alike hbase.rootText hother.rootText).mp hborrow
  obtain ⟨hfile, hroot, hnames⟩ := hp.resolve_of_borrows hq hborrow
  obtain ⟨hfile', hroot', hnames'⟩ := hp'.resolve_of_borrows hq' hborrow'
  refine ⟨hfile.trans (hbase.uri.trans hfile'.symm), ?_, fun folder hstart => ?_⟩
  · rw [hroot, hroot', ← Root.afterDrive_eq_of_alike hbase.rootText]
    show unify [portable] _ = unify [portable] _
    rw [portable_append, portable_append, unify_take isSeparator_portable,
      unify_take isSeparator_portable, hbase.rootText.unify_eq isSeparator_portable]
    simp [unify_eq_map isSeparator_portable, restyle, hp.separator, hp'.separator]
  · have htop : folder = [] := hstart <| by
      rw [(hp.resolve hq).isAbsolute_eq, hroot, endsInSeparator_append (by simp)]
      exact hp.separator
    rw [hnames, hnames', hother.walk folder fun _ => htop]

/-- Paths that are followed alike can take each other's place in a resolution. -/
theorem resolve (huri : p.uri = q.uri) : LeadsLike (p.resolve q) (p'.resolve q') := by
  by_cases hgoes : Root.Continues p.rootText q.rootText
  · exact hbase.resolve_of_continues hother hp hp' hq hq' huri hgoes
  by_cases hborrow : Root.Borrows p.rootText q.rootText
  · exact hbase.resolve_of_borrows hother hp hp' hq hq' hborrow
  · have hgoes' := (Root.continues_iff_of_alike hbase.rootText hother.rootText hq.root
      hq'.root).not.mp hgoes
    have hborrow' := (Root.borrows_iff_of_alike hbase.rootText hother.rootText).not.mp hborrow
    rw [hp.resolve_of_replaces hq hgoes hborrow, hp'.resolve_of_replaces hq' hgoes' hborrow']
    exact hother

end

end LeadsLike

/-- Normalizing a path before it is resolved, or before another is resolved against it, does not
change where the result leads. -/
theorem sameLocation_resolve_normalize {p q : Path} (hp : Reachable p) (hq : Reachable q)
    (huri : p.uri = q.uri) (hmine : ∀ n ∈ p.names, driveColon ∉ n)
    (hother : ∀ n ∈ q.names, driveColon ∉ n) :
    SameLocation (p.resolve q) (p.resolve q.normalize) ∧
      SameLocation (p.resolve q) (p.normalize.resolve q) := by
  have hbase : p.Plain := ⟨hp.wellFormed, driveColon_notMem_properNames_iff.mpr hmine⟩
  have hgoal : q.Plain := ⟨hq.wellFormed, driveColon_notMem_properNames_iff.mpr hother⟩
  have hresolve := hbase.resolve hgoal huri
  constructor
  · have hlate := (LeadsLike.refl p).resolve hgoal.leadsLike_normalize hbase.wellFormed
      hbase.wellFormed hgoal.wellFormed hgoal.normalize.wellFormed huri
    exact hlate.sameLocation hresolve
      (hbase.resolve hgoal.normalize (huri.trans hgoal.leadsLike_normalize.uri))
  · have hlate := hbase.leadsLike_normalize.resolve (.refl q) hbase.wellFormed
      hbase.normalize.wellFormed hgoal.wellFormed hgoal.wellFormed huri
    exact hlate.sameLocation hresolve
      (hbase.normalize.resolve hgoal (hbase.leadsLike_normalize.uri.symm.trans huri))

/-- From `a/..`, which is normalized to the empty path, `../b` leads one folder up and to `b`. -/
theorem sameLocation_resolve_normalize_of_emptied :
    SameLocation ((parse localUri "a/..".toList).resolve (parse localUri "../b".toList))
        ((parse localUri "a/..".toList).resolve (parse localUri "../b".toList).normalize) ∧
      SameLocation ((parse localUri "a/..".toList).resolve (parse localUri "../b".toList))
        ((parse localUri "a/..".toList).normalize.resolve (parse localUri "../b".toList)) :=
  sameLocation_resolve_normalize (.parse _ _) (.parse _ _) rfl (by decide) (by decide)

end Path

end LexicalPaths
