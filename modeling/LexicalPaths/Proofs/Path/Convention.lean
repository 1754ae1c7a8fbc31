import LexicalPaths.Proofs.Path.View
import LexicalPaths.Proofs.Path.Way
import LexicalPaths.Proofs.Text.UpperCase

/-!
# The separator convention has no meaning

Every operation on paths commutes with writing all separators as `/`.  So texts that differ in
their separators only, `/` here and `\` there, are read as paths that mean the same, and so do
their parts, their normal forms, and what comes of resolving and relativizing them.  The one
question that compares texts without regard to the convention is whether a path continues another
one on its drive, and a drive name holds no separator.
-/

namespace LexicalPaths

namespace Separator

section

variable {s : Char} (hs : isSeparator s = true)
include hs

theorem isSeparator_comp_restyle :
    (fun c => !isSeparator c) ∘ restyle s = fun c => !isSeparator c := by
  funext c
  exact congrArg _ (isSeparator_restyle hs c)

theorem lastPiece_unify (t : Text) : lastPiece (unify [s] t) = unify [s] (lastPiece t) := by
  rw [unify_eq_map hs, unify_eq_map hs, lastPiece, lastPiece, List.rtakeWhile, List.rtakeWhile,
    ← List.map_reverse, List.takeWhile_map, isSeparator_comp_restyle hs, List.map_reverse]

theorem beforeLastPiece_unify (t : Text) :
    beforeLastPiece (unify [s] t) = unify [s] (beforeLastPiece t) := by
  rw [unify_eq_map hs, unify_eq_map hs, beforeLastPiece, beforeLastPiece, List.rdropWhile,
    List.rdropWhile, ← List.map_reverse, List.dropWhile_map, isSeparator_comp_restyle hs,
    List.map_reverse]

theorem dropLast_unify (t : Text) : (unify [s] t).dropLast = unify [s] t.dropLast := by
  rw [unify_eq_map hs, unify_eq_map hs, List.map_dropLast]

theorem slice_unify (t : Text) (i j : Nat) : (unify [s] t).slice i j = unify [s] (t.slice i j) := by
  rw [Text.slice, ← unify_take hs, ← unify_drop hs, Text.slice]

theorem forall_not_unify_iff (t : Text) :
    (∀ c ∈ unify [s] t, isSeparator c = false) ↔ ∀ c ∈ t, isSeparator c = false := by
  simp [unify_eq_map hs, isSeparator_restyle hs]

end

/-- Of two conventions that a text is given, the later one is seen. -/
theorem portable_unify {s : Char} (hs : isSeparator s = true) (t : Text) :
    unify [portable] (unify [s] t) = unify [portable] t :=
  unify_unify hs isSeparator_portable t

@[simp] theorem portable_portable (t : Text) :
    unify [portable] (unify [portable] t) = unify [portable] t :=
  portable_unify isSeparator_portable t

theorem portable_append (t u : Text) :
    unify [portable] (t ++ u) = unify [portable] t ++ unify [portable] u :=
  unify_append isSeparator_portable t u

theorem upper_ne_of_separator {t u : Text} (ht : ¬ ∀ c ∈ t, isSeparator c = false)
    (hu : ∀ c ∈ u, isSeparator c = false) : Text.upper t ≠ Text.upper u := by
  push Not at ht
  obtain ⟨c, hmem, hc⟩ := ht
  rw [ne_eq, Bool.not_eq_false] at hc
  intro hsame
  have hupper : c ∈ Text.upper t :=
    List.mem_flatMap.mpr ⟨c, hmem, by simp [Root.upperChar_of_isSeparator hc]⟩
  rw [hsame] at hupper
  have hmark := Text.mem_of_mem_upper (Text.mem_marks_of_isSeparator hc) hupper
  rw [hu c hmark] at hc
  contradiction

/-- The convention of a text does not decide whether it has the upper case of a text that is free of
separators: either none of it is rewritten, or the upper case shows its separators. -/
theorem upper_unify_eq_iff {s : Char} (hs : isSeparator s = true) {t u : Text}
    (hu : ∀ c ∈ u, isSeparator c = false) :
    Text.upper (unify [s] t) = Text.upper u ↔ Text.upper t = Text.upper u := by
  by_cases ht : ∀ c ∈ t, isSeparator c = false
  · rw [unify_of_forall_not hs ht]
  · have hunify := mt (forall_not_unify_iff hs t).mp ht
    exact iff_of_false (upper_ne_of_separator hunify hu) (upper_ne_of_separator ht hu)

end Separator

/-! ## Drives -/

namespace Root

open Separator

section

variable {s : Char} (hs : isSeparator s = true)
include hs

theorem ne_driveColon_comp_restyle :
    (fun c => c != driveColon) ∘ restyle s = fun c => c != driveColon := by
  have hcolon : (s != driveColon) = true := bne_iff_ne.mpr (ne_driveColon_of_isSeparator hs)
  funext c
  show (restyle s c != driveColon) = (c != driveColon)
  cases hc : isSeparator c with
  | true =>
      have hne : (c != driveColon) = true := bne_iff_ne.mpr (ne_driveColon_of_isSeparator hc)
      rw [restyle, if_pos hc, hne, hcolon]
  | false => rw [restyle_of_not hc]

theorem before_unify (t : Text) :
    (unify [s] t).before driveColon = unify [s] (t.before driveColon) := by
  rw [unify_eq_map hs, unify_eq_map hs, Text.before, Text.before, List.takeWhile_map,
    ne_driveColon_comp_restyle hs]

theorem afterDrive_unify (t : Text) : afterDrive (unify [s] t) = afterDrive t := by
  rw [unify_eq_map hs, afterDrive, ← List.map_reverse, List.takeWhile_map,
    ne_driveColon_comp_restyle hs, List.length_map, List.length_map, afterDrive]

end

theorem before_drive {d : Text} (hd : IsDriveName d) (t : Text) :
    (d ++ driveColon :: t).before driveColon = d := by
  rw [Text.before, List.takeWhile_append_of_pos fun c hc => by simp [(hd c hc).2]]
  simp

theorem endsInSeparator_of_isRun {r : Text} (hr : IsRun r) (hne : r ≠ []) :
    endsInSeparator r = true := by
  obtain ⟨u, c, rfl⟩ := (List.eq_nil_or_concat r).resolve_left hne
  rw [List.concat_eq_append, endsInSeparator_append (by simp)]
  simpa [endsInSeparator] using hr c (by simp)

/-- Before the colon of a root that no separator closes there is a drive name. -/
theorem IsRoot.not_separator_of_not_endsInSeparator {r : Text} (hr : IsRoot r) (hne : r ≠ [])
    (hend : endsInSeparator r = false) : ∀ c ∈ r.before driveColon, isSeparator c = false := by
  cases hr with
  | run hrun =>
      rw [endsInSeparator_of_isRun hrun hne] at hend
      contradiction
  | drive hd hrun =>
      rw [before_drive hd]
      exact fun c hc => (hd c hc).1

/-- The part of a root that its last colon closes holds no separator. -/
theorem IsRoot.not_separator_of_afterDrive {r : Text} (hr : IsRoot r) :
    ∀ c ∈ r.take (afterDrive r), isSeparator c = false := by
  cases hr with
  | run hrun => simp [afterDrive_of_isRun hrun]
  | @drive d t hd hrun =>
      rw [take_afterDrive d hrun]
      intro c hc
      rcases List.mem_append.mp hc with hc | hc
      · exact (hd c hc).1
      · rw [List.mem_singleton.mp hc]
        rfl

end Root

namespace Path

open Separator

theorem boundsFrom_unify {s : Char} (hs : isSeparator s = true) (first i : Nat) (t : Text) :
    boundsFrom first i (unify [s] t) = boundsFrom first i t := by
  rw [unify_eq_map hs]
  induction t generalizing first i with
  | nil => rfl
  | cons c t ih => rw [List.map_cons, boundsFrom, boundsFrom, isSeparator_restyle hs, ih, ih]

/-! ## Views in the portable convention -/

namespace View

/-- The view with `/` for every separator. -/
def restyled (v : View) : View where
  uri := v.uri
  root := unify [portable] v.root
  names := unify [portable] v.names
  separator := portable

/-- The root and the separator are such as paths have. -/
structure Sound (v : View) : Prop where
  root : Root.IsRoot v.root
  separator : isSeparator v.separator = true

@[simp] theorem restyled_restyled (v : View) : v.restyled.restyled = v.restyled := by
  simp [restyled]

theorem raw_restyled (v : View) : v.restyled.raw = unify [portable] v.raw :=
  (portable_append _ _).symm

@[simp] theorem isAbsolute_restyled (v : View) : v.restyled.isAbsolute = v.isAbsolute :=
  endsInSeparator_unify isSeparator_portable _

@[simp] theorem isEmpty_restyled (v : View) : v.restyled.isEmpty = v.isEmpty := by
  rw [Bool.eq_iff_iff]
  simp [isEmpty, restyled, unify_eq_nil_iff isSeparator_portable]

@[simp] theorem hasTrailingSeparator_restyled (v : View) :
    v.restyled.hasTrailingSeparator = v.hasTrailingSeparator :=
  endsInSeparator_unify isSeparator_portable _

theorem trimEnd_restyled (v : View) :
    trimEnd v.restyled.names = unify [portable] (trimEnd v.names) :=
  trimEnd_unify isSeparator_portable _

@[simp] theorem segments_restyled (v : View) : v.restyled.segments = v.segments := by
  rw [segments, trimEnd_restyled, pieces_unify isSeparator_portable, segments]

theorem relativeBounds_restyled (v : View) :
    relativeBounds v.restyled.names = relativeBounds v.names := by
  rw [relativeBounds, trimEnd_restyled, boundsFrom_unify isSeparator_portable, relativeBounds]

/-! ### Parts -/

theorem root_restyled_eq_nil_iff (v : View) : v.restyled.root = [] ↔ v.root = [] :=
  unify_eq_nil_iff isSeparator_portable _

theorem root?_restyled (v : View) : v.restyled.root? = v.root?.map restyled := by
  have hnil := v.root_restyled_eq_nil_iff
  unfold root?
  by_cases hroot : v.root = []
  · rw [if_pos (hnil.mpr hroot), if_pos hroot]
    rfl
  · rw [if_neg (hnil.not.mpr hroot), if_neg hroot]
    rfl

theorem part_restyled (v : View) (names : Text) :
    v.restyled.part (unify [portable] names) = (v.part names).restyled := rfl

theorem fileName_restyled (v : View) : v.restyled.fileName = v.fileName.restyled := by
  rw [fileName, trimEnd_restyled, lastPiece_unify isSeparator_portable, part_restyled]
  rfl

theorem parent?_restyled (v : View) : v.restyled.parent? = v.parent?.map restyled := by
  have hnil : trimEnd v.restyled.names = [] ↔ trimEnd v.names = [] := by
    rw [trimEnd_restyled, unify_eq_nil_iff isSeparator_portable]
  have hfront : beforeLastPiece (trimEnd v.restyled.names) =
      unify [portable] (beforeLastPiece (trimEnd v.names)) := by
    rw [trimEnd_restyled, beforeLastPiece_unify isSeparator_portable]
  unfold parent?
  rw [hfront, length_unify isSeparator_portable, dropLast_unify isSeparator_portable,
    root?_restyled]
  by_cases hempty : trimEnd v.names = []
  · rw [if_pos (hnil.mpr hempty), if_pos hempty]
    rfl
  · rw [if_neg (hnil.not.mpr hempty), if_neg hempty]
    split
    · rfl
    · rfl

end View

/-- The error with `/` for every separator in the text that it reports. -/
def RangeError.restyled : RangeError → RangeError
  | .outOfRange first last path => .outOfRange first last (unify [portable] path)
  | .step => .step

namespace View

/-- What is left of an attempt when its separators are all written as `/`. -/
def outcome (attempt : Except RangeError View) : Except RangeError View :=
  (attempt.map restyled).mapError RangeError.restyled

theorem display_restyled (v : View) :
    unify [portable] v.restyled.display = unify [portable] v.display := by
  rw [display, display, raw_restyled, portable_append, portable_append,
    portable_portable]
  rfl

theorem subpath_restyled (v : View) (first last : Int) :
    outcome (v.restyled.subpath first last) = outcome (v.subpath first last) := by
  have herror : RangeError.restyled (.outOfRange first last v.restyled.display) =
      RangeError.restyled (.outOfRange first last v.display) := by
    rw [RangeError.restyled, display_restyled]
    rfl
  unfold subpath
  rw [relativeBounds_restyled]
  extract_lets bounds
  split
  · exact congrArg Except.error herror
  · split
    · rfl
    · split
      · have hslice := slice_unify isSeparator_portable v.names
        have hview : ∀ i j, v.restyled.part (v.restyled.names.slice i j) =
            (v.part (v.names.slice i j)).restyled := fun i j => by
          rw [← part_restyled, ← hslice]
          rfl
        rw [hview]
        show Except.ok (restyled _) = Except.ok _
        rw [restyled_restyled]
      · exact congrArg Except.error herror

theorem range_restyled (v : View) (first? last? step? : Option Int) :
    outcome (v.restyled.range first? last? step?) = outcome (v.range first? last? step?) := by
  unfold range
  rw [relativeBounds_restyled]
  split
  · rfl
  · exact subpath_restyled v _ _

/-! ### Composition -/

theorem read_restyled (uri t : Text) (s : Char) :
    (read uri t s).restyled = read uri (unify [portable] t) portable := by
  unfold read
  rw [Root.length_unify isSeparator_portable, ← unify_take isSeparator_portable,
    ← unify_drop isSeparator_portable]
  rfl

theorem normalize_restyled {v : View} (hv : v.Sound) :
    v.restyled.normalize = v.normalize.restyled := by
  have hnames : ∀ n ∈ remainingNames v.isAbsolute v.segments, IsName n :=
    fun _ => isName_of_mem_remainingNames
  have hroot : unify [portable] (unify [v.separator] v.root) =
      unify [portable] (unify [portable] v.root) := by
    rw [portable_unify hv.separator, portable_portable]
  rw [normalize, normalize, read_restyled, portable_append, hroot,
    unify_spell hnames hv.separator isSeparator_portable, isAbsolute_restyled, segments_restyled,
    hasTrailingSeparator_restyled]
  rfl

theorem gap_restyled {v : View} (hv : v.Sound) : v.restyled.gap = unify [portable] v.gap := by
  have hnil : v.restyled.names = [] ↔ v.names = [] := unify_eq_nil_iff isSeparator_portable _
  have hone : unify [portable] [v.separator] = [portable] := by
    rw [unify_eq_map isSeparator_portable, List.map_singleton, restyle, if_pos hv.separator]
  unfold gap
  simp only [hasTrailingSeparator_restyled, ne_eq, hnil]
  split
  · exact hone.symm
  · rfl

theorem onDrive_restyled {v : View} (hv : v.Sound) (w : View) :
    (v.restyled.onDrive w.restyled).restyled = (v.onDrive w).restyled := by
  have hdrive := Root.afterDrive_unify isSeparator_portable v.root
  have htake := unify_take isSeparator_portable v.root (Root.afterDrive v.root)
  ext1
  · rfl
  · simp [onDrive, restyled, hdrive, ← htake, portable_append, portable_unify, hv.separator]
  · simp [onDrive, restyled, portable_unify, hv.separator]
  · rfl

/-- A root that no separator closes names its drive in either convention. -/
theorem driveName_restyled {v w : View} (hw : Root.IsRoot w.root) (hne : w.root ≠ [])
    (habs : w.isAbsolute = false) :
    Root.driveName v.restyled.root = Root.driveName w.restyled.root ↔
      Root.driveName v.root = Root.driveName w.root := by
  have hbare := hw.not_separator_of_not_endsInSeparator hne habs
  have hbefore := Root.before_unify isSeparator_portable
  have hsame := unify_of_forall_not isSeparator_portable hbare
  show Text.upper ((unify [portable] v.root).before driveColon) =
    Text.upper ((unify [portable] w.root).before driveColon) ↔ _
  rw [hbefore, hbefore, hsame]
  exact upper_unify_eq_iff isSeparator_portable hbare

/-- Whether a relative path leads to another drive is the same in either convention. -/
theorem otherDrive_restyled {v w : View} (hw : Root.IsRoot w.root) (habs : w.isAbsolute = false) :
    w.restyled.root ≠ [] ∧ (v.restyled.root = [] ∨
        Root.driveName v.restyled.root ≠ Root.driveName w.restyled.root) ↔
      w.root ≠ [] ∧ (v.root = [] ∨ Root.driveName v.root ≠ Root.driveName w.root) := by
  rw [ne_eq, root_restyled_eq_nil_iff, root_restyled_eq_nil_iff]
  apply and_congr_right
  intro hne
  rw [ne_eq, driveName_restyled hw hne habs]

theorem joined_restyled {v : View} (hv : v.Sound) (t : Text) :
    restyled { v.restyled with
        names := v.restyled.names ++ v.restyled.gap ++
          unify [v.restyled.separator] (unify [portable] t) } =
      restyled { v with names := v.names ++ v.gap ++ unify [v.separator] t } := by
  rw [gap_restyled hv]
  ext1
  · rfl
  · simp [restyled]
  · simp [restyled, portable_append, portable_unify, hv.separator]
  · rfl

theorem resolve_restyled {v w : View} (hv : v.Sound) (hw : w.Sound) :
    (v.restyled.resolve w.restyled).restyled = (v.resolve w).restyled := by
  have hnames : w.restyled.names = [] ↔ w.names = [] := unify_eq_nil_iff isSeparator_portable _
  have hlength : w.restyled.root.length = w.root.length := length_unify isSeparator_portable _
  have hdrive : Root.afterDrive v.restyled.root = Root.afterDrive v.root :=
    Root.afterDrive_unify isSeparator_portable _
  unfold resolve
  rw [isEmpty_restyled, isAbsolute_restyled, hlength, hdrive]
  cases v.isEmpty with
  | true => exact restyled_restyled w
  | false =>
      cases habs : w.isAbsolute with
      | true =>
          by_cases hbare : w.root.length = 1 ∧ 0 < Root.afterDrive v.root
          · simp only [if_pos hbare, if_true, Bool.false_eq_true, if_false]
            exact onDrive_restyled hv w
          · simp only [if_neg hbare, if_true, Bool.false_eq_true, if_false]
            exact restyled_restyled w
      | false =>
          -- the drives are compared here only, where the root of `w` is a drive and its colon
          simp only [Bool.false_eq_true, if_false, otherDrive_restyled hw.root habs, hnames]
          split
          · exact restyled_restyled w
          · split
            · exact restyled_restyled v
            · exact joined_restyled hv w.names

/-- A drive is left out in either convention or in none: it holds no separator. -/
theorem keptRoot_restyled {v : View} (hv : Root.IsRoot v.root) (w : View) :
    v.restyled.keptRoot w.restyled = unify [portable] (v.keptRoot w) := by
  have hbare := hv.not_separator_of_afterDrive
  have hdrive : Root.afterDrive v.restyled.root = Root.afterDrive v.root :=
    Root.afterDrive_unify isSeparator_portable _
  have hlength : w.restyled.root.length = w.root.length := length_unify isSeparator_portable _
  have htake : ∀ u : View, u.restyled.root.take (Root.afterDrive v.root) =
      unify [portable] (u.root.take (Root.afterDrive v.root)) := fun u =>
    (unify_take isSeparator_portable _ _).symm
  unfold keptRoot
  -- only the text of `w` may be rewritten: what is compared with it holds no separator
  simp only [hdrive, hlength, htake, unify_of_forall_not isSeparator_portable hbare,
    upper_unify_eq_iff isSeparator_portable hbare]
  split
  · exact (unify_drop isSeparator_portable _ _).symm
  · rfl

theorem relativize_restyled {v w : View} (hv : v.Sound) (hw : w.Sound) :
    (v.restyled.relativize w.restyled).restyled = (v.relativize w).restyled := by
  have hkey : ∀ u : View, Root.key u.restyled.root = Root.key u.root := fun u =>
    Root.key_unify isSeparator_portable _
  have hpieces : ∀ u : View, properPieces u.restyled.names = properPieces u.names := fun u =>
    properPieces_unify isSeparator_portable _
  unfold relativize
  rw [isEmpty_restyled, isEmpty_restyled, isAbsolute_restyled, hkey, hkey, hpieces, hpieces,
    keptRoot_restyled hv.root, hasTrailingSeparator_restyled]
  split
  · exact restyled_restyled w
  · extract_lets names
    have hnames : ∀ n ∈ names, IsName n := fun _ =>
      Path.isName_of_mem_way fun _ => isName_of_mem_properPieces
    split
    · ext1
      · rfl
      · rfl
      · show unify [portable] (spell portable _ _) = unify [portable] (spell w.separator _ _)
        rw [unify_spell hnames isSeparator_portable isSeparator_portable,
          unify_spell hnames hw.separator isSeparator_portable]
      · rfl
    · simp [restyled]

end View

/-! ## Meanings -/

/-- All that a path answers about itself, but for the convention of its separators. -/
structure Meaning where
  uri : Text
  portableText : Text
  rootEnd : Nat
  isAbsolute : Bool
  isEmpty : Bool
  hasTrailingSeparator : Bool
  nameCount : Nat
  names : List Text
deriving DecidableEq

def meaning (p : Path) : Meaning where
  uri := p.uri
  portableText := p.portableText
  rootEnd := p.rootEnd
  isAbsolute := p.isAbsolute
  isEmpty := p.isEmpty
  hasTrailingSeparator := p.hasTrailingSeparator
  nameCount := p.nameCount
  names := p.names

def View.meaning (v : View) : Meaning where
  uri := v.uri
  portableText := v.raw
  rootEnd := v.root.length
  isAbsolute := v.isAbsolute
  isEmpty := v.isEmpty
  hasTrailingSeparator := v.hasTrailingSeparator
  nameCount := v.segments.length
  names := v.segments

/-- What an attempt comes to, in meanings. -/
def outcome (attempt : Except RangeError Path) : Except RangeError Meaning :=
  (attempt.map meaning).mapError RangeError.restyled

namespace WellFormed

variable {p : Path} (hp : p.WellFormed)
include hp

theorem sound : p.view.Sound where
  root := hp.root
  separator := hp.separator

theorem meaning_eq : p.meaning = p.view.restyled.meaning := by
  have htext : p.portableText = p.view.restyled.raw := by
    rw [portableText, replaceChar_backslash, View.raw_restyled]
    rfl
  have hroot : p.rootEnd = p.view.restyled.root.length := by
    rw [← hp.length_rootText]
    exact (length_unify isSeparator_portable _).symm
  have hcount : p.nameCount = p.names.length := by
    rw [nameCount, names, List.length_map]
  unfold meaning View.meaning
  rw [htext, hroot, hcount, View.isAbsolute_restyled, View.isEmpty_restyled,
    View.hasTrailingSeparator_restyled, View.segments_restyled, hp.isAbsolute_view,
    hp.isEmpty_view, hp.hasTrailingSeparator_view, hp.segments_view]
  rfl

end WellFormed

theorem map_meaning {part : Option Path} (hpart : ∀ q, part = some q → q.WellFormed) :
    part.map meaning = ((part.map view).map View.restyled).map View.meaning := by
  cases part with
  | none => rfl
  | some q => exact congrArg some (hpart q rfl).meaning_eq

theorem outcome_eq {attempt : Except RangeError Path}
    (hattempt : ∀ q, attempt = .ok q → q.WellFormed) :
    outcome attempt = (View.outcome (attempt.map view)).map View.meaning := by
  cases attempt with
  | error e => rfl
  | ok q => exact congrArg Except.ok (hattempt q rfl).meaning_eq

/-- Whatever is asked of `p`, alone or together with `r`, has the meaning that it has for `q`,
alone or together with `s`. -/
structure MeansTheSame (p q r s : Path) : Prop where
  meaning : p.meaning = q.meaning
  root? : p.root?.map Path.meaning = q.root?.map Path.meaning
  parent? : p.parent?.map Path.meaning = q.parent?.map Path.meaning
  fileName : p.fileName.meaning = q.fileName.meaning
  get : ∀ index, outcome (p.get index) = outcome (q.get index)
  subpath : ∀ first last, outcome (p.subpath first last) = outcome (q.subpath first last)
  range : ∀ first? last? step?,
    outcome (p.range first? last? step?) = outcome (q.range first? last? step?)
  normalize : p.normalize.meaning = q.normalize.meaning
  resolve : (p.resolve r).meaning = (q.resolve s).meaning
  relativize : (p.relativize r).meaning = (q.relativize s).meaning

theorem meansTheSame_of_restyled {p q r s : Path} (hp : p.WellFormed) (hq : q.WellFormed)
    (hr : r.WellFormed) (hs : s.WellFormed) (hpq : p.view.restyled = q.view.restyled)
    (hrs : r.view.restyled = s.view.restyled) : MeansTheSame p q r s := by
  have hresolve : (p.resolve r).view.restyled = (q.resolve s).view.restyled := by
    rw [hp.view_resolve hr, hq.view_resolve hs, ← View.resolve_restyled hp.sound hr.sound, hpq, hrs,
      View.resolve_restyled hq.sound hs.sound]
  have hrelativize : (p.relativize r).view.restyled = (q.relativize s).view.restyled := by
    rw [hp.view_relativize hr, hq.view_relativize hs,
      ← View.relativize_restyled hp.sound hr.sound, hpq, hrs,
      View.relativize_restyled hq.sound hs.sound]
  have hsubpath : ∀ first last,
      outcome (p.subpath first last) = outcome (q.subpath first last) := by
    intro first last
    rw [outcome_eq fun _ => hp.subpath, outcome_eq fun _ => hq.subpath, hp.view_subpath,
      hq.view_subpath, ← View.subpath_restyled, hpq, View.subpath_restyled]
  constructor
  case meaning => rw [hp.meaning_eq, hq.meaning_eq, hpq]
  case root? =>
    rw [map_meaning fun _ => hp.ofRoot, map_meaning fun _ => hq.ofRoot, hp.view_root?,
      hq.view_root?, ← View.root?_restyled, ← View.root?_restyled, hpq]
  case parent? =>
    rw [map_meaning fun _ => hp.parent, map_meaning fun _ => hq.parent, hp.view_parent?,
      hq.view_parent?, ← View.parent?_restyled, ← View.parent?_restyled, hpq]
  case fileName =>
    rw [hp.fileName.meaning_eq, hq.fileName.meaning_eq, hp.view_fileName, hq.view_fileName,
      ← View.fileName_restyled, ← View.fileName_restyled, hpq]
  case get => exact fun index => hsubpath index (index + 1)
  case subpath => exact hsubpath
  case range =>
    intro first? last? step?
    rw [outcome_eq fun _ => hp.range, outcome_eq fun _ => hq.range, hp.view_range, hq.view_range,
      ← View.range_restyled, hpq, View.range_restyled]
  case normalize =>
    rw [hp.normalize.meaning_eq, hq.normalize.meaning_eq, hp.view_normalize, hq.view_normalize,
      ← View.normalize_restyled hp.sound, ← View.normalize_restyled hq.sound, hpq]
  case resolve => rw [(hp.resolve hr).meaning_eq, (hq.resolve hs).meaning_eq, hresolve]
  case relativize =>
    rw [(wellFormed_relativize p hr).meaning_eq, (wellFormed_relativize q hs).meaning_eq,
      hrelativize]

theorem restyled_view_parse (uri t : Text) :
    (parse uri t).view.restyled =
      View.read uri (t.replaceChar backslash [portable]) portable := by
  rw [parse, view_withRoot_length, View.read_restyled, replaceChar_backslash]

/-- Texts that differ in their separators only are read as paths that mean the same, and whatever is
done with one of them has the meaning that it has for the other.  In particular nothing is lost when
the text of a path is written in one convention and read again. -/
theorem meansTheSame_parse (uri other : Text) {t t' u u' : Text}
    (ht : t.replaceChar backslash [portable] = t'.replaceChar backslash [portable])
    (hu : u.replaceChar backslash [portable] = u'.replaceChar backslash [portable]) :
    MeansTheSame (parse uri t) (parse uri t') (parse other u) (parse other u') ∧
      MeansTheSame (parse uri (parse uri t).portableText) (parse uri t) (parse other u)
        (parse other u') ∧
      MeansTheSame (parse uri (parse uri t).nativeText) (parse uri t) (parse other u)
        (parse other u') := by
  have hsame : ∀ v w, v.replaceChar backslash [portable] = w.replaceChar backslash [portable] →
      MeansTheSame (parse uri v) (parse uri w) (parse other u) (parse other u') := by
    intro v w hvw
    apply meansTheSame_of_restyled (wellFormed_parse _ _) (wellFormed_parse _ _)
      (wellFormed_parse _ _) (wellFormed_parse _ _)
    · rw [restyled_view_parse, restyled_view_parse, hvw]
    · rw [restyled_view_parse, restyled_view_parse, hu]
  have hraw : (parse uri t).raw = t := raw_withRoot _ _ _ _
  refine ⟨hsame t t' ht, hsame _ t ?_, hsame _ t ?_⟩
  · rw [portableText, hraw, replaceChar_backslash, replaceChar_backslash, portable_portable]
  · rw [nativeText, hraw, replaceChar_backslash, replaceChar_backslash]
    exact portable_portable t

/-- `C:\a/..\b` means what `C:/a\../b` means, also together with `c:D\e` and with `c:D/e`. -/
theorem meansTheSame_parse_drives :
    Text.replaceChar "C:\\a/..\\b".toList backslash [portable] =
        Text.replaceChar "C:/a\\../b".toList backslash [portable] ∧
      Text.replaceChar "c:D\\e".toList backslash [portable] =
        Text.replaceChar "c:D/e".toList backslash [portable] ∧
      MeansTheSame (parse localUri "C:\\a/..\\b".toList) (parse localUri "C:/a\\../b".toList)
        (parse localUri "c:D\\e".toList) (parse localUri "c:D/e".toList) :=
  have hone : Text.replaceChar "C:\\a/..\\b".toList backslash [portable] =
      Text.replaceChar "C:/a\\../b".toList backslash [portable] := by decide
  have htwo : Text.replaceChar "c:D\\e".toList backslash [portable] =
      Text.replaceChar "c:D/e".toList backslash [portable] := by decide
  ⟨hone, htwo, (meansTheSame_parse localUri localUri hone htwo).1⟩

end Path

end LexicalPaths
