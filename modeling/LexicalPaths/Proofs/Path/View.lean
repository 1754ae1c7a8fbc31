import LexicalPaths.Path.Order
import LexicalPaths.Proofs.Path.Parts

/-!
# What is seen of a path

A path shows its filesystem, its root text, its names text and its separator.  Each operation on
paths is an operation on these four alone: what it does to the shared text and to its offsets stays
within the windows and cannot be seen.
-/

namespace LexicalPaths.Path

open Separator

/-- A path without a text to share: what can be seen of it. -/
@[ext] structure View where
  uri : Text
  root : Text
  names : Text
  separator : Char
deriving DecidableEq

def view (p : Path) : View where
  uri := p.uri
  root := p.rootText
  names := p.namesText
  separator := p.separator

namespace View

def raw (v : View) : Text :=
  v.root ++ v.names

def isAbsolute (v : View) : Bool :=
  endsInSeparator v.root

def isEmpty (v : View) : Bool :=
  v.root.isEmpty && v.names.isEmpty

def hasTrailingSeparator (v : View) : Bool :=
  endsInSeparator v.names

def segments (v : View) : List Text :=
  pieces (trimEnd v.names)

def display (v : View) : Text :=
  (if ['/', '/', '/'].isSuffixOf v.uri then v.uri.dropLast else v.uri) ++ v.raw

def root? (v : View) : Option View :=
  if v.root = [] then none else some { v with names := [] }

/-- Names of the path, as a path without a root. -/
def part (v : View) (names : Text) : View :=
  { v with root := [], names := names }

def fileName (v : View) : View :=
  v.part (lastPiece (trimEnd v.names))

def parent? (v : View) : Option View :=
  if trimEnd v.names = [] then none
  else if (beforeLastPiece (trimEnd v.names)).length ≤ 1 then v.root?
  else some { v with names := (beforeLastPiece (trimEnd v.names)).dropLast }

def subpath (v : View) (first last : Int) : Except RangeError View :=
  let bounds := relativeBounds v.names
  if first < 0 ∨ last < first ∨ (bounds.length : Int) < last then
    .error (.outOfRange first last v.display)
  else if first = last then .ok ⟨v.uri, [], [], portable⟩
  else
    match bounds[first.toNat]?, bounds[last.toNat - 1]? with
    | some (start, _), some (_, stop) => .ok (v.part (v.names.slice start stop))
    | _, _ => .error (.outOfRange first last v.display)

def range (v : View) (first? last? step? : Option Int) : Except RangeError View :=
  if step?.any (· != 1) then .error .step
  else v.subpath (first?.getD 0) (last?.getD (relativeBounds v.names).length)

/-- The view whose root is read from its text. -/
def read (uri text : Text) (separator : Char) : View where
  uri := uri
  root := text.take (Root.length text)
  names := text.drop (Root.length text)
  separator := separator

def normalize (v : View) : View :=
  read v.uri
    (unify [v.separator] v.root ++
      spell v.separator (remainingNames v.isAbsolute v.segments) v.hasTrailingSeparator)
    v.separator

/-- The separator that is missing between the names and further ones. -/
def gap (v : View) : Text :=
  if v.names ≠ [] ∧ v.hasTrailingSeparator = false then [v.separator] else []

/-- The place of a path with a bare root on the drive of `v`. -/
def onDrive (v w : View) : View where
  uri := v.uri
  root := v.root.take (Root.afterDrive v.root) ++ unify [v.separator] w.root
  names := unify [v.separator] w.names
  separator := detect (v.root.take (Root.afterDrive v.root) ++ unify [v.separator] w.raw)

def resolve (v w : View) : View :=
  if v.isEmpty then w
  else if w.isAbsolute then
    if w.root.length = 1 ∧ 0 < Root.afterDrive v.root then v.onDrive w else w
  else if w.root ≠ [] ∧ (v.root = [] ∨ Root.driveName v.root ≠ Root.driveName w.root) then w
  else if w.names = [] then v
  else { v with names := v.names ++ v.gap ++ unify [v.separator] w.names }

def keptRoot (v w : View) : Text :=
  let drive := Root.afterDrive v.root
  if 0 < drive ∧ drive ≤ w.root.length ∧
      Text.upper (w.root.take drive) = Text.upper (v.root.take drive) then
    w.root.drop drive
  else w.root

def relativize (v w : View) : View :=
  if v.isEmpty ∨ v.isAbsolute ∧ w.isEmpty then w
  else if Root.key v.root = Root.key w.root then
    let names := way (properPieces v.names) (properPieces w.names)
    ⟨v.uri, [], spell w.separator names w.hasTrailingSeparator, w.separator⟩
  else ⟨v.uri, v.keptRoot w, w.names, detect (v.keptRoot w ++ w.names)⟩

end View

theorem view_withRoot (uri t : Text) (n : Nat) (s : Char) :
    (withRoot uri t n s).view = ⟨uri, t.take n, t.drop n, s⟩ := by
  ext1 <;> simp [view]
  · rfl
  · rfl

theorem view_withRoot_length (uri t : Text) (s : Char) :
    (withRoot uri t (Root.length t) s).view = View.read uri t s :=
  view_withRoot uri t _ s

@[simp] theorem uri_view (p : Path) : p.view.uri = p.uri := rfl

@[simp] theorem root_view (p : Path) : p.view.root = p.rootText := rfl

@[simp] theorem names_view (p : Path) : p.view.names = p.namesText := rfl

@[simp] theorem separator_view (p : Path) : p.view.separator = p.separator := rfl

theorem take_rootText {p : Path} {n : Nat} (hn : n ≤ p.rootEnd) :
    p.rootText.take n = p.text.take n := by
  rw [rootText, List.take_take, Nat.min_eq_left hn]

theorem raw_view (p : Path) : p.view.raw = p.raw := rfl

/-! ## Navigation -/

namespace WellFormed

variable {p : Path} (hp : p.WellFormed)
include hp

theorem isAbsolute_view : p.view.isAbsolute = p.isAbsolute :=
  hp.isAbsolute_eq.symm

theorem hasTrailingSeparator_view : p.view.hasTrailingSeparator = p.hasTrailingSeparator :=
  hp.hasTrailingSeparator_eq.symm

theorem isEmpty_view : p.view.isEmpty = p.isEmpty := by
  rw [Bool.eq_iff_iff, hp.isEmpty_iff]
  simp [View.isEmpty, view]

theorem segments_view : p.view.segments = p.names :=
  hp.names_eq.symm

theorem view_root? : p.root?.map view = p.view.root? := by
  unfold root? View.root?
  by_cases hzero : p.rootEnd = 0
  · simp [hzero, hp.rootText_eq_nil_iff.mpr hzero]
  · rw [if_neg hzero, root_view, if_neg (hp.rootText_eq_nil_iff.not.mpr hzero)]
    simp [view, rootText, namesText, Text.slice]

theorem view_fileName : p.fileName.view = p.view.fileName := by
  ext1
  · rfl
  · rfl
  · exact hp.namesText_fileName
  · rfl

theorem namesEnd_le_start_iff : p.namesEnd ≤ p.start ↔ trimEnd p.view.names = [] := by
  have hstart := hp.start_le_namesEnd
  rw [names_view, ← List.length_eq_zero_iff, hp.length_trimEnd]
  omega

theorem nameStart_le_iff :
    p.nameStart p.namesEnd ≤ p.start + 1 ↔
      (beforeLastPiece (trimEnd p.view.names)).length ≤ 1 := by
  rw [names_view, hp.nameStart_namesEnd]
  omega

theorem view_parent? : p.parent?.map view = p.view.parent? := by
  unfold parent? View.parent?
  by_cases hnil : trimEnd p.view.names = []
  · rw [if_pos (hp.namesEnd_le_start_iff.mpr hnil), if_pos hnil]
    rfl
  rw [if_neg (hp.namesEnd_le_start_iff.not.mpr hnil), if_neg hnil]
  by_cases hone : (beforeLastPiece (trimEnd p.view.names)).length ≤ 1
  · rw [if_pos (hp.nameStart_le_iff.mpr hone), if_pos hone, hp.view_root?]
  · rw [if_neg (hp.nameStart_le_iff.not.mpr hone), if_neg hone, Option.map_some]
    congr 1
    ext1
    · rfl
    · rfl
    · exact hp.slice_parent (Nat.lt_of_not_le hone)
    · rfl

theorem le_of_mem_relativeBounds {b : Nat × Nat} (hb : b ∈ relativeBounds p.view.names) :
    p.start + b.2 ≤ p.stop := by
  have hwithin := (boundsFrom_within (Nat.le_refl 0) (trimEnd p.namesText)).1 b hb
  have hlen := hp.length_trimEnd
  have hstart := hp.start_le_namesEnd
  have hstop : p.namesEnd ≤ p.stop := by
    unfold namesEnd
    split <;> omega
  omega

theorem view_subpath (first last : Int) :
    (p.subpath first last).map view = p.view.subpath first last := by
  have hbounds := hp.nameBounds_eq
  rw [← names_view] at hbounds
  unfold Path.subpath View.subpath
  simp only [hbounds, List.length_map, List.getElem?_map]
  by_cases hbad : first < 0 ∨ last < first ∨ ((relativeBounds p.view.names).length : Int) < last
  · rw [if_pos hbad, if_pos hbad]
    rfl
  rw [if_neg hbad, if_neg hbad]
  by_cases heq : first = last
  · rw [if_pos heq, if_pos heq]
    rfl
  rw [if_neg heq, if_neg heq]
  cases hone : (relativeBounds p.view.names)[first.toNat]? with
  | none => rfl
  | some b =>
      cases htwo : (relativeBounds p.view.names)[last.toNat - 1]? with
      | none => rfl
      | some e =>
          have hle := hp.le_of_mem_relativeBounds (List.mem_of_getElem? htwo)
          have hslice := slice_slice p.text (a := b.1) hle
          simp only [Option.map_some, Except.map, Except.ok.injEq]
          ext1
          · rfl
          · rfl
          · exact hslice.symm
          · rfl

theorem view_range (first? last? step? : Option Int) :
    (p.range first? last? step?).map view = p.view.range first? last? step? := by
  unfold Path.range View.range
  split
  · rfl
  · rw [hp.view_subpath, hp.nameCount_eq]
    rfl

theorem view_namePaths : p.namePaths.map view = p.view.segments.map p.view.part := by
  rw [hp.segments_view]
  simp [namePaths, names, view, View.part, rootText, namesText]

/-! ## Composition -/

theorem view_normalize : p.normalize.view = p.view.normalize := by
  rw [normalize_eq, view_withRoot_length, normalText, keptNames]
  unfold View.normalize
  rw [hp.isAbsolute_view, hp.segments_view, hp.hasTrailingSeparator_view]
  rfl

theorem gap_view : p.view.gap = p.gap := by
  rw [hp.gap_eq, View.gap, hp.hasTrailingSeparator_view, hp.hasTrailingSeparator_eq]
  rfl

theorem view_appended (t : Text) :
    (p.appended t).view =
      { p.view with names := p.namesText ++ p.view.gap ++ unify [p.separator] t } := by
  ext1
  · rfl
  · exact hp.rootText_appended t
  · rw [hp.gap_view]
    exact hp.namesText_appended t
  · rfl

/-- Roots that are the same text name the same drive, so the names of the drives decide. -/
theorem compatibleRoots_eq_false_iff {q : Path} (hq : q.WellFormed) (hroot : q.rootText ≠ []) :
    compatibleRoots p.root? q.root? = false ↔
      p.rootText = [] ∨ Root.driveName p.rootText ≠ Root.driveName q.rootText := by
  cases hother : q.root? with
  | none => exact absurd (hq.root?_eq_none_iff_rootText.mp hother) hroot
  | some other =>
      cases hmine : p.root? with
      | none => simp [compatibleRoots, hp.root?_eq_none_iff_rootText.mp hmine]
      | some root =>
          have hne : p.rootText ≠ [] := fun hnil => by
            rw [hp.root?_eq_none_iff_rootText.mpr hnil] at hmine
            contradiction
          have hsame : root.same other = true →
              Root.driveName p.rootText = Root.driveName q.rootText := by
            intro hsame
            unfold same at hsame
            simp only [Bool.and_eq_true, beq_iff_eq] at hsame
            rw [← raw_of_root? hmine, ← raw_of_root? hother, raw, raw, hsame.1.2, hsame.2]
          rw [compatibleRoots, raw_of_root? hmine, raw_of_root? hother]
          simp only [Bool.or_eq_false_iff, beq_eq_false_iff_ne, hne, false_or]
          constructor
          · exact fun h => h.2
          · exact fun h => ⟨Bool.eq_false_iff.mpr fun hs => h (hsame hs), h⟩

/-- A bare root is behind the drive of the path that it is resolved against. -/
theorem view_resolve_of_drive {q : Path} (hq : q.WellFormed) (habs : q.isAbsolute = true)
    (hone : q.rootText.length = 1) (hdrive : 0 < Root.afterDrive p.rootText) :
    (p.resolve q).view = p.view.onDrive q.view := by
  obtain ⟨d, r, hroot, -, hr⟩ := hp.root.exists_drive hdrive
  have hend : q.rootEnd = 1 := by rw [← hq.length_rootText, hone]
  obtain ⟨c, hc, hraw⟩ := hq.exists_cons_of_bareRoot habs hend
  have hother : q.rootText = [c] := List.append_cancel_right hraw
  have htake : p.rootText.take (Root.afterDrive p.rootText) = d ++ [driveColon] := by
    rw [hroot, Root.take_afterDrive d hr]
  have hstyle : unify [p.separator] [c] = [p.separator] := by
    rw [unify_cons hp.separator, restyle, if_pos hc]
    rfl
  obtain ⟨hplace, hnames⟩ :=
    windows_behindDrive p.uri d q.namesText hp.separator hc
  rw [resolve_of_drive hp habs hend hroot hr, hraw, View.onDrive]
  simp only [uri_view, root_view, names_view, separator_view, raw_view, htake, hother, hstyle]
  ext1
  · rfl
  · rw [root_view, hplace]
    simp
  · exact hnames
  · rw [hraw]
    exact congrArg detect (List.append_cons d driveColon _)

theorem view_resolve {q : Path} (hq : q.WellFormed) :
    (p.resolve q).view = p.view.resolve q.view := by
  unfold View.resolve
  rw [hp.isEmpty_view, hq.isAbsolute_view]
  cases hempty : p.isEmpty with
  | true => simp [resolve_of_isEmpty hempty]
  | false =>
      rw [if_neg Bool.false_ne_true]
      cases habs : q.isAbsolute with
      | true =>
          by_cases hdrive : q.view.root.length = 1 ∧ 0 < Root.afterDrive p.view.root
          · rw [if_pos rfl, if_pos hdrive, hp.view_resolve_of_drive hq habs hdrive.1 hdrive.2]
          · rw [if_pos rfl, if_neg hdrive, resolve_of_isAbsolute hempty habs]
            rwa [← hq.length_rootText]
      | false =>
          rw [if_neg Bool.false_ne_true]
          by_cases hother : q.view.root ≠ [] ∧
              (p.view.root = [] ∨ Root.driveName p.view.root ≠ Root.driveName q.view.root)
          · have hfalse := (hp.compatibleRoots_eq_false_iff hq hother.1).mpr hother.2
            have hzero := hq.rootText_eq_nil_iff.not.mp hother.1
            rw [if_pos hother, resolve_of_otherDrive hempty habs hzero hfalse]
          · have hroots : q.rootEnd ≠ 0 → compatibleRoots p.root? q.root? = true := by
              intro hzero
              have hne := hq.rootText_eq_nil_iff.not.mpr hzero
              apply eq_true_of_ne_false
              intro hfalse
              exact hother ⟨hne, (hp.compatibleRoots_eq_false_iff hq hne).mp hfalse⟩
            rw [if_neg hother, resolve_of_relative hempty habs hroots]
            by_cases hnil : q.view.names = []
            · rw [if_pos hnil, if_pos (hq.namesText_eq_nil_iff.mp hnil)]
            · rw [if_neg hnil, if_neg (hq.namesText_eq_nil_iff.not.mp hnil), hp.view_appended]
              rfl

theorem keptRoot_view {q : Path} (hq : q.WellFormed) : p.keptRoot q = p.view.keptRoot q.view := by
  unfold Path.keptRoot View.keptRoot
  change (if 0 < Root.afterDrive p.rootText ∧ Root.afterDrive p.rootText ≤ q.rootEnd ∧
    Text.upper (q.text.take (Root.afterDrive p.rootText)) =
      Text.upper (p.text.take (Root.afterDrive p.rootText)) then _ else _) = _
  apply if_congr _ rfl rfl
  rw [root_view, root_view, hq.length_rootText, take_rootText hp.afterDrive_le]
  exact and_congr_right fun _ => and_congr_right fun hlong => by rw [take_rootText hlong]

theorem view_relativize {q : Path} (hq : q.WellFormed) :
    (p.relativize q).view = p.view.relativize q.view := by
  unfold View.relativize
  rw [hp.isEmpty_view, hq.isEmpty_view, hp.isAbsolute_view]
  by_cases hempty : p.isEmpty = true ∨ p.isAbsolute = true ∧ q.isEmpty = true
  · rw [relativize_of_isEmpty hempty, if_pos hempty]
  rw [if_neg hempty, root_view, root_view, ← rootKey_eq, ← rootKey_eq]
  by_cases hkey : p.rootKey = q.rootKey
  · rw [relativize_of_rootKey hempty hkey, if_pos hkey, view_withRoot, hp.properNames_eq,
      hq.properNames_eq, hq.hasTrailingSeparator_view]
    rfl
  · rw [relativize_of_rootKey_ne hempty hkey, if_neg hkey, view_withRoot, hp.keptRoot_view hq,
      List.take_left, List.drop_left]
    rfl

end WellFormed

/-! ## The shared text is invisible -/

/-- Whatever is asked of `p`, alone or together with `r`, is answered as it is for `q`, alone or
together with `s`. -/
structure Indistinguishable (p q r s : Path) : Prop where
  root? : p.root?.map view = q.root?.map view
  parent? : p.parent?.map view = q.parent?.map view
  fileName : p.fileName.view = q.fileName.view
  names : p.names = q.names
  nameCount : p.nameCount = q.nameCount
  namePaths : p.namePaths.map view = q.namePaths.map view
  get : ∀ index, (p.get index).map view = (q.get index).map view
  subpath : ∀ first last, (p.subpath first last).map view = (q.subpath first last).map view
  range : ∀ first? last? step?,
    (p.range first? last? step?).map view = (q.range first? last? step?).map view
  normalize : p.normalize.view = q.normalize.view
  isAbsolute : p.isAbsolute = q.isAbsolute
  isEmpty : p.isEmpty = q.isEmpty
  hasTrailingSeparator : p.hasTrailingSeparator = q.hasTrailingSeparator
  raw : p.raw = q.raw
  portableText : p.portableText = q.portableText
  nativeText : p.nativeText = q.nativeText
  order : p.order r = q.order s
  orderOf : r.order p = s.order q
  resolve : (p.resolve r).view = (q.resolve s).view
  resolveOf : (r.resolve p).view = (s.resolve q).view
  relativize : (p.relativize r).view = (q.relativize s).view
  relativizeOf : (r.relativize p).view = (s.relativize q).view

theorem beq_of_view_eq {p q : Path} (hview : p.view = q.view) : (p == q) = true := by
  have huri := congrArg View.uri hview
  have hroot := congrArg View.root hview
  have hnames := congrArg View.names hview
  rw [uri_view, uri_view] at huri
  rw [root_view, root_view] at hroot
  rw [names_view, names_view] at hnames
  change p.same q = true
  simp [same, huri, hroot, hnames]

theorem order_congr {p q r s : Path} (hpq : p.view = q.view) (hrs : r.view = s.view) :
    p.order r = q.order s := by
  have hleft : p.order r = (Text.order p.view.uri r.view.uri).then
      ((Text.order p.view.root r.view.root).then (Text.order p.view.names r.view.names)) := rfl
  rw [hleft, hpq, hrs]
  rfl

/-- Paths that show the same cannot be told apart, whatever texts they share with other paths and
wherever their windows lie in them. -/
theorem indistinguishable_of_view_eq {p q r s : Path} (hp : Reachable p) (hq : Reachable q)
    (hr : Reachable r) (hs : Reachable s) (hpq : p.view = q.view) (hrs : r.view = s.view) :
    Indistinguishable p q r s := by
  have hp := hp.wellFormed
  have hq := hq.wellFormed
  have hr := hr.wellFormed
  have hs := hs.wellFormed
  have hraw : p.raw = q.raw := congrArg View.raw hpq
  have hnames : p.namesText = q.namesText := congrArg View.names hpq
  have hsubpath : ∀ first last,
      (p.subpath first last).map view = (q.subpath first last).map view := by
    intro first last
    rw [hp.view_subpath, hq.view_subpath, hpq]
  exact {
    root? := by rw [hp.view_root?, hq.view_root?, hpq]
    parent? := by rw [hp.view_parent?, hq.view_parent?, hpq]
    fileName := by rw [hp.view_fileName, hq.view_fileName, hpq]
    names := by rw [← hp.segments_view, ← hq.segments_view, hpq]
    nameCount := by rw [hp.nameCount_eq, hq.nameCount_eq, hnames]
    namePaths := by rw [hp.view_namePaths, hq.view_namePaths, hpq]
    get := fun index => hsubpath index (index + 1)
    subpath := hsubpath
    range := fun first? last? step? => by rw [hp.view_range, hq.view_range, hpq]
    normalize := by rw [hp.view_normalize, hq.view_normalize, hpq]
    isAbsolute := by rw [← hp.isAbsolute_view, ← hq.isAbsolute_view, hpq]
    isEmpty := by rw [← hp.isEmpty_view, ← hq.isEmpty_view, hpq]
    hasTrailingSeparator := by
      rw [← hp.hasTrailingSeparator_view, ← hq.hasTrailingSeparator_view, hpq]
    raw := hraw
    portableText := by rw [portableText, portableText, hraw]
    nativeText := by rw [nativeText, nativeText, hraw]
    order := order_congr hpq hrs
    orderOf := order_congr hrs hpq
    resolve := by rw [hp.view_resolve hr, hq.view_resolve hs, hpq, hrs]
    resolveOf := by rw [hr.view_resolve hp, hs.view_resolve hq, hpq, hrs]
    relativize := by rw [hp.view_relativize hr, hq.view_relativize hs, hpq, hrs]
    relativizeOf := by rw [hr.view_relativize hp, hs.view_relativize hq, hpq, hrs] }

/-- The name `C:x` is the same wherever it was found, and so is the name `a`. -/
theorem indistinguishable_fileNames :
    (parse localUri "/q/C:x".toList).fileName.view =
        (parse localUri "./b\\C:x/".toList).fileName.view ∧
      (parse localUri "D:\\c\\a".toList).fileName.view =
        (parse localUri "\\a\\".toList).fileName.view ∧
      Indistinguishable (parse localUri "/q/C:x".toList).fileName
        (parse localUri "./b\\C:x/".toList).fileName (parse localUri "D:\\c\\a".toList).fileName
        (parse localUri "\\a\\".toList).fileName :=
  have hname : (parse localUri "/q/C:x".toList).fileName.view =
      (parse localUri "./b\\C:x/".toList).fileName.view := by decide
  have hother : (parse localUri "D:\\c\\a".toList).fileName.view =
      (parse localUri "\\a\\".toList).fileName.view := by decide
  ⟨hname, hother, indistinguishable_of_view_eq (.fileName (.parse _ _)) (.fileName (.parse _ _))
    (.fileName (.parse _ _)) (.fileName (.parse _ _)) hname hother⟩

end LexicalPaths.Path
