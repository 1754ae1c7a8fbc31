import LexicalPaths.Proofs.Path.Checked

/-!
# No operation reaches beyond its text

On the paths that a program can hold no check of an offset fails, so the checked operations are the
operations themselves.  The errors that are left are those that navigation reports about the numbers
it is given.
-/

namespace LexicalPaths.Path

open Separator

/-! ## Operations that succeed -/

theorem checked_made {p : Path} (hp : p.WellFormed) : Checked.made p = .ok p := by
  rw [Checked.made, Checked.cut_eq (Nat.zero_le _) hp.rootEnd_le, Checked.ok_bind,
    Checked.cut_eq hp.start_le hp.stop_le, Checked.ok_bind]

theorem checked_parse (uri t : Text) : Checked.parse uri t = .ok (parse uri t) := by
  rw [Checked.parse, Checked.rootLength_eq, Checked.ok_bind]
  exact checked_made (wellFormed_parse uri t)

theorem checked_nameStart (p : Path) {i : Nat} (hi : i ≤ p.text.length) :
    Checked.nameStart p i = .ok (p.nameStart i) := by
  induction i with
  | zero => rfl
  | succ i ih =>
      unfold Checked.nameStart Path.nameStart
      split
      next hlt =>
        obtain ⟨c, hread, hc⟩ := Checked.exists_charBefore (Nat.succ_pos i) hi
        -- the walk goes on only behind the start of the names, so it never reads before the text
        rw [hread, Checked.ok_bind, hc, ih (by omega)]
        cases p.separatorBefore (i + 1) with
        | true => simp
        | false => simp [hlt]
      next hle => simp [hle]

namespace WellFormed

variable {p : Path} (hp : p.WellFormed)
include hp

theorem checked_rootText : Checked.rootText p = .ok p.rootText :=
  Checked.cut_eq (Nat.zero_le _) hp.rootEnd_le

theorem checked_namesText : Checked.namesText p = .ok p.namesText :=
  Checked.cut_eq hp.start_le hp.stop_le

theorem checked_raw : Checked.raw p = .ok p.raw := by
  rw [Checked.raw, hp.checked_rootText, Checked.ok_bind, hp.checked_namesText, Checked.ok_bind]
  rfl

theorem checked_display : Checked.display p = .ok p.display := by
  rw [Checked.display, hp.checked_raw]
  rfl

theorem checked_isAbsolute : Checked.isAbsolute p = .ok p.isAbsolute := by
  unfold Checked.isAbsolute Path.isAbsolute
  split
  next hzero => simp [hzero]
  next hne =>
    obtain ⟨c, hread, hc⟩ := Checked.exists_charBefore (Nat.pos_of_ne_zero hne) hp.rootEnd_le
    rw [hread, Checked.ok_bind, hc]
    simp [hne]

theorem checked_hasTrailingSeparator :
    Checked.hasTrailingSeparator p = .ok p.hasTrailingSeparator := by
  unfold Checked.hasTrailingSeparator Path.hasTrailingSeparator
  split
  next hlt =>
    obtain ⟨c, hread, hc⟩ := Checked.exists_charBefore (Nat.zero_lt_of_lt hlt) hp.stop_le
    rw [hread, Checked.ok_bind, hc]
    simp [hlt]
  next hle => simp [hle]

theorem checked_namesEnd : Checked.namesEnd p = .ok p.namesEnd := by
  rw [Checked.namesEnd, hp.checked_hasTrailingSeparator, Checked.ok_bind, Path.namesEnd]
  split <;> rfl

theorem checked_root? : Checked.root? p = .ok p.root? := by
  unfold Checked.root? Path.root?
  split
  · rfl
  next hne =>
    have hroot := hp.ofRoot (if_neg hne)
    rw [checked_made hroot]
    rfl

theorem checked_fileName : Checked.fileName p = .ok p.fileName := by
  rw [Checked.fileName, hp.checked_namesEnd, Checked.ok_bind, checked_nameStart p hp.namesEnd_le,
    Checked.ok_bind]
  exact checked_made hp.fileName

theorem checked_parent? : Checked.parent? p = .ok p.parent? := by
  rw [Checked.parent?, hp.checked_namesEnd, Checked.ok_bind, checked_nameStart p hp.namesEnd_le,
    Checked.ok_bind, hp.checked_root?]
  have hparent := fun q => hp.parent (q := q)
  unfold Path.parent? at hparent ⊢
  split
  · rfl
  · split
    · rfl
    next hpos hfront =>
      rw [if_neg hpos, if_neg hfront] at hparent
      rw [checked_made (hparent _ rfl)]
      rfl

theorem checked_nameBounds : Checked.nameBounds p = .ok p.nameBounds := by
  have hstart := hp.start_le_namesEnd
  have hstop := hp.namesEnd_le
  have hspan : p.start + (p.namesEnd - p.start) = p.namesEnd := by omega
  rw [Checked.nameBounds, hp.checked_namesEnd, Checked.ok_bind,
    Checked.boundsFrom_eq (by omega), hspan]
  rfl

theorem checked_names : Checked.names p = .ok p.names := by
  rw [Checked.names, hp.checked_nameBounds, Checked.ok_bind]
  apply Checked.mapM_eq
  intro b hb
  obtain ⟨-, hle, hstop⟩ := hp.le_of_mem_nameBounds hb
  exact Checked.cut_eq hle hstop

theorem checked_nameCount : Checked.nameCount p = .ok p.nameCount := by
  rw [Checked.nameCount, hp.checked_nameBounds]
  rfl

theorem checked_namePaths : Checked.namePaths p = .ok p.namePaths := by
  rw [Checked.namePaths, hp.checked_nameBounds, Checked.ok_bind]
  apply Checked.mapM_eq
  intro b hb
  obtain ⟨-, hle, hstop⟩ := hp.le_of_mem_nameBounds hb
  exact checked_made (hp.part hle hstop)

theorem checked_subpath (first last : Int) :
    Checked.subpath p first last = (p.subpath first last).mapError .range := by
  have hpart : ∀ q, p.subpath first last = .ok q → q.WellFormed := fun _ => hp.subpath
  unfold Path.subpath at hpart ⊢
  unfold Checked.subpath
  rw [hp.checked_nameBounds, Checked.ok_bind]
  by_cases hbad : first < 0 ∨ last < first ∨ (p.nameBounds.length : Int) < last
  · simp only [if_pos hbad]
    rw [hp.checked_display]
    rfl
  simp only [if_neg hbad] at hpart ⊢
  by_cases heq : first = last
  · simp only [if_pos heq]
    rw [checked_parse]
    rfl
  have hfirst : first.toNat < p.nameBounds.length := by omega
  have hlast : last.toNat - 1 < p.nameBounds.length := by omega
  simp only [if_neg heq, List.getElem?_eq_getElem hfirst, List.getElem?_eq_getElem hlast]
    at hpart ⊢
  rw [Checked.entry_eq hfirst, Checked.ok_bind, Checked.entry_eq hlast, Checked.ok_bind,
    checked_made (hpart _ rfl)]
  rfl

theorem checked_range (first? last? step? : Option Int) :
    Checked.range p first? last? step? = (p.range first? last? step?).mapError .range := by
  unfold Checked.range Path.range
  split
  · rfl
  · cases last? with
    | some last => exact hp.checked_subpath _ _
    | none =>
        rw [hp.checked_nameCount]
        exact hp.checked_subpath _ _

/-! ## Composition that succeeds -/

theorem checked_ownRoot :
    Checked.ownRoot p = .ok (match p.root? with
      | some root => unify [p.separator] root.raw
      | none => []) := by
  rw [Checked.ownRoot, hp.checked_root?, Checked.ok_bind]
  cases hroot : p.root? with
  | none => rfl
  | some root =>
      show (Checked.raw root >>= fun text => Except.ok (unify [p.separator] text)) = _
      rw [(hp.ofRoot hroot).checked_raw]
      rfl

theorem checked_normalize : Checked.normalize p = .ok p.normalize := by
  rw [Checked.normalize, hp.checked_isAbsolute, Checked.ok_bind, hp.checked_names, Checked.ok_bind,
    hp.checked_hasTrailingSeparator, Checked.ok_bind, hp.checked_ownRoot, Checked.ok_bind]
  extract_lets text
  rw [Checked.rootLength_eq, Checked.ok_bind]
  exact checked_made hp.normalize

theorem checked_same {q : Path} (hq : q.WellFormed) : Checked.same p q = .ok (p.same q) := by
  rw [Checked.same, hp.checked_rootText, hq.checked_rootText, hp.checked_namesText,
    hq.checked_namesText]
  rfl

theorem checked_compatibleRoots {q : Path} (hq : q.WellFormed) :
    Checked.compatibleRoots p.root? q.root? = .ok (compatibleRoots p.root? q.root?) := by
  cases hmine : p.root? with
  | none => cases q.root? <;> rfl
  | some root =>
      cases hother : q.root? with
      | none => rfl
      | some other =>
          have hone := hp.ofRoot hmine
          have htwo := hq.ofRoot hother
          rw [Checked.compatibleRoots, hone.checked_same htwo, Checked.ok_bind, hone.checked_raw,
            Checked.ok_bind, htwo.checked_raw, compatibleRoots]
          cases root.same other with
          | true => rfl
          | false => rfl

theorem checked_gap : Checked.gap p = .ok p.gap := by
  unfold Checked.gap Path.gap
  split
  next hlt =>
    obtain ⟨c, hread, hc⟩ := Checked.exists_charBefore (Nat.zero_lt_of_lt hlt) hp.stop_le
    rw [hread, Checked.ok_bind, hc]
    cases p.separatorBefore p.stop with
    | true => simp
    | false => simp [hlt]
  next hle => simp [hle]

theorem checked_resolve {q : Path} (hq : q.WellFormed) :
    Checked.resolve p q = .ok (p.resolve q) := by
  have hmade := checked_made (hp.resolve hq)
  unfold Checked.resolve
  rw [hq.checked_root?, Checked.ok_bind, hp.checked_rootText, Checked.ok_bind]
  extract_lets drive
  by_cases hempty : p.isEmpty = true
  · rw [if_pos hempty, resolve_of_isEmpty hempty]
  rw [if_neg hempty, hq.checked_isAbsolute, Checked.ok_bind]
  rw [Bool.not_eq_true] at hempty
  cases habs : q.isAbsolute with
  | true =>
      rw [if_pos rfl]
      by_cases hdrive : q.rootEnd = 1 ∧ 0 < drive
      · have hle : drive ≤ p.text.length := Nat.le_trans hp.afterDrive_le hp.rootEnd_le
        rw [if_pos hdrive, Checked.cut_eq (Nat.zero_le _) hle, Checked.ok_bind, hq.checked_raw,
          Checked.ok_bind]
        rw [resolve_of_bareRoot hempty habs hdrive.1 hdrive.2] at hmade ⊢
        exact hmade
      · rw [if_neg hdrive, resolve_of_isAbsolute hempty habs hdrive]
  | false =>
      have hsome : q.root?.isSome = true ↔ q.rootEnd ≠ 0 := by
        rw [Option.isSome_iff_ne_none, ne_eq, root?_eq_none_iff]
      rw [if_neg Bool.false_ne_true, hp.checked_root?, Checked.ok_bind,
        hp.checked_compatibleRoots hq, Checked.ok_bind]
      by_cases hother : q.root?.isSome = true ∧ compatibleRoots p.root? q.root? = false
      · rw [if_pos hother, resolve_of_otherDrive hempty habs (hsome.mp hother.1) hother.2]
      · have hroots : q.rootEnd ≠ 0 → compatibleRoots p.root? q.root? = true := fun hne =>
          eq_true_of_ne_false fun hfalse => hother ⟨hsome.mpr hne, hfalse⟩
        rw [resolve_of_relative hempty habs hroots] at hmade ⊢
        rw [if_neg hother]
        by_cases hnone : q.start = q.stop
        · rw [if_pos hnone, if_pos hnone]
        · rw [if_neg hnone] at hmade
          rw [if_neg hnone, if_neg hnone, hp.checked_raw, Checked.ok_bind, hp.checked_gap,
            Checked.ok_bind, hq.checked_namesText, Checked.ok_bind]
          exact hmade

theorem checked_rootKey : Checked.rootKey p = .ok p.rootKey := by
  rw [Checked.rootKey, hp.checked_root?, Checked.ok_bind, Path.rootKey]
  cases hroot : p.root? with
  | none => rfl
  | some root =>
      show (Checked.raw root >>= fun text => Except.ok (Root.key text)) = _
      rw [(hp.ofRoot hroot).checked_raw]
      rfl

theorem checked_keptRoot {q : Path} (hq : q.WellFormed) :
    Checked.keptRoot p q = .ok (p.keptRoot q) := by
  rw [Checked.keptRoot, hp.checked_rootText, Checked.ok_bind, hq.checked_rootText]
  extract_lets drive
  unfold Path.keptRoot
  change _ = Except.ok (if 0 < drive ∧ drive ≤ q.rootEnd ∧
    Text.upper (q.text.take drive) = Text.upper (p.text.take drive) then _ else _)
  by_cases hdrive : 0 < drive ∧ drive ≤ q.rootEnd
  · have hmine : drive ≤ p.text.length := Nat.le_trans hp.afterDrive_le hp.rootEnd_le
    have htheirs : drive ≤ q.text.length := Nat.le_trans hdrive.2 hq.rootEnd_le
    rw [if_pos hdrive, Checked.cut_eq (Nat.zero_le _) htheirs, Checked.ok_bind,
      Checked.cut_eq (Nat.zero_le _) hmine, Checked.ok_bind]
    simp only [hdrive, true_and]
    by_cases hsame : Text.upper (q.text.take drive) = Text.upper (p.text.take drive)
    · rw [if_pos hsame]
      exact (if_pos hsame).trans (Checked.cut_eq hdrive.2 hq.rootEnd_le)
    · rw [if_neg hsame]
      exact if_neg hsame
  · rw [if_neg hdrive, if_neg fun h => hdrive ⟨h.1, h.2.1⟩]

theorem checked_properNames : Checked.properNames p = .ok p.properNames := by
  rw [Checked.properNames, hp.checked_names]
  rfl

theorem checked_relativize {q : Path} (hq : q.WellFormed) :
    Checked.relativize p q = .ok (p.relativize q) := by
  have hmade := checked_made (wellFormed_relativize p hq)
  unfold Path.relativize at hmade ⊢
  unfold Checked.relativize
  by_cases hempty : p.isEmpty = true
  · rw [if_pos hempty, if_pos hempty]
  rw [if_neg hempty] at hmade ⊢
  rw [if_neg hempty, hp.checked_isAbsolute, Checked.ok_bind]
  by_cases hnone : (p.isAbsolute && q.isEmpty) = true
  · rw [if_pos hnone, if_pos hnone]
  rw [if_neg hnone] at hmade ⊢
  rw [if_neg hnone, hp.checked_rootKey, Checked.ok_bind, hq.checked_rootKey, Checked.ok_bind]
  by_cases hkey : p.rootKey ≠ q.rootKey
  · rw [if_pos hkey] at hmade ⊢
    rw [if_pos hkey, hp.checked_keptRoot hq, Checked.ok_bind, hq.checked_namesText, Checked.ok_bind]
    exact hmade
  · rw [if_neg hkey] at hmade ⊢
    rw [if_neg hkey, hp.checked_properNames, Checked.ok_bind, hq.checked_properNames,
      Checked.ok_bind, hq.checked_hasTrailingSeparator]
    exact hmade

end WellFormed

/-! ## Numbers of names -/

/-- The names from number `first` up to number `last` are names of the path. -/
def HasNames (p : Path) (first last : Int) : Prop :=
  0 ≤ first ∧ first ≤ last ∧ last ≤ p.nameCount

/-- A range of names fails for one reason only. -/
theorem subpath_eq_error_iff (p : Path) (first last : Int) (e : RangeError) :
    p.subpath first last = .error e ↔
      ¬ p.HasNames first last ∧ e = .outOfRange first last p.display := by
  unfold subpath HasNames nameCount
  by_cases hbad : first < 0 ∨ last < first ∨ (p.nameBounds.length : Int) < last
  · have hnone : ¬ (0 ≤ first ∧ first ≤ last ∧ last ≤ (p.nameBounds.length : Int)) := by omega
    simp only [if_pos hbad, Except.error.injEq, hnone, not_false_eq_true, true_and]
    exact eq_comm
  have hnames : 0 ≤ first ∧ first ≤ last ∧ last ≤ (p.nameBounds.length : Int) := by omega
  simp only [if_neg hbad, hnames, and_self, not_true_eq_false, false_and, iff_false]
  by_cases heq : first = last
  · simp [heq]
  have hfirst : first.toNat < p.nameBounds.length := by omega
  have hlast : last.toNat - 1 < p.nameBounds.length := by omega
  simp [heq, List.getElem?_eq_getElem hfirst, List.getElem?_eq_getElem hlast]

theorem get_eq_error_iff (p : Path) (index : Int) (e : RangeError) :
    p.get index = .error e ↔
      ¬ (0 ≤ index ∧ index < p.nameCount) ∧ e = .outOfRange index (index + 1) p.display := by
  have hnames : p.HasNames index (index + 1) ↔ 0 ≤ index ∧ index < p.nameCount := by
    unfold HasNames
    omega
  rw [get, subpath_eq_error_iff, hnames]

theorem range_eq_error_iff (p : Path) (first? last? step? : Option Int) (e : RangeError) :
    p.range first? last? step? = .error e ↔
      (∃ step, step? = some step ∧ step ≠ 1) ∧ e = .step ∨
      (∀ step, step? = some step → step = 1) ∧
        ¬ p.HasNames (first?.getD 0) (last?.getD p.nameCount) ∧
        e = .outOfRange (first?.getD 0) (last?.getD p.nameCount) p.display := by
  have hcases : step?.any (· != 1) = true ↔ ∃ step, step? = some step ∧ step ≠ 1 := by
    cases step? <;> simp
  unfold range
  by_cases hstep : ∃ step, step? = some step ∧ step ≠ 1
  · have hnot : ¬ ∀ step, step? = some step → step = 1 := by
      obtain ⟨step, hsome, hne⟩ := hstep
      exact fun h => hne (h step hsome)
    rw [if_pos (hcases.mpr hstep)]
    simp only [hstep, hnot, true_and, false_and, or_false, Except.error.injEq]
    exact eq_comm
  · have hone : ∀ step, step? = some step → step = 1 := by
      intro step hsome
      by_contra hne
      exact hstep ⟨step, hsome, hne⟩
    rw [if_neg (hcases.not.mpr hstep), subpath_eq_error_iff]
    simp only [hstep, false_and, false_or]
    exact (and_iff_right hone).symm

/-- Every offset that an operation on `p` uses is there, and what navigation reports are bad
numbers of names and bad steps. -/
structure Faultless (p : Path) : Prop where
  rootText : Checked.rootText p = .ok p.rootText
  namesText : Checked.namesText p = .ok p.namesText
  raw : Checked.raw p = .ok p.raw
  isAbsolute : Checked.isAbsolute p = .ok p.isAbsolute
  hasTrailingSeparator : Checked.hasTrailingSeparator p = .ok p.hasTrailingSeparator
  root? : Checked.root? p = .ok p.root?
  fileName : Checked.fileName p = .ok p.fileName
  parent? : Checked.parent? p = .ok p.parent?
  names : Checked.names p = .ok p.names
  nameCount : Checked.nameCount p = .ok p.nameCount
  namePaths : Checked.namePaths p = .ok p.namePaths
  get : ∀ index, Checked.get p index = (p.get index).mapError .range
  subpath : ∀ first last, Checked.subpath p first last = (p.subpath first last).mapError .range
  range : ∀ first? last? step?,
    Checked.range p first? last? step? = (p.range first? last? step?).mapError .range
  normalize : Checked.normalize p = .ok p.normalize
  resolve : ∀ q, Reachable q → Checked.resolve p q = .ok (p.resolve q)
  relativize : ∀ q, Reachable q → Checked.relativize p q = .ok (p.relativize q)
  get_error : ∀ index e, p.get index = .error e ↔
    ¬ (0 ≤ index ∧ index < p.nameCount) ∧ e = .outOfRange index (index + 1) p.display
  subpath_error : ∀ first last e, p.subpath first last = .error e ↔
    ¬ p.HasNames first last ∧ e = .outOfRange first last p.display
  range_error : ∀ first? last? step? e, p.range first? last? step? = .error e ↔
    (∃ step, step? = some step ∧ step ≠ 1) ∧ e = .step ∨
    (∀ step, step? = some step → step = 1) ∧
      ¬ p.HasNames (first?.getD 0) (last?.getD p.nameCount) ∧
      e = .outOfRange (first?.getD 0) (last?.getD p.nameCount) p.display

theorem WellFormed.faultless {p : Path} (hp : p.WellFormed) : p.Faultless := by
  constructor
  case rootText => exact hp.checked_rootText
  case namesText => exact hp.checked_namesText
  case raw => exact hp.checked_raw
  case isAbsolute => exact hp.checked_isAbsolute
  case hasTrailingSeparator => exact hp.checked_hasTrailingSeparator
  case root? => exact hp.checked_root?
  case fileName => exact hp.checked_fileName
  case parent? => exact hp.checked_parent?
  case names => exact hp.checked_names
  case nameCount => exact hp.checked_nameCount
  case namePaths => exact hp.checked_namePaths
  case get => exact fun index => hp.checked_subpath index (index + 1)
  case subpath => exact hp.checked_subpath
  case range => exact hp.checked_range
  case normalize => exact hp.checked_normalize
  case resolve => exact fun q hq => hp.checked_resolve hq.wellFormed
  case relativize => exact fun q hq => hp.checked_relativize hq.wellFormed
  case get_error => exact p.get_eq_error_iff
  case subpath_error => exact p.subpath_eq_error_iff
  case range_error => exact p.range_eq_error_iff

/-- The windows of every path that a program can hold lie within its text, one behind the other and
the first of them on a root, and so no operation on it uses an offset that is not there. -/
theorem windows_of_reachable {p : Path} (hp : Reachable p) :
    p.WellFormed ∧ p.rootEnd ≤ p.start ∧ p.Faultless ∧
      ∀ uri t, Checked.parse uri t = .ok (parse uri t) := by
  have hwf := hp.wellFormed
  have hstart : p.rootEnd ≤ p.start := by
    rcases hwf.apart with hzero | hsame
    · omega
    · omega
  exact ⟨hwf, hstart, hwf.faultless, checked_parse⟩

/-- The way from `C:/a` to `c:b` drops the drive and cuts the root at it. -/
theorem windows_of_dropped_drive :
    ((parse localUri "C:/a".toList).relativize (parse localUri "c:b".toList)).WellFormed ∧
      ((parse localUri "C:/a".toList).relativize (parse localUri "c:b".toList)).Faultless :=
  have hwindows := windows_of_reachable
    (.relativize (.parse localUri "C:/a".toList) (.parse localUri "c:b".toList))
  ⟨hwindows.1, hwindows.2.2.1⟩

end LexicalPaths.Path
