import LexicalPaths.Proofs.Path.Window

/-!
# Composition

What resolution and relativization give, case by case, and the windows of what they give: text
that is appended to a path leaves its root alone, and a bare root takes over the drive of the path
that it is resolved against.
-/

namespace LexicalPaths.Path

open Separator

/-! ## Resolution -/

/-- The separator that is written between the names of a path and those appended to it. -/
def gap (p : Path) : Text :=
  if decide (p.start < p.stop) && !p.separatorBefore p.stop then [p.separator] else []

/-- A path with more text behind its names. -/
def appended (p : Path) (t : Text) : Path :=
  let text := p.raw ++ p.gap ++ unify [p.separator] t
  { p with text := text, start := p.rootEnd, stop := text.length }

/-- The path behind the drive `d` whose text starts with a separator. -/
def behindDrive (uri d : Text) (separator : Char) (t : Text) : Path :=
  let text := d ++ driveColon :: unify [separator] t
  withRoot uri text (d.length + 2) (detect text)

theorem resolve_of_isEmpty {p : Path} (hp : p.isEmpty = true) (q : Path) : p.resolve q = q := by
  simp [resolve, hp]

theorem not_isEmpty_of_rootText {p : Path} (hp : p.WellFormed) (hroot : p.rootText ≠ []) :
    p.isEmpty = false := by
  rw [← Bool.not_eq_true, hp.isEmpty_iff]
  exact fun h => hroot h.1

theorem take_drive {p : Path} (hp : p.WellFormed) {d r : Text}
    (hroot : p.rootText = d ++ driveColon :: r) :
    p.text.take (d.length + 1) = d ++ [driveColon] := by
  have hlen := hp.length_rootText
  rw [hroot, List.length_append, List.length_cons] at hlen
  have hcut : p.rootText.take (d.length + 1) = p.text.take (d.length + 1) := by
    rw [rootText, List.take_take, Nat.min_eq_left (by omega)]
  have hlast : d.length + 1 = (d ++ [driveColon]).length := by simp
  rw [← hcut, hroot, List.append_cons, hlast, List.take_left]

/-- A path with a bare root is put behind the drive, whose text ends with the last colon. -/
theorem resolve_of_bareRoot {p q : Path} (hp : p.isEmpty = false) (hq : q.isAbsolute = true)
    (hone : q.rootEnd = 1) (hdrive : 0 < Root.afterDrive p.rootText) :
    let text := p.text.take (Root.afterDrive p.rootText) ++ unify [p.separator] q.raw
    p.resolve q = withRoot p.uri text (Root.afterDrive p.rootText + 1) (detect text) := by
  change 0 < Root.afterDrive (p.text.take p.rootEnd) at hdrive
  unfold resolve
  simp only [hp, hq, hone, hdrive, Bool.false_eq_true, if_false, if_true, and_self]
  rfl

/-- A single separator as its root leaves an absolute path without a drive of its own. -/
theorem resolve_of_drive {p q : Path} (hp : p.WellFormed) (hq : q.isAbsolute = true)
    (hone : q.rootEnd = 1) {d r : Text} (hroot : p.rootText = d ++ driveColon :: r)
    (hr : IsRun r) : p.resolve q = behindDrive p.uri d p.separator q.raw := by
  have hempty := not_isEmpty_of_rootText hp (by simp [hroot])
  have hdrive : Root.afterDrive p.rootText = d.length + 1 := by
    rw [hroot, Root.afterDrive_drive hr]
  have hpos : 0 < Root.afterDrive p.rootText := by omega
  rw [resolve_of_bareRoot hempty hq hone hpos, hdrive, take_drive hp hroot, behindDrive,
    List.append_assoc]
  rfl

theorem resolve_of_isAbsolute {p q : Path} (hp : p.isEmpty = false) (hq : q.isAbsolute = true)
    (hdrive : ¬ (q.rootEnd = 1 ∧ 0 < Root.afterDrive p.rootText)) : p.resolve q = q := by
  change ¬ (q.rootEnd = 1 ∧ 0 < Root.afterDrive (p.text.take p.rootEnd)) at hdrive
  simp [resolve, hp, hq, hdrive]

theorem resolve_of_otherDrive {p q : Path} (hp : p.isEmpty = false) (hq : q.isAbsolute = false)
    (hroot : q.rootEnd ≠ 0) (hdrive : compatibleRoots p.root? q.root? = false) :
    p.resolve q = q := by
  simp [resolve, hp, hq, hroot, hdrive]

theorem resolve_of_relative {p q : Path} (hp : p.isEmpty = false) (hq : q.isAbsolute = false)
    (hroot : q.rootEnd ≠ 0 → compatibleRoots p.root? q.root? = true) :
    p.resolve q = if q.start = q.stop then p else p.appended q.namesText := by
  have hsame : ¬ (q.rootEnd ≠ 0 ∧ compatibleRoots p.root? q.root? = false) := by
    rintro ⟨hne, hnot⟩
    simp [hroot hne] at hnot
  unfold resolve
  simp only [hp, hq, Bool.false_eq_true, if_false, if_neg hsame]
  rfl

/-! ## Relativization -/

/-- The names that lead from one list of names to another: up to what both share, and down. -/
def way (mine theirs : List Text) : List Text :=
  List.replicate (mine.length - commonNames mine theirs) parentName ++
    theirs.drop (commonNames mine theirs)

theorem relativize_of_isEmpty {p q : Path}
    (hempty : p.isEmpty = true ∨ p.isAbsolute = true ∧ q.isEmpty = true) :
    p.relativize q = q := by
  unfold relativize
  rcases hempty with hp | ⟨habs, hq⟩
  · rw [if_pos hp]
  · simp [habs, hq]

theorem relativize_of_rootKey {p q : Path}
    (hempty : ¬ (p.isEmpty = true ∨ p.isAbsolute = true ∧ q.isEmpty = true))
    (hkey : p.rootKey = q.rootKey) :
    p.relativize q = withRoot p.uri
      (spell q.separator (way p.properNames q.properNames) q.hasTrailingSeparator) 0
      q.separator := by
  obtain ⟨hp, hq⟩ := not_or.mp hempty
  rw [← Bool.and_eq_true] at hq
  unfold relativize
  rw [if_neg hp, if_neg hq, if_neg (not_not_intro hkey)]
  rfl

theorem relativize_of_rootKey_ne {p q : Path}
    (hempty : ¬ (p.isEmpty = true ∨ p.isAbsolute = true ∧ q.isEmpty = true))
    (hkey : p.rootKey ≠ q.rootKey) :
    p.relativize q = withRoot p.uri (p.keptRoot q ++ q.namesText) (p.keptRoot q).length
      (detect (p.keptRoot q ++ q.namesText)) := by
  obtain ⟨hp, hq⟩ := not_or.mp hempty
  rw [← Bool.and_eq_true] at hq
  unfold relativize
  rw [if_neg hp, if_neg hq, if_pos hkey]

/-! ## Windows -/

/-- The drive is the root together with the separator behind it. -/
theorem windows_behindDrive (uri d t : Text) {s c : Char} (hs : isSeparator s = true)
    (hc : isSeparator c = true) :
    (behindDrive uri d s (c :: t)).rootText = d ++ [driveColon, s] ∧
      (behindDrive uri d s (c :: t)).namesText = unify [s] t := by
  have hlast : d.length + 2 = (d ++ [driveColon, s]).length := by simp
  have hsplit : d ++ driveColon :: unify [s] (c :: t) = d ++ [driveColon, s] ++ unify [s] t := by
    simp [unify_cons hs, restyle, hc]
  rw [behindDrive, rootText_withRoot, namesText_withRoot, hsplit, hlast]
  exact ⟨List.take_left, List.drop_left⟩

theorem wellFormed_behindDrive {uri d t : Text} {s c : Char} (hd : Root.IsDriveName d)
    (hs : isSeparator s = true) (hc : isSeparator c = true) :
    (behindDrive uri d s (c :: t)).WellFormed := by
  have hroot : (behindDrive uri d s (c :: t)).rootText = d ++ [driveColon, s] :=
    (windows_behindDrive uri d t hs hc).1
  refine wellFormed_withRoot ?_ (isSeparator_detect _) ?_
  · rw [unify_cons hs]
    simp
  · change Root.IsRoot (behindDrive uri d s (c :: t)).rootText
    rw [hroot]
    exact .drive hd (by simpa [IsRun] using hs)

theorem isRoot_keptRoot (p : Path) {q : Path} (hq : q.WellFormed) : Root.IsRoot (p.keptRoot q) := by
  unfold keptRoot
  extract_lets drive
  split
  · exact hq.root.drop drive
  · exact hq.root

namespace WellFormed

variable {p : Path} (hp : p.WellFormed)
include hp

theorem exists_cons_of_bareRoot (habs : p.isAbsolute = true) (hone : p.rootEnd = 1) :
    ∃ c, isSeparator c = true ∧ p.raw = c :: p.namesText := by
  obtain ⟨c, hc⟩ : ∃ c, p.rootText = [c] :=
    List.length_eq_one_iff.mp (by rw [hp.length_rootText, hone])
  rw [hp.isAbsolute_eq, hc] at habs
  exact ⟨c, by simpa [endsInSeparator] using habs, by rw [raw, hc]; rfl⟩

theorem gap_eq :
    p.gap =
      if p.namesText ≠ [] ∧ endsInSeparator p.namesText = false then [p.separator] else [] := by
  have hle := hp.start_le
  unfold gap
  by_cases hlt : p.start < p.stop
  · have hne : p.namesText ≠ [] := fun hnil => by
      have heq := hp.namesText_eq_nil_iff.mp hnil
      omega
    rw [separatorBefore_eq hlt hp.stop_le]
    change (if (decide (p.start < p.stop) && !endsInSeparator p.namesText) = true then _ else _) = _
    simp [hlt, hne]
  · have hnil : p.namesText = [] := hp.namesText_eq_nil_iff.mpr (by omega)
    simp [hlt, hnil]

theorem rootText_appended (t : Text) : (p.appended t).rootText = p.rootText := by
  show (p.raw ++ p.gap ++ unify [p.separator] t).take p.rootEnd = p.rootText
  rw [raw, List.append_assoc, List.append_assoc, ← hp.length_rootText, List.take_left]

theorem namesText_appended (t : Text) :
    (p.appended t).namesText = p.namesText ++ p.gap ++ unify [p.separator] t := by
  change ((p.raw ++ p.gap ++ unify [p.separator] t).take
    (p.raw ++ p.gap ++ unify [p.separator] t).length).drop p.rootEnd = _
  rw [List.take_length, raw, List.append_assoc, List.append_assoc, ← hp.length_rootText,
    List.drop_left, List.append_assoc]

theorem appended (t : Text) : (p.appended t).WellFormed := by
  have hraw : p.rootEnd ≤ p.raw.length := by
    rw [raw, List.length_append, hp.length_rootText]
    omega
  have hle : p.rootEnd ≤ (p.raw ++ p.gap ++ unify [p.separator] t).length := by
    rw [List.length_append, List.length_append]
    omega
  exact ⟨hle, hle, Nat.le_refl _, .inr rfl, hp.separator, hp.rootText_appended t ▸ hp.root⟩

theorem properNames_appended (t : Text) :
    (p.appended t).properNames = p.properNames ++ properPieces t := by
  have hs := hp.separator
  rw [(hp.appended t).properNames_eq, hp.namesText_appended, hp.properNames_eq, hp.gap_eq]
  by_cases hnil : p.namesText = []
  · have hnone : properPieces [] = [] := rfl
    simp [hnil, hnone, properPieces_unify hs]
  · cases hend : endsInSeparator p.namesText with
    | false =>
        rw [if_pos ⟨hnil, rfl⟩, List.append_assoc, List.singleton_append,
          properPieces_append_cons hs, properPieces_unify hs]
    | true =>
        obtain ⟨u, c, heq, hc⟩ := exists_of_endsInSeparator hend
        rw [if_neg (by simp), heq, List.append_nil, List.append_assoc, List.singleton_append,
          properPieces_append_cons hc, properPieces_append_singleton hc, properPieces_unify hs]

theorem resolve {q : Path} (hq : q.WellFormed) : (p.resolve q).WellFormed := by
  by_cases hempty : p.isEmpty = true
  · rwa [resolve_of_isEmpty hempty]
  rw [Bool.not_eq_true] at hempty
  cases habs : q.isAbsolute with
  | false =>
      by_cases hdrive : q.rootEnd ≠ 0 ∧ compatibleRoots p.root? q.root? = false
      · rwa [resolve_of_otherDrive hempty habs hdrive.1 hdrive.2]
      · rw [resolve_of_relative hempty habs fun hne => by simpa [hne] using hdrive]
        split
        · exact hp
        · exact hp.appended _
  | true =>
      by_cases hdrive : q.rootEnd = 1 ∧ 0 < Root.afterDrive p.rootText
      · obtain ⟨hone, hpos⟩ := hdrive
        obtain ⟨d, r, hroot, hd, hr⟩ := hp.root.exists_drive hpos
        obtain ⟨c, hc, hraw⟩ := hq.exists_cons_of_bareRoot habs hone
        rw [resolve_of_drive hp habs hone hroot hr, hraw]
        exact wellFormed_behindDrive hd hp.separator hc
      · rwa [resolve_of_isAbsolute hempty habs hdrive]

omit hp in
/-- A path without a root is appended, unless there is nothing to append. -/
theorem resolve_of_rootText_nil {q : Path} (hq : q.WellFormed) (hempty : p.isEmpty = false)
    (hroot : q.rootText = []) :
    p.resolve q = if q.namesText = [] then p else p.appended q.namesText := by
  have hzero := hq.rootText_eq_nil_iff.mp hroot
  rw [resolve_of_relative hempty (hq.isAbsolute_of_rootText_nil hroot) fun hne => absurd hzero hne]
  simp only [hq.namesText_eq_nil_iff]

omit hp in
theorem uri_resolve_of_rootText_nil {q : Path} (hq : q.WellFormed) (hempty : p.isEmpty = false)
    (hroot : q.rootText = []) : (p.resolve q).uri = p.uri := by
  rw [resolve_of_rootText_nil hq hempty hroot]
  split <;> rfl

theorem rootText_resolve_of_rootText_nil {q : Path} (hq : q.WellFormed)
    (hempty : p.isEmpty = false) (hroot : q.rootText = []) :
    (p.resolve q).rootText = p.rootText := by
  rw [resolve_of_rootText_nil hq hempty hroot]
  split
  · rfl
  · exact hp.rootText_appended _

theorem hasTrailingSeparator_resolve_of_rootText_nil {q : Path} (hq : q.WellFormed)
    (hempty : p.isEmpty = false) (hroot : q.rootText = []) (hne : q.namesText ≠ []) :
    (p.resolve q).hasTrailingSeparator = q.hasTrailingSeparator := by
  rw [(hp.resolve hq).hasTrailingSeparator_eq, hq.hasTrailingSeparator_eq,
    resolve_of_rootText_nil hq hempty hroot, if_neg hne, hp.namesText_appended,
    endsInSeparator_append ((unify_eq_nil_iff hp.separator q.namesText).not.mpr hne),
    endsInSeparator_unify hp.separator]

theorem properNames_resolve_of_rootText_nil {q : Path} (hq : q.WellFormed)
    (hempty : p.isEmpty = false) (hroot : q.rootText = []) :
    (p.resolve q).properNames = p.properNames ++ q.properNames := by
  rw [resolve_of_rootText_nil hq hempty hroot, hq.properNames_eq]
  split
  next hnil => simp [hnil, properPieces, pieces]
  next => exact hp.properNames_appended _

end WellFormed

theorem wellFormed_relativize (p : Path) {q : Path} (hq : q.WellFormed) :
    (p.relativize q).WellFormed := by
  by_cases hempty : p.isEmpty = true ∨ p.isAbsolute = true ∧ q.isEmpty = true
  · rwa [relativize_of_isEmpty hempty]
  · by_cases hkey : p.rootKey = q.rootKey
    · rw [relativize_of_rootKey hempty hkey]
      exact wellFormed_withRoot (Nat.zero_le _) hq.separator Root.isRoot_nil
    · rw [relativize_of_rootKey_ne hempty hkey]
      apply wellFormed_withRoot (by simp) (isSeparator_detect _)
      rw [List.take_left]
      exact isRoot_keptRoot p hq

end LexicalPaths.Path
