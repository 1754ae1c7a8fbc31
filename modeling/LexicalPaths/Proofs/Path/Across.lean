import LexicalPaths.Proofs.Path.Appending

/-!
# Targets across roots and filesystems

Between different roots no names lead from a base to a target, and relativization answers the target
itself, without its drive if the base names the same one.  Resolution appends what is left if no
separator stands where the drive was, and puts the drive back in front of a single one.  With more
separators the answer is taken for a path of its own, and the drive is lost.

The filesystem of the target is lost in any case: what relativization answers lies on the filesystem
of the base, and so does everything that resolution makes of it.
-/

namespace LexicalPaths

namespace Root

open Separator

/-! ## Roots on one drive -/

/-- The root `other` begins with the drive of `root`, up to case. -/
def SharesDrive (root other : Text) : Prop :=
  0 < afterDrive root ∧ afterDrive root ≤ other.length ∧
    Text.upper (other.take (afterDrive root)) = Text.upper (root.take (afterDrive root))

instance (root other : Text) : Decidable (SharesDrive root other) :=
  inferInstanceAs (Decidable (_ ∧ _ ∧ _))

/-- The root `other` is on the drive of `root`, with more than one separator behind the drive. -/
def Overruns (root other : Text) : Prop :=
  SharesDrive root other ∧ afterDrive root + 1 < other.length

/-- The two roots are the drives `d` and `e`, which differ in case only, and the separators `r` and
`t` behind them. -/
structure OnDrives (root other d r e t : Text) : Prop where
  root : root = d ++ driveColon :: r
  other : other = e ++ driveColon :: t
  isDriveName : IsDriveName d
  isDriveName_other : IsDriveName e
  isRun : IsRun r
  isRun_other : IsRun t
  length : e.length = d.length
  upper : Text.upper e = Text.upper d

theorem upper_of_isRun {r : Text} (hr : IsRun r) : Text.upper r = r := by
  induction r with
  | nil => rfl
  | cons c r ih =>
      have hc := upperChar_of_isSeparator (hr c List.mem_cons_self)
      rw [← List.singleton_append, upper_append, ih fun x hx => hr x (List.mem_cons_of_mem c hx)]
      simp [Text.upper, hc]

theorem driveColon_mem_of_upper {d b : Text}
    (hupper : Text.upper b = Text.upper d ++ [driveColon]) : driveColon ∈ b := by
  -- no other character becomes a colon in upper case
  apply Text.mem_of_mem_upper (by decide)
  rw [hupper]
  simp

/-- A beginning that is a drive in upper case stops at the colon. -/
theorem drive_eq_of_upper_take {d e t : Text} (he : IsDriveName e) (ht : IsRun t)
    (hle : d.length + 1 ≤ (e ++ driveColon :: t).length)
    (hupper : Text.upper ((e ++ driveColon :: t).take (d.length + 1)) =
      Text.upper d ++ [driveColon]) :
    e.length = d.length ∧ Text.upper e = Text.upper d := by
  have hshort : e.length ≤ d.length := by
    by_contra hlong
    have hcolon := driveColon_mem_of_upper hupper
    rw [List.take_append_of_le_length (by omega)] at hcolon
    exact (he _ (List.mem_of_mem_take hcolon)).2 rfl
  obtain ⟨k, hk⟩ := Nat.exists_eq_add_of_le hshort
  have htake : (e ++ driveColon :: t).take (d.length + 1) = e ++ driveColon :: t.take k := by
    rw [hk, Nat.add_assoc, List.take_length_add_append, List.take_succ_cons]
  have hrun : IsRun (t.take k) := fun c hc => ht c (List.mem_of_mem_take hc)
  rw [htake, List.append_cons, upper_append, upper_append, upper_singleton_driveColon,
    upper_of_isRun hrun] at hupper
  -- a separator behind the colon would end the beginning in a separator
  have hnil : t.take k = [] := by
    by_contra hne
    have hends := congrArg endsInSeparator hupper
    rw [endsInSeparator_append hne, endsInSeparator_append (List.cons_ne_nil _ _),
      endsInSeparator_of_isRun hrun hne] at hends
    exact absurd hends (by decide)
  rw [hnil, List.append_nil] at hupper
  refine ⟨?_, List.append_cancel_right hupper⟩
  rw [List.length_append, List.length_cons] at hle
  rcases List.take_eq_nil_iff.mp hnil with rfl | rfl
  · exact hk.symm
  · rw [List.length_nil] at hle
    omega

theorem SharesDrive.exists_onDrives {root other : Text} (hroot : IsRoot root)
    (hother : IsRoot other) (hshare : SharesDrive root other) :
    ∃ d r e t, OnDrives root other d r e t := by
  obtain ⟨hdrive, hle, hupper⟩ := hshare
  obtain ⟨d, r, rfl, hd, hr⟩ := hroot.exists_drive hdrive
  rw [take_afterDrive d hr, upper_append, upper_singleton_driveColon] at hupper
  rw [afterDrive_drive hr] at hle hupper
  cases hother with
  | run hrun =>
      have hcolon := List.mem_of_mem_take (driveColon_mem_of_upper hupper)
      exact absurd hcolon (driveColon_notMem_of_isRun hrun)
  | @drive e t he ht =>
      obtain ⟨hlength, hsame⟩ := drive_eq_of_upper_take he ht hle hupper
      exact ⟨d, r, e, t, rfl, rfl, hd, he, hr, ht, hlength, hsame⟩

namespace OnDrives

variable {root other d r e t : Text} (hdrives : OnDrives root other d r e t)
include hdrives

theorem afterDrive_eq : afterDrive root = d.length + 1 := by
  rw [hdrives.root, afterDrive_drive hdrives.isRun]

theorem drop_afterDrive : other.drop (afterDrive root) = t := by
  rw [hdrives.afterDrive_eq, hdrives.other, ← hdrives.length, ← List.drop_drop, List.drop_left]
  rfl

theorem length_other : other.length = afterDrive root + t.length := by
  rw [hdrives.afterDrive_eq, hdrives.other, ← hdrives.length, List.length_append, List.length_cons]
  omega

theorem overruns_iff (hshare : SharesDrive root other) : Overruns root other ↔ 1 < t.length := by
  have hlength := hdrives.length_other
  constructor
  · intro hover
    have hlong := hover.2
    omega
  · intro hlong
    exact ⟨hshare, by omega⟩

theorem continues_of_nil (hnil : t = []) : Continues root other := by
  refine ⟨?_, .inr ⟨?_, ?_⟩⟩
  · rw [hdrives.other, endsInSeparator_drive, hnil]
    rfl
  · simp [hdrives.root]
  · rw [hdrives.root, hdrives.other, driveName, driveName, before_drive hdrives.isDriveName,
      before_drive hdrives.isDriveName_other, hdrives.upper]

theorem key_ne : key t ≠ key other := by
  intro hkey
  have hother : IsRoot other := hdrives.other ▸ .drive hdrives.isDriveName_other hdrives.isRun_other
  have hrun := (isRun_of_key_eq hdrives.isRun_other hother hkey).1
  apply driveColon_notMem_of_isRun hrun
  rw [hdrives.other]
  simp

end OnDrives

end Root

namespace Path

open Separator

namespace View

/-! ## Views of one place -/

/-- Two views of the same place. -/
abbrev Matches (v w : View) : Prop :=
  AgreeBy uri (fun view => Root.key view.root) segments v w

theorem Matches.refl (v : View) : v.Matches v :=
  ⟨rfl, rfl, rfl⟩

variable {v w : View}

theorem matches_resolve_of_separator (v w : View) (s : Char) :
    (v.resolve { w with separator := s }).Matches (v.resolve w) := by
  cases hempty : v.isEmpty with
  | true =>
      rw [resolve_of_isEmpty hempty, resolve_of_isEmpty hempty]
      exact ⟨rfl, rfl, rfl⟩
  | false =>
      by_cases hgoes : Root.Continues v.root w.root
      · rw [resolve_of_continues hempty hgoes,
          resolve_of_continues (w := { w with separator := s }) hempty hgoes]
        exact .refl _
      by_cases hborrow : Root.Borrows v.root w.root
      · rw [resolve_of_borrows hborrow, resolve_of_borrows (w := { w with separator := s }) hborrow]
        exact ⟨rfl, rfl, rfl⟩
      · rw [resolve_of_replaces hgoes hborrow,
          resolve_of_replaces (w := { w with separator := s }) hgoes hborrow]
        exact ⟨rfl, rfl, rfl⟩

theorem resolve_of_long_root (hend : endsInSeparator w.root = true) (hlong : 1 < w.root.length) :
    v.resolve w = w := by
  apply resolve_of_replaces
  · exact fun hgoes => absurd (hgoes.1.symm.trans hend) Bool.false_ne_true
  · exact fun hborrow => absurd hborrow.2.1 (by omega)

theorem relativize_of_key_ne
    (hempty : ¬ (v.isEmpty = true ∨ v.isAbsolute = true ∧ w.isEmpty = true))
    (hkey : Root.key v.root ≠ Root.key w.root) :
    v.relativize w = ⟨v.uri, v.keptRoot w, w.names, detect (v.keptRoot w ++ w.names)⟩ := by
  rw [relativize, if_neg hempty, if_neg hkey]

theorem keptRoot_eq (v w : View) :
    v.keptRoot w =
      if Root.SharesDrive v.root w.root then w.root.drop (Root.afterDrive v.root) else w.root := rfl

theorem not_overruns_of_isEmpty
    (hempty : v.isEmpty = true ∨ v.isAbsolute = true ∧ w.isEmpty = true) :
    ¬ Root.Overruns v.root w.root := by
  rintro ⟨⟨hdrive, hle, -⟩, -⟩
  rcases hempty with hv | ⟨-, hw⟩
  · rw [not_isEmpty_of_root (Root.ne_nil_of_afterDrive hdrive)] at hv
    contradiction
  · obtain ⟨hnil, -⟩ : w.root = [] ∧ w.names = [] := by simpa [isEmpty] using hw
    rw [hnil, List.length_nil] at hle
    omega

/-! ## There and back on a drive -/

section

variable {d r e t : Text} {s : Char} (hdrives : Root.OnDrives v.root w.root d r e t)
  (huri : v.uri = w.uri)
include hdrives

theorem not_isEmpty_of_onDrives : v.isEmpty = false :=
  not_isEmpty_of_root (by simp [hdrives.root])

theorem resolve_of_onDrives (hne : t ≠ []) : v.resolve w = w := by
  have hlength := List.length_pos_iff.mpr hne
  apply resolve_of_long_root
  · rw [hdrives.other, Root.endsInSeparator_drive]
    exact Root.endsInSeparator_of_isRun hdrives.isRun_other hne
  · rw [hdrives.length_other, hdrives.afterDrive_eq]
    omega

/-- Without a separator behind the drive, the names are appended with the drive or without. -/
theorem resolve_without_drive (hnil : t = []) :
    v.resolve ⟨v.uri, t, w.names, s⟩ = v.resolve w := by
  have hempty := not_isEmpty_of_onDrives hdrives
  rw [resolve_of_continues hempty (hdrives.continues_of_nil hnil), hnil,
    resolve_of_root_nil hempty rfl]

include huri

/-- A single separator takes the place on the drive that it had before. -/
theorem matches_of_single (hs : isSeparator v.separator = true) {c : Char} (hone : t = [c]) :
    (v.resolve ⟨v.uri, t, w.names, s⟩).Matches (v.resolve w) := by
  subst hone
  have hc : isSeparator c = true := hdrives.isRun_other c List.mem_cons_self
  have hstyle : unify [v.separator] [c] = [v.separator] := by
    simp [unify_eq_map hs, restyle, hc]
  have hborrow : Root.Borrows v.root [c] := by
    refine ⟨by simpa [endsInSeparator] using hc, rfl, ?_⟩
    rw [hdrives.afterDrive_eq]
    omega
  have hplace : (v.onDrive ⟨v.uri, [c], w.names, s⟩).root = d ++ driveColon :: [v.separator] := by
    show v.root.take (Root.afterDrive v.root) ++ unify [v.separator] [c] = _
    rw [hdrives.root, Root.take_afterDrive d hdrives.isRun, hstyle, List.append_assoc]
    rfl
  rw [resolve_of_borrows hborrow, resolve_of_onDrives hdrives (List.cons_ne_nil c [])]
  constructor
  case uri => exact huri
  case rootKey =>
    have hrun : IsRun [v.separator] := by simpa [IsRun] using hs
    rw [hplace, hdrives.other, Root.key_drive hdrives.isDriveName hrun,
      Root.key_drive hdrives.isDriveName_other hdrives.isRun_other, hdrives.upper]
    simp [unify_eq_map isSeparator_portable, restyle, hs, hc]
  case names =>
    show pieces (trimEnd (unify [v.separator] w.names)) = pieces (trimEnd w.names)
    rw [trimEnd_unify hs, pieces_unify hs]

omit huri in
theorem not_matches_of_several (hlong : 1 < t.length) :
    ¬ (v.resolve ⟨v.uri, t, w.names, s⟩).Matches (v.resolve w) := by
  have hne : t ≠ [] := List.ne_nil_of_length_pos (by omega)
  rw [resolve_of_onDrives hdrives hne,
    resolve_of_long_root (Root.endsInSeparator_of_isRun hdrives.isRun_other hne) hlong]
  exact fun hmatches => hdrives.key_ne hmatches.rootKey

end

theorem matches_resolve_relativize_iff (hv : v.Sound) (hw : w.Sound) (huri : v.uri = w.uri)
    (hkey : Root.key v.root ≠ Root.key w.root) :
    (v.resolve (v.relativize w)).Matches (v.resolve w) ↔ ¬ Root.Overruns v.root w.root := by
  by_cases hempty : v.isEmpty = true ∨ v.isAbsolute = true ∧ w.isEmpty = true
  · rw [relativize, if_pos hempty]
    exact iff_of_true (.refl _) (not_overruns_of_isEmpty hempty)
  rw [relativize_of_key_ne hempty hkey, keptRoot_eq]
  by_cases hshare : Root.SharesDrive v.root w.root
  · obtain ⟨d, r, e, t, hdrives⟩ := hshare.exists_onDrives hv.root hw.root
    rw [if_pos hshare, hdrives.drop_afterDrive, hdrives.overruns_iff hshare]
    -- `t` is what relativization leaves of the root of the target
    match t with
    | [] =>
        rw [resolve_without_drive hdrives rfl]
        exact iff_of_true (.refl _) (by simp)
    | [c] => exact iff_of_true (matches_of_single hdrives huri hv.separator rfl) (by simp)
    | c :: c' :: rest =>
        have hlong : 1 < (c :: c' :: rest).length := by simp
        exact iff_of_false (not_matches_of_several hdrives hlong) (not_not_intro hlong)
  · rw [if_neg hshare, huri]
    exact iff_of_true (matches_resolve_of_separator v w _) fun hover => hshare hover.1

end View

theorem agrees_iff_matches {p q : Path} (hp : p.WellFormed) (hq : q.WellFormed) :
    Agrees p q ↔ p.view.Matches q.view := by
  constructor
  · intro hagrees
    refine ⟨hagrees.uri, ?_, ?_⟩
    · rw [root_view, root_view, ← rootKey_eq, ← rootKey_eq, hagrees.rootKey]
    · rw [hp.segments_view, hq.segments_view, hagrees.names]
  · intro hmatches
    refine ⟨hmatches.uri, ?_, ?_⟩
    · rw [rootKey_eq, rootKey_eq]
      exact hmatches.rootKey
    · rw [← hp.segments_view, ← hq.segments_view, hmatches.names]

/-- Under different roots, what relativization answers leads from the base to where the target
leads, unless the target is on the drive of the base with several separators behind it. -/
theorem agrees_resolve_of_rootKey_ne_iff {p q : Path} (hp : Reachable p) (hq : Reachable q)
    (huri : p.uri = q.uri) (hkey : p.rootKey ≠ q.rootKey) :
    Agrees (p.resolve (p.relativize q)) (p.resolve q) ↔
      ¬ Root.Overruns p.rootText q.rootText := by
  have hbase := hp.wellFormed
  have htarget := hq.wellFormed
  have hrelative := wellFormed_relativize p htarget
  rw [rootKey_eq, rootKey_eq] at hkey
  rw [agrees_iff_matches (hbase.resolve hrelative) (hbase.resolve htarget),
    hbase.view_resolve hrelative, hbase.view_resolve htarget, hbase.view_relativize htarget]
  exact View.matches_resolve_relativize_iff hbase.sound htarget.sound huri hkey

/-- From `C:\a` the target `C:\\b` is seen as `\\b`, which leads to `\\b` without the drive. -/
theorem not_agrees_resolve_of_two_separators :
    (parse localUri "C:\\a".toList).rootKey ≠ (parse localUri "C:\\\\b".toList).rootKey ∧
      ¬ Agrees
        ((parse localUri "C:\\a".toList).resolve
          ((parse localUri "C:\\a".toList).relativize (parse localUri "C:\\\\b".toList)))
        ((parse localUri "C:\\a".toList).resolve (parse localUri "C:\\\\b".toList)) := by
  have hkey : (parse localUri "C:\\a".toList).rootKey ≠
      (parse localUri "C:\\\\b".toList).rootKey := by decide
  have hover : Root.Overruns (parse localUri "C:\\a".toList).rootText
      (parse localUri "C:\\\\b".toList).rootText := ⟨by decide, by decide⟩
  have hiff := agrees_resolve_of_rootKey_ne_iff (.parse localUri "C:\\a".toList)
    (.parse localUri "C:\\\\b".toList) rfl hkey
  exact ⟨hkey, fun hagrees => hiff.mp hagrees hover⟩

/-! ## Filesystems -/

/-- What is resolved against a path stays as it is or comes to lie on the filesystem of the
path. -/
theorem uri_resolve_or_eq (p q : Path) : (p.resolve q).uri = p.uri ∨ p.resolve q = q := by
  unfold resolve
  extract_lets drive
  split
  · exact .inr rfl
  split
  · split
    · exact .inl rfl
    · exact .inr rfl
  split
  · exact .inr rfl
  split
  · exact .inl rfl
  · exact .inl rfl

theorem uri_relativize {p q : Path} (hp : p.isEmpty = false) (hq : q.isEmpty = false) :
    (p.relativize q).uri = p.uri := by
  have hempty : ¬ (p.isEmpty = true ∨ p.isAbsolute = true ∧ q.isEmpty = true) := by
    simp [hp, hq]
  by_cases hkey : p.rootKey = q.rootKey
  · rw [relativize_of_rootKey hempty hkey]
    rfl
  · rw [relativize_of_rootKey_ne hempty hkey]
    rfl

theorem not_isEmpty_of_isAbsolute {p : Path} (habs : p.isAbsolute = true) : p.isEmpty = false := by
  unfold isAbsolute at habs
  rw [Bool.and_eq_true, bne_iff_ne] at habs
  simp [isEmpty, habs.1]

/-- What relativization answers leads to the filesystem of the base, which is that of the target
only if both lie on one filesystem.  The target itself, resolved against the base, leads to its own
filesystem whenever it replaces the base. -/
theorem uri_resolve_relativize_iff {p q : Path} (hempty : p.isEmpty = false)
    (habs : q.isAbsolute = true) :
    ((p.resolve (p.relativize q)).uri = q.uri ↔ p.uri = q.uri) ∧
      ((p.resolve q).uri = q.uri ↔ p.uri = q.uri ∨ p.resolve q = q) := by
  have hrelative := uri_relativize hempty (not_isEmpty_of_isAbsolute habs)
  have hback : (p.resolve (p.relativize q)).uri = p.uri := by
    rcases uri_resolve_or_eq p (p.relativize q) with huri | hsame
    · exact huri
    · rw [hsame, hrelative]
  refine ⟨by rw [hback], ?_, ?_⟩
  · intro huri
    rcases uri_resolve_or_eq p q with hmine | hsame
    · exact .inl (hmine.symm.trans huri)
    · exact .inr hsame
  · rintro (huri | hsame)
    · rcases uri_resolve_or_eq p q with hmine | hsame
      · exact hmine.trans huri
      · rw [hsame]
    · rw [hsame]

/-- From `a` on the local filesystem, `/b` on another one is seen as `/b` on the local filesystem,
which replaces `a`, as `/b` on its own filesystem would. -/
theorem uri_resolve_relativize_ne :
    (parse localUri "a".toList).isEmpty = false ∧
      (parse "mem:/".toList "/b".toList).isAbsolute = true ∧
      ((parse localUri "a".toList).resolve ((parse localUri "a".toList).relativize
        (parse "mem:/".toList "/b".toList))).uri ≠ "mem:/".toList ∧
      ((parse localUri "a".toList).resolve (parse "mem:/".toList "/b".toList)).uri =
        "mem:/".toList := by
  have hempty : (parse localUri "a".toList).isEmpty = false := by decide
  have habs : (parse "mem:/".toList "/b".toList).isAbsolute = true := by decide
  have hiff := uri_resolve_relativize_iff hempty habs
  refine ⟨hempty, habs, fun huri => ?_, hiff.2.mpr (.inr rfl)⟩
  exact absurd (hiff.1.mp huri) (by decide)

end Path

end LexicalPaths
