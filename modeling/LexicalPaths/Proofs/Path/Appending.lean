import LexicalPaths.Proofs.Path.Below
import LexicalPaths.Proofs.Path.Early
import Mathlib.Data.List.Chain

/-!
# Appending

A path that is resolved against another one is appended to it, put on its drive, or takes its
place, and the two roots decide which.  Text that is appended afterwards could as well have been
appended before: it comes to stand behind the same names, and it is written in one convention
however many bases it passes through.  What was appended to a base is found again by relativization,
which drops the names that both share and keeps the rest.
-/

namespace LexicalPaths

namespace Separator

/-- No two separators stand side by side. -/
def Unrepeated (t : Text) : Prop :=
  t.IsChain fun c d => isSeparator c = true → isSeparator d = false

instance (t : Text) : Decidable (Unrepeated t) :=
  inferInstanceAs (Decidable (t.IsChain _))

theorem unrepeated_cons {c : Char} {t : Text} :
    Unrepeated (c :: t) ↔ (isSeparator c = true → StartsBare t) ∧ Unrepeated t := by
  unfold Unrepeated
  rw [List.isChain_cons]
  apply and_congr_left
  intro _
  exact ⟨fun h hc d hd => h d hd hc, fun h d hd hc => h hc d hd⟩

theorem exists_pieces_of_startsBare {t : Text} (ht : StartsBare t) (hne : t ≠ []) :
    ∃ first rest, pieces t = first :: rest ∧ first ≠ [] := by
  obtain ⟨rest, hpieces⟩ := exists_pieces_eq_cons ht hne
  exact ⟨lead t, rest, hpieces, lead_ne_nil ht hne⟩

theorem properPieces_ne_nil {t : Text} (ht : StartsBare t) (hne : t ≠ []) :
    properPieces t ≠ [] := by
  obtain ⟨first, rest, hpieces, hfirst⟩ := exists_pieces_of_startsBare ht hne
  rw [properPieces, hpieces, List.filter_cons_of_pos (by simpa using hfirst)]
  exact List.cons_ne_nil _ _

theorem forall_mem_tail_pieces {t : Text} (ht : Unrepeated t) :
    ∀ piece ∈ (pieces t).tail, piece ≠ [] := by
  induction t with
  | nil => simp [pieces]
  | cons c t ih =>
      obtain ⟨hbare, hrest⟩ := unrepeated_cons.mp ht
      have htail := ih hrest
      cases hc : isSeparator c with
      | false =>
          rw [pieces_cons_of_not hc]
          cases hpieces : pieces t with
          | nil => simp [glue]
          | cons first rest => rwa [hpieces] at htail
      | true =>
          rw [pieces_cons_of_separator hc, List.tail_cons]
          by_cases hnil : t = []
          · simp [hnil, pieces]
          · -- the piece behind the separator is not empty, as no second one follows
            obtain ⟨first, rest, hpieces, hfirst⟩ := exists_pieces_of_startsBare (hbare hc) hnil
            rw [hpieces] at htail ⊢
            exact List.forall_mem_cons.mpr ⟨hfirst, htail⟩

theorem properPieces_of_unrepeated {t : Text} (hbare : StartsBare t) (ht : Unrepeated t) :
    properPieces t = pieces t := by
  apply List.filter_eq_self.mpr
  by_cases hnil : t = []
  · simp [hnil, pieces]
  · obtain ⟨first, rest, hpieces, hfirst⟩ := exists_pieces_of_startsBare hbare hnil
    have htail := forall_mem_tail_pieces ht
    rw [hpieces] at htail ⊢
    have hall : ∀ piece ∈ first :: rest, piece ≠ [] := List.forall_mem_cons.mpr ⟨hfirst, htail⟩
    exact fun piece hmem => by simpa using hall piece hmem

end Separator

namespace Root

open Separator

theorem ne_nil_of_afterDrive {r : Text} (hdrive : 0 < afterDrive r) : r ≠ [] := by
  rintro rfl
  exact absurd hdrive (by decide)

theorem continues_nil (root : Text) : Continues root [] :=
  ⟨rfl, .inl rfl⟩

/-- A drive comes before every separator, so a text with a drive follows its convention. -/
theorem detect_drive {d : Text} (hd : IsDriveName d) (t : Text) :
    detect (d ++ driveColon :: t) = backslash := by
  induction d with
  | nil => rfl
  | cons c d ih =>
      obtain ⟨hc, hcolon⟩ := hd c List.mem_cons_self
      have hportable : c ≠ portable := fun h => by simp [h] at hc
      have hbackslash : c ≠ backslash := fun h => by simp [h] at hc
      rw [List.cons_append, detect, if_neg hportable, if_neg (not_or.mpr ⟨hbackslash, hcolon⟩)]
      exact ih fun x hx => hd x (List.mem_cons_of_mem c hx)

end Root

namespace Path

open Separator

namespace View

/-! ## More names -/

/-- The view with more text behind its names, in its own convention. -/
def extend (v : View) (t : Text) : View :=
  { v with names := v.names ++ if t = [] then [] else v.gap ++ unify [v.separator] t }

variable {u v w : View}

@[simp] theorem root_extend (v : View) (t : Text) : (v.extend t).root = v.root := rfl

@[simp] theorem separator_extend (v : View) (t : Text) :
    (v.extend t).separator = v.separator := rfl

@[simp] theorem extend_nil (v : View) : v.extend [] = v := by
  simp [extend]

theorem names_extend (v : View) {t : Text} (ht : t ≠ []) :
    (v.extend t).names = v.names ++ v.gap ++ unify [v.separator] t := by
  simp [extend, ht]

theorem unify_gap {s : Char} (hs : isSeparator s = true) (hv : isSeparator v.separator = true) :
    unify [s] v.gap = if v.names ≠ [] ∧ v.hasTrailingSeparator = false then [s] else [] := by
  unfold gap
  split
  · simp [unify_eq_map hs, restyle, hv]
  · rfl

/-- The last of the text that was appended tells whether a separator is missing. -/
theorem gap_extend (hv : isSeparator v.separator = true) {t : Text} (ht : t ≠ []) :
    (v.extend t).gap = if endsInSeparator t = false then [v.separator] else [] := by
  have hlast : unify [v.separator] t ≠ [] := (unify_eq_nil_iff hv t).not.mpr ht
  have hends : (v.extend t).hasTrailingSeparator = endsInSeparator t := by
    rw [hasTrailingSeparator, names_extend v ht, endsInSeparator_append hlast,
      endsInSeparator_unify hv]
  have hne : (v.extend t).names ≠ [] := by
    rw [names_extend v ht]
    exact List.append_ne_nil_of_right_ne_nil _ hlast
  rw [gap, hends, separator_extend]
  simp only [ne_eq, hne, not_false_eq_true, true_and]

theorem extend_extend (hv : isSeparator v.separator = true) (hw : isSeparator w.separator = true)
    (t : Text) : (v.extend w.names).extend t = v.extend (w.extend t).names := by
  by_cases ht : t = []
  · simp [ht]
  have hlast : unify [w.separator] t ≠ [] := (unify_eq_nil_iff hw t).not.mpr ht
  have hne : (w.extend t).names ≠ [] := by
    rw [names_extend w ht]
    exact List.append_ne_nil_of_right_ne_nil _ hlast
  have htext : unify [v.separator] (w.extend t).names =
      unify [v.separator] w.names ++ unify [v.separator] w.gap ++ unify [v.separator] t := by
    rw [names_extend w ht, unify_append hv, unify_append hv, unify_unify hw hv]
  ext1
  · rfl
  · rfl
  · rw [names_extend _ ht, names_extend v hne, htext, unify_gap hv hw, separator_extend]
    -- without names, `w` adds no separator of its own, and the one behind `v` stays the only one
    by_cases hnames : w.names = []
    · have hnil : unify [v.separator] [] = [] := rfl
      simp [hnames, hnil]
    · rw [names_extend v hnames, gap_extend hv hnames]
      simp [hnames, hasTrailingSeparator]
  · rfl

/-! ## Resolution by roots -/

theorem resolve_of_isEmpty (hv : v.isEmpty = true) (w : View) : v.resolve w = w := by
  rw [resolve, if_pos hv]

theorem not_isEmpty_of_root (hv : v.root ≠ []) : v.isEmpty = false := by
  simp [isEmpty, hv]

theorem resolve_of_continues (hv : v.isEmpty = false) (hgoes : Root.Continues v.root w.root) :
    v.resolve w = v.extend w.names := by
  have habs : w.isAbsolute = false := hgoes.1
  have hother : ¬ (w.root ≠ [] ∧
      (v.root = [] ∨ Root.driveName v.root ≠ Root.driveName w.root)) := by
    rintro ⟨hne, hdrive⟩
    obtain ⟨hroot, hsame⟩ := hgoes.2.resolve_left hne
    exact hdrive.elim hroot fun hnot => hnot hsame
  rw [resolve, hv, habs, if_neg Bool.false_ne_true, if_neg Bool.false_ne_true, if_neg hother]
  split
  next hnil => rw [hnil, extend_nil]
  next hne =>
    ext1
    · rfl
    · rfl
    · exact (names_extend v hne).symm
    · rfl

theorem resolve_of_borrows (hborrow : Root.Borrows v.root w.root) :
    v.resolve w = v.onDrive w := by
  obtain ⟨hend, hone, hdrive⟩ := hborrow
  have habs : w.isAbsolute = true := hend
  have hempty := not_isEmpty_of_root (Root.ne_nil_of_afterDrive hdrive)
  rw [resolve, hempty, habs, if_neg Bool.false_ne_true, if_pos rfl, if_pos ⟨hone, hdrive⟩]

theorem resolve_of_replaces (hgoes : ¬ Root.Continues v.root w.root)
    (hborrow : ¬ Root.Borrows v.root w.root) : v.resolve w = w := by
  unfold resolve
  cases habs : w.isAbsolute with
  | true =>
      have hdrive : ¬ (w.root.length = 1 ∧ 0 < Root.afterDrive v.root) := fun h =>
        hborrow ⟨habs, h⟩
      rw [if_pos rfl, if_neg hdrive, ite_self]
  | false =>
      obtain ⟨hne, hdrive⟩ := not_or.mp fun h => hgoes ⟨habs, h⟩
      have hother : w.root ≠ [] ∧
          (v.root = [] ∨ Root.driveName v.root ≠ Root.driveName w.root) := by
        refine ⟨hne, ?_⟩
        rw [or_iff_not_imp_left]
        exact fun hroot hsame => hdrive ⟨hroot, hsame⟩
      rw [if_neg Bool.false_ne_true, if_pos hother, ite_self]

theorem resolve_of_root_nil (hv : v.isEmpty = false) (hw : w.root = []) :
    v.resolve w = v.extend w.names :=
  resolve_of_continues hv (hw ▸ Root.continues_nil v.root)

theorem not_isEmpty_extend (hv : v.isEmpty = false) (t : Text) : (v.extend t).isEmpty = false := by
  unfold isEmpty at hv ⊢
  rw [root_extend]
  by_cases hroot : v.root = []
  · have hnames : v.names ≠ [] := by simpa [hroot] using hv
    simp [extend, hnames]
  · simp [hroot]

theorem not_isEmpty_resolve (v : View) (hw : w.isEmpty = false) :
    (v.resolve w).isEmpty = false := by
  cases hv : v.isEmpty with
  | true => rwa [resolve_of_isEmpty hv]
  | false =>
      by_cases hgoes : Root.Continues v.root w.root
      · rw [resolve_of_continues hv hgoes]
        exact not_isEmpty_extend hv _
      by_cases hborrow : Root.Borrows v.root w.root
      · have hdrive := hborrow.2.2
        have hroot := Root.ne_nil_of_afterDrive hdrive
        rw [resolve_of_borrows hborrow]
        apply not_isEmpty_of_root
        simp [onDrive, hroot, Nat.ne_of_gt hdrive]
      · rwa [resolve_of_replaces hgoes hborrow]

/-! ## Appending before and after -/

theorem separator_onDrive (hv : v.Sound) (hdrive : 0 < Root.afterDrive v.root) (w : View) :
    (v.onDrive w).separator = backslash := by
  obtain ⟨d, r, hroot, hd, hr⟩ := hv.root.exists_drive hdrive
  show detect (v.root.take (Root.afterDrive v.root) ++ unify [v.separator] w.raw) = backslash
  rw [hroot, Root.take_afterDrive d hr, List.append_assoc, List.singleton_append]
  exact Root.detect_drive hd _

theorem onDrive_extend (hv : v.Sound) (hw : w.Sound) (hdrive : 0 < Root.afterDrive v.root)
    (hconvention : v.separator = backslash) (t : Text) :
    (v.onDrive w).extend t = v.onDrive (w.extend t) := by
  by_cases ht : t = []
  · simp [ht]
  -- the convention is detected again on the drive, and it is the one that text was written in
  have hsame := separator_onDrive hv hdrive w
  have hgap : (v.onDrive w).gap = unify [v.separator] w.gap := by
    have hends : (v.onDrive w).hasTrailingSeparator = w.hasTrailingSeparator :=
      endsInSeparator_unify hv.separator w.names
    have hnil : (v.onDrive w).names = [] ↔ w.names = [] := unify_eq_nil_iff hv.separator w.names
    rw [unify_gap hv.separator hw.separator, gap, hends, hsame, ← hconvention]
    simp only [ne_eq, hnil]
  ext1
  · rfl
  · rfl
  · show _ = unify [v.separator] (w.extend t).names
    rw [names_extend _ ht, names_extend w ht, unify_append hv.separator,
      unify_append hv.separator, unify_unify hw.separator hv.separator, hgap, hsame, ← hconvention]
    rfl
  · exact hsame.trans (separator_onDrive hv hdrive _).symm

/-- What is appended to the outcome of a resolution can be appended before it. -/
theorem resolve_extend (hv : v.Sound) (hw : w.Sound)
    (hconvention : 0 < Root.afterDrive v.root → v.separator = backslash) (t : Text) :
    (v.resolve w).extend t = v.resolve (w.extend t) := by
  cases hempty : v.isEmpty with
  | true => rw [resolve_of_isEmpty hempty, resolve_of_isEmpty hempty]
  | false =>
      by_cases hgoes : Root.Continues v.root w.root
      · rw [resolve_of_continues hempty hgoes, extend_extend hv.separator hw.separator]
        exact (resolve_of_continues hempty (w := w.extend t) hgoes).symm
      by_cases hborrow : Root.Borrows v.root w.root
      · have hdrive := hborrow.2.2
        rw [resolve_of_borrows hborrow, onDrive_extend hv hw hdrive (hconvention hdrive)]
        exact (resolve_of_borrows (w := w.extend t) hborrow).symm
      · rw [resolve_of_replaces hgoes hborrow]
        exact (resolve_of_replaces (w := w.extend t) hgoes hborrow).symm

theorem resolve_resolve (hu : u.Sound) (hv : v.Sound)
    (hconvention : 0 < Root.afterDrive u.root → u.separator = backslash) (hw : w.root = []) :
    (u.resolve v).resolve w = u.resolve (v.resolve w) := by
  -- an empty path in the middle is left out on both sides, whatever is appended to it
  cases hv0 : v.isEmpty with
  | false =>
      rw [resolve_of_root_nil hv0 hw, resolve_of_root_nil (not_isEmpty_resolve u hv0) hw,
        resolve_extend hu hv hconvention]
  | true =>
      obtain ⟨hroot, hnames⟩ : v.root = [] ∧ v.names = [] := by simpa [isEmpty] using hv0
      rw [resolve_of_isEmpty hv0]
      cases hu0 : u.isEmpty with
      | true => rw [resolve_of_isEmpty hu0, resolve_of_isEmpty hv0, resolve_of_isEmpty hu0]
      | false => rw [resolve_of_root_nil hu0 hroot, hnames, extend_nil]

end View

theorem separator_parse_of_drive {uri t : Text}
    (hdrive : 0 < Root.afterDrive (parse uri t).rootText) :
    (parse uri t).separator = backslash := by
  obtain ⟨d, r, hroot, hd, -⟩ := (wellFormed_parse uri t).root.exists_drive hdrive
  have htext : t = d ++ driveColon :: (r ++ (parse uri t).namesText) := by
    have hraw := raw_parse uri t
    rw [raw, hroot] at hraw
    rw [← List.cons_append, ← List.append_assoc, hraw]
  show detect t = backslash
  rw [htext, Root.detect_drive hd]

/-- A path without a root can be appended to a path before that one is resolved, or to what comes
of it. -/
theorem resolve_assoc (u v w a b c : Text) (hroot : (parse w c).root? = none) :
    (((parse u a).resolve (parse v b)).resolve (parse w c) ==
        (parse u a).resolve ((parse v b).resolve (parse w c))) = true ∧
      (((parse u a).resolve (parse v b)).resolve (parse w c)).separator =
        ((parse u a).resolve ((parse v b).resolve (parse w c))).separator := by
  have hbase := wellFormed_parse u a
  have hmiddle := wellFormed_parse v b
  have hlast := wellFormed_parse w c
  have hview : (((parse u a).resolve (parse v b)).resolve (parse w c)).view =
      ((parse u a).resolve ((parse v b).resolve (parse w c))).view := by
    rw [(hbase.resolve hmiddle).view_resolve hlast, hbase.view_resolve hmiddle,
      hbase.view_resolve (hmiddle.resolve hlast), hmiddle.view_resolve hlast]
    exact View.resolve_resolve hbase.sound hmiddle.sound separator_parse_of_drive
      (hlast.root?_eq_none_iff_rootText.mp hroot)
  exact ⟨beq_of_view_eq hview, congrArg View.separator hview⟩

/-- The path `/b//` takes its place on the drive of `C:\a` before `d/e\` is appended, or after. -/
theorem resolve_assoc_of_drive :
    let base := parse localUri "C:\\a".toList
    let middle := parse localUri "/b//".toList
    let last := parse localUri "d/e\\".toList
    last.root? = none ∧
      ((base.resolve middle).resolve last == base.resolve (middle.resolve last)) = true ∧
      ((base.resolve middle).resolve last).separator =
        (base.resolve (middle.resolve last)).separator :=
  have hroot : (parse localUri "d/e\\".toList).root? = none := by decide
  ⟨hroot, resolve_assoc localUri localUri localUri "C:\\a".toList "/b//".toList _ hroot⟩

/-! ## What was appended is found again -/

section

variable {p q : Path} (hp : p.WellFormed) (hq : q.WellFormed) (hempty : p.isEmpty = false)
  (hroot : q.rootText = [])
include hq hempty hroot

theorem separator_resolve_of_rootText_nil : (p.resolve q).separator = p.separator := by
  rw [WellFormed.resolve_of_rootText_nil hq hempty hroot]
  split <;> rfl

include hp

/-- Relativization drops the base, and writes what was appended to it without empty names. -/
theorem relativize_resolve_eq :
    p.relativize (p.resolve q) =
      withRoot p.uri (spell p.separator q.properNames q.hasTrailingSeparator) 0 p.separator := by
  have hsame := hp.rootText_resolve_of_rootText_nil hq hempty hroot
  have hkey : p.rootKey = (p.resolve q).rootKey := by rw [rootKey_eq, rootKey_eq, hsame]
  have hnot : ¬ (p.isEmpty = true ∨ p.isAbsolute = true ∧ (p.resolve q).isEmpty = true) := by
    rintro (hp0 | ⟨habs, hempty'⟩)
    · rw [hempty] at hp0
      contradiction
    · have hnil := ((hp.resolve hq).isEmpty_iff.mp hempty').1
      exact hp.rootText_ne_nil_of_isAbsolute habs (hsame.symm.trans hnil)
  have htext : spell p.separator q.properNames (p.resolve q).hasTrailingSeparator =
      spell p.separator q.properNames q.hasTrailingSeparator := by
    by_cases hnil : q.namesText = []
    · have hnone : q.properNames = [] := by
        rw [hq.properNames_eq, hnil]
        rfl
      rw [hnone, spell_nil, spell_nil]
    · rw [hp.hasTrailingSeparator_resolve_of_rootText_nil hq hempty hroot hnil]
  rw [relativize_of_rootKey hnot hkey, hp.properNames_resolve_of_rootText_nil hq hempty hroot,
    way_append, separator_resolve_of_rootText_nil hq hempty hroot, htext]

/-- The names text of a path without repeated separators is what its names are written as. -/
theorem resolve_relativize_resolve (hbare : StartsBare q.namesText)
    (hsingle : Unrepeated q.namesText) :
    p.resolve (p.relativize (p.resolve q)) = p.resolve q := by
  have hs := hp.separator
  have hnames : spell p.separator q.properNames q.hasTrailingSeparator =
      unify [p.separator] q.namesText := by
    rw [hq.properNames_eq, hq.hasTrailingSeparator_eq, properPieces_of_unrepeated hbare hsingle,
      spell_pieces hs]
  rw [relativize_resolve_eq hp hq hempty hroot, hnames]
  have hrel : (withRoot p.uri (unify [p.separator] q.namesText) 0 p.separator).WellFormed :=
    wellFormed_withRoot (Nat.zero_le _) hs Root.isRoot_nil
  rw [WellFormed.resolve_of_rootText_nil hrel hempty rfl,
    WellFormed.resolve_of_rootText_nil hq hempty hroot, namesText_withRoot, List.drop_zero]
  simp only [unify_eq_nil_iff hs, Path.appended, unify_unify hs hs]

end

theorem namesText_parse {uri t : Text} (hroot : (parse uri t).rootText = []) :
    (parse uri t).namesText = t := by
  have hraw := raw_parse uri t
  rwa [raw, hroot, List.nil_append] at hraw

/-- Behind the root, a separator at the end of a text has a name before it. -/
theorem Legible.properNames_ne_nil {p : Path} (hp : p.Legible)
    (htrail : p.hasTrailingSeparator = true) : p.properNames ≠ [] := by
  rw [hp.wellFormed.hasTrailingSeparator_eq] at htrail
  rw [hp.wellFormed.properNames_eq]
  apply properPieces_ne_nil hp.startsBare
  intro hnil
  rw [hnil] at htrail
  contradiction

/-- A path without a root is found again, but for its empty names, when the place that it leads to
is seen from the base, and it leads to that place again if it has no empty names to lose. -/
theorem relativize_resolve {p : Path} (hp : Reachable p) (hempty : p.isEmpty = false)
    (uri t : Text) (hroot : (parse uri t).root? = none) :
    let relative := p.relativize (p.resolve (parse uri t))
    relative.root? = none ∧ relative.separator = p.separator ∧
      relative.names = (parse uri t).properNames ∧
      relative.hasTrailingSeparator = (parse uri t).hasTrailingSeparator ∧
      (Unrepeated t → p.resolve relative = p.resolve (parse uri t)) := by
  intro relative
  have hbase := hp.wellFormed
  have hs := hbase.separator
  have hlegible := legible_parse uri t
  have hpath := hlegible.wellFormed
  have hnil := hpath.root?_eq_none_iff_rootText.mp hroot
  have hnames : ∀ n ∈ (parse uri t).properNames, IsName n := fun _ =>
    hpath.isName_of_mem_properNames
  have hrelative : relative = withRoot p.uri (spell p.separator (parse uri t).properNames
      (parse uri t).hasTrailingSeparator) 0 p.separator :=
    relativize_resolve_eq hbase hpath hempty hnil
  have hback : Unrepeated t → p.resolve relative = p.resolve (parse uri t) := by
    intro hsingle
    apply resolve_relativize_resolve hbase hpath hempty hnil hlegible.startsBare
    rwa [namesText_parse hnil]
  refine ⟨by rw [hrelative]; rfl, by rw [hrelative]; rfl, ?_, ?_, hback⟩
  · rw [hrelative, names_withRoot_spell _ hs hs hnames]
  · rw [hrelative, hasTrailingSeparator_withRoot_spell _ hs hs hnames]
    cases htrail : (parse uri t).hasTrailingSeparator with
    | false => rfl
    | true => simpa using hlegible.properNames_ne_nil htrail

/-- Behind the bare drive `c:` the path `../a/./b\` is found again, with all its names. -/
theorem relativize_resolve_of_bare_drive :
    let base := parse localUri "c:".toList
    let relative := base.relativize (base.resolve (parse localUri "../a/./b\\".toList))
    base.isEmpty = false ∧ (parse localUri "../a/./b\\".toList).root? = none ∧
      Unrepeated "../a/./b\\".toList ∧ relative.root? = none ∧
      relative.names = ["..".toList, "a".toList, ".".toList, "b".toList] ∧
      relative.hasTrailingSeparator = true ∧
      base.resolve relative = base.resolve (parse localUri "../a/./b\\".toList) :=
  have hempty : (parse localUri "c:".toList).isEmpty = false := by decide
  have hroot : (parse localUri "../a/./b\\".toList).root? = none := by decide
  have hsingle : Unrepeated "../a/./b\\".toList := by decide
  have hfound := relativize_resolve (.parse localUri "c:".toList) hempty localUri _ hroot
  have hnames : (parse localUri "../a/./b\\".toList).properNames =
      ["..".toList, "a".toList, ".".toList, "b".toList] := by decide
  ⟨hempty, hroot, hsingle, hfound.1, hfound.2.2.1.trans hnames, hfound.2.2.2.1,
    hfound.2.2.2.2 hsingle⟩

end Path

end LexicalPaths
