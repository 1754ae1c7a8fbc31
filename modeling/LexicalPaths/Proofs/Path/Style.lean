import LexicalPaths.Proofs.Path.Convention

/-!
# Separator style

Paths whose texts differ in separator style only are alike.  Nothing that is observed of names and
roots tells them apart, and neither normalization nor resolution makes a difference between them.
-/

namespace LexicalPaths.Path

open Separator

/-- Two paths on one filesystem are alike if their texts are the same up to separator style. -/
structure Alike (p q : Path) : Prop where
  uri : p.uri = q.uri
  rootText : Separator.Alike p.rootText q.rootText
  namesText : Separator.Alike p.namesText q.namesText

theorem alike_iff_restyled {p q : Path} : p.Alike q ↔ p.view.restyled = q.view.restyled := by
  rw [View.ext_iff]
  constructor
  · exact fun halike => ⟨halike.uri, halike.rootText, halike.namesText, rfl⟩
  · exact fun hsame => ⟨hsame.1, hsame.2.1, hsame.2.2.1⟩

/-- Texts that are alike are cut at the same offset into texts that are alike. -/
theorem alike_withRoot {uri t u : Text} {s r : Char} (halike : Separator.Alike t u) (n : Nat) :
    (withRoot uri t n s).Alike (withRoot uri u n r) := by
  have hsame := halike.unify_eq isSeparator_portable
  refine ⟨rfl, ?_, ?_⟩
  · rw [rootText_withRoot, rootText_withRoot]
    show unify [portable] _ = unify [portable] _
    rw [unify_take isSeparator_portable, unify_take isSeparator_portable, hsame]
  · rw [namesText_withRoot, namesText_withRoot]
    show unify [portable] _ = unify [portable] _
    rw [unify_drop isSeparator_portable, unify_drop isSeparator_portable, hsame]

theorem length_eq_of_alike {t u : Text} (halike : Separator.Alike t u) :
    Root.length t = Root.length u := by
  rw [← Root.length_unify isSeparator_portable t, halike.unify_eq isSeparator_portable,
    Root.length_unify isSeparator_portable]

theorem alike_portableText (p : Path) : Separator.Alike p.portableText p.raw := by
  rw [portableText, replaceChar_backslash]
  exact alike_unify isSeparator_portable _

theorem portableText_parse (uri t : Text) : (parse uri t).portableText = unify [portable] t := by
  rw [portableText, replaceChar_backslash, parse, raw_withRoot]

theorem unify_portableText (p : Path) : unify [portable] p.portableText = p.portableText := by
  rw [portableText, replaceChar_backslash, unify_unify isSeparator_portable isSeparator_portable]

/-- All of the root of a path is read as root, and the separators behind it are read along. -/
theorem WellFormed.length_portableText {p : Path} (hp : p.WellFormed) (hroot : p.rootText ≠ []) :
    Root.length p.portableText = p.rootText.length + Root.separatorRun p.namesText := by
  rw [length_eq_of_alike (alike_portableText p), raw, Root.length_append_eq hp.root hroot]

theorem WellFormed.rootText_parse_portableText_ne_nil {p : Path} (hp : p.WellFormed)
    (hroot : p.rootText ≠ []) : (parse p.uri p.portableText).rootText ≠ [] := by
  have hpositive : 0 < p.rootText.length := List.length_pos_iff.mpr hroot
  have hlength := hp.length_portableText hroot
  rw [Ne, (wellFormed_parse _ _).rootText_eq_nil_iff]
  show Root.length p.portableText ≠ 0
  omega

theorem alike_normalize {p q : Path} (huri : p.uri = q.uri)
    (htext : Separator.Alike p.normalText q.normalText) : p.normalize.Alike q.normalize := by
  rw [normalize_eq, normalize_eq, huri, length_eq_of_alike htext]
  exact alike_withRoot htext _

namespace Alike

variable {p q : Path} (halike : p.Alike q)
include halike

theorem rootKey : p.rootKey = q.rootKey := by
  rw [rootKey_eq, rootKey_eq, ← Root.key_unify isSeparator_portable p.rootText,
    halike.rootText.unify_eq isSeparator_portable, Root.key_unify isSeparator_portable]

theorem rootText_eq_nil_iff : p.rootText = [] ↔ q.rootText = [] := by
  rw [← unify_eq_nil_iff isSeparator_portable p.rootText,
    halike.rootText.unify_eq isSeparator_portable, unify_eq_nil_iff isSeparator_portable]

variable (hp : p.WellFormed) (hq : q.WellFormed)
include hp hq

theorem names : p.names = q.names := by
  rw [alike_iff_restyled] at halike
  rw [← hp.segments_view, ← hq.segments_view, ← View.segments_restyled, halike,
    View.segments_restyled]

/-- Paths that are alike have normal forms that are alike. -/
theorem normalize : p.normalize.Alike q.normalize := by
  rw [alike_iff_restyled] at halike ⊢
  rw [hp.view_normalize, hq.view_normalize, ← View.normalize_restyled hp.sound,
    ← View.normalize_restyled hq.sound, halike]

/-- Paths that are alike lead to places that are alike. -/
theorem resolve {base : Path} (hbase : base.WellFormed) :
    (base.resolve p).Alike (base.resolve q) := by
  rw [alike_iff_restyled] at halike ⊢
  rw [hbase.view_resolve hp, hbase.view_resolve hq, ← View.resolve_restyled hbase.sound hp.sound,
    ← View.resolve_restyled hbase.sound hq.sound, halike]

end Alike

/-! ## Legible paths -/

/-- The text of a legible path is read as that path: what stands behind its root adds nothing to
the root, and is not taken for one. -/
structure Legible (p : Path) : Prop where
  wellFormed : p.WellFormed
  startsBare : StartsBare p.namesText
  noDrive : p.rootText = [] → driveColon ∉ lead p.namesText

theorem legible_withRoot (uri t : Text) {s : Char} (hs : isSeparator s = true) :
    (withRoot uri t (Root.length t) s).Legible where
  wellFormed := wellFormed_withRoot (Root.length_le t) hs (Root.isRoot_take_length t)
  startsBare := by
    rw [namesText_withRoot]
    exact Root.startsBare_drop_length t
  noDrive := by
    intro hroot
    have hzero : Root.length t = 0 := by
      rw [rootText_withRoot, List.take_eq_nil_iff] at hroot
      rcases hroot with hzero | rfl
      · exact hzero
      · rfl
    rw [namesText_withRoot, hzero, List.drop_zero]
    exact Root.not_mem_lead_of_length_eq_zero hzero

theorem legible_parse (uri t : Text) : (parse uri t).Legible :=
  legible_withRoot uri t (isSeparator_detect t)

namespace Legible

variable {p : Path} (hp : p.Legible)
include hp

theorem length_raw : Root.length p.raw = p.rootText.length :=
  Root.length_of_split hp.wellFormed.root hp.startsBare hp.noDrive

/-- The first name of a path without a root is not empty and holds no colon. -/
theorem exists_properNames (hroot : p.rootText = []) (hnames : p.names ≠ []) :
    ∃ first rest, p.names.head? = some first ∧ p.properNames = first :: rest ∧
      driveColon ∉ first := by
  rw [hp.wellFormed.names_eq] at hnames
  have hne : p.namesText ≠ [] := by
    intro hnil
    rw [hnil] at hnames
    exact hnames rfl
  obtain ⟨hbare, htrim, hlead⟩ := hp.startsBare.trimEnd hne
  obtain ⟨rest, hpieces⟩ := exists_pieces_eq_cons hbare htrim
  have hdrive := hp.noDrive hroot
  have hfirst := lead_ne_nil hp.startsBare hne
  rw [hlead] at hpieces
  refine ⟨lead p.namesText, rest.filter fun name => !name.isEmpty, ?_, ?_, hdrive⟩
  · rw [hp.wellFormed.names_eq, hpieces]
    rfl
  · rw [properNames, hp.wellFormed.names_eq, hpieces, List.filter_cons_of_pos]
    simpa using hfirst

/-- The portable text of a path is read as a path that is like it. -/
theorem alike_parse_portableText : (parse p.uri p.portableText).Alike p := by
  have htext := alike_portableText p
  have hcut : (withRoot p.uri p.portableText p.rootText.length (detect p.portableText)).Alike
      (withRoot p.uri p.raw p.rootText.length p.separator) := alike_withRoot htext _
  have hroot := hcut.rootText
  have hnames := hcut.namesText
  rw [rootText_withRoot p.uri p.raw, raw, List.take_left] at hroot
  rw [namesText_withRoot p.uri p.raw, raw, List.drop_left] at hnames
  rw [parse, length_eq_of_alike htext, hp.length_raw]
  exact ⟨rfl, hroot, hnames⟩

omit hp in
/-- What is appended to a legible path that is not empty leaves it legible. -/
theorem appended {base : Path} (hbase : base.Legible) (hempty : base.isEmpty = false) {t : Text}
    (ht : StartsBare t) : (base.appended t).Legible := by
  have hwf := hbase.wellFormed
  have hs := hwf.separator
  have hnames := hwf.namesText_appended t
  rw [hwf.gap_eq] at hnames
  refine ⟨hwf.appended _, ?_, ?_⟩
  · rw [hnames]
    by_cases hnil : base.namesText = []
    · rw [hnil, if_neg (by simp), List.append_nil, List.nil_append, startsBare_unify hs]
      exact ht
    · rw [List.append_assoc]
      exact hbase.startsBare.append hnil _
  · intro hrootless
    rw [hwf.rootText_appended] at hrootless
    have hnil : base.namesText ≠ [] := fun hnil => by
      rw [hwf.isEmpty_iff.mpr ⟨hrootless, hnil⟩] at hempty
      contradiction
    have hlead := hbase.noDrive hrootless
    rw [hnames]
    cases hend : endsInSeparator base.namesText with
    | false =>
        rwa [if_pos ⟨hnil, rfl⟩, List.append_assoc, List.singleton_append, lead_append_cons hs]
    | true =>
        obtain ⟨u, s, hu, hsep⟩ := exists_of_endsInSeparator hend
        rw [hu, lead_append_cons hsep] at hlead
        rwa [if_neg (by simp), hu, List.append_nil, List.append_assoc, List.singleton_append,
          lead_append_cons hsep]

theorem behindDrive (habs : p.isAbsolute = true) (hone : p.rootEnd = 1) {uri d : Text} {s : Char}
    (hd : Root.IsDriveName d) (hs : isSeparator s = true) :
    (behindDrive uri d s p.raw).Legible := by
  obtain ⟨c, hc, hraw⟩ := hp.wellFormed.exists_cons_of_bareRoot habs hone
  rw [hraw]
  obtain ⟨hroot, hnames⟩ := windows_behindDrive uri d p.namesText hs hc
  refine ⟨wellFormed_behindDrive hd hs hc, ?_, ?_⟩
  · rw [hnames, startsBare_unify hs]
    exact hp.startsBare
  · intro hnil
    rw [hroot] at hnil
    simp at hnil

/-- From a legible path a legible path leads to a legible one. -/
theorem resolve {base : Path} (hbase : base.Legible) : (base.resolve p).Legible := by
  have hbasewf := hbase.wellFormed
  by_cases hempty : base.isEmpty = true
  · rwa [resolve_of_isEmpty hempty]
  rw [Bool.not_eq_true] at hempty
  cases habs : p.isAbsolute with
  | true =>
      by_cases hdrive : p.rootEnd = 1 ∧ 0 < Root.afterDrive base.rootText
      · obtain ⟨d, r, hroot, hd, hr⟩ := hbasewf.root.exists_drive hdrive.2
        rw [resolve_of_drive hbasewf habs hdrive.1 hroot hr]
        exact hp.behindDrive habs hdrive.1 hd hbasewf.separator
      · rwa [resolve_of_isAbsolute hempty habs hdrive]
  | false =>
      by_cases hother : p.rootEnd ≠ 0 ∧ compatibleRoots base.root? p.root? = false
      · rwa [resolve_of_otherDrive hempty habs hother.1 hother.2]
      · rw [resolve_of_relative hempty habs fun hne => by simpa [hne] using hother]
        split
        · exact hbase
        · exact hbase.appended hempty hp.startsBare

end Legible

end LexicalPaths.Path
