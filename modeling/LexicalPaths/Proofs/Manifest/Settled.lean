import LexicalPaths.Proofs.Manifest.Document
import LexicalPaths.Proofs.Path.Reachable

/-!
# Manifests that settle

A manifest that was loaded, written and loaded again has records that no further passage changes:
what is recorded of a path is recorded again of the path that is read from it.  This needs a folder
with an absolute path that names no drive, for a name that is read as a drive must not lead back
into the folder.
-/

namespace LexicalPaths.Manifest

open Separator
open LexicalPaths.Path (Alike LiesBelow Reachable parse parentName)

/-- Two paths that are recorded alike in the manifest of the folder `base`. -/
structure SameRecord (base p q : Path) : Prop where
  uri : (stored base p).uri = (stored base q).uri
  portableText : (stored base p).portableText = (stored base q).portableText

theorem record_eq_of_sameRecord {base : Path} {one two : Output} (htype : one.type = two.type)
    (hproperties : one.properties = two.properties) (hsame : SameRecord base one.path two.path) :
    record base one = record base two := by
  rw [record_eq, record_eq, htype, hproperties, hsame.uri, hsame.portableText]

/-- What is read from a record and recorded as it is has the same record. -/
theorem sameRecord_of_stored {base p : Path} (hread : reloaded base p = reread base p)
    (hstored : stored base (reread base p) = reread base p) :
    SameRecord base (reloaded base p) p := by
  have huri : (reread base p).uri = (stored base p).uri := rfl
  have htext : (reread base p).portableText = (stored base p).portableText := by
    rw [reread, Path.portableText_parse, Path.unify_portableText]
  rw [← hstored, ← hread] at huri htext
  exact ⟨huri, htext⟩

theorem liesBelow_of_alike {base p q : Path} (halike : p.Alike q) (hp : p.WellFormed)
    (hq : q.WellFormed) {first : Text} {rest : List Text} (hbelow : LiesBelow base p first rest) :
    LiesBelow base q first rest := by
  have hnames := halike.names hp hq
  constructor
  case isAbsolute => rw [← Path.isAbsolute_eq_of_rootKey hp hq halike.rootKey, hbelow.isAbsolute]
  case uri => exact halike.uri.symm.trans hbelow.uri
  case rootKey => exact hbelow.rootKey.trans halike.rootKey
  case names => rw [Path.properNames, ← hnames, ← Path.properNames, hbelow.names]

section

variable {base : Path} (hbase : base.WellFormed) (habs : base.isAbsolute = true)
include hbase habs

/-- What was placed is never placed again. -/
theorem rootText_or_uri_placed {q : Path} (hq : q.WellFormed) :
    (placed base q).rootText ≠ [] ∨ (placed base q).uri ≠ base.uri := by
  have hne := hbase.rootText_ne_nil_of_isAbsolute habs
  unfold placed
  split
  next hrootless =>
    have hroot := hq.rootText_eq_nil_iff.mpr hrootless.1
    rw [hbase.rootText_resolve_of_rootText_nil hq (Path.not_isEmpty_of_rootText hbase hne) hroot]
    exact .inl hne
  next hplace =>
    rw [Ne, hq.rootText_eq_nil_iff]
    tauto

theorem legible_or_rootText_placed {q : Path} (hq : q.Legible) :
    (placed base q).Legible ∨ (placed base q).rootText = base.rootText := by
  have hempty := Path.not_isEmpty_of_rootText hbase (hbase.rootText_ne_nil_of_isAbsolute habs)
  unfold placed
  split
  next hrootless =>
    have hroot := hq.wellFormed.rootText_eq_nil_iff.mpr hrootless.1
    exact .inr (hbase.rootText_resolve_of_rootText_nil hq.wellFormed hempty hroot)
  next => exact .inl hq

variable (hdrive : driveColon ∉ base.rootText)
include hdrive

omit habs in
/-- Nothing on a drive lies below a folder on no drive. -/
theorem not_liesBelow_of_drive {p : Path} (hp : p.WellFormed) (hcolon : driveColon ∈ p.rootText)
    (first : Text) (rest : List Text) : ¬ LiesBelow base p first rest := by
  intro hbelow
  have hkey := hbelow.rootKey
  rw [Path.rootKey_eq, Path.rootKey_eq] at hkey
  have hrun := Root.isRun_of_key_eq (hbase.root.isRun hdrive) hp.root hkey
  exact Root.driveColon_notMem_of_isRun hrun.1 hcolon

omit habs in
/-- Separators that are read as part of the root lead to another root. -/
theorem startsBare_of_liesBelow_parse {p : Path} (hp : p.WellFormed) (hne : base.rootText ≠ [])
    (hroot : p.rootText = base.rootText) {first : Text} {rest : List Text}
    (hbelow : LiesBelow base (parse p.uri p.portableText) first rest) :
    StartsBare p.namesText := by
  have hread := Path.wellFormed_parse p.uri p.portableText
  have hkey := hbelow.rootKey
  rw [Path.rootKey_eq, Path.rootKey_eq] at hkey
  obtain ⟨-, hlen⟩ := Root.isRun_of_key_eq (hbase.root.isRun hdrive) hread.root hkey
  have hlength := hp.length_portableText (by rwa [hroot])
  have hall : (parse p.uri p.portableText).rootText.length = Root.length p.portableText :=
    hread.length_rootText
  apply Root.startsBare_of_separatorRun
  rw [hroot] at hlength
  omega

variable {q : Path} (hq : q.Legible)
include hq

/-- What is recorded as it is is read as a path that is recorded as it is. -/
theorem sameRecord_of_not_below
    (hnot : ∀ first rest, LiesBelow base (placed base q) first rest → first = parentName) :
    SameRecord base (reloaded base (placed base q)) (placed base q) := by
  have hp := wellFormed_placed hbase hq.wellFormed
  have hread : reread base (placed base q) =
      parse (placed base q).uri (placed base q).portableText := by
    rw [reread, stored_of_not_below hbase hp hnot]
  have hwf := (legible_reread base (placed base q)).wellFormed
  have hplace : (reread base (placed base q)).rootText ≠ [] ∨
      (reread base (placed base q)).uri ≠ base.uri := by
    rw [hread]
    exact (rootText_or_uri_placed hbase habs hq.wellFormed).imp
      hp.rootText_parse_portableText_ne_nil id
  apply sameRecord_of_stored (placed_of_rootText hwf hplace)
  apply stored_of_not_below hbase hwf
  intro first rest hbelow
  have hlegible : (placed base q).Legible := by
    rcases legible_or_rootText_placed hbase habs hq with hlegible | hroot
    · exact hlegible
    · have hne := hbase.rootText_ne_nil_of_isAbsolute habs
      rw [hread] at hbelow
      exact ⟨hp, startsBare_of_liesBelow_parse hbase hdrive hp hne hroot hbelow,
        fun hnil => absurd (hroot.symm.trans hnil) hne⟩
  rw [hread] at hbelow hwf
  exact hnot first rest (liesBelow_of_alike hlegible.alike_parse_portableText hwf hp hbelow)

omit hq habs hdrive in
/-- What lies in the folder is read in the folder. -/
theorem sameRecord_of_below_of_plain {p : Path} (hp : p.WellFormed) {first : Text}
    {rest : List Text} (hbelow : LiesBelow base p first rest) (hup : first ≠ parentName)
    (hcolon : driveColon ∉ first) : SameRecord base (reloaded base p) p := by
  have habs := hbelow.isAbsolute_base hbase hp
  have hempty := Path.not_isEmpty_of_rootText hbase (hbase.rootText_ne_nil_of_isAbsolute habs)
  have hread := (legible_reread base p).wellFormed
  obtain ⟨hbare, hproper⟩ := reread_of_below_of_plain hbase hp hbelow hup hcolon
  have huri := (uri_reread_of_below hbase hp hbelow hup).trans hbelow.uri
  have hresolved := hbase.resolve hread
  have hagain := Path.liesBelow_resolve hbase hread habs hbare hproper
  have hne : (reread base p).namesText ≠ [] := by
    intro hnil
    rw [hread.properNames_eq, hnil] at hproper
    nomatch hproper
  have htrail : (base.resolve (reread base p)).hasTrailingSeparator = p.hasTrailingSeparator := by
    have htext : (reread base p).namesText =
        spell portable (first :: rest) p.hasTrailingSeparator := by
      have hraw : (reread base p).raw = spell portable (first :: rest) p.hasTrailingSeparator := by
        rw [reread_of_below hbase hp hbelow hup, parse, Path.raw_withRoot]
      rwa [Path.raw, hbare, List.nil_append] at hraw
    rw [hbase.hasTrailingSeparator_resolve_of_rootText_nil hread hempty hbare hne,
      hread.hasTrailingSeparator_eq, htext,
      endsInSeparator_spell (hbelow.isName hp) isSeparator_portable]
    simp
  rw [reloaded, placed_of_rootText_nil hread hbare huri]
  constructor
  case uri =>
    rw [stored_of_below hbase hresolved hagain hup, stored_of_below hbase hp hbelow hup]
    exact hagain.uri.trans hbelow.uri.symm
  case portableText =>
    rw [stored_of_below hbase hresolved hagain hup, stored_of_below hbase hp hbelow hup,
      portableText_tail hresolved (hagain.isName hresolved),
      portableText_tail hp (hbelow.isName hp), htrail]

omit hq habs in
/-- What lies in the folder along a name that holds a colon is read on a drive, and stays there. -/
theorem sameRecord_of_below_of_drive {p : Path} (hp : p.WellFormed) {first : Text}
    {rest : List Text} (hbelow : LiesBelow base p first rest) (hcolon : driveColon ∈ first) :
    SameRecord base (reloaded base p) p := by
  have hup := Path.ne_parentName_of_driveColon_mem hcolon
  have hread := (legible_reread base p).wellFormed
  have hdriven : driveColon ∈ (reread base p).rootText := by
    rw [reread_of_below hbase hp hbelow hup, parse, Path.rootText_withRoot]
    apply Root.mem_take_length_of_mem_lead
    rwa [lead_spell_cons isSeparator_portable (hbelow.isName hp first (by simp))]
  apply sameRecord_of_stored
  · exact placed_of_rootText hread (.inl (List.ne_nil_of_mem hdriven))
  · apply stored_of_not_below hbase hread
    intro m more hagain
    exact absurd hagain (not_liesBelow_of_drive hbase hdrive hread hdriven m more)

theorem sameRecord_reloaded :
    SameRecord base (reloaded base (placed base q)) (placed base q) := by
  by_cases hnot : ∀ first rest, LiesBelow base (placed base q) first rest → first = parentName
  · exact sameRecord_of_not_below hbase habs hdrive hq hnot
  · have hp := wellFormed_placed hbase hq.wellFormed
    push Not at hnot
    obtain ⟨first, rest, hbelow, hup⟩ := hnot
    by_cases hcolon : driveColon ∈ first
    · exact sameRecord_of_below_of_drive hbase hdrive hp hbelow hcolon
    · exact sameRecord_of_below_of_plain hbase hp hbelow hup hcolon

end

/-- A manifest that was loaded is loaded again from what was written of it, whatever the
indentation, with the same types and properties, and what is written then is the same. -/
theorem persist_settles {base : Path} (hbase : Reachable base) (habs : base.isAbsolute = true)
    (hdrive : driveColon ∉ base.rootText) {document : Text} {loaded : Manifest}
    (hload : load base none document = .ok loaded) :
    ∃ again : Manifest,
      List.Forall₂ (fun before after => after.type = before.type ∧
        after.properties = before.properties) loaded again ∧
      ∀ {memory : Nat} {indent : Option Int} {result : Json.Layout},
        layout memory (indent.elim .null .int) = .ok result →
          load base none (persist base result loaded) = .ok again ∧
            persist base result again = persist base result loaded := by
  have hwf := hbase.wellFormed
  have htable := distinctKeys_of_load hload
  obtain ⟨records, -, hread⟩ := load_eq_ok hload
  have hrecord : ∀ output ∈ loaded, (record base ∘ reloadedOutput base) output =
      record base output := by
    intro output houtput
    obtain ⟨d, -, hok⟩ := exists_record_of_mem hread output houtput
    obtain ⟨entries, uri, t, -, hpath, -⟩ := readRecord_eq_ok hok
    have hsame := sameRecord_reloaded hwf habs hdrive (Path.legible_parse uri t)
    rw [← hpath, ← path_reloadedOutput] at hsame
    exact record_eq_of_sameRecord (type_reloadedOutput base output)
      (properties_reloadedOutput base output) hsame
  refine ⟨loaded.map (reloadedOutput base), ?_, ?_⟩
  · rw [List.forall₂_map_right_iff, List.forall₂_same]
    exact fun output _ => ⟨type_reloadedOutput base output, properties_reloadedOutput base output⟩
  · intro memory indent result hlayout
    constructor
    · exact load_persist_eq base (isBlank_of_layout hlayout) htable
    · rw [persist_eq, persist_eq, List.map_map, List.map_congr_left hrecord]

/-- The output `/out/C:x` of the folder `/out` is loaded as `C:x`, and stays so. -/
theorem persist_settles_out :
    ∃ loaded again : Manifest,
      load (parse Path.localUri "/out".toList) none
        (persist (parse Path.localUri "/out".toList) .line
          [⟨"APK".toList, parse Path.localUri "/out/C:x".toList, []⟩]) = .ok loaded ∧
      loaded.map (fun output => output.path.raw) = ["C:x".toList] ∧
      load (parse Path.localUri "/out".toList) none
        (persist (parse Path.localUri "/out".toList) .line loaded) = .ok again ∧
      persist (parse Path.localUri "/out".toList) .line again =
        persist (parse Path.localUri "/out".toList) .line loaded := by
  have hload := @load_persist_eq (parse Path.localUri "/out".toList) .line trivial
    [⟨"APK".toList, parse Path.localUri "/out/C:x".toList, []⟩] (by simp [DistinctKeys])
  obtain ⟨again, -, hagain⟩ := persist_settles (.parse _ _) (by decide) (by decide) hload
  have hnone : layout 0 (Option.elim none .null .int) = .ok .line := rfl
  refine ⟨_, again, hload, ?_, hagain hnone⟩
  decide

end LexicalPaths.Manifest
