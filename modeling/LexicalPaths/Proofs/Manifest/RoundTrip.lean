import LexicalPaths.Manifest.Folder
import LexicalPaths.Proofs.Json.RoundTrip
import LexicalPaths.Proofs.Manifest.Reload

/-!
# Manifests that are written and read again

A manifest that is written and read again with the same folder keeps the number and the order of
its outputs, their types and their properties.  Their paths come back as `reloaded` says.
-/

namespace LexicalPaths.Manifest

open Separator
open LexicalPaths.Path (parse)

/-- An output as it comes back from the manifest of the folder `old` once that has become the folder
`new`. -/
def movedOutput (old new : Path) (output : Output) : Output :=
  { output with path := moved old new output.path }

/-- An output as it comes back from the manifest of the folder `base`. -/
def reloadedOutput (base : Path) (output : Output) : Output :=
  { output with path := reloaded base output.path }

theorem path_movedOutput (old new : Path) (output : Output) :
    (movedOutput old new output).path = moved old new output.path := by
  rw [movedOutput]

theorem type_reloadedOutput (base : Path) (output : Output) :
    (reloadedOutput base output).type = output.type := by
  rw [reloadedOutput]

theorem properties_reloadedOutput (base : Path) (output : Output) :
    (reloadedOutput base output).properties = output.properties := by
  rw [reloadedOutput]

theorem path_reloadedOutput (base : Path) (output : Output) :
    (reloadedOutput base output).path = reloaded base output.path := by
  rw [reloadedOutput]

/-- The properties of an output are a table: no key is set twice. -/
def DistinctKeys (output : Output) : Prop :=
  (output.properties.map Prod.fst).Nodup

/-! ## Records -/

/-- The entries that name the filesystem of a recorded path. -/
def filesystemEntries (assumed uri : Text) : List (Text × Datum) :=
  if uri = assumed then [] else [(Record.filesystemKey, .text uri)]

/-- The properties of an output as a value. -/
def propertiesDatum (properties : List (Text × Text)) : Datum :=
  .table (properties.map fun (key, value) => (key, .text value))

theorem recordDraft_eq (base : Path) (draft : Draft) :
    recordDraft base draft = .table
      ((outputTypeKey, .table [(typeKey, draft.type)]) ::
        (Record.pathKey, .text (stored base draft.path).portableText) ::
          (filesystemEntries base.uri (stored base draft.path).uri ++
            [(propertiesKey, propertiesDatum draft.properties)])) := rfl

theorem record_eq (base : Path) (output : Output) :
    record base output = .table
      ((outputTypeKey, .table [(typeKey, .text output.type)]) ::
        (Record.pathKey, .text (stored base output.path).portableText) ::
          (filesystemEntries base.uri (stored base output.path).uri ++
            [(propertiesKey, propertiesDatum output.properties)])) :=
  recordDraft_eq base (.ofOutput output)

/-- The type of a draft comes back from a document, and no property is set twice. -/
structure Draft.IsPlain (draft : Draft) : Prop where
  type : Json.Plain draft.type
  keys : (draft.properties.map Prod.fst).Nodup

theorem DistinctKeys.isPlain {output : Output} (htable : DistinctKeys output) :
    (Draft.ofOutput output).IsPlain :=
  ⟨.text output.type, htable⟩

theorem Draft.IsPlain.propertiesDatum {draft : Draft} (hplain : draft.IsPlain) :
    Json.Plain (propertiesDatum draft.properties) := by
  refine .table ?_ ?_
  · rw [List.map_map]
    exact hplain.keys
  · intro e he
    obtain ⟨⟨key, value⟩, -, rfl⟩ := List.mem_map.mp he
    exact .text value

theorem plain_recordDraft (base : Path) {draft : Draft} (hplain : draft.IsPlain) :
    Json.Plain (recordDraft base draft) := by
  have htype : Json.Plain (.table [(typeKey, draft.type)]) :=
    .table (by simp) (by simp [hplain.type])
  have hproperties := hplain.propertiesDatum
  rw [recordDraft_eq, filesystemEntries]
  split
  next =>
    refine .table ?_ (by simp [htype, hproperties, Json.Plain.text])
    show [outputTypeKey, Record.pathKey, propertiesKey].Nodup
    decide
  next =>
    refine .table ?_ (by simp [htype, hproperties, Json.Plain.text])
    show [outputTypeKey, Record.pathKey, Record.filesystemKey, propertiesKey].Nodup
    decide

theorem plain_recordDrafts (base : Path) {drafts : List Draft}
    (hplain : ∀ draft ∈ drafts, draft.IsPlain) :
    Json.Plain (.list (drafts.map (recordDraft base))) := by
  refine .list fun d hd => ?_
  obtain ⟨draft, hmem, rfl⟩ := List.mem_map.mp hd
  exact plain_recordDraft base (hplain draft hmem)

theorem isPlain_of_mem_map {outputs : Manifest} (htable : ∀ output ∈ outputs, DistinctKeys output) :
    ∀ draft ∈ outputs.map Draft.ofOutput, draft.IsPlain := by
  intro draft hdraft
  obtain ⟨output, hmem, rfl⟩ := List.mem_map.mp hdraft
  exact (htable output hmem).isPlain

section

variable (type path properties : Datum) (assumed uri : Text)

theorem entry?_outputTypeKey :
    Datum.entry? outputTypeKey ((outputTypeKey, type) :: (Record.pathKey, path) ::
      (filesystemEntries assumed uri ++ [(propertiesKey, properties)])) = some type := rfl

theorem entry?_pathKey :
    Datum.entry? Record.pathKey ((outputTypeKey, type) :: (Record.pathKey, path) ::
      (filesystemEntries assumed uri ++ [(propertiesKey, properties)])) = some path := rfl

theorem entry?_propertiesKey :
    Datum.entry? propertiesKey ((outputTypeKey, type) :: (Record.pathKey, path) ::
      (filesystemEntries assumed uri ++ [(propertiesKey, properties)])) = some properties := by
  unfold filesystemEntries
  split <;> rfl

theorem filesystem_eq :
    Record.filesystem assumed ((outputTypeKey, type) :: (Record.pathKey, path) ::
      (filesystemEntries assumed uri ++ [(propertiesKey, properties)])) = .ok uri := by
  unfold filesystemEntries
  split
  next heq =>
    subst heq
    rfl
  next => rfl

end

theorem display_text (t : Text) : (Datum.text t).display = t := by
  rw [Datum.display]

theorem properties_propertiesDatum (properties : List (Text × Text)) :
    (properties.map fun (key, value) => (key, Datum.text value)).map
      (fun (key, value) => (key, value.display)) = properties := by
  simp [display_text, Function.comp_def]

/-- Three brackets are open at once in the document of a manifest: those of the list, of a record,
and of a table in it. -/
theorem fits_records (base : Path) (outputs : Manifest) {room : Nat} (hroom : 3 ≤ room) :
    Json.Fits (some room) (.list (outputs.map (record base))) := by
  obtain ⟨room, rfl⟩ := Nat.exists_eq_add_of_le' hroom
  refine .list fun d hd => ?_
  obtain ⟨output, -, rfl⟩ := List.mem_map.mp hd
  have htype : Json.Fits (some (room + 1)) (.table [(typeKey, .text output.type)]) :=
    .table (by simp [Json.Fits.text])
  have hproperties : Json.Fits (some (room + 1)) (propertiesDatum output.properties) := by
    refine .table fun e he => ?_
    obtain ⟨⟨key, value⟩, -, rfl⟩ := List.mem_map.mp he
    exact .text room value
  rw [record_eq, filesystemEntries]
  split <;> exact .table (by simp [htype, hproperties, Json.Fits.text])

section

variable {old new : Path} (huri : new.uri = old.uri)
include huri

/-- The record of an output is read as the output that comes back. -/
theorem readRecord_record (output : Output) :
    readRecord new (record old output) = .ok (movedOutput old new output) := by
  have hdecode : Record.decode new.uri
      ((outputTypeKey, .table [(typeKey, .text output.type)]) ::
        (Record.pathKey, .text (stored old output.path).portableText) ::
          (filesystemEntries old.uri (stored old output.path).uri ++
            [(propertiesKey, propertiesDatum output.properties)])) =
      .ok (reread old output.path) := by
    unfold Record.decode
    rw [huri, entry?_pathKey, filesystem_eq]
    rfl
  rw [record_eq, readRecord, typeName?, entry?_outputTypeKey, entry?_pathKey, hdecode, properties?,
    entry?_propertiesKey]
  simp only [propertiesDatum, properties_propertiesDatum]
  rfl

theorem readRecords_map (outputs : Manifest) :
    readRecords new (outputs.map (record old)) = .ok (outputs.map (movedOutput old new)) := by
  induction outputs with
  | nil => rfl
  | cons output outputs ih =>
      rw [List.map_cons, readRecords, readRecord_record huri, ih]
      rfl

end

/-! ## Documents -/

theorem filter_keepsType_none (outputs : Manifest) :
    outputs.filter (fun output => keepsType none output.type) = outputs :=
  List.filter_eq_self.mpr fun _ _ => rfl

theorem persist_eq (base : Path) (layout : Json.Layout) (outputs : Manifest) :
    persist base layout outputs = Json.write layout (.list (outputs.map (record base))) := by
  rw [persist, persistDrafts, List.map_map]
  rfl

theorem loadWithin_of_items_error (base : Path) (types? : Option (List Datum)) {document : Text}
    {room? : Option Nat} {error : Error} (hitems : itemsWithin room? document = .error error) :
    loadWithin room? base types? document = .error error := by
  rw [loadWithin, hitems]
  rfl

/-- The first fault is the fault of the load, and the types to keep come after it. -/
theorem load_of_checkTypes (base : Path) {types? : Option (List Datum)}
    (htypes : checkTypes types? = .ok ()) {document : Text} {records : List Datum}
    (hitems : items document = .ok records) :
    load base types? document =
      ((readRecords base records).mapError .format).map
        (List.filter fun output => keepsType types? output.type) := by
  unfold items at hitems
  unfold load loadWithin
  rw [hitems]
  cases hread : readRecords base records with
  | error fault =>
      simp only [htypes, hread, bind, Except.bind]
      rfl
  | ok outputs =>
      simp only [htypes, hread, bind, Except.bind]
      rfl

/-- Without a list of types everything is loaded, and the first fault is the fault of the load. -/
theorem load_of_items (base : Path) {document : Text} {records : List Datum}
    (hitems : items document = .ok records) :
    load base none document = (readRecords base records).mapError .format := by
  rw [load_of_checkTypes base rfl hitems]
  cases readRecords base records with
  | error fault => rfl
  | ok outputs => exact congrArg Except.ok (filter_keepsType_none outputs)

/-- A document that is written is read as the records that were written. -/
theorem items_persistDrafts (base : Path) {layout : Json.Layout} (hblank : layout.IsBlank)
    {drafts : List Draft} (hplain : ∀ draft ∈ drafts, draft.IsPlain) :
    items (persistDrafts base layout drafts) = .ok (drafts.map (recordDraft base)) := by
  have hread : Json.readWithin none (persistDrafts base layout drafts) =
      .ok (.list (drafts.map (recordDraft base))) :=
    Json.read_write hblank (plain_recordDrafts base hplain)
  rw [items, itemsWithin, hread]

/-- There is room for reading a manifest that is written. -/
theorem loadWithin_persist (base : Path) {layout : Json.Layout} (hblank : layout.IsBlank)
    {outputs : Manifest} (htable : ∀ output ∈ outputs, DistinctKeys output) {room : Nat}
    (hroom : 3 ≤ room) (types? : Option (List Datum)) :
    loadWithin (some room) base types? (persist base layout outputs) =
      load base types? (persist base layout outputs) := by
  have hplain : Json.Plain (.list (outputs.map (record base))) := by
    have hdrafts := plain_recordDrafts base (isPlain_of_mem_map htable)
    rwa [List.map_map] at hdrafts
  have hread : Json.readWithin (some room) (persist base layout outputs) =
      Json.readWithin none (persist base layout outputs) := by
    rw [persist_eq]
    exact (Json.readWithin_write hblank hplain (fits_records base outputs hroom)).trans
      (Json.read_write hblank hplain).symm
  unfold load loadWithin itemsWithin
  rw [hread]

/-- A manifest that is written can be read in another place, and all its outputs come back in
order. -/
theorem load_persist_moved_eq {old new : Path} (huri : new.uri = old.uri) {layout : Json.Layout}
    (hblank : layout.IsBlank) {outputs : Manifest}
    (htable : ∀ output ∈ outputs, DistinctKeys output) :
    load new none (persist old layout outputs) = .ok (outputs.map (movedOutput old new)) := by
  have hitems : items (persist old layout outputs) = .ok (outputs.map (record old)) := by
    rw [persist, items_persistDrafts old hblank (isPlain_of_mem_map htable), List.map_map]
    rfl
  rw [load_of_items new hitems, readRecords_map huri outputs]
  rfl

theorem load_persist_eq (base : Path) {layout : Json.Layout} (hblank : layout.IsBlank)
    {outputs : Manifest} (htable : ∀ output ∈ outputs, DistinctKeys output) :
    load base none (persist base layout outputs) = .ok (outputs.map (reloadedOutput base)) :=
  load_persist_moved_eq rfl hblank htable

theorem spaced_eq_ok {memory : Nat} {n : Int} {result : Json.Layout}
    (hspaced : spaced memory n = .ok result) : result = .indented (List.replicate n.toNat ' ') := by
  unfold spaced at hspaced
  split at hspaced
  · contradiction
  · split at hspaced
    · contradiction
    · exact (Except.ok.inj hspaced).symm

/-- Indentation by a number of spaces, or none, puts nothing but space between the parts. -/
theorem isBlank_of_layout {memory : Nat} {indent : Option Int} {result : Json.Layout}
    (hlayout : layout memory (indent.elim .null .int) = .ok result) : result.IsBlank := by
  cases indent with
  | none =>
      obtain rfl := Except.ok.inj hlayout
      trivial
  | some n =>
      rw [spaced_eq_ok hlayout]
      exact Json.isBlank_spaces n.toNat

/-- How an output comes back: with its type and its properties, and with a path to the same place
unless that was misread.  What has no root on the filesystem of the manifest is placed in the
folder. -/
structure Restored (base : Path) (original loaded : Output) : Prop where
  type : loaded.type = original.type
  properties : loaded.properties = original.properties
  rootless : original.path.root? = none → original.path.uri = base.uri →
    loaded.path.Alike (base.resolve original.path)
  placed : original.path.root? ≠ none ∨ original.path.uri ≠ base.uri →
    (SamePlace loaded.path original.path ↔ ¬ Misread base original.path)

theorem restored_reloadedOutput {base : Path} (hbase : base.WellFormed) {output : Output}
    (hpath : output.path.Legible) : Restored base output (reloadedOutput base output) where
  type := type_reloadedOutput base output
  properties := properties_reloadedOutput base output
  rootless := by
    intro hroot huri
    rw [path_reloadedOutput]
    exact alike_reloaded hbase hpath (hpath.wellFormed.root?_eq_none_iff_rootText.mp hroot) huri
  placed := by
    intro hplace
    rw [path_reloadedOutput]
    apply samePlace_reloaded_iff hbase hpath
    rwa [Ne, ← hpath.wellFormed.root?_eq_none_iff_rootText]

/-- Writing a manifest and reading it again gives back its outputs, each as `Restored` says. -/
theorem load_persist {uri t : Text} {memory : Nat} {indent : Option Int} {result : Json.Layout}
    (hlayout : layout memory (indent.elim .null .int) = .ok result) {outputs : Manifest}
    (hpaths : ∀ output ∈ outputs, ∃ u s, output.path = parse u s)
    (htable : ∀ output ∈ outputs, DistinctKeys output) :
    ∃ loaded, load (parse uri t) none (persist (parse uri t) result outputs) = .ok loaded ∧
      List.Forall₂ (Restored (parse uri t)) outputs loaded := by
  have hbase := Path.wellFormed_parse uri t
  refine ⟨_, load_persist_eq (parse uri t) (isBlank_of_layout hlayout) htable, ?_⟩
  rw [List.forall₂_map_right_iff, List.forall₂_same]
  intro output hmem
  obtain ⟨u, s, hpath⟩ := hpaths output hmem
  exact restored_reloadedOutput hbase (hpath ▸ Path.legible_parse u s)

/-- The output `/out/C:x` does not come back from the manifest of `/out`: what is recorded is
`C:x`. -/
theorem load_persist_drive_below_base :
    ∃ loaded, load (parse Path.localUri "/out".toList) none
        (persist (parse Path.localUri "/out".toList) .line
          [⟨"APK".toList, parse Path.localUri "/out/C:x".toList, []⟩]) = .ok loaded ∧
      ∀ output ∈ loaded, ¬ SamePlace output.path (parse Path.localUri "/out/C:x".toList) := by
  obtain ⟨loaded, hload, hrestored⟩ := @load_persist Path.localUri "/out".toList 0 none .line rfl
    [⟨"APK".toList, parse Path.localUri "/out/C:x".toList, []⟩] (by simp) (by simp [DistinctKeys])
  refine ⟨loaded, hload, ?_⟩
  cases hrestored with
  | @cons _ output _ _ hone hnone =>
      cases hnone
      intro other hother
      obtain rfl := List.mem_singleton.mp hother
      have hmisread : Misread (parse Path.localUri "/out".toList)
          (parse Path.localUri "/out/C:x".toList) := by
        refine ⟨"C:x".toList, [], ⟨rfl, rfl, rfl, rfl⟩, by decide, ?_⟩
        rintro ⟨-, -, hups⟩
        exact absurd hups (by decide)
      rw [hone.placed (.inl ((Path.root?_eq_none_iff _).not.mpr (by decide))), not_not]
      exact hmisread

end LexicalPaths.Manifest
