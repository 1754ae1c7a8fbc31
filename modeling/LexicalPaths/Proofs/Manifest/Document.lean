import LexicalPaths.Proofs.Json.Keys
import LexicalPaths.Proofs.Json.Lines
import LexicalPaths.Proofs.Json.Nesting
import LexicalPaths.Proofs.Manifest.Location
import LexicalPaths.Proofs.Manifest.RoundTrip

/-!
# Documents of manifests

What can be said of outputs because they were loaded, and what tells the document of a manifest
apart from other texts: it ends where its list ends, it has no line ends that reading changes, and
it does not begin like a configuration.
-/

namespace LexicalPaths.Manifest

open LexicalPaths.Path (Legible parse)

/-! ## Limited room -/

theorem itemsWithin_cases (room : Nat) (document : Text) :
    itemsWithin (some room) document = .error .tooDeep ∨
      itemsWithin (some room) document = items document := by
  unfold items itemsWithin
  rcases Json.keeps_readWithin room document with hdeep | hsame
  · rw [hdeep]
    exact .inl rfl
  · rw [hsame]
    exact .inr rfl

section

variable {room : Nat} {document : Text} (base : Path) (types? : Option (List Datum))

theorem loadWithin_of_items (hsame : itemsWithin (some room) document = items document) :
    loadWithin (some room) base types? document = load base types? document := by
  rw [load, loadWithin, loadWithin, hsame]
  rfl

end

/-- What is loaded with limited room is loaded without a limit. -/
theorem load_of_loadWithin {room : Nat} {base : Path} {types? : Option (List Datum)}
    {document : Text} {outputs : Manifest}
    (hload : loadWithin (some room) base types? document = .ok outputs) :
    load base types? document = .ok outputs := by
  rcases itemsWithin_cases room document with hdeep | hsame
  · rw [loadWithin_of_items_error base types? hdeep] at hload
    contradiction
  · rwa [loadWithin_of_items base types? hsame] at hload

/-! ## Loaded outputs -/

theorem load_eq_ok {base : Path} {document : Text} {outputs : Manifest}
    (hload : load base none document = .ok outputs) :
    ∃ records, Json.read document = .ok (.list records) ∧
      readRecords base records = .ok outputs := by
  cases hitems : items document with
  | error error =>
      unfold load loadWithin at hload
      unfold items at hitems
      rw [hitems] at hload
      contradiction
  | ok records =>
      refine ⟨records, ?_, ?_⟩
      · unfold items itemsWithin at hitems
        split at hitems
        next => contradiction
        next => contradiction
        next => contradiction
        next hread =>
          obtain rfl := Except.ok.inj hitems
          exact hread
        next => contradiction
      · rw [load_of_items base hitems] at hload
        cases hread : readRecords base records with
        | error fault =>
            rw [hread] at hload
            contradiction
        | ok found =>
            rw [hread] at hload
            exact congrArg Except.ok (Except.ok.inj hload)

theorem readRecords_cons_eq_ok {base : Path} {d : Datum} {records : List Datum}
    {outputs : Manifest} (hread : readRecords base (d :: records) = .ok outputs) :
    ∃ first rest, readRecord base d = .ok first ∧ readRecords base records = .ok rest ∧
      outputs = first :: rest := by
  unfold readRecords at hread
  cases hfirst : readRecord base d with
  | error fault =>
      rw [hfirst] at hread
      contradiction
  | ok first =>
      rw [hfirst] at hread
      cases hrest : readRecords base records with
      | error fault =>
          rw [hrest] at hread
          contradiction
      | ok rest =>
          rw [hrest] at hread
          exact ⟨first, rest, rfl, rfl, (Except.ok.inj hread).symm⟩

theorem exists_record_of_mem {base : Path} {records : List Datum} {outputs : Manifest}
    (hread : readRecords base records = .ok outputs) :
    ∀ output ∈ outputs, ∃ record ∈ records, readRecord base record = .ok output := by
  induction records generalizing outputs with
  | nil =>
      obtain rfl := Except.ok.inj hread
      simp
  | cons d records ih =>
      obtain ⟨first, rest, hfirst, hrest, rfl⟩ := readRecords_cons_eq_ok hread
      intro output houtput
      rcases List.mem_cons.mp houtput with rfl | hmem
      · exact ⟨d, List.mem_cons_self, hfirst⟩
      · obtain ⟨record, hrecord, hok⟩ := ih hrest output hmem
        exact ⟨record, List.mem_cons_of_mem d hrecord, hok⟩

theorem exists_output_of_mem {base : Path} {records : List Datum} {outputs : Manifest}
    (hread : readRecords base records = .ok outputs) :
    ∀ record ∈ records, ∃ output, readRecord base record = .ok output := by
  induction records generalizing outputs with
  | nil => simp
  | cons d records ih =>
      obtain ⟨first, rest, hfirst, hrest, -⟩ := readRecords_cons_eq_ok hread
      intro record hrecord
      rcases List.mem_cons.mp hrecord with rfl | hmem
      · exact ⟨first, hfirst⟩
      · exact ih hrest record hmem

theorem readRecord_eq_ok {base : Path} {record : Datum} {output : Output}
    (hread : readRecord base record = .ok output) :
    ∃ entries uri t, record = .table entries ∧ output.path = placed base (parse uri t) ∧
      properties? entries = some output.properties := by
  unfold readRecord at hread
  split at hread
  next entries =>
    split at hread
    next => contradiction
    next => contradiction
    next =>
      split at hread
      next => contradiction
      next => contradiction
      next p properties hdecode hproperties =>
        obtain rfl := Except.ok.inj hread
        unfold Record.decode at hdecode
        split at hdecode
        next t _ =>
          cases huri : Record.filesystem base.uri entries with
          | error fault =>
              rw [huri] at hdecode
              contradiction
          | ok uri =>
              rw [huri] at hdecode
              obtain rfl := Except.ok.inj hdecode
              exact ⟨entries, uri, t, rfl, rfl, hproperties⟩
        next => contradiction
  next => contradiction

theorem nodup_of_properties? {entries : List (Text × Datum)} {properties : List (Text × Text)}
    (hkeyed : Json.Keyed (.table entries)) (hproperties : properties? entries = some properties) :
    (properties.map Prod.fst).Nodup := by
  unfold properties? at hproperties
  split at hproperties
  next =>
    obtain rfl := Option.some.inj hproperties
    simp
  next table htable =>
    obtain rfl := Option.some.inj hproperties
    obtain ⟨before, after, hentries, -⟩ := List.lookup_eq_some_iff.mp htable
    have hmem : (propertiesKey, Datum.table table) ∈ entries := by simp [hentries]
    have hkeys := (hkeyed.of_table.2 _ hmem).of_table.1
    rwa [List.map_map]
  next => contradiction

theorem distinctKeys_of_load {base : Path} {document : Text} {outputs : Manifest}
    (hload : load base none document = .ok outputs) :
    ∀ output ∈ outputs, DistinctKeys output := by
  obtain ⟨records, hjson, hread⟩ := load_eq_ok hload
  have hkeyed := (Json.keyed_of_read hjson).of_list
  intro output houtput
  obtain ⟨record, hrecord, hok⟩ := exists_record_of_mem hread output houtput
  obtain ⟨entries, uri, t, rfl, -, hproperties⟩ := readRecord_eq_ok hok
  exact nodup_of_properties? (hkeyed _ hrecord) hproperties

theorem legible_of_load {base : Path} (hbase : base.Legible) {document : Text}
    {outputs : Manifest} (hload : load base none document = .ok outputs) :
    ∀ output ∈ outputs, output.path.Legible := by
  obtain ⟨records, -, hread⟩ := load_eq_ok hload
  intro output houtput
  obtain ⟨record, -, hok⟩ := exists_record_of_mem hread output houtput
  obtain ⟨entries, uri, t, -, hpath, -⟩ := readRecord_eq_ok hok
  rw [hpath]
  exact legible_placed hbase (Path.legible_parse uri t)

/-! ## Written documents -/

section

variable (base : Path) {layout : Json.Layout}

theorem return_notMem_persistDrafts {drafts : List Draft}
    (hplain : ∀ draft ∈ drafts, draft.IsPlain) (hlines : layout.KeepsLines) :
    '\r' ∉ persistDrafts base layout drafts :=
  Json.return_notMem_print hlines (plain_recordDrafts base hplain) 0

theorem return_notMem_persist {outputs : Manifest}
    (htable : ∀ output ∈ outputs, DistinctKeys output) (hlines : layout.KeepsLines) :
    '\r' ∉ persist base layout outputs :=
  return_notMem_persistDrafts base (isPlain_of_mem_map htable) hlines

variable (hblank : layout.IsBlank)
include hblank

/-- Behind the document of a manifest there can be nothing but space. -/
theorem load_append_ne_ok {outputs : Manifest} (htable : ∀ output ∈ outputs, DistinctKeys output)
    {rest : Text} {c : Char} (hc : c ∈ rest) (hspace : Json.isSpace c = false) (found : Manifest) :
    load base none (persist base layout outputs ++ rest) ≠ .ok found := by
  intro hload
  obtain ⟨records, hread, -⟩ := load_eq_ok hload
  have hplain := plain_recordDrafts base (isPlain_of_mem_map htable)
  exact Json.read_write_append_ne_ok hblank hplain hc hspace _ hread

/-- No manifest is read from a document with a record whose type was left out. -/
theorem load_persistDrafts_ne_ok {drafts : List Draft} (hplain : ∀ draft ∈ drafts, draft.IsPlain)
    {draft : Draft} (hmem : draft ∈ drafts) (htype : ∀ t, draft.type ≠ .text t) (found : Manifest) :
    load base none (persistDrafts base layout drafts) ≠ .ok found := by
  intro hload
  rw [load_of_items base (items_persistDrafts base hblank hplain)] at hload
  have hfault : readRecord base (recordDraft base draft) =
      .error (.noType (recordDraft base draft)) := by
    rw [recordDraft_eq, readRecord, typeName?, entry?_outputTypeKey]
    have hname : Datum.entry? typeKey [(typeKey, draft.type)] = some draft.type := rfl
    simp only [hname]
    cases htext : draft.type with
    | text t => exact absurd htext (htype t)
    | _ => rfl
  cases hread : readRecords base (drafts.map (recordDraft base)) with
  | error fault =>
      rw [hread] at hload
      contradiction
  | ok outputs =>
      have hrecord := List.mem_map_of_mem (f := recordDraft base) hmem
      obtain ⟨output, hok⟩ := exists_output_of_mem hread _ hrecord
      rw [hfault] at hok
      contradiction

end

/-! ## Other documents -/

theorem load_nil_ne_ok (base : Path) (found : Manifest) : load base none [] ≠ .ok found := by
  intro hload
  obtain ⟨records, hread, -⟩ := load_eq_ok hload
  contradiction

theorem load_comment_ne_ok (base : Path) (t : Text) (found : Manifest) :
    load base none ('#' :: t) ≠ .ok found := by
  intro hload
  obtain ⟨records, hread, -⟩ := load_eq_ok hload
  have hspace : Json.skipSpace ('#' :: t) = '#' :: t := Json.skipSpace_cons rfl t
  have hvalue : ∀ fuel, Json.value none (fuel + 1) ('#' :: t) =
      Json.fail .expectingValue ('#' :: t) := fun _ => rfl
  unfold Json.read Json.readWithin at hread
  rw [hspace, hvalue] at hread
  split at hread <;> contradiction

end LexicalPaths.Manifest
