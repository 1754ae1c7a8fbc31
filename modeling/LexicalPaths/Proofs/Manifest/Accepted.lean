import LexicalPaths.Proofs.Json.Nesting
import LexicalPaths.Proofs.Json.Spelled
import LexicalPaths.Proofs.Manifest.RoundTrip

/-!
# Which documents are manifests

Which records describe outputs and what is at fault with the others, said without the reader.  A
document is loaded exactly if it spells a list of records that all describe outputs; the first
record at fault decides the error, and the choice of types only chooses among the outputs.
-/

namespace LexicalPaths.Manifest

open LexicalPaths.Path (parse)

/-! ## Records -/

section

variable (entries : List (Text × Datum))

/-- The record names the type of its output. -/
def HasType (type : Text) : Prop :=
  ∃ table, Datum.entry? outputTypeKey entries = some (.table table) ∧
    Datum.entry? typeKey table = some (.text type)

def HasPath (t : Text) : Prop :=
  Datum.entry? Record.pathKey entries = some (.text t)

def FilesystemIsText : Prop :=
  ∀ d, Datum.entry? Record.filesystemKey entries = some d → ∃ uri, d = .text uri

def PropertiesAreTable : Prop :=
  ∀ d, Datum.entry? propertiesKey entries = some d → ∃ table, d = .table table

/-- The filesystem of a record; if the record has none it is the assumed one. -/
def HasFilesystem (assumed uri : Text) : Prop :=
  (Datum.entry? Record.filesystemKey entries).getD (.text assumed) = .text uri

/-- The properties of a record; if the record has none the table is empty. -/
def HasProperties (table : List (Text × Datum)) : Prop :=
  (Datum.entry? propertiesKey entries).getD (.table []) = .table table

end

/-- The record is a table that names a type and a path, and if it has a filesystem and properties
then these are a text and a table. -/
inductive IsRecord : Datum → Prop
  | mk {entries : List (Text × Datum)} {type t : Text} (htype : HasType entries type)
      (hpath : HasPath entries t) (hfilesystem : FilesystemIsText entries)
      (hproperties : PropertiesAreTable entries) : IsRecord (.table entries)

/-- The output that a record in the manifest of the folder `base` describes. -/
inductive Describes (base : Path) : Datum → Output → Prop
  | mk {entries table : List (Text × Datum)} {type t uri : Text} (htype : HasType entries type)
      (hpath : HasPath entries t) (hfilesystem : HasFilesystem entries base.uri uri)
      (hproperties : HasProperties entries table) :
      Describes base (.table entries)
        ⟨type, placed base (parse uri t), table.map fun (key, value) => (key, value.display)⟩

/-- What is wrong with a record.  Its parts are looked at in this order. -/
inductive AtFault : Datum → Fault → Prop
  | noTable {d : Datum} (hd : ∀ entries, d ≠ .table entries) : AtFault d (.noTable d)
  | noType {entries : List (Text × Datum)} (htype : ∀ type, ¬ HasType entries type) :
      AtFault (.table entries) (.noType (.table entries))
  | pathMissing {entries : List (Text × Datum)} {type : Text} (htype : HasType entries type)
      (hpath : Datum.entry? Record.pathKey entries = none) :
      AtFault (.table entries) (.pathMissing (.table entries))
  | pathKind {entries : List (Text × Datum)} {type : Text} {d : Datum}
      (htype : HasType entries type) (hpath : Datum.entry? Record.pathKey entries = some d)
      (hd : ∀ t, d ≠ .text t) : AtFault (.table entries) (.pathKind (.table entries))
  | filesystemKind {entries : List (Text × Datum)} {type t : Text} {d : Datum}
      (htype : HasType entries type) (hpath : HasPath entries t)
      (hfilesystem : Datum.entry? Record.filesystemKey entries = some d)
      (hd : ∀ uri, d ≠ .text uri) : AtFault (.table entries) (.filesystemKind d)
  | propertiesKind {entries : List (Text × Datum)} {type t : Text} {d : Datum}
      (htype : HasType entries type) (hpath : HasPath entries t)
      (hfilesystem : FilesystemIsText entries)
      (hproperties : Datum.entry? propertiesKey entries = some d) (hd : ∀ table, d ≠ .table table) :
      AtFault (.table entries) (.propertiesKind (.table entries))

section

variable {entries : List (Text × Datum)}

theorem typeName?_eq_some_iff {type : Text} :
    typeName? entries = some type ↔ HasType entries type := by
  unfold typeName?
  constructor
  · intro htype
    split at htype
    next table htable =>
      split at htype
      next name hname =>
        obtain rfl := Option.some.inj htype
        exact ⟨table, htable, hname⟩
      next => contradiction
    next => contradiction
  · rintro ⟨table, htable, hname⟩
    simp only [htable, hname]

theorem exists_hasFilesystem (hfilesystem : FilesystemIsText entries) (assumed : Text) :
    ∃ uri, HasFilesystem entries assumed uri := by
  unfold HasFilesystem
  cases hentry : Datum.entry? Record.filesystemKey entries with
  | none => exact ⟨assumed, rfl⟩
  | some d => exact hfilesystem d hentry

theorem exists_hasProperties (hproperties : PropertiesAreTable entries) :
    ∃ table, HasProperties entries table := by
  unfold HasProperties
  cases hentry : Datum.entry? propertiesKey entries with
  | none => exact ⟨[], rfl⟩
  | some d => exact hproperties d hentry

theorem decode_of_hasPath {t : Text} (hpath : HasPath entries t) {assumed uri : Text}
    (hfilesystem : HasFilesystem entries assumed uri) :
    Record.decode assumed entries = .ok (parse uri t) := by
  rw [Record.decode, hpath, Record.filesystem]
  unfold HasFilesystem at hfilesystem
  cases hentry : Datum.entry? Record.filesystemKey entries with
  | none =>
      rw [hentry] at hfilesystem
      cases hfilesystem
      rfl
  | some d =>
      rw [hentry] at hfilesystem
      cases hfilesystem
      rfl

theorem properties?_of_hasProperties {table : List (Text × Datum)}
    (hproperties : HasProperties entries table) :
    properties? entries = some (table.map fun (key, value) => (key, value.display)) := by
  rw [properties?]
  unfold HasProperties at hproperties
  cases hentry : Datum.entry? propertiesKey entries with
  | none =>
      rw [hentry] at hproperties
      cases hproperties
      rfl
  | some d =>
      rw [hentry] at hproperties
      cases hproperties
      rfl

end

variable {base : Path} {d : Datum}

theorem readRecord_of_describes {output : Output} (h : Describes base d output) :
    readRecord base d = .ok output := by
  cases h with
  | mk htype hpath hfilesystem hproperties =>
      rw [readRecord, typeName?_eq_some_iff.mpr htype, hpath]
      simp only [decode_of_hasPath hpath hfilesystem, properties?_of_hasProperties hproperties]

theorem readRecord_of_atFault {fault : Fault} (h : AtFault d fault) :
    readRecord base d = .error fault := by
  cases h with
  | noTable hd =>
      cases d with
      | table entries => exact absurd rfl (hd entries)
      | _ => rfl
  | @noType entries htype =>
      have hname : typeName? entries = none :=
        Option.eq_none_iff_forall_not_mem.mpr fun type hmem =>
          htype type (typeName?_eq_some_iff.mp hmem)
      rw [readRecord, hname]
  | pathMissing htype hpath => rw [readRecord, typeName?_eq_some_iff.mpr htype, hpath]
  | @pathKind entries type d htype hpath hd =>
      have hdecode : Record.decode base.uri entries = .error (.pathKind (.table entries)) := by
        rw [Record.decode, hpath]
        cases d with
        | text t => exact absurd rfl (hd t)
        | _ => rfl
      rw [readRecord, typeName?_eq_some_iff.mpr htype, hpath]
      simp only [hdecode]
  | @filesystemKind entries type t d htype hpath hfilesystem hd =>
      have hdecode : Record.decode base.uri entries = .error (.filesystemKind d) := by
        rw [Record.decode, hpath, Record.filesystem, hfilesystem]
        cases d with
        | text uri => exact absurd rfl (hd uri)
        | _ => rfl
      rw [readRecord, typeName?_eq_some_iff.mpr htype, hpath]
      simp only [hdecode]
  | @propertiesKind entries type t d htype hpath hfilesystem hproperties hd =>
      obtain ⟨uri, huri⟩ := exists_hasFilesystem hfilesystem base.uri
      have hnone : properties? entries = none := by
        rw [properties?, hproperties]
        cases d with
        | table table => exact absurd rfl (hd table)
        | _ => rfl
      rw [readRecord, typeName?_eq_some_iff.mpr htype, hpath]
      simp only [decode_of_hasPath hpath huri, hnone]

theorem IsRecord.exists_describes (h : IsRecord d) (base : Path) :
    ∃ output, Describes base d output := by
  cases h with
  | mk htype hpath hfilesystem hproperties =>
      obtain ⟨uri, huri⟩ := exists_hasFilesystem hfilesystem base.uri
      obtain ⟨table, htable⟩ := exists_hasProperties hproperties
      exact ⟨_, .mk htype hpath huri htable⟩

/-- What describes no output has a fault. -/
theorem isRecord_or_atFault (d : Datum) : IsRecord d ∨ ∃ fault, AtFault d fault := by
  -- the parts in the order in which they are looked at, each fault under what went well before it
  by_cases htable : ∃ entries, d = .table entries
  case neg => exact .inr ⟨_, .noTable fun entries heq => htable ⟨entries, heq⟩⟩
  obtain ⟨entries, rfl⟩ := htable
  by_cases htype : ∃ type, HasType entries type
  case neg => exact .inr ⟨_, .noType fun type hname => htype ⟨type, hname⟩⟩
  obtain ⟨type, htype⟩ := htype
  cases hpath : Datum.entry? Record.pathKey entries with
  | none => exact .inr ⟨_, .pathMissing htype hpath⟩
  | some d =>
      by_cases ht : ∃ t, d = .text t
      case neg => exact .inr ⟨_, .pathKind htype hpath fun t heq => ht ⟨t, heq⟩⟩
      obtain ⟨t, rfl⟩ := ht
      by_cases hfilesystem : FilesystemIsText entries
      case neg =>
        obtain ⟨d, hd⟩ := not_forall.mp hfilesystem
        obtain ⟨hentry, hno⟩ := Classical.not_imp.mp hd
        exact .inr ⟨_, .filesystemKind htype hpath hentry fun uri heq => hno ⟨uri, heq⟩⟩
      by_cases hproperties : PropertiesAreTable entries
      case neg =>
        obtain ⟨d, hd⟩ := not_forall.mp hproperties
        obtain ⟨hentry, hno⟩ := Classical.not_imp.mp hd
        exact .inr ⟨_, .propertiesKind htype hpath hfilesystem hentry fun table heq =>
          hno ⟨table, heq⟩⟩
      exact .inl (.mk htype hpath hfilesystem hproperties)

theorem AtFault.not_isRecord {fault : Fault} (h : AtFault d fault) : ¬ IsRecord d := by
  intro hrecord
  obtain ⟨output, hdescribes⟩ := hrecord.exists_describes (parse [] [])
  have hok := readRecord_of_describes hdescribes
  rw [readRecord_of_atFault h] at hok
  contradiction

/-! ## Lists of records -/

theorem readRecords_of_describes {records : List Datum} {outputs : Manifest}
    (h : List.Forall₂ (Describes base) records outputs) :
    readRecords base records = .ok outputs := by
  induction h with
  | nil => rfl
  | cons hfirst _ ih =>
      rw [readRecords, readRecord_of_describes hfirst]
      simp only [ih]
      rfl

theorem exists_describes_of_isRecord (base : Path) {records : List Datum}
    (h : ∀ d ∈ records, IsRecord d) : ∃ outputs, List.Forall₂ (Describes base) records outputs := by
  induction records with
  | nil => exact ⟨[], .nil⟩
  | cons d records ih =>
      obtain ⟨hd, hrest⟩ := List.forall_mem_cons.mp h
      obtain ⟨output, hfirst⟩ := hd.exists_describes base
      obtain ⟨outputs, houtputs⟩ := ih hrest
      exact ⟨output :: outputs, .cons hfirst houtputs⟩

/-- The first record at fault decides. -/
theorem readRecords_of_first (base : Path) {before : List Datum}
    (hbefore : ∀ r ∈ before, IsRecord r) {fault : Fault} (hd : AtFault d fault)
    (after : List Datum) :
    readRecords base (before ++ d :: after) = .error fault := by
  induction before with
  | nil => rw [List.nil_append, readRecords, readRecord_of_atFault hd]
  | cons r before ih =>
      obtain ⟨hr, hrest⟩ := List.forall_mem_cons.mp hbefore
      obtain ⟨output, hfirst⟩ := hr.exists_describes base
      rw [List.cons_append, readRecords, readRecord_of_describes hfirst]
      simp only [ih hrest]
      rfl

theorem forall_isRecord_or_first (records : List Datum) :
    (∀ d ∈ records, IsRecord d) ∨ ∃ before d after fault, records = before ++ d :: after ∧
      (∀ r ∈ before, IsRecord r) ∧ AtFault d fault := by
  induction records with
  | nil => exact .inl (by simp)
  | cons r records ih =>
      rcases isRecord_or_atFault r with hr | ⟨fault, hr⟩
      · rcases ih with hall | ⟨before, d, after, fault, rfl, hbefore, hd⟩
        · exact .inl (List.forall_mem_cons.mpr ⟨hr, hall⟩)
        · exact .inr ⟨r :: before, d, after, fault, rfl, List.forall_mem_cons.mpr ⟨hr, hbefore⟩, hd⟩
      · exact .inr ⟨[], r, records, fault, rfl, by simp, hr⟩

/-! ## Documents -/

/-- The text is no manifest. -/
inductive NoManifest (document : Text) : Prop
  | noJson (h : ∀ d, ¬ Json.Denotes document d)
  | noList {d : Datum} (h : Json.Denotes document d) (hd : ∀ records, d ≠ .list records)
  | noRecord {records : List Datum} {d : Datum} (h : Json.Denotes document (.list records))
      (hmem : d ∈ records) (hd : ¬ IsRecord d)

/-- The types to keep, if there is a choice. -/
def chosen (types? : Option (List Text)) : Option (List Datum) :=
  types?.map (List.map .text)

theorem checkTypes_chosen (types? : Option (List Text)) : checkTypes (chosen types?) = .ok () := by
  have hnone : ((chosen types?).getD []).find? (fun d => !d.canBeKey) = none := by
    cases types? with
    | none => rfl
    | some types => simp [chosen, Datum.canBeKey]
  rw [checkTypes, hnone]

theorem keepsType_chosen (types : List Text) (type : Text) :
    keepsType (chosen (some types)) type = decide (type ∈ types) := by
  rw [chosen, Option.map_some, keepsType, Option.all_some, List.any_map, Bool.eq_iff_iff]
  simp

section

variable (base : Path) {document : Text}

theorem load_of_items_error {error : Error} (hitems : items document = .error error)
    (types? : Option (List Datum)) : load base types? document = .error error :=
  loadWithin_of_items_error base types? hitems

theorem items_of_syntaxAt {fault : Json.Fault} {left : Nat}
    (hread : Json.read document = .error (.syntaxAt fault left)) :
    items document = .error (.format (.syntaxAt document fault (document.length - left))) := by
  unfold Json.read at hread
  rw [items, itemsWithin, hread]

variable (hlimit : ∀ n, Json.read document ≠ .error (.tooManyDigits n))
include hlimit

theorem items_of_denotes {records : List Datum} (h : Json.Denotes document (.list records)) :
    items document = .ok records := by
  have hread : Json.readWithin none document = .ok (.list records) :=
    (Json.read_eq_ok_iff hlimit _).mpr h
  rw [items, itemsWithin, hread]

theorem not_noManifest {records : List Datum} (h : Json.Denotes document (.list records))
    (hrecords : ∀ d ∈ records, IsRecord d) : ¬ NoManifest document := by
  have hread := (Json.read_eq_ok_iff hlimit _).mpr h
  rintro (hno | ⟨hother, hd⟩ | ⟨hother, hmem, hd⟩)
  · exact hno _ h
  · have heq := Except.ok.inj (hread.symm.trans ((Json.read_eq_ok_iff hlimit _).mpr hother))
    exact hd records heq.symm
  · have heq := Except.ok.inj (hread.symm.trans ((Json.read_eq_ok_iff hlimit _).mpr hother))
    obtain rfl := Datum.list.inj heq
    exact hd (hrecords _ hmem)

/-- Whatever the types to keep are, a text that is no manifest is refused with one fault, and from
a manifest the outputs of these types are loaded. -/
theorem load_cases :
    (∃ fault, NoManifest document ∧
      ∀ types?, load base (chosen types?) document = .error (.format fault)) ∨
    ∃ records outputs, ¬ NoManifest document ∧ Json.Denotes document (.list records) ∧
      List.Forall₂ (Describes base) records outputs ∧
      ∀ types?, load base (chosen types?) document =
        .ok (outputs.filter fun output => keepsType (chosen types?) output.type) := by
  cases hread : Json.read document with
  | error error =>
      cases error with
      | tooManyDigits n => exact absurd hread (hlimit n)
      | tooDeep => exact absurd hread (Json.read_ne_tooDeep document)
      | syntaxAt fault left =>
          refine .inl ⟨_, .noJson fun d h => ?_, fun types? =>
            load_of_items_error base (items_of_syntaxAt hread) _⟩
          rw [(Json.read_eq_ok_iff hlimit d).mpr h] at hread
          contradiction
  | ok d =>
      have hdenotes := Json.denotes_of_read hread
      by_cases hlist : ∃ records, d = .list records
      case neg =>
        have hd : ∀ records, d ≠ .list records := fun records heq => hlist ⟨records, heq⟩
        have hitems : items document = .error (.format .noList) := by
          unfold Json.read at hread
          rw [items, itemsWithin, hread]
          cases d with
          | list records => exact absurd rfl (hd records)
          | _ => rfl
        exact .inl ⟨_, .noList hdenotes hd, fun types? => load_of_items_error base hitems _⟩
      obtain ⟨records, rfl⟩ := hlist
      have hload := fun types? =>
        load_of_checkTypes base (checkTypes_chosen types?) (items_of_denotes hlimit hdenotes)
      rcases forall_isRecord_or_first records with
        hall | ⟨before, d, after, fault, rfl, hbefore, hd⟩
      · obtain ⟨outputs, houtputs⟩ := exists_describes_of_isRecord base hall
        refine .inr ⟨records, outputs, not_noManifest hlimit hdenotes hall, hdenotes, houtputs,
          fun types? => ?_⟩
        rw [hload, readRecords_of_describes houtputs]
        rfl
      · refine .inl ⟨fault, .noRecord hdenotes (by simp) hd.not_isRecord, fun types? => ?_⟩
        rw [hload, readRecords_of_first base hbefore hd after]
        rfl

end

/-- What loading a text with a choice of types amounts to. -/
structure Acceptance (base : Path) (document : Text) : Prop where
  refused_iff : ∀ types?, (∃ fault, load base (chosen types?) document = .error (.format fault)) ↔
    NoManifest document
  refused : ∀ types? error, load base (chosen types?) document = .error error →
    ∃ fault, error = .format fault
  types_irrelevant : ∀ types? error, load base (chosen types?) document = .error error ↔
    load base none document = .error error
  first : ∀ types? before d after fault, Json.Denotes document (.list (before ++ d :: after)) →
    (∀ r ∈ before, IsRecord r) → AtFault d fault →
      load base (chosen types?) document = .error (.format fault)
  described : ∀ outputs, load base none document = .ok outputs →
    ∃ records, Json.Denotes document (.list records) ∧
      List.Forall₂ (Describes base) records outputs
  kept : ∀ types outputs, load base none document = .ok outputs →
    load base (chosen (some types)) document =
      .ok (outputs.filter fun output => output.type ∈ types)

/-- A text is loaded exactly if it is a manifest, and the types only choose among its outputs. -/
theorem acceptance_of_limit (base : Path) {document : Text}
    (hlimit : ∀ n, Json.read document ≠ .error (.tooManyDigits n)) : Acceptance base document := by
  have hfirst : ∀ types? before d after fault,
      Json.Denotes document (.list (before ++ d :: after)) → (∀ r ∈ before, IsRecord r) →
        AtFault d fault → load base (chosen types?) document = .error (.format fault) := by
    intro types? before d after fault hdenotes hbefore hd
    rw [load_of_checkTypes base (checkTypes_chosen types?) (items_of_denotes hlimit hdenotes),
      readRecords_of_first base hbefore hd after]
    rfl
  rcases load_cases base hlimit with
    ⟨fault, hno, hload⟩ | ⟨records, outputs, hyes, hdenotes, houtputs, hload⟩
  · have hnone : load base none document = .error (.format fault) := hload none
    exact {
      refused_iff := fun types? => iff_of_true ⟨fault, hload types?⟩ hno
      refused := fun types? error herror =>
        ⟨fault, (Except.error.inj ((hload types?).symm.trans herror)).symm⟩
      types_irrelevant := fun types? error => by rw [hload, hnone]
      first := hfirst
      described := fun outputs hok => by rw [hnone] at hok; contradiction
      kept := fun types outputs hok => by rw [hnone] at hok; contradiction }
  · have hnone : load base none document = .ok outputs := by
      rw [← filter_keepsType_none outputs]
      exact hload none
    exact {
      refused_iff := fun types? => iff_of_false (by rw [hload]; simp) hyes
      refused := fun types? error herror => by rw [hload] at herror; contradiction
      types_irrelevant := fun types? error => by rw [hload, hnone]; simp
      first := hfirst
      described := fun found hok => by
        obtain rfl := Except.ok.inj (hnone.symm.trans hok)
        exact ⟨records, hdenotes, houtputs⟩
      kept := fun types found hok => by
        obtain rfl := Except.ok.inj (hnone.symm.trans hok)
        rw [hload]
        simp only [keepsType_chosen] }

/-- A record of an output of type `B` whose path is a list. -/
def listedPath : Datum :=
  .table [(outputTypeKey, .table [(typeKey, .text "B".toList)]), (Record.pathKey, .list [])]

theorem read_listedPath :
    Json.read (Json.write .line (.list [listedPath])) = .ok (.list [listedPath]) := by
  have htype : Json.Plain (.table [(typeKey, .text "B".toList)]) :=
    .table (by simp) (by simpa using .text _)
  have hrecord : Json.Plain listedPath := by
    refine .table (by decide) ?_
    simpa using ⟨htype, .list (by simp)⟩
  have hblank : Json.Layout.line.IsBlank := trivial
  exact Json.read_write hblank (.list (by simpa using hrecord))

/-- A record of an unwanted type is refused like any other. -/
theorem acceptance_of_unwanted_type :
    (∀ n, Json.read (Json.write .line (.list [listedPath])) ≠ .error (.tooManyDigits n)) ∧
    Acceptance (parse Path.localUri "out".toList) (Json.write .line (.list [listedPath])) ∧
    load (parse Path.localUri "out".toList) (chosen (some ["A".toList]))
      (Json.write .line (.list [listedPath])) = .error (.format (.pathKind listedPath)) := by
  have hlimit : ∀ n, Json.read (Json.write .line (.list [listedPath])) ≠
      .error (.tooManyDigits n) := fun n => by
    rw [read_listedPath]
    simp
  have haccept := acceptance_of_limit (parse Path.localUri "out".toList) hlimit
  exact ⟨hlimit, haccept, haccept.first _ [] _ [] _ (Json.denotes_of_read read_listedPath)
    (by simp) (.pathKind ⟨_, rfl, rfl⟩ rfl (by simp))⟩

end LexicalPaths.Manifest
