import LexicalPaths.Manifest.Folder
import LexicalPaths.Proofs.Host.Sparing
import LexicalPaths.Proofs.Manifest.Document
import LexicalPaths.Proofs.Text.Utf8

/-!
# Manifests of folders

What is loaded from a folder depends on the file of its manifest alone.  A manifest that is saved
is what the file holds, unless the log goes to the same file: then the line that reports the saving
follows the document, and nothing can be loaded any more.
-/

namespace LexicalPaths

/-- All log records go to the file at a place, which is never put aside. -/
structure Host.Logs (host : Host) (place : Place) : Prop where
  steady : host.machine.rotation? = none
  logFile : host.logger.file? = some (place, Level.debug)
  isFile : ∃ bytes, host.files.entry? place = some (.file bytes)

theorem Host.Logs.files_record {host : Host} {place : Place} (hlogs : host.Logs place)
    {r : LogRecord} (hlevel : Level.debug ≤ r.level) :
    (host.record r).files = host.files.append place (Utf8.encode (r.line host.time)) :=
  host.files_record_of_some r hlogs.steady hlogs.logFile hlevel hlevel

theorem Host.Logs.record {host : Host} {place : Place} (hlogs : host.Logs place)
    {r : LogRecord} (hlevel : Level.debug ≤ r.level) : (host.record r).Logs place where
  steady := by rw [Host.machine_record, hlogs.steady]
  logFile := by rw [Host.logger_record, hlogs.logFile]
  isFile := by
    obtain ⟨bytes, hfile⟩ := hlogs.isFile
    have hne : place ≠ [] := by
      rintro rfl
      nomatch hfile
    rw [hlogs.files_record hlevel, Files.append]
    exact ⟨_, Files.entry?_put_self _ hne _⟩

theorem Host.Logs.isPlaced_record {host : Host} {place : Place} (hlogs : host.Logs place)
    (hplaced : host.IsPlaced) {r : LogRecord} (hlevel : Level.debug ≤ r.level) :
    (host.record r).IsPlaced := by
  obtain ⟨bytes, hfile⟩ := hlogs.isFile
  have hput := hplaced.put_file hfile
    (host.files.bytesAt place ++ Utf8.encode (r.line host.time))
  refine ⟨?_, by simpa using hplaced.links, ?_, by simpa using hplaced.parentName⟩
  · rw [hlogs.files_record hlevel]
    exact hput.isTree
  · rw [hlogs.files_record hlevel, Host.folder_record]
    exact hput.folder

theorem Host.Logs.logIsFile {host : Host} {place : Place} (hlogs : host.Logs place) :
    host.LogIsFile := by
  intro r level hopen
  rw [hlogs.logFile] at hopen
  obtain ⟨rfl, -⟩ := Prod.mk.inj (Option.some.inj hopen)
  exact hlogs.isFile

theorem Host.Logs.apart {host : Host} {log q : Place} (hlogs : host.Logs log) (hne : q ≠ log) :
    host.LogsApart q := by
  refine ⟨fun r level hopen => ?_, fun _ _ _ => hlogs.steady⟩
  rw [hlogs.logFile] at hopen
  obtain ⟨rfl, -⟩ := Prod.mk.inj (Option.some.inj hopen)
  exact Ne.symm hne

namespace Manifest

open LexicalPaths.Path (parse)

/-- The bytes of a file in the folder are read as a manifest with these outputs, as far as there is
room. -/
def Holds (room : Nat) (folder : HostPath) (bytes : List UInt8) (outputs : Manifest) : Prop :=
  ∃ document, Utf8.decode bytes = .ok document ∧
    loadWithin (some room) (base folder) none (Act.unifyLines document) = .ok outputs

/-- The manifest of the folder has these outputs, which are none if it is missing. -/
def Reads (host : Host) (folder : HostPath) (outputs : Manifest) : Prop :=
  (∃ q bytes, host.Finds (file folder) q bytes ∧
      Holds host.machine.nesting folder bytes outputs) ∨
    (∀ q bytes, ¬ host.Finds (file folder) q bytes) ∧ outputs = []

section

variable {room : Nat} {folder : HostPath} {bytes : List UInt8} {outputs : Manifest}

theorem Holds.eq {found : Manifest} (hone : Holds room folder bytes outputs)
    (htwo : Holds room folder bytes found) : outputs = found := by
  obtain ⟨document, hdecode, hload⟩ := hone
  obtain ⟨other, hother, hmore⟩ := htwo
  obtain rfl := Except.ok.inj (hdecode.symm.trans hother)
  exact Except.ok.inj (hload.symm.trans hmore)

theorem Holds.distinctKeys (hholds : Holds room folder bytes outputs) :
    ∀ output ∈ outputs, DistinctKeys output := by
  obtain ⟨document, -, hload⟩ := hholds
  exact distinctKeys_of_load (load_of_loadWithin hload)

theorem Holds.legible (hholds : Holds room folder bytes outputs) :
    ∀ output ∈ outputs, output.path.Legible := by
  obtain ⟨document, -, hload⟩ := hholds
  exact legible_of_load (Path.legible_parse _ _) (load_of_loadWithin hload)

end

theorem Reads.distinctKeys {host : Host} {folder : HostPath} {outputs : Manifest}
    (hreads : Reads host folder outputs) : ∀ output ∈ outputs, DistinctKeys output := by
  rcases hreads with ⟨q, bytes, -, hholds⟩ | ⟨-, rfl⟩
  · exact hholds.distinctKeys
  · simp

theorem Reads.legible {host : Host} {folder : HostPath} {outputs : Manifest}
    (hreads : Reads host folder outputs) : ∀ output ∈ outputs, output.path.Legible := by
  rcases hreads with ⟨q, bytes, -, hholds⟩ | ⟨-, rfl⟩
  · exact hholds.legible
  · simp

/-! ## Documents in files -/

section

variable (folder : HostPath) {layout : Json.Layout} (hlines : layout.KeepsLines)
  (hblank : layout.IsBlank)
include hlines

theorem unifyLines_persistDrafts {drafts : List Draft} (hplain : ∀ draft ∈ drafts, draft.IsPlain) :
    Act.unifyLines (persistDrafts (base folder) layout drafts) =
      persistDrafts (base folder) layout drafts := by
  have hreturn := return_notMem_persistDrafts (base folder) hplain hlines
  have hsame := Act.unifyLines_append hreturn []
  rwa [List.append_nil, Act.unifyLines, List.append_nil] at hsame

include hblank

theorem holds_persist {room : Nat} (hroom : 3 ≤ room) {outputs : Manifest}
    (htable : ∀ output ∈ outputs, DistinctKeys output) :
    Holds room folder (Utf8.encode (persist (base folder) layout outputs))
      (outputs.map (reloadedOutput (base folder))) := by
  refine ⟨_, Utf8.decode_encode _, ?_⟩
  rw [persist, unifyLines_persistDrafts folder hlines (isPlain_of_mem_map htable)]
  exact (loadWithin_persist (base folder) hblank htable hroom none).trans
    (load_persist_eq (base folder) hblank htable)

theorem not_holds_append (room : Nat) {outputs : Manifest}
    (htable : ∀ output ∈ outputs, DistinctKeys output) {line : Text} (hline : '-' ∈ line)
    (found : Manifest) :
    ¬ Holds room folder (Utf8.encode (persist (base folder) layout outputs) ++ Utf8.encode line)
      found := by
  rintro ⟨document, hdecode, hload⟩
  rw [← Utf8.encode_append, Utf8.decode_encode] at hdecode
  obtain rfl := Except.ok.inj hdecode
  rw [Act.unifyLines_append (return_notMem_persist (base folder) htable hlines)] at hload
  have hmem : '-' ∈ Act.unifyLines line := Act.mem_unifyLines (by decide) (by decide) hline
  exact load_append_ne_ok (base folder) hblank htable hmem rfl found (load_of_loadWithin hload)

theorem not_holds_persistDrafts (room : Nat) {drafts : List Draft}
    (hplain : ∀ draft ∈ drafts, draft.IsPlain) {draft : Draft} (hmem : draft ∈ drafts)
    (htype : ∀ t, draft.type ≠ .text t) (found : Manifest) :
    ¬ Holds room folder (Utf8.encode (persistDrafts (base folder) layout drafts)) found := by
  rintro ⟨document, hdecode, hload⟩
  obtain rfl := Except.ok.inj ((Utf8.decode_encode _).symm.trans hdecode)
  rw [unifyLines_persistDrafts folder hlines hplain] at hload
  exact load_persistDrafts_ne_ok (base folder) hblank hplain hmem htype found
    (load_of_loadWithin hload)

end

theorem not_holds_nil (room : Nat) (folder : HostPath) (found : Manifest) :
    ¬ Holds room folder [] found := by
  rintro ⟨document, hdecode, hload⟩
  have hnil : Utf8.decode [] = .ok [] := Utf8.decode_encode []
  obtain rfl := Except.ok.inj (hnil.symm.trans hdecode)
  exact load_nil_ne_ok (base folder) found (load_of_loadWithin hload)

theorem not_holds_comment (room : Nat) (folder : HostPath) (t : Text) (found : Manifest) :
    ¬ Holds room folder (Utf8.encode ('#' :: t)) found := by
  rintro ⟨document, hdecode, hload⟩
  obtain rfl := Except.ok.inj ((Utf8.decode_encode _).symm.trans hdecode)
  rw [Act.unifyLines_cons_of_ne (by decide)] at hload
  exact load_comment_ne_ok (base folder) _ found (load_of_loadWithin hload)

/-! ## Loading -/

theorem looks_readFile (folder : HostPath) (types? : Option (List Datum)) :
    (readFile folder types?).Looks :=
  (Act.looks_readText _).bind fun _ => Act.looks_get.bind fun _ => Act.looks_lift _ _

section

variable {relation : Host → Host → Prop} (hrefl : ∀ host, relation host host)
  (htrans : ∀ ⦃host later last⦄, relation host later → relation later last → relation host last)
  (hlog : ∀ level message attributes,
    (Act.logWith level message attributes).Maintains relation)
include hrefl htrans hlog

/-- Loading a manifest does no more than log. -/
theorem maintains_ofFolder (folder : HostPath) (types? : Option (List Datum)) :
    (ofFolder folder types?).Maintains relation := by
  have hreport (failure : Failure) : (reportUnread folder failure).Maintains relation := by
    unfold reportUnread
    split
    · exact hlog _ _ _
    · exact (Act.looks_pure _).maintains hrefl
  have hpure (outputs : Manifest) : (pure outputs : Act Manifest).Maintains relation :=
    (Act.looks_pure outputs).maintains hrefl
  apply Act.Maintains.bind htrans ((Act.looks_isFile _).maintains hrefl)
  intro found
  split
  · have hread := (looks_readFile folder types?).maintains hrefl
    apply Act.Maintains.bind htrans (hread.reporting htrans hreport)
    intro outputs
    exact Act.Maintains.bind htrans (hlog _ _ _) fun _ => hpure _
  · exact Act.Maintains.bind htrans (hlog _ _ _) fun _ => hpure _

end

section

variable {host last : Host} {folder : HostPath} {outputs : Manifest}

theorem readFile_eq_ok (hresult : (readFile folder none).result host = (.ok outputs, last)) :
    last = host ∧ ∃ q bytes, host.Finds (file folder) q bytes ∧
      Holds host.machine.nesting folder bytes outputs := by
  obtain ⟨t, later, hread, hrest⟩ := Act.bind_eq_ok hresult
  obtain ⟨rfl, q, bytes, document, hfinds, hdecode, rfl⟩ := Act.readText_eq_ok hread
  rw [Act.bind_of_ok (Act.result_get later)] at hrest
  obtain ⟨hload, rfl⟩ := Act.lift_eq_ok hrest
  exact ⟨rfl, q, bytes, hfinds, document, hdecode, hload⟩

theorem readFile_of_holds {q : Place} {bytes : List UInt8}
    (hfinds : host.Finds (file folder) q bytes)
    (hallowed : host.machine.denies .read (file folder) = none)
    (hholds : Holds host.machine.nesting folder bytes outputs) :
    (readFile folder none).result host = (.ok outputs, host) := by
  obtain ⟨document, hdecode, hload⟩ := hholds
  rw [readFile, Act.bind_of_ok (Act.readText_of_finds hfinds hallowed hdecode),
    Act.bind_of_ok (Act.result_get host)]
  exact Act.lift_of_ok hload

theorem logEvent_eq_ok {level : Level} {opening : Text} {kind : Display.EventKind}
    {details : Display.Attributes}
    (hresult : (logEvent level opening kind folder details).result host = (.ok (), last))
    (hlevel : Level.debug ≤ level) : ∃ r, Level.debug ≤ r.level ∧ last = host.record r :=
  ⟨⟨level, _, _⟩, hlevel, (Prod.mk.inj hresult).2.symm⟩

/-- What is loaded is what the manifest has, and the loading is logged. -/
theorem ofFolder_eq_ok (hresult : (ofFolder folder none).result host = (.ok outputs, last)) :
    Reads host folder outputs ∧ ∃ r, Level.debug ≤ r.level ∧ last = host.record r := by
  obtain ⟨found, later, hfile, hrest⟩ := Act.bind_eq_ok hresult
  have hiff := Act.isFile_eq_ok hfile
  obtain rfl := (Act.looks_isFile _).after hfile
  cases found with
  | true =>
      obtain ⟨loaded, middle, hread, hlogged⟩ := Act.bind_eq_ok hrest
      obtain ⟨rfl, hreads⟩ := readFile_eq_ok (Act.reporting_eq_ok hread)
      obtain ⟨_, end_, hevent, hlast⟩ := Act.bind_eq_ok hlogged
      obtain ⟨hloaded, rfl⟩ := Prod.mk.inj hlast
      obtain rfl := Except.ok.inj hloaded
      exact ⟨.inl hreads, logEvent_eq_ok hevent (by decide)⟩
  | false =>
      obtain ⟨_, end_, hevent, hlast⟩ := Act.bind_eq_ok hrest
      obtain ⟨hloaded, rfl⟩ := Prod.mk.inj hlast
      obtain rfl := Except.ok.inj hloaded
      refine ⟨.inr ⟨fun q bytes hfinds => ?_, rfl⟩, logEvent_eq_ok hevent (by decide)⟩
      nomatch hiff.mpr ⟨q, bytes, hfinds⟩

theorem ofFolder_of_holds {q : Place} {bytes : List UInt8}
    (hfinds : host.Finds (file folder) q bytes) (hreadable : host.Readable (file folder))
    (hholds : Holds host.machine.nesting folder bytes outputs) :
    ((ofFolder folder none).result host).1 = .ok outputs := by
  rw [ofFolder, Act.bind_of_ok (Act.isFile_of_finds hfinds hreadable.look), if_pos rfl,
    Act.bind_of_ok (Act.reporting_of_ok (readFile_of_holds hfinds hreadable.read hholds))]
  rfl

theorem look_of_ofFolder {types? : Option (List Datum)}
    (hnames : (file folder).names.any (Text.holds '\x00') = false)
    (hresult : (ofFolder folder types?).result host = (.ok outputs, last)) :
    host.machine.denies .look (file folder) = none := by
  obtain ⟨found, later, hfile, -⟩ := Act.bind_eq_ok hresult
  exact Act.allowed_of_isFile hnames hfile

/-- A file that was loaded is one that the user may read. -/
theorem readable_of_ofFolder {q : Place} {bytes : List UInt8} {types? : Option (List Datum)}
    (hfinds : host.Finds (file folder) q bytes)
    (hresult : (ofFolder folder types?).result host = (.ok outputs, last)) :
    host.Readable (file folder) := by
  have hlook := look_of_ofFolder hfinds.1 hresult
  obtain ⟨found, later, hfile, hrest⟩ := Act.bind_eq_ok hresult
  obtain rfl := (Act.isFile_eq_ok hfile).mpr ⟨q, bytes, hfinds⟩
  obtain rfl := (Act.looks_isFile _).after hfile
  obtain ⟨_, _, hread, -⟩ := Act.bind_eq_ok hrest
  obtain ⟨_, _, htext, -⟩ := Act.bind_eq_ok (Act.reporting_eq_ok hread)
  obtain ⟨_, _, hbytes, -⟩ := Act.bind_eq_ok htext
  exact ⟨hlook, (Act.onFiles_eq_ok hbytes).2.1⟩

/-- Hosts on the same machine with the same files and the same working folder load the same
outputs. -/
theorem ofFolder_congr {other : Host} (hmachine : other.machine = host.machine)
    (hfiles : other.files = host.files) (hfolder : other.folder = host.folder)
    (hresult : (ofFolder folder none).result host = (.ok outputs, last)) :
    ((ofFolder folder none).result other).1 = .ok outputs := by
  obtain ⟨found, later, hfile, hrest⟩ := Act.bind_eq_ok hresult
  have hother := Act.isFile_congr hmachine hfiles hfolder hfile
  obtain rfl := (Act.looks_isFile _).after hfile
  cases found with
  | true =>
      obtain ⟨loaded, middle, hread, hlogged⟩ := Act.bind_eq_ok hrest
      obtain ⟨rfl, q, bytes, hfinds, hholds⟩ := readFile_eq_ok (Act.reporting_eq_ok hread)
      obtain ⟨hlook, hallowed⟩ := readable_of_ofFolder hfinds hresult
      obtain ⟨_, end_, -, hlast⟩ := Act.bind_eq_ok hlogged
      obtain rfl := Except.ok.inj (Prod.mk.inj hlast).1
      rw [← hmachine] at hlook hallowed hholds
      refine ofFolder_of_holds (q := q) ⟨hfinds.1, ?_⟩ ⟨hlook, hallowed⟩ hholds
      rw [hmachine, hfiles, hfolder]
      exact hfinds.2
  | false =>
      obtain ⟨_, end_, -, hlast⟩ := Act.bind_eq_ok hrest
      obtain rfl := Except.ok.inj (Prod.mk.inj hlast).1
      rw [ofFolder, Act.bind_of_ok hother]
      rfl

/-! ## Saving -/

/-- What is saved is written where the manifest lies once the folder is there, and the saving is
logged. -/
theorem saveDrafts_eq_ok {indent : Datum} {drafts : List Draft} {p : HostPath}
    (hresult : (saveDrafts folder indent drafts).result host = (.ok p, last)) :
    ∃ result middle q r, layout host.machine.memory indent = .ok result ∧
      (Act.ensureFolders folder).result host = (.ok (), middle) ∧
      (file folder).names.any (Text.holds '\x00') = false ∧
      middle.files.filePlace middle.machine.links middle.folder (file folder) = .ok q ∧
      Level.debug ≤ r.level ∧
      last = { middle with
        files := middle.files.put q
          (.file (Utf8.encode (persistDrafts (base folder) result drafts))) }.record r := by
  rw [saveDrafts, Act.bind_of_ok (Act.result_get host)] at hresult
  obtain ⟨result, later, hlayout, hrest⟩ := Act.bind_eq_ok hresult
  obtain ⟨hok, rfl⟩ := Act.lift_eq_ok hlayout
  obtain ⟨_, written, hwrite, hlogged⟩ := Act.bind_eq_ok hrest
  obtain ⟨_, middle, hfolder, hfile⟩ := Act.bind_eq_ok (Act.reporting_eq_ok hwrite)
  obtain ⟨hnames, -, q, hplace, rfl⟩ := Act.writeText_eq_ok hfile
  obtain ⟨_, end_, hevent, hlast⟩ := Act.bind_eq_ok hlogged
  obtain ⟨-, rfl⟩ := Prod.mk.inj hlast
  obtain ⟨r, hlevel, rfl⟩ := logEvent_eq_ok hevent (by decide)
  exact ⟨result, middle, q, r, hok, hfolder, hnames, hplace, hlevel, rfl⟩

end

end Manifest

end LexicalPaths
