import LexicalPaths.Proofs.Command.SetUp
import LexicalPaths.Proofs.Host.Printing
import LexicalPaths.Proofs.Manifest.Folder
import LexicalPaths.Proofs.Manifest.History

/-!
# Commands that record outputs

A command that records an output and ends in order has read the manifest of the folder as it was
before the command: setting up has made no manifest, and has changed none.  It has written this
manifest with its own output at the end, and has read it again, so the log did not spoil it.  After
any number of such commands the manifest has the history that `History` describes.
-/

namespace LexicalPaths.Command

open Manifest (Holds Reads reloadedOutput recorded History)

/-! ## Before the command is carried out -/

theorem not_holds_of_isForeign (room : Nat) {folder : HostPath} {bytes : List UInt8}
    (hforeign : IsForeign bytes) (found : Manifest) : ¬ Holds room folder bytes found := by
  rcases hforeign with rfl | rfl
  · exact Manifest.not_holds_nil room folder found
  · obtain ⟨t, ht⟩ : ∃ t, Config.usual.document = '#' :: t := ⟨_, rfl⟩
    rw [ht]
    exact Manifest.not_holds_comment room folder t found

/-- The way to the manifest of the folder leads through a missing folder, and the names climb out of
it again: there is a manifest with these outputs, which a walk would find if the folder were
there. -/
structure Uncovers (host : Host) (folder : HostPath) (outputs : Manifest) : Prop where
  missing : host.files.spot host.machine.links host.folder (Manifest.file folder) = .error .missing
  climbs : ['.', '.'] ∈ (Manifest.file folder).names
  isFile : ∃ q bytes, host.files.entry? q = some (.file bytes) ∧
    Holds host.machine.nesting folder bytes outputs

/-- After the set-up the manifest has the same outputs, unless the way to its file had led through
a missing folder. -/
theorem reads_of_grows {host later : Host} (hplaced : host.IsPlaced)
    (hgrows : host.Grows IsForeign later) {folder : HostPath} {before found : Manifest}
    (hbefore : Reads host folder before) (hfound : Reads later folder found) :
    found = before ∨ before = [] ∧ Uncovers host folder found := by
  unfold Reads at hfound
  rw [hgrows.machine] at hfound
  rcases hbefore with ⟨q, bytes, hfinds, hholds⟩ | ⟨hnone, rfl⟩
  · rcases hfound with ⟨r, more, hother, hmore⟩ | ⟨hnot, -⟩
    · obtain ⟨-, rfl⟩ := hother.eq (hfinds.grows hgrows)
      exact .inl (hmore.eq hholds)
    · exact absurd (hfinds.grows hgrows) (hnot q bytes)
  · rcases hfound with ⟨r, more, hother, hmore⟩ | ⟨-, rfl⟩
    · rcases hgrows.files.new (hother.entry?_eq (hplaced.grows hgrows)) with hthere | ⟨-, hforeign⟩
      · by_cases hway : host.files.spot host.machine.links host.folder (Manifest.file folder) =
              .error .missing ∧
            ['.', '.'] ∈ (Manifest.file folder).names
        · exact .inr ⟨rfl, hway.1, hway.2, r, more, hthere, hmore⟩
        · have hfinds := hother.of_later hplaced hgrows hthere
            fun hmissing hclimbs => hway ⟨hmissing, hclimbs⟩
          exact absurd hfinds (hnone r more)
      · exact absurd hmore (not_holds_of_isForeign _ hforeign found)
    · exact .inl rfl

theorem looks_folderNamed (argument : Datum) : (folderNamed argument).Looks :=
  (Act.looks_lift _ _).bind fun _ => Act.looks_expandHome _

theorem folderNamed_agrees {host later last : Host} (hagrees : host.Agrees later) {folder : Datum}
    {place : HostPath} (hresult : (folderNamed folder).result host = (.ok place, last)) :
    (folderNamed folder).result later = (.ok place, later) := by
  obtain ⟨t, middle, hpath, hexpand⟩ := Act.bind_eq_ok hresult
  obtain ⟨hok, rfl⟩ := Act.lift_eq_ok hpath
  rw [folderNamed, hok]
  exact Act.expandHome_agrees hagrees hexpand

/-! ## The command -/

theorem layout_of_keptIndent {memory : Nat} {d : Datum} {result : Json.Layout}
    (hlayout : Manifest.layout memory (Config.keptIndent d) = .ok result) :
    result.IsBlank ∧ result.KeepsLines := by
  have hspaces : ∀ count, (Json.Layout.indented (List.replicate count ' ')).IsBlank ∧
      (Json.Layout.indented (List.replicate count ' ')).KeepsLines := fun count =>
    ⟨Json.isBlank_spaces count, Json.keepsLines_spaces count⟩
  unfold Config.keptIndent at hlayout
  split at hlayout
  next n =>
    split at hlayout
    · exact Manifest.spaced_eq_ok hlayout ▸ hspaces 2
    · exact Manifest.spaced_eq_ok hlayout ▸ hspaces n.toNat
  next b =>
    obtain rfl := Except.ok.inj hlayout
    cases b with
    | true => exact hspaces 1
    | false => exact hspaces 0
  next => exact Manifest.spaced_eq_ok hlayout ▸ hspaces 2

theorem looks_pathOn (filesystem argument : Datum) : (pathOn filesystem argument).Looks := by
  apply (Act.looks_lift _ _).bind
  intro t
  have hcheck : (checkFilesystem filesystem).Looks := by
    unfold checkFilesystem
    split
    · exact Act.looks_pure ()
    · exact Act.looks_throw _
  exact hcheck.bind fun _ => Act.looks_pure _

theorem pathOn_text (host : Host) (uri t : Text) :
    (pathOn (.text uri) (.text t)).result host = (.ok (.parse uri t), host) := by
  unfold pathOn
  rw [Manifest.display_text]
  rfl

theorem mem_line (time : Text) (r : LogRecord) : '-' ∈ r.line time := by
  simp [LogRecord.line]

theorem printUnless_eq_ok {host last : Host} {quiet : Bool} {shown : List Display.Shown}
    (hresult : (printUnless quiet shown).result host = (.ok (), last)) :
    ∃ all, last = { host with shown := all } := by
  unfold printUnless at hresult
  split at hresult
  · exact ⟨host.shown, (Prod.mk.inj hresult).2.symm⟩
  · rcases Act.print_cases shown host with ⟨-, hall⟩ | ⟨_, _, -, -, hpart⟩
    · exact ⟨_, (Prod.mk.inj (hresult.symm.trans hall)).2⟩
    · nomatch hpart.symm.trans hresult

/-- What is logged after the manifest was written spoils it if it goes to the same file. -/
theorem ne_logFile_of_reads {host : Host} {log q : Place} (hplaced : host.IsPlaced)
    {folder : HostPath} (hnames : (Manifest.file folder).names.any (Text.holds '\x00') = false)
    (hplace : host.files.filePlace host.machine.links host.folder (Manifest.file folder) = .ok q)
    {layout : Json.Layout} (hblank : layout.IsBlank) (hlines : layout.KeepsLines)
    {outputs found : Manifest} (htable : ∀ output ∈ outputs, Manifest.DistinctKeys output)
    {r : LogRecord} (hlevel : Level.debug ≤ r.level)
    (hsteady : host.machine.rotation? = none)
    (hlogs : host.logger.file? = some (log, Level.debug))
    (hfound : Reads (Host.record { host with
      files := host.files.put q
        (.file (Utf8.encode (Manifest.persist (Manifest.base folder) layout outputs))) } r)
      folder found) : q ≠ log := by
  rintro rfl
  set document := Utf8.encode (Manifest.persist (Manifest.base folder) layout outputs)
  have hwritten := Act.finds_of_filePlace hplaced hnames hplace document
  have hthere := hwritten.entry?_eq (Act.isPlaced_of_filePlace hplaced hplace document)
  have hopen : Host.Logs { host with files := host.files.put q (.file document) } q :=
    ⟨hsteady, hlogs, document, hthere⟩
  have hspoilt : Host.Finds (Host.record { host with
      files := host.files.put q (.file document) } r) (Manifest.file folder) q
      (document ++ Utf8.encode (r.line host.time)) := by
    refine ⟨hnames, ?_⟩
    rw [hopen.files_record hlevel, Host.machine_record, Host.folder_record, Files.append,
      Files.bytesAt, hthere]
    exact Files.spot_put (by simp [hthere]) (.inr ⟨document, hwritten.2⟩)
  rcases hfound with ⟨_, bytes, hfinds, hholds⟩ | ⟨hnone, -⟩
  · obtain ⟨-, rfl⟩ := hfinds.eq hspoilt
    exact Manifest.not_holds_append folder hlines hblank _ htable (mem_line _ r) found hholds
  · exact hnone _ _ hspoilt

/-- What was saved is in the file of the manifest as long as the log goes elsewhere. -/
theorem finds_of_saveDrafts_of_ne {host last : Host} {log : Place} (hplaced : host.IsPlaced)
    (hlogs : host.Logs log) {folder : HostPath}
    (hne : (Manifest.file folder).place host.folder ≠ log) {indent : Datum}
    {drafts : List Manifest.Draft} {p : HostPath}
    (hsaved : (Manifest.saveDrafts folder indent drafts).result host = (.ok p, last)) :
    last.IsPlaced ∧ last.Logs log ∧ host.Agrees last ∧ last.config? = host.config? ∧
      ∃ layout, Manifest.layout host.machine.memory indent = .ok layout ∧
        last.Finds (Manifest.file folder) ((Manifest.file folder).place host.folder)
          (Utf8.encode (Manifest.persistDrafts (Manifest.base folder) layout drafts)) := by
  obtain ⟨layout, middle, q, r, hlayout, hfolders, hnames, hplace, hlevel, rfl⟩ :=
    Manifest.saveDrafts_eq_ok hsaved
  have hwider : host.Wider (fun _ => True) middle :=
    (Act.widens_ensureFolders folder).after hfolders hplaced rfl
  have hmiddle := hplaced.grows hwider.toGrows
  have hlog : middle.logger.file? = some (log, Level.debug) := hwider.logFile.trans hlogs.logFile
  have hsteady : middle.machine.rotation? = none := hwider.machine ▸ hlogs.steady
  obtain rfl : q = (Manifest.file folder).place middle.folder := by
    rw [hmiddle.links] at hplace
    exact Files.filePlace_eq hplace
  rw [← hwider.folder] at hne ⊢
  set q := (Manifest.file folder).place middle.folder
  set document := Utf8.encode (Manifest.persistDrafts (Manifest.base folder) layout drafts)
  have hwritten := Act.finds_of_filePlace hmiddle hnames hplace document
  have hopen : Host.Logs { middle with files := middle.files.put q (.file document) } log := by
    obtain ⟨bytes, hfile⟩ := hlogs.isFile
    refine ⟨hsteady, hlog, bytes, ?_⟩
    show Files.entry? (middle.files.put q (.file document)) log = some (.file bytes)
    rw [Files.entry?_put_of_ne _ (Ne.symm hne)]
    exact hwider.files.kept hfile
  refine ⟨?_, hopen.record hlevel, ?_, ?_, layout, hlayout, ?_⟩
  · exact hopen.isPlaced_record (Act.isPlaced_of_filePlace hmiddle hplace document) hlevel
  · exact hwider.toAgrees.trans ⟨by simp, by simp, by simp, by simp⟩
  · rw [Host.config?_record]
    exact hwider.config?
  · exact hwritten.record hopen.logIsFile (hopen.apart hne) _

/-- A manifest that was saved and read again is in its file, and what is logged goes elsewhere. -/
theorem finds_of_saveDrafts {host last : Host} {log : Place} (hplaced : host.IsPlaced)
    (hlogs : host.Logs log) (hroom : 3 ≤ host.machine.nesting) {folder : HostPath} {indent : Datum}
    (hindent : ∃ d, indent = Config.keptIndent d) {outputs found : Manifest}
    (htable : ∀ output ∈ outputs, Manifest.DistinctKeys output) {p : HostPath}
    (hsaved : (Manifest.saveDrafts folder indent (outputs.map .ofOutput)).result host =
      (.ok p, last)) (hfound : Reads last folder found) :
    last.IsPlaced ∧ last.Logs log ∧ host.Agrees last ∧ last.config? = host.config? ∧
      ∃ q bytes, q ≠ log ∧ last.Finds (Manifest.file folder) q bytes ∧
        Holds host.machine.nesting folder bytes
          (outputs.map (reloadedOutput (Manifest.base folder))) := by
  obtain ⟨d, rfl⟩ := hindent
  have hne : (Manifest.file folder).place host.folder ≠ log := by
    obtain ⟨layout, middle, q, r, hlayout, hfolders, hnames, hplace, hlevel, rfl⟩ :=
      Manifest.saveDrafts_eq_ok hsaved
    obtain ⟨hblank, hlines⟩ := layout_of_keptIndent hlayout
    have hwider : host.Wider (fun _ => True) middle :=
      (Act.widens_ensureFolders folder).after hfolders hplaced rfl
    have hlog := hwider.logFile.trans hlogs.logFile
    have hmiddle := hplaced.grows hwider.toGrows
    have hsteady : middle.machine.rotation? = none := hwider.machine ▸ hlogs.steady
    have hq := ne_logFile_of_reads hmiddle hnames hplace hblank hlines htable hlevel hsteady hlog
      hfound
    rw [hmiddle.links] at hplace
    rwa [← hwider.folder, ← Files.filePlace_eq hplace]
  obtain ⟨hstands, hopen, hagrees, hconfig, layout, hlayout, hfinds⟩ :=
    finds_of_saveDrafts_of_ne hplaced hlogs hne hsaved
  obtain ⟨hblank, hlines⟩ := layout_of_keptIndent hlayout
  exact ⟨hstands, hopen, hagrees, hconfig, _, _, hne, hfinds,
    Manifest.holds_persist folder hlines hblank hroom htable⟩

/-- A command that records an output leaves a manifest that holds what it found and its own output,
each as it comes back from its record. -/
theorem runRecord_eq_ok {host last : Host} {log : Place} (hplaced : host.IsPlaced)
    (hlogs : host.Logs log) (hroom : 3 ≤ host.machine.nesting) {folder : HostPath} {indent : Datum}
    (hindent : ∃ d, indent = Config.keptIndent d) {output : Output} {path : Text}
    (hpath : output.path = .parse Path.localUri path) (hkeys : Manifest.DistinctKeys output)
    {quiet : Bool}
    (hresult : (runRecord folder (.text output.type) (.text path) indent output.properties
      quiet).result host = (.ok (), last)) :
    last.IsPlaced ∧ host.Agrees last ∧ last.config? = host.config? ∧
      ∃ found q bytes, Reads host folder found ∧ last.Finds (Manifest.file folder) q bytes ∧
        last.Readable (Manifest.file folder) ∧
        Holds last.machine.nesting folder bytes
          ((found ++ [output]).map (reloadedOutput (Manifest.base folder))) := by
  obtain ⟨found, loaded, hload, hparse⟩ := Act.bind_eq_ok hresult
  obtain ⟨hfound, r, hlevel, rfl⟩ := Manifest.ofFolder_eq_ok hload
  rw [Act.bind_of_ok (pathOn_text _ _ _)] at hparse
  obtain ⟨p, saved, hsave, hshow⟩ := Act.bind_eq_ok hparse
  obtain ⟨again, shown, hagain, hprint⟩ := Act.bind_eq_ok hshow
  obtain ⟨hreads, r', hlevel', rfl⟩ := Manifest.ofFolder_eq_ok hagain
  obtain ⟨all, rfl⟩ := printUnless_eq_ok hprint
  have htable : ∀ o ∈ found ++ [output], Manifest.DistinctKeys o := by
    intro o ho
    rcases List.mem_append.mp ho with hold | hnew
    · exact hfound.distinctKeys o hold
    · obtain rfl := List.mem_singleton.mp hnew
      exact hkeys
  have hdrafts : found.map Manifest.Draft.ofOutput ++
      [⟨.text output.type, .parse Path.localUri path, output.properties⟩] =
        (found ++ [output]).map .ofOutput := by
    rw [List.map_append, ← hpath]
    rfl
  rw [hdrafts] at hsave
  obtain ⟨hstands, hopen, hagrees, hconfig, q, bytes, hne, hfinds, hholds⟩ :=
    finds_of_saveDrafts (hlogs.isPlaced_record hplaced hlevel) (hlogs.record hlevel)
      (by rwa [Host.machine_record]) hindent htable hsave hreads
  have hend := hopen.isPlaced_record hstands hlevel'
  have hagree : host.Agrees { saved.record r' with shown := all } :=
    ((host.agrees_record r).trans hagrees).trans ⟨by simp, by simp, by simp, by simp⟩
  have hreadable := (Manifest.readable_of_ofFolder hfinds hagain).agrees (saved.agrees_record r')
  refine ⟨⟨hend.isTree, hend.links, hend.folder, hend.parentName⟩, hagree, ?_, found, q, bytes,
    hfound, hfinds.record hopen.logIsFile (hopen.apart hne) _,
    ⟨hreadable.look, hreadable.read⟩, ?_⟩
  · show (saved.record r').config? = host.config?
    rw [Host.config?_record, hconfig, Host.config?_record]
  · rw [hagree.machine]
    rwa [Host.machine_record] at hholds

/-! ## Command lines -/

/-- Properties are set like the entries of a table. -/
theorem map_setProperty (properties : List (Text × Text)) (key value : Text) :
    (setProperty properties key value).map (fun (k, v) => (k, Datum.text v)) =
      Datum.setEntry key (.text value) (properties.map fun (k, v) => (k, Datum.text v)) := by
  induction properties with
  | nil => rfl
  | cons first rest ih =>
      rw [List.map_cons, Datum.setEntry, setProperty]
      by_cases hkey : first.1 = key
      · rw [if_pos hkey, if_pos hkey]
        rfl
      · rw [if_neg hkey, if_neg hkey, List.map_cons, ih]

theorem nodup_setProperty {properties : List (Text × Text)} (key value : Text)
    (hkeys : (properties.map Prod.fst).Nodup) :
    ((setProperty properties key value).map Prod.fst).Nodup := by
  have hfst : ∀ entries : List (Text × Text),
      (entries.map fun (k, v) => (k, Datum.text v)).map Prod.fst = entries.map Prod.fst := by
    intro entries
    rw [List.map_map]
    rfl
  rw [← hfst, map_setProperty]
  apply Json.nodup_setEntry _
  rwa [hfst]

theorem nodup_propertiesFrom {values : List Datum} (properties : List (Text × Text))
    {result : List (Text × Text)} (hkeys : (properties.map Prod.fst).Nodup)
    (hresult : propertiesFrom properties values = .ok result) : (result.map Prod.fst).Nodup := by
  induction values generalizing properties with
  | nil =>
      obtain rfl := Except.ok.inj hresult
      exact hkeys
  | cons value values ih =>
      unfold propertiesFrom at hresult
      split at hresult
      next => contradiction
      next hcons =>
        obtain ⟨rfl, rfl⟩ := List.cons.inj hcons
        split at hresult
        next key text _ => exact ih _ (nodup_setProperty key text hkeys) hresult
        next => contradiction
      next => contradiction

/-- In the dialect, the words ask to record the output in the manifest of the folder. -/
structure Asks (dialect : Dialect) (words : List Text) (folder : Text) (output : Output) :
    Prop where
  request : ∃ request path values, Request.read dialect words = .ok request ∧
    request.task = .record (.text folder) (.text output.type) (.text path) values ∧
    propertiesFrom [] values = .ok output.properties ∧
    output.path = .parse Path.localUri path

theorem run_eq_done {host last : Host} {words : List Text} {request : Request}
    (hread : Request.read host.machine.dialect words = .ok request)
    (hresult : (run words).result host = (.ok .done, last)) :
    (handle request).result host = (.ok .done, last) := by
  cases runEnds_of_read hread hresult with
  | carriedOut hhandle => exact hhandle

/-- Recording an output finds the folder, reads the properties, and changes the manifest. -/
theorem carryOut_record {request : Request} {folder type path : Datum} {values : List Datum}
    (htask : request.task = .record folder type path values) (config : Config) :
    carryOut request config = folderNamed folder >>= fun place =>
      match propertiesFrom [] values with
      | .error (.malformed t) => pure (.stopped (.misuse programName (.invalidProperty t)))
      | .error (.noText kind) => throw (.noText kind "partition".toList)
      | .ok properties =>
        runRecord place type path config.indent properties request.quiet >>= fun _ =>
          pure .done := by
  obtain ⟨task, filesystem?, verbose, quiet⟩ := request
  obtain rfl : task = .record folder type path values := htask
  rfl

namespace SetUp

variable {host ready : Host} {config : Config} {log : Place}
  (hsetup : SetUp host ready config log) (hready : host.IsReady)
include hsetup hready

theorem isPlaced : ready.IsPlaced :=
  hready.isPlaced.grows hsetup.grows

theorem logs : ready.Logs log :=
  ⟨hsetup.grows.machine ▸ hready.steady, hsetup.logFile, hsetup.isFile⟩

theorem room : 3 ≤ ready.machine.nesting :=
  hsetup.grows.machine ▸ hready.room

end SetUp

/-- A command line that records an output and ends in order leaves a host that is ready for the
next one, and a manifest to which its output was added. -/
theorem run_record_eq_done {host last : Host} (hready : host.IsReady) {words : List Text}
    {folder : Text} {output : Output} (hasks : Asks host.machine.dialect words folder output)
    {place : HostPath}
    (hplace : (folderNamed (.text folder)).result host = (.ok place, host)) {before : Manifest}
    (hbefore : Reads host place before)
    (hresult : (run words).result host = (.ok .done, last)) :
    last.IsReady ∧ host.Agrees last ∧ ∃ found q bytes,
      (found = before ∨ before = [] ∧ Uncovers host place found) ∧
        last.Finds (Manifest.file place) q bytes ∧ last.Readable (Manifest.file place) ∧
          Holds last.machine.nesting place bytes
            ((found ++ [output]).map (reloadedOutput (Manifest.base place))) := by
  obtain ⟨request, path, values, hread, htask, hproperties, hpath⟩ := hasks.request
  obtain ⟨ready, config, log, hsetup, hcarry⟩ := handle_eq_ok hready (run_eq_done hread hresult)
  have hnamed := folderNamed_agrees hsetup.grows.toAgrees hplace
  rw [carryOut_record htask, Act.bind_of_ok hnamed, hproperties] at hcarry
  obtain ⟨_, done, hrecord, hdone⟩ := Act.bind_eq_ok hcarry
  obtain ⟨-, rfl⟩ := Prod.mk.inj hdone
  have hlogs := hsetup.logs hready
  have hroom := hsetup.room hready
  obtain ⟨hstands, hagrees, hconfig, found, q, bytes, hfound, hfinds, hreadable, hholds⟩ :=
    runRecord_eq_ok (hsetup.isPlaced hready) hlogs hroom hsetup.indent hpath
      (nodup_propertiesFrom [] List.nodup_nil hproperties) hrecord
  have hknown := hconfig.trans hsetup.config?
  refine ⟨⟨hstands, hagrees.machine ▸ hlogs.steady, hagrees.machine ▸ hroom, ?_, ?_⟩,
    hsetup.grows.toAgrees.trans hagrees, found, q, bytes,
    reads_of_grows hready.isPlaced hsetup.grows hbefore hfound, hfinds, hreadable, hholds⟩
  · intro hnone
    rw [hknown] at hnone
    contradiction
  · intro other hother
    obtain rfl := Option.some.inj (hknown.symm.trans hother)
    exact hsetup.indent

/-! ## Many commands -/

/-- The next host goes on where the one before was left, in the same process or in a new one. -/
structure Continues (host next : Host) : Prop extends host.Agrees next where
  files : next.files = host.files
  process : next.config? = host.config? ∧ next.logger.file? = host.logger.file? ∨
    next.config? = none ∧ next.logger.file? = none

/-- Command lines record outputs in the manifest of the folder, one after another, and each of them
ends in order. -/
inductive Records (folder : Text) : Host → Manifest → Host → Prop
  | nil (host : Host) : Records folder host [] host
  | cons {host start middle last : Host} {words : List Text} {output : Output}
      {outputs : Manifest} (hstart : Continues host start)
      (hasks : Asks start.machine.dialect words folder output)
      (hrun : (run words).result start = (.ok .done, middle))
      (hrest : Records folder middle outputs last) : Records folder host (output :: outputs) last

theorem Continues.isReady {host next : Host} (hnext : Continues host next)
    (hready : host.IsReady) : next.IsReady := by
  have hplaced := hready.isPlaced
  refine ⟨⟨hnext.files ▸ hplaced.isTree, hnext.machine ▸ hplaced.links, ?_,
    hnext.folder ▸ hplaced.parentName⟩, hnext.machine ▸ hready.steady, hnext.machine ▸ hready.room,
    ?_, ?_⟩
  · rw [hnext.files, hnext.folder]
    exact hplaced.folder
  · rcases hnext.process with ⟨hconfig, hlog⟩ | ⟨-, hlog⟩
    · rw [hconfig, hlog]
      exact hready.logFile
    · exact fun _ => hlog
  · rcases hnext.process with ⟨hconfig, -⟩ | ⟨hconfig, -⟩
    · rw [hconfig]
      exact hready.indent
    · rw [hconfig]
      simp

/-- What is loaded after the commands is what they have recorded. -/
theorem ofFolder_recorded {folder : Text} {host last : Host} {added : Manifest}
    (hrecords : Records folder host added last) (hready : host.IsReady) {place : HostPath}
    (hplace : (folderNamed (.text folder)).result host = (.ok place, host)) {before : Manifest}
    (hbefore : ((Manifest.ofFolder place none).result host).1 = .ok before) {next : Host}
    (hnext : Continues last next) :
    ∃ found, (found = before ∨ before = [] ∧ Uncovers host place found) ∧
      ((Manifest.ofFolder place none).result next).1 =
        .ok (recorded (Manifest.base place) found added) := by
  induction hrecords generalizing before with
  | nil host =>
      exact ⟨before, .inl rfl,
        Manifest.ofFolder_congr hnext.machine hnext.files hnext.folder (Prod.ext hbefore rfl)⟩
  | @cons host start middle last words output outputs hstart hasks hrun _ ih =>
      have hload := Manifest.ofFolder_congr hstart.machine hstart.files hstart.folder
        (Prod.ext hbefore rfl)
      obtain ⟨hreads, -⟩ := Manifest.ofFolder_eq_ok (Prod.ext hload rfl)
      have hnamed := folderNamed_agrees hstart.toAgrees hplace
      obtain ⟨hmiddle, hagrees, found, q, bytes, hfound, hfinds, hreadable, hholds⟩ :=
        run_record_eq_done (hstart.isReady hready) hasks hnamed hreads hrun
      obtain ⟨again, hagain, hlast⟩ := ih hmiddle (folderNamed_agrees hagrees hnamed)
        (Manifest.ofFolder_of_holds hfinds hreadable hholds) hnext
      obtain rfl : again = (found ++ [output]).map (reloadedOutput (Manifest.base place)) := by
        rcases hagain with hsame | ⟨-, huncovers⟩
        · exact hsame
        · have hspot := hfinds.2.symm.trans huncovers.missing
          contradiction
      refine ⟨found, ?_, hlast⟩
      rcases hfound with hfound | ⟨hnil, huncovers⟩
      · exact .inl hfound
      · refine .inr ⟨hnil, ?_, huncovers.climbs, ?_⟩
        · rw [← hstart.machine, ← hstart.files, ← hstart.folder]
          exact huncovers.missing
        · rw [← hstart.machine, ← hstart.files]
          exact huncovers.isFile

/-- After any number of commands that record outputs in a folder and end in order, what is loaded
from the folder is what was loaded before, in order, and then one output for each command, in order.
Each has kept its type and its properties, and its location exactly as long as its path stays.  What
was loaded before can differ from what the first command finds only if the way to the manifest led
through a missing folder. -/
theorem history_of_records {folder : Text} {host last : Host} {added : Manifest}
    (hrecords : Records folder host added last) (hready : host.IsReady) {place : HostPath}
    (hplace : (folderNamed (.text folder)).result host = (.ok place, host)) {before : Manifest}
    (hbefore : ((Manifest.ofFolder place none).result host).1 = .ok before) {next : Host}
    (hnext : Continues last next) :
    ∃ found loaded, (found = before ∨ before = [] ∧ Uncovers host place found) ∧
      ((Manifest.ofFolder place none).result next).1 = .ok loaded ∧
        History (Manifest.base place) found added loaded := by
  obtain ⟨found, hfound, hloaded⟩ := ofFolder_recorded hrecords hready hplace hbefore hnext
  have hpaths : ∀ output ∈ found, output.path.Legible := by
    rcases hfound with rfl | ⟨-, huncovers⟩
    · exact (Manifest.ofFolder_eq_ok (Prod.ext hbefore rfl)).1.legible
    · obtain ⟨q, bytes, -, hholds⟩ := huncovers.isFile
      exact hholds.legible
  exact ⟨found, _, hfound, hloaded,
    Manifest.history_recorded (Path.legible_parse _ _) hpaths added⟩

/-! ## A folder without a root -/

/-- Whether a command line ends in order. -/
def endsInOrder (words : List Text) (host : Host) : Bool :=
  match ((run words).result host).1 with
  | .ok .done => true
  | _ => false

theorem run_of_endsInOrder {words : List Text} {host : Host}
    (hends : endsInOrder words host = true) :
    (run words).result host = (.ok .done, ((run words).result host).2) := by
  unfold endsInOrder at hends
  split at hends
  next hdone => exact Prod.ext hdone rfl
  next => contradiction

/-- A host without any files, on which the configuration is loaded. -/
def emptyHost : Host where
  machine := .plain
  files := []
  folder := []
  environment := []
  homes := []
  program := .ofNames []
  time := []
  config? := some { Config.usual with logFile := .path (.ofNames ["log".toList]) }
  providers := []
  logger := ⟨Level.info, none⟩
  records := []
  shown := []

theorem isReady_emptyHost : emptyHost.IsReady where
  isPlaced := by
    refine ⟨fun place name hentry => ?_, rfl, rfl, by simp [emptyHost]⟩
    simp [emptyHost, Files.entry?] at hentry
  steady := rfl
  room := by decide
  logFile := fun _ => rfl
  indent := by
    intro config hconfig
    obtain rfl := Option.some.inj hconfig
    exact ⟨Config.usualIndent, rfl⟩

/-- The words that record an output in the folder `out`. -/
def recordWords (type path : Text) : List Text :=
  ["record".toList, "out".toList, type, path, "--quiet".toList]

/-- The output of a command moves when a second command is run on the same folder, which has no
root: from `out/a.apk` to `out/out/a.apk`. -/
theorem not_sameLocation_of_two_records :
    ∃ (last : Host) (loaded : Manifest) (first : Path) (output : Output),
      Records "out".toList emptyHost [⟨"APK".toList, .parse Path.localUri "a.apk".toList, []⟩,
        ⟨"MAP".toList, .parse Path.localUri "b.map".toList, []⟩] last ∧
      ((Manifest.ofFolder (.ofText "out".toList) none).result last).1 = .ok loaded ∧
      loaded[0]? = some output ∧ first.raw = "out/a.apk".toList ∧
      output.path.raw = "out/out/a.apk".toList ∧ ¬ Path.SameLocation output.path first := by
  have hone : endsInOrder (recordWords "APK".toList "a.apk".toList) emptyHost = true := by
    decide +kernel
  have htwo : endsInOrder (recordWords "MAP".toList "b.map".toList)
      ((run (recordWords "APK".toList "a.apk".toList)).result emptyHost).2 = true := by
    decide +kernel
  set a : Output := ⟨"APK".toList, .parse Path.localUri "a.apk".toList, []⟩ with ha
  set b : Output := ⟨"MAP".toList, .parse Path.localUri "b.map".toList, []⟩ with hb
  have haskone (dialect : Dialect) :
      Asks dialect (recordWords "APK".toList "a.apk".toList) "out".toList a :=
    ⟨⟨_, "a.apk".toList, [], rfl, rfl, rfl, rfl⟩⟩
  have hasktwo (dialect : Dialect) :
      Asks dialect (recordWords "MAP".toList "b.map".toList) "out".toList b :=
    ⟨⟨_, "b.map".toList, [], rfl, rfl, rfl, rfl⟩⟩
  have hsame : ∀ host : Host, Continues host host := fun host =>
    ⟨.refl host, rfl, .inl ⟨rfl, rfl⟩⟩
  have hrecords := Records.cons (hsame emptyHost) (haskone _) (run_of_endsInOrder hone)
    (.cons (hsame _) (hasktwo _) (run_of_endsInOrder htwo) (.nil _))
  have hplace : (folderNamed (.text "out".toList)).result emptyHost =
      (.ok (.ofText "out".toList), emptyHost) := rfl
  have hbefore : ((Manifest.ofFolder (.ofText "out".toList) none).result emptyHost).1 = .ok [] :=
    rfl
  obtain ⟨found, loaded, hfound, hloaded, hhistory⟩ :=
    history_of_records hrecords isReady_emptyHost hplace hbefore (hsame _)
  obtain rfl : found = [] := by
    rcases hfound with hnil | ⟨-, huncovers⟩
    · exact hnil
    · exact absurd huncovers.climbs (by decide)
  obtain ⟨output, hget, hsurvives⟩ := hhistory.new 0 (by simp)
  refine ⟨_, loaded, (reloadedOutput (Manifest.base (.ofText "out".toList)) a).path, output,
    hrecords, hloaded, hget, ?_, ?_, fun hmoved => ?_⟩
  · decide
  · rw [hsurvives.path]
    decide
  · have hstays := hsurvives.location.mp ?_ 0 (by simp)
    · obtain ⟨-, hups, -⟩ := hstays.rootless (by decide) (by decide)
      exact absurd hups (by decide)
    · intro k hk
      have hk : k = 0 ∨ k = 1 := by
        simp at hk
        omega
      rcases hk with rfl | rfl
      · exact .refl _
      · rw [hsurvives.path] at hmoved
        exact hmoved

end LexicalPaths.Command
