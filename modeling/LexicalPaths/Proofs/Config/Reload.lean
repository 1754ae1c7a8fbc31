import LexicalPaths.Proofs.Config.Document
import LexicalPaths.Proofs.Config.Location
import LexicalPaths.Proofs.Text.Utf8

/-!
# Saving and loading configurations

A configuration is saved, forgotten and loaded again.  On a host where the usual configuration can
be saved, this gives back what its document says, and this is the configuration itself exactly when
its document is legible and its log file has no blank text.
-/

namespace LexicalPaths

/-- The host can keep configurations in the file `target`: the usual one can be saved there, the
user may read what was saved, and the log is written elsewhere. -/
structure Host.KeepsConfigs (host : Host) (target : HostPath) : Prop where
  isPlaced : host.IsPlaced
  holdsProgram : host.HoldsProgram
  logIsFile : host.LogIsFile
  logsApart : host.LogsApart (target.place host.folder)
  readable : host.Readable target
  saves : ∃ later, (Config.usual.save none).result host = (.ok target, later)

namespace Config

/-! ## Saving -/

/-- The file `target` can be written at the place `q` after the folders above it were made, which
leaves the host `middle`. -/
structure CanWrite (host : Host) (target : HostPath) (middle : Host) (q : Place) : Prop where
  path : (Act.defaultConfigPath host.environment).result host = (.ok target, host)
  folders : (Act.ensureFolders target.parent).result host = (.ok (), middle)
  names : target.names.any (Text.holds '\x00') = false
  allowed : middle.machine.denies .write target = none
  place : middle.files.filePlace middle.machine.links middle.folder target = .ok q

/-- The host on which a configuration was saved. -/
def savedHost (config : Config) (target : HostPath) (middle : Host) (q : Place) : Host :=
  Host.record { middle with files := middle.files.put q (.file (Utf8.encode config.document)) }
    ⟨.info, "Configuration saved to ".toList ++ target.toText, []⟩

/-- A configuration that was saved could be written. -/
theorem canWrite_of_save {config : Config} {host later : Host} {target : HostPath}
    (hsave : (config.save none).result host = (.ok target, later)) :
    ∃ middle q, CanWrite host target middle q := by
  rw [save, Act.bind_of_ok (Act.result_get host)] at hsave
  obtain ⟨found, same, hpath, hrest⟩ := Act.bind_eq_ok hsave
  obtain rfl := (Act.looks_defaultConfigPath _).after hpath
  obtain ⟨_, last, hreport, hlast⟩ := Act.bind_eq_ok hrest
  obtain rfl := Except.ok.inj (Prod.mk.inj hlast).1
  obtain ⟨_, middle, hfolders, hwrite⟩ := Act.bind_eq_ok (Act.reporting_eq_ok hreport)
  split at hwrite
  next => cases hwrite
  next =>
    obtain ⟨_, written, hwritten, -⟩ := Act.bind_eq_ok hwrite
    obtain ⟨hnames, hallowed, q, hplace, -⟩ := Act.writeText_eq_ok hwritten
    exact ⟨middle, q, hpath, hfolders, hnames, hallowed, hplace⟩

section

variable {host middle : Host} {target : HostPath} {q : Place}
  (hwrite : CanWrite host target middle q)
include hwrite

/-- Where one configuration can be written, each can whose indentation has few enough digits. -/
theorem save_of_isWritable {config : Config} (hwritable : config.isWritable = true) :
    (config.save none).result host = (.ok target, config.savedHost target middle q) := by
  have hwritten : (Act.writeText target config.document).result middle = (.ok (),
      { middle with files := middle.files.put q (.file (Utf8.encode config.document)) }) := by
    rw [Act.writeText, Act.writeBytes,
      Act.bind_of_ok (Act.onFiles_of_ok hwrite.names hwrite.allowed hwrite.place)]
    rfl
  rw [save, Act.bind_of_ok (Act.result_get host), Act.bind_of_ok hwrite.path]
  refine (Act.bind_of_ok (a := ()) (Act.reporting_of_ok ?_)).trans rfl
  rw [Act.bind_of_ok hwrite.folders, hwritable]
  exact Act.bind_of_ok hwritten

theorem save_of_not_isWritable {config : Config} (hwritable : config.isWritable = false) :
    (config.save none).result host = (.error .longInteger, middle) := by
  rw [save, Act.bind_of_ok (Act.result_get host), Act.bind_of_ok hwrite.path, Act.result_bind,
    Act.reporting, Act.result_tryCatch, Act.bind_of_ok hwrite.folders, hwritable]
  rfl

variable (hkeeps : host.KeepsConfigs target)
include hkeeps

theorem parentName_notMem_of_canWrite : ['.', '.'] ∉ target.names :=
  Act.parentName_notMem_of_defaultConfigPath hkeeps.isPlaced hwrite.path

theorem extends_of_canWrite : host.Extends (· <+: target.names) middle := by
  have habsolute := Act.isAbsolute_of_defaultConfigPath hwrite.path
  have hparent : target.parent.isAbsolute = true := habsolute
  have hup : ['.', '.'] ∉ target.parent.names := fun hmem =>
    parentName_notMem_of_canWrite hwrite hkeeps (List.dropLast_subset _ hmem)
  have hextends := Act.extends_ensureFolders hparent hup hkeeps.isPlaced.links
  rw [hwrite.folders] at hextends
  exact hextends.mono fun _ hq => hq.trans <| List.dropLast_prefix target.names

theorem isPlaced_of_canWrite : middle.IsPlaced := by
  have hwidens : (Act.ensureFolders target.parent).Widens (fun _ => False) host.logger.file? :=
    Act.widens_ensureFolders target.parent
  have hwider : host.Wider (fun _ => False) middle :=
    hwidens.after hwrite.folders hkeeps.isPlaced rfl
  exact hkeeps.isPlaced.grows hwider.toGrows

theorem eq_place_of_canWrite : q = target.place host.folder := by
  have hplace := hwrite.place
  rw [(isPlaced_of_canWrite hwrite hkeeps).links] at hplace
  rw [← (extends_of_canWrite hwrite hkeeps).folder]
  exact Files.filePlace_eq hplace

theorem extends_written (bytes : List UInt8) : host.Extends (· <+: target.names)
    { middle with files := middle.files.put q (.file bytes) } := by
  refine (extends_of_canWrite hwrite hkeeps).trans ?_
  refine Host.extends_put (fun old hold => ?_) fun _ => ?_
  · obtain ⟨parent, name, rfl, -, ⟨found, -, hentry⟩ | ⟨-, hentry⟩⟩ :=
      Files.filePlace_cases (isPlaced_of_canWrite hwrite hkeeps).isTree
        (isPlaced_of_canWrite hwrite hkeeps).folder hwrite.place
    · rw [hentry] at hold
      exact ⟨⟨found, (Option.some.inj hold).symm⟩, bytes, rfl⟩
    · rw [hentry] at hold
      nomatch hold
  · have hnames := HostPath.place_of_notMem (Act.isAbsolute_of_defaultConfigPath hwrite.path)
      (parentName_notMem_of_canWrite hwrite hkeeps) host.folder
    exact (eq_place_of_canWrite hwrite hkeeps).trans hnames ▸ List.prefix_rfl

theorem steady_of_canWrite (r : Place) (level : Level)
    (hopen : middle.logger.file? = some (r, level)) : middle.machine.rotation? = none := by
  have hextends := extends_of_canWrite hwrite hkeeps
  rw [hextends.machine]
  exact hkeeps.logsApart.steady r level (hextends.logFile ▸ hopen)

theorem logIsFile_written (bytes : List UInt8) :
    Host.LogIsFile { middle with files := middle.files.put q (.file bytes) } :=
  (extends_written hwrite hkeeps bytes).logIsFile hkeeps.logIsFile

theorem extends_savedHost (config : Config) :
    host.Extends (· <+: target.names) (config.savedHost target middle q) := by
  have hsteady := steady_of_canWrite hwrite hkeeps
  apply (extends_written hwrite hkeeps _).trans
  apply Host.extends_record
  · exact hsteady
  · exact logIsFile_written hwrite hkeeps _

/-- The document is found where it was written. -/
theorem finds_savedHost (config : Config) :
    (config.savedHost target middle q).Finds target q (Utf8.encode config.document) := by
  have hfinds := Act.finds_of_filePlace (isPlaced_of_canWrite hwrite hkeeps) hwrite.names
    hwrite.place (Utf8.encode config.document)
  have hsteady := steady_of_canWrite hwrite hkeeps
  refine hfinds.record (logIsFile_written hwrite hkeeps _) ⟨fun r level hopen => ?_, hsteady⟩ _
  rw [eq_place_of_canWrite hwrite hkeeps]
  exact hkeeps.logsApart.ne r level ((extends_of_canWrite hwrite hkeeps).logFile ▸ hopen)

end

/-! ## Loading -/

/-- Saves a configuration, forgets what was loaded, and loads the configuration. -/
def reload (config : Config) : Act Config := do
  let _ ← config.save none
  reset
  load

section

variable {config : Config} {host : Host} {file : HostPath} {q : Place}
  (hfinds : host.Finds file q (Utf8.encode config.document)) (hreadable : host.Readable file)
include hfinds hreadable

theorem readOrCreate_of_finds {entries : List (Text × Datum)}
    (hread : Toml.read config.document = .ok entries) (hknown : unknownSettings entries = []) :
    ((readOrCreate file).result host).1 = .ok (ofEntries entries) := by
  rw [readOrCreate, Act.bind_of_ok (Act.holds_of_finds hfinds hreadable.look), if_pos rfl, read,
    Act.bind_of_ok (Act.readBytes_of_finds hfinds hreadable.read),
    Act.bind_of_ok (Act.lift_of_ok (Utf8.decode_encode _)), Act.bind_of_ok (Act.lift_of_ok hread),
    hknown]
  rfl

theorem readOrCreate_of_error {e : Toml.Error} (hread : Toml.read config.document = .error e) :
    ((readOrCreate file).result host).1 = .error (.toml config.document e) := by
  rw [readOrCreate, Act.bind_of_ok (Act.holds_of_finds hfinds hreadable.look), if_pos rfl, read,
    Act.bind_of_ok (Act.readBytes_of_finds hfinds hreadable.read),
    Act.bind_of_ok (Act.lift_of_ok (Utf8.decode_encode _)), hread]
  rfl

end

/-- What is loaded when no configuration is remembered is what the configuration file says. -/
theorem outcome_load {host : Host} (hnone : host.config? = none) {file : HostPath}
    (hpath : (Act.defaultConfigPath host.environment).result host = (.ok file, host)) :
    (load.result host).1 = ((readOrCreate file).result host).1 := by
  rw [load, Act.bind_of_ok (Act.result_get host), hnone]
  simp only []
  rw [Act.bind_of_ok (Act.result_get host), Act.bind_of_ok hpath, Act.result_bind, Act.reporting,
    Act.result_tryCatch]
  rcases (readOrCreate file).result host with ⟨failure | config, later⟩ <;> rfl

/-- The host without a loaded configuration. -/
def forgotten (host : Host) : Host :=
  { host with config? := none }

theorem result_reset (host : Host) : reset.result host = (.ok (), forgotten host) := rfl

theorem extends_forgotten {new : Place → Prop} {host later : Host}
    (hextends : host.Extends new later) : host.Extends new (forgotten later) :=
  ⟨⟨hextends.machine, hextends.folder, hextends.environment, hextends.homes⟩, hextends.program,
    hextends.logFile, hextends.keepsFolder, hextends.keepsFile, hextends.isNew⟩

section

variable {host : Host} {target : HostPath} (hkeeps : host.KeepsConfigs target)
include hkeeps

/-- What is loaded after a configuration was saved is what its document says. -/
theorem outcome_reload {config : Config} (hwritable : config.isWritable = true) :
    ∃ (later : Host) (q : Place), later.Finds target q (Utf8.encode config.document) ∧
      later.Readable target ∧
        ((reload config).result host).1 = ((readOrCreate target).result later).1 := by
  obtain ⟨_, hsaves⟩ := hkeeps.saves
  obtain ⟨middle, q, hwrite⟩ := canWrite_of_save hsaves
  have hfinds : (forgotten (config.savedHost target middle q)).Finds target q
      (Utf8.encode config.document) := finds_savedHost hwrite hkeeps config
  have hextends := extends_forgotten (extends_savedHost hwrite hkeeps config)
  have hpath := Act.defaultConfigPath_of_extends hkeeps.isPlaced hkeeps.holdsProgram hwrite.path
    hextends
  refine ⟨_, q, hfinds, hkeeps.readable.agrees hextends.toAgrees, ?_⟩
  rw [reload, Act.bind_of_ok (save_of_isWritable hwrite hwritable),
    Act.bind_of_ok (result_reset _)]
  exact outcome_load rfl hpath

/-- A configuration of the declared types that is saved, forgotten and loaded again comes back
exactly if its texts hold no controls but tabs, the text of its log file is not blank, and its
indentation can be written. -/
theorem reload_given (uri? : Option Text) (log : GivenLog) (indent : Int) :
    let config := given uri? log indent
    let outcome := ((reload config).result host).1
    (config.isWritable = false → outcome = .error .longInteger) ∧
      (config.isWritable = true → config.IsLegible → outcome = .ok config.reread) ∧
      (config.isWritable = true → ¬ config.IsLegible →
        ∃ left, outcome = .error (.toml config.document (.malformed left))) ∧
      (outcome = .ok config ↔ config.isWritable = true ∧ config.IsLegible ∧
        ∀ p, config.logFile = .path p → p.toText.trim ≠ []) := by
  intro config outcome
  have htyped : config.IsTyped := isTyped_given uri? log indent
  have hunsaved : config.isWritable = false → outcome = .error .longInteger := by
    intro hwritable
    obtain ⟨_, hsaves⟩ := hkeeps.saves
    obtain ⟨middle, q, hwrite⟩ := canWrite_of_save hsaves
    show ((reload config).result host).1 = _
    rw [reload, Act.result_bind, save_of_not_isWritable hwrite hwritable]
  have hlegible : config.isWritable = true → config.IsLegible → outcome = .ok config.reread := by
    intro hwritable hlegible
    obtain ⟨later, q, hfinds, hreadable, hsame⟩ := outcome_reload hkeeps hwritable
    have hread := htyped.read_document hlegible hwritable
    have hknown := unknownSettings_entries config
    rw [← htyped.ofEntries_entries]
    exact hsame.trans (readOrCreate_of_finds hfinds hreadable hread hknown)
  have hillegible : config.isWritable = true → ¬ config.IsLegible →
      ∃ left, outcome = .error (.toml config.document (.malformed left)) := by
    intro hwritable hillegible
    obtain ⟨later, q, hfinds, hreadable, hsame⟩ := outcome_reload hkeeps hwritable
    obtain ⟨left, hread⟩ := htyped.read_document_of_not_isLegible hillegible
    exact ⟨left, hsame.trans (readOrCreate_of_error hfinds hreadable hread)⟩
  refine ⟨hunsaved, hlegible, hillegible, ?_, ?_⟩
  · intro hok
    have hwritable : config.isWritable = true := by
      by_contra hnot
      rw [hunsaved (Bool.not_eq_true _ ▸ hnot)] at hok
      nomatch hok
    have hclean : config.IsLegible := by
      by_contra hnot
      obtain ⟨left, herror⟩ := hillegible hwritable hnot
      rw [herror] at hok
      nomatch hok
    rw [hlegible hwritable hclean] at hok
    exact ⟨hwritable, hclean, htyped.reread_eq_iff.mp (Except.ok.inj hok)⟩
  · rintro ⟨hwritable, hclean, hvisible⟩
    rw [hlegible hwritable hclean, htyped.reread_eq_iff.mpr hvisible]

end

/-- A host with the program and nothing else, where the environment names the configuration file. -/
def bareHost : Host where
  machine := .plain
  files := [(["lexpath".toList], .file [])]
  folder := []
  environment := [(Act.configVariable, "/config.toml".toList)]
  homes := []
  program := .ofNames ["lexpath".toList]
  time := []
  config? := none
  providers := []
  logger := ⟨Level.info, none⟩
  records := []
  shown := []

def bareTarget : HostPath :=
  .ofNames ["config.toml".toList]

theorem canWrite_bareHost :
    CanWrite bareHost bareTarget bareHost bareTarget.names where
  path := by
    have hfound : ((Act.defaultConfigPath bareHost.environment).result bareHost).1.toOption =
        some bareTarget := by
      decide +kernel
    rcases hresult : (Act.defaultConfigPath bareHost.environment).result bareHost with
      ⟨failure | found, later⟩
    · rw [hresult] at hfound
      nomatch hfound
    · rw [hresult] at hfound
      obtain rfl := (Act.looks_defaultConfigPath _).after hresult
      obtain rfl := Option.some.inj hfound
      rfl
  folders := rfl
  names := by decide
  allowed := rfl
  place := by decide +kernel

theorem keepsConfigs_bareHost : bareHost.KeepsConfigs bareTarget where
  isPlaced := by
    refine ⟨fun place name hentry => ?_, rfl, rfl, by simp [bareHost]⟩
    have hlast : place ++ [name] = [] ++ ["lexpath".toList] := by
      by_contra hne
      have hother : (place ++ [name] == ["lexpath".toList]) = false := beq_false_of_ne hne
      apply hentry
      rw [Files.entry?, if_neg (by simp), bareHost, List.lookup_cons, hother]
      rfl
    obtain rfl := (List.append_inj' hlast rfl).1
    rfl
  holdsProgram := ⟨rfl, by decide, ["lexpath".toList], [], by decide, by decide +kernel⟩
  logIsFile := fun _ _ hopen => by contradiction
  logsApart := ⟨nofun, nofun⟩
  readable := ⟨rfl, rfl⟩
  saves := ⟨_, save_of_isWritable canWrite_bareHost (by decide +kernel)⟩

/-- A line end in the filesystem is written as it is, and the document with it is refused. -/
theorem reload_given_of_lineEnd :
    bareHost.KeepsConfigs bareTarget ∧
      ∃ left, ((reload (given (some "a\nb".toList) .none 2)).result bareHost).1 =
        .error (.toml (given (some "a\nb".toList) .none 2).document (.malformed left)) := by
  have hillegible : ¬ (given (some "a\nb".toList) .none 2).IsLegible := fun hlegible =>
    absurd (hlegible.filesystemUri '\n' (by decide)) (by decide)
  have hall := reload_given keepsConfigs_bareHost (some "a\nb".toList) .none 2
  exact ⟨keepsConfigs_bareHost, hall.2.2.1 (by decide +kernel) hillegible⟩

end Config

end LexicalPaths
