import LexicalPaths.Command.Run
import LexicalPaths.Proofs.Host.Growth

/-!
# Setting up for a command

Before a command is carried out, the configuration is loaded and the log is set up.  This makes at
most folders, a configuration with the usual settings, and an empty log file, and touches nothing
that is there.
-/

namespace LexicalPaths

/-- What setting up writes to new files. -/
def IsForeign (bytes : List UInt8) : Prop :=
  bytes = [] ∨ bytes = Utf8.encode Config.usual.document

/-- The host is ready for a command: its places are in order, its log file is never put aside, there
is room to read what manifests hold, no log file is open before the configuration is loaded, and a
loaded configuration has an indentation that was checked. -/
structure Host.IsReady (host : Host) : Prop where
  isPlaced : host.IsPlaced
  steady : host.machine.rotation? = none
  room : 3 ≤ host.machine.nesting
  logFile : host.config? = none → host.logger.file? = none
  indent : ∀ config, host.config? = some config → ∃ d, config.indent = Config.keptIndent d

/-! ## Locating -/

/-- The path of the place that a path means when all links are followed. -/
def Host.traced (host : Host) (p : HostPath) : HostPath :=
  .ofNames (host.machine.links.trace (p.start host.folder) p.names).1

/-- On the way along a path the file system meets a link that leads back to itself. -/
structure Host.Loops (host : Host) (p : HostPath) : Prop where
  names : p.names.any (Text.holds '\x00') = false
  spot : host.files.spot host.machine.links host.folder (host.traced p) = .error .loop

/-- Without links a path is followed name by name. -/
theorem Host.traced_of_links {host : Host} (hlinks : host.machine.links = []) (p : HostPath) :
    host.traced p = .ofNames (p.place host.folder) := by
  rw [traced, hlinks, Links.trace_nil]
  rfl

theorem Host.not_loops_of_links {host : Host} (hlinks : host.machine.links = []) (p : HostPath) :
    ¬ host.Loops p := by
  rintro ⟨-, hspot⟩
  rw [hlinks] at hspot
  exact Files.spot_nil_ne_loop hspot

theorem HostPath.parentName_notMem_collapse {kept : List Text} (hkept : ['.', '.'] ∉ kept)
    (names : List Text) : ['.', '.'] ∉ HostPath.collapse kept names := by
  induction names generalizing kept with
  | nil => exact hkept
  | cons name names ih =>
      unfold HostPath.collapse
      split
      next => exact ih fun hmem => hkept (List.dropLast_subset kept hmem)
      next hname =>
        refine ih fun hmem => ?_
        rcases List.mem_append.mp hmem with hmem | hmem
        · exact hkept hmem
        · exact hname (List.mem_singleton.mp hmem).symm

namespace Act

theorem looks_expandHome (p : HostPath) : (expandHome p).Looks := by
  unfold expandHome
  split
  · split
    · exact looks_throw _
    · refine looks_get.bind fun host => ?_
      split
      · exact looks_pure _
      · exact looks_throw _
  · exact looks_pure _

/-- Hosts that name places alike know the same home folders. -/
theorem home?_agrees {host later : Host} (hagrees : host.Agrees later) (user : Text) :
    home? later user = home? host user := by
  rw [home?, home?, hagrees.machine, hagrees.environment, hagrees.homes]

theorem expandHome_agrees {host later last : Host} (hagrees : host.Agrees later) {p q : HostPath}
    (hresult : (expandHome p).result host = (.ok q, last)) :
    (expandHome p).result later = (.ok q, later) := by
  unfold expandHome at hresult ⊢
  split at hresult
  next =>
    split at hresult
    next => nomatch hresult
    next hnames =>
      rw [if_neg hnames, bind_of_ok (result_get later), home?_agrees hagrees]
      rw [bind_of_ok (result_get host)] at hresult
      split at hresult
      next home hsome =>
        obtain rfl := Except.ok.inj (Prod.mk.inj hresult).1
        rfl
      next => nomatch hresult
  next =>
    obtain rfl := Except.ok.inj (Prod.mk.inj hresult).1
    rfl

theorem looks_resolve (p : HostPath) : (resolve p).Looks := by
  refine (looks_checkPath p).bind fun _ => looks_get.bind fun host => ?_
  dsimp only
  split
  · exact looks_throw _
  · exact looks_pure _

theorem looks_locate (p : HostPath) : (locate p).Looks :=
  (looks_expandHome p).bind fun q => looks_resolve q

theorem looks_holdsAny (folder : HostPath) (names : List Text) : (holdsAny folder names).Looks := by
  induction names with
  | nil => exact looks_pure _
  | cons name names ih =>
      refine (looks_holds _).bind fun found => ?_
      split
      · exact looks_pure _
      · exact ih

theorem looks_projectAmong (folders : List HostPath) : (projectAmong folders).Looks := by
  induction folders with
  | nil => exact looks_get.bind fun _ => looks_pure _
  | cons folder folders ih =>
      refine (looks_holdsAny folder _).bind fun found => ?_
      split
      · exact looks_pure _
      · exact ih

theorem looks_projectConfig : projectConfig.Looks :=
  looks_get.bind fun _ => (looks_projectAmong _).bind fun _ => looks_pure _

theorem looks_defaultConfigPath (environment : List (Text × Text)) :
    (defaultConfigPath environment).Looks := by
  unfold defaultConfigPath overridablePath
  split
  · exact looks_locate _
  · exact looks_locate _
  · exact looks_projectConfig.bind fun _ => looks_locate _

theorem looks_defaultLogFile : defaultLogFile.Looks :=
  looks_get.bind fun _ => (looks_projectAmong _).bind fun _ =>
    (looks_resolve _).bind fun _ => looks_resolve _

section

variable {host last : Host} {p q : HostPath}

/-- A path of proper names is resolved, unless a link leads back to itself. -/
theorem resolve_cases (host : Host) (hnames : p.names.any (Text.holds '\x00') = false) :
    host.Loops p ∧
        (resolve p).result host = (.error (.linkLoop (host.traced p).toText), host) ∨
      ¬ host.Loops p ∧ (resolve p).result host = (.ok (host.traced p), host) := by
  rw [resolve, bind_of_ok (checkPath_of_names hnames), bind_of_ok (result_get host)]
  dsimp only
  split
  next hloop => exact .inl ⟨⟨hnames, hloop⟩, rfl⟩
  next hends => exact .inr ⟨fun hloops => hends hloops.spot, rfl⟩

theorem resolve_eq_ok (hresult : (resolve p).result host = (.ok q, last)) :
    p.names.any (Text.holds '\x00') = false ∧ ¬ host.Loops p ∧ q = host.traced p := by
  obtain ⟨_, later, hcheck, -⟩ := bind_eq_ok hresult
  have hnames := checkPath_eq_ok hcheck
  rcases resolve_cases host hnames with ⟨-, hloops⟩ | ⟨hends, hresolved⟩
  · nomatch hloops.symm.trans hresult
  · have hsame := hresolved.symm.trans hresult
    exact ⟨hnames, hends, (Except.ok.inj (Prod.mk.inj hsame).1).symm⟩

variable (hplaced : host.IsPlaced)
include hplaced

theorem parentName_notMem_of_resolve (hresult : (resolve p).result host = (.ok q, last)) :
    ['.', '.'] ∉ q.names := by
  obtain ⟨-, -, rfl⟩ := resolve_eq_ok hresult
  rw [Host.traced_of_links hplaced.links]
  refine HostPath.parentName_notMem_collapse ?_ p.names
  unfold HostPath.start
  split
  · simp
  · exact hplaced.parentName

theorem parentName_notMem_of_locate (hresult : (locate p).result host = (.ok q, last)) :
    ['.', '.'] ∉ q.names := by
  obtain ⟨expanded, later, hexpand, hrest⟩ := bind_eq_ok hresult
  obtain rfl := (looks_expandHome p).after hexpand
  exact parentName_notMem_of_resolve hplaced hrest

theorem parentName_notMem_of_defaultConfigPath {environment : List (Text × Text)}
    (hresult : (defaultConfigPath environment).result host = (.ok q, last)) :
    ['.', '.'] ∉ q.names := by
  unfold defaultConfigPath overridablePath at hresult
  split at hresult
  · exact parentName_notMem_of_locate hplaced hresult
  · exact parentName_notMem_of_locate hplaced hresult
  · obtain ⟨usual, later, husual, hrest⟩ := bind_eq_ok hresult
    obtain rfl := looks_projectConfig.after husual
    exact parentName_notMem_of_locate hplaced hrest

end

end Act

/-! ## The configuration -/

namespace Config

section

variable {relation : Host → Host → Prop} (hrefl : ∀ host, relation host host)
  (htrans : ∀ ⦃host later last⦄, relation host later → relation later last → relation host last)
  (hlog : ∀ level message, (Act.log level message).Maintains relation)
include hrefl hlog

theorem maintains_reportUnsaved (failure : Failure) :
    (reportUnsaved failure).Maintains relation := by
  unfold reportUnsaved
  split
  · exact hlog _ _
  · exact (Act.looks_pure _).maintains hrefl

include htrans

/-- Reading the configuration does no more than log. -/
theorem maintains_read (file : HostPath) : (read file).Maintains relation := by
  apply Act.Maintains.bind htrans ((Act.looks_readBytes file).maintains hrefl)
  intro bytes
  apply Act.Maintains.bind htrans ((Act.looks_lift _ _).maintains hrefl)
  intro document
  apply Act.Maintains.bind htrans ((Act.looks_lift _ _).maintains hrefl)
  intro entries
  have hloaded (config : Config) : (Act.log .debug ("Configuration loaded from ".toList ++
      file.toText) >>= fun _ => pure config).Maintains relation :=
    Act.Maintains.bind htrans (hlog _ _) fun _ => (Act.looks_pure _).maintains hrefl
  split
  · exact hloaded _
  · exact Act.Maintains.bind htrans (hlog _ _) fun _ => hloaded _

end

theorem widens_read (file : HostPath) : (read file).Widens IsForeign none :=
  maintains_read (fun host _ _ => .refl host) Act.widens_trans Act.widens_log file

theorem widens_reportUnsaved (failure : Failure) :
    (reportUnsaved failure).Widens IsForeign none :=
  maintains_reportUnsaved (fun host _ _ => .refl host) Act.widens_log failure

section

variable {host : Host} (hplaced : host.IsPlaced) (hlog : host.logger.file? = none)
include hplaced hlog

theorem wider_result {α : Type} {act : Act α} (hact : act.Widens IsForeign none) {later : Host}
    (hwider : host.Wider IsForeign later) : host.Wider IsForeign (act.result later).2 :=
  hwider.trans (hact later (hplaced.grows hwider.toGrows) (hwider.logFile.trans hlog))

/-- A configuration that was not found is saved. -/
theorem wider_save {file : HostPath} (hup : ['.', '.'] ∉ file.names)
    (hnone : ∀ q bytes, ¬ host.Finds file q bytes) :
    host.Wider IsForeign ((save usual (some file)).result host).2 := by
  have htarget : (pure file : Act HostPath).result host = (.ok file, host) := rfl
  rw [save, Act.bind_of_ok htarget]
  refine Act.ends_bind (Act.ends_reporting (Act.ends_bind ?_ ?_) ?_) ?_
  · exact Act.widens_ensureFolders file.parent host hplaced hlog
  · intro _ middle hfolders hmiddle
    have hnew : host.Wider (fun _ => False) middle :=
      (Act.widens_ensureFolders file.parent).after hfolders hplaced hlog
    have hnot := Host.not_finds_of_wider hplaced hnew hup hnone
    split
    next => exact hmiddle
    next =>
      refine Act.ends_bind (hmiddle.trans ?_) fun _ later _ hlater => ?_
      · exact Act.wider_writeText (hplaced.grows hnew.toGrows) _ hnot (.inr rfl)
      · exact wider_result hplaced hlog (Act.widens_log _ _) hlater
  · exact fun failure later hlater =>
      wider_result hplaced hlog (widens_reportUnsaved failure) hlater
  · exact fun _ later _ hlater => hlater

/-- The configuration is read, or else made where there was none. -/
theorem wider_readOrCreate {file : HostPath} (hup : ['.', '.'] ∉ file.names) :
    host.Wider IsForeign ((readOrCreate file).result host).2 := by
  apply Act.ends_bind ((Act.looks_holds file).widens host hplaced hlog)
  intro found later hholds hlater
  obtain rfl := (Act.looks_holds file).after hholds
  split
  next => exact widens_read file later hplaced hlog
  next hfound =>
    rw [Bool.not_eq_true] at hfound
    subst hfound
    apply Act.ends_bind (wider_save hplaced hlog hup (Act.not_finds_of_holds hholds))
    intro _ saved _ hsaved
    apply Act.ends_bind (wider_result hplaced hlog (Act.widens_log _ _) hsaved)
    exact fun _ _ _ hlast => hlast

end

theorem indent_of_read {host last : Host} {file : HostPath} {config : Config}
    (hresult : (read file).result host = (.ok config, last)) :
    ∃ d, config.indent = keptIndent d := by
  obtain ⟨bytes, later, -, hdecode⟩ := Act.bind_eq_ok hresult
  obtain ⟨document, middle, -, htoml⟩ := Act.bind_eq_ok hdecode
  obtain ⟨entries, next, -, hlog⟩ := Act.bind_eq_ok htoml
  split at hlog
  · obtain ⟨_, logged, -, hlast⟩ := Act.bind_eq_ok hlog
    obtain rfl := Except.ok.inj (Prod.mk.inj hlast).1
    exact ⟨_, rfl⟩
  · obtain ⟨_, warned, -, hmore⟩ := Act.bind_eq_ok hlog
    obtain ⟨_, logged, -, hlast⟩ := Act.bind_eq_ok hmore
    obtain rfl := Except.ok.inj (Prod.mk.inj hlast).1
    exact ⟨_, rfl⟩

theorem indent_of_readOrCreate {host last : Host} {file : HostPath} {config : Config}
    (hresult : (readOrCreate file).result host = (.ok config, last)) :
    ∃ d, config.indent = keptIndent d := by
  obtain ⟨found, later, -, hrest⟩ := Act.bind_eq_ok hresult
  split at hrest
  · exact indent_of_read hrest
  · obtain ⟨_, saved, -, hlog⟩ := Act.bind_eq_ok hrest
    obtain ⟨_, logged, -, hlast⟩ := Act.bind_eq_ok hlog
    obtain rfl := Except.ok.inj (Prod.mk.inj hlast).1
    exact ⟨usualIndent, rfl⟩

/-- The loaded configuration is remembered, and its indentation was checked. -/
theorem load_eq_ok {host last : Host} {config : Config} (hready : host.IsReady)
    (hresult : load.result host = (.ok config, last)) :
    host.Grows IsForeign last ∧ last.config? = some config ∧
      ∃ d, config.indent = keptIndent d := by
  rw [load, Act.bind_of_ok (Act.result_get host)] at hresult
  split at hresult
  next known hknown =>
    obtain ⟨hconfig, rfl⟩ := Prod.mk.inj hresult
    obtain rfl := Except.ok.inj hconfig
    exact ⟨.refl host, hknown, hready.indent _ hknown⟩
  next hnone =>
    rw [Act.bind_of_ok (Act.result_get host)] at hresult
    obtain ⟨file, later, hpath, hrest⟩ := Act.bind_eq_ok hresult
    obtain rfl := (Act.looks_defaultConfigPath _).after hpath
    obtain ⟨loaded, middle, hread, hmore⟩ := Act.bind_eq_ok hrest
    have hloaded := Act.reporting_eq_ok hread
    have hup := Act.parentName_notMem_of_defaultConfigPath hready.isPlaced hpath
    have hwider := wider_readOrCreate hready.isPlaced (hready.logFile hnone) hup
    rw [hloaded] at hwider
    rw [Act.bind_of_ok (Act.result_modify middle _)] at hmore
    obtain ⟨hconfig, rfl⟩ := Prod.mk.inj hmore
    obtain rfl := Except.ok.inj hconfig
    exact ⟨⟨⟨hwider.machine, hwider.folder, hwider.environment, hwider.homes⟩, hwider.files⟩, rfl,
      indent_of_readOrCreate hloaded⟩

end Config

/-! ## The log -/

/-- The log file that is opened was there before, or it is new and empty. -/
theorem Act.setupLogger_eq_ok {host last : Host} {logFile : LogFile} {console level : Level}
    (hplaced : host.IsPlaced)
    (hresult : (setupLogger (some logFile) console level).result host = (.ok (), last)) :
    host.Grows IsForeign last ∧ last.config? = host.config? ∧
      ∃ q bytes, last.logger.file? = some (q, level) ∧
        last.files.entry? q = some (.file bytes) := by
  rw [setupLogger, bind_of_ok (result_modify host _)] at hresult
  have hstart : Host.IsPlaced { host with logger := ⟨console, none⟩ } :=
    ⟨hplaced.isTree, hplaced.links, hplaced.folder, hplaced.parentName⟩
  obtain ⟨p, first, hpath, hlocate⟩ := bind_eq_ok hresult
  obtain rfl := (looks_lift _ _).after hpath
  obtain ⟨path, second, hlocated, hfolders⟩ := bind_eq_ok hlocate
  obtain rfl := (looks_locate p).after hlocated
  obtain ⟨_, middle, hmade, hopen⟩ := bind_eq_ok hfolders
  have hmiddle : Host.Wider IsForeign _ middle :=
    (widens_ensureFoldersDown path.parent).after hmade hstart rfl
  have hthere := hstart.grows hmiddle.toGrows
  obtain ⟨q, opened, hopened, hlast⟩ := bind_eq_ok hopen
  have hend : Host.Wider IsForeign _ opened :=
    hmiddle.trans ((widens_openEnd path (.inl rfl)).after hopened hthere rfl)
  obtain ⟨bytes, hfile⟩ := exists_file_of_openEnd hthere hopened
  obtain ⟨-, rfl⟩ := Prod.mk.inj hlast
  exact ⟨⟨⟨hend.machine, hend.folder, hend.environment, hend.homes⟩, hend.files⟩, hend.config?, q,
    bytes, rfl, hfile⟩

namespace Command

theorem looks_logFileFor (config : Config) : (logFileFor config).Looks := by
  unfold logFileFor
  split
  · exact Act.looks_pure _
  · exact Act.looks_defaultLogFile.bind fun _ => Act.looks_pure _

/-- The host on which a command is carried out after the set-up on `host`. -/
structure SetUp (host ready : Host) (config : Config) (place : Place) : Prop where
  grows : host.Grows IsForeign ready
  config? : ready.config? = some config
  indent : ∃ d, config.indent = Config.keptIndent d
  logFile : ready.logger.file? = some (place, Level.debug)
  isFile : ∃ bytes, ready.files.entry? place = some (.file bytes)

/-- What is done before a command is carried out. -/
def prepare (request : Request) : Act Config := do
  let config ← Config.load
  Act.setupLogger (some (← logFileFor config)) (consoleLevel request) .debug
  return config

theorem handle_eq (request : Request) : handle request = prepare request >>= carryOut request := by
  simp [handle, prepare]

theorem setUp_of_prepare {host ready : Host} {request : Request} {config : Config}
    (hready : host.IsReady) (hresult : (prepare request).result host = (.ok config, ready)) :
    ∃ place, SetUp host ready config place := by
  obtain ⟨found, loaded, hload, hsetup⟩ := Act.bind_eq_ok hresult
  obtain ⟨hgrows, hconfig, hindent⟩ := Config.load_eq_ok hready hload
  obtain ⟨logFile, middle, hlog, hmore⟩ := Act.bind_eq_ok hsetup
  obtain rfl := (looks_logFileFor found).after hlog
  obtain ⟨_, opened, hopen, hlast⟩ := Act.bind_eq_ok hmore
  obtain ⟨hok, rfl⟩ := Prod.mk.inj hlast
  obtain rfl := Except.ok.inj hok
  obtain ⟨hopened, hkept, place, bytes, hfile, hentry⟩ :=
    Act.setupLogger_eq_ok (hready.isPlaced.grows hgrows) hopen
  exact ⟨place, hgrows.trans hopened, hkept.trans hconfig, hindent, hfile, bytes, hentry⟩

/-- A command that ends in order was carried out after the set-up. -/
theorem handle_eq_ok {host last : Host} {request : Request} {outcome : Outcome}
    (hready : host.IsReady) (hresult : (handle request).result host = (.ok outcome, last)) :
    ∃ ready config place, SetUp host ready config place ∧
      (carryOut request config).result ready = (.ok outcome, last) := by
  rw [handle_eq] at hresult
  obtain ⟨config, ready, hprepare, hcarry⟩ := Act.bind_eq_ok hresult
  obtain ⟨place, hsetup⟩ := setUp_of_prepare hready hprepare
  exact ⟨ready, config, place, hsetup, hcarry⟩

/-! ## The command line -/

/-- How a command line ends that asks for something: the command is carried out, or its failure is
reported, or its failure escapes. -/
inductive RunEnds (request : Request) (host : Host) : Except Failure Outcome → Host → Prop
  | carriedOut {outcome : Outcome} {last : Host}
      (hhandle : (handle request).result host = (.ok outcome, last)) :
      RunEnds request host (.ok outcome) last
  | reported {failure : Failure} {later : Host}
      (hhandle : (handle request).result host = (.error failure, later))
      (hreported : failure.isReported = true) :
      RunEnds request host (.ok .failed) (later.record ⟨Level.error, failure.message, []⟩)
  | escaped {failure : Failure} {last : Host}
      (hhandle : (handle request).result host = (.error failure, last))
      (hpassed : failure.isReported = false) : RunEnds request host (.error failure) last

theorem runEnds_of_read {host last : Host} {words : List Text} {request : Request}
    (hread : Request.read host.machine.dialect words = .ok request)
    {outcome : Except Failure Outcome} (hresult : (run words).result host = (outcome, last)) :
    RunEnds request host outcome last := by
  have hrun : (run words).result host =
      (tryCatch (handle request) report : Act Outcome).result host := by
    rw [run, Act.bind_of_ok (Act.result_get host), hread]
  rw [hrun, Act.result_tryCatch] at hresult
  rcases hhandle : (handle request).result host with ⟨failure | ended, later⟩
  · rw [hhandle] at hresult
    change (report failure).result later = _ at hresult
    cases hreported : failure.isReported with
    | true =>
        rw [report, if_pos hreported] at hresult
        obtain ⟨rfl, rfl⟩ := Prod.mk.inj hresult
        exact .reported hhandle hreported
    | false =>
        rw [report, if_neg (by simp [hreported])] at hresult
        obtain ⟨rfl, rfl⟩ := Prod.mk.inj hresult
        exact .escaped hhandle hreported
  · rw [hhandle] at hresult
    obtain ⟨rfl, rfl⟩ := Prod.mk.inj hresult
    exact .carriedOut hhandle

end Command

end LexicalPaths
