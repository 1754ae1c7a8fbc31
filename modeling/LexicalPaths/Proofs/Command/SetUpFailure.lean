import LexicalPaths.Proofs.Command.SetUp
import LexicalPaths.Proofs.Host.Orderly

/-!
# Failures of the set-up that escape

The set-up of a command has failures that the command line does not report: the configuration file
or the log file can lie in the home folder of a user who has none, a link on the way to one of them
can lead back to itself, and the setting of the log file can be no path.  No other failure of the
set-up escapes.
-/

namespace LexicalPaths

/-- The path starts with the home folder of a user who has none. -/
structure Host.Homeless (host : Host) (p : HostPath) : Prop where
  relative : p.isAbsolute = false
  named : ∃ user rest, p.names = ('~' :: user) :: rest ∧ Text.holds '\x00' user = false ∧
    Act.home? host user = none

/-- A value names no place: it is not the path that it should be, or the path starts with the home
folder of a user who has none. -/
inductive Host.NoPlace (host : Host) (path : Except NoPath HostPath) : Failure → Prop
  | noPath {e : NoPath} (hkind : path = .error e) : NoPlace host path (.noPath e)
  | noHome {p : HostPath} (hpath : path = .ok p) (hhome : host.Homeless p) :
      NoPlace host path .noHome

/-- A path is not located: it starts with the home folder of a user who has none, or a link on the
way leads back to itself. -/
inductive Host.Unlocated (host : Host) (p : HostPath) : Failure → Prop
  | noHome (hhome : host.Homeless p) : Unlocated host p .noHome
  | linkLoop {q : HostPath} (hexpand : (Act.expandHome p).result host = (.ok q, host))
      (hloops : host.Loops q) : Unlocated host p (.linkLoop (host.traced q).toText)

/-- No log file is at the place that a value names. -/
inductive Host.NoLog (host : Host) (path : Except NoPath HostPath) : Failure → Prop
  | noPath {e : NoPath} (hkind : path = .error e) : NoLog host path (.noPath e)
  | unlocated {p : HostPath} {failure : Failure} (hpath : path = .ok p)
      (hplace : host.Unlocated p failure) : NoLog host path failure

/-! ## Locating -/

section

variable {host later : Host} (hagrees : host.Agrees later) {p : HostPath}
include hagrees

theorem Host.traced_agrees : later.traced p = host.traced p := by
  rw [traced, traced, hagrees.machine, hagrees.folder]

theorem Host.Loops.agrees (hfiles : later.files = host.files) (hloops : host.Loops p) :
    later.Loops p := by
  refine ⟨hloops.names, ?_⟩
  rw [hagrees.machine, hagrees.folder, hfiles, Host.traced_agrees hagrees]
  exact hloops.spot

theorem Host.Homeless.agrees (hhome : host.Homeless p) : later.Homeless p := by
  obtain ⟨hrelative, user, rest, hnames, hnull, hnone⟩ := hhome
  refine ⟨hrelative, user, rest, hnames, hnull, ?_⟩
  rwa [Act.home?_agrees hagrees]

theorem Host.Unlocated.agrees (hfiles : later.files = host.files) {failure : Failure}
    (hplace : host.Unlocated p failure) : later.Unlocated p failure := by
  cases hplace with
  | noHome hhome => exact .noHome (hhome.agrees hagrees)
  | linkLoop hexpand hloops =>
      rw [← Host.traced_agrees hagrees]
      exact .linkLoop (Act.expandHome_agrees hagrees hexpand) (hloops.agrees hagrees hfiles)

end

namespace Act

variable {host : Host} {failure : Failure}

theorem escapes_expandHome_iff {p : HostPath} :
    (expandHome p).Escapes host failure ↔ host.Homeless p ∧ failure = .noHome := by
  constructor
  · intro hescapes
    unfold expandHome at hescapes
    split at hescapes
    next user rest hrelative hnames =>
      split at hescapes
      next => exact absurd hescapes (orderly_throw rfl host failure)
      next hnull =>
        rw [escapes_bind_of_ok (result_get host)] at hescapes
        split at hescapes
        next => exact absurd hescapes (orderly_pure _ host failure)
        next hhome =>
          obtain ⟨rfl, -⟩ := escapes_throw_iff.mp hescapes
          exact ⟨⟨hrelative, user, rest, hnames, by simpa using hnull, hhome⟩, rfl⟩
    next => exact absurd hescapes (orderly_pure p host failure)
  · rintro ⟨⟨hrelative, user, rest, hnames, hnull, hhome⟩, rfl⟩
    unfold expandHome Escapes
    rw [hrelative, hnames]
    simp only [hnull, Bool.false_eq_true, if_false]
    rw [bind_of_ok (result_get host), hhome]
    exact ⟨rfl, rfl⟩

theorem escapes_resolve_iff {p : HostPath} :
    (resolve p).Escapes host failure ↔
      host.Loops p ∧ failure = .linkLoop (host.traced p).toText := by
  by_cases hnames : p.names.any (Text.holds '\x00') = false
  · unfold Escapes
    rcases resolve_cases host hnames with ⟨hloops, hresult⟩ | ⟨hends, hresult⟩
    · rw [hresult]
      constructor
      · rintro ⟨hsame, -⟩
        exact ⟨hloops, (Except.error.inj hsame).symm⟩
      · rintro ⟨-, rfl⟩
        exact ⟨rfl, rfl⟩
    · rw [hresult]
      exact iff_of_false (fun hescapes => by nomatch hescapes.1) fun hloops => hends hloops.1
  · refine iff_of_false ?_ fun hloops => hnames hloops.1.names
    rw [resolve, (orderly_checkPath p).escapes_bind_iff]
    rintro ⟨_, later, hcheck, -⟩
    exact hnames (checkPath_eq_ok hcheck)

theorem escapes_locate_iff {p : HostPath} :
    (locate p).Escapes host failure ↔ host.Unlocated p failure := by
  rw [locate, escapes_bind_iff, escapes_expandHome_iff]
  constructor
  · rintro (⟨hhome, rfl⟩ | ⟨q, later, hexpand, hresolve⟩)
    · exact .noHome hhome
    · obtain rfl := (looks_expandHome p).after hexpand
      obtain ⟨hloops, rfl⟩ := escapes_resolve_iff.mp hresolve
      exact .linkLoop hexpand hloops
  · rintro (hhome | ⟨hexpand, hloops⟩)
    · exact .inl ⟨hhome, rfl⟩
    · exact .inr ⟨_, host, hexpand, escapes_resolve_iff.mpr ⟨hloops, rfl⟩⟩

theorem orderly_holdsAny (folder : HostPath) (names : List Text) :
    (holdsAny folder names).Orderly := by
  induction names with
  | nil => exact orderly_pure false
  | cons name names ih =>
      apply (orderly_holds _).bind
      intro found
      split
      · exact orderly_pure true
      · exact ih

theorem orderly_projectAmong (folders : List HostPath) : (projectAmong folders).Orderly := by
  induction folders with
  | nil => exact orderly_get.bind fun _ => orderly_pure _
  | cons folder folders ih =>
      apply (orderly_holdsAny folder _).bind
      intro found
      split
      · exact orderly_pure folder
      · exact ih

theorem orderly_projectRoot (start : HostPath) : (projectRoot start).Orderly :=
  orderly_projectAmong _

theorem orderly_projectConfig : projectConfig.Orderly := by
  apply orderly_get.bind
  intro host
  exact (orderly_projectRoot _).bind fun _ => orderly_pure _

theorem escapes_defaultLogFile_iff :
    defaultLogFile.Escapes host failure ↔
      ∃ root, (projectRoot host.program).result host = (.ok root, host) ∧
        ((resolve (root.child "logs".toList)).Escapes host failure ∨
          ∃ folder, (resolve (root.child "logs".toList)).result host = (.ok folder, host) ∧
            (resolve (folder.child "lexpath.log".toList)).Escapes host failure) := by
  rw [defaultLogFile, escapes_bind_of_ok (result_get host),
    (orderly_projectRoot _).escapes_bind_iff]
  constructor
  · rintro ⟨root, later, hroot, hrest⟩
    obtain rfl := (looks_projectAmong _).after hroot
    refine ⟨root, hroot, (escapes_bind_iff.mp hrest).imp_right ?_⟩
    rintro ⟨folder, last, hfolder, hfile⟩
    obtain rfl := (looks_resolve _).after hfolder
    exact ⟨folder, hfolder, hfile⟩
  · rintro ⟨root, hroot, hrest⟩
    refine ⟨root, host, hroot, escapes_bind_iff.mpr (hrest.imp_right ?_)⟩
    rintro ⟨folder, hfolder, hfile⟩
    exact ⟨folder, host, hfolder, hfile⟩

end Act

/-! ## The configuration -/

namespace Config

theorem orderly_reportUnsaved (failure : Failure) : (reportUnsaved failure).Orderly := by
  unfold reportUnsaved
  split
  · exact Act.orderly_logWith _ _ _
  · exact Act.orderly_pure ()

theorem orderly_save (config : Config) (file : HostPath) : (save config (some file)).Orderly := by
  apply (Act.orderly_pure file).bind
  intro target
  have hwrite : (do
      Act.ensureFolders target.parent
      if !config.isWritable then throw .longInteger
      Act.writeText target config.document
      Act.log .info ("Configuration saved to ".toList ++ target.toText) : Act Unit).Orderly := by
    apply (Act.orderly_ensureFolders _).bind
    intro _
    split
    · exact (Act.orderly_throw rfl).bind fun _ => (Act.orderly_writeText _ _).bind fun _ =>
        Act.orderly_logWith _ _ _
    · exact (Act.orderly_writeText _ _).bind fun _ => Act.orderly_logWith _ _ _
  exact (hwrite.reporting orderly_reportUnsaved).bind fun _ => Act.orderly_pure target

theorem orderly_read (file : HostPath) : (read file).Orderly := by
  apply (Act.orderly_readBytes file).bind
  intro bytes
  apply (Act.orderly_lift (fun _ => rfl) _).bind
  intro document
  apply (Act.orderly_lift (fun _ => rfl) _).bind
  intro entries
  have hloaded : (Act.log .debug ("Configuration loaded from ".toList ++ file.toText) >>= fun _ =>
      pure (ofEntries entries)).Orderly :=
    (Act.orderly_logWith _ _ _).bind fun _ => Act.orderly_pure _
  split
  · exact hloaded
  · exact (Act.orderly_logWith _ _ _).bind fun _ => hloaded

theorem orderly_readOrCreate (file : HostPath) : (readOrCreate file).Orderly := by
  apply (Act.orderly_holds file).bind
  intro found
  split
  · exact orderly_read file
  · apply (orderly_save usual file).bind
    intro _
    exact (Act.orderly_logWith _ _ _).bind fun _ => Act.orderly_pure _

/-- The configuration file is not located: the environment names it, or else it lies in the folder
of the project. -/
inductive Unlocated (host : Host) : Failure → Prop
  | named {t : Text} {failure : Failure}
      (hnamed : Act.namedPath? host.environment (some Act.configVariable) = some t)
      (hplace : host.Unlocated (.ofText t) failure) : Unlocated host failure
  | project {p : HostPath} {failure : Failure}
      (hnamed : Act.namedPath? host.environment (some Act.configVariable) = none)
      (hproject : Act.projectConfig.result host = (.ok p, host))
      (hplace : host.Unlocated p failure) : Unlocated host failure

variable {host : Host} {failure : Failure}

theorem escapes_defaultConfigPath_iff :
    (Act.defaultConfigPath host.environment).Escapes host failure ↔ Unlocated host failure := by
  unfold Act.defaultConfigPath Act.overridablePath
  split
  next explicit hexplicit => contradiction
  next t _ hnamed =>
    rw [Act.escapes_locate_iff]
    constructor
    · exact fun hplace => .named hnamed hplace
    · rintro (⟨hother, hplace⟩ | ⟨hnone, -, -⟩)
      · obtain rfl := Option.some.inj (hnamed.symm.trans hother)
        exact hplace
      · rw [hnone] at hnamed
        contradiction
  next _ hnamed =>
    rw [Act.orderly_projectConfig.escapes_bind_iff]
    constructor
    · rintro ⟨p, later, hproject, hlocate⟩
      obtain rfl := Act.looks_projectConfig.after hproject
      exact .project hnamed hproject (Act.escapes_locate_iff.mp hlocate)
    · rintro (⟨hsome, -⟩ | ⟨-, hproject, hplace⟩)
      · rw [hsome] at hnamed
        contradiction
      · exact ⟨_, host, hproject, Act.escapes_locate_iff.mpr hplace⟩

/-- A failure escapes while the configuration is loaded exactly if its file is not located. -/
theorem escapes_load_iff :
    load.Escapes host failure ↔ host.config? = none ∧ Unlocated host failure := by
  have hreport (first : Failure) (later : Host) :
      ((reportUnloaded first).result later).1 = .ok () := rfl
  have hrest (file : HostPath) : (do
      let config ← Act.reporting reportUnloaded (readOrCreate file)
      modify fun host => { host with config? := some config }
      return config : Act Config).Orderly := by
    apply ((orderly_readOrCreate file).reporting fun _ => Act.orderly_logWith _ _ _).bind
    intro config
    exact (Act.orderly_modify _).bind fun _ => Act.orderly_pure config
  rw [load, Act.escapes_bind_of_ok (Act.result_get host)]
  split
  next config hconfig =>
    refine iff_of_false (Act.orderly_pure config host failure) ?_
    rintro ⟨hnone, -⟩
    rw [hconfig] at hnone
    contradiction
  next hnone =>
    rw [Act.escapes_bind_of_ok (Act.result_get host), Act.escapes_bind_iff_of_orderly hrest,
      escapes_defaultConfigPath_iff]
    exact (and_iff_right hnone).symm

end Config

/-! ## The log -/

theorem Act.escapes_setupLogger_iff {host : Host} {failure : Failure} {logFile : LogFile}
    {console level : Level} :
    (setupLogger (some logFile) console level).Escapes host failure ↔
      host.NoLog logFile.asPath failure := by
  have hopen (path : HostPath) : (do
      ensureFoldersDown path.parent
      let place ← openEnd path
      modify fun host => { host with logger := ⟨console, some (place, level)⟩ } :
        Act Unit).Orderly := by
    apply (orderly_ensureFoldersDown path.parent).bind
    intro _
    exact (orderly_openEnd path).bind fun _ => orderly_modify _
  have hagrees : host.Agrees { host with logger := ⟨console, none⟩ } := ⟨rfl, rfl, rfl, rfl⟩
  rw [setupLogger, escapes_bind_of_ok (result_modify host _)]
  rw [escapes_bind_iff, escapes_lift_iff]
  constructor
  · rintro (⟨e, hkind, rfl, -⟩ | ⟨p, later, hlift, hrest⟩)
    · exact .noPath hkind
    · obtain ⟨hpath, rfl⟩ := lift_eq_ok hlift
      rw [escapes_bind_iff_of_orderly hopen, escapes_locate_iff] at hrest
      exact .unlocated hpath (hrest.agrees hagrees.symm rfl)
  · rintro (⟨hkind⟩ | ⟨hpath, hplace⟩)
    · exact .inl ⟨_, hkind, rfl, rfl⟩
    · refine .inr ⟨_, _, lift_of_ok hpath, ?_⟩
      rw [escapes_bind_iff_of_orderly hopen, escapes_locate_iff]
      exact hplace.agrees hagrees rfl

/-- A link leads back to itself on the way to the usual log file: to its folder, to the file in it,
or to the path that was found for it. -/
inductive Host.UsualLogLoops (host : Host) : Failure → Prop
  | folder {root : HostPath}
      (hroot : (Act.projectRoot host.program).result host = (.ok root, host))
      (hloops : host.Loops (root.child "logs".toList)) :
      UsualLogLoops host (.linkLoop (host.traced (root.child "logs".toList)).toText)
  | file {root folder : HostPath}
      (hroot : (Act.projectRoot host.program).result host = (.ok root, host))
      (hfolder : (Act.resolve (root.child "logs".toList)).result host = (.ok folder, host))
      (hloops : host.Loops (folder.child "lexpath.log".toList)) :
      UsualLogLoops host (.linkLoop (host.traced (folder.child "lexpath.log".toList)).toText)
  | found {p : HostPath} (hfound : Act.defaultLogFile.result host = (.ok p, host))
      (hloops : host.Loops p) : UsualLogLoops host (.linkLoop (host.traced p).toText)

namespace Command

/-- Why a failure escapes before the command is carried out: the configuration file is not located,
or the log file that the configuration sets, or else the usual one. -/
inductive SetUpEscapes (host : Host) : Failure → Prop
  | config {failure : Failure} (hnone : host.config? = none)
      (hplace : Config.Unlocated host failure) : SetUpEscapes host failure
  | log {config : Config} {loaded : Host} {failure : Failure}
      (hload : Config.load.result host = (.ok config, loaded))
      (hset : config.logFile.isSet = true) (hlog : loaded.NoLog config.logFile.asPath failure) :
      SetUpEscapes host failure
  | usualLog {config : Config} {loaded : Host} {failure : Failure}
      (hload : Config.load.result host = (.ok config, loaded))
      (hset : config.logFile.isSet = false) (hloops : loaded.UsualLogLoops failure) :
      SetUpEscapes host failure

section

variable {host : Host} {failure : Failure}

theorem isAbsolute_of_defaultLogFile {p : HostPath} {last : Host}
    (hresult : Act.defaultLogFile.result host = (.ok p, last)) : p.isAbsolute = true := by
  obtain ⟨_, _, -, hroot⟩ := Act.bind_eq_ok hresult
  obtain ⟨_, _, -, hfolder⟩ := Act.bind_eq_ok hroot
  obtain ⟨_, _, -, hfile⟩ := Act.bind_eq_ok hfolder
  obtain ⟨-, -, rfl⟩ := Act.resolve_eq_ok hfile
  rfl

/-- The usual log file is no matter of home folders. -/
theorem unlocated_iff_of_isAbsolute {p : HostPath} (habsolute : p.isAbsolute = true) :
    host.Unlocated p failure ↔ host.Loops p ∧ failure = .linkLoop (host.traced p).toText := by
  have hexpand : (Act.expandHome p).result host = (.ok p, host) := by
    rw [Act.expandHome, habsolute]
    rfl
  constructor
  · rintro (⟨hrelative, -⟩ | ⟨hother, hloops⟩)
    · rw [habsolute] at hrelative
      contradiction
    · have hsame := hexpand.symm.trans hother
      obtain rfl := Except.ok.inj (Prod.mk.inj hsame).1
      exact ⟨hloops, rfl⟩
  · rintro ⟨hloops, rfl⟩
    exact .linkLoop hexpand hloops

theorem escapes_usualLog_iff {console level : Level} :
    (Act.defaultLogFile >>= fun p =>
        Act.setupLogger (some (.path p)) console level).Escapes host failure ↔
      host.UsualLogLoops failure := by
  have hset (p : HostPath) : (Act.setupLogger (some (.path p)) console level).Escapes host failure ↔
      host.Unlocated p failure := by
    rw [Act.escapes_setupLogger_iff]
    constructor
    · rintro (⟨hkind⟩ | ⟨hpath, hplace⟩)
      · contradiction
      · obtain rfl := Except.ok.inj hpath
        exact hplace
    · exact fun hplace => .unlocated rfl hplace
  rw [Act.escapes_bind_iff, Act.escapes_defaultLogFile_iff]
  constructor
  · rintro (⟨root, hroot, hfolder | ⟨folder, hfolder, hfile⟩⟩ | ⟨p, later, hfound, hplace⟩)
    · obtain ⟨hloops, rfl⟩ := Act.escapes_resolve_iff.mp hfolder
      exact .folder hroot hloops
    · obtain ⟨hloops, rfl⟩ := Act.escapes_resolve_iff.mp hfile
      exact .file hroot hfolder hloops
    · obtain rfl := Act.looks_defaultLogFile.after hfound
      rw [hset, unlocated_iff_of_isAbsolute (isAbsolute_of_defaultLogFile hfound)] at hplace
      obtain ⟨hloops, rfl⟩ := hplace
      exact .found hfound hloops
  · rintro (⟨hroot, hloops⟩ | ⟨hroot, hfolder, hloops⟩ | ⟨hfound, hloops⟩)
    · exact .inl ⟨_, hroot, .inl (Act.escapes_resolve_iff.mpr ⟨hloops, rfl⟩)⟩
    · exact .inl ⟨_, hroot, .inr ⟨_, hfolder, Act.escapes_resolve_iff.mpr ⟨hloops, rfl⟩⟩⟩
    · refine .inr ⟨_, host, hfound, ?_⟩
      rw [hset, unlocated_iff_of_isAbsolute (isAbsolute_of_defaultLogFile hfound)]
      exact ⟨hloops, rfl⟩

theorem escapes_setUpLog_iff {config : Config} {console level : Level} :
    (logFileFor config >>= fun logFile =>
        Act.setupLogger (some logFile) console level).Escapes host failure ↔
      config.logFile.isSet = true ∧ host.NoLog config.logFile.asPath failure ∨
        config.logFile.isSet = false ∧ host.UsualLogLoops failure := by
  unfold logFileFor
  cases hset : config.logFile.isSet with
  | true =>
      have hlog : (pure config.logFile : Act LogFile).result host = (.ok config.logFile, host) :=
        rfl
      rw [if_pos rfl, Act.escapes_bind_of_ok hlog, Act.escapes_setupLogger_iff]
      simp
  | false =>
      rw [if_neg (by decide), bind_assoc]
      simp only [pure_bind, escapes_usualLog_iff]
      simp

theorem escapes_prepare_iff {request : Request} :
    (prepare request).Escapes host failure ↔ SetUpEscapes host failure := by
  have hlast (config : Config) (loaded : Host) : (do
      Act.setupLogger (some (← logFileFor config)) (consoleLevel request) .debug
      return config : Act Config).Escapes loaded failure ↔
        config.logFile.isSet = true ∧ loaded.NoLog config.logFile.asPath failure ∨
          config.logFile.isSet = false ∧ loaded.UsualLogLoops failure := by
    rw [← escapes_setUpLog_iff, ← bind_assoc,
      Act.escapes_bind_iff_of_orderly fun _ => Act.orderly_pure config]
  rw [prepare, Act.escapes_bind_iff, Config.escapes_load_iff]
  constructor
  · rintro (⟨hnone, hplace⟩ | ⟨config, loaded, hload, hrest⟩)
    · exact .config hnone hplace
    · rcases (hlast config loaded).mp hrest with ⟨hset, hlog⟩ | ⟨hset, hloops⟩
      · exact .log hload hset hlog
      · exact .usualLog hload hset hloops
  · rintro (⟨hnone, hplace⟩ | ⟨hload, hset, hlog⟩ | ⟨hload, hset, hloops⟩)
    · exact .inl ⟨hnone, hplace⟩
    · exact .inr ⟨_, _, hload, (hlast _ _).mpr (.inl ⟨hset, hlog⟩)⟩
    · exact .inr ⟨_, _, hload, (hlast _ _).mpr (.inr ⟨hset, hloops⟩)⟩

end

end Command

end LexicalPaths
