import LexicalPaths.Command.Reach
import LexicalPaths.Proofs.Command.SetUp
import LexicalPaths.Proofs.Host.Sparing

/-!
# Setting up beside a file

Setting up for a command writes the configuration file and the log file.  A file at another place is
spared, whether the set-up succeeds or fails.
-/

namespace LexicalPaths

/-- What an action spares is spared behind what was spared before. -/
theorem Host.Spares.andThen {q : Place} {host later : Host} (hspares : host.Spares q later)
    {α : Type} {act : Act α} (hact : act.Spares q) : host.Spares q (act.result later).2 :=
  hspares.trans (hact later hspares.logsApart)

/-- Without links a path is located by its names alone. -/
theorem Act.locate_agrees {host later last : Host} (hlinks : host.machine.links = [])
    (hagrees : host.Agrees later) {p q : HostPath}
    (hresult : (Act.locate p).result host = (.ok q, last)) :
    (Act.locate p).result later = (.ok q, later) := by
  obtain ⟨expanded, middle, hexpand, hrest⟩ := Act.bind_eq_ok hresult
  obtain rfl := (Act.looks_expandHome p).after hexpand
  rw [Act.locate, Act.bind_of_ok (Act.expandHome_agrees hagrees hexpand)]
  obtain ⟨hnames, -, rfl⟩ := Act.resolve_eq_ok hrest
  have hlater : later.machine.links = [] := hagrees.machine ▸ hlinks
  rcases Act.resolve_cases later hnames with ⟨hloops, -⟩ | ⟨-, hresolved⟩
  · exact absurd hloops (Host.not_loops_of_links hlater expanded)
  · rw [hresolved, Host.traced_of_links hlater, Host.traced_of_links hlinks, hagrees.folder]

namespace Config

section

variable {q : Place} {host : Host} (hlinks : host.machine.links = []) (hlog : host.LogsApart q)
include hlinks hlog

theorem spares_save {file : HostPath} (hne : file.place host.folder ≠ q) :
    host.Spares q ((save usual (some file)).result host).2 := by
  have htarget : (pure file : Act HostPath).result host = (.ok file, host) := rfl
  have hreport := maintains_reportUnsaved Act.spares_refl
    fun level message => Act.spares_logWith (q := q) level message []
  rw [save, Act.bind_of_ok htarget]
  refine Act.ends_bind (Act.ends_reporting (Act.ends_bind ?_ ?_) ?_) ?_
  · exact Act.spares_ensureFolders file.parent host hlog
  · intro _ middle hfolders hmiddle
    rw [← hmiddle.folder] at hne
    split
    next => exact hmiddle
    next =>
      have hwritten := Act.spares_writeText (hmiddle.machine ▸ hlinks) hmiddle.logsApart hne
        usual.document
      exact Act.ends_bind (hmiddle.trans hwritten) fun _ later _ hlater =>
        hlater.andThen (Act.spares_logWith _ _ _)
  · exact fun failure later hlater => hlater.andThen (hreport failure)
  · exact fun _ later _ hlater => hlater

theorem spares_readOrCreate {file : HostPath} (hne : file.place host.folder ≠ q) :
    host.Spares q ((readOrCreate file).result host).2 := by
  have hread := maintains_read Act.spares_refl Act.spares_trans
    (fun level message => Act.spares_logWith (q := q) level message []) file
  apply Act.ends_bind ((Act.looks_holds file).spares host hlog)
  intro found later hholds hlater
  obtain rfl := (Act.looks_holds file).after hholds
  split
  next => exact hread later hlog
  next =>
    apply Act.ends_bind (spares_save hlinks hlog hne)
    intro _ saved _ hsaved
    apply Act.ends_bind (hsaved.andThen (Act.spares_logWith _ _ _))
    exact fun _ _ _ hlast => hlast

/-- Loading the configuration writes the configuration file at most. -/
theorem spares_load
    (hconfig : ∀ p, (Command.configReached.result host).1 = .ok [p] → p.place host.folder ≠ q) :
    host.Spares q (load.result host).2 := by
  rw [load, Act.bind_of_ok (Act.result_get host)]
  split
  next => exact .refl hlog
  next =>
    rw [Act.bind_of_ok (Act.result_get host), Act.result_bind]
    rcases hpath : (Act.defaultConfigPath host.environment).result host with ⟨failure | file, later⟩
    · obtain rfl := (Act.looks_defaultConfigPath _).after hpath
      exact .refl hlog
    · obtain rfl := (Act.looks_defaultConfigPath _).after hpath
      have hreached : (Command.configReached.result later).1 = .ok [file] := by
        rw [Command.configReached, Command.foundBy, Act.result_tryCatch,
          Act.bind_of_ok (Act.result_get later), Act.bind_of_ok hpath]
        rfl
      have hmade := spares_readOrCreate hlinks hlog (hconfig file hreached)
      have hreport (failure : Failure) : (reportUnloaded failure).Spares q :=
        Act.spares_logWith _ _ _
      apply Act.ends_bind (Act.ends_reporting hmade fun failure later hlater =>
        hlater.andThen (hreport failure))
      intro config loaded _ hloaded
      exact ⟨⟨hloaded.machine, hloaded.folder, hloaded.environment, hloaded.homes⟩, hloaded.file,
        hloaded.logsApart.ne, hloaded.logsApart.steady⟩

end

end Config

/-- The log goes to the log file alone. -/
theorem Act.spares_setupLogger {q : Place} {host : Host} {logFile : LogFile}
    (hlinks : host.machine.links = []) (hsteady : host.machine.rotation? = none)
    (hlog : ∀ (p : HostPath) (last : Host),
      (Act.lift .noPath logFile.asPath >>= Act.locate).result host = (.ok p, last) →
        p.place host.folder ≠ q) (console level : Level) :
    host.Spares q ((setupLogger (some logFile) console level).result host).2 := by
  have hclosed : host.Spares q { host with logger := ⟨console, none⟩ } :=
    ⟨⟨rfl, rfl, rfl, rfl⟩, fun _ => Iff.rfl, nofun, nofun⟩
  rw [setupLogger, bind_of_ok (result_modify host _)]
  apply ends_bind (hclosed.andThen (looks_lift _ _).spares)
  intro p first hpath hfirst
  obtain rfl := (looks_lift _ _).after hpath
  apply ends_bind (hfirst.andThen (looks_locate p).spares)
  intro path second hlocated hsecond
  obtain rfl := (looks_locate p).after hlocated
  have hne : path.place host.folder ≠ q := by
    obtain ⟨hok, -⟩ := lift_eq_ok hpath
    apply hlog path host
    rw [bind_of_ok (lift_of_ok hok)]
    have hagrees : Host.Agrees { host with logger := ⟨console, none⟩ } host :=
      ⟨rfl, rfl, rfl, rfl⟩
    exact locate_agrees (hagrees.machine ▸ hlinks) hagrees hlocated
  apply ends_bind (hsecond.andThen (spares_ensureFoldersDown path.parent))
  intro _ middle _ hmiddle
  rw [← hmiddle.folder] at hne
  have hmore : middle.machine.links = [] := hmiddle.machine ▸ hlinks
  apply ends_bind (hmiddle.trans (spares_openEnd hmore hmiddle.logsApart hne))
  intro place opened hopen hopened
  obtain ⟨hplace, -⟩ := openEnd_eq_ok hopen
  rw [hmore] at hplace
  have hlogs : Host.LogsApart { opened with logger := ⟨console, some (place, level)⟩ } q := by
    refine ⟨fun r _ hsome => ?_, fun _ _ _ => hopened.machine ▸ hsteady⟩
    obtain ⟨rfl, -⟩ := Prod.mk.inj (Option.some.inj hsome)
    rwa [Files.filePlace_eq hplace]
  exact ⟨⟨hopened.machine, hopened.folder, hopened.environment, hopened.homes⟩, hopened.file, hlogs⟩

namespace Command

/-- The configuration file and the log files are at other places. -/
structure Apart (host : Host) (q : Place) : Prop where
  config : ∀ p, (configReached.result host).1 = .ok [p] → p.place host.folder ≠ q
  log : ∀ p, (logReached.result host).1 = .ok [p] → p.place host.folder ≠ q
  logsApart : host.LogsApart q

/-- However the set-up ends, a file elsewhere is spared. -/
theorem spares_prepare {host : Host} (hlinks : host.machine.links = [])
    (hsteady : host.machine.rotation? = none) {q : Place} (hapart : Apart host q) (request : Request) :
    host.Spares q ((prepare request).result host).2 := by
  apply Act.ends_bind (Config.spares_load hlinks hapart.logsApart hapart.config)
  intro config loaded hload hloaded
  apply Act.ends_bind (hloaded.andThen (looks_logFileFor config).spares)
  intro logFile middle hlog hmiddle
  obtain rfl := (looks_logFileFor config).after hlog
  have hlogs : ∀ (p : HostPath) (last : Host),
      (Act.lift .noPath logFile.asPath >>= Act.locate).result middle = (.ok p, last) →
        p.place middle.folder ≠ q := by
    intro p last hlocated
    obtain ⟨named, later, hpath, hplace⟩ := Act.bind_eq_ok hlocated
    rw [hmiddle.folder]
    apply hapart.log
    rw [logReached, foundBy, Act.result_tryCatch, Act.bind_of_ok hload, Act.bind_of_ok hlog,
      Act.bind_of_ok hpath, Act.bind_of_ok hplace]
    rfl
  apply Act.ends_bind (hmiddle.trans (Act.spares_setupLogger (hmiddle.machine ▸ hlinks)
    (hmiddle.machine ▸ hsteady) hlogs _ _))
  exact fun _ ready _ hready => hready

end Command

end LexicalPaths
