import LexicalPaths.Proofs.Command.Escape

/-!
# How command lines end

A command line ends in order, stops over its words, or fails; or a failure escapes.  When it fails,
the last record that it has logged is an error.  The records go to the console, since nothing but
setting up the log decides what the console takes, and errors are always taken.
-/

namespace LexicalPaths

/-- Errors that are logged go to the console. -/
def Host.TakesErrors (host : Host) : Prop :=
  host.logger.console ≤ Level.error

namespace Act

variable {α : Type}

theorem Keeps.takesErrors {act : Act α} (hact : act.Keeps Host.logger) {host : Host}
    (herrors : host.TakesErrors) : (act.result host).2.TakesErrors := by
  rw [Host.TakesErrors, hact host]
  exact herrors

/-- Wherever setting up the log ends, the console takes what it was told to take. -/
theorem takesErrors_setupLogger (host : Host) (logFile : LogFile) {console : Level}
    (hconsole : console ≤ Level.error) (level : Level) :
    ((setupLogger (some logFile) console level).result host).2.TakesErrors := by
  have hstart : Host.TakesErrors { host with logger := ⟨console, none⟩ } := hconsole
  rw [setupLogger, bind_of_ok (result_modify host _)]
  apply ends_bind ((looks_lift _ _).keeps.takesErrors hstart)
  intro p first _ hfirst
  apply ends_bind ((looks_locate p).keeps.takesErrors hfirst)
  intro path second _ hsecond
  apply ends_bind ((keeps_ensureFoldersDown Host.isAside_logger _).takesErrors hsecond)
  intro _ third _ hthird
  apply ends_bind ((keeps_openEnd Host.isAside_logger path).takesErrors hthird)
  exact fun _ _ _ _ => hconsole

end Act

/-! ## Commands -/

namespace Command

theorem keepsLog_printUnless (quiet : Bool) (shown : List Display.Shown) :
    (printUnless quiet shown).Keeps Host.logger := by
  unfold printUnless
  split
  · exact (Act.looks_pure ()).keeps
  · exact Act.maintains_print (fun _ _ => rfl) shown

theorem keepsLog_runPath (task : PathTask) (filesystem argument : Datum) (quiet : Bool) :
    (runPath task filesystem argument quiet).Keeps Host.logger := by
  rw [runPath_eq]
  apply (looks_pathOn _ _).keeps.bind
  intro p
  apply (Act.keeps_logWritten Host.isAside_logger _ _).bind
  intro _
  cases task with
  | inspect =>
      have hdetails : (detailsOn filesystem p).Looks := by
        unfold detailsOn
        split
        · exact Act.looks_pure _
        · exact Act.looks_throw _
      cases quiet with
      | true => exact (Act.looks_pure ()).keeps
      | false => exact hdetails.keeps.bind fun _ => keepsLog_printUnless false _
  | normalize => exact keepsLog_printUnless quiet _
  | convert form => exact keepsLog_printUnless quiet _

theorem keepsLog_runPair (task : PairTask) (filesystem base other : Datum)
    (normalize quiet : Bool) :
    (runPair task filesystem base other normalize quiet).Keeps Host.logger := by
  apply (looks_pathOn _ _).keeps.bind
  intro p
  apply (looks_pathOn _ _).keeps.bind
  intro q
  apply (Act.keeps_logWritten Host.isAside_logger _ _).bind
  exact fun _ => keepsLog_printUnless quiet _

theorem keepsLog_runManifest (folder : HostPath) (types? : Option (List Datum)) (quiet : Bool) :
    (runManifest folder types? quiet).Keeps Host.logger :=
  (Manifest.keeps_ofFolder Host.isAside_logger folder types?).bind fun _ =>
    keepsLog_printUnless quiet _

theorem keepsLog_runRecord (folder : HostPath) (type path indent : Datum)
    (properties : List (Text × Text)) (quiet : Bool) :
    (runRecord folder type path indent properties quiet).Keeps Host.logger := by
  apply (Manifest.keeps_ofFolder Host.isAside_logger folder none).bind
  intro outputs
  apply (looks_pathOn _ _).keeps.bind
  intro p
  apply (Manifest.keeps_saveDrafts Host.isAside_logger folder indent _).bind
  exact fun _ => keepsLog_runManifest folder none quiet

theorem keepsLog_carryOut (request : Request) (config : Config) :
    (carryOut request config).Keeps Host.logger := by
  have hdone {act : Act Unit} (hact : act.Keeps Host.logger) :
      (act >>= fun _ => pure Outcome.done).Keeps Host.logger :=
    hact.bind fun _ => (Act.looks_pure Outcome.done).keeps
  cases htask : request.task with
  | path task argument =>
      rw [carryOut, htask]
      exact hdone (keepsLog_runPath _ _ _ _)
  | pair task base other normalize =>
      rw [carryOut, htask]
      exact hdone (keepsLog_runPair _ _ _ _ _ _)
  | manifest folder types? =>
      rw [carryOut, htask]
      exact (looks_folderNamed folder).keeps.bind fun _ => hdone (keepsLog_runManifest _ _ _)
  | record folder type path values =>
      rw [carryOut_record htask]
      apply (looks_folderNamed folder).keeps.bind
      intro place
      split
      · exact (Act.looks_pure _).keeps
      · exact (Act.looks_throw _).keeps
      · exact hdone (keepsLog_runRecord _ _ _ _ _ _)

theorem consoleLevel_le (request : Request) : consoleLevel request ≤ Level.error := by
  unfold consoleLevel
  split
  · exact Int.le_refl _
  · split <;> decide

/-- However a command ends, the console takes errors. -/
theorem takesErrors_handle {host : Host} (herrors : host.TakesErrors) (request : Request) :
    ((handle request).result host).2.TakesErrors := by
  rw [handle_eq]
  apply Act.ends_bind
  -- The set-up replaces the logger; from then on its level stays as it is.
  · have hload := Config.keeps_load Host.isAside_logger fun _ _ => rfl
    apply Act.ends_bind (hload.takesErrors herrors)
    intro config loaded _ hloaded
    apply Act.ends_bind ((looks_logFileFor config).keeps.takesErrors hloaded)
    intro logFile middle _ _
    apply Act.ends_bind (Act.takesErrors_setupLogger middle logFile (consoleLevel_le request) _)
    exact fun _ _ _ hready => hready
  · intro config ready _ hready
    exact (keepsLog_carryOut request config).takesErrors hready

/-! ## Command lines -/

/-- Why a failure escapes from a command: from the set-up, or from what is done after it. -/
def CommandEscapes (host : Host) (request : Request) (failure : Failure) : Prop :=
  SetUpEscapes host failure ∨ ∃ config ready, (prepare request).result host = (.ok config, ready) ∧
    TaskEscapes ready request config failure

theorem escapes_handle_iff {host : Host} {request : Request} {failure : Failure} :
    (handle request).Escapes host failure ↔ CommandEscapes host request failure := by
  rw [handle_eq, Act.escapes_bind_iff, escapes_prepare_iff, CommandEscapes]
  simp only [escapes_carryOut_iff]

theorem ne_failed_of_carryOut {host last : Host} {request : Request} {config : Config}
    {outcome : Outcome} (hresult : (carryOut request config).result host = (.ok outcome, last)) :
    outcome ≠ .failed := by
  have hdone {host : Host} {act : Act Unit}
      (hact : (act >>= fun _ => pure Outcome.done).result host = (.ok outcome, last)) :
      outcome ≠ .failed := by
    obtain ⟨_, _, -, hlast⟩ := Act.bind_eq_ok hact
    obtain rfl := Except.ok.inj (Prod.mk.inj hlast).1
    nofun
  cases htask : request.task with
  | path task argument =>
      rw [carryOut, htask] at hresult
      exact hdone hresult
  | pair task base other normalize =>
      rw [carryOut, htask] at hresult
      exact hdone hresult
  | manifest folder types? =>
      rw [carryOut, htask] at hresult
      obtain ⟨place, _, -, hrest⟩ := Act.bind_eq_ok hresult
      exact hdone hrest
  | record folder type path values =>
      rw [carryOut_record htask] at hresult
      obtain ⟨place, _, -, hrest⟩ := Act.bind_eq_ok hresult
      split at hrest
      · obtain rfl := Except.ok.inj (Prod.mk.inj hrest).1
        rintro ⟨⟩
      · cases hrest
      · exact hdone hrest

theorem records_record {host : Host} (herrors : host.TakesErrors) {r : LogRecord}
    (hlevel : r.level = Level.error) : (host.record r).records = host.records ++ [r] := by
  have hthreshold : ¬ r.level < Logger.threshold := by
    rw [hlevel]
    decide
  rw [Host.record, if_neg hthreshold]
  simp only [hlevel]
  exact if_pos herrors

section

variable {host last : Host} {words : List Text} {request : Request}
  (hread : Request.read host.machine.dialect words = .ok request)
include hread

/-- A failure leaves the command line exactly if it escapes from the command. -/
theorem run_eq_error_iff {outcome : Except Failure Outcome} {failure : Failure}
    (hresult : (run words).result host = (outcome, last)) :
    outcome = .error failure ↔ (handle request).Escapes host failure := by
  unfold Act.Escapes
  cases runEnds_of_read hread hresult with
  | carriedOut hhandle =>
      rw [hhandle]
      exact iff_of_false (fun herror => by nomatch herror) (fun hescapes => by nomatch hescapes.1)
  | reported hhandle hreported =>
      rw [hhandle]
      refine iff_of_false (fun herror => by nomatch herror) ?_
      rintro ⟨hsame, hpassed⟩
      obtain rfl := Except.error.inj hsame
      rw [hreported] at hpassed
      contradiction
  | escaped hhandle hpassed =>
      rw [hhandle]
      refine ⟨fun hsame => ⟨hsame, ?_⟩, fun hescapes => hescapes.1⟩
      obtain rfl := Except.error.inj hsame
      exact hpassed

/-- When the command line fails, the last record on the console is an error. -/
theorem exists_record_of_run (herrors : host.TakesErrors)
    (hresult : (run words).result host = (.ok .failed, last)) :
    ∃ before message, last.records = before ++ [⟨Level.error, message, []⟩] := by
  cases runEnds_of_read hread hresult with
  | carriedOut hhandle =>
      rw [handle_eq] at hhandle
      obtain ⟨config, ready, -, hcarry⟩ := Act.bind_eq_ok hhandle
      exact absurd rfl (ne_failed_of_carryOut hcarry)
  | @reported failure later hhandle _ =>
      have hlater := takesErrors_handle herrors request
      rw [hhandle] at hlater
      exact ⟨later.records, failure.message, records_record hlater rfl⟩

end

/-- What a command line comes to.  A failure escapes exactly for one of the reasons that
`CommandEscapes` lists.  When the command line exits with 1, the last record on the console is an
error. -/
theorem run_outcome {host last : Host} (herrors : host.TakesErrors) {words : List Text}
    {outcome : Except Failure Outcome} (hresult : (run words).result host = (outcome, last)) :
    (∀ failure, outcome = .error failure ↔
      ∃ request, Request.read host.machine.dialect words = .ok request ∧
        CommandEscapes host request failure) ∧
    (outcome.map Outcome.code = .ok 1 →
      ∃ before message, last.records = before ++ [⟨Level.error, message, []⟩]) := by
  cases hread : Request.read host.machine.dialect words with
  | error stop =>
      rw [run, Act.bind_of_ok (Act.result_get host), hread] at hresult
      obtain ⟨rfl, rfl⟩ := Prod.mk.inj hresult
      refine ⟨fun failure => ?_, fun hcode => ?_⟩
      · exact iff_of_false (fun hok => by cases hok) (by simp)
      · cases stop with
        | help program => cases hcode
        | misuse program error => cases hcode
  | ok request =>
      refine ⟨fun failure => ?_, fun hcode => ?_⟩
      · rw [run_eq_error_iff hread hresult, escapes_handle_iff]
        simp
      · cases outcome with
        | error failure => cases hcode
        | ok outcome =>
            cases outcome with
            | failed => exact exists_record_of_run hread herrors hresult
            | done => cases hcode
            | stopped stop =>
                cases stop with
                | help program => cases hcode
                | misuse program error => cases hcode

/-! ## A user without a home folder -/

/-- A host without any files, on which the configuration is not yet loaded. -/
def freshHost : Host :=
  { emptyHost with config? := none }

def homelessWords : List Text :=
  ["manifest", "~no_such_user/x"].map String.toList

/-- The folder of a user whom the host does not know is not reported. -/
theorem noHome_of_homelessWords :
    freshHost.TakesErrors ∧ ((run homelessWords).result freshHost).1 = .error .noHome := by
  have herrors : freshHost.TakesErrors := by
    show Level.info ≤ Level.error
    decide
  have hplaced := isReady_emptyHost.isPlaced
  have hready : freshHost.IsReady :=
    ⟨⟨hplaced.isTree, hplaced.links, hplaced.folder, hplaced.parentName⟩, rfl, by decide,
      fun _ => rfl, fun _ hconfig => by cases hconfig⟩
  obtain ⟨request, hread⟩ :
      ∃ request, Request.read freshHost.machine.dialect homelessWords = .ok request := ⟨_, rfl⟩
  have hprepared : ((prepare request).result freshHost).1.toOption.isSome = true := by
    obtain rfl := Except.ok.inj hread
    decide +kernel
  rcases hprepare : (prepare request).result freshHost with ⟨failure | config, ready⟩
  · rw [hprepare] at hprepared
    contradiction
  obtain ⟨log, hsetup⟩ := setUp_of_prepare hready hprepare
  have hhome : ready.Homeless (.ofText "~no_such_user/x".toList) := by
    refine ⟨rfl, "no_such_user".toList, ["x".toList], rfl, rfl, ?_⟩
    rw [Act.home?_agrees hsetup.grows.toAgrees]
    rfl
  have hescapes : TaskEscapes ready request config .noHome := by
    obtain rfl := Except.ok.inj hread
    exact .inl (.noHome rfl hhome)
  rcases hrun : (run homelessWords).result freshHost with ⟨outcome, last⟩
  obtain ⟨hfailure, -⟩ := run_outcome herrors hrun
  refine ⟨herrors, (hfailure .noHome).mpr ⟨request, hread, .inr ?_⟩⟩
  exact ⟨config, ready, hprepare, hescapes⟩

end Command

end LexicalPaths
