import LexicalPaths.Proofs.Command.Keeping
import LexicalPaths.Proofs.Command.Record
import LexicalPaths.Proofs.Command.SetUpFailure

/-!
# Failures of commands that escape

Most failures of a command are reported.  The others escape: an argument can have been left out, the
configuration can hold values of another kind than the code needs, a folder can lie in the home
folder of a user who has none, a manifest can be nested too deep, an indentation can be too large,
and there can be nobody who reads what is printed.
-/

namespace LexicalPaths

/-! ## Manifests -/

namespace Manifest

section

variable {room? : Option Nat} {base : Path} {types? : Option (List Datum)} {document : Text}

theorem isReported_of_items {error : Error} (hitems : itemsWithin room? document = .error error) :
    error = .tooDeep ∨ (Failure.manifest error).isReported = true := by
  unfold itemsWithin at hitems
  split at hitems
  all_goals first
    | contradiction
    | obtain rfl := Except.error.inj hitems
      first
      | exact .inl rfl
      | exact .inr rfl

theorem checkTypes_eq_error_iff {error : Error} :
    checkTypes types? = .error error ↔
      ∃ d, (types?.getD []).find? (fun d => !d.canBeKey) = some d ∧ error = .typeKind d.kind := by
  unfold checkTypes
  split
  next d hfound =>
    constructor
    · exact fun herror => ⟨d, hfound, (Except.error.inj herror).symm⟩
    · rintro ⟨other, hother, rfl⟩
      obtain rfl := Option.some.inj (hfound.symm.trans hother)
      rfl
  next hnone =>
    refine iff_of_false (by simp) ?_
    rintro ⟨d, hfound, -⟩
    rw [hnone] at hfound
    contradiction

/-- Once the records are known, only the types to keep lead to a failure that escapes. -/
theorem loadWithin_eq_error_iff_of_items {error : Error} {records : List Datum}
    (hitems : itemsWithin room? document = .ok records) :
    loadWithin room? base types? document = .error error ∧
        (Failure.manifest error).isReported = false ↔ checkTypes types? = .error error := by
  rw [loadWithin, hitems]
  cases hcheck : checkTypes types? with
  | error first =>
      constructor
      · rintro ⟨hload, -⟩
        obtain rfl := Except.error.inj hload
        rfl
      · intro hsame
        obtain rfl := Except.error.inj hsame
        obtain ⟨d, -, rfl⟩ := checkTypes_eq_error_iff.mp hcheck
        exact ⟨rfl, rfl⟩
  | ok _ =>
      refine iff_of_false ?_ (by simp)
      rintro ⟨hload, hpassed⟩
      cases hread : readRecords base records with
      | error fault =>
          simp only [hread, bind, Except.bind] at hload
          obtain rfl := Except.error.inj hload
          contradiction
      | ok outputs =>
          simp only [hread, bind, Except.bind] at hload
          contradiction

/-- The types to keep are looked at once the document is known to be a list. -/
theorem loadWithin_eq_error_iff {error : Error} :
    loadWithin room? base types? document = .error error ∧
        (Failure.manifest error).isReported = false ↔
      itemsWithin room? document = .error .tooDeep ∧ error = .tooDeep ∨
        ∃ records d, itemsWithin room? document = .ok records ∧
          (types?.getD []).find? (fun d => !d.canBeKey) = some d ∧ error = .typeKind d.kind := by
  cases hitems : itemsWithin room? document with
  | error first =>
      rw [loadWithin_of_items_error base types? hitems]
      constructor
      · rintro ⟨hload, hpassed⟩
        obtain rfl := Except.error.inj hload
        rcases isReported_of_items hitems with rfl | hreported
        · exact .inl ⟨rfl, rfl⟩
        · rw [hreported] at hpassed
          contradiction
      · rintro (⟨hdeep, rfl⟩ | ⟨_, _, hok, -⟩)
        · obtain rfl := Except.error.inj hdeep
          exact ⟨rfl, rfl⟩
        · contradiction
  | ok records =>
      rw [loadWithin_eq_error_iff_of_items hitems, checkTypes_eq_error_iff]
      simp

end

/-- Why loading a document fails with a failure that escapes: lists and tables lie in each other too
deep, or one of the types to keep cannot be a key, and there is a list to keep them from. -/
inductive DocumentEscapes (room : Nat) (types? : Option (List Datum)) (document : Text) :
    Failure → Prop
  | tooDeep (hdeep : itemsWithin (some room) document = .error .tooDeep) :
      DocumentEscapes room types? document (.manifest .tooDeep)
  | types {records : List Datum} {d : Datum}
      (hitems : itemsWithin (some room) document = .ok records)
      (hfound : (types?.getD []).find? (fun d => !d.canBeKey) = some d) :
      DocumentEscapes room types? document (.manifest (.typeKind d.kind))

/-- A failure to load the document of the manifest of a folder escapes. -/
def LoadEscapes (host : Host) (folder : HostPath) (types? : Option (List Datum))
    (failure : Failure) : Prop :=
  (Act.isFile (file folder)).result host = (.ok true, host) ∧ ∃ document,
    (Act.readText (file folder)).result host = (.ok document, host) ∧
      DocumentEscapes host.machine.nesting types? document failure

variable {host : Host} {folder : HostPath} {types? : Option (List Datum)} {failure : Failure}

theorem documentEscapes_iff {room : Nat} {base : Path} {document : Text} :
    DocumentEscapes room types? document failure ↔
      ∃ error, loadWithin (some room) base types? document = .error error ∧
        .manifest error = failure ∧ failure.isReported = false := by
  constructor
  · rintro (hdeep | ⟨hitems, hfound⟩)
    · obtain ⟨hload, hpassed⟩ := loadWithin_eq_error_iff.mpr (.inl ⟨hdeep, rfl⟩)
      exact ⟨_, hload, rfl, hpassed⟩
    · obtain ⟨hload, hpassed⟩ := loadWithin_eq_error_iff.mpr (.inr ⟨_, _, hitems, hfound, rfl⟩)
      exact ⟨_, hload, rfl, hpassed⟩
  · rintro ⟨error, hload, rfl, hpassed⟩
    rcases loadWithin_eq_error_iff.mp ⟨hload, hpassed⟩ with
      ⟨hdeep, rfl⟩ | ⟨records, d, hitems, hfound, rfl⟩
    · exact .tooDeep hdeep
    · exact .types hitems hfound

theorem escapes_readFile_iff :
    (readFile folder types?).Escapes host failure ↔ ∃ document,
      (Act.readText (file folder)).result host = (.ok document, host) ∧
        DocumentEscapes host.machine.nesting types? document failure := by
  rw [readFile, (Act.looks_readText _).escapes_bind_iff,
    or_iff_right (Act.orderly_readText _ host failure)]
  refine exists_congr fun document => and_congr_right fun _ => ?_
  rw [Act.escapes_bind_of_ok (Act.result_get host), documentEscapes_iff]
  exact Act.escapes_lift_iff

theorem escapes_ofFolder_iff :
    (ofFolder folder types?).Escapes host failure ↔ LoadEscapes host folder types? failure := by
  have hreport (first : Failure) (later : Host) :
      ((reportUnread folder first).result later).1 = .ok () := by
    unfold reportUnread
    split <;> rfl
  have hlogged (level : Level) (opening : Text) (kind : Display.EventKind)
      (details : Display.Attributes) (outputs : Manifest) :
      (logEvent level opening kind folder details >>= fun _ => pure outputs).Orderly :=
    (Act.orderly_logWith _ _ _).bind fun _ => Act.orderly_pure outputs
  rw [ofFolder, (Act.looks_isFile _).escapes_bind_iff,
    or_iff_right (Act.orderly_isFile _ host failure)]
  constructor
  · rintro ⟨found, hfile, hrest⟩
    cases found with
    | true =>
        rw [if_pos rfl, Act.escapes_bind_iff_of_orderly fun outputs => hlogged _ _ _ _ outputs,
          Act.escapes_reporting_iff hreport, escapes_readFile_iff] at hrest
        exact ⟨hfile, hrest⟩
    | false => exact absurd hrest (hlogged _ _ _ _ [] host failure)
  · rintro ⟨hfile, hread⟩
    refine ⟨true, hfile, ?_⟩
    rwa [if_pos rfl, Act.escapes_bind_iff_of_orderly fun outputs => hlogged _ _ _ _ outputs,
      Act.escapes_reporting_iff hreport, escapes_readFile_iff]

theorem isReported_of_layout {memory : Nat} {indent : Datum}
    (hlayout : layout memory indent = .error failure) : failure.isReported = false := by
  unfold layout spaced at hlayout
  split at hlayout
  next => contradiction
  next =>
    split at hlayout
    · obtain rfl := Except.error.inj hlayout
      rfl
    · split at hlayout
      · obtain rfl := Except.error.inj hlayout
        rfl
      · contradiction
  next => contradiction
  next => contradiction
  next =>
    obtain rfl := Except.error.inj hlayout
    rfl

theorem escapes_saveDrafts_iff {indent : Datum} {drafts : List Draft} :
    (saveDrafts folder indent drafts).Escapes host failure ↔
      layout host.machine.memory indent = .error failure := by
  have hreport (first : Failure) : (reportUnsaved folder first).Orderly := by
    unfold reportUnsaved
    split
    · exact Act.orderly_logWith _ _ _
    · exact Act.orderly_pure ()
  have hwrite (document : Text) : (do
      Act.reporting (reportUnsaved folder) do
        Act.ensureFolders folder
        Act.writeText (file folder) document
      logEvent .info "Saved manifest ".toList .saved folder
        [(Display.entriesKey, .int drafts.length)]
      return file folder : Act HostPath).Orderly := by
    have hfile := (Act.orderly_ensureFolders folder).bind fun _ =>
      Act.orderly_writeText (file folder) document
    apply (hfile.reporting hreport).bind
    intro _
    exact (Act.orderly_logWith _ _ _).bind fun _ => Act.orderly_pure _
  rw [saveDrafts, Act.escapes_bind_of_ok (Act.result_get host),
    Act.escapes_bind_iff_of_orderly fun layout => hwrite _, Act.escapes_lift_iff]
  constructor
  · rintro ⟨e, hlayout, rfl, -⟩
    exact hlayout
  · exact fun hlayout => ⟨failure, hlayout, rfl, isReported_of_layout hlayout⟩

end Manifest

namespace Command

variable {host : Host} {failure : Failure}

/-! ## Paths -/

/-- No path can be made of an argument: it is no text, or the filesystem cannot be part of a key. -/
inductive ArgumentEscapes (filesystem argument : Datum) : Failure → Prop
  | noPath {e : NoPath} (hkind : argument.asPath = .error e) :
      ArgumentEscapes filesystem argument (.noPath e)
  | noKey {t : Text} (hpath : argument.asPath = .ok t) (hkey : filesystem.canBeKey = false) :
      ArgumentEscapes filesystem argument (.unhashable filesystem.kind)

theorem escapes_pathOn_iff {filesystem argument : Datum} :
    (pathOn filesystem argument).Escapes host failure ↔
      ArgumentEscapes filesystem argument failure := by
  have hpure (t : Text) : (pure (.parse filesystem.display t) : Act Path).Orderly :=
    Act.orderly_pure _
  have hcheck (later : Host) : (checkFilesystem filesystem).Escapes later failure ↔
      filesystem.canBeKey = false ∧ failure = .unhashable filesystem.kind := by
    unfold checkFilesystem
    split
    next hkey =>
      refine iff_of_false (Act.orderly_pure () later failure) ?_
      rw [hkey]
      simp
    next hkey =>
      rw [Act.escapes_throw_iff]
      constructor
      · rintro ⟨rfl, -⟩
        exact ⟨by simpa using hkey, rfl⟩
      · rintro ⟨-, rfl⟩
        exact ⟨rfl, rfl⟩
  rw [pathOn, Act.escapes_bind_iff, Act.escapes_lift_iff]
  constructor
  · rintro (⟨e, hkind, rfl, -⟩ | ⟨t, later, hlift, hrest⟩)
    · exact .noPath hkind
    · rw [Act.escapes_bind_iff_of_orderly fun _ => hpure t, hcheck] at hrest
      obtain ⟨hkey, rfl⟩ := hrest
      exact .noKey (Act.lift_eq_ok hlift).1 hkey
  · rintro (⟨hkind⟩ | @⟨t, hpath, hkey⟩)
    · exact .inl ⟨_, hkind, rfl, rfl⟩
    · refine .inr ⟨t, host, Act.lift_of_ok hpath, ?_⟩
      rw [Act.escapes_bind_iff_of_orderly fun _ => hpure t, hcheck]
      exact ⟨hkey, rfl⟩

/-- A path is made of a text on a filesystem that can be part of a key. -/
theorem pathOn_eq_ok_iff {filesystem argument : Datum} {p : Path} :
    (pathOn filesystem argument).result host = (.ok p, host) ↔
      ∃ t, argument.asPath = .ok t ∧ filesystem.canBeKey = true ∧
        p = .parse filesystem.display t := by
  constructor
  · intro hresult
    obtain ⟨t, later, hlift, hrest⟩ := Act.bind_eq_ok hresult
    obtain ⟨_, _, hcheck, hlast⟩ := Act.bind_eq_ok hrest
    obtain ⟨hp, -⟩ := Prod.mk.inj hlast
    refine ⟨t, (Act.lift_eq_ok hlift).1, ?_, (Except.ok.inj hp).symm⟩
    unfold checkFilesystem at hcheck
    split at hcheck
    next hkey => exact hkey
    next => nomatch hcheck
  · rintro ⟨t, hpath, hkey, rfl⟩
    rw [pathOn, Act.bind_of_ok (Act.lift_of_ok hpath), checkFilesystem, if_pos hkey]
    rfl

theorem escapes_onPath_iff {α : Type} {filesystem argument : Datum} {next : Path → Act α} :
    (pathOn filesystem argument >>= next).Escapes host failure ↔
      ArgumentEscapes filesystem argument failure ∨
        ∃ t, argument.asPath = .ok t ∧ filesystem.canBeKey = true ∧
          (next (.parse filesystem.display t)).Escapes host failure := by
  rw [(looks_pathOn _ _).escapes_bind_iff, escapes_pathOn_iff]
  refine or_congr_right ⟨?_, ?_⟩
  · rintro ⟨p, hresult, hnext⟩
    obtain ⟨t, hpath, hkey, rfl⟩ := pathOn_eq_ok_iff.mp hresult
    exact ⟨t, hpath, hkey, hnext⟩
  · rintro ⟨t, hpath, hkey, hnext⟩
    exact ⟨_, pathOn_eq_ok_iff.mpr ⟨t, hpath, hkey, rfl⟩, hnext⟩

/-! ## Showing -/

/-- A failure to print escapes: the command is not to be quiet, and nobody reads the output any more
before all of it is printed. -/
structure PrintEscapes (host : Host) (quiet : Bool) (shown : List Display.Shown)
    (failure : Failure) : Prop where
  quiet : quiet = false
  closed : host.machine.fault? host.shown shown = some .closed
  failure : failure = .unprinted .closed

theorem escapes_printUnless_iff {quiet : Bool} {shown : List Display.Shown} :
    (printUnless quiet shown).Escapes host failure ↔ PrintEscapes host quiet shown failure := by
  unfold printUnless
  split
  next hquiet =>
    refine iff_of_false (Act.orderly_pure () host failure) fun hprint => ?_
    nomatch hprint.quiet.symm.trans hquiet
  next hquiet =>
    rw [Act.escapes_print_iff]
    constructor
    · exact fun hprint => ⟨by simpa using hquiet, hprint.1, hprint.2⟩
    · exact fun hprint => ⟨hprint.closed, hprint.failure⟩

theorem printEscapes_congr {later : Host} (hmachine : later.machine = host.machine)
    (hshown : later.shown = host.shown) (quiet : Bool) (shown : List Display.Shown) :
    PrintEscapes later quiet shown failure ↔ PrintEscapes host quiet shown failure := by
  have hfault : later.machine.fault? later.shown shown = host.machine.fault? host.shown shown := by
    rw [hmachine, hshown]
  constructor
  · exact fun hprint => ⟨hprint.quiet, hfault ▸ hprint.closed, hprint.failure⟩
  · exact fun hprint => ⟨hprint.quiet, hfault ▸ hprint.closed, hprint.failure⟩

/-- A literal that names the filesystem can be logged: it can be written, or the console would not
show it. -/
def LogsLiteral (host : Host) (filesystem : Datum) : Prop :=
  filesystem.isWritable = true ∨ Level.debug < host.logger.console

theorem logLiteral_eq_ok_iff {filesystem : Datum} {message : Text} :
    ((logLiteral filesystem message).result host).1 = .ok () ↔ LogsLiteral host filesystem := by
  unfold logLiteral Act.logWritten LogsLiteral
  cases filesystem.isWritable with
  | true => simp; rfl
  | false =>
      simp only [Bool.false_eq_true, if_false, false_or]
      rw [Act.bind_of_ok (Act.result_get host)]
      split
      next hle =>
        refine iff_of_false ?_ (Int.not_lt.mpr hle)
        exact fun hok => by nomatch hok
      next hlt => exact iff_of_true rfl (Int.not_le.mp hlt)

/-- A record that cannot be written ends the command in order, before anything is shown. -/
theorem escapes_behindLiteral_iff {filesystem : Datum} {message : Text} {act : Act Unit}
    {escapes : Prop} (hact : ∀ later : Host, later.machine = host.machine →
      later.shown = host.shown → (act.Escapes later failure ↔ escapes)) :
    (logLiteral filesystem message >>= fun _ => act).Escapes host failure ↔
      LogsLiteral host filesystem ∧ escapes := by
  have horderly : (logLiteral filesystem message).Orderly := by
    apply Act.orderly_logWritten
    intro first hfirst
    split at hfirst
    · contradiction
    · obtain rfl := Except.error.inj hfirst
      rfl
  have hmachine : (logLiteral filesystem message).Keeps Host.machine :=
    Act.keeps_logWritten Host.isAside_machine _ _
  have hshown : (logLiteral filesystem message).Keeps Host.shown :=
    Act.keeps_logWritten Host.isAside_shown _ _
  rw [horderly.escapes_bind_iff]
  constructor
  · rintro ⟨_, later, hlogged, hrest⟩
    refine ⟨logLiteral_eq_ok_iff.mp (congrArg Prod.fst hlogged), ?_⟩
    exact (hact later (hmachine.after hlogged) (hshown.after hlogged)).mp hrest
  · rintro ⟨hlogs, hescapes⟩
    refine ⟨(), _, Prod.ext (logLiteral_eq_ok_iff.mpr hlogs) rfl, ?_⟩
    exact (hact _ (hmachine host) (hshown host)).mpr hescapes

/-! ## Commands on paths -/

/-- What is done with a path once it is made. -/
def showPath (task : PathTask) (filesystem : Datum) (p : Path) (quiet : Bool) : Act Unit :=
  match task with
  | .inspect => if quiet then pure () else detailsOn filesystem p >>= Act.print
  | .normalize => printUnless quiet [.line p.normalize.raw]
  | .convert form => printUnless quiet [.line (inForm form p)]

theorem runPath_eq (task : PathTask) (filesystem argument : Datum) (quiet : Bool) :
    runPath task filesystem argument quiet = pathOn filesystem argument >>= fun p =>
      logLiteral filesystem ("Parsed ".toList ++ pathLiteral filesystem p) >>= fun _ =>
        showPath task filesystem p quiet := by
  cases task <;> rfl

/-- What is printed of a path. -/
def shownOf : PathTask → Path → List Display.Shown
  | .inspect, p => Display.details p
  | .normalize, p => [.line p.normalize.raw]
  | .convert form, p => [.line (inForm form p)]

/-- Why a failure to show a path escapes: it should be shown in detail and its filesystem is no
text, or it is not printed. -/
inductive ShowEscapes (host : Host) (task : PathTask) (filesystem : Datum) (p : Path)
    (quiet : Bool) : Failure → Prop
  | details (htask : task = .inspect) (hquiet : quiet = false)
      (hkind : ∀ t, filesystem ≠ .text t) :
      ShowEscapes host task filesystem p quiet (.noText filesystem.fullKind "endswith".toList)
  | printed {failure : Failure} (hkind : task = .inspect → ∃ t, filesystem = .text t)
      (hprint : PrintEscapes host quiet (shownOf task p) failure) :
      ShowEscapes host task filesystem p quiet failure

/-- Why a failure escapes from a command on one path: the path cannot be made, or not be shown. -/
inductive PathEscapes (host : Host) (task : PathTask) (filesystem argument : Datum) (quiet : Bool) :
    Failure → Prop
  | argument {failure : Failure} (hargument : ArgumentEscapes filesystem argument failure) :
      PathEscapes host task filesystem argument quiet failure
  | shown {t : Text} {failure : Failure} (hpath : argument.asPath = .ok t)
      (hkey : filesystem.canBeKey = true) (hlogged : LogsLiteral host filesystem)
      (hshow : ShowEscapes host task filesystem (.parse filesystem.display t) quiet failure) :
      PathEscapes host task filesystem argument quiet failure

/-- Why a failure escapes from a command on two paths: one of them cannot be made, or the result is
not printed. -/
inductive PairEscapes (host : Host) (task : PairTask) (filesystem base other : Datum)
    (normalize quiet : Bool) : Failure → Prop
  | base {failure : Failure} (hbase : ArgumentEscapes filesystem base failure) :
      PairEscapes host task filesystem base other normalize quiet failure
  | other {t : Text} {e : NoPath} (hbase : base.asPath = .ok t) (hkey : filesystem.canBeKey = true)
      (hkind : other.asPath = .error e) :
      PairEscapes host task filesystem base other normalize quiet (.noPath e)
  | printed {t u : Text} {failure : Failure} (hbase : base.asPath = .ok t)
      (hother : other.asPath = .ok u) (hkey : filesystem.canBeKey = true)
      (hlogged : LogsLiteral host filesystem)
      (hprint : PrintEscapes host quiet
        [.line (task.result (.parse filesystem.display t) (.parse filesystem.display u)
          normalize).raw] failure) :
      PairEscapes host task filesystem base other normalize quiet failure

section

variable {filesystem : Datum} {p : Path} {quiet : Bool}

theorem showPath_eq_printUnless {task : PathTask}
    (hkind : task = .inspect → ∃ t, filesystem = .text t) :
    showPath task filesystem p quiet = printUnless quiet (shownOf task p) := by
  cases task with
  | inspect =>
      obtain ⟨t, rfl⟩ := hkind rfl
      cases quiet <;> rfl
  | normalize => rfl
  | convert form => rfl

theorem escapes_showPath_iff {task : PathTask} :
    (showPath task filesystem p quiet).Escapes host failure ↔
      ShowEscapes host task filesystem p quiet failure := by
  by_cases hkind : task = .inspect → ∃ t, filesystem = .text t
  · rw [showPath_eq_printUnless hkind, escapes_printUnless_iff]
    constructor
    · exact .printed hkind
    · rintro (⟨htask, -, hnone⟩ | ⟨-, hprint⟩)
      · obtain ⟨t, htext⟩ := hkind htask
        exact absurd htext (hnone t)
      · exact hprint
  · obtain ⟨rfl, hnone⟩ := Classical.not_imp.mp hkind
    rw [not_exists] at hnone
    have hdetails : detailsOn filesystem p =
        throw (.noText filesystem.fullKind "endswith".toList) := by
      unfold detailsOn
      split
      next t => exact absurd rfl (hnone t)
      next => rfl
    cases quiet with
    | true =>
        refine iff_of_false (Act.orderly_pure () host failure) ?_
        rintro (⟨-, hquiet, -⟩ | ⟨hsome, -⟩)
        · contradiction
        · exact hkind hsome
    | false =>
        change (detailsOn filesystem p >>= Act.print).Escapes host failure ↔ _
        rw [hdetails]
        constructor
        · rintro ⟨hthrown, -⟩
          obtain rfl := Except.error.inj hthrown
          exact .details rfl rfl hnone
        · rintro (⟨-, -, -⟩ | ⟨hsome, -⟩)
          · exact ⟨rfl, rfl⟩
          · exact absurd hsome hkind

theorem showEscapes_congr {later : Host} (hmachine : later.machine = host.machine)
    (hshown : later.shown = host.shown) (task : PathTask) :
    ShowEscapes later task filesystem p quiet failure ↔
      ShowEscapes host task filesystem p quiet failure := by
  have hprint : PrintEscapes later quiet (shownOf task p) failure ↔
      PrintEscapes host quiet (shownOf task p) failure :=
    printEscapes_congr hmachine hshown quiet _
  constructor
  · rintro (⟨htask, hquiet, hnone⟩ | ⟨hkind, hescapes⟩)
    · exact .details htask hquiet hnone
    · exact .printed hkind (hprint.mp hescapes)
  · rintro (⟨htask, hquiet, hnone⟩ | ⟨hkind, hescapes⟩)
    · exact .details htask hquiet hnone
    · exact .printed hkind (hprint.mpr hescapes)

theorem escapes_runPath_iff {task : PathTask} {argument : Datum} :
    (runPath task filesystem argument quiet).Escapes host failure ↔
      PathEscapes host task filesystem argument quiet failure := by
  have hshow (p : Path) :
      (logLiteral filesystem ("Parsed ".toList ++ pathLiteral filesystem p) >>= fun _ =>
        showPath task filesystem p quiet).Escapes host failure ↔
          LogsLiteral host filesystem ∧ ShowEscapes host task filesystem p quiet failure :=
    escapes_behindLiteral_iff fun later hmachine hshown =>
      escapes_showPath_iff.trans (showEscapes_congr hmachine hshown task)
  rw [runPath_eq, escapes_onPath_iff]
  simp only [hshow]
  constructor
  · rintro (hargument | ⟨t, hpath, hkey, hlogged, hescapes⟩)
    · exact .argument hargument
    · exact .shown hpath hkey hlogged hescapes
  · rintro (hargument | ⟨hpath, hkey, hlogged, hescapes⟩)
    · exact .inl hargument
    · exact .inr ⟨_, hpath, hkey, hlogged, hescapes⟩

theorem escapes_runPair_iff {task : PairTask} {base other : Datum} {normalize : Bool} :
    (runPair task filesystem base other normalize quiet).Escapes host failure ↔
      PairEscapes host task filesystem base other normalize quiet failure := by
  have hprint (message : Text) (shown : List Display.Shown) :
      (logLiteral filesystem message >>= fun _ => printUnless quiet shown).Escapes host failure ↔
        LogsLiteral host filesystem ∧ PrintEscapes host quiet shown failure :=
    escapes_behindLiteral_iff fun later hmachine hshown =>
      escapes_printUnless_iff.trans (printEscapes_congr hmachine hshown quiet shown)
  rw [runPair, escapes_onPath_iff]
  simp only [escapes_onPath_iff, hprint]
  constructor
  · rintro (hbase |
      ⟨t, hbase, hkey, (⟨hkind⟩ | ⟨-, hnokey⟩) | ⟨u, hother, -, hlogged, hescapes⟩⟩)
    · exact .base hbase
    · exact .other hbase hkey hkind
    · -- The first path was made, so the filesystem can be part of a key.
      rw [hkey] at hnokey
      contradiction
    · exact .printed hbase hother hkey hlogged hescapes
  · rintro (hbase | ⟨hbase, hkey, hkind⟩ | ⟨hbase, hother, hkey, hlogged, hescapes⟩)
    · exact .inl hbase
    · exact .inr ⟨_, hbase, hkey, .inl (.noPath hkind)⟩
    · exact .inr ⟨_, hbase, hkey, .inr ⟨_, hother, hkey, hlogged, hescapes⟩⟩

end

/-! ## Commands on manifests -/

theorem escapes_folderNamed_iff {argument : Datum} :
    (folderNamed argument).Escapes host failure ↔
      host.NoPlace (argument.asPath.map .ofText) failure := by
  rw [folderNamed, Act.escapes_bind_iff, Act.escapes_lift_iff]
  cases hpath : argument.asPath with
  | error e =>
      constructor
      · rintro (⟨_, herror, rfl, -⟩ | ⟨t, later, hlift, -⟩)
        · obtain rfl := Except.error.inj herror
          exact .noPath rfl
        · obtain ⟨hok, -⟩ := Act.lift_eq_ok hlift
          contradiction
      · rintro (⟨hkind⟩ | ⟨hok, -⟩)
        · obtain rfl := Except.error.inj hkind
          exact .inl ⟨e, rfl, rfl, rfl⟩
        · contradiction
  | ok t =>
      constructor
      · rintro (⟨_, herror, -⟩ | ⟨_, later, hlift, hexpand⟩)
        · contradiction
        · obtain ⟨hok, rfl⟩ := Act.lift_eq_ok hlift
          obtain rfl := Except.ok.inj hok
          obtain ⟨hhome, rfl⟩ := Act.escapes_expandHome_iff.mp hexpand
          exact .noHome rfl hhome
      · rintro (⟨hkind⟩ | ⟨hok, hhome⟩)
        · contradiction
        · obtain rfl := Except.ok.inj hok
          exact .inr ⟨t, host, rfl, Act.escapes_expandHome_iff.mpr ⟨hhome, rfl⟩⟩

theorem escapes_inFolder_iff {α : Type} {argument : Datum} {next : HostPath → Act α} :
    (folderNamed argument >>= next).Escapes host failure ↔
      host.NoPlace (argument.asPath.map .ofText) failure ∨
        ∃ place, (folderNamed argument).result host = (.ok place, host) ∧
          (next place).Escapes host failure := by
  rw [(looks_folderNamed argument).escapes_bind_iff, escapes_folderNamed_iff]

/-- Why a failure escapes while a manifest is shown: it cannot be loaded, or it is not printed. -/
inductive ManifestEscapes (host : Host) (folder : HostPath) (types? : Option (List Datum))
    (quiet : Bool) : Failure → Prop
  | load {failure : Failure} (hload : Manifest.LoadEscapes host folder types? failure) :
      ManifestEscapes host folder types? quiet failure
  | printed {found : Manifest} {failure : Failure}
      (hload : ((Manifest.ofFolder folder types?).result host).1 = .ok found)
      (hprint : PrintEscapes host quiet (Display.listing found) failure) :
      ManifestEscapes host folder types? quiet failure

theorem escapes_runManifest_iff {folder : HostPath} {types? : Option (List Datum)} {quiet : Bool} :
    (runManifest folder types? quiet).Escapes host failure ↔
      ManifestEscapes host folder types? quiet failure := by
  have hmachine := Manifest.keeps_ofFolder Host.isAside_machine folder types?
  have hshown := Manifest.keeps_ofFolder Host.isAside_shown folder types?
  rw [runManifest, Act.escapes_bind_iff, Manifest.escapes_ofFolder_iff]
  constructor
  · rintro (hload | ⟨found, loaded, hload, hescapes⟩)
    · exact .load hload
    · rw [escapes_printUnless_iff, printEscapes_congr (hmachine.after hload) (hshown.after hload)]
        at hescapes
      exact .printed (congrArg Prod.fst hload) hescapes
  · rintro (hload | ⟨hload, hescapes⟩)
    · exact .inl hload
    · refine .inr ⟨_, _, Prod.ext hload rfl, ?_⟩
      rwa [escapes_printUnless_iff, printEscapes_congr (hmachine host) (hshown host)]

/-- Why a failure escapes while an output is recorded: the manifest cannot be loaded, the path of
the output is no text, no layout has the indentation, or what was saved cannot be shown. -/
inductive RecordEscapes (host : Host) (folder : HostPath) (type path indent : Datum)
    (properties : List (Text × Text)) (quiet : Bool) : Failure → Prop
  | load {failure : Failure} (hload : Manifest.LoadEscapes host folder none failure) :
      RecordEscapes host folder type path indent properties quiet failure
  | path {found : Manifest} {loaded : Host} {e : NoPath}
      (hload : (Manifest.ofFolder folder none).result host = (.ok found, loaded))
      (hkind : path.asPath = .error e) :
      RecordEscapes host folder type path indent properties quiet (.noPath e)
  | indent {found : Manifest} {loaded : Host} {t : Text} {failure : Failure}
      (hload : (Manifest.ofFolder folder none).result host = (.ok found, loaded))
      (hpath : path.asPath = .ok t)
      (hlayout : Manifest.layout host.machine.memory indent = .error failure) :
      RecordEscapes host folder type path indent properties quiet failure
  | shown {found : Manifest} {loaded saved : Host} {t : Text} {target : HostPath}
      {failure : Failure}
      (hload : (Manifest.ofFolder folder none).result host = (.ok found, loaded))
      (hpath : path.asPath = .ok t)
      (hsave : (Manifest.saveDrafts folder indent (found.map .ofOutput ++
        [⟨type, .parse Path.localUri t, properties⟩])).result loaded = (.ok target, saved))
      (hshow : ManifestEscapes saved folder none quiet failure) :
      RecordEscapes host folder type path indent properties quiet failure

theorem escapes_runRecord_iff {folder : HostPath} {type path indent : Datum}
    {properties : List (Text × Text)} {quiet : Bool} :
    (runRecord folder type path indent properties quiet).Escapes host failure ↔
      RecordEscapes host folder type path indent properties quiet failure := by
  have hmachine := Manifest.keeps_ofFolder Host.isAside_machine folder none
  have huri : (Datum.text Path.localUri).display = Path.localUri := Manifest.display_text _
  rw [runRecord, Act.escapes_bind_iff, Manifest.escapes_ofFolder_iff]
  simp only [escapes_onPath_iff, huri]
  constructor
  · rintro (hload | ⟨found, loaded, hload, (⟨hkind⟩ | ⟨-, hkey⟩) | ⟨t, hpath, -, hsaved⟩⟩)
    · exact .load hload
    · exact .path hload hkind
    · contradiction
    · rw [Act.escapes_bind_iff, Manifest.escapes_saveDrafts_iff, hmachine.after hload] at hsaved
      rcases hsaved with hlayout | ⟨target, saved, hsave, hshow⟩
      · exact .indent hload hpath hlayout
      · exact .shown hload hpath hsave (escapes_runManifest_iff.mp hshow)
  · rintro (hload | ⟨hload, hkind⟩ | ⟨hload, hpath, hlayout⟩ | ⟨hload, hpath, hsave, hshow⟩)
    · exact .inl hload
    · exact .inr ⟨_, _, hload, .inl (.noPath hkind)⟩
    · refine .inr ⟨_, _, hload, .inr ⟨_, hpath, rfl, ?_⟩⟩
      rw [Act.escapes_bind_iff, Manifest.escapes_saveDrafts_iff, hmachine.after hload]
      exact .inl hlayout
    · refine .inr ⟨_, _, hload, .inr ⟨_, hpath, rfl, ?_⟩⟩
      rw [Act.escapes_bind_iff]
      exact .inr ⟨_, _, hsave, escapes_runManifest_iff.mpr hshow⟩

/-! ## Commands -/

/-- Why a failure escapes while a command is carried out. -/
def TaskEscapes (host : Host) (request : Request) (config : Config) (failure : Failure) : Prop :=
  let filesystem := filesystemFor request config
  match request.task with
  | .path task argument => PathEscapes host task filesystem argument request.quiet failure
  | .pair task base other normalize =>
    PairEscapes host task filesystem base other normalize request.quiet failure
  | .manifest folder types? =>
    host.NoPlace (folder.asPath.map .ofText) failure ∨
      ∃ place, (folderNamed folder).result host = (.ok place, host) ∧
        ManifestEscapes host place types? request.quiet failure
  | .record folder type path values =>
    host.NoPlace (folder.asPath.map .ofText) failure ∨
      ∃ place, (folderNamed folder).result host = (.ok place, host) ∧
        match propertiesFrom [] values with
        | .error (.malformed _) => False
        | .error (.noText kind) => failure = .noText kind "partition".toList
        | .ok properties =>
          RecordEscapes host place type path config.indent properties request.quiet failure

theorem escapes_carryOut_iff {request : Request} {config : Config} :
    (carryOut request config).Escapes host failure ↔ TaskEscapes host request config failure := by
  have hdone (_ : Unit) : (pure Outcome.done : Act Outcome).Orderly := Act.orderly_pure _
  unfold TaskEscapes
  cases htask : request.task with
  | path task argument =>
      rw [carryOut, htask]
      show (runPath _ _ _ _ >>= fun _ => pure Outcome.done).Escapes host failure ↔ _
      rw [Act.escapes_bind_iff_of_orderly hdone, escapes_runPath_iff]
  | pair task base other normalize =>
      rw [carryOut, htask]
      show (runPair _ _ _ _ _ _ >>= fun _ => pure Outcome.done).Escapes host failure ↔ _
      rw [Act.escapes_bind_iff_of_orderly hdone, escapes_runPair_iff]
  | manifest folder types? =>
      rw [carryOut, htask]
      show (folderNamed folder >>= fun place => runManifest place types? request.quiet >>=
        fun _ => pure Outcome.done).Escapes host failure ↔ _
      rw [escapes_inFolder_iff]
      simp only [Act.escapes_bind_iff_of_orderly hdone, escapes_runManifest_iff]
  | record folder type path values =>
      rw [carryOut_record htask, escapes_inFolder_iff]
      simp only
      refine or_congr_right (exists_congr fun place => and_congr_right fun _ => ?_)
      cases propertiesFrom [] values with
      | error fault =>
          cases fault with
          | malformed t => exact iff_of_false (Act.orderly_pure _ host failure) id
          | noText kind =>
              show (throw _ : Act Outcome).Escapes host failure ↔ _
              rw [Act.escapes_throw_iff]
              constructor
              · rintro ⟨rfl, -⟩
                rfl
              · rintro rfl
                exact ⟨rfl, rfl⟩
      | ok properties =>
          show (runRecord _ _ _ _ _ _ >>= fun _ => pure Outcome.done).Escapes host failure ↔ _
          rw [Act.escapes_bind_iff_of_orderly hdone, escapes_runRecord_iff]

end Command

end LexicalPaths
