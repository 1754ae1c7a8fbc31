import LexicalPaths.Proofs.Host.Growth

/-!
# Failures that the command line reports

The command line reports the failures that a user can cause, and passes on the others.  An action
is orderly if it has no others.  All access to files is orderly; a failure escapes only where a path
cannot be located, where nobody reads what is printed, where a manifest is nested too deep, or where
a value is not of the kind that an operation needs.
-/

namespace LexicalPaths.Act

/-- The action fails, and the command line does not report the failure. -/
def Escapes {α : Type} (act : Act α) (host : Host) (failure : Failure) : Prop :=
  (act.result host).1 = .error failure ∧ failure.isReported = false

/-- The command line reports all failures of the action. -/
def Orderly {α : Type} (act : Act α) : Prop :=
  ∀ host failure, ¬ act.Escapes host failure

section

variable {α β : Type} {host : Host} {failure : Failure}

theorem escapes_throw_iff {thrown : Failure} :
    (throw thrown : Act α).Escapes host failure ↔
      thrown = failure ∧ failure.isReported = false := by
  have houtcome : ((throw thrown : Act α).result host).1 = .error thrown := rfl
  rw [Escapes, houtcome, Except.error.injEq]

/-- A failure escapes from the first part of an action or from what follows it. -/
theorem escapes_bind_iff {act : Act α} {next : α → Act β} :
    (act >>= next).Escapes host failure ↔ act.Escapes host failure ∨
      ∃ a later, act.result host = (.ok a, later) ∧ (next a).Escapes later failure := by
  unfold Escapes
  rw [result_bind]
  rcases hact : act.result host with ⟨other | a, later⟩
  · simp
  · simp only [Prod.mk.injEq, Except.ok.injEq, reduceCtorEq, false_and, false_or]
    constructor
    · exact fun hnext => ⟨a, later, ⟨rfl, rfl⟩, hnext⟩
    · rintro ⟨_, _, ⟨rfl, rfl⟩, hnext⟩
      exact hnext

theorem escapes_bind_of_ok {act : Act α} {next : α → Act β} {a : α} {later : Host}
    (hact : act.result host = (.ok a, later)) :
    (act >>= next).Escapes host failure ↔ (next a).Escapes later failure := by
  unfold Escapes
  rw [bind_of_ok hact]

/-- An action that leaves the host as it is lets escape what it lets escape itself, and what escapes
behind it on the same host. -/
theorem Looks.escapes_bind_iff {act : Act α} {next : α → Act β} (hact : act.Looks) :
    (act >>= next).Escapes host failure ↔ act.Escapes host failure ∨
      ∃ a, act.result host = (.ok a, host) ∧ (next a).Escapes host failure := by
  rw [Act.escapes_bind_iff]
  refine or_congr_right ⟨?_, fun ⟨a, hok, hnext⟩ => ⟨a, host, hok, hnext⟩⟩
  rintro ⟨a, later, hok, hnext⟩
  obtain rfl := hact.after hok
  exact ⟨a, hok, hnext⟩

theorem escapes_lift_iff {ε : Type} {toFailure : ε → Failure} {outcome : Except ε α} :
    (lift toFailure outcome).Escapes host failure ↔
      ∃ e, outcome = .error e ∧ toFailure e = failure ∧ failure.isReported = false := by
  cases outcome with
  | ok a =>
      apply iff_of_false
      · exact fun hescapes => by nomatch hescapes.1
      · rintro ⟨e, herror, -⟩
        contradiction
  | error e =>
      rw [lift, escapes_throw_iff]
      simp

/-- Reporting a failure does not change what escapes, if the report itself succeeds. -/
theorem escapes_reporting_iff {report : Failure → Act Unit} {act : Act α}
    (hreport : ∀ first later, ((report first).result later).1 = .ok ()) :
    (reporting report act).Escapes host failure ↔ act.Escapes host failure := by
  unfold Escapes reporting
  rw [result_tryCatch]
  rcases hact : act.result host with ⟨first | a, later⟩
  · have hpassed : (report first >>= fun _ => (throw first : Act α)).result later =
        (throw first : Act α).result ((report first).result later).2 :=
      bind_of_ok (Prod.ext (hreport first later) rfl)
    simp only [hpassed]
    rfl
  · simp

/-! ## Orderly actions -/

theorem orderly_pure (a : α) : (pure a : Act α).Orderly := fun _ _ hescapes => by
  nomatch hescapes.1

theorem orderly_get : (get : Act Host).Orderly := fun _ _ hescapes => by
  nomatch hescapes.1

theorem orderly_modify (f : Host → Host) : (modify f : Act Unit).Orderly := fun _ _ hescapes => by
  nomatch hescapes.1

theorem orderly_throw {thrown : Failure} (hreported : thrown.isReported = true) :
    (throw thrown : Act α).Orderly := by
  intro host failure hescapes
  obtain ⟨rfl, hpassed⟩ := escapes_throw_iff.mp hescapes
  rw [hreported] at hpassed
  contradiction

theorem orderly_lift {ε : Type} {toFailure : ε → Failure}
    (hreported : ∀ e, (toFailure e).isReported = true) (outcome : Except ε α) :
    (lift toFailure outcome).Orderly := by
  cases outcome with
  | ok a => exact orderly_pure a
  | error e => exact orderly_throw (hreported e)

theorem Orderly.bind {act : Act α} {next : α → Act β} (hact : act.Orderly)
    (hnext : ∀ a, (next a).Orderly) : (act >>= next).Orderly := by
  intro host failure hescapes
  rcases escapes_bind_iff.mp hescapes with hfirst | ⟨a, later, -, hrest⟩
  · exact hact host failure hfirst
  · exact hnext a later failure hrest

theorem Orderly.isReported {act : Act α} (hact : act.Orderly) {last : Host}
    (hresult : act.result host = (.error failure, last)) : failure.isReported = true := by
  by_contra hpassed
  rw [Bool.not_eq_true] at hpassed
  exact hact host failure ⟨by rw [hresult], hpassed⟩

theorem Orderly.tryCatch {act : Act α} {handle : Failure → Act α} (hact : act.Orderly)
    (hhandle : ∀ first, first.isReported = true → (handle first).Orderly) :
    (tryCatch act handle).Orderly := by
  rintro host failure ⟨hfailed, hpassed⟩
  rw [result_tryCatch] at hfailed
  rcases hresult : act.result host with ⟨first | a, later⟩
  · rw [hresult] at hfailed
    exact hhandle first (hact.isReported hresult) later failure ⟨hfailed, hpassed⟩
  · rw [hresult] at hfailed
    contradiction

theorem Orderly.reporting {report : Failure → Act Unit} {act : Act α} (hact : act.Orderly)
    (hreport : ∀ first, (report first).Orderly) : (reporting report act).Orderly :=
  hact.tryCatch fun first hreported => (hreport first).bind fun _ => orderly_throw hreported

/-- What escapes behind an orderly action escapes from what follows it. -/
theorem Orderly.escapes_bind_iff {act : Act α} {next : α → Act β} (hact : act.Orderly) :
    (act >>= next).Escapes host failure ↔
      ∃ a later, act.result host = (.ok a, later) ∧ (next a).Escapes later failure := by
  rw [Act.escapes_bind_iff, or_iff_right (hact host failure)]

/-- What escapes before orderly actions escapes from the first one. -/
theorem escapes_bind_iff_of_orderly {act : Act α} {next : α → Act β}
    (hnext : ∀ a, (next a).Orderly) :
    (act >>= next).Escapes host failure ↔ act.Escapes host failure := by
  rw [escapes_bind_iff, or_iff_left]
  rintro ⟨a, later, -, hrest⟩
  exact hnext a later failure hrest

end

/-! ## Records -/

theorem orderly_logWith (level : Level) (message : Text) (attributes : Display.Attributes) :
    (logWith level message attributes).Orderly :=
  orderly_modify _

theorem orderly_logWritten {level : Level} {message : Except Failure Text}
    (hreported : ∀ failure, message = .error failure → failure.isReported = true) :
    (logWritten level message).Orderly := by
  unfold logWritten
  split
  next t => exact orderly_logWith level t []
  next failure =>
    apply orderly_get.bind
    intro host
    split
    · exact orderly_throw (hreported failure rfl)
    · exact orderly_pure ()

/-! ## Files -/

theorem orderly_checkPath (p : HostPath) : (checkPath p).Orderly := by
  unfold checkPath
  split
  · exact orderly_throw rfl
  · exact orderly_pure ()

theorem orderly_onFiles {α : Type} (access : Access) (p : HostPath)
    (operation : Files → Links → Place → HostPath → Except Refusal α) :
    (onFiles access p operation).Orderly := by
  apply (orderly_checkPath p).bind
  intro _
  apply orderly_get.bind
  intro host
  split
  · exact orderly_throw rfl
  · exact orderly_lift (fun _ => rfl) _

theorem orderly_entry? (p : HostPath) : (Act.entry? p).Orderly := by
  apply orderly_get.bind
  intro host
  split
  · exact orderly_pure _
  · split
    · exact orderly_throw rfl
    · exact orderly_pure _
    · exact orderly_throw rfl
    · exact orderly_pure _

theorem orderly_holds (p : HostPath) : (holds p).Orderly :=
  Orderly.bind ( orderly_entry? p) fun _ => orderly_pure _

theorem orderly_isFile (p : HostPath) : (isFile p).Orderly := by
  apply Orderly.bind <| orderly_entry? p
  intro found
  split <;> exact orderly_pure _

theorem orderly_isFolder (p : HostPath) : (isFolder p).Orderly := by
  apply Orderly.bind <| orderly_entry? p
  intro found
  split <;> exact orderly_pure _

theorem orderly_readBytes (p : HostPath) : (readBytes p).Orderly :=
  orderly_onFiles .read p _

theorem orderly_readText (p : HostPath) : (readText p).Orderly := by
  apply (orderly_readBytes p).bind
  intro bytes
  exact (orderly_lift (fun _ => rfl) _).bind fun _ => orderly_pure _

theorem orderly_writeText (p : HostPath) (t : Text) : (writeText p t).Orderly :=
  (orderly_onFiles .write p _).bind fun _ => orderly_modify _

theorem orderly_openEnd (p : HostPath) : (openEnd p).Orderly := by
  apply (orderly_onFiles .write p _).bind
  intro place
  exact (orderly_modify _).bind fun _ => orderly_pure _

/-! ## Folders -/

theorem orderly_makeFolder (p : HostPath) : (makeFolder p).Orderly :=
  (orderly_onFiles .make p _).bind fun _ => orderly_modify _

theorem orderly_makeFolderUnless {found : Act Bool} (hfound : found.Orderly) (p : HostPath) :
    (makeFolderUnless found p).Orderly := by
  apply (orderly_makeFolder p).tryCatch
  intro first hreported
  split
  · apply hfound.bind
    intro there
    split
    · exact orderly_pure ()
    · exact orderly_throw hreported
  · exact orderly_throw hreported

theorem orderly_ensureFolder (p : HostPath) : (ensureFolder p).Orderly :=
  orderly_makeFolderUnless (orderly_isFolder p) p

theorem orderly_ensureFolders (p : HostPath) : (ensureFolders p).Orderly := by
  unfold ensureFolders
  generalize p.names.length = count
  induction count generalizing p with
  | zero => exact orderly_ensureFolder p
  | succ count ih =>
      apply (orderly_ensureFolder p).tryCatch
      intro first hreported
      split
      · exact (ih p.parent).bind fun _ => orderly_ensureFolder p
      · exact orderly_throw hreported

theorem orderly_seems (p : HostPath) : (seems p).Orderly :=
  (orderly_holds p).tryCatch fun _ _ => orderly_pure false

theorem orderly_ensureSeemingFolder (p : HostPath) : (ensureSeemingFolder p).Orderly :=
  orderly_makeFolderUnless ((orderly_isFolder p).tryCatch fun _ _ => orderly_pure false) p

theorem orderly_ensureFoldersDown (p : HostPath) : (ensureFoldersDown p).Orderly := by
  unfold ensureFoldersDown
  generalize p.names.length = count
  induction count generalizing p with
  | zero => exact orderly_ensureSeemingFolder p
  | succ count ih =>
      have hlast := orderly_ensureSeemingFolder p
      apply (orderly_seems p.parent).bind
      intro there
      cases there with
      | true => exact hlast
      | false =>
          refine ((ih p.parent).tryCatch fun first hreported => ?_).bind fun _ => hlast
          split
          · exact orderly_pure ()
          · exact orderly_throw hreported

end LexicalPaths.Act
