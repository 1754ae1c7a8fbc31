import LexicalPaths.Proofs.Host.Growth

/-!
# Actions that spare a file

An action spares the file at a place if it writes and logs at other places only.  It may make the
folders that are missing, since those are made where nothing is.
-/

namespace LexicalPaths

namespace Host

/-- The log keeps away from the place: if a log file is open, it lies elsewhere and is not put
aside. -/
structure LogsApart (host : Host) (q : Place) : Prop where
  ne : ∀ r level, host.logger.file? = some (r, level) → r ≠ q
  steady : ∀ r level, host.logger.file? = some (r, level) → host.machine.rotation? = none

/-- The later host has the same file at the place, or none as before. -/
structure Spares (q : Place) (host later : Host) : Prop extends host.Agrees later where
  file : ∀ bytes, later.files.entry? q = some (.file bytes) ↔
    host.files.entry? q = some (.file bytes)
  logsApart : later.LogsApart q

variable {q : Place} {host later last : Host}

theorem Spares.refl (hlog : host.LogsApart q) : host.Spares q host :=
  ⟨.refl host, fun _ => Iff.rfl, hlog⟩

theorem Spares.trans (hone : host.Spares q later) (htwo : later.Spares q last) :
    host.Spares q last where
  toAgrees := hone.toAgrees.trans htwo.toAgrees
  file := fun bytes => (htwo.file bytes).trans (hone.file bytes)
  logsApart := htwo.logsApart

theorem spares_put (hlog : host.LogsApart q) {place : Place} (hne : place ≠ q) (entry : Entry) :
    host.Spares q { host with files := host.files.put place entry } where
  toAgrees := ⟨rfl, rfl, rfl, rfl⟩
  file := fun bytes => by
    show Files.entry? (host.files.put place entry) q = _ ↔ _
    rw [Files.entry?_put_of_ne host.files (Ne.symm hne)]
  logsApart := ⟨hlog.ne, hlog.steady⟩

/-- A folder is made where nothing is, so not where a file is. -/
theorem spares_put_folder (hlog : host.LogsApart q) {place : Place}
    (hfree : host.files.entry? place = none) :
    host.Spares q { host with files := host.files.put place .folder } := by
  by_cases hsame : place = q
  · subst hsame
    have hne : place ≠ [] := by
      rintro rfl
      nomatch hfree
    refine ⟨⟨rfl, rfl, rfl, rfl⟩, fun bytes => ?_, hlog.ne, hlog.steady⟩
    show Files.entry? (host.files.put place .folder) place = _ ↔ _
    rw [Files.entry?_put_self _ hne, hfree]
    simp
  · exact spares_put hlog hsame .folder

theorem spares_record (hlog : host.LogsApart q) (r : LogRecord) :
    host.Spares q (host.record r) where
  toAgrees := host.agrees_record r
  file := fun bytes => by
    rcases host.files_record r hlog.steady with hsame | ⟨place, level, line, hopen, happend⟩
    · rw [hsame]
    · rw [happend, Files.append, Files.entry?_put_of_ne _ (Ne.symm (hlog.ne place level hopen))]
  logsApart := by
    refine ⟨?_, ?_⟩
    · rw [Host.logger_record]
      exact hlog.ne
    · rw [Host.logger_record, Host.machine_record]
      exact hlog.steady

/-- The open log file, if there is one, is a file. -/
def LogIsFile (host : Host) : Prop :=
  ∀ r level, host.logger.file? = some (r, level) →
    ∃ bytes, host.files.entry? r = some (.file bytes)

/-- A file is found as before when the log goes to another one. -/
theorem Finds.record {p : HostPath} {bytes : List UInt8} (hfinds : host.Finds p q bytes)
    (hfile : host.LogIsFile) (hlog : host.LogsApart q) (r : LogRecord) :
    (host.record r).Finds p q bytes := by
  refine ⟨hfinds.1, ?_⟩
  rw [host.machine_record r, host.folder_record r]
  rcases host.files_record r hlog.steady with hsame | ⟨place, level, line, hopen, happend⟩
  · rw [hsame]
    exact hfinds.2
  · obtain ⟨found, hentry⟩ := hfile place level hopen
    rw [happend]
    exact Files.spot_put_of_ne (Ne.symm (hlog.ne place level hopen)) (by simp [hentry])
      hfinds.2

end Host

namespace Act

/-- Unless the log is kept at the place, the action spares the file there. -/
def Spares {α : Type} (q : Place) (act : Act α) : Prop :=
  act.Maintains fun host later => host.LogsApart q → host.Spares q later

section

variable {α β : Type} {q : Place}

theorem spares_refl (host : Host) (hlog : host.LogsApart q) : host.Spares q host :=
  .refl hlog

theorem spares_trans ⦃host later last : Host⦄ (hone : host.LogsApart q → host.Spares q later)
    (htwo : later.LogsApart q → later.Spares q last) (hlog : host.LogsApart q) :
    host.Spares q last := by
  have hfirst := hone hlog
  exact hfirst.trans (htwo hfirst.logsApart)

theorem Looks.spares {act : Act α} (hact : act.Looks) : act.Spares q :=
  hact.maintains spares_refl

theorem Spares.bind {act : Act α} {next : α → Act β} (hact : act.Spares q)
    (hnext : ∀ a, (next a).Spares q) : (act >>= next).Spares q :=
  Maintains.bind spares_trans hact hnext

theorem spares_logWith (level : Level) (message : Text) (attributes : Display.Attributes) :
    (logWith level message attributes).Spares q := fun _ hlog => Host.spares_record hlog _

theorem spares_makeFolder (p : HostPath) : (makeFolder p).Spares q := by
  intro host hlog
  rcases result_makeFolder p host with hsame | ⟨place, -, hfree, hmade⟩
  · rw [hsame]
    exact .refl hlog
  · rw [hmade]
    exact Host.spares_put_folder hlog hfree

theorem spares_ensureFolders (p : HostPath) : (ensureFolders p).Spares q :=
  maintains_ensureFolders spares_refl spares_trans spares_makeFolder p

theorem spares_ensureFoldersDown (p : HostPath) : (ensureFoldersDown p).Spares q :=
  maintains_ensureFoldersDown spares_refl spares_trans spares_makeFolder p

variable {host last : Host} {p : HostPath}

section

variable (hlinks : host.machine.links = []) (hlog : host.LogsApart q)
  (hne : p.place host.folder ≠ q)
include hlinks hlog hne

/-- Without links a file is put where its path points. -/
theorem spares_onFilePlace {α : Type} {next : Place → Act α}
    (hnext : ∀ place, place ≠ q → host.Spares q ((next place).result host).2) :
    host.Spares q ((onFiles .write p Files.filePlace >>= next).result host).2 := by
  apply ends_bind ((looks_onFiles .write p _).spares host hlog)
  intro place later hplace _
  obtain ⟨-, -, hok, rfl⟩ := onFiles_eq_ok hplace
  rw [hlinks] at hok
  apply hnext
  rwa [Files.filePlace_eq hok]

theorem spares_writeText (t : Text) : host.Spares q ((writeText p t).result host).2 :=
  spares_onFilePlace hlinks hlog hne fun _ hplace => Host.spares_put hlog hplace _

theorem spares_openEnd : host.Spares q ((openEnd p).result host).2 :=
  spares_onFilePlace hlinks hlog hne fun _ hplace => Host.spares_put hlog hplace _

end

/-- What cannot be written was not touched. -/
theorem looks_of_writeText_error {t : Text} {failure : Failure}
    (hresult : (writeText p t).result host = (.error failure, last)) : last = host := by
  rw [writeText, writeBytes, result_bind] at hresult
  rcases hplace : (onFiles .write p Files.filePlace).result host with ⟨other | place, later⟩
  · obtain rfl := (looks_onFiles .write p _).after hplace
    rw [hplace] at hresult
    exact (Prod.mk.inj hresult).2.symm
  · rw [hplace] at hresult
    cases hresult

end

end Act

end LexicalPaths
