import LexicalPaths.Proofs.Host.Growth

/-!
# What actions keep

Actions on files change the files, and logging changes the records and the log file.  A view of the
host that shows neither of them stays the same, however such an action ends.
-/

namespace LexicalPaths

variable {α β γ : Type} {view : Host → γ}

/-- The view shows neither the files of a host nor its records. -/
def Host.IsAside (view : Host → γ) : Prop :=
  ∀ (host : Host) (files : Files) (records : List LogRecord),
    view { host with files := files, records := records } = view host

theorem Host.IsAside.files (hview : Host.IsAside view) (host : Host) (files : Files) :
    view { host with files := files } = view host :=
  hview host files host.records

theorem Host.IsAside.record (hview : Host.IsAside view) (host : Host) (r : LogRecord) :
    view (host.record r) = view host := by
  unfold Host.record
  split
  · rfl
  · exact hview host _ _

theorem Host.isAside_machine : Host.IsAside Host.machine := fun _ _ _ => rfl

theorem Host.isAside_logger : Host.IsAside Host.logger := fun _ _ _ => rfl

theorem Host.isAside_shown : Host.IsAside Host.shown := fun _ _ _ => rfl

namespace Act

/-- However the action ends, the view shows what it showed before. -/
def Keeps (view : Host → γ) (act : Act α) : Prop :=
  act.Maintains fun host later => view later = view host

theorem keeps_refl (view : Host → γ) (host : Host) : view host = view host := rfl

theorem keeps_trans (view : Host → γ) ⦃host later last : Host⦄ (hone : view later = view host)
    (htwo : view last = view later) : view last = view host :=
  htwo.trans hone

theorem Looks.keeps {act : Act α} (hact : act.Looks) : act.Keeps view :=
  hact.maintains (keeps_refl view)

theorem Keeps.bind {act : Act α} {next : α → Act β} (hact : act.Keeps view)
    (hnext : ∀ a, (next a).Keeps view) : (act >>= next).Keeps view :=
  Maintains.bind (keeps_trans view) hact hnext

theorem Keeps.reporting {report : Failure → Act Unit} {act : Act α} (hact : act.Keeps view)
    (hreport : ∀ failure, (report failure).Keeps view) : (reporting report act).Keeps view :=
  Maintains.reporting (keeps_trans view) hact hreport

section

variable (hview : Host.IsAside view)
include hview

theorem keeps_logWith (level : Level) (message : Text) (attributes : Display.Attributes) :
    (logWith level message attributes).Keeps view := fun host => hview.record host _

theorem keeps_logWritten (level : Level) (message : Except Failure Text) :
    (logWritten level message).Keeps view := by
  unfold logWritten
  split
  · exact keeps_logWith hview _ _ _
  · apply looks_get.keeps.bind
    intro host
    split
    · exact (looks_throw _).keeps
    · exact (looks_pure ()).keeps

theorem keeps_onFiles (access : Access) (p : HostPath)
    (operation : Files → Links → Place → HostPath → Except Refusal α) (change : α → Host → Files) :
    (onFiles access p operation >>= fun a =>
      modify fun host => { host with files := change a host }).Keeps view :=
  (looks_onFiles access p operation).keeps.bind fun _ host => hview.files host _

theorem keeps_writeText (p : HostPath) (t : Text) : (writeText p t).Keeps view :=
  keeps_onFiles hview .write p Files.filePlace fun place host =>
    host.files.put place (.file (Utf8.encode t))

theorem keeps_openEnd (p : HostPath) : (openEnd p).Keeps view := by
  apply (looks_onFiles .write p _).keeps.bind
  intro place
  have happend : (modify fun host =>
      { host with files := host.files.append place [] } : Act Unit).Keeps view :=
    fun host => hview.files host _
  exact happend.bind fun _ => (looks_pure place).keeps

theorem keeps_makeFolder (p : HostPath) : (makeFolder p).Keeps view :=
  keeps_onFiles hview .make p Files.makeFolder fun files _ => files

theorem keeps_ensureFolders (p : HostPath) : (ensureFolders p).Keeps view :=
  maintains_ensureFolders (keeps_refl view) (keeps_trans view) (keeps_makeFolder hview) p

theorem keeps_ensureFoldersDown (p : HostPath) : (ensureFoldersDown p).Keeps view :=
  maintains_ensureFoldersDown (keeps_refl view) (keeps_trans view) (keeps_makeFolder hview) p

end

end Act

end LexicalPaths
