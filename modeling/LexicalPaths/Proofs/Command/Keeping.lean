import LexicalPaths.Proofs.Command.SetUp
import LexicalPaths.Proofs.Host.Keeping
import LexicalPaths.Proofs.Manifest.Folder

/-!
# What commands keep

Loading the configuration, and loading and saving manifests, is work on files that is logged.
Setting up the log replaces the logger besides.
-/

namespace LexicalPaths

variable {γ : Type} {view : Host → γ} (hview : Host.IsAside view)
include hview

namespace Config

theorem keeps_save (file : HostPath) : (save usual (some file)).Keeps view := by
  apply (Act.looks_pure file).keeps.bind
  intro target
  have hreport := maintains_reportUnsaved (Act.keeps_refl view)
    fun level message => Act.keeps_logWith hview level message []
  have hwrite : (do
      Act.ensureFolders target.parent
      if !usual.isWritable then throw .longInteger
      Act.writeText target usual.document
      Act.log .info ("Configuration saved to ".toList ++ target.toText) : Act Unit).Keeps view := by
    have hend := (Act.keeps_writeText hview target usual.document).bind fun _ =>
      Act.keeps_logWith hview .info ("Configuration saved to ".toList ++ target.toText) []
    apply (Act.keeps_ensureFolders hview _).bind
    intro _
    split
    · exact (Act.looks_throw _).keeps.bind fun _ => hend
    · exact hend
  exact (hwrite.reporting hreport).bind fun _ => (Act.looks_pure target).keeps

theorem keeps_load (hconfig : ∀ (host : Host) (config : Config),
    view { host with config? := some config } = view host) : load.Keeps view := by
  have hlog (level : Level) (message : Text) : (Act.log level message).Keeps view :=
    Act.keeps_logWith hview level message []
  have hread (file : HostPath) : (readOrCreate file).Keeps view := by
    apply (Act.looks_holds file).keeps.bind
    intro found
    split
    · exact maintains_read (Act.keeps_refl view) (Act.keeps_trans view) hlog file
    · apply (keeps_save hview file).bind
      intro _
      exact (hlog _ _).bind fun _ => (Act.looks_pure usual).keeps
  apply Act.looks_get.keeps.bind
  intro host
  split
  · exact (Act.looks_pure _).keeps
  · apply Act.looks_get.keeps.bind
    intro later
    apply (Act.looks_defaultConfigPath _).keeps.bind
    intro file
    apply ((hread file).reporting fun failure => hlog _ _).bind
    intro config
    have hremember :
        (modify fun host => { host with config? := some config } : Act Unit).Keeps view :=
      fun host => hconfig host config
    exact hremember.bind fun _ => (Act.looks_pure config).keeps

end Config

namespace Manifest

theorem keeps_ofFolder (folder : HostPath) (types? : Option (List Datum)) :
    (ofFolder folder types?).Keeps view :=
  maintains_ofFolder (Act.keeps_refl view) (Act.keeps_trans view) (Act.keeps_logWith hview) folder
    types?

theorem keeps_saveDrafts (folder : HostPath) (indent : Datum) (drafts : List Draft) :
    (saveDrafts folder indent drafts).Keeps view := by
  have hreport (failure : Failure) : (reportUnsaved folder failure).Keeps view := by
    unfold reportUnsaved
    split
    · exact Act.keeps_logWith hview _ _ _
    · exact (Act.looks_pure ()).keeps
  apply Act.looks_get.keeps.bind
  intro host
  apply (Act.looks_lift _ _).keeps.bind
  intro layout
  have hwrite := (Act.keeps_ensureFolders hview folder).bind fun _ =>
    Act.keeps_writeText hview (file folder) (persistDrafts (base folder) layout drafts)
  apply (hwrite.reporting hreport).bind
  intro _
  exact (Act.keeps_logWith hview _ _ _).bind fun _ => (Act.looks_pure _).keeps

end Manifest

section

variable (hlogger : ∀ (host : Host) (logger : Logger),
  view { host with logger := logger } = view host)
include hlogger

theorem Act.keeps_setupLogger (logFile : LogFile) (console level : Level) :
    (setupLogger (some logFile) console level).Keeps view := by
  have hreplace (logger : Logger) :
      (modify fun host => { host with logger := logger } : Act Unit).Keeps view :=
    fun host => hlogger host logger
  apply (hreplace _).bind
  intro _
  apply (looks_lift _ _).keeps.bind
  intro p
  apply (looks_locate p).keeps.bind
  intro path
  apply (keeps_ensureFoldersDown hview _).bind
  intro _
  apply (keeps_openEnd hview path).bind
  exact fun place => hreplace _

theorem Command.keeps_prepare (hconfig : ∀ (host : Host) (config : Config),
    view { host with config? := some config } = view host) (request : Request) :
    (prepare request).Keeps view := by
  apply (Config.keeps_load hview hconfig).bind
  intro config
  apply (looks_logFileFor config).keeps.bind
  intro logFile
  apply (Act.keeps_setupLogger hview hlogger logFile _ _).bind
  exact fun _ => (Act.looks_pure config).keeps

end

end LexicalPaths
