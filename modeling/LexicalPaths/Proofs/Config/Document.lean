import LexicalPaths.Config.Storage
import LexicalPaths.Proofs.Host.HostPath
import LexicalPaths.Proofs.Toml.Number

/-!
# Configurations as documents

The document of a configuration is read back to its settings, unless a text in it holds a control:
then the document is none.  Only the path of a log file is kept differently when it is read: it
comes back as a text, and a blank text means that there is no log file.
-/

namespace LexicalPaths

open Toml

/-- The log file as a caller gives it: none, a text, or the path that a text names. -/
inductive GivenLog where
  | none
  | text (t : Text)
  | path (t : Text)

def GivenLog.kept : GivenLog → LogFile
  | .none => .value .null
  | .text t => Config.keptLogFile (.text t)
  | .path t => .path (.ofText t)

namespace Config

/-- The configuration that a filesystem, a log file and an indentation of the declared types
make. -/
def given (uri? : Option Text) (log : GivenLog) (indent : Int) : Config where
  filesystemUri := keptFilesystem (uri?.elim .null .text)
  logFile := log.kept
  indent := keptIndent (.int indent)

/-- The settings have the declared types, as a configuration keeps them. -/
structure IsTyped (config : Config) : Prop where
  filesystemUri : config.filesystemUri = .null ∨ ∃ t ≠ [], config.filesystemUri = .text t
  logFile : config.logFile = .value .null ∨ ∃ t, config.logFile = .path (.ofText t)
  indent : ∃ n : Nat, config.indent = .int n

theorem isTyped_given (uri? : Option Text) (log : GivenLog) (indent : Int) :
    (given uri? log indent).IsTyped where
  filesystemUri := by
    rcases uri? with _ | ⟨_ | ⟨c, t⟩⟩
    · exact .inl rfl
    · exact .inl rfl
    · exact .inr ⟨c :: t, List.cons_ne_nil c t, rfl⟩
  logFile := by
    cases log with
    | none => exact .inl rfl
    | path t => exact .inr ⟨t, rfl⟩
    | text t =>
        by_cases hblank : t.trim = []
        · exact .inl (if_pos hblank)
        · exact .inr ⟨t, if_neg hblank⟩
  indent := by
    by_cases hnegative : indent < 0
    · exact ⟨2, if_pos hnegative⟩
    · refine ⟨indent.toNat, (if_neg hnegative).trans ?_⟩
      rw [Int.toNat_of_nonneg (Int.not_lt.mp hnegative)]

/-! ## The lines of a document -/

theorem isBareKey_filesystemKey : IsBareKey filesystemKey := by
  decide

theorem isBareKey_logFileKey : IsBareKey logFileKey := by
  decide

theorem logFileKey_ne_filesystemKey : logFileKey ≠ filesystemKey := by
  decide

def openingRemarks : List Text :=
  ["# lexpath Configuration File".toList, [],
    "# Filesystem URI used for paths given without one (optional)".toList,
    "# Example: default_filesystem_uri = \"zip:file:///tmp/app.zip!/\"".toList]

def logFileRemarks : List Text :=
  [[], "# Log file path (optional)".toList,
    "# Example: log_file = \"/path/to/logs/lexpath.log\"".toList]

def indentRemarks : List Text :=
  [[], "# Indentation of written output.json manifests".toList]

theorem document_eq (config : Config) : config.document =
    inLines (openingRemarks ++ settingLines filesystemKey config.filesystemUri ++ logFileRemarks ++
      settingLines logFileKey (logFileDatum config.logFile) ++ indentRemarks ++
      [indentKey ++ " = ".toList ++ valueText config.indent]) := by
  rw [← joinWith_concat_nil, document]
  simp [lines, openingRemarks, logFileRemarks, indentRemarks]

/-- The value is written as it will be read: a text holds no controls other than the tab. -/
def IsLegibleValue : Datum → Prop
  | .text t => IsPlain t
  | _ => True

/-- The values that are texts hold no controls other than the tab. -/
structure IsLegible (config : Config) : Prop where
  filesystemUri : IsLegibleValue config.filesystemUri
  logFile : IsLegibleValue (logFileDatum config.logFile)

/-- The entry of a setting; a null setting has none. -/
def settingEntries (name : Text) : Datum → List (Text × Datum)
  | .null => []
  | d => [(name, d)]

def entries (config : Config) : List (Text × Datum) :=
  settingEntries filesystemKey config.filesystemUri ++
    settingEntries logFileKey (logFileDatum config.logFile) ++ [(indentKey, config.indent)]

/-- The value of a setting is a text, or the setting is unset. -/
def IsTextual (d : Datum) : Prop :=
  d = .null ∨ ∃ t, d = .text t

section

variable {name : Text} (hname : IsBareKey name) {d : Datum} (hd : IsTextual d)
include hname hd

theorem takes_settingLines (hlegible : IsLegibleValue d) {before : List (Text × Datum)}
    (hnew : Datum.entry? name before = none) :
    Takes (settingLines name d) before (before ++ settingEntries name d) := by
  rcases hd with rfl | ⟨t, rfl⟩
  · rw [settingEntries, List.append_nil]
    exact takes_nil before
  · exact takes_pair hname (isPlain_stringText hlegible) (isReadAs_stringText hlegible) hnew rfl

/-- A document is refused where a text in it is not legible. -/
theorem read_of_not_isLegibleValue (hillegible : ¬ IsLegibleValue d) {ls : List Text}
    {entries : List (Text × Datum)} (htakes : Takes ls [] entries) (ms : List Text) :
    ∃ left, Toml.read (inLines (ls ++ settingLines name d ++ ms)) = .error (.malformed left) := by
  rcases hd with rfl | ⟨t, rfl⟩
  · exact absurd trivial hillegible
  · rw [List.append_assoc]
    exact read_of_not_isPlain htakes hname hillegible ms

end

theorem takes_openingRemarks (entries : List (Text × Datum)) :
    Takes openingRemarks entries entries :=
  takes_remarks (by decide +kernel) entries

theorem takes_logFileRemarks (entries : List (Text × Datum)) :
    Takes logFileRemarks entries entries :=
  takes_remarks (by decide +kernel) entries

theorem takes_indentRemarks (entries : List (Text × Datum)) :
    Takes indentRemarks entries entries :=
  takes_remarks (by decide +kernel) entries

theorem entry?_append (key : Text) (some' more : List (Text × Datum)) :
    Datum.entry? key (some' ++ more) = (Datum.entry? key some').or (Datum.entry? key more) :=
  List.lookup_append

theorem entry?_settingEntries {key name : Text} (hne : key ≠ name) (d : Datum) :
    Datum.entry? key (settingEntries name d) = none := by
  have hother : (key == name) = false := beq_false_of_ne hne
  cases d <;> simp [settingEntries, Datum.entry?, List.lookup_cons, hother]

namespace IsTyped

variable {config : Config} (htyped : config.IsTyped)
include htyped

theorem isTextual_filesystemUri : IsTextual config.filesystemUri :=
  htyped.filesystemUri.imp_right fun ⟨t, _, ht⟩ => ⟨t, ht⟩

theorem isTextual_logFile : IsTextual (logFileDatum config.logFile) := by
  rcases htyped.logFile with hnone | ⟨t, hpath⟩
  · exact .inl (by rw [hnone]; rfl)
  · exact .inr ⟨(HostPath.ofText t).toText, by rw [hpath]; rfl⟩

/-- The lines up to the log file are read to the filesystem. -/
theorem takes_before_logFile (hlegible : IsLegibleValue config.filesystemUri) :
    Takes (openingRemarks ++ settingLines filesystemKey config.filesystemUri ++ logFileRemarks) []
      (settingEntries filesystemKey config.filesystemUri) := by
  have huri : Takes (settingLines filesystemKey config.filesystemUri) []
      (settingEntries filesystemKey config.filesystemUri) :=
    takes_settingLines isBareKey_filesystemKey htyped.isTextual_filesystemUri hlegible rfl
  exact ((takes_openingRemarks []).append huri).append (takes_logFileRemarks _)

/-- A legible configuration is read from its document. -/
theorem read_document (hlegible : config.IsLegible) (hwritable : config.isWritable = true) :
    Toml.read config.document = .ok config.entries := by
  have hindent : config.indent.isWritable = true := (Bool.and_eq_true_iff.mp hwritable).2
  have huri := htyped.takes_before_logFile hlegible.filesystemUri
  have hlog := takes_settingLines isBareKey_logFileKey htyped.isTextual_logFile hlegible.logFile
    (entry?_settingEntries logFileKey_ne_filesystemKey config.filesystemUri)
  have hnew : Datum.entry? indentKey (settingEntries filesystemKey config.filesystemUri ++
      settingEntries logFileKey (logFileDatum config.logFile)) = none := by
    rw [entry?_append, entry?_settingEntries (by decide), entry?_settingEntries (by decide)]
    rfl
  obtain ⟨n, hn⟩ := htyped.indent
  rw [hn] at hindent
  have hlast := takes_pair (by decide) (isPlain_valueText_int n) (isReadAs_valueText_int hindent)
    hnew rfl
  rw [← hn] at hlast
  rw [document_eq]
  exact read_inLines (((huri.append hlog).append (takes_indentRemarks _)).append hlast)

/-- A configuration that is not legible is not read from its document. -/
theorem read_document_of_not_isLegible (hillegible : ¬ config.IsLegible) :
    ∃ left, Toml.read config.document = .error (.malformed left) := by
  rw [document_eq]
  by_cases huri : IsLegibleValue config.filesystemUri
  · have hlog : ¬ IsLegibleValue (logFileDatum config.logFile) := fun hlog =>
      hillegible ⟨huri, hlog⟩
    have hrefused := read_of_not_isLegibleValue isBareKey_logFileKey
      htyped.isTextual_logFile hlog (htyped.takes_before_logFile huri)
    simpa only [List.append_assoc] using hrefused _
  · have hrefused := read_of_not_isLegibleValue isBareKey_filesystemKey
      htyped.isTextual_filesystemUri huri (takes_openingRemarks [])
    simpa only [List.append_assoc] using hrefused _

end IsTyped

/-! ## The settings of a document -/

/-- The configuration as it comes back from its document: its log file is read as a text. -/
def reread (config : Config) : Config :=
  { config with logFile := keptLogFile (logFileDatum config.logFile) }

theorem isSetting_of_mem_entries {config : Config} {entry : Text × Datum}
    (hentry : entry ∈ config.entries) : isSetting entry.1 = true := by
  have hname : ∀ name, isSetting name = true → ∀ d, entry ∈ settingEntries name d →
      isSetting entry.1 = true := by
    intro name hsetting d hmem
    cases d <;> simp_all [settingEntries]
  rcases List.mem_append.mp hentry with hmem | hmem
  · rcases List.mem_append.mp hmem with hmem | hmem
    · exact hname _ (by decide) _ hmem
    · exact hname _ (by decide) _ hmem
  · obtain rfl := List.mem_singleton.mp hmem
    exact (by decide : isSetting indentKey = true)

theorem unknownSettings_entries (config : Config) : unknownSettings config.entries = [] := by
  have hnone : (config.entries.map Prod.fst).filter (fun name => !isSetting name) = [] := by
    rw [List.filter_eq_nil_iff]
    intro name hmem
    obtain ⟨entry, hentry, rfl⟩ := List.mem_map.mp hmem
    simp [isSetting_of_mem_entries hentry]
  rw [unknownSettings, hnone]
  exact List.mergeSort_nil

theorem getD_entry?_settingEntries (name : Text) (d : Datum) :
    (Datum.entry? name (settingEntries name d)).getD .null = d := by
  cases d <;> simp [settingEntries, Datum.entry?]

theorem logFile_reread {config : Config} {t : Text}
    (hpath : config.logFile = .path (.ofText t)) :
    config.reread.logFile =
      if (HostPath.ofText t).toText.trim = [] then .value .null else config.logFile := by
  rw [reread, hpath, logFileDatum, keptLogFile, (HostPath.isRead_ofText t).ofText_toText]

namespace IsTyped

variable {config : Config} (htyped : config.IsTyped)
include htyped

theorem keptFilesystem_eq : keptFilesystem config.filesystemUri = config.filesystemUri := by
  rcases htyped.filesystemUri with hnull | ⟨t, ht, htext⟩
  · rw [hnull]
    rfl
  · have hset : (Datum.text t).isSet = true := by
      cases t with
      | nil => exact absurd rfl ht
      | cons c t => rfl
    rw [htext, keptFilesystem, if_pos hset]

theorem keptIndent_eq : keptIndent config.indent = config.indent := by
  obtain ⟨n, hn⟩ := htyped.indent
  rw [hn, keptIndent, if_neg (Int.not_lt.mpr (Int.natCast_nonneg n))]

theorem ofEntries_entries : ofEntries config.entries = config.reread := by
  have huri : (Datum.entry? filesystemKey config.entries).getD .null = config.filesystemUri := by
    have hlog := entry?_settingEntries logFileKey_ne_filesystemKey.symm
      (logFileDatum config.logFile)
    have hindent : Datum.entry? filesystemKey [(indentKey, config.indent)] = none := rfl
    rw [entries, entry?_append, entry?_append, hlog, hindent, Option.or_none, Option.or_none,
      getD_entry?_settingEntries]
  have hlog : (Datum.entry? logFileKey config.entries).getD .null =
      logFileDatum config.logFile := by
    have huri := entry?_settingEntries logFileKey_ne_filesystemKey config.filesystemUri
    have hindent : Datum.entry? logFileKey [(indentKey, config.indent)] = none := rfl
    rw [entries, entry?_append, entry?_append, huri, hindent, Option.none_or, Option.or_none,
      getD_entry?_settingEntries]
  have hindent : (Datum.entry? indentKey config.entries).getD usualIndent = config.indent := by
    have hnone : ∀ {name}, indentKey ≠ name → ∀ d, Datum.entry? indentKey (settingEntries name d) =
        none := entry?_settingEntries
    have hsome : Datum.entry? indentKey [(indentKey, config.indent)] = some config.indent := rfl
    rw [entries, entry?_append, entry?_append, hnone (by decide), hnone (by decide), hsome]
    rfl
  rw [ofEntries, huri, hlog, hindent, htyped.keptFilesystem_eq, htyped.keptIndent_eq]
  rfl

/-- The configuration comes back as it was unless the text of its log file is blank. -/
theorem reread_eq_iff :
    config.reread = config ↔ ∀ p, config.logFile = .path p → p.toText.trim ≠ [] := by
  have hsame : config.reread = config ↔ config.reread.logFile = config.logFile := by
    refine ⟨fun heq => congrArg Config.logFile heq, fun hlog => ?_⟩
    have hkept : keptLogFile (logFileDatum config.logFile) = config.logFile := hlog
    rw [reread, hkept]
  rw [hsame]
  rcases htyped.logFile with hnone | ⟨t, hpath⟩
  · rw [reread, hnone]
    exact iff_of_true rfl fun p hp => nomatch hp
  · rw [logFile_reread hpath]
    constructor
    · intro hkept p hp hblank
      obtain rfl := LogFile.path.inj (hpath.symm.trans hp)
      rw [if_pos hblank, hpath] at hkept
      nomatch hkept
    · exact fun hvisible => if_neg (hvisible _ hpath)

end IsTyped

end Config

end LexicalPaths
