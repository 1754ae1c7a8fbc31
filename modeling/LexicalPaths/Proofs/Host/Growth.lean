import LexicalPaths.Log.Setup
import LexicalPaths.Proofs.Host.Access

/-!
# Actions that only add

Folders are made where nothing is, and files are opened or made without touching what they hold.
Such actions leave a wider host, whether they succeed or fail.  What they do not find and then
write is new.
-/

namespace LexicalPaths

/-- The files of the host are a tree without links, and the working folder is a folder in it. -/
structure Host.IsPlaced (host : Host) : Prop where
  isTree : host.files.IsTree
  links : host.machine.links = []
  folder : host.files.entry? host.folder = some .folder
  parentName : ['.', '.'] ∉ host.folder

/-- The later host is on the same machine and names places as before. -/
structure Host.Agrees (host later : Host) : Prop where
  machine : later.machine = host.machine
  folder : later.folder = host.folder
  environment : later.environment = host.environment
  homes : later.homes = host.homes

/-- The later host has grown by folders and by files of the given kind. -/
structure Host.Grows (kind : List UInt8 → Prop) (host later : Host) : Prop
    extends host.Agrees later where
  files : Files.Grown kind host.files later.files

/-- The later host has grown, and neither its configuration nor its log file was changed. -/
structure Host.Wider (kind : List UInt8 → Prop) (host later : Host) : Prop
    extends host.Grows kind later where
  config? : later.config? = host.config?
  logFile : later.logger.file? = host.logger.file?

namespace Host

variable {kind : List UInt8 → Prop}

theorem Agrees.refl (host : Host) : host.Agrees host :=
  ⟨rfl, rfl, rfl, rfl⟩

theorem Agrees.symm {host later : Host} (hagrees : host.Agrees later) : later.Agrees host :=
  ⟨hagrees.machine.symm, hagrees.folder.symm, hagrees.environment.symm, hagrees.homes.symm⟩

theorem Agrees.trans {host later last : Host} (hone : host.Agrees later)
    (htwo : later.Agrees last) : host.Agrees last where
  machine := htwo.machine.trans hone.machine
  folder := htwo.folder.trans hone.folder
  environment := htwo.environment.trans hone.environment
  homes := htwo.homes.trans hone.homes

theorem agrees_record (host : Host) (r : LogRecord) : host.Agrees (host.record r) :=
  ⟨by simp, by simp, by simp, by simp⟩

theorem Grows.refl (host : Host) : host.Grows kind host :=
  ⟨.refl host, .refl host.files⟩

theorem Grows.trans {host later last : Host} (hone : host.Grows kind later)
    (htwo : later.Grows kind last) : host.Grows kind last :=
  ⟨hone.toAgrees.trans htwo.toAgrees, hone.files.trans htwo.files⟩

theorem Wider.refl (host : Host) : host.Wider kind host :=
  ⟨.refl host, rfl, rfl⟩

theorem Wider.trans {host later last : Host} (hone : host.Wider kind later)
    (htwo : later.Wider kind last) : host.Wider kind last :=
  ⟨hone.toGrows.trans htwo.toGrows, htwo.config?.trans hone.config?,
    htwo.logFile.trans hone.logFile⟩

theorem Wider.of_files {host : Host} {files : Files} (hgrown : Files.Grown kind host.files files) :
    host.Wider kind { host with files := files } :=
  ⟨⟨⟨rfl, rfl, rfl, rfl⟩, hgrown⟩, rfl, rfl⟩

theorem IsPlaced.grows {host later : Host} (hplaced : host.IsPlaced)
    (hgrows : host.Grows kind later) : later.IsPlaced where
  isTree := hgrows.files.isTree hplaced.isTree
  links := hgrows.machine ▸ hplaced.links
  folder := hgrows.folder ▸ hgrows.files.kept hplaced.folder
  parentName := hgrows.folder ▸ hplaced.parentName

/-- The file at a place is written anew. -/
theorem IsPlaced.put_file {host : Host} (hplaced : host.IsPlaced) {place : Place}
    {found : List UInt8} (hplace : host.files.entry? place = some (.file found))
    (bytes : List UInt8) :
    Host.IsPlaced { host with files := host.files.put place (.file bytes) } := by
  refine ⟨hplaced.isTree.put_file hplace, hplaced.links, ?_, hplaced.parentName⟩
  show Files.entry? (host.files.put place (.file bytes)) host.folder = some .folder
  rw [Files.entry?_put_of_ne]
  · exact hplaced.folder
  · rintro heq
    rw [← heq, hplaced.folder] at hplace
    nomatch hplace

theorem Finds.entry?_eq {host : Host} (hplaced : host.IsPlaced) {p : HostPath} {q : Place}
    {bytes : List UInt8} (hfinds : host.Finds p q bytes) :
    host.files.entry? q = some (.file bytes) := by
  rcases Files.spot_cases hplaced.isTree hplaced.folder hfinds.2 with
    ⟨_, heq⟩ | ⟨parent, name, -, ⟨found, heq, hentry⟩ | ⟨heq, -⟩⟩
  · nomatch (Spot.entry.inj heq).2
  · obtain ⟨rfl, hfile⟩ := Spot.entry.inj heq
    rw [hentry, hfile]
  · contradiction

theorem Finds.grows {host later : Host} (hgrows : host.Grows kind later) {p : HostPath}
    {q : Place} {bytes : List UInt8} (hfinds : host.Finds p q bytes) : later.Finds p q bytes := by
  refine ⟨hfinds.1, ?_⟩
  rw [hgrows.machine, hgrows.folder]
  exact hgrows.files.spot hfinds.2

theorem Readable.agrees {host later : Host} {p : HostPath} (hreadable : host.Readable p)
    (hagrees : host.Agrees later) : later.Readable p where
  look := hagrees.machine ▸ hreadable.look
  read := hagrees.machine ▸ hreadable.read

/-- A file that was there before it was found is found before, unless the way to it led through a
missing folder. -/
theorem Finds.of_later {host later : Host} (hplaced : host.IsPlaced)
    (hgrows : host.Grows kind later) {p : HostPath} {q : Place} {bytes : List UInt8}
    (hfinds : later.Finds p q bytes) (hthere : host.files.entry? q = some (.file bytes))
    (hway : host.files.spot host.machine.links host.folder p = .error .missing →
      ['.', '.'] ∉ p.names) : host.Finds p q bytes := by
  obtain ⟨hnames, hspot⟩ := hfinds
  rw [hgrows.machine, hgrows.folder, hplaced.links] at hspot
  rw [hplaced.links] at hway
  refine ⟨hnames, ?_⟩
  rw [hplaced.links]
  exact hgrows.files.spot_of_later hplaced.isTree hspot hthere hway

theorem not_finds_of_wider {host later : Host} (hplaced : host.IsPlaced)
    (hwider : host.Wider (fun _ => False) later) {p : HostPath} (hup : ['.', '.'] ∉ p.names)
    (hnone : ∀ q bytes, ¬ host.Finds p q bytes) (q : Place) (bytes : List UInt8) :
    ¬ later.Finds p q bytes := by
  intro hfinds
  have hgrows := hwider.toGrows
  rcases hgrows.files.new (hfinds.entry?_eq (hplaced.grows hgrows)) with hthere | ⟨-, hnew⟩
  · exact hnone q bytes (hfinds.of_later hplaced hgrows hthere fun _ => hup)
  · exact hnew

end Host

namespace Act

theorem looks_seems (p : HostPath) : (seems p).Looks :=
  (looks_holds p).tryCatch fun _ => looks_pure _

theorem looks_seemsFolder (p : HostPath) : (seemsFolder p).Looks :=
  (looks_isFolder p).tryCatch fun _ => looks_pure _

theorem maintains_ensureFoldersDown {relation : Host → Host → Prop}
    (hrefl : ∀ host, relation host host)
    (htrans : ∀ ⦃host later last⦄, relation host later → relation later last → relation host last)
    (hmake : ∀ p, (makeFolder p).Maintains relation) (p : HostPath) :
    (ensureFoldersDown p).Maintains relation := by
  unfold ensureFoldersDown
  generalize p.names.length = count
  induction count generalizing p with
  | zero => exact maintains_makeFolderUnless hrefl htrans hmake (looks_seemsFolder p) p
  | succ count ih =>
      have hone := maintains_makeFolderUnless hrefl htrans hmake (looks_seemsFolder p) p
      apply Maintains.bind htrans ((looks_seems p.parent).maintains hrefl)
      intro found
      split
      · apply Maintains.bind htrans ?_ fun _ => hone
        apply Maintains.tryCatch htrans (ih p.parent)
        intro failure
        split
        · exact (looks_pure _).maintains hrefl
        · exact (looks_throw _).maintains hrefl
      · exact hone

/-- While the given log file is open, or none is, the action leaves a wider host. -/
def Widens {α : Type} (kind : List UInt8 → Prop) (logFile? : Option (Place × Level))
    (act : Act α) : Prop :=
  act.Maintains fun host later =>
    host.IsPlaced → host.logger.file? = logFile? → host.Wider kind later

section

variable {α : Type} {kind : List UInt8 → Prop} {logFile? : Option (Place × Level)}

theorem Looks.widens {act : Act α} (hact : act.Looks) : act.Widens kind logFile? :=
  hact.maintains fun host _ _ => .refl host

theorem widens_trans ⦃host later last : Host⦄
    (hone : host.IsPlaced → host.logger.file? = logFile? → host.Wider kind later)
    (htwo : later.IsPlaced → later.logger.file? = logFile? → later.Wider kind last)
    (hplaced : host.IsPlaced) (hlog : host.logger.file? = logFile?) : host.Wider kind last := by
  have hfirst := hone hplaced hlog
  have hsecond := htwo (hplaced.grows hfirst.toGrows) (hfirst.logFile.trans hlog)
  exact hfirst.trans hsecond

theorem widens_log (level : Level) (message : Text) : (log level message).Widens kind none := by
  intro host hplaced hlog
  have hfiles := host.files_record_of_none ⟨level, message, []⟩ hlog
  show host.Wider kind (host.record ⟨level, message, []⟩)
  refine ⟨⟨host.agrees_record _, ?_⟩, by simp, by simp⟩
  rw [hfiles]
  exact .refl host.files

/-! ## Folders -/

theorem widens_makeFolder (p : HostPath) : (makeFolder p).Widens kind logFile? := by
  intro host hplaced hlog
  rcases result_makeFolder p host with hsame | ⟨q, hspot, hfree, hmade⟩
  · rw [hsame]
    exact .refl host
  · rw [hmade]
    refine .of_files ?_
    rcases Files.spot_cases hplaced.isTree hplaced.folder hspot with
      ⟨_, heq⟩ | ⟨parent, name, hparent, ⟨_, heq, -⟩ | ⟨heq, -⟩⟩
    · contradiction
    · contradiction
    · rw [Spot.free.inj heq] at hfree ⊢
      exact .put hparent hfree (by simp)

theorem widens_ensureFolders (p : HostPath) : (ensureFolders p).Widens kind logFile? :=
  maintains_ensureFolders (fun host _ _ => .refl host) widens_trans widens_makeFolder p

theorem widens_ensureFoldersDown (p : HostPath) : (ensureFoldersDown p).Widens kind logFile? :=
  maintains_ensureFoldersDown (fun host _ _ => .refl host) widens_trans widens_makeFolder p

/-! ## Files -/

theorem grown_of_filePlace {host : Host} (hplaced : host.IsPlaced) {p : HostPath} {q : Place}
    (hplace : host.files.filePlace host.machine.links host.folder p = .ok q) (hkind : kind []) :
    Files.Grown kind host.files (host.files.append q []) := by
  obtain ⟨parent, name, rfl, hparent, ⟨bytes, -, hentry⟩ | ⟨-, hfree⟩⟩ :=
    Files.filePlace_cases hplaced.isTree hplaced.folder hplace
  · rw [Files.append, Files.bytesAt, hentry, List.append_nil]
    exact .put_same (by simp) hentry
  · rw [Files.append, Files.bytesAt, hfree]
    refine .put hparent hfree fun bytes heq => ?_
    obtain rfl := Entry.file.inj heq
    exact hkind

theorem widens_openEnd (p : HostPath) (hkind : kind []) : (openEnd p).Widens kind logFile? := by
  intro host hplaced hlog
  rw [openEnd, result_bind]
  rcases hresult : (onFiles .write p Files.filePlace).result host with ⟨failure | q, later⟩
  · obtain rfl := (looks_onFiles .write p _).after hresult
    exact .refl later
  · obtain ⟨-, -, hplace, rfl⟩ := onFiles_eq_ok hresult
    exact .of_files (grown_of_filePlace hplaced hplace hkind)

/-- The place that was opened holds a file. -/
theorem exists_file_of_openEnd {host last : Host} {p : HostPath} {q : Place}
    (hplaced : host.IsPlaced) (hresult : (openEnd p).result host = (.ok q, last)) :
    ∃ bytes, last.files.entry? q = some (.file bytes) := by
  obtain ⟨hplace, rfl⟩ := openEnd_eq_ok hresult
  obtain ⟨parent, name, rfl, -, -⟩ :=
    Files.filePlace_cases hplaced.isTree hplaced.folder hplace
  exact ⟨_, Files.entry?_put_self _ (by simp) _⟩

/-- A file is written that was not found. -/
theorem wider_writeText {host : Host} (hplaced : host.IsPlaced) {p : HostPath} (t : Text)
    (hnone : ∀ q bytes, ¬ host.Finds p q bytes) (hkind : kind (Utf8.encode t)) :
    host.Wider kind ((writeText p t).result host).2 := by
  rw [writeText, writeBytes, result_bind]
  rcases hresult : (onFiles .write p Files.filePlace).result host with ⟨failure | q, later⟩
  · obtain rfl := (looks_onFiles .write p _).after hresult
    exact .refl later
  · obtain ⟨hnames, -, hplace, rfl⟩ := onFiles_eq_ok hresult
    refine .of_files ?_
    obtain ⟨parent, name, rfl, hparent, ⟨bytes, hspot, -⟩ | ⟨-, hfree⟩⟩ :=
      Files.filePlace_cases hplaced.isTree hplaced.folder hplace
    · exact absurd ⟨hnames, hspot⟩ (hnone _ bytes)
    · refine .put hparent hfree fun bytes heq => ?_
      obtain rfl := Entry.file.inj heq
      exact hkind

/-- A file is where it was written. -/
theorem finds_of_filePlace {host : Host} (hplaced : host.IsPlaced) {p : HostPath} {q : Place}
    (hnames : p.names.any (Text.holds '\x00') = false)
    (hplace : host.files.filePlace host.machine.links host.folder p = .ok q) (bytes : List UInt8) :
    Host.Finds { host with files := host.files.put q (.file bytes) } p q bytes := by
  obtain ⟨parent, name, rfl, -, ⟨found, hspot, hentry⟩ | ⟨hspot, hentry⟩⟩ :=
    Files.filePlace_cases hplaced.isTree hplaced.folder hplace
  · exact ⟨hnames, Files.spot_put (by simp [hentry]) (.inr ⟨found, hspot⟩)⟩
  · exact ⟨hnames, Files.spot_put (by simp [hentry]) (.inl hspot)⟩

theorem isPlaced_of_filePlace {host : Host} (hplaced : host.IsPlaced) {p : HostPath} {q : Place}
    (hplace : host.files.filePlace host.machine.links host.folder p = .ok q) (bytes : List UInt8) :
    Host.IsPlaced { host with files := host.files.put q (.file bytes) } := by
  obtain ⟨parent, name, rfl, hparent, ⟨found, -, hentry⟩ | ⟨-, hfree⟩⟩ :=
    Files.filePlace_cases hplaced.isTree hplaced.folder hplace
  · exact hplaced.put_file hentry bytes
  · have hwider : Host.Wider (fun _ => True) host
        { host with files := host.files.put (parent ++ [name]) (.file bytes) } :=
      .of_files (.put hparent hfree fun _ _ => trivial)
    exact hplaced.grows hwider.toGrows

end

end Act

end LexicalPaths
