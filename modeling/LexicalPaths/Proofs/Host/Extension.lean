import LexicalPaths.Proofs.Host.Sparing

/-!
# Hosts with a few new entries

When a file is written, the folders on the way to it may be made and its contents may change, and so
may those of the log file.  All else that the host holds is there as before, so what is looked up
elsewhere is found, or not found, as before.
-/

namespace LexicalPaths

/-- The later host has the folders and files of the former one, whose contents may have changed, and
further entries at new places only. -/
structure Host.Extends (new : Place → Prop) (host later : Host) : Prop extends
    host.Agrees later where
  program : later.program = host.program
  logFile : later.logger.file? = host.logger.file?
  keepsFolder : ∀ {q}, host.files.entry? q = some .folder → later.files.entry? q = some .folder
  keepsFile : ∀ {q bytes}, host.files.entry? q = some (.file bytes) →
    ∃ more, later.files.entry? q = some (.file more)
  isNew : ∀ {q}, host.files.entry? q = none → later.files.entry? q = none ∨ new q

namespace Host

variable {new : Place → Prop} {host later last : Host}

theorem Extends.refl (host : Host) : host.Extends new host where
  toAgrees := .refl host
  program := rfl
  logFile := rfl
  keepsFolder := id
  keepsFile := fun hfile => ⟨_, hfile⟩
  isNew := .inl

theorem Extends.trans (hone : host.Extends new later) (htwo : later.Extends new last) :
    host.Extends new last where
  toAgrees := hone.toAgrees.trans htwo.toAgrees
  program := htwo.program.trans hone.program
  logFile := htwo.logFile.trans hone.logFile
  keepsFolder := htwo.keepsFolder ∘ hone.keepsFolder
  keepsFile := fun hfile => by
    obtain ⟨more, hmore⟩ := hone.keepsFile hfile
    exact htwo.keepsFile hmore
  isNew := fun hnone => (hone.isNew hnone).elim htwo.isNew .inr

theorem Extends.mono {other : Place → Prop} (hextends : host.Extends new later)
    (himp : ∀ q, new q → other q) : host.Extends other later :=
  { hextends with isNew := fun hnone => (hextends.isNew hnone).imp_right (himp _) }

theorem Extends.logIsFile (hextends : host.Extends new later) (hlog : host.LogIsFile) :
    later.LogIsFile := by
  intro r level hopen
  obtain ⟨bytes, hfile⟩ := hlog r level (hextends.logFile ▸ hopen)
  exact hextends.keepsFile hfile

/-- What was put in the place of a file, or of nothing at a new place. -/
theorem extends_put {q : Place} {entry : Entry}
    (hold : ∀ old, host.files.entry? q = some old →
      (∃ found, old = .file found) ∧ ∃ bytes, entry = .file bytes)
    (hnew : host.files.entry? q = none → new q) :
    host.Extends new { host with files := host.files.put q entry } where
  toAgrees := ⟨rfl, rfl, rfl, rfl⟩
  program := rfl
  logFile := rfl
  keepsFolder := fun {p} hfolder => by
    show Files.entry? (host.files.put q entry) p = some .folder
    rw [Files.entry?_put_of_ne]
    · exact hfolder
    · rintro rfl
      obtain ⟨⟨found, hfile⟩, -⟩ := hold _ hfolder
      nomatch hfile
  keepsFile := fun {p found} hfile => by
    show ∃ more, Files.entry? (host.files.put q entry) p = some (.file more)
    by_cases hsame : p = q
    · subst hsame
      obtain ⟨-, bytes, rfl⟩ := hold _ hfile
      have hne : p ≠ [] := by
        rintro rfl
        nomatch hfile
      exact ⟨bytes, Files.entry?_put_self _ hne _⟩
    · exact ⟨found, by rw [Files.entry?_put_of_ne _ hsame, hfile]⟩
  isNew := fun {p} hnone => by
    by_cases hsame : p = q
    · exact .inr (hsame ▸ hnew (hsame ▸ hnone))
    · refine .inl ?_
      show Files.entry? (host.files.put q entry) p = none
      rw [Files.entry?_put_of_ne _ hsame, hnone]

theorem extends_record
    (hsteady : ∀ place level, host.logger.file? = some (place, level) →
      host.machine.rotation? = none) (hlog : host.LogIsFile) (r : LogRecord) : host.Extends new (host.record r) := by
  have hprogram : (host.record r).program = host.program := by
    unfold record
    split <;> rfl
  rcases host.files_record r hsteady with hsame | ⟨place, level, line, hopen, happend⟩
  · have hrefl : host.Extends new host := .refl host
    exact ⟨host.agrees_record r, hprogram, by simp, by rw [hsame]; exact id,
      by rw [hsame]; exact hrefl.keepsFile, by rw [hsame]; exact .inl⟩
  · obtain ⟨bytes, hfile⟩ := hlog place level hopen
    have hput : host.Extends new { host with files := host.files.append place line } := by
      refine extends_put (fun old hold => ?_) fun hnone => ?_
      · rw [hfile] at hold
        exact ⟨⟨bytes, (Option.some.inj hold).symm⟩, _, rfl⟩
      · rw [hfile] at hnone
        nomatch hnone
    exact ⟨host.agrees_record r, hprogram, by simp, by rw [happend]; exact hput.keepsFolder,
      by rw [happend]; exact hput.keepsFile, by rw [happend]; exact hput.isNew⟩

end Host

/-! ## Making folders and writing files -/

namespace HostPath

theorem collapse_of_notMem {kept names : List Text} (hup : ['.', '.'] ∉ names) :
    collapse kept names = kept ++ names := by
  induction names generalizing kept with
  | nil => exact (List.append_nil kept).symm
  | cons name names ih =>
      obtain ⟨hname, hmore⟩ := List.ne_and_not_mem_of_not_mem_cons hup
      rw [collapse, if_neg (Ne.symm hname), ih hmore, List.append_assoc]
      rfl

/-- An absolute path that never climbs leads where its names say. -/
theorem place_of_notMem {p : HostPath} (habsolute : p.isAbsolute = true)
    (hup : ['.', '.'] ∉ p.names) (folder : Place) : p.place folder = p.names := by
  rw [place, start, if_pos habsolute, collapse_of_notMem hup, List.nil_append]

end HostPath

namespace Act

variable {p : HostPath} (habsolute : p.isAbsolute = true) (hup : ['.', '.'] ∉ p.names)
include habsolute hup

theorem extends_makeFolder {host : Host} (hlinks : host.machine.links = []) :
    host.Extends (· <+: p.names) ((makeFolder p).result host).2 := by
  rcases result_makeFolder p host with hsame | ⟨q, hspot, hfree, hmade⟩
  · rw [hsame]
    exact .refl host
  · rw [hlinks] at hspot
    rcases Files.place_of_spot hspot with ⟨_, hentry⟩ | ⟨hplace, -⟩
    · contradiction
    obtain rfl := Spot.free.inj hplace
    rw [HostPath.place_of_notMem habsolute hup] at hfree hmade
    rw [hmade]
    refine Host.extends_put (fun old hold => ?_) fun _ => List.prefix_rfl
    rw [hfree] at hold
    contradiction

theorem extends_ensureFolder {host : Host} (hlinks : host.machine.links = []) :
    host.Extends (· <+: p.names) ((ensureFolder p).result host).2 := by
  refine ends_tryCatch (extends_makeFolder habsolute hup hlinks) fun failure later hlater => ?_
  split
  · refine ends_bind ?_ fun found last hfound hlast => ?_
    · rwa [(looks_isFolder p) later]
    · split <;> exact hlast
  · exact hlater

/-- The folders that are made lie on the way. -/
theorem extends_ensureFolders {host : Host} (hlinks : host.machine.links = []) :
    host.Extends (· <+: p.names) ((ensureFolders p).result host).2 := by
  unfold ensureFolders
  generalize p.names.length = count
  induction count generalizing p host with
  | zero => exact extends_ensureFolder habsolute hup hlinks
  | succ count ih =>
      have hparent : ∀ {later : Host}, later.machine.links = [] →
          later.Extends (· <+: p.names) ((ensureFoldersFrom count p.parent).result later).2 :=
        fun hlater => (ih (p := p.parent) habsolute
          (fun hmem => hup (List.dropLast_subset _ hmem)) hlater).mono
            fun q hq => hq.trans <| List.dropLast_prefix p.names
      have hkept {later : Host} (hlater : host.Extends (· <+: p.names) later) :
          later.machine.links = [] := hlater.machine ▸ hlinks
      apply ends_tryCatch (extends_ensureFolder habsolute hup hlinks)
      intro failure later hlater
      split
      · refine ends_bind (hlater.trans (hparent (hkept hlater))) fun _ middle _ hmiddle => ?_
        exact hmiddle.trans (extends_ensureFolder habsolute hup (hkept hmiddle))
      · exact hlater

end Act

end LexicalPaths
