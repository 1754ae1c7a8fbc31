import LexicalPaths.Proofs.Command.Apart
import LexicalPaths.Proofs.Command.Given
import LexicalPaths.Proofs.Command.Keeping
import LexicalPaths.Proofs.Command.Record

/-!
# Commands that fail to record

A command that records an output writes the manifest in one step, and reads it again to show it.
Up to the writing every failure spares the manifest.  Behind it two are left: a type that was left
out is written as an empty list, which is no type to read, and what was saved may not be shown,
since the user may not read it or the machine does not print it.
-/

namespace LexicalPaths

namespace Command

open Manifest (Holds Reads reloadedOutput)

/-- The file at the place is no manifest of the folder. -/
def Spoilt (host : Host) (folder : HostPath) (q : Place) : Prop :=
  ∃ bytes, host.files.entry? q = some (.file bytes) ∧
    ∀ found, ¬ Holds host.machine.nesting folder bytes found

/-- Why the outputs of a manifest are not shown: the user may not read the file, or they are to be
printed and the machine does not print all of them. -/
inductive Unshowable (host : Host) (folder : HostPath) (quiet : Bool) (outputs : Manifest) : Prop
  | denied {reason : Text}
      (hdenied : host.machine.denies .read (Manifest.file folder) = some reason)
  | unprinted {fault : PrintFault} (hquiet : quiet = false)
      (hfault : host.machine.fault? host.shown (Display.listing outputs) = some fault)

/-- The file at the place has one output more than was found, and its outputs are not shown. -/
def Unshown (host last : Host) (folder : HostPath) (quiet : Bool) (q : Place) (found : Manifest) :
    Prop :=
  ∃ bytes after, last.files.entry? q = some (.file bytes) ∧
    Holds last.machine.nesting folder bytes after ∧ after.length = found.length + 1 ∧
      Unshowable host folder quiet after

/-- What a command that fails to record an output leaves of the file at the place: the file as it
was, or no manifest, if the type of the output was left out, or a manifest with the output, which is
not shown. -/
inductive Leaves (folder : HostPath) (type : Datum) (quiet : Bool) (q : Place)
    (isFound : Manifest → Prop) (host last : Host) : Prop
  | spared (hspared : host.Spares q last)
  | spoilt (htype : type = leftOut) (hspoilt : Spoilt last folder q) (hlog : last.LogsApart q)
  | unshown {found : Manifest} (hfound : isFound found)
      (hunshown : Unshown host last folder quiet q found) (hlog : last.LogsApart q)

section

variable {folder : HostPath} {type : Datum} {quiet : Bool} {q : Place}
  {isFound : Manifest → Prop} {host later last : Host}

theorem Unshowable.of_later (hmachine : later.machine = host.machine)
    (hshown : later.shown = host.shown) {outputs : Manifest}
    (hunshowable : Unshowable later folder quiet outputs) :
    Unshowable host folder quiet outputs := by
  cases hunshowable with
  | denied hdenied => exact .denied (hmachine ▸ hdenied)
  | unprinted hquiet hfault =>
      rw [hmachine, hshown] at hfault
      exact .unprinted hquiet hfault

theorem Leaves.after {isFoundLater : Manifest → Prop} (hspared : host.Spares q later)
    (hshown : later.shown = host.shown) (hfound : ∀ found, isFoundLater found → isFound found)
    (hleaves : Leaves folder type quiet q isFoundLater later last) :
    Leaves folder type quiet q isFound host last := by
  cases hleaves with
  | spared hlast => exact .spared (hspared.trans hlast)
  | spoilt htype hspoilt hlog => exact .spoilt htype hspoilt hlog
  | unshown hfoundLater hunshown hlog =>
      obtain ⟨bytes, after, hentry, hholds, hone, hunshowable⟩ := hunshown
      have hbefore := hunshowable.of_later hspared.machine hshown
      exact .unshown (hfound _ hfoundLater) ⟨bytes, after, hentry, hholds, hone, hbefore⟩ hlog

theorem Leaves.andThen (hleaves : Leaves folder type quiet q isFound host later) {α : Type}
    {act : Act α} (hact : act.Spares q) :
    Leaves folder type quiet q isFound host (act.result later).2 := by
  cases hleaves with
  | spared hlater => exact .spared (hlater.andThen hact)
  | spoilt htype hspoilt hlog =>
      obtain ⟨bytes, hentry, hnot⟩ := hspoilt
      have hlast := hact later hlog
      rw [← hlast.machine] at hnot
      exact .spoilt htype ⟨bytes, (hlast.file bytes).mpr hentry, hnot⟩ hlast.logsApart
  | unshown hfound hunshown hlog =>
      obtain ⟨bytes, after, hentry, hholds, hone, hunshowable⟩ := hunshown
      have hlast := hact later hlog
      rw [← hlast.machine] at hholds
      exact .unshown hfound
        ⟨bytes, after, (hlast.file bytes).mpr hentry, hholds, hone, hunshowable⟩ hlast.logsApart

end

/-! ## Saving and loading -/

section

variable {q : Place} (folder : HostPath)

theorem spares_ofFolder : (Manifest.ofFolder folder none).Spares q :=
  Manifest.maintains_ofFolder Act.spares_refl Act.spares_trans Act.spares_logWith folder none

theorem spares_printUnless (quiet : Bool) (shown : List Display.Shown) :
    (printUnless quiet shown).Spares q := by
  unfold printUnless
  split
  · exact (Act.looks_pure ()).spares
  · apply Act.maintains_print
    exact fun host all hlog => ⟨⟨rfl, rfl, rfl, rfl⟩, fun _ => Iff.rfl, hlog.ne, hlog.steady⟩

theorem spares_runManifest (quiet : Bool) : (runManifest folder none quiet).Spares q :=
  (spares_ofFolder folder).bind fun _ => spares_printUnless quiet _

theorem spares_reportUnsaved (failure : Failure) :
    (Manifest.reportUnsaved folder failure).Spares q := by
  unfold Manifest.reportUnsaved
  split
  · exact Act.spares_logWith _ _ _
  · exact (Act.looks_pure ()).spares

variable {folder} {host last : Host}

/-- A manifest that cannot be saved is not touched. -/
theorem spares_of_saveDrafts_error (hlog : host.LogsApart q) {indent : Datum}
    {drafts : List Manifest.Draft} {failure : Failure}
    (hresult : (Manifest.saveDrafts folder indent drafts).result host = (.error failure, last)) :
    host.Spares q last := by
  rw [Manifest.saveDrafts, Act.bind_of_ok (Act.result_get host)] at hresult
  rcases Act.bind_eq_error hresult with hlayout | ⟨layout, later, hlayout, hrest⟩
  · obtain rfl := (Act.looks_lift _ _).after hlayout
    exact .refl hlog
  obtain rfl := (Act.looks_lift _ _).after hlayout
  rcases Act.bind_eq_error hrest with hwrite | ⟨_, written, -, hlogged⟩
  · obtain ⟨first, middle, hfailed, rfl⟩ := Act.reporting_eq_error hwrite
    have hmiddle : later.Spares q middle := by
      rcases Act.bind_eq_error hfailed with hfolders | ⟨_, made, hfolders, hfile⟩
      · exact (Act.spares_ensureFolders folder).after hfolders hlog
      · obtain rfl := Act.looks_of_writeText_error hfile
        exact (Act.spares_ensureFolders folder).after hfolders hlog
    exact hmiddle.andThen (spares_reportUnsaved folder first)
  · rcases Act.bind_eq_error hlogged with hevent | ⟨_, _, -, hpure⟩
    · cases hevent
    · cases hpure

/-- A manifest that the user may look up is shown, unless it is unshowable. -/
theorem unshowable_of_runManifest {bytes : List UInt8} {found : Manifest} {quiet : Bool}
    (hfinds : host.Finds (Manifest.file folder) q bytes)
    (hlook : host.machine.denies .look (Manifest.file folder) = none)
    (hholds : Holds host.machine.nesting folder bytes found) {failure : Failure}
    (hresult : (runManifest folder none quiet).result host = (.error failure, last)) :
    Unshowable host folder quiet found := by
  cases hread : host.machine.denies .read (Manifest.file folder) with
  | some reason => exact .denied hread
  | none =>
      have hload := Manifest.ofFolder_of_holds hfinds ⟨hlook, hread⟩ hholds
      have hshown := Manifest.keeps_ofFolder Host.isAside_shown folder none host
      have hmachine := Manifest.keeps_ofFolder Host.isAside_machine folder none host
      rw [runManifest, Act.bind_of_ok (Prod.ext hload rfl), printUnless] at hresult
      split at hresult
      next => nomatch hresult
      next hquiet =>
        rcases Act.print_cases (Display.listing found)
          ((Manifest.ofFolder folder none).result host).2 with ⟨-, hall⟩ | ⟨fault, _, hfault, -⟩
        · nomatch hall.symm.trans hresult
        · rw [hmachine, hshown] at hfault
          exact .unprinted (by simpa using hquiet) hfault

theorem runManifest_of_not_holds {bytes : List UInt8} {quiet : Bool}
    (hfinds : host.Finds (Manifest.file folder) q bytes)
    (hnot : ∀ found, ¬ Holds host.machine.nesting folder bytes found)
    {outcome : Except Failure Unit}
    (hresult : (runManifest folder none quiet).result host = (outcome, last)) :
    ∃ failure, outcome = .error failure := by
  cases outcome with
  | error failure => exact ⟨failure, rfl⟩
  | ok =>
      obtain ⟨found, loaded, hload, -⟩ := Act.bind_eq_ok hresult
      obtain ⟨hreads, -⟩ := Manifest.ofFolder_eq_ok hload
      rcases hreads with ⟨r, more, hmore, hholds⟩ | ⟨hnone, -⟩
      · obtain ⟨-, rfl⟩ := hfinds.eq hmore
        exact absurd hholds (hnot found)
      · exact absurd hfinds (hnone q bytes)

end

/-! ## Recording -/

section

variable {host last : Host} {log : Place} {folder : HostPath}

theorem isPlain_of_isGiven {type : Datum} (htype : IsGiven type) {p : Path}
    {properties : List (Text × Text)} (hkeys : (properties.map Prod.fst).Nodup) :
    Manifest.Draft.IsPlain ⟨type, p, properties⟩ := by
  refine ⟨?_, hkeys⟩
  cases htype with
  | text t => exact .text t
  | leftOut => exact .list (by simp)

variable (hplaced : host.IsPlaced) (hlogs : host.Logs log) (hroom : 3 ≤ host.machine.nesting)
  (hne : (Manifest.file folder).place host.folder ≠ log) {indent : Datum}
  (hindent : ∃ d, indent = Config.keptIndent d) {type : Datum} (htype : IsGiven type)
  {properties : List (Text × Text)} (hkeys : (properties.map Prod.fst).Nodup)
include hplaced hlogs hroom hne hindent htype hkeys

/-- The file that was saved holds a manifest exactly if the new output has a type. -/
theorem finds_of_saved {found : Manifest}
    (htable : ∀ output ∈ found, Manifest.DistinctKeys output) {p : Path} {target : HostPath}
    (hsaved : (Manifest.saveDrafts folder indent
      (found.map .ofOutput ++ [⟨type, p, properties⟩])).result host = (.ok target, last)) :
    last.IsPlaced ∧ last.Logs log ∧ last.machine = host.machine ∧ ∃ bytes,
      last.Finds (Manifest.file folder) ((Manifest.file folder).place host.folder) bytes ∧
        ((∃ t, type = .text t) ∧
            (∃ outputs, Holds last.machine.nesting folder bytes outputs ∧
              outputs.length = found.length + 1) ∨
          type = leftOut ∧ ∀ outputs, ¬ Holds last.machine.nesting folder bytes outputs) := by
  obtain ⟨hlast, hopen, hagrees, -, layout, hlayout, hfinds⟩ :=
    finds_of_saveDrafts_of_ne hplaced hlogs hne hsaved
  obtain ⟨d, rfl⟩ := hindent
  obtain ⟨hblank, hlines⟩ := layout_of_keptIndent hlayout
  refine ⟨hlast, hopen, hagrees.machine, _, hfinds, ?_⟩
  rw [hagrees.machine]
  cases htype with
  | text t =>
      have htyped : ∀ o ∈ found ++ [⟨t, p, properties⟩], Manifest.DistinctKeys o := by
        intro o ho
        rcases List.mem_append.mp ho with hold | hnew
        · exact htable o hold
        · obtain rfl := List.mem_singleton.mp hnew
          exact hkeys
      have hholds := Manifest.holds_persist folder hlines hblank hroom htyped
      rw [Manifest.persist, List.map_append] at hholds
      exact .inl ⟨⟨t, rfl⟩, _, hholds, by simp⟩
  | leftOut =>
      -- The document can be read, but the type it gives the last output is no text.
      refine .inr ⟨rfl, fun outputs => ?_⟩
      have hplain : ∀ draft ∈ found.map Manifest.Draft.ofOutput ++ [⟨leftOut, p, properties⟩],
          draft.IsPlain := by
        intro draft hdraft
        rcases List.mem_append.mp hdraft with hold | hnew
        · exact Manifest.isPlain_of_mem_map htable draft hold
        · obtain rfl := List.mem_singleton.mp hnew
          exact isPlain_of_isGiven .leftOut hkeys
      refine Manifest.not_holds_persistDrafts folder hlines hblank _ hplain
        (List.mem_append_right _ (List.mem_singleton_self _)) ?_ outputs
      rintro t ⟨⟩

variable {path : Datum} {quiet : Bool}

/-- A command that fails spares the manifest, or the output has no type, or it is not shown. -/
theorem runRecord_eq_error {failure : Failure}
    (hresult : (runRecord folder type path indent properties quiet).result host =
      (.error failure, last)) :
    Leaves folder type quiet ((Manifest.file folder).place host.folder) (Reads host folder) host
      last := by
  have hlog := hlogs.apart hne
  -- Loading, reading the path and saving can each fail before the file is written.
  rcases Act.bind_eq_error hresult with hload | ⟨found, loaded, hload, hparse⟩
  · exact .spared ((spares_ofFolder folder).after hload hlog)
  have hloaded := (spares_ofFolder folder).after hload hlog
  obtain ⟨hfound, r, hlevel, rfl⟩ := Manifest.ofFolder_eq_ok hload
  rcases Act.bind_eq_error hparse with hpath | ⟨p, parsed, hpath, hsave⟩
  · obtain rfl := (looks_pathOn _ _).after hpath
    exact .spared hloaded
  obtain rfl := (looks_pathOn _ _).after hpath
  rcases Act.bind_eq_error hsave with hfailed | ⟨target, saved, hsaved, hshow⟩
  · exact .spared (hloaded.trans (spares_of_saveDrafts_error hloaded.logsApart hfailed))
  -- Showing the saved manifest fails if it cannot be loaded again, or not be printed.
  rw [← hloaded.folder] at hne ⊢
  rw [← hloaded.machine] at hroom
  obtain ⟨hstands, hopen, hmachine, bytes, hfinds, hcases⟩ :=
    finds_of_saved (hlogs.isPlaced_record hplaced hlevel) (hlogs.record hlevel) hroom hne hindent
      htype hkeys hfound.distinctKeys hsaved
  have hkept := (spares_runManifest folder quiet).after hshow (hopen.apart hne)
  have hentry := (hkept.file bytes).mpr (hfinds.entry?_eq hstands)
  have hsame : saved.machine = host.machine := hmachine.trans hloaded.machine
  rcases hcases with ⟨-, outputs, hholds, hone⟩ | ⟨hleft, hnot⟩
  · have hlook : saved.machine.denies .look (Manifest.file folder) = none := by
      rw [hsame]
      exact Manifest.look_of_ofFolder hfinds.1 hload
    have hshown : saved.shown = host.shown :=
      ((Manifest.keeps_saveDrafts Host.isAside_shown folder indent _).after hsaved).trans
        (Host.isAside_shown.record host r)
    have hunshowable := (unshowable_of_runManifest hfinds hlook hholds hshow).of_later hsame hshown
    rw [← hkept.machine] at hholds
    exact .unshown hfound ⟨bytes, outputs, hentry, hholds, hone, hunshowable⟩ hkept.logsApart
  · rw [← hkept.machine] at hnot
    exact .spoilt hleft ⟨bytes, hentry, hnot⟩ hkept.logsApart

/-- A command that records its output has a type for it. -/
theorem exists_type_of_runRecord
    (hresult : (runRecord folder type path indent properties quiet).result host =
      (.ok (), last)) : ∃ t, type = .text t := by
  obtain ⟨found, loaded, hload, hparse⟩ := Act.bind_eq_ok hresult
  have hloaded := (spares_ofFolder folder).after hload (hlogs.apart hne)
  obtain ⟨hfound, r, hlevel, rfl⟩ := Manifest.ofFolder_eq_ok hload
  obtain ⟨p, parsed, hpath, hsave⟩ := Act.bind_eq_ok hparse
  obtain rfl := (looks_pathOn _ _).after hpath
  obtain ⟨target, saved, hsaved, hshow⟩ := Act.bind_eq_ok hsave
  rw [← hloaded.folder] at hne
  rw [← hloaded.machine] at hroom
  obtain ⟨-, -, -, bytes, hfinds, ⟨htext, -⟩ | ⟨-, hnot⟩⟩ :=
    finds_of_saved (hlogs.isPlaced_record hplaced hlevel) (hlogs.record hlevel) hroom hne hindent
      htype hkeys hfound.distinctKeys hsaved
  · exact htext
  · obtain ⟨failure, hfailed⟩ := runManifest_of_not_holds hfinds hnot hshow
    contradiction

end

/-! ## The command line -/

/-- What a command can find in the folder: what was there before it, which differs only if the way
to the manifest led through a missing folder. -/
def MayFind (host : Host) (place : HostPath) (found : Manifest) : Prop :=
  ∃ before, Reads host place before ∧ (found = before ∨ before = [] ∧ Uncovers host place found)

theorem exists_reads_of_grows {host later : Host} (hgrows : host.Grows IsForeign later)
    {place : HostPath} {found : Manifest} (hfound : Reads later place found) :
    ∃ before, Reads host place before := by
  unfold Reads at hfound
  rw [hgrows.machine] at hfound
  by_cases hthere : ∃ q bytes, host.Finds (Manifest.file place) q bytes
  · obtain ⟨q, bytes, hfinds⟩ := hthere
    rcases hfound with ⟨r, more, hmore, hholds⟩ | ⟨hnone, -⟩
    · obtain ⟨rfl, rfl⟩ := hmore.eq (hfinds.grows hgrows)
      exact ⟨found, .inl ⟨r, more, hfinds, hholds⟩⟩
    · exact absurd (hfinds.grows hgrows) (hnone q bytes)
  · exact ⟨[], .inr ⟨fun q bytes hfinds => hthere ⟨q, bytes, hfinds⟩, rfl⟩⟩

theorem mayFind_of_grows {host later : Host} (hplaced : host.IsPlaced)
    (hgrows : host.Grows IsForeign later) {place : HostPath} {found : Manifest}
    (hfound : Reads later place found) : MayFind host place found := by
  obtain ⟨before, hbefore⟩ := exists_reads_of_grows hgrows hfound
  exact ⟨before, hbefore, reads_of_grows hplaced hgrows hbefore hfound⟩

theorem exists_text_of_asPath {d : Datum} {t : Text} (hpath : d.asPath = .ok t) :
    ∃ t, d = .text t := by
  unfold Datum.asPath at hpath
  split at hpath
  next t => exact ⟨t, rfl⟩
  next => contradiction

theorem ne_log_of_prepare {host ready : Host} (hready : host.IsReady) {place : HostPath}
    (hapart : Apart host ((Manifest.file place).place host.folder))
    {request : Request} {config : Config} {log : Place}
    (hprepare : (prepare request).result host = (.ok config, ready))
    (hsetup : SetUp host ready config log) :
    (Manifest.file place).place ready.folder ≠ log := by
  have hspared := spares_prepare hready.isPlaced.links hready.steady hapart request
  rw [hprepare] at hspared
  rw [hspared.folder]
  exact Ne.symm (hspared.logsApart.ne log Level.debug hsetup.logFile)

section

variable {host last : Host} {words : List Text} {request : Request} {folder type path : Datum}
  {values : List Datum} (htask : request.task = .record folder type path values)
include htask

theorem carryOut_record_cases {config : Config} {log : Place} (hplaced : host.IsPlaced)
    (hlogs : host.Logs log) (hroom : 3 ≤ host.machine.nesting)
    (hindent : ∃ d, config.indent = Config.keptIndent d) (htype : IsGiven type) {place : HostPath}
    (hplace : ∀ named later, (folderNamed folder).result host = (.ok named, later) → named = place)
    (hne : (Manifest.file place).place host.folder ≠ log) {outcome : Except Failure Outcome}
    (hresult : (carryOut request config).result host = (outcome, last)) :
    outcome = .ok .done ∨ outcome.map Outcome.code ≠ .ok 0 ∧
      Leaves place type request.quiet ((Manifest.file place).place host.folder) (Reads host place)
        host last := by
  have hsame := Host.Spares.refl (hlogs.apart hne)
  rw [carryOut_record htask, Act.result_bind] at hresult
  rcases hnamed : (folderNamed folder).result host with ⟨failure | named, later⟩
  · obtain rfl := (looks_folderNamed folder).after hnamed
    rw [hnamed] at hresult
    obtain ⟨rfl, rfl⟩ := Prod.mk.inj hresult
    exact .inr ⟨by simp [Except.map], .spared hsame⟩
  · obtain rfl := (looks_folderNamed folder).after hnamed
    rw [hnamed] at hresult
    obtain rfl := hplace named later hnamed
    simp only at hresult
    split at hresult
    · obtain ⟨rfl, rfl⟩ := Prod.mk.inj hresult
      exact .inr ⟨by simp [Except.map, Outcome.code], .spared hsame⟩
    · obtain ⟨rfl, rfl⟩ := Prod.mk.inj hresult
      exact .inr ⟨by simp [Except.map], .spared hsame⟩
    · next properties hproperties =>
        cases outcome with
        | ok o =>
            obtain ⟨_, recorded, -, hdone⟩ := Act.bind_eq_ok hresult
            obtain ⟨hok, -⟩ := Prod.mk.inj hdone
            exact .inl hok.symm
        | error failure =>
            refine .inr ⟨by simp [Except.map], ?_⟩
            rcases Act.bind_eq_error hresult with hfailed | ⟨_, _, -, hdone⟩
            · exact runRecord_eq_error hplaced hlogs hroom hne hindent htype
                (nodup_propertiesFrom [] List.nodup_nil hproperties) hfailed
            · nomatch hdone

/-- What a command that ends in order has asked for. -/
theorem exists_asks {config : Config} {log : Place} (hplaced : host.IsPlaced)
    (hlogs : host.Logs log) (hroom : 3 ≤ host.machine.nesting)
    (hindent : ∃ d, config.indent = Config.keptIndent d) (htype : IsGiven type) {place : HostPath}
    (hplace : ∀ named later, (folderNamed folder).result host = (.ok named, later) → named = place)
    (hne : (Manifest.file place).place host.folder ≠ log)
    (hread : Request.read host.machine.dialect words = .ok request)
    (hresult : (carryOut request config).result host = (.ok .done, last)) :
    ∃ t output found, folder = .text t ∧ (folderNamed folder).result host = (.ok place, host) ∧
      Asks host.machine.dialect words t output ∧ Reads host place found := by
  rw [carryOut_record htask] at hresult
  obtain ⟨named, later, hnamed, hrest⟩ := Act.bind_eq_ok hresult
  obtain rfl := (looks_folderNamed folder).after hnamed
  obtain rfl := hplace named later hnamed
  have hfolder : ∃ t, folder = .text t := by
    obtain ⟨t, _, hlift, -⟩ := Act.bind_eq_ok hnamed
    obtain ⟨hok, -⟩ := Act.lift_eq_ok hlift
    exact exists_text_of_asPath hok
  obtain ⟨t, rfl⟩ := hfolder
  split at hrest
  · nomatch hrest
  · nomatch hrest
  · next properties hproperties =>
      have hkeys := nodup_propertiesFrom [] List.nodup_nil hproperties
      obtain ⟨_, recorded, hrecord, -⟩ := Act.bind_eq_ok hrest
      obtain ⟨name, rfl⟩ :=
        exists_type_of_runRecord hplaced hlogs hroom hne hindent htype hkeys hrecord
      obtain ⟨found, _, hload, hparse⟩ := Act.bind_eq_ok hrecord
      obtain ⟨_, _, hpath, -⟩ := Act.bind_eq_ok hparse
      obtain ⟨_, _, hlift, -⟩ := Act.bind_eq_ok hpath
      obtain ⟨hok, -⟩ := Act.lift_eq_ok hlift
      obtain ⟨text, rfl⟩ := exists_text_of_asPath hok
      exact ⟨t, ⟨name, .parse Path.localUri text, properties⟩, found, rfl, hnamed,
        ⟨request, text, values, hread, htask, hproperties, rfl⟩, (Manifest.ofFolder_eq_ok hload).1⟩

variable (hread : Request.read host.machine.dialect words = .ok request) (htype : IsGiven type)
  {place : HostPath}
  (hplace : ∀ named later, (folderNamed folder).result host = (.ok named, later) → named = place)
  (hready : host.IsReady) (hapart : Apart host ((Manifest.file place).place host.folder))
  {outcome : Except Failure Outcome}
include htype hplace hready hapart

theorem handle_record_cases (hresult : (handle request).result host = (outcome, last)) :
    outcome = .ok .done ∨ outcome.map Outcome.code ≠ .ok 0 ∧
      Leaves place type request.quiet ((Manifest.file place).place host.folder) (MayFind host place)
        host last := by
  have hspared := spares_prepare hready.isPlaced.links hready.steady hapart request
  have hshown := keeps_prepare Host.isAside_shown (fun _ _ => rfl) (fun _ _ => rfl) request host
  rw [handle_eq, Act.result_bind] at hresult
  rcases hprepare : (prepare request).result host with ⟨failure | config, ready⟩
  · rw [hprepare] at hresult hspared
    obtain ⟨rfl, rfl⟩ := Prod.mk.inj hresult
    exact .inr ⟨by simp [Except.map], .spared hspared⟩
  · obtain ⟨log, hsetup⟩ := setUp_of_prepare hready hprepare
    have hne := ne_log_of_prepare hready hapart hprepare hsetup
    rw [hprepare] at hresult hspared hshown
    have hnamed : ∀ named later, (folderNamed folder).result ready = (.ok named, later) →
        named = place := by
      intro named later hresult
      exact hplace named host (folderNamed_agrees hspared.toAgrees.symm hresult)
    have hcases := carryOut_record_cases htask (hsetup.isPlaced hready) (hsetup.logs hready)
      (hsetup.room hready) hsetup.indent htype hnamed hne hresult
    rw [hspared.folder] at hcases
    refine hcases.imp_right fun ⟨hcode, hleaves⟩ => ⟨hcode, hleaves.after hspared hshown ?_⟩
    exact fun found hfound => mayFind_of_grows hready.isPlaced hsetup.grows hfound

include hread

theorem run_record_cases (hresult : (run words).result host = (outcome, last)) :
    outcome = .ok .done ∨ outcome.map Outcome.code ≠ .ok 0 ∧
      Leaves place type request.quiet ((Manifest.file place).place host.folder) (MayFind host place)
        host last := by
  cases runEnds_of_read hread hresult with
  | carriedOut hhandle => exact handle_record_cases htask htype hplace hready hapart hhandle
  | @reported failure later hhandle _ =>
      rcases handle_record_cases htask htype hplace hready hapart hhandle with hdone | ⟨-, hleaves⟩
      · contradiction
      · refine .inr ⟨by simp [Except.map, Outcome.code], ?_⟩
        exact hleaves.andThen (Act.spares_logWith .error failure.message [])
  | escaped hhandle _ => exact handle_record_cases htask htype hplace hready hapart hhandle

end

/-! ## All or nothing -/

/-- The words do not ask for help, and if they can be read, they ask to record an output in the
manifest of the folder at the place. -/
structure RecordsIn (words : List Text) (host : Host) (place : HostPath) : Prop where
  noHelp : ∀ program, Request.read host.machine.dialect words ≠ .error (.help program)
  record : ∀ request, Request.read host.machine.dialect words = .ok request →
    ∃ folder type path values, request.task = .record folder type path values ∧
      ∀ named later, (folderNamed folder).result host = (.ok named, later) → named = place

/-- What is loaded from the folder afterwards has one output more than what was found. -/
def AddsOne (host last : Host) (place : HostPath) : Prop :=
  ∃ found after, MayFind host place found ∧
    ((Manifest.ofFolder place none).result last).1 = .ok after ∧ after.length = found.length + 1

section

variable {host last : Host} {words : List Text} {request : Request} {folder type path : Datum}
  {values : List Datum} (hready : host.IsReady) {place : HostPath}
  (hapart : Apart host ((Manifest.file place).place host.folder))
include hready hapart

theorem addsOne_of_done (hread : Request.read host.machine.dialect words = .ok request)
    (htask : request.task = .record folder type path values)
    (hplace : ∀ named later, (folderNamed folder).result host = (.ok named, later) → named = place)
    (hresult : (run words).result host = (.ok .done, last)) : AddsOne host last place := by
  have hhandle := run_eq_done hread hresult
  rw [handle_eq] at hhandle
  obtain ⟨config, ready, hprepare, hcarry⟩ := Act.bind_eq_ok hhandle
  obtain ⟨log, hsetup⟩ := setUp_of_prepare hready hprepare
  have hne := ne_log_of_prepare hready hapart hprepare hsetup
  have hagrees := hsetup.grows.toAgrees.symm
  obtain ⟨t, output, there, rfl, hnamed, hasks, hthere⟩ :=
    exists_asks htask (hsetup.isPlaced hready) (hsetup.logs hready) (hsetup.room hready)
      hsetup.indent (isGiven_type_of_read hread htask)
      (fun named later hresult => hplace named host (folderNamed_agrees hagrees hresult)) hne
      (hsetup.grows.machine ▸ hread) hcarry
  rw [hsetup.grows.machine] at hasks
  obtain ⟨before, hbefore⟩ := exists_reads_of_grows hsetup.grows hthere
  obtain ⟨-, -, found, q, bytes, hfound, hfinds, hreadable, hholds⟩ :=
    run_record_eq_done hready hasks (folderNamed_agrees hagrees hnamed) hbefore hresult
  exact ⟨found, _, ⟨before, hbefore, hfound⟩,
    Manifest.ofFolder_of_holds hfinds hreadable hholds, by simp⟩

/-- Recording an output is all or nothing, but for two flaws.  A command that exits with 0 has added
one output.  Any other leaves the file of the manifest as it was, unless the type of the output was
left out: then the file can end up as no manifest at all.  And if what was saved is not shown, the
file has the output although the command has failed. -/
theorem run_record_all_or_nothing {outcome : Except Failure Outcome}
    (hrecords : RecordsIn words host place)
    (hresult : (run words).result host = (outcome, last)) :
    (outcome.map Outcome.code = .ok 0 → AddsOne host last place) ∧
      (outcome.map Outcome.code ≠ .ok 0 →
        (∀ bytes, last.files.entry? ((Manifest.file place).place host.folder) = some (.file bytes) ↔
          host.files.entry? ((Manifest.file place).place host.folder) = some (.file bytes)) ∨
        ∃ request folder type path values,
          Request.read host.machine.dialect words = .ok request ∧
            request.task = .record folder type path values ∧
            (type = leftOut ∧ Spoilt last place ((Manifest.file place).place host.folder) ∨
              ∃ found, MayFind host place found ∧
                Unshown host last place request.quiet ((Manifest.file place).place host.folder)
                  found)) := by
  cases hread : Request.read host.machine.dialect words with
  | error stop =>
      rw [run, Act.bind_of_ok (Act.result_get host), hread] at hresult
      obtain ⟨rfl, rfl⟩ := Prod.mk.inj hresult
      refine ⟨fun hcode => ?_, fun _ => .inl fun _ => Iff.rfl⟩
      cases stop with
      | help program => exact absurd hread (hrecords.noHelp program)
      | misuse program error => cases hcode
  | ok request =>
      obtain ⟨folder, type, path, values, htask, hplace⟩ := hrecords.record request hread
      have htype := isGiven_type_of_read hread htask
      rcases run_record_cases htask hread htype hplace hready hapart hresult with
        rfl | ⟨hcode, hleaves⟩
      · exact ⟨fun _ => addsOne_of_done hready hapart hread htask hplace hresult,
          fun hcode => absurd rfl hcode⟩
      · refine ⟨fun hzero => absurd hzero hcode, fun _ => ?_⟩
        cases hleaves with
        | spared hspared => exact .inl hspared.file
        | spoilt hleft hspoilt _ =>
            exact .inr ⟨request, folder, type, path, values, rfl, htask, .inl ⟨hleft, hspoilt⟩⟩
        | unshown hfound hunshown _ =>
            exact .inr ⟨request, folder, type, path, values, rfl, htask, .inr ⟨_, hfound, hunshown⟩⟩

end

/-! ## A type that was left out -/

/-- The words that record an output in the folder `out` and leave its type out. -/
def untypedWords : List Text :=
  ["record", "--quiet", "out", "--", "--", "a.apk"].map String.toList

def untypedDocument : Text :=
  "[\n  \x7b\n    \"outputType\": \x7b\n      \"type\": []\n    \x7d,\n".toList ++
    "    \"path\": \"a.apk\",\n    \"properties\": \x7b\x7d\n  \x7d\n]".toList

theorem apart_emptyHost : Apart emptyHost ["out".toList, Manifest.fileName] where
  config := by
    intro p hp
    have hconfig : (configReached.result emptyHost).1 =
        .ok [.ofText "/config/config.toml".toList] := rfl
    obtain rfl := List.singleton_inj.mp (Except.ok.inj (hconfig.symm.trans hp))
    decide
  log := by
    intro p hp
    have hlog : (logReached.result emptyHost).1 = .ok [.ofText "/log".toList] := rfl
    obtain rfl := List.singleton_inj.mp (Except.ok.inj (hlog.symm.trans hp))
    decide
  logsApart := ⟨nofun, nofun⟩

theorem recordsIn_untypedWords : RecordsIn untypedWords emptyHost (.ofText "out".toList) where
  noHelp := fun _ hread => by nomatch hread
  record := by
    intro request hread
    obtain rfl := Except.ok.inj hread
    refine ⟨_, _, _, _, rfl, fun named later hnamed => ?_⟩
    exact (Except.ok.inj (Prod.mk.inj hnamed).1).symm

/-- The command exits with 1, and where no manifest was there is a file that is none. -/
theorem spoilt_of_untypedWords :
    ((run untypedWords).result emptyHost).1.toOption.map Outcome.code = some 1 ∧
      emptyHost.files.entry? ["out".toList, Manifest.fileName] = none ∧
      Spoilt ((run untypedWords).result emptyHost).2 (.ofText "out".toList)
        ["out".toList, Manifest.fileName] := by
  have hcode : ((run untypedWords).result emptyHost).1.toOption.map Outcome.code = some 1 := by
    decide +kernel
  have hfile : ((run untypedWords).result emptyHost).2.files.entry?
      ["out".toList, Manifest.fileName] = some (.file (Utf8.encode untypedDocument)) := by
    decide +kernel
  rcases hresult : (run untypedWords).result emptyHost with ⟨outcome, last⟩
  rw [hresult] at hcode hfile
  have hfailed : outcome.map Outcome.code ≠ .ok 0 := by
    intro hzero
    cases outcome with
    | error failure => nomatch hcode
    | ok outcome =>
        have hone := Option.some.inj hcode
        have hnone := Except.ok.inj hzero
        omega
  have hall := @run_record_all_or_nothing emptyHost last untypedWords isReady_emptyHost
    (.ofText "out".toList) apart_emptyHost outcome recordsIn_untypedWords hresult
  refine ⟨hcode, rfl, ?_⟩
  rcases hall.2 hfailed with
    hsame | ⟨request, _, _, _, _, hread, -, ⟨-, hspoilt⟩ | ⟨_, -, _, _, -, -, -, hunshowable⟩⟩
  · nomatch (hsame _).mp hfile
  · exact hspoilt
  · -- The user may read the file, and the command is to be quiet.
    obtain rfl := Except.ok.inj hread
    cases hunshowable with
    | denied hdenied => nomatch hdenied
    | unprinted hquiet _ => nomatch hquiet

end Command

end LexicalPaths
