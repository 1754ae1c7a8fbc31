import LexicalPaths.Proofs.Command.Apart
import LexicalPaths.Proofs.Host.Extension

/-!
# The place of the configuration file

The configuration file lies where the environment says, or else in the folder of the project that
the program belongs to.  Writing it makes at most the folders on the way to it, and none of these
marks a project, so the configuration file is found at the same place afterwards.
-/

namespace LexicalPaths

/-- The program is a file at an absolute path that never climbs. -/
structure Host.HoldsProgram (host : Host) : Prop where
  isAbsolute : host.program.isAbsolute = true
  parentName : ['.', '.'] ∉ host.program.names
  isFile : ∃ q bytes, host.Finds host.program q bytes

/-! ## Walks through folders -/

namespace Files

/-- A name that a walk looks up in a folder. -/
def IsOrdinary (name : Text) : Prop :=
  name ≠ ['.', '.'] ∧ isLongName name = false

instance (name : Text) : Decidable (IsOrdinary name) :=
  inferInstanceAs (Decidable (_ ∧ _))

/-- The names lead from the root through folders. -/
structure LeadsThrough (files : Files) (names : Place) : Prop where
  isOrdinary : ∀ name ∈ names, IsOrdinary name
  isFolder : ∀ place, place <+: names → files.entry? place = some .folder

theorem walk_append {files : Files} {place names : List Text}
    (hnames : ∀ name ∈ names, IsOrdinary name)
    (hfolders : ∀ p, p <+: names → files.entry? (place ++ p) = some .folder) (rest : List Text) :
    files.walk place (names ++ rest) = files.walk (place ++ names) rest := by
  induction names generalizing place with
  | nil => rw [List.nil_append, List.append_nil]
  | cons name names ih =>
      obtain ⟨⟨hup, hlong⟩, hmore⟩ := List.forall_mem_cons.mp hnames
      have hfolder := hfolders [name] (by simp)
      have hbelow : ∀ p, p <+: names → files.entry? ((place ++ [name]) ++ p) = some .folder := by
        intro p hp
        rw [List.append_assoc]
        exact hfolders _ (List.cons_prefix_cons.mpr ⟨rfl, hp⟩)
      rw [List.cons_append, walk_of_folder hup hlong hfolder, ih hmore hbelow, List.append_assoc]
      rfl

theorem IsTree.folder_above {files : Files} (htree : files.IsTree) {place below : Place}
    (hbelow : files.entry? below = some .folder) (habove : place <+: below) :
    files.entry? place = some .folder := by
  obtain ⟨rest, rfl⟩ := habove
  rcases eq_or_ne rest [] with rfl | hne
  · rwa [List.append_nil] at hbelow
  · exact htree.folder_of_append hne (by rw [hbelow]; simp)

theorem LeadsThrough.walk {files : Files} {names : Place} (hleads : files.LeadsThrough names)
    (rest : List Text) : files.walk [] (names ++ rest) = files.walk names rest :=
  walk_append hleads.isOrdinary (fun p hp => hleads.isFolder p hp) rest

theorem LeadsThrough.above {files : Files} {names place : Place}
    (hleads : files.LeadsThrough names) (hplace : place <+: names) :
    files.LeadsThrough place where
  isOrdinary := fun name hmem => hleads.isOrdinary name (hplace.subset hmem)
  isFolder := fun p hp => hleads.isFolder p (hp.trans hplace)

/-- A walk to a file leads through folders. -/
theorem folders_of_walk {files : Files} {place q : Place} {names : List Text}
    {bytes : List UInt8} (hplace : files.entry? place = some .folder)
    (hup : ['.', '.'] ∉ names) (hwalk : files.walk place names = .ok (.entry q (.file bytes))) :
    (∀ name ∈ names, IsOrdinary name) ∧
      ∀ p, p <+: names.dropLast → files.entry? (place ++ p) = some .folder := by
  induction names generalizing place with
  | nil => nomatch hwalk
  | cons name rest ih =>
      obtain ⟨hname, hmore⟩ := List.ne_and_not_mem_of_not_mem_cons hup
      have hordinary : IsOrdinary name :=
        ⟨Ne.symm hname, not_isLongName_of_walk (Ne.symm hname) hwalk⟩
      rcases walk_cons_entry_cases (Ne.symm hname) hwalk with ⟨hfolder, hrest⟩ | ⟨rfl, -, -⟩
      · obtain ⟨hordinaries, hfolders⟩ := ih hfolder hmore hrest
        refine ⟨List.forall_mem_cons.mpr ⟨hordinary, hordinaries⟩, fun p hp => ?_⟩
        rcases p with _ | ⟨first, p⟩
        · rwa [List.append_nil]
        · rcases rest with _ | ⟨second, rest⟩
          · nomatch hrest
          · obtain ⟨rfl, hbelow⟩ := List.cons_prefix_cons.mp hp
            rw [← List.singleton_append, ← List.append_assoc]
            exact hfolders p hbelow
      · refine ⟨List.forall_mem_cons.mpr ⟨hordinary, by simp⟩, fun p hp => ?_⟩
        obtain rfl := List.prefix_nil.mp hp
        rwa [List.append_nil]

end Files

/-- The folders above the program lead to it. -/
theorem Host.HoldsProgram.leadsThrough {host : Host} (hlinks : host.machine.links = [])
    (hprogram : host.HoldsProgram) :
    host.files.LeadsThrough host.program.names.dropLast := by
  obtain ⟨q, bytes, -, hspot⟩ := hprogram.isFile
  rw [hlinks] at hspot
  have hwalk := (Files.spot_nil_eq_ok_iff.mp hspot).2
  rw [HostPath.start, if_pos hprogram.isAbsolute] at hwalk
  obtain ⟨hordinary, hfolders⟩ := Files.folders_of_walk rfl hprogram.parentName hwalk
  exact ⟨fun name hmem => hordinary name (List.dropLast_subset _ hmem), hfolders⟩

/-! ## Looking things up again -/

namespace Act

/-- The action ends alike on both hosts. -/
def Repeats {α : Type} (host later : Host) (act : Act α) : Prop :=
  (act.result later).1 = (act.result host).1

theorem repeats_bind {α β : Type} {host later : Host} {act : Act α} {next : α → Act β}
    (hlooks : act.Looks) (hact : act.Repeats host later)
    (hnext : ∀ a, (next a).Repeats host later) : (act >>= next).Repeats host later := by
  have hone := hlooks host
  have htwo := hlooks later
  unfold Repeats at *
  rw [result_bind, result_bind]
  rcases hresult : act.result host with ⟨outcome, same⟩
  rcases hagain : act.result later with ⟨again, still⟩
  rw [hresult, hagain] at hact
  rw [hresult] at hone
  rw [hagain] at htwo
  obtain rfl : again = outcome := hact
  obtain rfl : same = host := hone
  obtain rfl : still = later := htwo
  cases again with
  | error failure => rfl
  | ok a => exact hnext a

theorem Repeats.result_eq {α : Type} {host later last : Host} {act : Act α} (hlooks : act.Looks)
    (hact : act.Repeats host later) {outcome : Except Failure α}
    (hresult : act.result host = (outcome, last)) : act.result later = (outcome, later) := by
  refine Prod.ext ?_ (hlooks later)
  rw [hact, hresult]

/-- What is looked up in a folder is known from the entries. -/
theorem outcome_holds {host : Host} (hlinks : host.machine.links = []) {p : HostPath}
    {folder : Place} {name : Text} (habsolute : p.isAbsolute = true)
    (hp : p.names = folder ++ [name]) (hfolder : host.files.LeadsThrough folder)
    (hname : Files.IsOrdinary name) :
    ((holds p).result host).1 =
      if p.names.any (Text.holds '\x00') then .ok false
      else
        match host.machine.denies .look p with
        | some reason => .error (.denied reason)
        | none =>
          if Files.maxPath < (Utf8.encode p.toText).length then
            .error (.refused .nameTooLong p.toText)
          else .ok (host.files.entry? (folder ++ [name])).isSome := by
  have hspot : host.files.spot host.machine.links host.folder p =
      if Files.maxPath < (Utf8.encode p.toText).length then .error .nameTooLong
      else host.files.walk folder [name] := by
    rw [Files.spot, Files.spotAlong, hlinks, Links.way_nil, HostPath.start, if_pos habsolute, hp,
      hfolder.walk]
    cases host.files.walk folder [name] <;> rfl
  rw [holds, entry?, result_bind, bind_of_ok (result_get host), hspot]
  cases p.names.any (Text.holds '\x00') with
  | true => rfl
  | false =>
      cases host.machine.denies .look p with
      | some reason => rfl
      | none =>
          by_cases hlong : Files.maxPath < (Utf8.encode p.toText).length
          · rw [if_pos hlong, if_neg (by decide)]
            simp only [Bool.false_eq_true, if_false, if_pos hlong]
            rfl
          · rw [if_neg hlong, if_neg (by decide), Files.walk_cons hname.1 hname.2]
            simp only [Bool.false_eq_true, if_false, if_neg hlong]
            rcases host.files.entry? (folder ++ [name]) with _ | _ | bytes <;> rfl

section

variable {new : Place → Prop} {host later : Host} (hextends : host.Extends new later)
include hextends

theorem leadsThrough_of_extends {names : Place} (hleads : host.files.LeadsThrough names) :
    later.files.LeadsThrough names :=
  ⟨hleads.isOrdinary, fun place hplace => hextends.keepsFolder (hleads.isFolder place hplace)⟩

/-- What is not new is found, or not found, as before. -/
theorem isSome_entry?_of_extends {q : Place} (hq : host.files.entry? q = none → ¬ new q) :
    (later.files.entry? q).isSome = (host.files.entry? q).isSome := by
  rcases hentry : host.files.entry? q with _ | _ | bytes
  · rw [(hextends.isNew hentry).resolve_right (hq hentry)]
  · rw [hextends.keepsFolder hentry]
  · obtain ⟨more, hmore⟩ := hextends.keepsFile hentry
    rw [hmore]
    rfl

variable (hlinks : host.machine.links = []) {folder : HostPath}
  (habsolute : folder.isAbsolute = true) (hfolder : host.files.LeadsThrough folder.names)
include hlinks habsolute hfolder

theorem repeats_holds {name : Text} (hname : Files.IsOrdinary name)
    (hold : host.files.entry? (folder.names ++ [name]) = none → ¬ new (folder.names ++ [name])) :
    (holds (folder.child name)).Repeats host later := by
  have hchild : (folder.child name).isAbsolute = true := habsolute
  unfold Repeats
  rw [outcome_holds hlinks hchild rfl hfolder hname,
    outcome_holds (hextends.machine ▸ hlinks) hchild rfl (leadsThrough_of_extends hextends hfolder)
      hname,
    isSome_entry?_of_extends hextends hold, hextends.machine]

theorem repeats_holdsAny {names : List Text} (hnames : ∀ name ∈ names, Files.IsOrdinary name ∧
      (host.files.entry? (folder.names ++ [name]) = none → ¬ new (folder.names ++ [name]))) :
    (holdsAny folder names).Repeats host later := by
  induction names with
  | nil => rfl
  | cons name names ih =>
      obtain ⟨⟨hname, hold⟩, hmore⟩ := List.forall_mem_cons.mp hnames
      refine repeats_bind (looks_holds _) 
        (repeats_holds hextends hlinks habsolute hfolder hname hold)
        fun found => ?_
      split
      · rfl
      · exact ih hmore

end

/-! ## The folder of the project -/

theorem projectAmong_eq_ok {host last : Host} {folders : List HostPath} {root : HostPath}
    (hresult : (projectAmong folders).result host = (.ok root, last)) :
    root ∈ folders ∨ root = .ofNames host.folder := by
  induction folders with
  | nil =>
      obtain rfl := Except.ok.inj (Prod.mk.inj hresult).1
      right
      rw [HostPath.join, if_neg (by decide)]
      simp [HostPath.ofNames]
  | cons folder folders ih =>
      obtain ⟨found, later, hfound, hrest⟩ := bind_eq_ok hresult
      obtain rfl := (looks_holdsAny _ _).after hfound
      split at hrest
      · obtain rfl := Except.ok.inj (Prod.mk.inj hrest).1
        exact .inl List.mem_cons_self
      · exact (ih hrest).imp_left (List.mem_cons_of_mem folder)

theorem mem_upwards {p folder : HostPath} (hfolder : folder ∈ p.upwards) :
    folder.slashes = p.slashes ∧ folder.names <+: p.names := by
  obtain ⟨count, -, rfl⟩ := List.mem_map.mp hfolder
  exact ⟨rfl, List.take_prefix count p.names⟩

theorem isOrdinary_of_marker : ∀ name ∈ projectMarkers, Files.IsOrdinary name := by
  decide +kernel

theorem ne_of_marker : ∀ name ∈ projectMarkers,
    name ≠ "config".toList ∧ name ≠ "config.toml".toList := by
  decide +kernel

/-- An absolute path that never climbs is located where its names say. -/
theorem locate_of_isAbsolute {host : Host} (hlinks : host.machine.links = []) {p q : HostPath}
    (habsolute : p.isAbsolute = true) (hup : ['.', '.'] ∉ p.names) {last : Host}
    (hresult : (locate p).result host = (.ok q, last)) : q = .ofNames p.names := by
  obtain ⟨expanded, later, hexpand, hrest⟩ := bind_eq_ok hresult
  obtain rfl := (looks_expandHome p).after hexpand
  have hsame : expanded = p := by
    rw [expandHome, habsolute] at hexpand
    exact (Except.ok.inj (Prod.mk.inj hexpand).1).symm
  subst hsame
  obtain ⟨-, -, rfl⟩ := resolve_eq_ok hrest
  rw [Host.traced_of_links hlinks, HostPath.place_of_notMem habsolute hup]

theorem isAbsolute_of_locate {host last : Host} {p q : HostPath}
    (hlocate : (locate p).result host = (.ok q, last)) : q.isAbsolute = true := by
  obtain ⟨expanded, later, -, hrest⟩ := bind_eq_ok hlocate
  obtain ⟨-, -, rfl⟩ := resolve_eq_ok hrest
  rfl

theorem isAbsolute_of_defaultConfigPath {host last : Host} {environment : List (Text × Text)}
    {target : HostPath}
    (hpath : (defaultConfigPath environment).result host = (.ok target, last)) :
    target.isAbsolute = true := by
  unfold defaultConfigPath overridablePath at hpath
  split at hpath
  · exact isAbsolute_of_locate hpath
  · exact isAbsolute_of_locate hpath
  · obtain ⟨usual, middle, -, hlocate⟩ := bind_eq_ok hpath
    exact isAbsolute_of_locate hlocate

section

variable {host later : Host} (hplaced : host.IsPlaced) (hprogram : host.HoldsProgram)
include hplaced hprogram

theorem isFolder_of_projectRoot {last : Host} {root : HostPath}
    (hroot : (projectRoot host.program).result host = (.ok root, last)) :
    root.isAbsolute = true ∧ ['.', '.'] ∉ root.names ∧
      host.files.entry? root.names = some .folder := by
  have hleads := hprogram.leadsThrough hplaced.links
  rcases projectAmong_eq_ok hroot with hmem | rfl
  · obtain ⟨hslashes, habove⟩ := mem_upwards hmem
    refine ⟨?_, ?_, hleads.isFolder _ habove⟩
    · rw [HostPath.isAbsolute, hslashes]
      exact hprogram.isAbsolute
    · exact fun hup => hprogram.parentName (List.dropLast_subset _ (habove.subset hup))
  · exact ⟨rfl, hplaced.parentName, hplaced.folder⟩

theorem repeats_projectRoot {last : Host} {root : HostPath}
    (hroot : (projectRoot host.program).result host = (.ok root, last))
    (hextends : host.Extends
      (· <+: root.names ++ ["config".toList, "config.toml".toList]) later) :
    (projectRoot host.program).Repeats host later := by
  have hleads := hprogram.leadsThrough hplaced.links
  obtain ⟨-, -, hfolder⟩ := isFolder_of_projectRoot hplaced hprogram hroot
  -- The new entries are the folder `config` and the file in it, and no marker has their names.
  have hmarkers : ∀ (folder : HostPath) (name : Text), name ∈ projectMarkers →
      host.files.entry? (folder.names ++ [name]) = none →
        ¬ folder.names ++ [name] <+: root.names ++ ["config".toList, "config.toml".toList] := by
    intro folder name hname hnone habove
    obtain ⟨hconfig, hfile⟩ := ne_of_marker name hname
    have hlast : root.names ++ ["config".toList, "config.toml".toList] =
        root.names ++ ["config".toList] ++ ["config.toml".toList] := by simp
    rw [hlast, List.prefix_concat_iff, List.prefix_concat_iff] at habove
    rcases habove with heq | heq | habove
    · exact hfile (List.cons.inj (List.append_inj' heq rfl).2).1
    · exact hconfig (List.cons.inj (List.append_inj' heq rfl).2).1
    · rw [hplaced.isTree.folder_above hfolder habove] at hnone
      nomatch hnone
  have hall : ∀ folders : List HostPath,
      (∀ folder ∈ folders, folder ∈ host.program.parent.upwards) →
        (projectAmong folders).Repeats host later := by
    intro folders hfolders
    induction folders with
    | nil =>
        show Except.ok ((HostPath.ofNames later.folder).join ⟨0, []⟩) = _
        rw [hextends.folder]
        rfl
    | cons folder folders ih =>
        obtain ⟨hmem, hmore⟩ := List.forall_mem_cons.mp hfolders
        obtain ⟨hslashes, habove⟩ := mem_upwards hmem
        have habsolute : folder.isAbsolute = true := by
          rw [HostPath.isAbsolute, hslashes]
          exact hprogram.isAbsolute
        refine repeats_bind (looks_holdsAny _ _) ?_ fun found => ?_
        · apply repeats_holdsAny hextends hplaced.links habsolute (hleads.above habove)
          exact fun name hname => ⟨isOrdinary_of_marker name hname, hmarkers folder name hname⟩
        · split
          · rfl
          · exact ih hmore
  exact hall _ fun _ hmem => hmem

/-- Writing the configuration file does not change where it is looked for. -/
theorem defaultConfigPath_of_extends {target : HostPath} {last : Host}
    (hpath : (defaultConfigPath host.environment).result host = (.ok target, last))
    (hextends : host.Extends (· <+: target.names) later) :
    (defaultConfigPath later.environment).result later = (.ok target, later) := by
  rw [hextends.environment]
  unfold defaultConfigPath overridablePath at hpath ⊢
  split at hpath
  next heq => nomatch heq
  next => exact locate_agrees hplaced.links hextends.toAgrees hpath
  next =>
    obtain ⟨usual, middle, husual, hlocate⟩ := bind_eq_ok hpath
    obtain rfl := looks_projectConfig.after husual
    rw [projectConfig, bind_of_ok (result_get middle)] at husual
    obtain ⟨root, same, hroot, hlast⟩ := bind_eq_ok husual
    obtain rfl := (looks_projectAmong _).after hroot
    obtain rfl := Except.ok.inj (Prod.mk.inj hlast).1
    obtain ⟨habsolute, hup, -⟩ := isFolder_of_projectRoot hplaced hprogram hroot
    have hnames : ((root.child "config".toList).child "config.toml".toList).names =
        root.names ++ ["config".toList, "config.toml".toList] := by
      simp [HostPath.child]
    have hclimb : ['.', '.'] ∉ ((root.child "config".toList).child "config.toml".toList).names := by
      rw [hnames, List.mem_append]
      rintro (hmem | hmem)
      · exact hup hmem
      · exact absurd hmem (by decide)
    have hfile : ((root.child "config".toList).child "config.toml".toList).isAbsolute = true :=
      habsolute
    have htarget := locate_of_isAbsolute hplaced.links hfile hclimb hlocate
    rw [htarget, HostPath.ofNames, hnames] at hextends
    have hagain : (projectRoot _).result later = (.ok root, later) :=
      (repeats_projectRoot hplaced hprogram hroot hextends).result_eq (looks_projectAmong _) hroot
    have husual : projectConfig.result later =
        (.ok ((root.child "config".toList).child "config.toml".toList), later) := by
      rw [projectConfig, bind_of_ok (result_get later), hextends.program, bind_of_ok hagain]
      rfl
    rw [bind_of_ok husual]
    exact locate_agrees hplaced.links hextends.toAgrees hlocate

end

end Act

end LexicalPaths
