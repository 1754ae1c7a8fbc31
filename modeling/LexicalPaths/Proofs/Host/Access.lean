import LexicalPaths.Proofs.Host.Action
import LexicalPaths.Proofs.Host.Files

/-!
# Access to files

What the actions on files find and leave behind.  Looking does not change the host, a file is read
exactly if a walk leads to it, and a written file is where the walk to it ends.
-/

namespace LexicalPaths

/-- The path leads to the file at a place. -/
def Host.Finds (host : Host) (p : HostPath) (q : Place) (bytes : List UInt8) : Prop :=
  p.names.any (Text.holds '\x00') = false ∧
    host.files.spot host.machine.links host.folder p = .ok (.entry q (.file bytes))

/-- The user may look up the path and read what is there. -/
structure Host.Readable (host : Host) (p : HostPath) : Prop where
  look : host.machine.denies .look p = none
  read : host.machine.denies .read p = none

theorem Host.Finds.eq {host : Host} {p : HostPath} {q r : Place} {bytes more : List UInt8}
    (hone : host.Finds p q bytes) (htwo : host.Finds p r more) : q = r ∧ bytes = more := by
  have hspot := hone.2.symm.trans htwo.2
  obtain ⟨rfl, hfile⟩ := Spot.entry.inj (Except.ok.inj hspot)
  exact ⟨rfl, Entry.file.inj hfile⟩

namespace Act

/-! ## Looking -/

theorem looks_checkPath (p : HostPath) : (checkPath p).Looks := by
  unfold checkPath
  split
  · exact looks_throw _
  · exact looks_pure _

theorem looks_onFiles {α : Type} (access : Access) (p : HostPath)
    (operation : Files → Links → Place → HostPath → Except Refusal α) :
    (onFiles access p operation).Looks := by
  refine (looks_checkPath p).bind fun _ => looks_get.bind fun host => ?_
  split
  · exact looks_throw _
  · exact looks_lift _ _

theorem looks_entry? (p : HostPath) : (Act.entry? p).Looks := by
  refine looks_get.bind fun host => ?_
  split
  · exact looks_pure _
  · split
    · exact looks_throw _
    · exact looks_pure _
    · exact looks_throw _
    · exact looks_pure _

theorem looks_holds (p : HostPath) : (holds p).Looks := by
  apply Looks.bind <| looks_entry? p
  intro found
  exact looks_pure _

theorem looks_isFile (p : HostPath) : (isFile p).Looks := by
  apply Looks.bind <| looks_entry? p
  intro found
  split <;> exact looks_pure _

theorem looks_isFolder (p : HostPath) : (isFolder p).Looks := by
  apply Looks.bind <| looks_entry? p
  intro found
  split <;> exact looks_pure _

theorem looks_readBytes (p : HostPath) : (readBytes p).Looks :=
  looks_onFiles .read p Files.read

theorem looks_readText (p : HostPath) : (readText p).Looks := by
  apply Looks.bind <| looks_readBytes p
  intro bytes
  exact (looks_lift _ _).bind fun _ => looks_pure _

section

variable {host last : Host} {p : HostPath}

theorem checkPath_of_names (hnames : p.names.any (Text.holds '\x00') = false) :
    (checkPath p).result host = (.ok (), host) := by
  rw [checkPath, if_neg (by simp [hnames])]
  rfl

theorem checkPath_eq_ok (hresult : (checkPath p).result host = (.ok (), last)) :
    p.names.any (Text.holds '\x00') = false := by
  unfold checkPath at hresult
  split at hresult
  next => nomatch hresult
  next hnames => simpa using hnames

section

variable {α : Type} {access : Access}
  {operation : Files → Links → Place → HostPath → Except Refusal α} {a : α}

theorem onFiles_eq_ok (hresult : (onFiles access p operation).result host = (.ok a, last)) :
    p.names.any (Text.holds '\x00') = false ∧ host.machine.denies access p = none ∧
      operation host.files host.machine.links host.folder p = .ok a ∧ last = host := by
  obtain ⟨_, later, hcheck, hrest⟩ := bind_eq_ok hresult
  have hnames := checkPath_eq_ok hcheck
  obtain rfl := (looks_checkPath p).after hcheck
  rw [bind_of_ok (result_get later)] at hrest
  split at hrest
  next => nomatch hrest
  next hallowed =>
    obtain ⟨hok, rfl⟩ := lift_eq_ok hrest
    exact ⟨hnames, hallowed, hok, rfl⟩

theorem onFiles_of_ok (hnames : p.names.any (Text.holds '\x00') = false)
    (hallowed : host.machine.denies access p = none)
    (hok : operation host.files host.machine.links host.folder p = .ok a) :
    (onFiles access p operation).result host = (.ok a, host) := by
  rw [onFiles, bind_of_ok (checkPath_of_names hnames), bind_of_ok (result_get host), hallowed]
  exact lift_of_ok hok

end

theorem entry?_eq_ok {found : Option Entry}
    (hresult : (Act.entry? p).result host = (.ok found, last)) (bytes : List UInt8) :
    found = some (.file bytes) ↔ ∃ q, host.Finds p q bytes := by
  unfold entry? at hresult
  rw [bind_of_ok (result_get host)] at hresult
  split at hresult
  next hnull =>
    obtain rfl := Except.ok.inj (Prod.mk.inj hresult).1
    apply iff_of_false (by simp)
    rintro ⟨q, hnames, -⟩
    rw [hnull] at hnames
    contradiction
  next hnames =>
    split at hresult
    next => nomatch hresult
    next hspot =>
      obtain rfl := Except.ok.inj (Prod.mk.inj hresult).1
      constructor
      · intro heq
        obtain rfl := Option.some.inj heq
        exact ⟨_, Bool.not_eq_true _ ▸ hnames, hspot⟩
      · rintro ⟨q, -, hother⟩
        rw [(Spot.entry.inj (Except.ok.inj (hspot.symm.trans hother))).2]
    next => nomatch hresult
    next hnone _ =>
      obtain rfl := Except.ok.inj (Prod.mk.inj hresult).1
      apply iff_of_false (by simp)
      rintro ⟨q, -, hspot⟩
      exact hnone q _ hspot

theorem entry?_of_finds {q : Place} {bytes : List UInt8} (hfinds : host.Finds p q bytes)
    (hallowed : host.machine.denies .look p = none) :
    (Act.entry? p).result host = (.ok (some (.file bytes)), host) := by
  unfold entry?
  rw [bind_of_ok (result_get host), hfinds.1, hfinds.2, hallowed]
  rfl

theorem isFile_eq_ok {found : Bool} (hresult : (isFile p).result host = (.ok found, last)) :
    found = true ↔ ∃ q bytes, host.Finds p q bytes := by
  obtain ⟨entry, later, hentry, hrest⟩ := bind_eq_ok hresult
  have hiff := entry?_eq_ok hentry
  split at hrest
  next bytes =>
    obtain rfl := Except.ok.inj (Prod.mk.inj hrest).1
    obtain ⟨q, hfinds⟩ := (hiff bytes).mp rfl
    exact iff_of_true rfl ⟨q, bytes, hfinds⟩
  next hnone =>
    obtain rfl := Except.ok.inj (Prod.mk.inj hrest).1
    apply iff_of_false (by simp)
    rintro ⟨q, bytes, hfinds⟩
    exact hnone bytes ((hiff bytes).mpr ⟨q, hfinds⟩)

/-- What was looked up is what the user may look up. -/
theorem allowed_of_isFile {found : Bool} (hnames : p.names.any (Text.holds '\x00') = false)
    (hresult : (isFile p).result host = (.ok found, last)) :
    host.machine.denies .look p = none := by
  obtain ⟨entry, later, hentry, -⟩ := bind_eq_ok hresult
  unfold entry? at hentry
  rw [bind_of_ok (result_get host), hnames] at hentry
  cases hlook : host.machine.denies .look p with
  | none => rfl
  | some reason =>
      rw [hlook] at hentry
      nomatch hentry

theorem isFile_of_finds {q : Place} {bytes : List UInt8} (hfinds : host.Finds p q bytes)
    (hallowed : host.machine.denies .look p = none) :
    (isFile p).result host = (.ok true, host) := by
  rw [isFile, bind_of_ok (entry?_of_finds hfinds hallowed)]
  rfl

theorem holds_of_finds {q : Place} {bytes : List UInt8} (hfinds : host.Finds p q bytes)
    (hallowed : host.machine.denies .look p = none) :
    (holds p).result host = (.ok true, host) := by
  rw [holds, bind_of_ok (entry?_of_finds hfinds hallowed)]
  rfl

theorem not_finds_of_holds (hresult : (holds p).result host = (.ok false, last)) (q : Place)
    (bytes : List UInt8) : ¬ host.Finds p q bytes := by
  intro hfinds
  obtain ⟨found, later, hfound, hrest⟩ := bind_eq_ok hresult
  obtain rfl := (entry?_eq_ok hfound bytes).mpr ⟨q, hfinds⟩
  nomatch (Prod.mk.inj hrest).1

theorem entry?_congr {other : Host} (hmachine : other.machine = host.machine)
    (hfiles : other.files = host.files) (hfolder : other.folder = host.folder)
    {outcome : Except Failure (Option Entry)}
    (hresult : (Act.entry? p).result host = (outcome, last)) :
    (Act.entry? p).result other = (outcome, other) := by
  unfold entry? at hresult ⊢
  rw [bind_of_ok (result_get host)] at hresult
  rw [bind_of_ok (result_get other), hmachine, hfiles, hfolder]
  split at hresult
  next hnull =>
    obtain ⟨rfl, -⟩ := Prod.mk.inj hresult
    rw [if_pos hnull]
    rfl
  next hnames =>
    rw [if_neg hnames]
    split at hresult
    all_goals
      obtain ⟨rfl, -⟩ := Prod.mk.inj hresult
      rfl

/-- Hosts on the same machine with the same files and the same working folder know the same
files. -/
theorem isFile_congr {other : Host} (hmachine : other.machine = host.machine)
    (hfiles : other.files = host.files) (hfolder : other.folder = host.folder) {found : Bool}
    (hresult : (isFile p).result host = (.ok found, last)) :
    (isFile p).result other = (.ok found, other) := by
  obtain ⟨entry, later, hentry, hrest⟩ := bind_eq_ok hresult
  rw [isFile, bind_of_ok (entry?_congr hmachine hfiles hfolder hentry)]
  split at hrest
  all_goals
    obtain ⟨hfound, -⟩ := Prod.mk.inj hrest
    obtain rfl := Except.ok.inj hfound
    rfl

/-! ## Reading and writing -/

theorem readBytes_eq_ok {bytes : List UInt8}
    (hresult : (readBytes p).result host = (.ok bytes, last)) : ∃ q, host.Finds p q bytes := by
  obtain ⟨hnames, -, hread, -⟩ := onFiles_eq_ok hresult
  unfold Files.read at hread
  split at hread
  next q found hspot =>
    obtain rfl := Except.ok.inj hread
    exact ⟨q, hnames, hspot⟩
  next => contradiction
  next => contradiction
  next => contradiction

theorem readBytes_of_finds {q : Place} {bytes : List UInt8} (hfinds : host.Finds p q bytes)
    (hallowed : host.machine.denies .read p = none) :
    (readBytes p).result host = (.ok bytes, host) := by
  apply onFiles_of_ok hfinds.1 hallowed
  rw [Files.read, hfinds.2]

theorem readText_eq_ok {t : Text} (hresult : (readText p).result host = (.ok t, last)) :
    last = host ∧ ∃ q bytes document, host.Finds p q bytes ∧ Utf8.decode bytes = .ok document ∧
      t = unifyLines document := by
  obtain ⟨bytes, later, hread, hrest⟩ := bind_eq_ok hresult
  obtain ⟨q, hfinds⟩ := readBytes_eq_ok hread
  obtain rfl := (looks_readBytes p).after hread
  obtain ⟨document, _, hlift, hlast⟩ := bind_eq_ok hrest
  obtain ⟨hdecode, rfl⟩ := lift_eq_ok hlift
  obtain ⟨ht, rfl⟩ := Prod.mk.inj hlast
  exact ⟨rfl, q, bytes, document, hfinds, hdecode, (Except.ok.inj ht).symm⟩

theorem readText_of_finds {q : Place} {bytes : List UInt8} {document : Text}
    (hfinds : host.Finds p q bytes) (hallowed : host.machine.denies .read p = none)
    (hdecode : Utf8.decode bytes = .ok document) :
    (readText p).result host = (.ok (unifyLines document), host) := by
  rw [readText, bind_of_ok (readBytes_of_finds hfinds hallowed), bind_of_ok (lift_of_ok hdecode)]
  rfl

theorem writeText_eq_ok {t : Text} (hresult : (writeText p t).result host = (.ok (), last)) :
    p.names.any (Text.holds '\x00') = false ∧ host.machine.denies .write p = none ∧
      ∃ q, host.files.filePlace host.machine.links host.folder p = .ok q ∧
        last = { host with files := host.files.put q (.file (Utf8.encode t)) } := by
  obtain ⟨q, later, hplace, hrest⟩ := bind_eq_ok hresult
  obtain ⟨hnames, hallowed, hok, rfl⟩ := onFiles_eq_ok hplace
  exact ⟨hnames, hallowed, q, hok, (Prod.mk.inj hrest).2.symm⟩

theorem openEnd_eq_ok {q : Place} (hresult : (openEnd p).result host = (.ok q, last)) :
    host.files.filePlace host.machine.links host.folder p = .ok q ∧
      last = { host with files := host.files.append q [] } := by
  obtain ⟨place, later, hplace, hrest⟩ := bind_eq_ok hresult
  obtain ⟨-, -, hok, rfl⟩ := onFiles_eq_ok hplace
  rw [bind_of_ok (result_modify later _)] at hrest
  obtain ⟨hq, rfl⟩ := Prod.mk.inj hrest
  obtain rfl := Except.ok.inj hq
  exact ⟨hok, rfl⟩

end

/-! ## Folders -/

/-- A folder is made where nothing is, or the host stays as it was. -/
theorem result_makeFolder (p : HostPath) (host : Host) :
    ((makeFolder p).result host).2 = host ∨
      ∃ q, host.files.spot host.machine.links host.folder p = .ok (.free q) ∧
        host.files.entry? q = none ∧
        ((makeFolder p).result host).2 = { host with files := host.files.put q .folder } := by
  rw [makeFolder, result_bind]
  rcases hresult : (onFiles .make p Files.makeFolder).result host with ⟨failure | files, later⟩
  · exact .inl ((looks_onFiles .make p _).after hresult)
  · obtain ⟨-, -, hmade, rfl⟩ := onFiles_eq_ok hresult
    obtain ⟨q, hspot, hfree, rfl⟩ := Files.makeFolder_eq_ok hmade
    exact .inr ⟨q, hspot, hfree, rfl⟩

section

variable {relation : Host → Host → Prop} (hrefl : ∀ host, relation host host)
  (htrans : ∀ ⦃host later last⦄, relation host later → relation later last → relation host last)
  (hmake : ∀ p, (makeFolder p).Maintains relation)
include hrefl htrans hmake

/-- What is maintained when one folder is made is maintained when it is made unless it is there. -/
theorem maintains_makeFolderUnless {found : Act Bool} (hfound : found.Looks) (p : HostPath) :
    (makeFolderUnless found p).Maintains relation := by
  apply Maintains.tryCatch htrans (hmake p)
  intro failure
  split
  · apply Maintains.bind htrans (hfound.maintains hrefl)
    intro there
    split
    · exact (looks_pure _).maintains hrefl
    · exact (looks_throw _).maintains hrefl
  · exact (looks_throw _).maintains hrefl

theorem maintains_ensureFolders (p : HostPath) : (ensureFolders p).Maintains relation := by
  unfold ensureFolders
  generalize p.names.length = count
  induction count generalizing p with
  | zero => exact maintains_makeFolderUnless hrefl htrans hmake (looks_isFolder p) p
  | succ count ih =>
      have hone := maintains_makeFolderUnless hrefl htrans hmake (looks_isFolder p) p
      apply Maintains.tryCatch htrans hone
      intro failure
      split
      · exact Maintains.bind htrans (ih p.parent) fun _ => hone
      · exact (looks_throw _).maintains hrefl

end

/-! ## Line ends -/

theorem unifyLines_cons_of_ne {c : Char} (hc : c ≠ '\r') (t : Text) :
    unifyLines (c :: t) = c :: unifyLines t := by
  rw [unifyLines]
  · intro u heq
    exact absurd heq hc
  · exact hc

theorem unifyLines_append {t : Text} (ht : '\r' ∉ t) (u : Text) :
    unifyLines (t ++ u) = t ++ unifyLines u := by
  induction t with
  | nil => rfl
  | cons c t ih =>
      obtain ⟨hc, hrest⟩ := List.ne_and_not_mem_of_not_mem_cons ht
      rw [List.cons_append, unifyLines_cons_of_ne (Ne.symm hc), ih hrest, List.cons_append]

theorem mem_unifyLines {c : Char} (hc : c ≠ '\r') (hline : c ≠ '\n') {t : Text} (ht : c ∈ t) :
    c ∈ unifyLines t := by
  induction t using unifyLines.induct with
  | case1 t ih =>
      rw [unifyLines]
      simp only [List.mem_cons, hc, hline, false_or] at ht
      exact List.mem_cons_of_mem _ (ih ht)
  | case2 t hnot ih =>
      rw [unifyLines]
      · simp only [List.mem_cons, hc, false_or] at ht
        exact List.mem_cons_of_mem _ (ih ht)
      · exact hnot
  | case3 d t hone htwo ih =>
      rw [unifyLines_cons_of_ne htwo]
      rcases List.mem_cons.mp ht with rfl | ht
      · exact List.mem_cons_self
      · exact List.mem_cons_of_mem _ (ih ht)
  | case4 => contradiction

end Act

/-! ## Log records -/

namespace Host

variable (host : Host) (r : LogRecord)

@[simp] theorem machine_record : (host.record r).machine = host.machine := by
  unfold record
  split <;> rfl

@[simp] theorem folder_record : (host.record r).folder = host.folder := by
  unfold record
  split <;> rfl

@[simp] theorem environment_record : (host.record r).environment = host.environment := by
  unfold record
  split <;> rfl

@[simp] theorem homes_record : (host.record r).homes = host.homes := by
  unfold record
  split <;> rfl

@[simp] theorem config?_record : (host.record r).config? = host.config? := by
  unfold record
  split <;> rfl

@[simp] theorem logger_record : (host.record r).logger = host.logger := by
  unfold record
  split <;> rfl

theorem files_record_of_none (hlog : host.logger.file? = none) :
    (host.record r).files = host.files := by
  unfold record
  split
  · rfl
  · simp [hlog]

theorem files_record_of_some (hsteady : host.machine.rotation? = none) {place : Place}
    {level : Level} (hlog : host.logger.file? = some (place, level)) (hlevel : level ≤ r.level)
    (hthreshold : Logger.threshold ≤ r.level) :
    (host.record r).files = host.files.append place (Utf8.encode (r.line host.time)) := by
  unfold record
  rw [if_neg (Int.not_lt.mpr hthreshold)]
  simp [hlog, hlevel, hsteady, Files.addLine]

/-- A record changes no file but the log file, to which it adds a line. -/
theorem files_record
    (hsteady : ∀ place level, host.logger.file? = some (place, level) →
      host.machine.rotation? = none) : (host.record r).files = host.files ∨
    ∃ place level line, host.logger.file? = some (place, level) ∧
      (host.record r).files = host.files.append place line := by
  unfold record
  split
  · exact .inl rfl
  · cases hlog : host.logger.file? with
    | none => exact .inl rfl
    | some target =>
        obtain ⟨place, level⟩ := target
        have hnever := hsteady place level hlog
        by_cases hlevel : level ≤ r.level
        · exact .inr ⟨place, level, _, rfl, by simp [hlevel, hnever, Files.addLine]; rfl⟩
        · exact .inl (by simp [hlevel])

end Host

end LexicalPaths
