import LexicalPaths.Host.Files
import LexicalPaths.Proofs.Host.Links

/-!
# Walks through files that change

A walk looks at folders on its way and at one entry at its end.  So it leads to the same end when
folders are added, when the entry at its end is written, and when files elsewhere are.  In a tree,
where every entry lies in a folder, it cannot have missed what it finds later, unless it once came
to a missing folder and would have left that again.
-/

namespace LexicalPaths

theorem lookup_filter_of_ne {α β : Type} [BEq α] [LawfulBEq α] (entries : List (α × β))
    {key other : α} (hne : other ≠ key) :
    (entries.filter fun e => e.1 != key).lookup other = entries.lookup other := by
  induction entries with
  | nil => rfl
  | cons e entries ih =>
      obtain ⟨at_, entry⟩ := e
      by_cases hat : at_ = key
      · subst hat
        have hbeq : (other == at_) = false := beq_false_of_ne hne
        rw [List.filter_cons_of_neg (by simp), ih, List.lookup_cons, hbeq]
      · rw [List.filter_cons_of_pos (by simpa using hat), List.lookup_cons, List.lookup_cons, ih]

namespace Files

/-! ## Entries -/

theorem entry?_put_self (files : Files) {place : Place} (hplace : place ≠ []) (entry : Entry) :
    Files.entry? (files.put place entry) place = some entry := by
  simp [Files.entry?, put, hplace]

theorem entry?_put_of_ne (files : Files) {place other : Place} (hne : other ≠ place)
    (entry : Entry) : Files.entry? (files.put place entry) other = files.entry? other := by
  unfold entry?
  split
  · rfl
  · have hbeq : (other == place) = false := beq_false_of_ne hne
    rw [put, List.lookup_cons, hbeq]
    exact lookup_filter_of_ne files hne

/-- Every entry lies in a folder. -/
def IsTree (files : Files) : Prop :=
  ∀ (place : Place) (name : Text), files.entry? (place ++ [name]) ≠ none →
    files.entry? place = some .folder

theorem IsTree.dropLast {files : Files} (htree : files.IsTree) {place : Place}
    (hplace : files.entry? place = some .folder) :
    files.entry? place.dropLast = some .folder := by
  rcases List.eq_nil_or_concat place with rfl | ⟨parent, name, rfl⟩
  · rfl
  · rw [List.concat_eq_append, List.dropLast_concat]
    apply htree parent name
    rw [← List.concat_eq_append, hplace]
    simp

/-- What lies below an entry makes it a folder. -/
theorem IsTree.folder_of_append {files : Files} (htree : files.IsTree) {place rest : Place}
    (hne : rest ≠ []) (hentry : files.entry? (place ++ rest) ≠ none) :
    files.entry? place = some .folder := by
  induction rest generalizing place with
  | nil => contradiction
  | cons name rest ih =>
      rw [List.append_cons] at hentry
      cases rest with
      | nil => exact htree place name (by simpa using hentry)
      | cons next rest =>
          apply htree place name
          rw [ih (by simp) hentry]
          simp

/-! ## Growth -/

/-- The files have grown: what there was is left as it was, and new files hold bytes of the given
kind. -/
structure Grown (kind : List UInt8 → Prop) (files later : Files) : Prop where
  isTree : files.IsTree → later.IsTree
  kept : ∀ {place : Place} {entry : Entry}, files.entry? place = some entry →
    later.entry? place = some entry
  new : ∀ {place : Place} {bytes : List UInt8}, later.entry? place = some (.file bytes) →
    files.entry? place = some (.file bytes) ∨ files.entry? place = none ∧ kind bytes

namespace Grown

variable {kind : List UInt8 → Prop}

theorem refl (files : Files) : Grown kind files files where
  isTree := id
  kept := id
  new := .inl

theorem trans {files later last : Files} (hone : Grown kind files later)
    (htwo : Grown kind later last) : Grown kind files last where
  isTree := htwo.isTree ∘ hone.isTree
  kept := fun hentry => htwo.kept (hone.kept hentry)
  new := by
    intro place bytes hlast
    rcases htwo.new hlast with hlater | ⟨hnone, hkind⟩
    · exact hone.new hlater
    · refine .inr ⟨?_, hkind⟩
      cases hentry : files.entry? place with
      | none => rfl
      | some entry =>
          rw [hone.kept hentry] at hnone
          contradiction

/-- An entry is put into a folder. -/
theorem put {files : Files} {parent : Place} {name : Text} {entry : Entry}
    (hparent : files.entry? parent = some .folder)
    (hfree : files.entry? (parent ++ [name]) = none)
    (hentry : ∀ bytes, entry = .file bytes → kind bytes) :
    Grown kind files (files.put (parent ++ [name]) entry) where
  isTree := by
    intro htree place other hother
    have hself : ∀ folder, files.entry? folder = some .folder →
        Files.entry? (files.put (parent ++ [name]) entry) folder = some .folder := by
      intro folder hfolder
      rw [entry?_put_of_ne]
      · exact hfolder
      · rintro rfl
        rw [hfree] at hfolder
        contradiction
    by_cases hsame : place ++ [other] = parent ++ [name]
    · obtain ⟨rfl, -⟩ := List.append_inj' hsame rfl
      exact hself place hparent
    · rw [entry?_put_of_ne _ hsame] at hother
      exact hself place (htree place other hother)
  kept := by
    intro place found hplace
    rw [entry?_put_of_ne]
    · exact hplace
    · rintro rfl
      rw [hfree] at hplace
      contradiction
  new := by
    intro place bytes hplace
    by_cases hsame : place = parent ++ [name]
    · subst hsame
      rw [entry?_put_self _ (by simp)] at hplace
      exact .inr ⟨hfree, hentry bytes (Option.some.inj hplace)⟩
    · rw [entry?_put_of_ne _ hsame] at hplace
      exact .inl hplace

/-- An entry is put where it is already. -/
theorem put_same {files : Files} {place : Place} {entry : Entry} (hne : place ≠ [])
    (hplace : files.entry? place = some entry) : Grown kind files (files.put place entry) := by
  have hsame : ∀ other, Files.entry? (files.put place entry) other = files.entry? other := by
    intro other
    by_cases heq : other = place
    · rw [heq, entry?_put_self _ hne, hplace]
    · exact entry?_put_of_ne _ heq entry
  refine ⟨fun htree other name hother => ?_, fun hother => ?_, fun hother => .inl ?_⟩
  · rw [hsame] at hother ⊢
    exact htree other name hother
  · rw [hsame, hother]
  · rw [← hsame, hother]

end Grown

/-- The file at a place is written anew. -/
theorem IsTree.put_file {files : Files} (htree : files.IsTree) {place : Place}
    {found bytes : List UInt8} (hplace : files.entry? place = some (.file found)) :
    (files.put place (.file bytes)).IsTree := by
  have hne : place ≠ [] := by
    rintro rfl
    nomatch hplace
  have hfolder : ∀ folder, files.entry? folder = some .folder →
      Files.entry? (files.put place (.file bytes)) folder = some .folder := by
    intro folder hfolder
    rw [entry?_put_of_ne]
    · exact hfolder
    · rintro rfl
      rw [hplace] at hfolder
      nomatch hfolder
  intro other name hother
  by_cases hsame : other ++ [name] = place
  · refine hfolder other (htree other name ?_)
    rw [hsame, hplace]
    simp
  · rw [entry?_put_of_ne _ hsame] at hother
    exact hfolder other (htree other name hother)

/-! ## Walks -/

theorem walk_eq_ite (files : Files) (place : Place) (name : Text) (rest : List Text) :
    files.walk place (name :: rest) =
      if name = ['.', '.'] then files.walk place.dropLast rest
      else if isLongName name then .error .nameTooLong
      else
        match files.entry? (place ++ [name]), rest with
        | some .folder, rest => files.walk (place ++ [name]) rest
        | some (.file bytes), [] => .ok (.entry (place ++ [name]) (.file bytes))
        | some (.file _), _ :: _ => .error .notFolder
        | none, [] => .ok (.free (place ++ [name]))
        | none, _ :: _ => .error .missing :=
  walk.eq_def files place (name :: rest)

theorem walk_parent (files : Files) (place : Place) (rest : List Text) :
    files.walk place (['.', '.'] :: rest) = files.walk place.dropLast rest := by
  rw [walk_eq_ite, if_pos rfl]

theorem walk_cons {files : Files} {place : Place} {name : Text} (hup : name ≠ ['.', '.'])
    (hlong : isLongName name = false) (rest : List Text) :
    files.walk place (name :: rest) =
      match files.entry? (place ++ [name]), rest with
      | some .folder, rest => files.walk (place ++ [name]) rest
      | some (.file bytes), [] => .ok (.entry (place ++ [name]) (.file bytes))
      | some (.file _), _ :: _ => .error .notFolder
      | none, [] => .ok (.free (place ++ [name]))
      | none, _ :: _ => .error .missing := by
  rw [walk_eq_ite, if_neg hup, if_neg (by simp [hlong])]

theorem not_isLongName_of_walk {files : Files} {place : Place} {name : Text} {rest : List Text}
    {spot : Spot} (hup : name ≠ ['.', '.']) (hwalk : files.walk place (name :: rest) = .ok spot) :
    isLongName name = false := by
  rw [walk_eq_ite, if_neg hup] at hwalk
  split at hwalk
  · contradiction
  next hlong => simpa using hlong

/-- A walk that succeeds goes on through a folder, or ends at a file or at a free name. -/
theorem walk_cons_cases {files : Files} {place : Place} {name : Text} {rest : List Text}
    {spot : Spot} (hup : name ≠ ['.', '.']) (hwalk : files.walk place (name :: rest) = .ok spot) :
    (files.entry? (place ++ [name]) = some .folder ∧
        files.walk (place ++ [name]) rest = .ok spot) ∨
      rest = [] ∧
        ((∃ bytes, spot = .entry (place ++ [name]) (.file bytes) ∧
            files.entry? (place ++ [name]) = some (.file bytes)) ∨
          spot = .free (place ++ [name]) ∧ files.entry? (place ++ [name]) = none) := by
  rw [walk_cons hup (not_isLongName_of_walk hup hwalk)] at hwalk
  split at hwalk
  next hentry => exact .inl ⟨hentry, hwalk⟩
  next bytes hentry => exact .inr ⟨rfl, .inl ⟨bytes, (Except.ok.inj hwalk).symm, hentry⟩⟩
  next => contradiction
  next hentry => exact .inr ⟨rfl, .inr ⟨(Except.ok.inj hwalk).symm, hentry⟩⟩
  next => contradiction

theorem walk_cons_entry_cases {files : Files} {place q : Place} {name : Text} {rest : List Text}
    {entry : Entry} (hup : name ≠ ['.', '.'])
    (hwalk : files.walk place (name :: rest) = .ok (.entry q entry)) :
    (files.entry? (place ++ [name]) = some .folder ∧
        files.walk (place ++ [name]) rest = .ok (.entry q entry)) ∨
      rest = [] ∧ q = place ++ [name] ∧
        ∃ bytes, entry = .file bytes ∧ files.entry? q = some (.file bytes) := by
  rcases walk_cons_cases hup hwalk with hfolder | ⟨hnil, ⟨bytes, heq, hentry⟩ | ⟨heq, -⟩⟩
  · exact .inl hfolder
  · obtain ⟨rfl, rfl⟩ := Spot.entry.inj heq
    exact .inr ⟨hnil, rfl, bytes, rfl, hentry⟩
  · nomatch heq

theorem walk_of_folder {files : Files} {place : Place} {name : Text} (hup : name ≠ ['.', '.'])
    (hlong : isLongName name = false) (hentry : files.entry? (place ++ [name]) = some .folder)
    (rest : List Text) : files.walk place (name :: rest) = files.walk (place ++ [name]) rest := by
  rw [walk_cons hup hlong, hentry]

theorem walk_of_file {files : Files} {place : Place} {name : Text} {bytes : List UInt8}
    (hup : name ≠ ['.', '.']) (hlong : isLongName name = false)
    (hentry : files.entry? (place ++ [name]) = some (.file bytes)) :
    files.walk place [name] = .ok (.entry (place ++ [name]) (.file bytes)) := by
  rw [walk_cons hup hlong, hentry]

/-- Where a walk can end: at a folder, at a file, or at a free name in a folder. -/
theorem walk_cases {files : Files} (htree : files.IsTree) {place : Place} {names : List Text}
    {spot : Spot} (hplace : files.entry? place = some .folder)
    (hwalk : files.walk place names = .ok spot) :
    (∃ q, spot = .entry q .folder) ∨
      ∃ parent name, files.entry? parent = some .folder ∧
        ((∃ bytes, spot = .entry (parent ++ [name]) (.file bytes) ∧
            files.entry? (parent ++ [name]) = some (.file bytes)) ∨
          spot = .free (parent ++ [name]) ∧ files.entry? (parent ++ [name]) = none) := by
  induction names generalizing place with
  | nil => exact .inl ⟨place, (Except.ok.inj hwalk).symm⟩
  | cons name rest ih =>
      by_cases hup : name = ['.', '.']
      · subst hup
        rw [walk_parent] at hwalk
        exact ih (htree.dropLast hplace) hwalk
      · rcases walk_cons_cases hup hwalk with ⟨hentry, hrest⟩ | ⟨-, hend⟩
        · exact ih hentry hrest
        · exact .inr ⟨place, name, hplace, hend⟩

/-- A walk that succeeds ends where its names point lexically. -/
theorem place_of_walk {files : Files} {place : Place} {names : List Text} {spot : Spot}
    (hwalk : files.walk place names = .ok spot) :
    (∃ entry, spot = .entry (HostPath.collapse place names) entry) ∨
      spot = .free (HostPath.collapse place names) ∧
        files.entry? (HostPath.collapse place names) = none := by
  induction names generalizing place with
  | nil => exact .inl ⟨.folder, (Except.ok.inj hwalk).symm⟩
  | cons name rest ih =>
      unfold HostPath.collapse
      by_cases hup : name = ['.', '.']
      · subst hup
        rw [walk_parent] at hwalk
        rw [if_pos rfl]
        exact ih hwalk
      · rw [if_neg hup]
        rcases walk_cons_cases hup hwalk with ⟨-, hrest⟩ | ⟨rfl, hend⟩
        · exact ih hrest
        · rcases hend with ⟨bytes, rfl, -⟩ | ⟨rfl, hfree⟩
          · exact .inl ⟨.file bytes, rfl⟩
          · exact .inr ⟨rfl, hfree⟩

/-- A walk to an entry leads there as well when the files have grown. -/
theorem Grown.walk {kind : List UInt8 → Prop} {files later : Files}
    (hgrown : Grown kind files later) {place q : Place} {names : List Text} {entry : Entry}
    (hwalk : files.walk place names = .ok (.entry q entry)) :
    later.walk place names = .ok (.entry q entry) := by
  induction names generalizing place with
  | nil => exact hwalk
  | cons name rest ih =>
      by_cases hup : name = ['.', '.']
      · subst hup
        rw [walk_parent] at hwalk ⊢
        exact ih hwalk
      · have hlong := not_isLongName_of_walk hup hwalk
        rcases walk_cons_entry_cases hup hwalk with
          ⟨hentry, hrest⟩ | ⟨rfl, rfl, bytes, rfl, hentry⟩
        · rw [walk_of_folder hup hlong (hgrown.kept hentry)]
          exact ih hrest
        · exact walk_of_file hup hlong (hgrown.kept hentry)

/-- Without `..` on the way, a walk leads to where its names point. -/
theorem walk_place {files : Files} {place q : Place} {names : List Text} {entry : Entry}
    (hup : ['.', '.'] ∉ names) (hwalk : files.walk place names = .ok (.entry q entry)) :
    q = place ++ names := by
  induction names generalizing place with
  | nil =>
      obtain ⟨rfl, -⟩ := Spot.entry.inj (Except.ok.inj hwalk)
      simp
  | cons name rest ih =>
      obtain ⟨hname, hrest⟩ := List.ne_and_not_mem_of_not_mem_cons hup
      rcases walk_cons_entry_cases (Ne.symm hname) hwalk with ⟨-, hwalk⟩ | ⟨rfl, rfl, -⟩
      · rw [ih hrest hwalk, List.append_assoc, List.singleton_append]
      · rfl

/-- A walk that finds a file later has found it before if it was there, except that it may have come
to a missing folder and left it again. -/
theorem Grown.walk_of_later {kind : List UInt8 → Prop} {files later : Files}
    (hgrown : Grown kind files later) (htree : files.IsTree) {place q : Place}
    {names : List Text} {bytes : List UInt8}
    (hlater : later.walk place names = .ok (.entry q (.file bytes)))
    (hthere : files.entry? q = some (.file bytes))
    (hway : files.walk place names = .error .missing → ['.', '.'] ∉ names) :
    files.walk place names = .ok (.entry q (.file bytes)) := by
  induction names generalizing place with
  | nil => nomatch (Spot.entry.inj (Except.ok.inj hlater)).2
  | cons name rest ih =>
      by_cases hup : name = ['.', '.']
      · subst hup
        rw [walk_parent] at hlater hway ⊢
        exact ih hlater fun hmissing => absurd List.mem_cons_self (hway hmissing)
      · have hlong := not_isLongName_of_walk hup hlater
        rcases walk_cons_entry_cases hup hlater with ⟨hfolder, hrest⟩ | ⟨rfl, rfl, -⟩
        · cases hentry : files.entry? (place ++ [name]) with
          | some entry =>
              rw [hgrown.kept hentry] at hfolder
              obtain rfl := Option.some.inj hfolder
              rw [walk_of_folder hup hlong hentry] at hway ⊢
              exact ih hrest fun hmissing hmem => hway hmissing (List.mem_cons_of_mem _ hmem)
          | none =>
              cases rest with
              | nil => nomatch (Spot.entry.inj (Except.ok.inj hrest)).2
              | cons next rest =>
                  have hmissing : files.walk place (name :: next :: rest) = .error .missing := by
                    rw [walk_cons hup hlong, hentry]
                  have hno := hway hmissing
                  have hq := walk_place (fun hmem => hno (List.mem_cons_of_mem _ hmem)) hrest
                  -- the folder is new, so nothing can have been below it
                  have hfound : files.entry? (place ++ [name]) = some .folder :=
                    htree.folder_of_append (List.cons_ne_nil next rest)
                      (by rw [← hq, hthere]; simp)
                  rw [hentry] at hfound
                  contradiction
        · exact walk_of_file hup hlong hthere

/-- Writing the entry at the end of a walk does not change where it leads. -/
theorem walk_put {files : Files} {place q : Place} {names : List Text} {spot : Spot}
    {bytes : List UInt8} (hq : files.entry? q ≠ some .folder)
    (hspot : spot = .free q ∨ ∃ found, spot = .entry q (.file found))
    (hwalk : files.walk place names = .ok spot) :
    (files.put q (.file bytes)).walk place names = .ok (.entry q (.file bytes)) := by
  have hne : q ≠ [] := by
    rintro rfl
    exact hq rfl
  induction names generalizing place with
  | nil =>
      obtain rfl := Except.ok.inj hwalk
      rcases hspot with hspot | ⟨found, hspot⟩
      · nomatch hspot
      · nomatch (Spot.entry.inj hspot).2
  | cons name rest ih =>
      by_cases hup : name = ['.', '.']
      · subst hup
        rw [walk_parent] at hwalk ⊢
        exact ih hwalk
      · have hlong := not_isLongName_of_walk hup hwalk
        rcases walk_cons_cases hup hwalk with ⟨hentry, hrest⟩ | ⟨rfl, hend⟩
        · have hother : place ++ [name] ≠ q := by
            rintro rfl
            exact hq hentry
          have hkept : Files.entry? (files.put q (.file bytes)) (place ++ [name]) =
              some .folder := by
            rw [entry?_put_of_ne _ hother, hentry]
          rw [walk_of_folder hup hlong hkept]
          exact ih hrest
        · obtain rfl : q = place ++ [name] := by
            rcases hend with ⟨_, rfl, -⟩ | ⟨rfl, -⟩
            · rcases hspot with hspot | ⟨_, hspot⟩
              · nomatch hspot
              · exact (Spot.entry.inj hspot).1.symm
            · rcases hspot with hspot | ⟨_, hspot⟩
              · exact (Spot.free.inj hspot).symm
              · nomatch hspot
          exact walk_of_file hup hlong (entry?_put_self files hne _)

/-- Writing another file does not change where a walk leads. -/
theorem walk_put_of_ne {files : Files} {place q other : Place} {names : List Text}
    {bytes : List UInt8} {entry : Entry} (hne : q ≠ other)
    (hother : files.entry? other ≠ some .folder)
    (hwalk : files.walk place names = .ok (.entry q entry)) :
    (files.put other (.file bytes)).walk place names = .ok (.entry q entry) := by
  induction names generalizing place with
  | nil => exact hwalk
  | cons name rest ih =>
      by_cases hup : name = ['.', '.']
      · subst hup
        rw [walk_parent] at hwalk ⊢
        exact ih hwalk
      · have hlong := not_isLongName_of_walk hup hwalk
        rcases walk_cons_entry_cases hup hwalk with
          ⟨hentry, hrest⟩ | ⟨rfl, rfl, found, rfl, hentry⟩
        · have hfolder : place ++ [name] ≠ other := by
            rintro rfl
            exact hother hentry
          have hkept : Files.entry? (files.put other (.file bytes)) (place ++ [name]) =
              some .folder := by
            rw [entry?_put_of_ne _ hfolder, hentry]
          rw [walk_of_folder hup hlong hkept]
          exact ih hrest
        · apply walk_of_file hup hlong
          rw [entry?_put_of_ne _ hne, hentry]

/-! ## Spots -/

section

variable {files later : Files} {links : Links} {folder : Place} {p : HostPath} {last : Spot}

theorem entry?_start (hfolder : files.entry? folder = some .folder) (p : HostPath) :
    files.entry? (p.start folder) = some .folder := by
  unfold HostPath.start
  split
  · rfl
  · exact hfolder

theorem spot_eq_ok_iff :
    files.spot links folder p = .ok last ↔
      ¬ maxPath < (Utf8.encode p.toText).length ∧
        (links.way (p.start folder) p.names).ends = true ∧
        files.walk (links.way (p.start folder) p.names).start
          (links.way (p.start folder) p.names).names = .ok last := by
  unfold Files.spot
  split
  next hlong => simp [hlong]
  next hlong =>
    simp only [hlong, not_false_eq_true, true_and]
    unfold spotAlong
    split
    next other hwalk =>
      rw [hwalk]
      split
      next hends => simp [hends]
      next hends => simp [hends]
    next refusal hwalk => simp [hwalk]

/-- Without links a path is followed name by name. -/
theorem spot_nil_eq_ok_iff :
    files.spot [] folder p = .ok last ↔
      ¬ maxPath < (Utf8.encode p.toText).length ∧
        files.walk (p.start folder) p.names = .ok last := by
  simp [spot_eq_ok_iff]

theorem walk_ne_loop {place : Place} {names : List Text} :
    files.walk place names ≠ .error .loop := by
  induction names generalizing place with
  | nil => simp [walk]
  | cons name rest ih =>
      unfold walk
      split
      · exact ih
      · split
        · simp
        · split <;> simp [ih]

theorem spot_nil_ne_loop : files.spot [] folder p ≠ .error .loop := by
  unfold Files.spot spotAlong
  rw [Links.way_nil]
  split
  · simp
  · split
    next => simp
    next refusal hwalk =>
      intro heq
      obtain rfl := Except.error.inj heq
      exact walk_ne_loop hwalk

theorem entry?_start_way (hfolder : files.entry? folder = some .folder) (links : Links)
    (p : HostPath) :
    files.entry? (links.way (p.start folder) p.names).start = some .folder := by
  rcases links.start_way (p.start folder) p.names with hstart | hstart
  · rw [hstart]
    exact entry?_start hfolder p
  · rw [hstart]
    rfl

theorem spot_cases (htree : files.IsTree) (hfolder : files.entry? folder = some .folder)
    (hspot : files.spot links folder p = .ok last) :
    (∃ q, last = .entry q .folder) ∨
      ∃ parent name, files.entry? parent = some .folder ∧
        ((∃ bytes, last = .entry (parent ++ [name]) (.file bytes) ∧
            files.entry? (parent ++ [name]) = some (.file bytes)) ∨
          last = .free (parent ++ [name]) ∧ files.entry? (parent ++ [name]) = none) :=
  walk_cases htree (entry?_start_way hfolder links p) (spot_eq_ok_iff.mp hspot).2.2

theorem entry?_of_spot_free {q : Place} (hspot : files.spot links folder p = .ok (.free q)) :
    files.entry? q = none := by
  rcases place_of_walk (spot_eq_ok_iff.mp hspot).2.2 with ⟨_, heq⟩ | ⟨heq, hfree⟩
  · contradiction
  · rw [Spot.free.inj heq]
    exact hfree

theorem place_of_spot (hspot : files.spot [] folder p = .ok last) :
    (∃ entry, last = .entry (p.place folder) entry) ∨
      last = .free (p.place folder) ∧ files.entry? (p.place folder) = none :=
  place_of_walk (spot_nil_eq_ok_iff.mp hspot).2

theorem makeFolder_eq_ok (hmade : files.makeFolder links folder p = .ok later) :
    ∃ q, files.spot links folder p = .ok (.free q) ∧ files.entry? q = none ∧
      later = files.put q .folder := by
  unfold makeFolder at hmade
  split at hmade
  next => contradiction
  next =>
    split at hmade
    next q hspot =>
      obtain rfl := Except.ok.inj hmade
      exact ⟨q, hspot, entry?_of_spot_free hspot, rfl⟩
    next => contradiction
    next => contradiction

theorem filePlace_eq {q : Place} (hplace : files.filePlace [] folder p = .ok q) :
    q = p.place folder := by
  unfold filePlace at hplace
  split at hplace
  next place hspot =>
    obtain rfl := Except.ok.inj hplace
    rcases place_of_spot hspot with ⟨_, heq⟩ | ⟨heq, -⟩
    · contradiction
    · exact Spot.free.inj heq
  next place bytes hspot =>
    obtain rfl := Except.ok.inj hplace
    rcases place_of_spot hspot with ⟨_, heq⟩ | ⟨heq, -⟩
    · exact (Spot.entry.inj heq).1
    · contradiction
  next => contradiction
  next => contradiction

theorem Grown.spot {kind : List UInt8 → Prop} (hgrown : Grown kind files later) {q : Place}
    {entry : Entry} (hspot : files.spot links folder p = .ok (.entry q entry)) :
    later.spot links folder p = .ok (.entry q entry) := by
  rw [spot_eq_ok_iff] at hspot ⊢
  exact ⟨hspot.1, hspot.2.1, hgrown.walk hspot.2.2⟩

theorem Grown.spot_of_later {kind : List UInt8 → Prop} (hgrown : Grown kind files later)
    (htree : files.IsTree) {q : Place} {bytes : List UInt8}
    (hlater : later.spot [] folder p = .ok (.entry q (.file bytes)))
    (hthere : files.entry? q = some (.file bytes))
    (hway : files.spot [] folder p = .error .missing → ['.', '.'] ∉ p.names) :
    files.spot [] folder p = .ok (.entry q (.file bytes)) := by
  rw [spot_nil_eq_ok_iff] at hlater ⊢
  obtain ⟨hshort, hwalk⟩ := hlater
  refine ⟨hshort, hgrown.walk_of_later htree hwalk hthere fun hmissing => hway ?_⟩
  unfold Files.spot spotAlong
  rw [if_neg hshort, Links.way_nil, hmissing]

theorem spot_put {q : Place} {bytes : List UInt8} (hq : files.entry? q ≠ some .folder)
    (hspot : files.spot links folder p = .ok (.free q) ∨
      ∃ found, files.spot links folder p = .ok (.entry q (.file found))) :
    (files.put q (.file bytes)).spot links folder p = .ok (.entry q (.file bytes)) := by
  simp only [spot_eq_ok_iff] at hspot ⊢
  rcases hspot with ⟨hshort, hends, hwalk⟩ | ⟨found, hshort, hends, hwalk⟩
  · exact ⟨hshort, hends, walk_put hq (.inl rfl) hwalk⟩
  · exact ⟨hshort, hends, walk_put hq (.inr ⟨found, rfl⟩) hwalk⟩

theorem spot_put_of_ne {q other : Place} {bytes : List UInt8} {entry : Entry} (hne : q ≠ other)
    (hother : files.entry? other ≠ some .folder)
    (hspot : files.spot links folder p = .ok (.entry q entry)) :
    (files.put other (.file bytes)).spot links folder p = .ok (.entry q entry) := by
  rw [spot_eq_ok_iff] at hspot ⊢
  exact ⟨hspot.1, hspot.2.1, walk_put_of_ne hne hother hspot.2.2⟩

/-- The place of a file that can be written: it is in a folder, and free or the place of a file. -/
theorem filePlace_cases (htree : files.IsTree) {q : Place}
    (hfolder : files.entry? folder = some .folder)
    (hplace : files.filePlace links folder p = .ok q) :
    ∃ parent name, q = parent ++ [name] ∧ files.entry? parent = some .folder ∧
      ((∃ bytes, files.spot links folder p = .ok (.entry q (.file bytes)) ∧
          files.entry? q = some (.file bytes)) ∨
        files.spot links folder p = .ok (.free q) ∧ files.entry? q = none) := by
  unfold filePlace at hplace
  split at hplace
  next place hspot =>
    obtain rfl := Except.ok.inj hplace
    rcases spot_cases htree hfolder hspot with ⟨_, heq⟩ | ⟨parent, name, hparent, h | h⟩
    · contradiction
    · obtain ⟨_, heq, -⟩ := h
      contradiction
    · obtain ⟨heq, hfree⟩ := h
      obtain rfl := Spot.free.inj heq
      exact ⟨parent, name, rfl, hparent, .inr ⟨hspot, hfree⟩⟩
  next place bytes hspot =>
    obtain rfl := Except.ok.inj hplace
    rcases spot_cases htree hfolder hspot with ⟨_, heq⟩ | ⟨parent, name, hparent, h | h⟩
    · nomatch (Spot.entry.inj heq).2
    · obtain ⟨found, heq, hentry⟩ := h
      obtain ⟨rfl, hfile⟩ := Spot.entry.inj heq
      obtain rfl := Entry.file.inj hfile
      exact ⟨parent, name, rfl, hparent, .inl ⟨bytes, hspot, hentry⟩⟩
    · nomatch h.1
  next => contradiction
  next => contradiction

end

end Files

end LexicalPaths
