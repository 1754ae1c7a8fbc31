import LexicalPaths.Proofs.Path.Rereading

/-!
# Walks

Whoever stands in a folder and follows names ends in a folder.  A folder is known by the names that
lead to it from the top, where `..` stays; so a walk is a trip that is taken from somewhere, and the
names that normalization keeps take the same walk as all names do.  No shorter list of names does,
and no other one of their form: walks from the top tell the way down, and a walk from a deep folder
tells the way up.
-/

namespace LexicalPaths.Path

open Separator

/-- The folder that a name leads to.  A folder is the names on the way to it, the latest first. -/
def stepInto (folder : List Text) (n : Text) : List Text :=
  if n = parentName then folder.tail
  else if n = [] ∨ n = selfName then folder
  else n :: folder

/-- The folder that names lead to, one after the other. -/
def walk (folder names : List Text) : List Text :=
  names.foldl stepInto folder

/-- The names on the way to a folder are names that go down. -/
def IsFolder (folder : List Text) : Prop :=
  ∀ n ∈ folder, IsName n ∧ IsOrdinary n

/-- A path is followed from the top if it is absolute, and from any folder if it is not. -/
def StartsFrom (p : Path) (folder : List Text) : Prop :=
  p.isAbsolute = true → folder = []

/-- Where a trip ends that starts in a folder. -/
def Trip.arrive (t : Trip) (folder : List Text) : List Text :=
  t.downs ++ folder.drop t.ups

theorem Trip.arrive_mul (s t : Trip) (folder : List Text) :
    (s * t).arrive folder = t.arrive (s.arrive folder) := by
  simp [arrive, List.drop_append, List.drop_drop, List.append_assoc]

theorem stepInto_eq (folder : List Text) (n : Text) :
    stepInto folder n = (Trip.ofName n).arrive folder := by
  unfold stepInto Trip.ofName
  split
  · simp [Trip.arrive]
  · split
    · simp [Trip.arrive]
    · simp [Trip.arrive]

theorem walk_eq (folder names : List Text) : walk folder names = (trip names).arrive folder := by
  unfold walk
  induction names generalizing folder with
  | nil => rfl
  | cons n names ih => rw [List.foldl_cons, ih, stepInto_eq, trip_cons, Trip.arrive_mul]

theorem walk_nil (names : List Text) : walk [] names = (trip names).downs := by
  simp [walk_eq, Trip.arrive]

/-- The names that remain lead to where all names lead. -/
theorem walk_remainingNames {absolute : Bool} {folder : List Text}
    (hstart : absolute = true → folder = []) (names : List Text) :
    walk folder (remainingNames absolute names) = walk folder names := by
  cases absolute with
  | false => rw [walk_eq, walk_eq, trip_remainingNames_false]
  | true =>
      have hord : ∀ n ∈ (trip names).downs.reverse, IsOrdinary n := fun n hn =>
        (mem_downs_trip (List.mem_reverse.mp hn)).2
      rw [hstart rfl, walk_nil, walk_nil, remainingNames_true, trip_of_forall_isOrdinary hord,
        List.reverse_reverse]

theorem isFolder_replicate (k : Nat) : IsFolder (List.replicate k ['a']) := by
  intro n hn
  obtain rfl := List.eq_of_mem_replicate hn
  exact ⟨by simp [IsName, isSeparator, portable, backslash], by decide, by decide, by decide⟩

/-- From a folder that is deep enough one sees how far a trip goes up. -/
theorem ups_eq_of_walk {names more : List Text} (hdowns : (trip names).downs = (trip more).downs)
    (hwalk : ∀ folder, IsFolder folder → walk folder names = walk folder more) :
    (trip names).ups = (trip more).ups := by
  have hdeep := hwalk _ (isFolder_replicate ((trip names).ups + (trip more).ups))
  rw [walk_eq, walk_eq, Trip.arrive, Trip.arrive, hdowns] at hdeep
  have hlength := congrArg List.length hdeep
  simp only [List.length_append, List.length_drop, List.length_replicate] at hlength
  omega

/-- The names that remain are a normal form of the walks. -/
theorem remainingNames_eq_iff (absolute : Bool) (names more : List Text) :
    remainingNames absolute names = remainingNames absolute more ↔
      ∀ folder, (absolute = true → folder = []) → IsFolder folder →
        walk folder names = walk folder more := by
  constructor
  · intro hsame folder hstart _
    rw [← walk_remainingNames hstart names, hsame, walk_remainingNames hstart more]
  · intro hwalk
    have htop : IsFolder [] := by simp [IsFolder]
    have hdowns : (trip names).downs = (trip more).downs := by
      rw [← walk_nil, ← walk_nil]
      exact hwalk [] (fun _ => rfl) htop
    cases absolute with
    | true => rw [remainingNames_true, remainingNames_true, hdowns]
    | false =>
        have hups := ups_eq_of_walk hdowns fun folder hfolder =>
          hwalk folder (fun h => absurd h Bool.false_ne_true) hfolder
        rw [remainingNames_false, remainingNames_false, hdowns, hups]

/-! ## Paths -/

/-- No name can be taken for a drive: the path has a root, or none of its names holds a colon. -/
def HidesNoDrive (p : Path) : Prop :=
  p.root? ≠ none ∨ ∀ n ∈ p.names, driveColon ∉ n

theorem driveColon_notMem_remainingNames {absolute : Bool} {names : List Text}
    (hnames : ∀ n ∈ names, driveColon ∉ n) :
    ∀ n ∈ remainingNames absolute names, driveColon ∉ n := by
  intro n hn
  rcases mem_remainingNames hn with ⟨hmem, -⟩ | rfl
  · exact hnames n hmem
  · exact fun hcolon => ne_parentName_of_driveColon_mem hcolon rfl

theorem WellFormed.readsBack_of_hidesNoDrive {p : Path} (hp : p.WellFormed)
    (hplain : p.HidesNoDrive) : p.ReadsBack := by
  intro hroot n hn
  rcases hplain with hne | hnames
  · exact absurd (hp.root?_eq_none_iff_rootText.mpr hroot) hne
  · exact driveColon_notMem_remainingNames hnames n (List.mem_of_mem_head? hn)

/-- The normal form of `p` is that of all paths that are followed alike. -/
structure Canonical (p : Path) : Prop where
  uri : p.normalize.uri = p.uri
  separator : p.normalize.separator = p.separator
  isAbsolute : p.normalize.isAbsolute = p.isAbsolute
  root? : p.normalize.root?.map raw = p.root?.map fun root => unify [p.separator] root.raw
  names : ∃ ups downs, p.normalize.names = List.replicate ups parentName ++ downs ∧
    (∀ n ∈ downs, IsOrdinary n) ∧ (p.isAbsolute = true → ups = 0)
  hasTrailingSeparator : p.normalize.hasTrailingSeparator = true ↔
    p.hasTrailingSeparator = true ∧ p.normalize.names ≠ []
  walk : ∀ folder, p.StartsFrom folder → walk folder p.normalize.names = walk folder p.names
  unique : ∀ q, Reachable q → q.HidesNoDrive → p.isAbsolute = q.isAbsolute →
    (p.normalize.names = q.normalize.names ↔
      ∀ folder, p.StartsFrom folder → IsFolder folder →
        Path.walk folder p.names = Path.walk folder q.names)

/-- Names that remain go up first, which no path below a root does, and then down. -/
theorem exists_remainingNames_eq (absolute : Bool) (names : List Text) :
    ∃ ups downs, remainingNames absolute names = List.replicate ups parentName ++ downs ∧
      (∀ n ∈ downs, IsOrdinary n) ∧ (absolute = true → ups = 0) := by
  refine ⟨if absolute then 0 else (trip names).ups, (trip names).downs.reverse, ?_, ?_, ?_⟩
  · cases absolute with
    | true => simp [remainingNames_true]
    | false => simp [remainingNames_false]
  · exact fun n hn => (mem_downs_trip (List.mem_reverse.mp hn)).2
  · rintro rfl
    rfl

theorem WellFormed.root?_normalize {p : Path} (hp : p.WellFormed) (hread : p.ReadsBack) :
    p.normalize.root?.map raw = p.root?.map fun root => unify [p.separator] root.raw := by
  have hroot : (p.root?.map fun root => unify [p.separator] root.raw) =
      (p.root?.map raw).map (unify [p.separator]) := by
    rw [Option.map_map]
    rfl
  rw [hroot, hp.map_raw_root?, hp.normalize.map_raw_root?, hp.rootText_normalize hread]
  have hnil := unify_eq_nil_iff hp.separator p.rootText
  by_cases hempty : p.rootText = []
  · rw [if_pos (hnil.mpr hempty), if_pos hempty]
    rfl
  · rw [if_neg (hnil.not.mpr hempty), if_neg hempty]
    rfl

theorem WellFormed.hasTrailingSeparator_normalize {p : Path} (hp : p.WellFormed)
    (hread : p.ReadsBack) :
    p.normalize.hasTrailingSeparator = true ↔
      p.hasTrailingSeparator = true ∧ p.normalize.names ≠ [] := by
  rw [hp.normalize.hasTrailingSeparator_eq, hp.namesText_normalize hread,
    hp.names_normalize hread,
    endsInSeparator_spell (fun _ => hp.isName_of_mem_keptNames) hp.separator]
  simp

/-- Normalization keeps what a path means and nothing else: two paths have the same names in their
normal forms exactly if they lead from everywhere to the same folders. -/
theorem canonical_of_reachable {p : Path} (hp : Reachable p) (hplain : p.HidesNoDrive) :
    p.Canonical := by
  have hwf := hp.wellFormed
  have hread := hwf.readsBack_of_hidesNoDrive hplain
  have hnames := hwf.names_normalize hread
  constructor
  case uri => exact uri_normalize p
  case separator => exact separator_normalize p
  case isAbsolute => exact hwf.isAbsolute_normalize hread
  case root? => exact hwf.root?_normalize hread
  case names =>
    rw [hnames]
    exact exists_remainingNames_eq _ _
  case hasTrailingSeparator => exact hwf.hasTrailingSeparator_normalize hread
  case walk =>
    intro folder hstart
    rw [hnames]
    exact walk_remainingNames hstart _
  case unique =>
    intro q hq hother habs
    have hread' := hq.wellFormed.readsBack_of_hidesNoDrive hother
    rw [hnames, hq.wellFormed.names_normalize hread', keptNames, keptNames, ← habs]
    exact remainingNames_eq_iff _ _ _

/-- The path `a/../../b/.` leads one folder up and down to `b`. -/
theorem canonical_of_relative_text :
    Reachable (parse localUri "a/../../b/.".toList) ∧
      (parse localUri "a/../../b/.".toList).HidesNoDrive ∧
      (parse localUri "a/../../b/.".toList).Canonical :=
  have hplain : (parse localUri "a/../../b/.".toList).HidesNoDrive := .inr (by decide)
  ⟨.parse _ _, hplain, canonical_of_reachable (.parse _ _) hplain⟩

end LexicalPaths.Path
