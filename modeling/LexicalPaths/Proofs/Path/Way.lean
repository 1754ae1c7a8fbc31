import LexicalPaths.Proofs.Path.Composition
import LexicalPaths.Proofs.Path.NormalForm
import LexicalPaths.Proofs.Path.Reachable

/-!
# The way from a base to a target

Relativization climbs one folder for every name of the base that the target does not share.  That
is the right number when each of those names goes down.  A `.` among them is climbed although it
led nowhere, and a `..` although it led up, and the climb ends too high.  This goes unnoticed only
if the target itself climbs out of all that both share.
-/

namespace LexicalPaths.Path

open Separator

/-- Two paths name the same place, along the same names as they are written. -/
abbrev Agrees (p q : Path) : Prop :=
  AgreeBy uri rootKey names p q

theorem take_commonNames (mine theirs : List Text) :
    mine.take (commonNames mine theirs) = theirs.take (commonNames mine theirs) := by
  induction mine generalizing theirs with
  | nil => simp [commonNames]
  | cons n mine ih =>
      cases theirs with
      | nil => simp [commonNames]
      | cons m theirs =>
          by_cases heq : n = m
          · simp [commonNames, heq, ih]
          · simp [commonNames, heq]

theorem trip_way (mine theirs : List Text) :
    trip (way mine theirs) =
      ⟨(mine.drop (commonNames mine theirs)).length, []⟩ *
        trip (theirs.drop (commonNames mine theirs)) := by
  rw [way, trip_append, trip_replicate_parentName, List.length_drop]

/-- The climb out of the names that the target does not share ends where these names start, or
what both share is left on the way down to the target. -/
def Returns (mine theirs : List Text) : Prop :=
  (∀ n ∈ mine.drop (commonNames mine theirs), IsOrdinary n) ∨
    (trip (mine.take (commonNames mine theirs))).downs.length ≤
      (trip (theirs.drop (commonNames mine theirs))).ups

/-- After a climb as high as a list is long, what was gone down before is left but for the excess
of the climb. -/
theorem downs_mul_climb (t : Trip) (names : List Text) :
    (t * trip names * ⟨names.length, []⟩).downs =
      t.downs.drop ((trip names).ups + (names.length - (trip names).downs.length)) := by
  have hle := length_downs_trip_le names
  have hnil : (trip names).downs.drop names.length = [] := List.drop_eq_nil_of_le hle
  rw [Trip.downs_mul, Trip.downs_mul, List.drop_append, hnil, List.drop_drop]
  rfl

theorem climb_eq_zero_iff (names : List Text) :
    (trip names).ups + (names.length - (trip names).downs.length) = 0 ↔
      ∀ n ∈ names, IsOrdinary n := by
  have hle := length_downs_trip_le names
  constructor
  · intro hzero
    exact forall_isOrdinary_of_length_downs (by omega)
  · intro hord
    rw [trip_of_forall_isOrdinary hord]
    simp

theorem drop_eq_drop_iff {α : Type} (l : List α) (i j : Nat) :
    l.drop (i + j) = l.drop j ↔ i = 0 ∨ l.length ≤ j := by
  constructor
  · intro heq
    have hlen := congrArg List.length heq
    rw [List.length_drop, List.length_drop] at hlen
    omega
  · rintro (rfl | hle)
    · rw [Nat.zero_add]
    · rw [List.drop_eq_nil_of_le hle, List.drop_eq_nil_of_le (by omega)]

theorem downs_trip_way_iff (mine theirs : List Text) :
    (trip (mine ++ way mine theirs)).downs = (trip theirs).downs ↔ Returns mine theirs := by
  have hmine := List.take_append_drop (commonNames mine theirs) mine
  have htheirs := List.take_append_drop (commonNames mine theirs) theirs
  rw [← take_commonNames] at htheirs
  set shared := mine.take (commonNames mine theirs) with hshared
  set own := mine.drop (commonNames mine theirs) with hown
  set further := theirs.drop (commonNames mine theirs) with hfurther
  have hthere : trip (mine ++ way mine theirs) =
      trip shared * trip own * ⟨own.length, []⟩ * trip further := by
    rw [trip_append, trip_way, ← hown, ← hfurther, ← hmine, trip_append, mul_assoc, mul_assoc,
      mul_assoc]
  have htarget : trip theirs = trip shared * trip further := by
    rw [← htheirs, trip_append]
  rw [hthere, htarget, Trip.downs_mul _ (trip further), Trip.downs_mul _ (trip further),
    downs_mul_climb, List.drop_drop,
    List.append_cancel_left_eq, drop_eq_drop_iff, climb_eq_zero_iff]
  rfl

/-! ## Roots and names of the paths that are made -/

namespace WellFormed

variable {p : Path} (hp : p.WellFormed)
include hp

theorem readsBack_of_isAbsolute (habs : p.isAbsolute = true) : p.ReadsBack := fun hnil =>
  absurd hnil (hp.rootText_ne_nil_of_isAbsolute habs)

theorem rootKey_normalize (hread : p.ReadsBack) : p.normalize.rootKey = p.rootKey := by
  rw [rootKey_eq, rootKey_eq, hp.rootText_normalize hread, Root.key_unify hp.separator]

theorem names_normalize_of_isAbsolute (habs : p.isAbsolute = true) :
    p.normalize.names = (trip p.properNames).downs.reverse := by
  rw [hp.names_normalize (hp.readsBack_of_isAbsolute habs), keptNames, habs, remainingNames_true,
    trip_properNames]

end WellFormed

/-! ## There and back -/

theorem isName_of_mem_way {mine theirs : List Text} (htheirs : ∀ n ∈ theirs, IsName n) {n : Text}
    (hn : n ∈ way mine theirs) : IsName n := by
  rcases List.mem_append.mp hn with hn | hn
  · rw [List.eq_of_mem_replicate hn]
    exact isName_parentName
  · exact htheirs n (List.mem_of_mem_drop hn)

theorem WellFormed.isName_of_mem_way {p q : Path} (hq : q.WellFormed) {n : Text}
    (hn : n ∈ way p.properNames q.properNames) : IsName n :=
  Path.isName_of_mem_way (fun _ => hq.isName_of_mem_properNames) hn

section

variable {p q : Path} (hp : p.WellFormed) (hq : q.WellFormed) (habs : p.isAbsolute = true)
  (hother : q.isAbsolute = true) (hkey : p.rootKey = q.rootKey)
include hp hq habs hother hkey

/-- Both are absolute and share their root: the way leads along names alone. -/
theorem relativize_of_isAbsolute :
    p.relativize q = withRoot p.uri
      (spell q.separator (way p.properNames q.properNames) q.hasTrailingSeparator) 0
      q.separator := by
  refine relativize_of_rootKey ?_ hkey
  have hone := not_isEmpty_of_rootText hp (hp.rootText_ne_nil_of_isAbsolute habs)
  have htwo := not_isEmpty_of_rootText hq (hq.rootText_ne_nil_of_isAbsolute hother)
  simp [hone, htwo]

/-- Back at the target, or where the climb of the way leads instead. -/
theorem names_resolve_relativize :
    (p.resolve (p.relativize q)).normalize.names =
      (trip (p.properNames ++ way p.properNames q.properNames)).downs.reverse := by
  have hnames : ∀ n ∈ way p.properNames q.properNames, IsName n := fun n => hq.isName_of_mem_way
  have hempty := not_isEmpty_of_rootText hp (hp.rootText_ne_nil_of_isAbsolute habs)
  have hway := relativize_of_isAbsolute hp hq habs hother hkey
  have hrel := wellFormed_relativize p hq
  have hroot : (p.relativize q).rootText = [] := by rw [hway]; rfl
  have hproper : (p.relativize q).properNames = way p.properNames q.properNames := by
    rw [hrel.properNames_eq, hway, namesText_withRoot, List.drop_zero,
      properPieces_spell hnames hq.separator]
  have habsolute : (p.resolve (p.relativize q)).isAbsolute = true := by
    rw [(hp.resolve hrel).isAbsolute_eq, hp.rootText_resolve_of_rootText_nil hrel hempty hroot,
      ← hp.isAbsolute_eq, habs]
  rw [(hp.resolve hrel).names_normalize_of_isAbsolute habsolute,
    hp.properNames_resolve_of_rootText_nil hrel hempty hroot, hproper]

end

/-- The way from a base to a target, followed from the base, ends at the target exactly if the
names that the base does not share with the target are all ordinary, or the target climbs out of
all that they share. -/
theorem agrees_resolve_relativize_iff {p q : Path} (hp : Reachable p) (hq : Reachable q)
    (huri : p.uri = q.uri) (habs : p.isAbsolute = true) (hother : q.isAbsolute = true)
    (hkey : p.rootKey = q.rootKey) :
    Agrees (p.resolve (p.relativize q)).normalize q.normalize ↔
      Returns p.properNames q.properNames := by
  have hbase := hp.wellFormed
  have htarget := hq.wellFormed
  have hrel := wellFormed_relativize p htarget
  have hempty := not_isEmpty_of_rootText hbase (hbase.rootText_ne_nil_of_isAbsolute habs)
  have hroot : (p.relativize q).rootText = [] := by
    rw [relativize_of_isAbsolute hbase htarget habs hother hkey]
    rfl
  have hsame := hbase.rootText_resolve_of_rootText_nil hrel hempty hroot
  have hread : (p.resolve (p.relativize q)).ReadsBack := fun hnil =>
    absurd (hsame ▸ hnil) (hbase.rootText_ne_nil_of_isAbsolute habs)
  have hnames := names_resolve_relativize hbase htarget habs hother hkey
  rw [← downs_trip_way_iff]
  constructor
  · intro hagrees
    have heq := hagrees.names
    rw [hnames, htarget.names_normalize_of_isAbsolute hother] at heq
    exact List.reverse_inj.mp heq
  · intro hdowns
    refine ⟨?_, ?_, ?_⟩
    · rw [uri_normalize, uri_normalize, WellFormed.uri_resolve_of_rootText_nil hrel hempty hroot,
        huri]
    · rw [(hbase.resolve hrel).rootKey_normalize hread,
        htarget.rootKey_normalize (htarget.readsBack_of_isAbsolute hother), ← hkey, rootKey_eq,
        rootKey_eq, hsame]
    · rw [hnames, hdowns, htarget.names_normalize_of_isAbsolute hother]

/-- From `/x/./a` the way to `/x/b` is `../../b`, which leads to `/b`. -/
theorem not_agrees_resolve_relativize_of_self :
    ¬ Agrees ((parse localUri "/x/./a".toList).resolve
        ((parse localUri "/x/./a".toList).relativize (parse localUri "/x/b".toList))).normalize
      (parse localUri "/x/b".toList).normalize := by
  intro hagrees
  rcases (agrees_resolve_relativize_iff (.parse localUri "/x/./a".toList)
    (.parse localUri "/x/b".toList) rfl rfl rfl rfl).mp hagrees with hord | hle
  · exact (hord selfName (by decide)).2.1 rfl
  · exact absurd hle (by decide)

end LexicalPaths.Path
