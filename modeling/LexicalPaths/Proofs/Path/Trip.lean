import LexicalPaths.Path.Normalize
import LexicalPaths.Path.Relativize
import Mathlib.Algebra.BigOperators.Group.List.Basic
import Mathlib.Tactic.Common

/-!
# Trips

Whoever follows names goes up some folders and then down some others: a `..` goes up, an ordinary
name goes down, and the empty name and `.` stay.  What goes down and up again cancels.  The trips
form a monoid, and a list of names leads where the product of its names leads.  The names that a
normalization keeps are the trip written down, without its way up if the path starts at a root.
-/

namespace LexicalPaths.Path

/-- So many folders up, and then down along these names, the latest first. -/
@[ext] structure Trip where
  ups : Nat
  downs : List Text
deriving DecidableEq

/-- A name that goes down. -/
def IsOrdinary (n : Text) : Prop :=
  n ≠ [] ∧ n ≠ selfName ∧ n ≠ parentName

namespace Trip

instance : Mul Trip where
  mul s t := ⟨s.ups + (t.ups - s.downs.length), t.downs ++ s.downs.drop t.ups⟩

instance : One Trip where
  one := ⟨0, []⟩

@[simp] theorem ups_mul (s t : Trip) : (s * t).ups = s.ups + (t.ups - s.downs.length) := rfl

@[simp] theorem downs_mul (s t : Trip) : (s * t).downs = t.downs ++ s.downs.drop t.ups := rfl

@[simp] theorem ups_one : (1 : Trip).ups = 0 := rfl

@[simp] theorem downs_one : (1 : Trip).downs = [] := rfl

instance : Monoid Trip where
  mul_assoc s t u := by
    ext1
    · simp
      omega
    · simp [List.drop_append, List.drop_drop, List.append_assoc]
  one_mul t := by
    ext1 <;> simp
  mul_one t := by
    ext1 <;> simp

/-- The trip along one name. -/
def ofName (n : Text) : Trip :=
  if n = parentName then ⟨1, []⟩
  else if n = [] ∨ n = selfName then 1
  else ⟨0, [n]⟩

theorem ofName_nil : ofName [] = 1 := rfl

theorem ofName_parentName : ofName parentName = ⟨1, []⟩ := rfl

theorem ofName_of_isOrdinary {n : Text} (hn : IsOrdinary n) : ofName n = ⟨0, [n]⟩ := by
  simp [ofName, hn.1, hn.2.1, hn.2.2]

end Trip

/-- The trip along names. -/
def trip (names : List Text) : Trip :=
  (names.map Trip.ofName).prod

@[simp] theorem trip_nil : trip [] = 1 := rfl

@[simp] theorem trip_cons (n : Text) (names : List Text) :
    trip (n :: names) = Trip.ofName n * trip names := by
  simp [trip]

@[simp] theorem trip_append (names more : List Text) :
    trip (names ++ more) = trip names * trip more := by
  simp [trip]

theorem mem_downs_ofName {n m : Text} (hm : m ∈ (Trip.ofName n).downs) :
    m = n ∧ IsOrdinary n := by
  unfold Trip.ofName at hm
  split at hm
  · simp at hm
  · split at hm
    · simp at hm
    · next hup hstay =>
      obtain ⟨hne, hself⟩ := not_or.mp hstay
      exact ⟨by simpa using hm, hne, hself, hup⟩

/-- A trip goes down along ordinary names of the list only. -/
theorem mem_downs_trip {names : List Text} {m : Text} (hm : m ∈ (trip names).downs) :
    m ∈ names ∧ IsOrdinary m := by
  induction names with
  | nil => simp at hm
  | cons n names ih =>
      rw [trip_cons, Trip.downs_mul] at hm
      rcases List.mem_append.mp hm with hm | hm
      · obtain ⟨hmem, hord⟩ := ih hm
        exact ⟨List.mem_cons_of_mem n hmem, hord⟩
      · obtain ⟨rfl, hord⟩ := mem_downs_ofName (List.mem_of_mem_drop hm)
        exact ⟨List.mem_cons_self, hord⟩

/-- Empty names lead nowhere. -/
theorem trip_filter_isEmpty (names : List Text) :
    trip (names.filter fun n => !n.isEmpty) = trip names := by
  induction names with
  | nil => rfl
  | cons n names ih =>
      cases n with
      | nil => simpa [Trip.ofName_nil] using ih
      | cons c n => simp [ih]

theorem trip_properNames (p : Path) : trip p.properNames = trip p.names :=
  trip_filter_isEmpty p.names

theorem trip_of_forall_isOrdinary {names : List Text} (hnames : ∀ n ∈ names, IsOrdinary n) :
    trip names = ⟨0, names.reverse⟩ := by
  induction names with
  | nil => rfl
  | cons n names ih =>
      have hn := Trip.ofName_of_isOrdinary (hnames n List.mem_cons_self)
      rw [trip_cons, hn, ih fun m hm => hnames m (List.mem_cons_of_mem n hm)]
      ext1 <;> simp

theorem trip_replicate_parentName (k : Nat) : trip (List.replicate k parentName) = ⟨k, []⟩ := by
  induction k with
  | zero => rfl
  | succ k ih =>
      rw [List.replicate_succ, trip_cons, ih, Trip.ofName_parentName]
      ext1
      · simp
        omega
      · simp

theorem length_downs_le (names : List Text) [DecidablePred IsOrdinary] :
    (trip names).downs.length ≤ (names.filter fun n => decide (IsOrdinary n)).length := by
  induction names with
  | nil => simp
  | cons n names ih =>
      rw [trip_cons, Trip.downs_mul, List.length_append, List.length_drop]
      by_cases hn : IsOrdinary n
      · rw [Trip.ofName_of_isOrdinary hn, List.filter_cons_of_pos (by simpa using hn)]
        simp only [List.length_cons, List.length_nil]
        omega
      · have hnil : (Trip.ofName n).downs = [] := by
          rw [List.eq_nil_iff_forall_not_mem]
          exact fun m hm => hn (mem_downs_ofName hm).2
        rw [hnil, List.filter_cons_of_neg (by simpa using hn)]
        simp only [List.length_nil]
        omega

theorem length_downs_trip_le (names : List Text) : (trip names).downs.length ≤ names.length := by
  classical
  exact Nat.le_trans (length_downs_le names) (List.length_filter_le _ _)

/-- Only ordinary names make a trip as long as their list. -/
theorem forall_isOrdinary_of_length_downs {names : List Text}
    (hlen : (trip names).downs.length = names.length) : ∀ n ∈ names, IsOrdinary n := by
  classical
  have hle := length_downs_le names
  have hfilter : (names.filter fun n => decide (IsOrdinary n)).length = names.length :=
    Nat.le_antisymm (List.length_filter_le _ _) (by omega)
  intro n hn
  simpa using List.length_filter_eq_length_iff.mp hfilter n hn

/-- Names go down to where the last of them go on their own, if these climb out of all before. -/
theorem downs_trip_append_cons_eq_iff {mine rest : List Text} {n : Text} (hn : IsOrdinary n) :
    (trip (mine ++ n :: rest)).downs = (trip rest).downs ↔
      (trip mine).downs.length < (trip rest).ups := by
  have hdown : (trip mine * ⟨0, [n]⟩ : Trip).downs = n :: (trip mine).downs := rfl
  rw [trip_append, trip_cons, Trip.ofName_of_isOrdinary hn, ← mul_assoc, Trip.downs_mul, hdown,
    List.append_right_eq_self, List.drop_eq_nil_iff, List.length_cons]
  omega

/-! ## Normalization -/

/-- The names kept after a trip, the latest first: a root cuts off the way up. -/
def Trip.stack (absolute : Bool) (t : Trip) : List Text :=
  t.downs ++ if absolute then [] else List.replicate t.ups parentName

theorem keepName_stack (absolute : Bool) {t : Trip} (ht : parentName ∉ t.downs) (n : Text) :
    keepName absolute (t.stack absolute) n = (t * Trip.ofName n).stack absolute := by
  obtain ⟨ups, downs⟩ := t
  unfold keepName Trip.ofName
  split
  next hup =>
    -- the way up: take back the latest name, or go one further above the start
    subst hup
    cases downs with
    | nil =>
        cases absolute with
        | true => rfl
        | false =>
            cases ups with
            | zero => rfl
            | succ ups => simp [Trip.stack, List.replicate_succ]
    | cons latest earlier =>
        have hlatest : latest ≠ parentName := fun h => ht (by simp [h])
        cases absolute <;> simp [Trip.stack, hlatest]
  next =>
    split
    · rw [mul_one]
    · cases absolute <;> simp [Trip.stack]

theorem parentName_notMem_downs_mul {t : Trip} (ht : parentName ∉ t.downs) (n : Text) :
    parentName ∉ (t * Trip.ofName n).downs := by
  rw [Trip.downs_mul, List.mem_append]
  rintro (hmem | hmem)
  · exact (mem_downs_ofName hmem).2.2.2 (mem_downs_ofName hmem).1.symm
  · exact ht (List.mem_of_mem_drop hmem)

theorem foldl_keepName (absolute : Bool) (names : List Text) {t : Trip}
    (ht : parentName ∉ t.downs) :
    names.foldl (keepName absolute) (t.stack absolute) = (t * trip names).stack absolute := by
  induction names generalizing t with
  | nil => rw [trip_nil, mul_one]; rfl
  | cons n names ih =>
      rw [List.foldl_cons, keepName_stack absolute ht, ih (parentName_notMem_downs_mul ht n),
        trip_cons, mul_assoc]

/-- What remains of names is the trip along them, written down. -/
theorem remainingNames_eq (absolute : Bool) (names : List Text) :
    remainingNames absolute names = ((trip names).stack absolute).reverse := by
  have hfold := foldl_keepName absolute names (t := 1) (by simp)
  have hone : (1 : Trip).stack absolute = [] := by cases absolute <;> rfl
  rw [hone, one_mul] at hfold
  rw [remainingNames, hfold]

theorem remainingNames_true (names : List Text) :
    remainingNames true names = (trip names).downs.reverse := by
  simp [remainingNames_eq, Trip.stack]

theorem remainingNames_false (names : List Text) :
    remainingNames false names =
      List.replicate (trip names).ups parentName ++ (trip names).downs.reverse := by
  simp [remainingNames_eq, Trip.stack]

theorem trip_remainingNames_false (names : List Text) :
    trip (remainingNames false names) = trip names := by
  have hord : ∀ n ∈ (trip names).downs.reverse, IsOrdinary n := fun n hn =>
    (mem_downs_trip (List.mem_reverse.mp hn)).2
  rw [remainingNames_false, trip_append, trip_replicate_parentName,
    trip_of_forall_isOrdinary hord]
  ext1 <;> simp

/-- Names that remain, remain again. -/
theorem remainingNames_remainingNames (absolute : Bool) (names : List Text) :
    remainingNames absolute (remainingNames absolute names) = remainingNames absolute names := by
  cases absolute with
  | false => rw [remainingNames_eq, trip_remainingNames_false, ← remainingNames_eq]
  | true =>
      have hord : ∀ n ∈ (trip names).downs.reverse, IsOrdinary n := fun n hn =>
        (mem_downs_trip (List.mem_reverse.mp hn)).2
      rw [remainingNames_true names, remainingNames_true, trip_of_forall_isOrdinary hord]
      simp

theorem mem_remainingNames {absolute : Bool} {names : List Text} {n : Text}
    (hn : n ∈ remainingNames absolute names) : n ∈ names ∧ IsOrdinary n ∨ n = parentName := by
  rw [remainingNames_eq, List.mem_reverse, Trip.stack, List.mem_append] at hn
  rcases hn with hn | hn
  · exact .inl (mem_downs_trip hn)
  · cases absolute with
    | true => simp at hn
    | false => exact .inr (List.eq_of_mem_replicate (by simpa using hn))

end LexicalPaths.Path
