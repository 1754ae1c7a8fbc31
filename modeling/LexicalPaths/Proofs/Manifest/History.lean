import LexicalPaths.Proofs.Manifest.Location
import LexicalPaths.Proofs.Manifest.RoundTrip

/-!
# Outputs through many commands

A command that records an output loads the outputs that are there, adds its own, and saves them
all.  So each output passes through its record once with every command from its own on.  Its place
in the list, its type and its properties stay, and its location stays as long as `Stays` says.
-/

namespace LexicalPaths.Manifest

open LexicalPaths.Path (SameLocation)

/-- The outputs after commands have added outputs one after another. -/
def recorded (base : Path) (outputs : Manifest) : Manifest → Manifest
  | [] => outputs
  | added :: more => recorded base ((outputs ++ [added]).map (reloadedOutput base)) more

/-- How an output is found after it was loaded once and `count` commands followed.  It keeps its
location through all of them exactly if its path stays at each of them. -/
structure Survives (base : Path) (count : Nat) (first last : Output) : Prop where
  type : last.type = first.type
  properties : last.properties = first.properties
  path : last.path = (reloaded base)^[count] first.path
  location :
    (∀ k ≤ count, SameLocation ((reloaded base)^[k] first.path) first.path) ↔
      ∀ k < count, Stays base ((reloaded base)^[k] first.path)

/-- What is loaded after commands have added outputs to those before: these first, in order, and
then one for each command, in order. -/
structure History (base : Path) (before added loaded : Manifest) : Prop where
  length : loaded.length = before.length + added.length
  kept : ∀ i (hi : i < before.length), ∃ output, loaded[i]? = some output ∧
    Survives base added.length before[i] output
  new : ∀ i (hi : i < added.length), ∃ output, loaded[before.length + i]? = some output ∧
    Survives base (added.length - 1 - i) (reloadedOutput base added[i]) output

theorem iterate_reloadedOutput (base : Path) (count : Nat) (output : Output) :
    (reloadedOutput base)^[count] output =
      { output with path := (reloaded base)^[count] output.path } := by
  induction count with
  | zero => rfl
  | succ count ih =>
      rw [Function.iterate_succ_apply', ih, Function.iterate_succ_apply']
      rfl

theorem survives_iterate {base : Path} (hbase : base.Legible) {output : Output}
    (hpath : output.path.Legible) (count : Nat) :
    Survives base count output ((reloadedOutput base)^[count] output) := by
  rw [iterate_reloadedOutput]
  exact ⟨rfl, rfl, rfl, sameLocation_iterate_iff hbase hpath count⟩

theorem length_recorded (base : Path) (outputs added : Manifest) :
    (recorded base outputs added).length = outputs.length + added.length := by
  induction added generalizing outputs with
  | nil => rfl
  | cons first more ih =>
      rw [recorded, ih]
      simp
      omega

theorem getElem?_recorded (base : Path) {outputs : Manifest} (added : Manifest) {i : Nat}
    {output : Output} (hi : outputs[i]? = some output) :
    (recorded base outputs added)[i]? = some ((reloadedOutput base)^[added.length] output) := by
  induction added generalizing outputs output with
  | nil => exact hi
  | cons first more ih =>
      obtain ⟨hlt, -⟩ := List.getElem?_eq_some_iff.mp hi
      rw [recorded, List.length_cons, Function.iterate_succ_apply]
      apply ih
      rw [List.getElem?_map, List.getElem?_append_left hlt, hi]
      rfl

theorem getElem?_recorded_added (base : Path) (outputs : Manifest) {added : Manifest} {i : Nat}
    {output : Output} (hi : added[i]? = some output) :
    (recorded base outputs added)[outputs.length + i]? =
      some ((reloadedOutput base)^[added.length - i] output) := by
  induction added generalizing outputs i with
  | nil => simp at hi
  | cons first more ih =>
      rw [recorded]
      cases i with
      | zero =>
          obtain rfl : first = output := by simpa using hi
          rw [List.length_cons, Nat.sub_zero, Function.iterate_succ_apply, Nat.add_zero]
          refine getElem?_recorded base more ?_
          simp
      | succ i =>
          have hlater := ih ((outputs ++ [first]).map (reloadedOutput base)) (by simpa using hi)
          rw [List.length_map, List.length_append, List.length_singleton] at hlater
          rw [List.length_cons, Nat.add_sub_add_right, ← hlater]
          congr 1
          omega

/-- What commands have recorded has the history that it should have. -/
theorem history_recorded {base : Path} (hbase : base.Legible) {before : Manifest}
    (hpaths : ∀ output ∈ before, output.path.Legible) (added : Manifest) :
    History base before added (recorded base before added) where
  length := length_recorded base before added
  kept := by
    intro i hi
    have hget := getElem?_recorded base added (List.getElem?_eq_getElem hi)
    exact ⟨_, hget, survives_iterate hbase (hpaths _ (List.getElem_mem hi)) _⟩
  new := by
    intro i hi
    have hget := getElem?_recorded_added base before (List.getElem?_eq_getElem hi)
    have hcount : added.length - i = added.length - 1 - i + 1 := by omega
    rw [hcount, Function.iterate_succ_apply] at hget
    exact ⟨_, hget, survives_iterate hbase (legible_reloaded hbase _) _⟩

end LexicalPaths.Manifest
