import LexicalPaths.Proofs.Path.Composition
import LexicalPaths.Proofs.Path.NormalForm

/-!
# Paths that a program can hold

A program reads its paths from texts and derives others from them.  Every derivation moves the
windows of a path or writes a new text with windows of its own, and every one keeps the windows
within the text.  So what holds of well-formed paths holds of all paths that a program can hold.
-/

namespace LexicalPaths.Path

open Separator

/-! ## Parts -/

theorem nameStart_le (p : Path) (i : Nat) : p.nameStart i ≤ i := by
  induction i with
  | zero => exact Nat.le_refl 0
  | succ i ih =>
      unfold nameStart
      split <;> omega

/-- The names lie in a row from `first` on, up to the end of the text. -/
theorem boundsFrom_within {first i : Nat} (hfirst : first ≤ i) (t : Text) :
    (∀ b ∈ boundsFrom first i t, first ≤ b.1 ∧ b.1 ≤ b.2 ∧ b.2 ≤ i + t.length) ∧
      (boundsFrom first i t).Pairwise fun a b => a.1 ≤ b.2 := by
  induction t generalizing first i with
  | nil =>
      unfold boundsFrom
      split
      · simp
        omega
      · simp
  | cons c t ih =>
      unfold boundsFrom
      split
      · obtain ⟨hwithin, hrow⟩ := ih (Nat.le_refl (i + 1))
        refine ⟨?_, List.pairwise_cons.mpr ⟨?_, hrow⟩⟩
        · intro b hb
          rcases List.mem_cons.mp hb with rfl | hb
          · simp
            omega
          · obtain ⟨hone, htwo, hthree⟩ := hwithin b hb
            simp only [List.length_cons]
            omega
        · intro b hb
          obtain ⟨hone, htwo, -⟩ := hwithin b hb
          omega
      · obtain ⟨hwithin, hrow⟩ := ih (show first ≤ i + 1 by omega)
        refine ⟨?_, hrow⟩
        intro b hb
        obtain ⟨hone, htwo, hthree⟩ := hwithin b hb
        simp only [List.length_cons]
        omega

namespace WellFormed

variable {p : Path} (hp : p.WellFormed)
include hp

theorem start_le_namesEnd : p.start ≤ p.namesEnd := by
  have hle := hp.start_le
  unfold namesEnd
  split
  next htrail =>
    unfold hasTrailingSeparator at htrail
    simp only [Bool.and_eq_true, decide_eq_true_eq] at htrail
    omega
  next => exact hle

theorem le_of_mem_nameBounds {b : Nat × Nat} (hb : b ∈ p.nameBounds) :
    p.start ≤ b.1 ∧ b.1 ≤ b.2 ∧ b.2 ≤ p.text.length := by
  obtain ⟨hwithin, -⟩ := boundsFrom_within (Nat.le_refl p.start) (p.text.slice p.start p.namesEnd)
  obtain ⟨hone, htwo, hthree⟩ := hwithin b hb
  have hend := hp.namesEnd_le
  have hstart := hp.start_le_namesEnd
  simp only [Text.slice, List.length_drop, List.length_take] at hthree
  omega

/-- A part without a root that lies within the text. -/
theorem part {start stop : Nat} (hle : start ≤ stop) (hstop : stop ≤ p.text.length) :
    { p with start := start, stop := stop, rootEnd := 0 : Path }.WellFormed where
  rootEnd_le := Nat.zero_le _
  start_le := hle
  stop_le := hstop
  apart := .inl rfl
  separator := hp.separator
  root := Root.isRoot_nil

theorem ofRoot {r : Path} (hr : p.root? = some r) : r.WellFormed := by
  unfold root? at hr
  split at hr
  · contradiction
  · obtain rfl := Option.some.inj hr
    exact ⟨hp.rootEnd_le, Nat.le_refl _, hp.rootEnd_le, .inr rfl, hp.separator, hp.root⟩

theorem fileName : p.fileName.WellFormed :=
  hp.part (nameStart_le p _) hp.namesEnd_le

theorem parent {q : Path} (hq : p.parent? = some q) : q.WellFormed := by
  have hstart := nameStart_le p p.namesEnd
  have hend := hp.namesEnd_le
  unfold parent? at hq
  split at hq
  · contradiction
  · split at hq
    · exact hp.ofRoot hq
    · obtain rfl := Option.some.inj hq
      refine ⟨hp.rootEnd_le, ?_, ?_, hp.apart, hp.separator, hp.root⟩
      · show p.start ≤ p.nameStart p.namesEnd - 1
        omega
      · show p.nameStart p.namesEnd - 1 ≤ p.text.length
        omega

theorem namePath {q : Path} (hq : q ∈ p.namePaths) : q.WellFormed := by
  obtain ⟨b, hb, rfl⟩ := List.mem_map.mp hq
  obtain ⟨-, hle, hstop⟩ := hp.le_of_mem_nameBounds hb
  exact hp.part hle hstop

theorem subpath {first last : Int} {q : Path} (hq : p.subpath first last = .ok q) :
    q.WellFormed := by
  unfold Path.subpath at hq
  extract_lets bounds at hq
  split at hq
  · contradiction
  next hrange =>
    split at hq
    · obtain rfl := Except.ok.inj hq
      exact wellFormed_parse p.uri []
    next hne =>
      split at hq
      next start _ _ stop hfirst hlast =>
        obtain rfl := Except.ok.inj hq
        obtain ⟨hi, hgeti⟩ := List.getElem?_eq_some_iff.mp hfirst
        obtain ⟨hj, hgetj⟩ := List.getElem?_eq_some_iff.mp hlast
        have hfront := hp.le_of_mem_nameBounds (List.mem_of_getElem? hfirst)
        have hback := hp.le_of_mem_nameBounds (List.mem_of_getElem? hlast)
        refine hp.part ?_ hback.2.2
        -- the range starts with the name at which it ends or with an earlier one
        rcases Nat.lt_or_ge first.toNat (last.toNat - 1) with hlt | hge
        · obtain ⟨-, hrow⟩ :=
            boundsFrom_within (Nat.le_refl p.start) (p.text.slice p.start p.namesEnd)
          have hpair := List.pairwise_iff_getElem.mp hrow _ _ hi hj hlt
          change p.nameBounds[first.toNat].1 ≤ p.nameBounds[last.toNat - 1].2 at hpair
          rwa [hgeti, hgetj] at hpair
        · have heq : last.toNat - 1 = first.toNat := by omega
          rw [heq, hfirst] at hlast
          obtain ⟨rfl, rfl⟩ := Prod.mk.inj (Option.some.inj hlast)
          exact hfront.2.1
      next => contradiction

theorem range {first? last? step? : Option Int} {q : Path}
    (hq : p.range first? last? step? = .ok q) : q.WellFormed := by
  unfold Path.range at hq
  split at hq
  · contradiction
  · exact hp.subpath hq

end WellFormed

/-! ## Derivations -/

/-- The paths that are read from texts, and those that are derived from such paths. -/
inductive Reachable : Path → Prop
  | parse (uri t : Text) : Reachable (parse uri t)
  | root {p q : Path} (hp : Reachable p) (hq : p.root? = some q) : Reachable q
  | fileName {p : Path} (hp : Reachable p) : Reachable p.fileName
  | parent {p q : Path} (hp : Reachable p) (hq : p.parent? = some q) : Reachable q
  | namePath {p q : Path} (hp : Reachable p) (hq : q ∈ p.namePaths) : Reachable q
  | get {p q : Path} {index : Int} (hp : Reachable p) (hq : p.get index = .ok q) : Reachable q
  | subpath {p q : Path} {first last : Int} (hp : Reachable p)
      (hq : p.subpath first last = .ok q) : Reachable q
  | range {p q : Path} {first? last? step? : Option Int} (hp : Reachable p)
      (hq : p.range first? last? step? = .ok q) : Reachable q
  | normalize {p : Path} (hp : Reachable p) : Reachable p.normalize
  | resolve {p q : Path} (hp : Reachable p) (hq : Reachable q) : Reachable (p.resolve q)
  | relativize {p q : Path} (hp : Reachable p) (hq : Reachable q) : Reachable (p.relativize q)

theorem Reachable.wellFormed {p : Path} (hp : Reachable p) : p.WellFormed := by
  induction hp with
  | parse uri t => exact wellFormed_parse uri t
  | root _ hq ih => exact ih.ofRoot hq
  | fileName _ ih => exact ih.fileName
  | parent _ hq ih => exact ih.parent hq
  | namePath _ hq ih => exact ih.namePath hq
  | get _ hq ih => exact ih.subpath hq
  | subpath _ hq ih => exact ih.subpath hq
  | range _ hq ih => exact ih.range hq
  | normalize _ ih => exact ih.normalize
  | resolve _ _ ihp ihq => exact ihp.resolve ihq
  | relativize _ _ _ ihq => exact wellFormed_relativize _ ihq

/-- Normalizing twice is the same as normalizing once, exactly if the first normalization does
not bring `.` behind a drive. -/
theorem normalize_normalize_beq_iff {p : Path} (hp : Reachable p) :
    (p.normalize.normalize == p.normalize) = true ↔ ¬ p.ExposesSelf := by
  have hwf := hp.wellFormed
  change p.normalize.normalize.same p.normalize = true ↔ _
  constructor
  · intro hsame hself
    rw [hwf.not_same_of_exposesSelf hself] at hsame
    contradiction
  · intro hself
    rw [hwf.normalize_normalize_of_not_exposesSelf hself]
    exact same_refl _

/-- The text `./C:./x` is normalized to `C:./x`, and that to `C:x`. -/
theorem normalize_normalize_beq_of_exposed_drive :
    ¬ ((parse localUri "./C:./x".toList).normalize.normalize ==
      (parse localUri "./C:./x".toList).normalize) = true := by
  rw [normalize_normalize_beq_iff (.parse localUri "./C:./x".toList)]
  exact not_not_intro ⟨rfl, "C".toList, ["x".toList], by decide, by decide⟩

/-- A third normalization never changes anything. -/
theorem normalize_normalize_normalize {p : Path} (hp : Reachable p) :
    p.normalize.normalize.normalize = p.normalize.normalize := by
  have hwf := hp.wellFormed
  by_cases hself : p.ExposesSelf
  · refine hwf.normalize.normalize_normalize_of_not_exposesSelf fun hagain => ?_
    obtain ⟨hroot, drive, rest, hkept, hdrive⟩ := hself
    have hnil := hwf.root?_eq_none_iff_rootText.mp hroot
    obtain ⟨hread, -⟩ := hwf.windows_normalize_of_drive hnil hdrive hkept (by simp [selfName])
    have hagain := hwf.normalize.root?_eq_none_iff_rootText.mp hagain.1
    rw [hread] at hagain
    simp at hagain
  · rw [hwf.normalize_normalize_of_not_exposesSelf hself,
      hwf.normalize_normalize_of_not_exposesSelf hself]

end LexicalPaths.Path
