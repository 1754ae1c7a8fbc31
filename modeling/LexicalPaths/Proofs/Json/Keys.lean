import LexicalPaths.Proofs.Json.Grammar

/-!
# The keys of tables that are read

When a key repeats, its last value counts.  So no table in a value that is read holds a key twice.
-/

namespace LexicalPaths.Json

/-- No table in the value holds a key twice. -/
inductive Keyed : Datum → Prop
  | list {items : List Datum} (hitems : ∀ d ∈ items, Keyed d) : Keyed (.list items)
  | table {entries : List (Text × Datum)} (hkeys : (entries.map Prod.fst).Nodup)
      (hentries : ∀ e ∈ entries, Keyed e.2) : Keyed (.table entries)
  | single {d : Datum} (hlist : ∀ items, d ≠ .list items)
      (htable : ∀ entries, d ≠ .table entries) : Keyed d

theorem Keyed.of_list {items : List Datum} (hkeyed : Keyed (.list items)) :
    ∀ d ∈ items, Keyed d := by
  cases hkeyed with
  | list hitems => exact hitems
  | single hlist => exact absurd rfl (hlist items)

theorem Keyed.of_table {entries : List (Text × Datum)} (hkeyed : Keyed (.table entries)) :
    (entries.map Prod.fst).Nodup ∧ ∀ e ∈ entries, Keyed e.2 := by
  cases hkeyed with
  | table hkeys hentries => exact ⟨hkeys, hentries⟩
  | single _ htable => exact absurd rfl (htable entries)

/-! ## Tables -/

theorem mem_setEntry {key : Text} {d : Datum} {entries : List (Text × Datum)}
    {e : Text × Datum} (he : e ∈ Datum.setEntry key d entries) : e = (key, d) ∨ e ∈ entries := by
  induction entries with
  | nil => exact .inl (List.mem_singleton.mp he)
  | cons first rest ih =>
      unfold Datum.setEntry at he
      split at he
      next heq =>
        subst heq
        rcases List.mem_cons.mp he with rfl | hmem
        · exact .inl rfl
        · exact .inr (List.mem_cons_of_mem _ hmem)
      next =>
        rcases List.mem_cons.mp he with rfl | hmem
        · exact .inr List.mem_cons_self
        · exact (ih hmem).imp_right (List.mem_cons_of_mem _)

theorem nodup_setEntry {key : Text} {entries : List (Text × Datum)} (d : Datum)
    (hkeys : (entries.map Prod.fst).Nodup) :
    ((Datum.setEntry key d entries).map Prod.fst).Nodup := by
  induction entries with
  | nil => simp [Datum.setEntry]
  | cons first rest ih =>
      obtain ⟨hnew, hrest⟩ := List.nodup_cons.mp hkeys
      unfold Datum.setEntry
      split
      next => exact hkeys
      next hne =>
        refine List.nodup_cons.mpr ⟨?_, ih hrest⟩
        intro hmem
        obtain ⟨e, he, hfst⟩ := List.mem_map.mp hmem
        rcases mem_setEntry he with rfl | hold
        · exact hne hfst.symm
        · exact hnew (List.mem_map.mpr ⟨e, hold, hfst⟩)

theorem keyed_foldl_setEntry {pairs entries : List (Text × Datum)}
    (hpairs : ∀ e ∈ pairs, Keyed e.2) (hkeyed : Keyed (.table entries)) :
    Keyed (.table (pairs.foldl (fun found (key, d) => Datum.setEntry key d found) entries)) := by
  induction pairs generalizing entries with
  | nil => exact hkeyed
  | cons pair pairs ih =>
      obtain ⟨key, d⟩ := pair
      obtain ⟨hkeys, hentries⟩ := hkeyed.of_table
      refine ih (fun e he => hpairs e (List.mem_cons_of_mem _ he)) ?_
      refine .table (nodup_setEntry d hkeys) fun e he => ?_
      rcases mem_setEntry he with rfl | hold
      · exact hpairs (key, d) List.mem_cons_self
      · exact hentries e hold

theorem keyed_tableEntries {pairs : List (Text × Datum)} (hpairs : ∀ e ∈ pairs, Keyed e.2) :
    Keyed (.table (Datum.tableEntries pairs)) :=
  keyed_foldl_setEntry hpairs (.table (by simp) (by simp))

/-! ## Values -/

theorem keyed_of_unsignedNumber {token t rest : Text} {negative : Bool} {d : Datum}
    (hread : unsignedNumber token negative t = .ok (d, rest)) : Keyed d := by
  unfold unsignedNumber at hread
  split at hread
  · contradiction
  · split at hread
    split at hread
    split at hread
    · split at hread
      · contradiction
      · obtain ⟨rfl, -⟩ := Prod.mk.inj (Except.ok.inj hread)
        exact .single (by simp) (by simp)
    · obtain ⟨rfl, -⟩ := Prod.mk.inj (Except.ok.inj hread)
      exact .single (by simp) (by simp)

theorem keyed_of_number {t rest : Text} {d : Datum} (hread : number t = .ok (d, rest)) :
    Keyed d := by
  unfold number at hread
  split at hread
  · exact keyed_of_unsignedNumber hread
  · exact keyed_of_unsignedNumber hread

/-- What is read with this much fuel has distinct keys in its tables. -/
structure ReadsKeyed (fuel : Nat) : Prop where
  value : ∀ {room? : Option Nat} {t rest : Text} {d : Datum},
    value room? fuel t = .ok (d, rest) → Keyed d
  items : ∀ {room? : Option Nat} {t rest : Text} {found : List Datum},
    items room? fuel t = .ok (found, rest) → ∀ d ∈ found, Keyed d
  entries : ∀ {room? : Option Nat} {t rest : Text} {found : List (Text × Datum)},
    entries room? fuel t = .ok (found, rest) → ∀ e ∈ found, Keyed e.2

theorem readsKeyed_zero : ReadsKeyed 0 where
  value := fun hread => by rw [value.eq_def] at hread; contradiction
  items := fun hread => by rw [items.eq_def] at hread; contradiction
  entries := fun hread => by rw [entries.eq_def] at hread; contradiction

section

variable {fuel : Nat} (hfuel : ReadsKeyed fuel) {room? : Option Nat}
include hfuel

theorem keyed_of_value_succ {t rest : Text} {d : Datum}
    (hread : value room? (fuel + 1) t = .ok (d, rest)) : Keyed d := by
  rw [value.eq_def] at hread
  simp only [] at hread
  split at hread
  next =>
    split at hread
    next => cases hread; exact .single (by simp) (by simp)
    next => contradiction
  next =>
    obtain ⟨room?, hread⟩ := inBracket_eq_ok hread
    split at hread
    next => cases hread; exact .table (by simp) (by simp)
    next =>
      split at hread
      next hentries => cases hread; exact keyed_tableEntries (hfuel.entries hentries)
      next => contradiction
  next =>
    obtain ⟨room?, hread⟩ := inBracket_eq_ok hread
    split at hread
    next => cases hread; exact .list (by simp)
    next =>
      split at hread
      next hitems => cases hread; exact .list (hfuel.items hitems)
      next => contradiction
  all_goals
    first
      | exact keyed_of_number hread
      | cases hread
        exact .single (by simp) (by simp)

theorem keyed_of_items_succ {t rest : Text} {found : List Datum}
    (hread : items room? (fuel + 1) t = .ok (found, rest)) : ∀ d ∈ found, Keyed d := by
  rw [items.eq_def] at hread
  simp only [] at hread
  split at hread
  next => contradiction
  next hvalue =>
    have hfirst := hfuel.value hvalue
    split at hread
    next =>
      cases hread
      simpa using hfirst
    next =>
      split at hread
      next hitems =>
        cases hread
        intro d hd
        rcases List.mem_cons.mp hd with rfl | hd
        · exact hfirst
        · exact hfuel.items hitems d hd
      next => contradiction
    next => contradiction

theorem keyed_of_entries_succ {t rest : Text} {found : List (Text × Datum)}
    (hread : entries room? (fuel + 1) t = .ok (found, rest)) : ∀ e ∈ found, Keyed e.2 := by
  rw [entries.eq_def] at hread
  simp only [] at hread
  split at hread
  next =>
    split at hread
    next => contradiction
    next =>
      split at hread
      next =>
        split at hread
        next => contradiction
        next hvalue =>
          have hfirst := hfuel.value hvalue
          split at hread
          next =>
            cases hread
            simpa using hfirst
          next =>
            split at hread
            next hentries =>
              cases hread
              intro e he
              rcases List.mem_cons.mp he with rfl | he
              · exact hfirst
              · exact hfuel.entries hentries e he
            next => contradiction
          next => contradiction
      next => contradiction
  next => contradiction

end

theorem readsKeyed (fuel : Nat) : ReadsKeyed fuel := by
  induction fuel with
  | zero => exact readsKeyed_zero
  | succ fuel ih =>
      exact ⟨keyed_of_value_succ ih, keyed_of_items_succ ih, keyed_of_entries_succ ih⟩

/-- No table in a document holds a key twice. -/
theorem keyed_of_read {document : Text} {d : Datum} (hread : read document = .ok d) : Keyed d := by
  unfold read readWithin at hread
  split at hread
  · contradiction
  · split at hread
    next => contradiction
    next hvalue =>
      split at hread
      · obtain rfl := Except.ok.inj hread
        exact (readsKeyed _).value hvalue
      · contradiction

end LexicalPaths.Json
