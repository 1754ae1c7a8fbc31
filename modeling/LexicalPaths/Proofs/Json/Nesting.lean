import LexicalPaths.Proofs.Json.Keys

/-!
# Reading with limited room

A reader that may open only so many brackets in each other reads what a reader without a limit
reads, until it meets a bracket that there is no room for.  Without a limit there is room for all of
them.
-/

namespace LexicalPaths.Json

/-! ## Room without end -/

theorem stringFrom_ne_tooDeep (opening : Nat) (t : Text) :
    stringFrom opening t ≠ .error .tooDeep := by
  have hcons : ∀ c (r : Read Text), r ≠ .error .tooDeep → consRead c r ≠ .error .tooDeep := by
    intro c r hr
    cases r with
    | ok found => exact fun hread => by cases hread
    | error e => exact fun h => hr (by rw [Except.error.inj h])
  fun_induction stringFrom opening t with
  | case6 | case7 | case8 | case10 | case12 | case15 => exact hcons _ _ ‹_›
  | _ => exact fun hread => by cases hread

theorem unsignedNumber_ne_tooDeep (token : Text) (negative : Bool) (t : Text) :
    unsignedNumber token negative t ≠ .error .tooDeep := by
  unfold unsignedNumber
  split
  · exact fun hread => by cases hread
  · split
    split
    split
    · split <;> exact fun hread => by cases hread
    · exact fun hread => by cases hread

theorem number_ne_tooDeep (t : Text) : number t ≠ .error .tooDeep := by
  unfold number
  split <;> exact unsignedNumber_ne_tooDeep _ _ _

/-- With this much fuel no limit is met where there is none. -/
structure ReadsFreely (fuel : Nat) : Prop where
  value : ∀ t, value none fuel t ≠ .error .tooDeep
  items : ∀ t, items none fuel t ≠ .error .tooDeep
  entries : ∀ t, entries none fuel t ≠ .error .tooDeep

theorem readsFreely_zero : ReadsFreely 0 where
  value t := by rw [value.eq_def]; exact fun hread => by cases hread
  items t := by rw [items.eq_def]; exact fun hread => by cases hread
  entries t := by rw [entries.eq_def]; exact fun hread => by cases hread

section

variable {fuel : Nat} (hfuel : ReadsFreely fuel) (t : Text)
include hfuel

theorem value_succ_ne_tooDeep : value none (fuel + 1) t ≠ .error .tooDeep := by
  intro hread
  rw [value.eq_def] at hread
  simp only [inBracket] at hread
  split at hread
  case h_1 =>
    split at hread
    next => cases hread
    next herror =>
      cases hread
      exact stringFrom_ne_tooDeep _ _ herror
  case h_2 =>
    split at hread
    next => cases hread
    next =>
      split at hread
      next => cases hread
      next herror =>
        cases hread
        exact hfuel.entries _ herror
  case h_3 =>
    split at hread
    next => cases hread
    next =>
      split at hread
      next => cases hread
      next herror =>
        cases hread
        exact hfuel.items _ herror
  case h_10 => exact number_ne_tooDeep t hread
  all_goals cases hread

theorem items_succ_ne_tooDeep : items none (fuel + 1) t ≠ .error .tooDeep := by
  intro hread
  rw [items.eq_def] at hread
  simp only [] at hread
  split at hread
  next herror =>
    cases hread
    exact hfuel.value _ herror
  next =>
    split at hread
    next => cases hread
    next =>
      split at hread
      next => cases hread
      next herror =>
        cases hread
        exact hfuel.items _ herror
    next => cases hread

theorem entries_succ_ne_tooDeep : entries none (fuel + 1) t ≠ .error .tooDeep := by
  intro hread
  rw [entries.eq_def] at hread
  simp only [] at hread
  split at hread
  next =>
    split at hread
    next herror =>
      cases hread
      exact stringFrom_ne_tooDeep _ _ herror
    next =>
      split at hread
      next =>
        split at hread
        next herror =>
          cases hread
          exact hfuel.value _ herror
        next =>
          split at hread
          next => cases hread
          next =>
            split at hread
            next => cases hread
            next herror =>
              cases hread
              exact hfuel.entries _ herror
          next => cases hread
      next => cases hread
  next => cases hread

end

theorem readsFreely (fuel : Nat) : ReadsFreely fuel := by
  induction fuel with
  | zero => exact readsFreely_zero
  | succ fuel ih =>
      exact ⟨value_succ_ne_tooDeep ih, items_succ_ne_tooDeep ih, entries_succ_ne_tooDeep ih⟩

theorem read_ne_tooDeep (document : Text) : read document ≠ .error .tooDeep := by
  intro hread
  unfold read readWithin at hread
  split at hread
  next => cases hread
  next =>
    split at hread
    next herror =>
      cases hread
      exact (readsFreely _).value _ herror
    next => split at hread <;> cases hread

/-! ## Limited room -/

/-- The outcome with limited room is that without a limit, unless the room did not do. -/
def Keeps {α : Type} (limited free : Except Error α) : Prop :=
  limited = .error .tooDeep ∨ limited = free

/-- What is read with this much fuel is kept by any limit. -/
structure KeepsAll (fuel : Nat) : Prop where
  value : ∀ room t, Keeps (value (some room) fuel t) (value none fuel t)
  items : ∀ room t, Keeps (items (some room) fuel t) (items none fuel t)
  entries : ∀ room t, Keeps (entries (some room) fuel t) (entries none fuel t)

theorem keepsAll_zero : KeepsAll 0 where
  value room t := by rw [value.eq_def, value.eq_def]; exact .inr rfl
  items room t := by rw [items.eq_def, items.eq_def]; exact .inr rfl
  entries room t := by rw [entries.eq_def, entries.eq_def]; exact .inr rfl

/-- A bracket is opened only if there is room for it. -/
theorem keeps_inBracket (room : Nat) {α : Type} {inner : Option Nat → Read α}
    (hinner : ∀ room, Keeps (inner (some room)) (inner none)) :
    Keeps (inBracket (some room) inner) (inBracket none inner) := by
  cases room with
  | zero => exact .inl rfl
  | succ room => exact hinner room

section

variable {fuel : Nat} (hfuel : KeepsAll fuel) (room : Nat) (t : Text)
include hfuel

theorem keeps_value_succ : Keeps (value (some room) (fuel + 1) t) (value none (fuel + 1) t) := by
  rw [value.eq_def, value.eq_def none]
  simp only []
  split
  case h_2 =>
    refine keeps_inBracket room fun room => ?_
    split
    next => exact .inr rfl
    next =>
      rcases hfuel.entries room _ with h | h
      · rw [h]
        exact .inl rfl
      · rw [h]
        exact .inr rfl
  case h_3 =>
    refine keeps_inBracket room fun room => ?_
    split
    next => exact .inr rfl
    next =>
      rcases hfuel.items room _ with h | h
      · rw [h]
        exact .inl rfl
      · rw [h]
        exact .inr rfl
  all_goals exact .inr rfl

theorem keeps_items_succ : Keeps (items (some room) (fuel + 1) t) (items none (fuel + 1) t) := by
  rw [items.eq_def, items.eq_def none]
  simp only []
  rcases hfuel.value room t with h | h
  · rw [h]
    exact .inl rfl
  · rw [h]
    split
    next => exact .inr rfl
    next =>
      split
      next => exact .inr rfl
      next rest _ =>
        rcases hfuel.items room (skipSpace rest) with h | h
        · rw [h]
          exact .inl rfl
        · rw [h]
          exact .inr rfl
      next => exact .inr rfl

theorem keeps_entries_succ :
    Keeps (entries (some room) (fuel + 1) t) (entries none (fuel + 1) t) := by
  rw [entries.eq_def, entries.eq_def none]
  simp only []
  split
  next =>
    split
    next => exact .inr rfl
    next =>
      split
      next rest _ =>
        rcases hfuel.value room (skipSpace rest) with h | h
        · rw [h]
          exact .inl rfl
        · rw [h]
          split
          next => exact .inr rfl
          next =>
            split
            next => exact .inr rfl
            next rest _ =>
              rcases hfuel.entries room (skipSpace rest) with h | h
              · rw [h]
                exact .inl rfl
              · rw [h]
                exact .inr rfl
            next => exact .inr rfl
      next => exact .inr rfl
  next => exact .inr rfl

end

theorem keepsAll (fuel : Nat) : KeepsAll fuel := by
  induction fuel with
  | zero => exact keepsAll_zero
  | succ fuel ih => exact ⟨keeps_value_succ ih, keeps_items_succ ih, keeps_entries_succ ih⟩

/-- With limited room a document is too deep, or it is read as it is without a limit. -/
theorem keeps_readWithin (room : Nat) (document : Text) :
    Keeps (readWithin (some room) document) (read document) := by
  unfold read readWithin
  split
  next => exact .inr rfl
  next =>
    rcases (keepsAll (2 * document.length + 1)).value room (skipSpace document) with h | h
    · rw [h]
      exact .inl rfl
    · rw [h]
      exact .inr rfl

end LexicalPaths.Json
