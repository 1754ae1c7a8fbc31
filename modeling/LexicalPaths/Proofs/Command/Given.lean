import LexicalPaths.Command.Request
import Mathlib.Tactic.Common

/-!
# What a command line gives

An argument of a command line is a text, or it was left out, and so is the value of an option.  The
values that ask for something else do not come from command lines.
-/

namespace LexicalPaths.Command

/-- A command line gives a text or leaves a value out. -/
inductive IsGiven : Datum → Prop
  | text (t : Text) : IsGiven (.text t)
  | leftOut : IsGiven leftOut

/-- All arguments and values of a reading are given by a command line. -/
structure Reading.IsGiven (reading : Reading) : Prop where
  arguments : ∀ d ∈ reading.arguments, Command.IsGiven d
  values : ∀ e ∈ reading.values, Command.IsGiven e.2

variable {dialect : Dialect}

/-! ## Drafts -/

section

variable {draft : Draft} (hdraft : draft.toReading.IsGiven)
include hdraft

theorem isGiven_take {d : Datum} (hd : IsGiven d) (word : Text) :
    (draft.take d word).toReading.IsGiven := by
  unfold Draft.take
  split
  · exact ⟨hdraft.arguments, hdraft.values⟩
  · refine ⟨fun other hother => ?_, hdraft.values⟩
    rcases List.mem_append.mp hother with hmem | hmem
    · exact hdraft.arguments other hmem
    · rwa [List.mem_singleton.mp hmem]

theorem isGiven_foldl_takeDivided (words : List Text) :
    (words.foldl (Draft.takeDivided dialect) draft).toReading.IsGiven := by
  induction words generalizing draft with
  | nil => exact hdraft
  | cons word words ih =>
      apply ih
      apply isGiven_take hdraft
      split
      · exact .leftOut
      · exact .text word

theorem isGiven_divide (words : List Text) : (draft.divide dialect words).toReading.IsGiven := by
  unfold Draft.divide
  split
  · exact isGiven_foldl_takeDivided hdraft words
  · split
    · exact isGiven_foldl_takeDivided (isGiven_take hdraft (.text _) _) _
    · exact ⟨hdraft.arguments, hdraft.values⟩

theorem isGiven_setValue {rule : Rule} {t : Text} {later : Draft}
    (hset : draft.setValue dialect rule t = .ok later) : later.toReading.IsGiven := by
  unfold Draft.setValue at hset
  cases hvalue : rule.valueOf dialect t with
  | error error =>
      rw [hvalue] at hset
      contradiction
  | ok d =>
      rw [hvalue] at hset
      obtain rfl := Except.ok.inj hset
      have hd : IsGiven d := by
        unfold Rule.valueOf at hvalue
        split at hvalue
        · obtain rfl := Except.ok.inj hvalue
          exact .leftOut
        · split at hvalue
          · obtain rfl := Except.ok.inj hvalue
            exact .text t
          · contradiction
      refine ⟨hdraft.arguments, fun e he => ?_⟩
      rcases List.mem_append.mp he with hmem | hmem
      · exact hdraft.values e hmem
      · obtain rfl := List.mem_singleton.mp hmem
        exact hd

end

theorem isGiven_takeWords {program : Text} {draft last : Draft} {words : List Word}
    (hdraft : draft.toReading.IsGiven) (htake : draft.takeWords dialect program words = .ok last) :
    last.toReading.IsGiven := by
  -- The cases are those of the next word; the reading changes where a value is taken.
  induction draft, words using Draft.takeWords.induct dialect with
  | case1 draft =>
      obtain rfl := Except.ok.inj htake
      exact hdraft
  | case2 draft t rest ih => exact ih (isGiven_take hdraft (.text t) t) htake
  | case3 => nomatch htake
  | case4 => nomatch htake
  | case5 draft t rest ih => exact ih ⟨hdraft.arguments, hdraft.values⟩ htake
  | case6 draft rule value rest hvalue later hset ih =>
      rw [Draft.takeWords, if_pos hvalue, hset] at htake
      exact ih (isGiven_setValue hdraft hset) htake
  | case7 draft rule value rest hvalue error hset =>
      rw [Draft.takeWords, if_pos hvalue, hset] at htake
      nomatch htake
  | case8 draft rule value rest hvalue =>
      rw [Draft.takeWords, if_neg hvalue] at htake
      nomatch htake
  | case9 draft rule hvalue value rest later hset ih =>
      rw [Draft.takeWords, if_pos hvalue, hset] at htake
      exact ih (isGiven_setValue hdraft hset) htake
  | case10 draft rule hvalue value rest error hset =>
      rw [Draft.takeWords, if_pos hvalue, hset] at htake
      nomatch htake
  | case11 draft rule rest hvalue hnone =>
      rw [Draft.takeWords, if_pos hvalue] at htake
      · nomatch htake
      · exact hnone
  | case12 draft rule rest hvalue ih =>
      unfold Draft.takeWords at htake
      rw [if_neg hvalue] at htake
      exact ih ⟨hdraft.arguments, hdraft.values⟩ htake

/-! ## Requests -/

theorem exists_ok_of_bind {ε α β : Type} {first : Except ε α} {next : α → Except ε β} {b : β}
    (hbind : first >>= next = .ok b) : ∃ a, first = .ok a ∧ next a = .ok b := by
  cases first with
  | error e => nomatch hbind
  | ok a => exact ⟨a, rfl, hbind⟩

theorem Grammar.isGiven_of_read {grammar : Grammar} {words : List Text} {reading : Reading}
    (hread : grammar.read dialect words = .ok reading) : reading.IsGiven := by
  unfold Grammar.read at hread
  split at hread
  next => contradiction
  next line _ =>
    obtain ⟨draft, htake, hrest⟩ := exists_ok_of_bind hread
    have hstart : (Draft.start grammar.arguments).toReading.IsGiven :=
      ⟨by simp [Draft.start], by simp [Draft.start]⟩
    have hdraft := isGiven_takeWords hstart htake
    cases hdivided : line.divided? with
    | none =>
        simp only [hdivided] at hrest
        split at hrest
        next =>
          obtain rfl := Except.ok.inj hrest
          exact hdraft
        next => contradiction
    | some words =>
        simp only [hdivided] at hrest
        split at hrest
        next =>
          obtain rfl := Except.ok.inj hrest
          exact isGiven_divide hdraft words
        next => contradiction

theorem Reading.IsGiven.argument {reading : Reading} (hreading : reading.IsGiven) (place : Nat) :
    Command.IsGiven (reading.argument place) := by
  unfold Reading.argument
  cases hplace : reading.arguments[place]? with
  | none => exact .leftOut
  | some d => exact hreading.arguments d (List.mem_of_getElem? hplace)

/-- The type of an output that a command line records is a text, or it was left out. -/
theorem isGiven_type_of_read {words : List Text} {request : Request}
    (hread : Request.read dialect words = .ok request) {folder type path : Datum}
    {properties : List Datum} (htask : request.task = .record folder type path properties) :
    IsGiven type := by
  obtain ⟨opening, -, hopening⟩ := exists_ok_of_bind hread
  obtain ⟨reading, hreading, hrest⟩ := exists_ok_of_bind hopening
  have hgiven := Grammar.isGiven_of_read hreading
  split at hrest
  next =>
    obtain rfl := Except.ok.inj hrest
    unfold Request.ofReading Task.ofReading at htask
    split at htask
    all_goals cases htask
    exact hgiven.argument 1
  next => contradiction

end LexicalPaths.Command
