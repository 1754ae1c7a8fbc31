import LexicalPaths.Host.Access
import Mathlib.Tactic.Common

/-!
# What actions do

An action takes a host to an outcome and to the host that it leaves behind.  A successful action
was successful in each of its parts.  What every part of an action maintains, whether the part
succeeds or fails, the action maintains: failures that are caught do not undo what was done before.
-/

namespace LexicalPaths.Act

/-- The outcome of an action on a host, and the host after it. -/
def result {α : Type} (act : Act α) (host : Host) : Except Failure α × Host :=
  act.run.run host

section

variable {α β : Type} (host : Host)

@[simp] theorem result_get : (get : Act Host).result host = (.ok host, host) := rfl

@[simp] theorem result_modify (f : Host → Host) :
    (modify f : Act Unit).result host = (.ok (), f host) := rfl

theorem result_bind (act : Act α) (next : α → Act β) :
    (act >>= next).result host =
      match act.result host with
      | (.ok a, later) => (next a).result later
      | (.error failure, later) => (.error failure, later) := by
  simp only [result, ExceptT.run_bind, StateT.run_bind]
  rcases act.run.run host with ⟨outcome | outcome, later⟩ <;> rfl

theorem result_tryCatch (act : Act α) (handle : Failure → Act α) :
    (tryCatch act handle).result host =
      match act.result host with
      | (.ok a, later) => (.ok a, later)
      | (.error failure, later) => (handle failure).result later := by
  simp only [result, ExceptT.run_tryCatch, StateT.run_bind]
  rcases act.run.run host with ⟨outcome | outcome, later⟩ <;> rfl

end

/-! ## Success -/

section

variable {α β : Type} {host last : Host}

theorem bind_eq_ok {act : Act α} {next : α → Act β} {b : β}
    (hresult : (act >>= next).result host = (.ok b, last)) :
    ∃ a later, act.result host = (.ok a, later) ∧ (next a).result later = (.ok b, last) := by
  rw [result_bind] at hresult
  rcases hact : act.result host with ⟨failure | a, later⟩
  · rw [hact] at hresult
    nomatch hresult
  · rw [hact] at hresult
    exact ⟨a, later, rfl, hresult⟩

theorem bind_of_ok {act : Act α} {next : α → Act β} {a : α} {later : Host}
    (hact : act.result host = (.ok a, later)) :
    (act >>= next).result host = (next a).result later := by
  rw [result_bind, hact]

theorem lift_eq_ok {ε : Type} {failure : ε → Failure} {outcome : Except ε α} {a : α}
    (hresult : (lift failure outcome).result host = (.ok a, last)) :
    outcome = .ok a ∧ last = host := by
  cases outcome with
  | error e => nomatch hresult
  | ok b =>
      obtain ⟨hok, rfl⟩ := Prod.mk.inj hresult
      obtain rfl := Except.ok.inj hok
      exact ⟨rfl, rfl⟩

theorem lift_of_ok {ε : Type} {failure : ε → Failure} {outcome : Except ε α} {a : α}
    (hok : outcome = .ok a) : (lift failure outcome).result host = (.ok a, host) := by
  rw [hok]
  rfl

/-- A failure that is reported is passed on. -/
theorem reporting_eq_ok {report : Failure → Act Unit} {act : Act α} {a : α}
    (hresult : (reporting report act).result host = (.ok a, last)) :
    act.result host = (.ok a, last) := by
  rw [reporting, result_tryCatch] at hresult
  rcases hact : act.result host with ⟨failure | b, later⟩
  · rw [hact] at hresult
    obtain ⟨_, _, -, hthrow⟩ := bind_eq_ok hresult
    nomatch hthrow
  · rw [hact] at hresult
    exact hresult

theorem reporting_of_ok {report : Failure → Act Unit} {act : Act α} {a : α}
    (hact : act.result host = (.ok a, last)) :
    (reporting report act).result host = (.ok a, last) := by
  rw [reporting, result_tryCatch, hact]

end

/-! ## Failure -/

section

variable {α β : Type} {host last : Host} {failure : Failure}

/-- An action that fails has failed in its first part or behind it. -/
theorem bind_eq_error {act : Act α} {next : α → Act β}
    (hresult : (act >>= next).result host = (.error failure, last)) :
    act.result host = (.error failure, last) ∨
      ∃ a later, act.result host = (.ok a, later) ∧
        (next a).result later = (.error failure, last) := by
  rw [result_bind] at hresult
  rcases hact : act.result host with ⟨other | a, later⟩
  · rw [hact] at hresult
    obtain ⟨herror, rfl⟩ := Prod.mk.inj hresult
    obtain rfl := Except.error.inj herror
    exact .inl rfl
  · rw [hact] at hresult
    exact .inr ⟨a, later, rfl, hresult⟩

theorem bind_of_error {act : Act α} {next : α → Act β}
    (hact : act.result host = (.error failure, last)) :
    (act >>= next).result host = (.error failure, last) := by
  rw [result_bind, hact]

/-- A failure is reported on the host that it has left behind. -/
theorem reporting_eq_error {report : Failure → Act Unit} {act : Act α}
    (hresult : (reporting report act).result host = (.error failure, last)) :
    ∃ first later, act.result host = (.error first, later) ∧
      last = ((report first).result later).2 := by
  rw [reporting, result_tryCatch] at hresult
  rcases hact : act.result host with ⟨first | a, later⟩
  · rw [hact] at hresult
    refine ⟨first, later, rfl, ?_⟩
    rcases bind_eq_error hresult with hreport | ⟨_, reported, hreport, hthrow⟩
    · rw [hreport]
    · rw [hreport]
      exact (Prod.mk.inj hthrow).2.symm
  · rw [hact] at hresult
    nomatch hresult

theorem reporting_of_error {report : Failure → Act Unit} {act : Act α} {later : Host}
    (hact : act.result host = (.error failure, later))
    (hreport : (report failure).result later = (.ok (), last)) :
    (reporting report act).result host = (.error failure, last) := by
  rw [reporting, result_tryCatch, hact]
  exact bind_of_ok hreport

end

/-! ## However it ends -/

section

variable {α β : Type} {host : Host} {property : Host → Prop}

theorem ends_bind {act : Act α} {next : α → Act β} (hact : property (act.result host).2)
    (hnext : ∀ a later, act.result host = (.ok a, later) → property later →
      property ((next a).result later).2) :
    property ((act >>= next).result host).2 := by
  rw [result_bind]
  rcases hresult : act.result host with ⟨failure | a, later⟩
  · rwa [hresult] at hact
  · rw [hresult] at hact
    exact hnext a later hresult hact

theorem ends_tryCatch {act : Act α} {handle : Failure → Act α}
    (hact : property (act.result host).2)
    (hhandle : ∀ failure later, property later → property ((handle failure).result later).2) :
    property ((tryCatch act handle).result host).2 := by
  rw [result_tryCatch]
  rcases hresult : act.result host with ⟨failure | a, later⟩
  · rw [hresult] at hact
    exact hhandle failure later hact
  · rwa [hresult] at hact

theorem ends_reporting {report : Failure → Act Unit} {act : Act α}
    (hact : property (act.result host).2)
    (hreport : ∀ failure later, property later → property ((report failure).result later).2) :
    property ((reporting report act).result host).2 := by
  refine ends_tryCatch hact fun failure later hlater => ?_
  exact ends_bind (hreport failure later hlater) fun _ _ _ hlast => hlast

end

/-! ## What is maintained -/

/-- However the action ends, the host after it stands in the relation to the host before. -/
def Maintains {α : Type} (relation : Host → Host → Prop) (act : Act α) : Prop :=
  ∀ host, relation host (act.result host).2

/-- The action leaves the host as it is. -/
def Looks {α : Type} (act : Act α) : Prop :=
  ∀ host, (act.result host).2 = host

section

variable {α β : Type} {relation : Host → Host → Prop}

theorem Maintains.after {act : Act α} (hact : act.Maintains relation) {host last : Host}
    {outcome : Except Failure α} (hresult : act.result host = (outcome, last)) :
    relation host last := by
  have hmaintained := hact host
  rwa [hresult] at hmaintained

theorem Looks.after {act : Act α} (hact : act.Looks) {host last : Host}
    {outcome : Except Failure α} (hresult : act.result host = (outcome, last)) : last = host := by
  have hlooked := hact host
  rwa [hresult] at hlooked

theorem Looks.maintains {act : Act α} (hact : act.Looks) (hrefl : ∀ host, relation host host) :
    act.Maintains relation := by
  intro host
  rw [hact host]
  exact hrefl host

theorem looks_pure (a : α) : (pure a : Act α).Looks := fun _ => rfl

theorem looks_throw (failure : Failure) : (throw failure : Act α).Looks := fun _ => rfl

theorem looks_get : (get : Act Host).Looks := fun _ => rfl

theorem looks_lift {ε : Type} (failure : ε → Failure) (outcome : Except ε α) :
    (lift failure outcome).Looks := by
  cases outcome with
  | error e => exact looks_throw _
  | ok a => exact looks_pure a

variable (htrans : ∀ ⦃host later last⦄, relation host later → relation later last →
  relation host last)
include htrans

theorem Maintains.bind {act : Act α} {next : α → Act β} (hact : act.Maintains relation)
    (hnext : ∀ a, (next a).Maintains relation) : (act >>= next).Maintains relation := fun host =>
  ends_bind (hact host) fun a later _ hlater => htrans hlater (hnext a later)

theorem Maintains.tryCatch {act : Act α} {handle : Failure → Act α}
    (hact : act.Maintains relation) (hhandle : ∀ failure, (handle failure).Maintains relation) :
    (tryCatch act handle).Maintains relation := fun host =>
  ends_tryCatch (hact host) fun failure later hlater => htrans hlater (hhandle failure later)

theorem Maintains.reporting {report : Failure → Act Unit} {act : Act α}
    (hact : act.Maintains relation) (hreport : ∀ failure, (report failure).Maintains relation) :
    (reporting report act).Maintains relation := fun host =>
  ends_reporting (hact host) fun failure later hlater => htrans hlater (hreport failure later)

end

theorem Looks.bind {α β : Type} {act : Act α} {next : α → Act β} (hact : act.Looks)
    (hnext : ∀ a, (next a).Looks) : (act >>= next).Looks := by
  have hmaintained : (act >>= next).Maintains fun host later => later = host :=
    .bind (fun _ _ _ hone htwo => htwo.trans hone) hact hnext
  exact hmaintained

theorem Looks.tryCatch {α : Type} {act : Act α} {handle : Failure → Act α} (hact : act.Looks)
    (hhandle : ∀ failure, (handle failure).Looks) : (tryCatch act handle).Looks := by
  have hmaintained : (MonadExcept.tryCatch act handle).Maintains fun host later => later = host :=
    .tryCatch (fun _ _ _ hone htwo => htwo.trans hone) hact hhandle
  exact hmaintained

end LexicalPaths.Act
