import LexicalPaths.Proofs.Host.Access
import LexicalPaths.Proofs.Uri.Split
import LexicalPaths.Provider.Open

/-!
# Registered providers

A provider is kept under its scheme as the caller spells it, and looked up under the scheme of a
URI, which is read in lower case.  So the last call that names the scheme in lower case decides how
a path is opened, and a provider for any other spelling is never reached.
-/

namespace LexicalPaths

/-! ## The registry -/

namespace Providers

variable (providers : Providers) {scheme other : Text} (hother : other ≠ scheme)

theorem get?_register_self (provider : Provider) :
    (providers.register scheme provider).get? scheme = some provider := by
  simp [register, get?]

theorem get?_unregister_self (scheme : Text) :
    (providers.unregister scheme).get? scheme = none := by
  rw [get?, unregister, List.lookup_eq_none_iff]
  intro entry hentry
  rw [bne_comm]
  exact (List.mem_filter.mp hentry).2

include hother

theorem get?_register_of_ne (provider : Provider) :
    (providers.register scheme provider).get? other = providers.get? other := by
  rw [get?, register, List.lookup_cons, beq_false_of_ne hother]
  exact lookup_filter_of_ne providers hother

theorem get?_unregister_of_ne : (providers.unregister scheme).get? other = providers.get? other :=
  lookup_filter_of_ne providers hother

end Providers

@[simp] theorem Host.providers_record (host : Host) (r : LogRecord) :
    (host.record r).providers = host.providers := by
  unfold record
  split <;> rfl

/-- A call that changes the registered providers. -/
inductive Call where
  | register (scheme : Text) (provider : Provider)
  | unregister (scheme : Text)

namespace Call

def scheme : Call → Text
  | register scheme _ => scheme
  | unregister scheme => scheme

/-- The provider that the scheme has after the call. -/
def provider? : Call → Option Provider
  | register _ provider => some provider
  | unregister _ => none

def act : Call → Act Unit
  | register scheme provider => Act.register scheme provider
  | unregister scheme => do let _ ← Act.unregister scheme

/-- The last call that names the scheme. -/
def lastNaming (key : Text) (calls : List Call) : Option Call :=
  calls.reverse.find? fun call => call.scheme = key

theorem lastNaming_cons (key : Text) (call : Call) (calls : List Call) :
    lastNaming key (call :: calls) =
      (lastNaming key calls).or (if call.scheme = key then some call else none) := by
  by_cases hkey : call.scheme = key <;> simp [lastNaming, hkey]

theorem lastNaming_append_of_forall_ne {key : Text} {more : List Call}
    (hmore : ∀ call ∈ more, call.scheme ≠ key) (calls : List Call) :
    lastNaming key (calls ++ more) = lastNaming key calls := by
  have hnone : more.reverse.find? (fun call => call.scheme = key) = none := by
    simpa using hmore
  rw [lastNaming, List.reverse_append, List.find?_append, hnone, Option.none_or]
  rfl

end Call

namespace Host

def afterCalls (host : Host) (calls : List Call) : Host :=
  calls.foldl (fun host call => (call.act.result host).2) host

/-- The provider that the run of calls leaves for the scheme. -/
def providerAfter (host : Host) (calls : List Call) (key : Text) : Option Provider :=
  match Call.lastNaming key calls with
  | some call => call.provider?
  | none => host.providers.get? key

theorem get?_act (host : Host) (call : Call) (key : Text) :
    (call.act.result host).2.providers.get? key =
      if call.scheme = key then call.provider? else host.providers.get? key := by
  cases call with
  | register scheme provider =>
      show (Host.record _ _).providers.get? key = _
      rw [providers_record]
      split
      next hkey =>
        rw [← hkey]
        exact Providers.get?_register_self _ provider
      next hkey => exact Providers.get?_register_of_ne _ (Ne.symm hkey) provider
  | unregister scheme =>
      show (host.providers.unregister scheme).get? key = _
      split
      next hkey =>
        rw [← hkey]
        exact Providers.get?_unregister_self _ scheme
      next hkey => exact Providers.get?_unregister_of_ne _ (Ne.symm hkey)

/-- Only the last call that names a scheme matters for it. -/
theorem get?_afterCalls (host : Host) (calls : List Call) (key : Text) :
    (host.afterCalls calls).providers.get? key = host.providerAfter calls key := by
  induction calls generalizing host with
  | nil => rfl
  | cons call calls ih =>
      rw [afterCalls, List.foldl_cons, ← afterCalls, ih, providerAfter, providerAfter,
        Call.lastNaming_cons, get?_act]
      cases Call.lastNaming key calls with
      | some last => rfl
      | none => by_cases hkey : call.scheme = key <;> simp [hkey]

end Host

/-! ## Opening -/

/-- How the provider opens a path. -/
def Provider.access (provider : Provider) (uri raw : Text) : Act Handle :=
  match provider with
  | .host => return .path (.ofText raw)
  | .archive => Act.openArchive uri raw
  | .custom access => Act.lift id (access uri raw)

namespace Act

/-- Opens a path with a provider, if there is one. -/
def openWith (provider? : Option Provider) (p : Path) : Act (Option Handle) :=
  match provider? with
  | none => do
    log .debug ("No filesystem provider for ".toList ++ p.uri)
    return none
  | some provider => do return some (← provider.access p.uri p.raw)

theorem result_openPath {p : Path} {parts : Uri.Parts} (hsplit : Uri.split p.uri = .ok parts)
    (host : Host) :
    (openPath p).result host =
      (openWith (host.providers.get? parts.scheme) p).result host := by
  rw [openPath, bind_of_ok (lift_of_ok hsplit), bind_of_ok (result_get host)]
  cases host.providers.get? parts.scheme with
  | none => rfl
  | some provider => cases provider <;> rfl

theorem result_openWith_custom (access : Text → Text → Except Failure Handle) (p : Path)
    (host : Host) :
    (openWith (some (.custom access)) p).result host =
      ((access p.uri p.raw).map some, host) := by
  show (lift id (access p.uri p.raw) >>= _).result host = _
  cases access p.uri p.raw <;> rfl

/-- What the last call that names the scheme says of it holds for the path. -/
structure OpenedUnder (key : Text) (host : Host) (calls : List Call) (p : Path) : Prop where
  registered : ∀ access, Call.lastNaming key calls = some (.register key (.custom access)) →
    (openPath p).result (host.afterCalls calls) =
      ((access p.uri p.raw).map some, host.afterCalls calls)
  unregistered : Call.lastNaming key calls = some (.unregister key) →
    ((openPath p).result (host.afterCalls calls)).1 = .ok none
  /-- Calls that name other schemes leave the provider from before. -/
  others : ∀ more : List Call, (∀ call ∈ more, call.scheme ≠ key) →
    (openPath p).result (host.afterCalls (calls ++ more)) =
      (openWith (host.providerAfter calls key) p).result (host.afterCalls (calls ++ more))

theorem openedUnder_of_split {p : Path} {parts : Uri.Parts} (hsplit : Uri.split p.uri = .ok parts)
    (host : Host) (calls : List Call) : OpenedUnder parts.scheme host calls p := by
  have hopen : ∀ calls, (openPath p).result (host.afterCalls calls) =
      (openWith (host.providerAfter calls parts.scheme) p).result (host.afterCalls calls) := by
    intro calls
    rw [result_openPath hsplit, Host.get?_afterCalls]
  constructor
  case registered =>
    intro access hlast
    rw [hopen, Host.providerAfter, hlast]
    exact result_openWith_custom access p _
  case unregistered =>
    intro hlast
    rw [hopen, Host.providerAfter, hlast]
    rfl
  case others =>
    intro more hmore
    rw [hopen, Host.providerAfter, Call.lastNaming_append_of_forall_ne hmore]
    rfl

theorem not_openedUnder_of_scheme_ne {s : Text} {p : Path} {parts : Uri.Parts}
    (hsplit : Uri.split p.uri = .ok parts) (hne : parts.scheme ≠ s) (host : Host)
    (access : Text → Text → Except Failure Handle) :
    ¬ OpenedUnder s host [.unregister parts.scheme, .register s (.custom access)] p := by
  -- For the spelling the last call is a registration, but the path is opened under the scheme in
  -- lower case, for which it is the other call.
  intro hopened
  have hspelled := hopened.registered access (by simp [Call.lastNaming, Call.scheme])
  have hnone := (openedUnder_of_split hsplit host
    [.unregister parts.scheme, .register s (.custom access)]).unregistered
    (by simp [Call.lastNaming, Call.scheme, hne.symm])
  rw [hspelled] at hnone
  cases haccess : access p.uri p.raw <;> simp [haccess, Except.map] at hnone

/-- How providers for the scheme `s` serve the paths whose URIs continue with `rest` behind it. -/
structure ReachedInLowerCase (s rest : Text) : Prop where
  opened : ∀ host calls p, p.uri = s ++ ':' :: rest →
    OpenedUnder (s.map Char.toLower) host calls p
  answer : ∀ host calls, ((unregister s).result (Host.afterCalls host calls)).1 =
    .ok (host.providerAfter calls s).isSome
  asSpelled : ∀ host, (∀ calls p, p.uri = s ++ ':' :: rest → OpenedUnder s host calls p) ↔
    s.map Char.toLower = s

/-- Providers are reached under the scheme that they were registered for exactly if it is in lower
case. -/
theorem reachedInLowerCase {s rest : Text} {parts : Uri.Parts} (hs : Uri.isScheme s = true)
    (hsplit : Uri.split (s ++ ':' :: rest) = .ok parts) : ReachedInLowerCase s rest := by
  have hscheme := Uri.scheme_of_isScheme hs hsplit
  have hopened : ∀ host calls p, p.uri = s ++ ':' :: rest →
      OpenedUnder (s.map Char.toLower) host calls p := by
    intro host calls p huri
    rw [← hscheme]
    exact openedUnder_of_split (huri ▸ hsplit) host calls
  constructor
  case opened => exact hopened
  case answer =>
    intro host calls
    rw [← Host.get?_afterCalls]
    rfl
  case asSpelled =>
    intro host
    constructor
    · intro hall
      by_contra hne
      refine not_openedUnder_of_scheme_ne (p := .parse (s ++ ':' :: rest) []) hsplit ?_ host
        (fun _ _ => .ok (.path (.ofText []))) (hall _ _ rfl)
      rw [hscheme]
      exact hne
    · intro hlower calls p huri
      rw [← hlower]
      exact hopened host calls p huri

theorem not_opened_of_upperCase :
    let s := "MEM".toList
    Uri.isScheme s = true ∧
      Uri.split (s ++ ':' :: "/".toList) = .ok ⟨"mem".toList, [], "/".toList, [], []⟩ ∧
      ReachedInLowerCase s "/".toList ∧
      ∀ (host : Host) access, host.providers = .initial →
        ((openPath (.parse (s ++ ':' :: "/".toList) "a".toList)).result
          (host.afterCalls [.register s (.custom access)])).1 = .ok none := by
  intro s
  have hs : Uri.isScheme s = true := by decide
  have hsplit : Uri.split (s ++ ':' :: "/".toList) =
      .ok ⟨"mem".toList, [], "/".toList, [], []⟩ := by rfl
  have hreached := reachedInLowerCase hs hsplit
  refine ⟨hs, hsplit, hreached, fun host access hinitial => ?_⟩
  have hmore : ∀ call ∈ [Call.register s (.custom access)], call.scheme ≠ s.map Char.toLower := by
    rw [List.forall_mem_singleton]
    show s ≠ s.map Char.toLower
    decide
  have hnone : host.providerAfter [] (s.map Char.toLower) = none := by
    rw [Host.providerAfter, hinitial]
    rfl
  have hother := (hreached.opened host [] (.parse (s ++ ':' :: "/".toList) "a".toList) rfl).others
    _ hmore
  rw [hnone, List.nil_append] at hother
  rw [hother]
  rfl

end Act

end LexicalPaths
