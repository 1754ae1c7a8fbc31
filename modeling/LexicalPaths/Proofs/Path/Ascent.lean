import LexicalPaths.Proofs.Path.LastName

/-!
# Walking up

From a path one reaches its parent, the parent of that, and so on.  Every step takes off the last
name with the separator before it.  As long as the names text does not start with a separator,
that is at most one name that is not empty, so the walk passes every folder on its way to the top.
-/

namespace LexicalPaths

namespace Separator

/-- The text in front of the last piece, without the separator between the two. -/
def front (t : Text) : Text :=
  (beforeLastPiece (trimEnd t)).dropLast

theorem isPrefix_trimEnd (t : Text) : trimEnd t <+: t := by
  unfold trimEnd
  split
  · exact List.dropLast_prefix t
  · exact List.prefix_refl t

theorem isPrefix_front (t : Text) : front t <+: t :=
  (List.dropLast_prefix _).trans ((List.rdropWhile_prefix _ _).trans (isPrefix_trimEnd t))

theorem length_front_lt {t : Text} (hne : t ≠ []) : (front t).length < t.length := by
  have hpos := List.length_pos_iff.mpr hne
  have hbefore := length_beforeLastPiece_le (trimEnd t)
  have htrim := (isPrefix_trimEnd t).length_le
  rw [front, List.length_dropLast]
  omega

theorem StartsBare.of_isPrefix {t u : Text} (ht : StartsBare t) (hbegins : u <+: t) :
    StartsBare u := by
  obtain ⟨v, rfl⟩ := hbegins
  cases u with
  | nil => exact startsBare_nil
  | cons c u => exact startsBare_cons.mpr (startsBare_cons.mp ht)

theorem length_properPieces_lastPiece_le (t : Text) : (properPieces (lastPiece t)).length ≤ 1 := by
  by_cases hnil : lastPiece t = []
  · simp [hnil, properPieces, pieces]
  · rw [properPieces, pieces_of_isName (isName_lastPiece hnil)]
    exact List.length_filter_le _ _

theorem properPieces_front_append (t : Text) :
    properPieces t = properPieces (front t) ++ properPieces (lastPiece (trimEnd t)) := by
  have hsplit := beforeLastPiece_append_lastPiece (trimEnd t)
  rw [← properPieces_trimEnd t, front]
  rcases beforeLastPiece_cases (trimEnd t) with hnil | ⟨u, s, hconcat, hs⟩
  · rw [hnil, List.nil_append] at hsplit
    rw [hnil, hsplit]
    rfl
  · rw [hconcat, List.append_assoc, List.singleton_append] at hsplit
    rw [hconcat, List.dropLast_concat, ← properPieces_append_cons hs, hsplit]

end Separator

namespace Path

open Separator

/-! ## One step -/

/-- What a step up from `p` to `q` keeps, and how little it takes off. -/
structure StepsUp (p q : Path) : Prop where
  uri : q.uri = p.uri
  root? : q.root? = p.root?
  raw : q.raw <+: p.raw
  raw_ne : q.raw ≠ p.raw
  names : ∃ last, p.properNames = q.properNames ++ last ∧ last.length ≤ 1

theorem stop_sub_start_parent {p q : Path} (hq : p.parent? = some q) :
    q.stop - q.start < p.stop - p.start := by
  have hend : p.namesEnd ≤ p.stop := by
    unfold namesEnd
    split <;> omega
  have hname := nameStart_le p p.namesEnd
  unfold parent? at hq
  split at hq
  · contradiction
  · split at hq
    · unfold Path.root? at hq
      split at hq
      · contradiction
      · obtain rfl := Option.some.inj hq
        simp only
        omega
    · obtain rfl := Option.some.inj hq
      simp only
      omega

namespace WellFormed

variable {p q : Path} (hp : p.WellFormed)
include hp

theorem properNames_eq_front :
    p.properNames =
      properPieces (front p.namesText) ++ properPieces (lastPiece (trimEnd p.namesText)) := by
  rw [hp.properNames_eq, ← properPieces_front_append]

theorem parent?_eq_none (hnone : p.parent? = none) :
    trimEnd p.namesText = [] ∨
      (beforeLastPiece (trimEnd p.namesText)).length ≤ 1 ∧ p.root? = none := by
  unfold parent? at hnone
  split at hnone
  next hnil => exact .inl (hp.namesEnd_le_start_iff.mp hnil)
  · split at hnone
    next hone => exact .inr ⟨hp.nameStart_le_iff.mp hone, hnone⟩
    · contradiction

/-- Where there is no way up, at most one name is left. -/
theorem length_properNames_le (hnone : p.parent? = none) : p.properNames.length ≤ 1 := by
  have hfront : front p.namesText = [] := by
    apply List.eq_nil_of_length_eq_zero
    rw [front, List.length_dropLast]
    rcases hp.parent?_eq_none hnone with hnil | ⟨hone, -⟩
    · rw [hnil]
      rfl
    · omega
  rw [hp.properNames_eq_front, hfront]
  exact length_properPieces_lastPiece_le _

/-- A step up leads to the root, or to names in front of the last one. -/
theorem parent?_eq_some (hq : p.parent? = some q) :
    p.namesText ≠ [] ∧ q.uri = p.uri ∧ q.rootText = p.rootText ∧ q.root? = p.root? ∧
      q.namesText = front p.namesText ∧ (q.namesText = [] → p.root? = some q) := by
  unfold parent? at hq
  split at hq
  · contradiction
  next hnames =>
    have hne : p.namesText ≠ [] := by
      intro hnil
      apply hnames
      rw [hp.namesEnd_le_start_iff, names_view, hnil]
      rfl
    split at hq
    next hone =>
      have hroot := hq
      have hfront : front p.namesText = [] := by
        apply List.eq_nil_of_length_eq_zero
        rw [front, List.length_dropLast]
        exact Nat.sub_eq_zero_of_le (hp.nameStart_le_iff.mp hone)
      unfold root? at hq
      split at hq
      · contradiction
      · obtain rfl := Option.some.inj hq
        refine ⟨hne, rfl, rfl, rfl, ?_, fun _ => hroot⟩
        rw [hfront]
        exact slice_self _ _
    next hone =>
      obtain rfl := Option.some.inj hq
      have hlong := Nat.lt_of_not_le (hp.nameStart_le_iff.not.mp hone)
      have hfront := hp.slice_parent hlong
      refine ⟨hne, rfl, rfl, rfl, hfront, fun hnil => ?_⟩
      have hlength := congrArg List.length (hfront.symm.trans hnil)
      rw [names_view] at hlong
      rw [List.length_dropLast, List.length_nil] at hlength
      omega

end WellFormed

theorem stepsUp_of_parent? {p q : Path} (hp : p.WellFormed) (hq : p.parent? = some q) :
    StepsUp p q := by
  obtain ⟨hne, huri, hrootText, hroot, hnames, -⟩ := hp.parent?_eq_some hq
  have hlt := length_front_lt hne
  constructor
  case uri => exact huri
  case root? => exact hroot
  case raw =>
    rw [raw, raw, hrootText, hnames, List.prefix_append_right_inj]
    exact isPrefix_front _
  case raw_ne =>
    intro heq
    rw [raw, raw, hrootText, List.append_cancel_left_eq, hnames] at heq
    rw [heq] at hlt
    exact Nat.lt_irrefl _ hlt
  case names =>
    refine ⟨_, ?_, length_properPieces_lastPiece_le (trimEnd p.namesText)⟩
    rw [hp.properNames_eq_front, (hp.parent hq).properNames_eq, hnames]

/-! ## All steps -/

/-- The parent of a path, the parent of that, and so on. -/
def ancestors (p : Path) : List Path :=
  match _ : p.parent? with
  | none => []
  | some q => q :: ancestors q
termination_by p.stop - p.start
decreasing_by exact stop_sub_start_parent ‹_›

theorem ancestors_of_none {p : Path} (hnone : p.parent? = none) : p.ancestors = [] := by
  rw [ancestors]
  split
  · rfl
  next hq => rw [hnone] at hq; contradiction

theorem ancestors_of_some {p q : Path} (hq : p.parent? = some q) :
    p.ancestors = q :: q.ancestors := by
  rw [ancestors]
  split
  next hnone => rw [hnone] at hq; contradiction
  next hr => rw [hr] at hq; obtain rfl := Option.some.inj hq; rfl

/-- The last of the paths that are met on the way up from `p`, which may be `p` itself. -/
def top (p : Path) : Path :=
  p.ancestors.getLastD p

theorem top_of_some {p q : Path} (hq : p.parent? = some q) : p.top = q.top := by
  rw [top, ancestors_of_some hq, List.getLastD_cons]
  rfl

theorem WellFormed.isChain_ancestors {p : Path} (hp : p.WellFormed) :
    (p :: p.ancestors).IsChain fun q r => q.parent? = some r ∧ StepsUp q r := by
  induction p using ancestors.induct with
  | case1 p hnone => simp [ancestors_of_none hnone]
  | case2 p q hq ih =>
      rw [ancestors_of_some hq, List.isChain_cons_cons]
      exact ⟨⟨hq, stepsUp_of_parent? hp hq⟩, ih (hp.parent hq)⟩

theorem parent?_top (p : Path) : p.top.parent? = none := by
  induction p using ancestors.induct with
  | case1 p hnone => simpa [top, ancestors_of_none hnone] using hnone
  | case2 p q hq ih => rwa [top_of_some hq]

theorem keeps_of_mem_ancestors {p q : Path} (hp : p.WellFormed) (hq : q ∈ p.ancestors) :
    q.uri = p.uri ∧ q.root? = p.root? := by
  induction p using ancestors.induct with
  | case1 p hnone => simp [ancestors_of_none hnone] at hq
  | case2 p r hr ih =>
      have hstep := stepsUp_of_parent? hp hr
      rw [ancestors_of_some hr] at hq
      rcases List.mem_cons.mp hq with rfl | hq
      · exact ⟨hstep.uri, hstep.root?⟩
      · obtain ⟨huri, hroot⟩ := ih (hp.parent hr) hq
        exact ⟨huri.trans hstep.uri, hroot.trans hstep.root?⟩

theorem length_properNames_top_le {p : Path} (hp : p.WellFormed) :
    p.top.properNames.length ≤ 1 := by
  induction p using ancestors.induct with
  | case1 p hnone => simpa [top, ancestors_of_none hnone] using hp.length_properNames_le hnone
  | case2 p q hq ih =>
      rw [top_of_some hq]
      exact ih (hp.parent hq)

theorem top_of_namesText_nil {p : Path} (hp : p.WellFormed) (hnil : p.namesText = []) :
    p.top = p := by
  cases hparent : p.parent? with
  | none => simp [top, ancestors_of_none hparent]
  | some q => exact absurd hnil (hp.parent?_eq_some hparent).1

theorem root?_eq_some_top {p : Path} (hp : p.WellFormed) (hbare : StartsBare p.namesText)
    (hne : p.namesText ≠ []) (hroot : p.root? ≠ none) : p.root? = some p.top := by
  induction p using ancestors.induct with
  | case1 p hnone =>
      rcases hp.parent?_eq_none hnone with hnil | ⟨-, hnil⟩
      · exact absurd hnil (hbare.trimEnd hne).2.1
      · exact absurd hnil hroot
  | case2 p q hq ih =>
      obtain ⟨-, -, -, hsame, hnames, hend⟩ := hp.parent?_eq_some hq
      rw [top_of_some hq]
      by_cases hnil : q.namesText = []
      · rw [top_of_namesText_nil (hp.parent hq) hnil]
        exact hend hnil
      · have hbelow : StartsBare q.namesText := by
          rw [hnames]
          exact hbare.of_isPrefix (isPrefix_front _)
        rw [← hsame] at hroot ⊢
        exact ih (hp.parent hq) hbelow hnil hroot

theorem exists_ancestor {p : Path} (hp : p.WellFormed) {names : List Text} (hne : names ≠ [])
    (hbegins : names <+: p.properNames) (hproper : names ≠ p.properNames) :
    ∃ q ∈ p.ancestors, q.properNames = names := by
  have hpos := List.length_pos_iff.mpr hne
  induction p using ancestors.induct with
  | case1 p hnone =>
      have hle := hbegins.length_le
      have hone := hp.length_properNames_le hnone
      exact absurd (hbegins.eq_of_length (by omega)) hproper
  | case2 p q hq ih =>
      -- A step takes off at most one name, so it leaves what is shorter than all of them.
      obtain ⟨last, hnames, hlast⟩ := (stepsUp_of_parent? hp hq).names
      have hlt : names.length < p.properNames.length :=
        Nat.lt_of_le_of_ne hbegins.length_le fun heq => hproper (hbegins.eq_of_length heq)
      have hbelow : names <+: q.properNames := by
        apply List.prefix_of_prefix_length_le hbegins
        · rw [hnames]
          exact List.prefix_append _ _
        · rw [hnames, List.length_append] at hlt
          omega
      rw [ancestors_of_some hq]
      by_cases heq : q.properNames = names
      · exact ⟨q, List.mem_cons_self, heq⟩
      · obtain ⟨r, hr, hfound⟩ := ih (hp.parent hq) hbelow (Ne.symm heq)
        exact ⟨r, List.mem_cons_of_mem q hr, hfound⟩

/-- The way up from `p` leads to the top and passes every folder. -/
structure Ascent (p : Path) : Prop where
  steps : (p :: p.ancestors).IsChain fun q r => q.parent? = some r ∧ StepsUp q r
  parent?_top : p.top.parent? = none
  keeps : ∀ q ∈ p.ancestors, q.uri = p.uri ∧ q.root? = p.root?
  top_of_root : p.root? ≠ none → p.names ≠ [] → p.root? = some p.top
  length_names_top : p.top.properNames.length ≤ 1
  exists_ancestor : ∀ names, names ≠ [] → names <+: p.properNames → names ≠ p.properNames →
    ∃ q ∈ p.ancestors, q.properNames = names

/-- Walking up from a path that was read ends at the top and passes over no folder. -/
theorem ascent_parse (uri t : Text) : (parse uri t).Ascent := by
  have hp := wellFormed_parse uri t
  constructor
  case steps => exact hp.isChain_ancestors
  case parent?_top => exact Path.parent?_top _
  case keeps => exact fun q => keeps_of_mem_ancestors hp
  case top_of_root =>
    intro hroot hnames
    refine root?_eq_some_top hp ?_ ?_ hroot
    -- The root of a text takes all separators at its end, so none is left before the names.
    · exact (namesText_withRoot ..) ▸ Root.startsBare_drop_length t
    · rintro hnil
      apply hnames
      rw [hp.names_eq, hnil]
      rfl
  case length_names_top => exact length_properNames_top_le hp
  case exists_ancestor => exact fun names => Path.exists_ancestor hp

end Path

end LexicalPaths
