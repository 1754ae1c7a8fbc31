import LexicalPaths.Proofs.Path.Style
import LexicalPaths.Proofs.Path.View

/-!
# Reading the text of a derived path again

A path that was read is what its text says, and so are its root, its parents, its normal form, and
what it leads to from another such path.  A path of names that were taken out of their place is not
always: where a name holds a drive colon, its text is read as a drive, and where the first of the
names is empty, their text starts with a separator.
-/

namespace LexicalPaths.Path

open Separator

/-- The text of the path is read as the path, with the same root and the same names. -/
structure Rereads (p : Path) : Prop where
  beq : (parse p.uri p.raw == p) = true
  root? : (parse p.uri p.raw).root?.map raw = p.root?.map raw
  names : (parse p.uri p.raw).names = p.names

theorem WellFormed.map_raw_root? {p : Path} (hp : p.WellFormed) :
    p.root?.map raw = if p.rootText = [] then none else some p.rootText := by
  cases hroot : p.root? with
  | none => rw [if_pos (hp.root?_eq_none_iff_rootText.mp hroot), Option.map_none]
  | some root =>
      have hne : p.rootText ≠ [] := fun hnil => by
        rw [hp.root?_eq_none_iff_rootText.mpr hnil] at hroot
        contradiction
      rw [if_neg hne, Option.map_some, raw_of_root? hroot]

theorem legible_of_beq {p : Path} (hp : p.WellFormed)
    (hsame : (parse p.uri p.raw == p) = true) : p.Legible := by
  have hread := legible_parse p.uri p.raw
  change (parse p.uri p.raw).same p = true at hsame
  unfold same at hsame
  simp only [Bool.and_eq_true, beq_iff_eq] at hsame
  obtain ⟨⟨-, hroot⟩, hnames⟩ := hsame
  constructor
  case wellFormed => exact hp
  case startsBare => exact hnames ▸ hread.startsBare
  case noDrive =>
    intro hnil
    rw [← hnames]
    exact hread.noDrive (hroot.trans hnil)

theorem Legible.rereads {p : Path} (hp : p.Legible) : p.Rereads := by
  have hroot : (parse p.uri p.raw).rootText = p.rootText := by
    rw [parse, rootText_withRoot, hp.length_raw, raw, List.take_left]
  have hnames : (parse p.uri p.raw).namesText = p.namesText := by
    rw [parse, namesText_withRoot, hp.length_raw, raw, List.drop_left]
  have hread := wellFormed_parse p.uri p.raw
  constructor
  case beq =>
    show (parse p.uri p.raw).same p = true
    rw [same, hroot, hnames]
    simp [parse, withRoot]
  case root? => rw [hread.map_raw_root?, hp.wellFormed.map_raw_root?, hroot]
  case names => rw [hread.names_eq, hp.wellFormed.names_eq, hnames]

theorem WellFormed.rereads_iff {p : Path} (hp : p.WellFormed) : p.Rereads ↔ p.Legible :=
  ⟨fun hread => legible_of_beq hp hread.beq, Legible.rereads⟩

/-! ## Parts -/

theorem mem_lead_append {c : Char} {t : Text} (hc : c ∈ lead t) (u : Text) :
    c ∈ lead (t ++ u) := by
  induction t with
  | nil => simp [lead] at hc
  | cons a t ih =>
      cases ha : isSeparator a with
      | true =>
          rw [lead_cons_separator ha] at hc
          contradiction
      | false =>
          have hcons : ∀ v, lead (a :: v) = a :: lead v := fun v => by simp [lead, ha]
          rw [hcons] at hc
          rw [List.cons_append, hcons]
          rcases List.mem_cons.mp hc with rfl | hc
          · exact List.mem_cons_self
          · exact List.mem_cons_of_mem a (ih hc)

/-- A path whose names are the first of a legible path is legible. -/
theorem Legible.of_append {p q : Path} (hp : p.Legible) (hq : q.WellFormed)
    (hroot : q.rootText = p.rootText) {rest : Text}
    (hnames : p.namesText = q.namesText ++ rest) : q.Legible := by
  have hbare := hp.startsBare
  have hdrive := hp.noDrive
  rw [hnames] at hbare hdrive
  constructor
  case wellFormed => exact hq
  case startsBare =>
    cases hn : q.namesText with
    | nil => exact startsBare_nil
    | cons c t =>
        rw [hn] at hbare
        exact startsBare_cons.mpr (startsBare_cons.mp hbare)
  case noDrive =>
    intro hnil hmem
    exact hdrive (hroot ▸ hnil) (mem_lead_append hmem rest)

theorem legible_of_namesText_nil {p : Path} (hp : p.WellFormed) (hnames : p.namesText = []) :
    p.Legible := by
  constructor
  case wellFormed => exact hp
  case startsBare =>
    rw [hnames]
    exact startsBare_nil
  case noDrive =>
    rw [hnames]
    simp [lead]

theorem legible_root {p r : Path} (hp : p.WellFormed) (hr : p.root? = some r) : r.Legible := by
  apply legible_of_namesText_nil (hp.ofRoot hr)
  unfold root? at hr
  split at hr
  · contradiction
  · rw [← Option.some.inj hr]
    exact slice_self _ _

theorem Legible.parent {p q : Path} (hp : p.Legible) (hq : p.parent? = some q) : q.Legible := by
  have hwf := hp.wellFormed
  have hparent := hwf.parent hq
  unfold parent? at hq
  split at hq
  · contradiction
  split at hq
  · exact legible_root hwf hq
  next hfront =>
    have hend : p.nameStart p.namesEnd - 1 ≤ p.stop := by
      have hstart := nameStart_le p p.namesEnd
      have htrim : p.namesEnd ≤ p.stop := by
        unfold namesEnd
        split <;> omega
      omega
    obtain rfl := Option.some.inj hq
    have hstart : p.start ≤ p.nameStart p.namesEnd - 1 := by omega
    exact hp.of_append hparent rfl (slice_append p.text hstart hend)

theorem legible_iff_of_name {q : Path} (hq : q.WellFormed) (hroot : q.rootText = [])
    (hbare : ∀ c ∈ q.namesText, isSeparator c = false) :
    q.Legible ↔ driveColon ∉ q.namesText := by
  have hlead : lead q.namesText = q.namesText :=
    List.takeWhile_eq_self_iff.mpr fun c hc => by simp [hbare c hc]
  constructor
  · intro hlegible
    rw [← hlead]
    exact hlegible.noDrive hroot
  · intro hcolon
    constructor
    case wellFormed => exact hq
    case startsBare => exact fun c hc => hbare c (List.mem_of_mem_head? hc)
    case noDrive =>
      intro _
      rwa [hlead]

theorem WellFormed.legible_fileName_iff {p : Path} (hp : p.WellFormed) :
    p.fileName.Legible ↔ driveColon ∉ p.fileName.namesText := by
  apply legible_iff_of_name hp.fileName rfl
  intro c hc
  rw [hp.namesText_fileName] at hc
  simpa using List.mem_rtakeWhile_imp hc

theorem WellFormed.legible_namePath_iff {p q : Path} (hp : p.WellFormed)
    (hq : q ∈ p.namePaths) : q.Legible ↔ driveColon ∉ q.namesText := by
  have hwf := hp.namePath hq
  obtain ⟨b, hb, rfl⟩ := List.mem_map.mp hq
  apply legible_iff_of_name hwf rfl
  have hname : p.text.slice b.1 b.2 ∈ p.names := List.mem_map_of_mem hb
  rw [hp.names_eq] at hname
  exact not_separator_of_mem_pieces hname

/-! ## Ranges of names -/

theorem boundsFrom_row (first i : Nat) (t : Text) :
    (boundsFrom first i t).Pairwise fun a b => a.2 < b.1 := by
  induction t generalizing first i with
  | nil =>
      unfold boundsFrom
      split <;> simp
  | cons c t ih =>
      unfold boundsFrom
      split
      · refine List.pairwise_cons.mpr ⟨?_, ih _ _⟩
        intro b hb
        exact ((boundsFrom_within (Nat.le_refl (i + 1)) t).1 b hb).1
      · exact ih _ _

/-- A name ends at a separator or at the end of the text. -/
theorem separator_of_mem_boundsFrom {first i : Nat} {t : Text} {b : Nat × Nat}
    (hb : b ∈ boundsFrom first i t) :
    i ≤ b.2 ∧ ∀ c, t[b.2 - i]? = some c → isSeparator c = true := by
  induction t generalizing first i with
  | nil =>
      unfold boundsFrom at hb
      split at hb
      · rw [List.mem_singleton.mp hb]
        simp
      · contradiction
  | cons a t ih =>
      have htail : ∀ {k}, b ∈ boundsFrom k (i + 1) t →
          i ≤ b.2 ∧ ∀ c, (a :: t)[b.2 - i]? = some c → isSeparator c = true := by
        intro k hk
        obtain ⟨hle, hsep⟩ := ih hk
        have hshift : b.2 - i = b.2 - (i + 1) + 1 := by omega
        rw [hshift, List.getElem?_cons_succ]
        exact ⟨by omega, hsep⟩
      unfold boundsFrom at hb
      split at hb
      next ha =>
        rcases List.mem_cons.mp hb with rfl | hb
        · simp [ha]
        · exact htail hb
      next => exact htail hb

theorem WellFormed.slice_eq_cons {p : Path} (hp : p.WellFormed) {a b : Nat × Nat}
    (ha : a ∈ p.nameBounds) (hb : b ∈ p.nameBounds) (hlt : a.2 < b.2) :
    ∃ s rest, isSeparator s = true ∧ p.text.slice a.2 b.2 = s :: rest := by
  obtain ⟨hstart, hsep⟩ := separator_of_mem_boundsFrom ha
  have hend := ((boundsFrom_within (Nat.le_refl p.start) _).1 b hb).2.2
  have hlength : (p.text.slice p.start p.namesEnd).length = p.namesEnd - p.start := by
    have hle := hp.namesEnd_le
    simp [Text.slice]
    omega
  have hwithin := hp.start_le_namesEnd
  have hin : a.2 < (p.text.take b.2).length := by
    have hle := (hp.le_of_mem_nameBounds hb).2.2
    rw [List.length_take]
    omega
  refine ⟨(p.text.take b.2)[a.2], (p.text.take b.2).drop (a.2 + 1), ?_, ?_⟩
  · apply hsep
    rw [List.getElem_take, Text.slice, List.getElem?_drop, List.getElem?_take_of_lt (by omega)]
    rw [show p.start + (a.2 - p.start) = a.2 by omega, List.getElem?_eq_getElem]
  · exact List.drop_eq_getElem_cons hin

theorem legible_iff_of_names {q : Path} (hq : q.WellFormed) (hroot : q.rootText = [])
    {name rest : Text} {s : Char} (hs : isSeparator s = true)
    (hname : ∀ c ∈ name, isSeparator c = false) (hnames : q.namesText = name ++ s :: rest) :
    q.Legible ↔ driveColon ∉ name ∧ name ≠ [] := by
  have hlead : lead q.namesText = name := by
    rw [hnames, lead_append hname, lead_cons_separator hs, List.append_nil]
  constructor
  · intro hlegible
    constructor
    · rw [← hlead]
      exact hlegible.noDrive hroot
    · rintro rfl
      have hbare := hlegible.startsBare
      rw [hnames, List.nil_append, startsBare_cons, hs] at hbare
      exact Bool.false_ne_true hbare.symm
  · rintro ⟨hcolon, hne⟩
    constructor
    case wellFormed => exact hq
    case startsBare =>
      rw [hnames]
      exact StartsBare.append (fun c hc => hname c (List.mem_of_mem_head? hc)) hne _
    case noDrive =>
      intro _
      rwa [hlead]

theorem windows_of_subpath {p q : Path} {first last : Int} (hq : p.subpath first last = .ok q)
    (hlt : first < last) :
    0 ≤ first ∧
    ∃ (hi : first.toNat < p.nameBounds.length) (hj : last.toNat - 1 < p.nameBounds.length),
      q.rootText = [] ∧
        q.namesText = p.text.slice p.nameBounds[first.toNat].1 p.nameBounds[last.toNat - 1].2 := by
  unfold subpath at hq
  extract_lets bounds at hq
  split at hq
  · contradiction
  next hrange =>
    have hi : first.toNat < bounds.length := by omega
    have hj : last.toNat - 1 < bounds.length := by omega
    rw [if_neg (by omega), List.getElem?_eq_getElem hi, List.getElem?_eq_getElem hj] at hq
    rw [← Except.ok.inj hq]
    exact ⟨by omega, hi, hj, rfl, rfl⟩

theorem slice_of_names {p : Path} {i : Nat} (hi : i < p.nameBounds.length) {name : Text}
    (hname : p.names[i]? = some name) :
    p.text.slice p.nameBounds[i].1 p.nameBounds[i].2 = name := by
  have hget : p.names[i]? = some (p.text.slice p.nameBounds[i].1 p.nameBounds[i].2) := by
    rw [names, List.getElem?_map, List.getElem?_eq_getElem hi]
    rfl
  exact Option.some.inj (hget.symm.trans hname)

/-- The first name decides: it must not hold a drive, nor be empty unless it is the only one. -/
theorem WellFormed.legible_subpath_iff {p q : Path} (hp : p.WellFormed) {first last : Int}
    (hq : p.subpath first last = .ok q) (hlt : first < last) {name : Text}
    (hname : p.names[first.toNat]? = some name) :
    q.Legible ↔ driveColon ∉ name ∧ (name = [] → last = first + 1) := by
  have hwf := hp.subpath hq
  have hbare : ∀ c ∈ name, isSeparator c = false := by
    have hmem := List.mem_of_getElem? hname
    rw [hp.names_eq] at hmem
    exact not_separator_of_mem_pieces hmem
  obtain ⟨hzero, hi, hj, hroot, hnames⟩ := windows_of_subpath hq hlt
  have hmine := slice_of_names hi hname
  by_cases hone : last = first + 1
  · have hsame : last.toNat - 1 = first.toNat := by omega
    simp only [hsame, hmine] at hnames
    rw [legible_iff_of_name hwf hroot (hnames ▸ hbare), hnames]
    exact (and_iff_left fun _ => hone).symm
  · -- behind the first of several names stands the separator that ends it
    have hfront := List.getElem_mem hi
    have hback := List.getElem_mem hj
    have hrow : p.nameBounds[first.toNat].2 < p.nameBounds[last.toNat - 1].1 :=
      List.pairwise_iff_getElem.mp (boundsFrom_row p.start p.start _) _ _ hi hj (by omega)
    have hfirst := (hp.le_of_mem_nameBounds hfront).2.1
    have hlast := (hp.le_of_mem_nameBounds hback).2.1
    obtain ⟨s, rest, hs, hsep⟩ := hp.slice_eq_cons hfront hback (by omega)
    rw [slice_append p.text hfirst (by omega), hmine, hsep] at hnames
    rw [legible_iff_of_names hwf hroot hs hbare hnames]
    simp only [hone, imp_false, ne_eq]

/-! ## Composition -/

theorem WellFormed.legible_normalize {p : Path} (hp : p.WellFormed) : p.normalize.Legible := by
  rw [normalize_eq]
  exact legible_withRoot _ _ hp.separator

/-- The names of a relativized path never start with a separator, since empty names are left out. -/
theorem Legible.startsBare_relativize {q : Path} (hq : q.Legible) (p : Path) :
    StartsBare (p.relativize q).namesText := by
  by_cases hempty : p.isEmpty = true ∨ p.isAbsolute = true ∧ q.isEmpty = true
  · rw [relativize_of_isEmpty hempty]
    exact hq.startsBare
  by_cases hkey : p.rootKey = q.rootKey
  · rw [relativize_of_rootKey hempty hkey, namesText_withRoot, List.drop_zero]
    exact startsBare_spell (fun _ => hq.wellFormed.isName_of_mem_way) _
  · rw [relativize_of_rootKey_ne hempty hkey, namesText_withRoot, List.drop_left]
    exact hq.startsBare

theorem Legible.legible_relativize_iff {q : Path} (hq : q.Legible) (p : Path) :
    (p.relativize q).Legible ↔
      ((p.relativize q).rootText = [] → driveColon ∉ lead (p.relativize q).namesText) := by
  constructor
  · exact fun hlegible => hlegible.noDrive
  · intro hdrive
    constructor
    case wellFormed => exact wellFormed_relativize p hq.wellFormed
    case startsBare => exact hq.startsBare_relativize p
    case noDrive => exact hdrive

/-- When the texts of a path and of all that is derived from it are read as what they are. -/
structure Rereading (p : Path) : Prop where
  self : p.Rereads ↔
    StartsBare p.namesText ∧ (p.rootText = [] → driveColon ∉ lead p.namesText)
  root? : ∀ q, p.root? = some q → q.Rereads
  parent? : p.Rereads → ∀ q, p.parent? = some q → q.Rereads
  fileName : p.fileName.Rereads ↔ driveColon ∉ p.fileName.namesText
  namePaths : ∀ q ∈ p.namePaths, (q.Rereads ↔ driveColon ∉ q.namesText)
  subpath : ∀ first last q name, p.subpath first last = .ok q → first < last →
    p.names[first.toNat]? = some name →
    (q.Rereads ↔ driveColon ∉ name ∧ (name = [] → last = first + 1))
  normalize : p.normalize.Rereads
  resolve : ∀ q, Reachable q → p.Rereads → q.Rereads → (p.resolve q).Rereads
  relativize : ∀ q, Reachable q → q.Rereads →
    ((p.relativize q).Rereads ↔
      ((p.relativize q).rootText = [] → driveColon ∉ lead (p.relativize q).namesText))

/-- The text of a path that a program can hold is read as that path, unless the names of the path
start with a separator, or start with a drive and no root stands before them. -/
theorem rereading_of_reachable {p : Path} (hp : Reachable p) : p.Rereading := by
  have hwf := hp.wellFormed
  constructor
  case self =>
    rw [hwf.rereads_iff]
    exact ⟨fun h => ⟨h.startsBare, h.noDrive⟩, fun h => ⟨hwf, h.1, h.2⟩⟩
  case root? => exact fun q hq => (legible_root hwf hq).rereads
  case parent? => exact fun h q hq => ((hwf.rereads_iff.mp h).parent hq).rereads
  case fileName => rw [hwf.fileName.rereads_iff, hwf.legible_fileName_iff]
  case namePaths =>
    intro q hq
    rw [(hwf.namePath hq).rereads_iff, hwf.legible_namePath_iff hq]
  case subpath =>
    intro first last q name hq hlt hname
    rw [(hwf.subpath hq).rereads_iff, hwf.legible_subpath_iff hq hlt hname]
  case normalize => exact hwf.legible_normalize.rereads
  case resolve =>
    intro q hq hmine hother
    exact ((hq.wellFormed.rereads_iff.mp hother).resolve (hwf.rereads_iff.mp hmine)).rereads
  case relativize =>
    intro q hq hother
    rw [(wellFormed_relativize p hq.wellFormed).rereads_iff,
      (hq.wellFormed.rereads_iff.mp hother).legible_relativize_iff]

/-- The way from `/out` to `/out/C:x` is a path without a root, but its text `C:x` is read as a
path on a drive. -/
theorem not_rereads_relativize_of_drive :
    ¬ ((parse localUri "/out".toList).relativize (parse localUri "/out/C:x".toList)).Rereads := by
  have hway := (rereading_of_reachable (.parse localUri "/out".toList)).relativize _
    (.parse localUri "/out/C:x".toList) (legible_parse _ _).rereads
  rw [hway]
  decide

end LexicalPaths.Path
