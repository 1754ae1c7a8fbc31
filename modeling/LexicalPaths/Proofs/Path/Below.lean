import LexicalPaths.Proofs.Path.Way

/-!
# Paths below a base

A base sees an absolute path below itself when both have the same root and the names of the path
go on where those of the base end.  Across different roots nothing lies below a base: what
relativization keeps of an absolute root is never empty.
-/

namespace LexicalPaths.Path

open Separator

/-- The absolute path `p` lies below `base`, along a first name and further ones. -/
structure LiesBelow (base p : Path) (first : Text) (rest : List Text) : Prop where
  isAbsolute : p.isAbsolute = true
  uri : p.uri = base.uri
  rootKey : base.rootKey = p.rootKey
  names : p.properNames = base.properNames ++ first :: rest

/-- The relative form of a path below a base. -/
def tail (p : Path) (names : List Text) : Path :=
  withRoot p.uri (spell p.separator names p.hasTrailingSeparator) 0 p.separator

theorem commonNames_append (mine more : List Text) :
    commonNames mine (mine ++ more) = mine.length := by
  induction mine with
  | nil => cases more <;> rfl
  | cons n mine ih => simp [commonNames, ih]

theorem way_append (mine more : List Text) : way mine (mine ++ more) = more := by
  rw [way, commonNames_append, List.drop_left]
  simp

theorem way_eq_cons_iff {mine theirs : List Text} {first : Text} {rest : List Text}
    (hfirst : first ≠ parentName) :
    way mine theirs = first :: rest ↔ theirs = mine ++ first :: rest := by
  constructor
  · intro hway
    unfold way at hway
    cases hclimb : mine.length - commonNames mine theirs with
    | succ k =>
        rw [hclimb, List.replicate_succ, List.cons_append] at hway
        exact absurd (List.cons.inj hway).1.symm hfirst
    | zero =>
        rw [hclimb, List.replicate_zero, List.nil_append] at hway
        have hall : theirs.take (commonNames mine theirs) = mine := by
          rw [← take_commonNames, List.take_of_length_le (by omega)]
        have hsplit := List.take_append_drop (commonNames mine theirs) theirs
        rw [hall, hway] at hsplit
        exact hsplit.symm
  · rintro rfl
    exact way_append mine (first :: rest)

/-! ## Across roots -/

/-- A drive does not end with a separator, so it is never all of an absolute root. -/
theorem keptRoot_ne_nil {base p : Path} (hbase : base.WellFormed) (hp : p.WellFormed)
    (habs : p.isAbsolute = true) : base.keptRoot p ≠ [] := by
  have hne := hp.rootText_ne_nil_of_isAbsolute habs
  unfold keptRoot
  extract_lets drive
  split
  next hdrive =>
    obtain ⟨hpos, hle, hupper⟩ := hdrive
    intro hnil
    have hall : drive = p.rootEnd := by
      have hlen := congrArg List.length hnil
      have hend := hp.rootEnd_le
      simp only [Text.slice, List.length_drop, List.length_take, List.length_nil] at hlen
      omega
    obtain ⟨d, r, hroot, hd, hr⟩ := hbase.root.exists_drive hpos
    have hlength : drive = d.length + 1 := by
      rw [← Root.afterDrive_drive (d := d) hr, ← hroot]
      rfl
    rw [hp.isAbsolute_eq] at habs
    obtain ⟨u, s, hu, hs⟩ := exists_of_endsInSeparator habs
    have htake : p.text.take drive = u ++ [s] := by rw [hall, ← hu]; rfl
    rw [htake, hlength, take_drive hbase hroot, Root.upper_append, Root.upper_append,
      Root.upper_singleton_driveColon] at hupper
    have hlast := congrArg List.getLast? hupper
    have hsingle : Text.upper [s] = [s] := by
      simp [Text.upper, Root.upperChar_of_isSeparator hs]
    rw [hsingle, List.getLast?_concat, List.getLast?_concat] at hlast
    exact ne_driveColon_of_isSeparator hs (Option.some.inj hlast)
  next => exact hne

theorem root?_relativize_ne_none {base p : Path} (hbase : base.WellFormed) (hp : p.WellFormed)
    (habs : p.isAbsolute = true) (hkey : base.rootKey ≠ p.rootKey) :
    (base.relativize p).root? ≠ none := by
  have hne := hp.rootText_ne_nil_of_isAbsolute habs
  by_cases hempty : base.isEmpty = true ∨ base.isAbsolute = true ∧ p.isEmpty = true
  · rw [relativize_of_isEmpty hempty]
    exact fun hnone => hne (hp.root?_eq_none_iff_rootText.mp hnone)
  · rw [relativize_of_rootKey_ne hempty hkey, Ne, root?_eq_none_iff]
    exact fun hzero => keptRoot_ne_nil hbase hp habs (List.length_eq_zero_iff.mp hzero)

/-! ## Below a base -/

theorem isAbsolute_eq_of_rootKey {p q : Path} (hp : p.WellFormed) (hq : q.WellFormed)
    (hkey : p.rootKey = q.rootKey) : p.isAbsolute = q.isAbsolute := by
  rw [rootKey_eq, rootKey_eq] at hkey
  rw [hp.isAbsolute_eq, hq.isAbsolute_eq, ← Root.endsInSeparator_key hp.root, hkey,
    Root.endsInSeparator_key hq.root]

namespace LiesBelow

variable {base p : Path} {first : Text} {rest : List Text}
  (hbelow : LiesBelow base p first rest)
include hbelow

theorem isAbsolute_base (hbase : base.WellFormed) (hp : p.WellFormed) :
    base.isAbsolute = true := by
  rw [isAbsolute_eq_of_rootKey hbase hp hbelow.rootKey, hbelow.isAbsolute]

theorem isName (hp : p.WellFormed) : ∀ n ∈ first :: rest, IsName n := by
  intro n hn
  apply hp.isName_of_mem_properNames
  rw [hbelow.names]
  exact List.mem_append_right _ hn

theorem eq {m : Text} {more : List Text} (hother : LiesBelow base p m more) :
    first = m ∧ rest = more := by
  have hnames := hbelow.names
  rw [hother.names] at hnames
  obtain ⟨hfirst, hrest⟩ := List.cons.inj (List.append_cancel_left hnames)
  exact ⟨hfirst.symm, hrest.symm⟩

end LiesBelow

/-- A path without a root leads to a place below the base along its names. -/
theorem liesBelow_resolve {base p : Path} (hbase : base.WellFormed) (hp : p.WellFormed)
    (habs : base.isAbsolute = true) (hroot : p.rootText = []) {first : Text} {rest : List Text}
    (hnames : p.properNames = first :: rest) : LiesBelow base (base.resolve p) first rest := by
  have hempty := not_isEmpty_of_rootText hbase (hbase.rootText_ne_nil_of_isAbsolute habs)
  have hsame := hbase.rootText_resolve_of_rootText_nil hp hempty hroot
  constructor
  case isAbsolute => rw [(hbase.resolve hp).isAbsolute_eq, hsame, ← hbase.isAbsolute_eq, habs]
  case uri => exact WellFormed.uri_resolve_of_rootText_nil hp hempty hroot
  case rootKey => rw [rootKey_eq, rootKey_eq, hsame]
  case names => rw [hbase.properNames_resolve_of_rootText_nil hp hempty hroot, hnames]

section

variable {base p : Path} (hbase : base.WellFormed) (hp : p.WellFormed)
include hp

theorem names_tail {names : List Text} (hnames : ∀ n ∈ names, IsName n) :
    (p.tail names).names = names :=
  names_withRoot_spell _ hp.separator hp.separator hnames

include hbase

theorem relativize_eq_tail (habs : p.isAbsolute = true) (huri : p.uri = base.uri)
    (hkey : base.rootKey = p.rootKey) :
    base.relativize p = p.tail (way base.properNames p.properNames) := by
  have hne := hp.rootText_ne_nil_of_isAbsolute habs
  have hroot : base.rootText ≠ [] := by
    rw [rootKey_eq, rootKey_eq] at hkey
    intro hnil
    rw [hnil, key_nil, eq_comm, Root.key_eq_nil_iff hp.root] at hkey
    exact hne hkey
  have hone := not_isEmpty_of_rootText hbase hroot
  have htwo := not_isEmpty_of_rootText hp hne
  rw [relativize_of_rootKey (by simp [hone, htwo]) hkey, tail, huri]

/-- What a base sees below itself. -/
theorem below?_eq_some_iff (habs : p.isAbsolute = true) (huri : p.uri = base.uri) {r : Path} :
    base.below? p = some r ↔
      ∃ first rest, LiesBelow base p first rest ∧ first ≠ parentName ∧
        r = p.tail (first :: rest) := by
  by_cases hkey : base.rootKey = p.rootKey
  · have hway := relativize_eq_tail hbase hp habs huri hkey
    have hnames := names_tail hp fun n => hp.isName_of_mem_way (p := base)
    have hroot : (p.tail (way base.properNames p.properNames)).root? = none := rfl
    unfold below?
    simp only [hway, hnames, hroot]
    constructor
    · intro hsome
      cases hcase : way base.properNames p.properNames with
      | nil => simp [hcase] at hsome
      | cons first rest =>
          simp only [hcase] at hsome
          split at hsome
          · contradiction
          next hup =>
            exact ⟨first, rest, ⟨habs, huri, hkey, (way_eq_cons_iff hup).mp hcase⟩, hup,
              (Option.some.inj hsome).symm⟩
    · rintro ⟨first, rest, hbelow, hup, rfl⟩
      rw [(way_eq_cons_iff hup).mpr hbelow.names]
      simp [hup]
  · have hroot := root?_relativize_ne_none hbase hp habs hkey
    unfold below?
    cases hcase : (base.relativize p).root? with
    | none => exact absurd hcase hroot
    | some root =>
        simp only [hcase]
        constructor
        · intro hsome
          contradiction
        · rintro ⟨first, rest, hbelow, -⟩
          exact absurd hbelow.rootKey hkey

end

end LexicalPaths.Path
