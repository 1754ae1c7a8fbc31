import LexicalPaths.Path.Relativize
import LexicalPaths.Path.Resolve
import LexicalPaths.Proofs.Path.Names

/-!
# The windows of a path

A path shows a root text and a names text, each a window over the text that it shares.  As long as
the windows lie within the text, every observation is a function of these two texts alone: whether
the path is absolute or empty, whether it ends with a separator, its names and its root key.
-/

namespace LexicalPaths.Path

open Separator

/-- The windows lie within the text, one behind the other, and the first one holds a root. -/
structure WellFormed (p : Path) : Prop where
  rootEnd_le : p.rootEnd ≤ p.text.length
  start_le : p.start ≤ p.stop
  stop_le : p.stop ≤ p.text.length
  apart : p.rootEnd = 0 ∨ p.rootEnd = p.start
  separator : isSeparator p.separator = true
  root : Root.IsRoot p.rootText

/-! ## Paths without a shared text -/

@[simp] theorem rootText_withRoot (uri t : Text) (n : Nat) (s : Char) :
    (withRoot uri t n s).rootText = t.take n := rfl

@[simp] theorem namesText_withRoot (uri t : Text) (n : Nat) (s : Char) :
    (withRoot uri t n s).namesText = t.drop n := by
  simp [namesText, withRoot, Text.slice]

theorem raw_withRoot (uri t : Text) (n : Nat) (s : Char) : (withRoot uri t n s).raw = t := by
  simp [raw]

theorem raw_parse (uri t : Text) : (parse uri t).raw = t :=
  raw_withRoot uri t _ _

theorem wellFormed_withRoot {uri t : Text} {n : Nat} {s : Char} (hn : n ≤ t.length)
    (hs : isSeparator s = true) (hroot : Root.IsRoot (t.take n)) :
    (withRoot uri t n s).WellFormed where
  rootEnd_le := hn
  start_le := hn
  stop_le := Nat.le_refl _
  apart := .inr rfl
  separator := hs
  root := hroot

theorem wellFormed_parse (uri t : Text) : (parse uri t).WellFormed :=
  wellFormed_withRoot (Root.length_le t) (isSeparator_detect t) (Root.isRoot_take_length t)

/-! ## Written names that are read -/

section

variable {uri d r : Text} {s c : Char} {names rest : List Text} (trail : Bool)

theorem driveColon_notMem_lead_spell (hs : isSeparator s = true) (hnames : ∀ n ∈ names, IsName n)
    (hfirst : ∀ n ∈ names.head?, driveColon ∉ n) : driveColon ∉ lead (spell s names trail) := by
  cases names with
  | nil => simp [lead]
  | cons n rest =>
      rw [lead_spell_cons hs (hnames n List.mem_cons_self)]
      exact hfirst n rfl

/-- Names are read without a root if the first of them holds no colon. -/
theorem length_spell (hs : isSeparator s = true) (hnames : ∀ n ∈ names, IsName n)
    (hfirst : ∀ n ∈ names.head?, driveColon ∉ n) : Root.length (spell s names trail) = 0 :=
  Root.length_eq_zero (startsBare_spell hnames trail)
    (driveColon_notMem_lead_spell trail hs hnames hfirst)

theorem length_spell_drive (hd : Root.IsDriveName d) (hnames : ∀ n ∈ r :: rest, IsName n) :
    Root.length (spell s ((d ++ driveColon :: r) :: rest) trail) = (d ++ [driveColon]).length := by
  rw [List.append_cons, spell_append_cons]
  exact Root.length_append (.drive hd (by simp [IsRun])) (by simp) (startsBare_spell hnames trail)

/-- Behind a drive that is read from a name, what follows its colon is a name of its own. -/
theorem windows_spell_drive (hd : Root.IsDriveName d) (hnames : ∀ n ∈ r :: rest, IsName n) :
    let text := spell s ((d ++ driveColon :: r) :: rest) trail
    (withRoot uri text (Root.length text) c).rootText = d ++ [driveColon] ∧
      (withRoot uri text (Root.length text) c).namesText = spell s (r :: rest) trail := by
  intro text
  have hlen : Root.length text = (d ++ [driveColon]).length := length_spell_drive trail hd hnames
  have htext : text = d ++ [driveColon] ++ spell s (r :: rest) trail := by
    rw [← spell_append_cons, ← List.append_cons]
  rw [rootText_withRoot, namesText_withRoot, hlen, htext]
  exact ⟨List.take_left, List.drop_left⟩

/-- A name that is a drive and nothing else takes the separator behind it into the root. -/
theorem windows_spell_bare_drive (hs : isSeparator s = true) (hd : Root.IsDriveName d)
    (hnames : ∀ n ∈ rest, IsName n) :
    let text := spell s ((d ++ [driveColon]) :: rest) trail
    (withRoot uri text (Root.length text) c).rootText =
        d ++ driveColon :: (if trail || !rest.isEmpty then [s] else []) ∧
      (withRoot uri text (Root.length text) c).namesText = spell s rest trail := by
  intro text
  have hrun : IsRun (if trail || !rest.isEmpty then [s] else []) := by
    split
    · simp [IsRun, hs]
    · simp [IsRun]
  have htext : text = d ++ driveColon :: (if trail || !rest.isEmpty then [s] else []) ++
      spell s rest trail := by
    have hsplit := spell_append_cons s (d ++ [driveColon]) [] rest trail
    rw [List.append_nil, spell_nil_cons] at hsplit
    simpa using hsplit
  have hlen : Root.length text =
      (d ++ driveColon :: (if trail || !rest.isEmpty then [s] else [])).length := by
    rw [htext]
    exact Root.length_append (.drive hd hrun) (by simp) (startsBare_spell hnames trail)
  rw [rootText_withRoot, namesText_withRoot, hlen, htext]
  exact ⟨List.take_left, List.drop_left⟩

end

/-! ## The root -/

theorem root?_eq_none_iff (p : Path) : p.root? = none ↔ p.rootEnd = 0 := by
  unfold root?
  split <;> simp_all

theorem raw_of_root? {p r : Path} (hr : p.root? = some r) : r.raw = p.rootText := by
  unfold root? at hr
  split at hr
  · contradiction
  · obtain rfl := Option.some.inj hr
    simp [raw, rootText, namesText, Text.slice]

theorem key_nil : Root.key [] = [] := rfl

theorem rootKey_eq (p : Path) : p.rootKey = Root.key p.rootText := by
  unfold rootKey
  cases hroot : p.root? with
  | none =>
      have hzero := (root?_eq_none_iff p).mp hroot
      simp [rootText, hzero, key_nil]
  | some r => exact congrArg Root.key (raw_of_root? hroot)

/-- Two paths, or two views of paths, name the same place: on one filesystem, under one root up to
separator style and drive case, along the same names.  Which names these are is up to `names`. -/
structure AgreeBy {α : Type} (uri rootKey : α → Text) (names : α → List Text) (a b : α) : Prop where
  uri : uri a = uri b
  rootKey : rootKey a = rootKey b
  names : names a = names b

/-! ## Observations through the windows -/

theorem separatorBefore_eq {p : Path} {i j : Nat} (hij : i < j) (hj : j ≤ p.text.length) :
    p.separatorBefore j = endsInSeparator (p.text.slice i j) := by
  cases j with
  | zero => omega
  | succ j =>
      have htake : p.text.take (j + 1) = p.text.take j ++ [p.text[j]] := by simp
      have hdrop : (p.text.take (j + 1)).drop i = (p.text.take j).drop i ++ [p.text[j]] := by
        rw [htake, List.drop_append_of_le_length]
        simp
        omega
      rw [Text.slice, hdrop, endsInSeparator_append (by simp)]
      simp [separatorBefore, endsInSeparator,
        List.getElem?_eq_getElem (show j < p.text.length from hj)]

namespace WellFormed

variable {p : Path} (hp : p.WellFormed)
include hp

theorem length_rootText : p.rootText.length = p.rootEnd := by
  simp [rootText, hp.rootEnd_le]

theorem length_namesText : p.namesText.length = p.stop - p.start := by
  have hstop := hp.stop_le
  simp [namesText, Text.slice]
  omega

theorem rootText_eq_nil_iff : p.rootText = [] ↔ p.rootEnd = 0 := by
  rw [← List.length_eq_zero_iff, hp.length_rootText]

theorem namesText_eq_nil_iff : p.namesText = [] ↔ p.start = p.stop := by
  have hstart := hp.start_le
  rw [← List.length_eq_zero_iff, hp.length_namesText]
  omega

theorem root?_eq_none_iff_rootText : p.root? = none ↔ p.rootText = [] := by
  rw [root?_eq_none_iff, hp.rootText_eq_nil_iff]

theorem isAbsolute_eq : p.isAbsolute = endsInSeparator p.rootText := by
  unfold isAbsolute
  by_cases hzero : p.rootEnd = 0
  · rw [(hp.rootText_eq_nil_iff).mpr hzero]
    simp [hzero, endsInSeparator]
  · rw [separatorBefore_eq (i := 0) (by omega) hp.rootEnd_le]
    simp [hzero, Text.slice, rootText]

theorem isAbsolute_of_rootText_nil (hroot : p.rootText = []) : p.isAbsolute = false := by
  rw [hp.isAbsolute_eq, hroot]
  rfl

theorem rootText_ne_nil_of_isAbsolute (habs : p.isAbsolute = true) : p.rootText ≠ [] := by
  intro hnil
  rw [hp.isAbsolute_of_rootText_nil hnil] at habs
  contradiction

theorem isEmpty_iff : p.isEmpty = true ↔ p.rootText = [] ∧ p.namesText = [] := by
  rw [hp.rootText_eq_nil_iff, hp.namesText_eq_nil_iff]
  simp [isEmpty]

theorem hasTrailingSeparator_eq : p.hasTrailingSeparator = endsInSeparator p.namesText := by
  unfold hasTrailingSeparator
  by_cases hlt : p.start < p.stop
  · rw [separatorBefore_eq hlt hp.stop_le]
    simp [hlt, namesText]
  · have hnil : p.namesText = [] := by
      rw [hp.namesText_eq_nil_iff]
      have hstart := hp.start_le
      omega
    simp [hlt, hnil, endsInSeparator]

theorem slice_namesEnd : p.text.slice p.start p.namesEnd = trimEnd p.namesText := by
  have hstop := hp.stop_le
  unfold namesEnd trimEnd
  rw [hp.hasTrailingSeparator_eq]
  split
  · have hlen := hp.length_namesText
    rw [List.dropLast_eq_take, hlen, namesText, Text.slice, Text.slice, List.take_drop,
      List.take_take]
    congr 2
    next h =>
      have hne : p.namesText ≠ [] := by
        rintro hnil
        simp [hnil, endsInSeparator] at h
      have hlt : p.start ≠ p.stop := fun heq => hne ((hp.namesText_eq_nil_iff).mpr heq)
      have hle := hp.start_le
      omega
  · rfl

end WellFormed

/-! ## Names -/

theorem slice_succ {pre u : Text} {c : Char} {first : Nat} (hfirst : first ≤ pre.length) :
    (pre ++ c :: u).slice first (pre.length + 1) =
      (pre ++ c :: u).slice first pre.length ++ [c] := by
  have htake : (pre ++ c :: u).take (pre.length + 1) = pre ++ [c] := by
    simp [List.take_append, List.take_of_length_le]
  rw [Text.slice, Text.slice, htake, List.take_left, List.drop_append_of_le_length hfirst]

theorem slice_self (t : Text) (i : Nat) : t.slice i i = [] := by
  simp [Text.slice]

/-- The bounds that are found in `t` mark its pieces, the first of which is under way. -/
theorem slices_boundsFrom (pre t rest : Text) {first : Nat} (hfirst : first ≤ pre.length) :
    (boundsFrom first pre.length t).map
        (fun bounds => (pre ++ t ++ rest).slice bounds.1 bounds.2) =
      glue ((pre ++ t ++ rest).slice first pre.length) (pieces t) := by
  induction t generalizing pre first with
  | nil =>
      have hslice : (pre ++ [] ++ rest).slice first pre.length = pre.drop first := by
        simp [Text.slice]
      rw [hslice, boundsFrom]
      split
      next hlt =>
        have hne : pre.drop first ≠ [] := by simpa using hlt
        simp [pieces, glue, Text.slice, hne]
      next hge =>
        have hnil : pre.drop first = [] := List.drop_eq_nil_of_le (by omega)
        simp [pieces, glue, hnil]
  | cons c t ih =>
      have hshift : pre ++ c :: t ++ rest = pre ++ [c] ++ t ++ rest := by simp
      have hlen : (pre ++ [c]).length = pre.length + 1 := by simp
      cases hc : isSeparator c with
      | true =>
          have htail := ih (pre ++ [c]) (show pre.length + 1 ≤ (pre ++ [c]).length by simp)
          rw [hlen, slice_self, glue_nil, ← hshift] at htail
          rw [boundsFrom, if_pos hc, List.map_cons, htail, pieces_cons_of_separator hc]
          simp [glue]
      | false =>
          have htail := ih (pre ++ [c]) (show first ≤ (pre ++ [c]).length by rw [hlen]; omega)
          have hsucc : (pre ++ c :: t ++ rest).slice first (pre.length + 1) =
              (pre ++ c :: t ++ rest).slice first pre.length ++ [c] := by
            rw [List.append_assoc, List.cons_append]
            exact slice_succ hfirst
          rw [hlen, ← hshift, hsucc, ← glue_append, ← pieces_cons_of_not hc] at htail
          rw [boundsFrom, if_neg (by simp [hc]), htail]

namespace WellFormed

variable {p : Path} (hp : p.WellFormed)
include hp

theorem namesEnd_le : p.namesEnd ≤ p.text.length := by
  have hstop := hp.stop_le
  unfold namesEnd
  split <;> omega

/-- The names are the pieces of the names text without one closing separator. -/
theorem names_eq : p.names = pieces (trimEnd p.namesText) := by
  have hend := hp.namesEnd_le
  have hstart : p.start ≤ p.text.length := Nat.le_trans hp.start_le hp.stop_le
  by_cases hle : p.start ≤ p.namesEnd
  · have hsplit : p.text = p.text.take p.start ++ p.text.slice p.start p.namesEnd ++
        p.text.drop p.namesEnd := by
      have hfront : p.text.take p.start ++ p.text.slice p.start p.namesEnd =
          p.text.take p.namesEnd := by
        have hjoin := List.take_append_drop p.start (p.text.take p.namesEnd)
        rwa [List.take_take, Nat.min_eq_left hle] at hjoin
      rw [hfront, List.take_append_drop]
    have hlen : (p.text.take p.start).length = p.start := by simp [hstart]
    have hbounds := slices_boundsFrom (p.text.take p.start) (p.text.slice p.start p.namesEnd)
      (p.text.drop p.namesEnd) (Nat.le_of_eq hlen.symm)
    rw [hlen, ← hsplit, slice_self, glue_nil, hp.slice_namesEnd] at hbounds
    rw [← hbounds]
    unfold names nameBounds
    rw [hp.slice_namesEnd]
  · have hnil : p.text.slice p.start p.namesEnd = [] := by
      simp [Text.slice]
      omega
    have htrim := hp.slice_namesEnd
    rw [hnil] at htrim
    unfold names nameBounds
    rw [hnil, ← htrim]
    simp [boundsFrom, pieces]

theorem properNames_eq : p.properNames = properPieces p.namesText := by
  rw [← properPieces_trimEnd, properNames, hp.names_eq]
  rfl

theorem isName_of_mem_properNames {n : Text} (hn : n ∈ p.properNames) : IsName n := by
  rw [hp.properNames_eq] at hn
  exact isName_of_mem_properPieces hn

end WellFormed

section

variable {uri : Text} {s c : Char} {names : List Text} (trail : Bool)
  (hs : isSeparator s = true) (hc : isSeparator c = true) (hnames : ∀ n ∈ names, IsName n)
include hs hc hnames

/-- Names that are written as a path without a root are the names of that path. -/
theorem names_withRoot_spell : (withRoot uri (spell s names trail) 0 c).names = names := by
  have hwf : (withRoot uri (spell s names trail) 0 c).WellFormed :=
    wellFormed_withRoot (Nat.zero_le _) hc Root.isRoot_nil
  rw [hwf.names_eq, namesText_withRoot, List.drop_zero, trimEnd_spell hnames hs,
    pieces_spell hnames hs]

theorem hasTrailingSeparator_withRoot_spell :
    (withRoot uri (spell s names trail) 0 c).hasTrailingSeparator = (trail && !names.isEmpty) := by
  have hwf : (withRoot uri (spell s names trail) 0 c).WellFormed :=
    wellFormed_withRoot (Nat.zero_le _) hc Root.isRoot_nil
  rw [hwf.hasTrailingSeparator_eq, namesText_withRoot, List.drop_zero,
    endsInSeparator_spell hnames hs]

end

end LexicalPaths.Path
