import LexicalPaths.Proofs.Path.Faultless
import LexicalPaths.Proofs.Path.LastName

/-!
# Ranges of names

The names of a path lie in its names text in a row, with one separator behind each.  So a range of
them is the text from the start of the first to the end of the last, and what lies where in a range
lies there in the path.  Only where a range ends with empty names does its text not tell how many
they are.
-/

namespace LexicalPaths

namespace Separator

/-! ## Where pieces lie -/

/-- The offsets at which texts start and end that follow each other from `offset` on, with one
character between any two. -/
def spans (offset : Nat) : List Text → List (Nat × Nat)
  | [] => []
  | n :: rest => (offset, offset + n.length) :: spans (offset + n.length + 1) rest

@[simp] theorem length_spans (offset : Nat) (names : List Text) :
    (spans offset names).length = names.length := by
  induction names generalizing offset with
  | nil => rfl
  | cons n rest ih => simp [spans, ih]

theorem spans_add (k offset : Nat) (names : List Text) :
    spans (k + offset) names = (spans offset names).map fun b => (k + b.1, k + b.2) := by
  induction names generalizing offset with
  | nil => rfl
  | cons n rest ih =>
      have hnext : k + offset + n.length + 1 = k + (offset + n.length + 1) := by omega
      rw [spans, spans, hnext, ih, List.map_cons, Nat.add_assoc]

theorem take_spans (offset count : Nat) (names : List Text) :
    (spans offset names).take count = spans offset (names.take count) := by
  induction names generalizing offset count with
  | nil => simp [spans]
  | cons n rest ih =>
      cases count with
      | zero => rfl
      | succ count => rw [spans, List.take_succ_cons, List.take_succ_cons, spans, ih]

theorem drop_spans {offset i : Nat} {names : List Text} {b : Nat × Nat}
    (hb : (spans offset names)[i]? = some b) :
    (spans offset names).drop i = spans b.1 (names.drop i) := by
  induction names generalizing offset i with
  | nil => simp [spans] at hb
  | cons n rest ih =>
      cases i with
      | zero =>
          obtain rfl : (offset, offset + n.length) = b := by simpa [spans] using hb
          rfl
      | succ i =>
          rw [spans, List.getElem?_cons_succ] at hb
          rw [spans, List.drop_succ_cons, List.drop_succ_cons, ih hb]

/-- What lies in a row lies there in every row that holds it, as far behind its start. -/
theorem getElem?_spans_of_within {names : List Text} {i k m : Nat} {b e : Nat × Nat}
    (hb : (spans 0 names)[i]? = some b)
    (he : (spans 0 ((names.take k).drop i))[m]? = some e) :
    (spans 0 names)[i + m]? = some (b.1 + e.1, b.1 + e.2) := by
  rw [List.drop_take, ← take_spans] at he
  have hm : (spans 0 (names.drop i))[m]? = some e := by
    rw [List.getElem?_take] at he
    split at he
    · exact he
    · contradiction
  have hshift := spans_add b.1 0 (names.drop i)
  rw [Nat.add_zero] at hshift
  rw [← List.getElem?_drop, drop_spans hb, hshift, List.getElem?_map, hm]
  rfl

/-- Behind the first piece the text ends, or a separator stands before the others. -/
theorem exists_append_of_pieces {t n : Text} {rest : List Text} (ht : pieces t = n :: rest) :
    t = n ∧ rest = [] ∨
      ∃ s u, t = n ++ s :: u ∧ isSeparator s = true ∧ pieces u = rest := by
  induction t generalizing n with
  | nil => simp [pieces] at ht
  | cons c t ih =>
      cases hc : isSeparator c with
      | true =>
          rw [pieces_cons_of_separator hc] at ht
          obtain ⟨rfl, rfl⟩ := List.cons.inj ht
          exact .inr ⟨c, t, rfl, hc, rfl⟩
      | false =>
          rw [pieces_cons_of_not hc] at ht
          cases hpieces : pieces t with
          | nil =>
              rw [hpieces] at ht
              obtain ⟨rfl, rfl⟩ := List.cons.inj ht
              exact .inl ⟨by rw [pieces_eq_nil_iff.mp hpieces], rfl⟩
          | cons piece others =>
              rw [hpieces] at ht
              obtain ⟨rfl, rfl⟩ := List.cons.inj ht
              rcases ih hpieces with ⟨rfl, hnone⟩ | ⟨s, u, rfl, hs, hu⟩
              · exact .inl ⟨rfl, hnone⟩
              · exact .inr ⟨s, u, rfl, hs, hu⟩

/-- From the start of a piece on, a text has the pieces from that one on. -/
theorem pieces_drop {t : Text} {offset i : Nat} {b : Nat × Nat}
    (hb : (spans offset (pieces t))[i]? = some b) :
    offset ≤ b.1 ∧ pieces (t.drop (b.1 - offset)) = (pieces t).drop i := by
  induction i generalizing t offset with
  | zero =>
      cases ht : pieces t with
      | nil => simp [ht, spans] at hb
      | cons n rest =>
          obtain rfl : (offset, offset + n.length) = b := by simpa [ht, spans] using hb
          simp [ht]
  | succ i ih =>
      cases ht : pieces t with
      | nil => simp [ht, spans] at hb
      | cons n rest =>
          rw [ht, spans, List.getElem?_cons_succ] at hb
          rcases exists_append_of_pieces ht with ⟨-, rfl⟩ | ⟨s, u, rfl, hs, rfl⟩
          · simp [spans] at hb
          · obtain ⟨hle, hdrop⟩ := ih hb
            have hskip : b.1 - offset =
                (n ++ [s]).length + (b.1 - (offset + n.length + 1)) := by
              simp
              omega
            refine ⟨by omega, ?_⟩
            rw [hskip, List.append_cons n s u, ← List.drop_drop, List.drop_left, hdrop]
            rfl

/-- Up to the end of a piece, a text has the pieces up to that one, which is left out at the end if
it is empty. -/
theorem pieces_take {t : Text} {offset i : Nat} {b : Nat × Nat} {n : Text}
    (hb : (spans offset (pieces t))[i]? = some b) (hn : (pieces t)[i]? = some n) :
    offset ≤ b.2 ∧ (∃ front, t.take (b.2 - offset) = front ++ n) ∧
      pieces (t.take (b.2 - offset)) ++ (if n = [] then [[]] else []) =
        (pieces t).take (i + 1) := by
  induction i generalizing t offset with
  | zero =>
      cases ht : pieces t with
      | nil => simp [ht] at hn
      | cons first rest =>
          obtain rfl : first = n := by simpa [ht] using hn
          obtain rfl : (offset, offset + first.length) = b := by simpa [ht, spans] using hb
          have hbare : ∀ c ∈ first, isSeparator c = false :=
            not_separator_of_mem_pieces (t := t) (by simp [ht])
          have htake : t.take first.length = first := by
            rcases exists_append_of_pieces ht with ⟨rfl, -⟩ | ⟨s, u, rfl, -⟩
            · simp
            · simp
          refine ⟨by simp, ⟨[], by simp [htake]⟩, ?_⟩
          by_cases hnil : first = []
          · simp [hnil, pieces]
          · simp [htake, pieces_of_isName ⟨hnil, hbare⟩, hnil]
  | succ i ih =>
      cases ht : pieces t with
      | nil => simp [ht] at hn
      | cons first rest =>
          rw [ht, spans, List.getElem?_cons_succ] at hb
          rw [ht, List.getElem?_cons_succ] at hn
          have hbare : ∀ c ∈ first, isSeparator c = false :=
            not_separator_of_mem_pieces (t := t) (by simp [ht])
          rcases exists_append_of_pieces ht with ⟨-, rfl⟩ | ⟨s, u, rfl, hs, rfl⟩
          · simp at hn
          · obtain ⟨hle, ⟨front, hfront⟩, htake⟩ := ih hb hn
            have hskip : b.2 - offset =
                (first ++ [s]).length + (b.2 - (offset + first.length + 1)) := by
              simp
              omega
            refine ⟨by omega, ⟨first ++ s :: front, ?_⟩, ?_⟩
            · rw [hskip, List.append_cons first s u, List.take_length_add_append, hfront]
              simp
            · rw [hskip, List.append_cons first s u, List.take_length_add_append, List.append_assoc,
                List.singleton_append, pieces_append_separator hbare hs, List.cons_append, htake]
              rfl

/-- The text from the start of one piece to the end of another has the pieces from the one to the
other, and ends with the last of them. -/
theorem pieces_slice {t : Text} {i j : Nat} {b e : Nat × Nat} {n : Text} (hij : i ≤ j)
    (hb : (spans 0 (pieces t))[i]? = some b) (he : (spans 0 (pieces t))[j]? = some e)
    (hn : (pieces t)[j]? = some n) :
    b.1 ≤ e.2 ∧ (∃ front, t.slice b.1 e.2 = front ++ n) ∧
      pieces (t.slice b.1 e.2) ++ (if n = [] then [[]] else []) =
        ((pieces t).take (j + 1)).drop i := by
  obtain ⟨-, hdrop⟩ := pieces_drop hb
  rw [Nat.sub_zero] at hdrop
  have hindex : i + (j - i) = j := by omega
  have hcount : j + 1 - i = j - i + 1 := by omega
  have hend : (spans b.1 (pieces (t.drop b.1)))[j - i]? = some e := by
    rw [hdrop, ← drop_spans hb, List.getElem?_drop, hindex, he]
  have hlast : (pieces (t.drop b.1))[j - i]? = some n := by
    rw [hdrop, List.getElem?_drop, hindex, hn]
  have htake := pieces_take hend hlast
  rwa [hdrop, ← List.drop_take, ← hcount, ← List.drop_take] at htake

end Separator

namespace Path

open Separator

/-- The walk along a text finds its pieces, the first of which is under way. -/
theorem boundsFrom_eq_spans {first i : Nat} (t : Text) {a : Text} (ha : first + a.length = i) :
    boundsFrom first i t = spans first (glue a (pieces t)) := by
  induction t generalizing first i a with
  | nil =>
      unfold boundsFrom
      by_cases hnil : a = []
      · rw [if_neg (by simp [hnil] at ha; omega)]
        simp [pieces, glue, hnil, spans]
      · have hpos := List.length_pos_iff.mpr hnil
        rw [if_pos (by omega)]
        simp [pieces, glue, hnil, spans, ha]
  | cons c t ih =>
      unfold boundsFrom
      cases hc : isSeparator c with
      | true =>
          rw [if_pos rfl, pieces_cons_of_separator hc,
            ih (show i + 1 + ([] : Text).length = i + 1 from rfl), glue_nil]
          simp [glue, spans, ha]
      | false =>
          rw [if_neg Bool.false_ne_true, pieces_cons_of_not hc, glue_append]
          exact ih (by simp; omega)

theorem relativeBounds_eq_spans (names : Text) :
    relativeBounds names = spans 0 (pieces (trimEnd names)) := by
  rw [relativeBounds, boundsFrom_eq_spans _ (show 0 + ([] : Text).length = 0 from rfl), glue_nil]

theorem length_trimEnd_le (t : Text) : (trimEnd t).length ≤ t.length := by
  unfold trimEnd
  split <;> simp

theorem slice_trimEnd {t : Text} {i j : Nat} (hj : j ≤ (trimEnd t).length) :
    (trimEnd t).slice i j = t.slice i j := by
  have htake : trimEnd t = t.take (trimEnd t).length := by
    unfold trimEnd
    split
    · rw [List.length_dropLast, List.dropLast_eq_take]
    · simp
  rw [Text.slice, htake, List.take_take, Nat.min_eq_left hj]
  rfl

/-- The names from number `first` up to but not including number `last`. -/
def namesWithin (p : Path) (first last : Int) : List Text :=
  (p.names.take last.toNat).drop first.toNat

theorem nameCount_eq_length (p : Path) : p.nameCount = p.names.length := by
  rw [names, nameCount, List.length_map]

theorem map_raw_namePaths (p : Path) : p.namePaths.map raw = p.names := by
  rw [namePaths, List.map_map]
  rfl

theorem hasNames_of_subpath {p q : Path} {first last : Int} (hq : p.subpath first last = .ok q) :
    p.HasNames first last := by
  by_contra hnot
  rw [(subpath_eq_error_iff p first last _).mpr ⟨hnot, rfl⟩] at hq
  contradiction

theorem exists_of_hasNames {p : Path} {first last : Int} (hnames : p.HasNames first last) :
    ∃ q, p.subpath first last = .ok q := by
  cases hq : p.subpath first last with
  | ok q => exact ⟨q, rfl⟩
  | error e => exact absurd hnames ((subpath_eq_error_iff p first last e).mp hq).1

theorem eq_parse_of_subpath {p q : Path} {index : Int} (hq : p.subpath index index = .ok q) :
    q = parse p.uri [] := by
  unfold subpath at hq
  extract_lets at hq
  split at hq
  · contradiction
  · rw [if_pos rfl] at hq
    exact (Except.ok.inj hq).symm

/-- A single name is the path that it is among all names. -/
theorem getElem?_namePaths_of_get {p q : Path} {index : Int} (hq : p.get index = .ok q) :
    p.namePaths[index.toNat]? = some q := by
  unfold get subpath at hq
  extract_lets bounds at hq
  split at hq
  · contradiction
  next hnames =>
    have hi : index.toNat < bounds.length := by omega
    have hlast : (index + 1).toNat - 1 = index.toNat := by omega
    rw [if_neg (by omega), hlast, List.getElem?_eq_getElem hi] at hq
    rw [← Except.ok.inj hq, namePaths, List.getElem?_map, List.getElem?_eq_getElem hi]
    rfl

namespace WellFormed

variable {p q : Path} (hp : p.WellFormed)
include hp

theorem relativeBounds_eq : relativeBounds p.namesText = spans 0 p.names := by
  rw [relativeBounds_eq_spans, hp.names_eq]

/-- A range that is not empty shows the text from the start of its first name to the end of its
last. -/
theorem view_of_subpath {first last : Int} (hq : p.subpath first last = .ok q)
    (hlt : first < last) :
    ∃ i j b e n, first = (i : Nat) ∧ last = (j + 1 : Nat) ∧ i ≤ j ∧
      (spans 0 p.names)[i]? = some b ∧ (spans 0 p.names)[j]? = some e ∧
      p.names[j]? = some n ∧ e.2 ≤ (trimEnd p.namesText).length ∧
      q.view = p.view.part (p.namesText.slice b.1 e.2) := by
  have hview := hp.view_subpath first last
  obtain ⟨hzero, -, hcount⟩ := hasNames_of_subpath hq
  rw [nameCount_eq_length] at hcount
  obtain ⟨i, rfl⟩ := Int.eq_ofNat_of_zero_le hzero
  obtain ⟨j, hj⟩ := Int.eq_ofNat_of_zero_le (show 0 ≤ last - 1 by omega)
  obtain rfl : last = (j + 1 : Nat) := by omega
  have hi : i < (spans 0 p.names).length := by simp; omega
  have hj : j < (spans 0 p.names).length := by simp; omega
  have hwithin := (boundsFrom_within (Nat.le_refl 0) (trimEnd p.namesText)).1
    (spans 0 p.names)[j] (by
      rw [← relativeBounds, hp.relativeBounds_eq]
      exact List.getElem_mem hj)
  refine ⟨i, j, _, _, p.names[j], rfl, rfl, by omega, List.getElem?_eq_getElem hi,
    List.getElem?_eq_getElem hj, List.getElem?_eq_getElem (by simpa using hj), by omega, ?_⟩
  rw [hq, View.subpath, names_view, hp.relativeBounds_eq] at hview
  simp only [length_spans] at hview
  rw [if_neg (by omega), if_neg (by omega)] at hview
  simp only [Int.toNat_natCast, Nat.add_sub_cancel, List.getElem?_eq_getElem hi,
    List.getElem?_eq_getElem hj] at hview
  exact Except.ok.inj hview

theorem names_of_subpath {first last : Int} (hq : p.subpath first last = .ok q) :
    q.rootText = [] ∧ q.uri = p.uri ∧
      q.properNames = (p.namesWithin first last).filter (fun n => !n.isEmpty) ∧
      ((∀ n ∈ p.namesWithin first last, n ≠ []) → q.names = p.namesWithin first last) := by
  have hwf := hp.subpath hq
  by_cases heq : first = last
  · subst heq
    have hnone : p.namesWithin first first = [] := by simp [namesWithin]
    rw [hnone, eq_parse_of_subpath hq]
    exact ⟨rfl, rfl, rfl, fun _ => rfl⟩
  have hlt : first < last := by
    have hle := (hasNames_of_subpath hq).2.1
    omega
  obtain ⟨i, j, b, e, n, rfl, rfl, hij, hb, he, hn, hle, hview⟩ := hp.view_of_subpath hq hlt
  have huri : q.uri = p.uri := congrArg View.uri hview
  have hroot : q.rootText = [] := congrArg View.root hview
  have hnames : q.namesText = p.namesText.slice b.1 e.2 := congrArg View.names hview
  have hn' : (pieces (trimEnd p.namesText))[j]? = some n := by rwa [← hp.names_eq]
  rw [hp.names_eq] at hb he
  obtain ⟨-, ⟨front, hfront⟩, hpieces⟩ := pieces_slice hij hb he hn'
  have hwithin : p.namesWithin (i : Nat) (j + 1 : Nat) =
      ((pieces (trimEnd p.namesText)).take (j + 1)).drop i := by
    rw [namesWithin, hp.names_eq]
    rfl
  rw [slice_trimEnd hle, ← hnames] at hfront hpieces
  rw [hwithin, ← hpieces]
  refine ⟨hroot, huri, ?_, ?_⟩
  · rw [hwf.properNames_eq, properPieces, List.filter_append]
    split <;> simp
  · intro hnonempty
    -- the last name is not empty, so the text does not end with a separator
    have hne : n ≠ [] := by
      apply hnonempty n
      rw [hpieces]
      apply List.mem_of_getElem? (i := j - i)
      rw [List.getElem?_drop, List.getElem?_take_of_lt (by omega)]
      rwa [show i + (j - i) = j by omega]
    have hbare := not_separator_of_mem_pieces (List.mem_of_getElem? hn')
    have hend : ¬ endsInSeparator q.namesText = true := by
      rw [hfront, endsInSeparator_append hne]
      intro hends
      obtain ⟨u, s, rfl, hs⟩ := exists_of_endsInSeparator hends
      rw [hbare s (by simp)] at hs
      contradiction
    rw [hwf.names_eq, trimEnd, if_neg hend, if_neg hne, List.append_nil]

/-- What lies in a range lies there behind the start of the range. -/
theorem view_subpath_of_subpath {first last : Int} (hq : p.subpath first last = .ok q)
    (hne : ∀ n ∈ p.namesWithin first last, n ≠ []) {start stop : Int} {r s : Path}
    (hr : q.subpath start stop = .ok r)
    (hs : p.subpath (first + start) (first + stop) = .ok s) : r.view = s.view := by
  have hwf := hp.subpath hq
  obtain ⟨-, huri, -, hnames⟩ := hp.names_of_subpath hq
  have hnames := hnames hne
  by_cases heq : start = stop
  · subst heq
    rw [eq_parse_of_subpath hr, eq_parse_of_subpath hs, huri]
  obtain ⟨hzero, hle, hcount⟩ := hasNames_of_subpath hr
  have hlt : first < last := by
    have hfirst := (hasNames_of_subpath hq).2.1
    by_contra hnot
    obtain rfl : first = last := by omega
    have hnone : q.nameCount = 0 := by
      rw [eq_parse_of_subpath hq]
      rfl
    omega
  obtain ⟨i, j, b, e, n, rfl, rfl, hij, hb, he, hn, -, hview⟩ := hp.view_of_subpath hq hlt
  obtain ⟨c, d, x, y, -, rfl, rfl, -, hx, hy, -, hwithin, hinner⟩ :=
    hwf.view_of_subpath hr (by omega)
  obtain ⟨c', d', x', y', -, hc, hd, -, hx', hy', -, -, houter⟩ :=
    hp.view_of_subpath hs (by omega)
  obtain rfl : c' = i + c := by omega
  obtain rfl : d' = i + d := by omega
  -- both ranges are cut from the names text of the path at the same offsets
  have hq' : q.names = (p.names.take (j + 1)).drop i := hnames
  rw [hq'] at hx hy
  have hfront := getElem?_spans_of_within hb hx
  have hback := getElem?_spans_of_within hb hy
  obtain rfl := Option.some.inj (hfront.symm.trans hx')
  obtain rfl := Option.some.inj (hback.symm.trans hy')
  have hqnames : q.namesText = p.namesText.slice b.1 e.2 := congrArg View.names hview
  have hend : b.1 + y.2 ≤ e.2 := by
    rw [hp.names_eq] at hb he hn
    have hbounds := (pieces_slice hij hb he hn).1
    have htrim := length_trimEnd_le q.namesText
    have hlength : q.namesText.length ≤ e.2 - b.1 := by
      rw [hqnames]
      simp [Text.slice]
      omega
    omega
  rw [hinner, houter, hview, hqnames, slice_slice p.namesText hend]
  rfl

end WellFormed

/-- Which ranges of names a path has, and what they hold. -/
structure Ranges (p : Path) : Prop where
  range : ∀ first last, p.range (some first) (some last) none = p.subpath first last
  subpath_error : ∀ first last e, p.subpath first last = .error e ↔
    ¬ (0 ≤ first ∧ first ≤ last ∧ last ≤ p.names.length) ∧
      e = .outOfRange first last p.display
  get_error : ∀ index e, p.get index = .error e ↔
    ¬ (0 ≤ index ∧ index < p.names.length) ∧ e = .outOfRange index (index + 1) p.display
  subpath : ∀ first last q, p.subpath first last = .ok q →
    q.root? = none ∧ q.uri = p.uri ∧
      q.properNames = (p.namesWithin first last).filter (fun n => !n.isEmpty) ∧
      ((∀ n ∈ p.namesWithin first last, n ≠ []) → q.names = p.namesWithin first last)
  get : ∀ index q, p.get index = .ok q →
    q.root? = none ∧ q.uri = p.uri ∧ p.names[index.toNat]? = some q.raw ∧
      p.namePaths[index.toNat]? = some q
  subpath_subpath : ∀ first last q, p.subpath first last = .ok q →
    (∀ n ∈ p.namesWithin first last, n ≠ []) → ∀ start stop, 0 ≤ start → start ≤ stop →
    stop ≤ last - first → ∃ r s, q.subpath start stop = .ok r ∧
      p.subpath (first + start) (first + stop) = .ok s ∧ (r == s) = true

theorem length_namesWithin {p : Path} {first last : Int} (hnames : p.HasNames first last) :
    ((p.namesWithin first last).length : Int) = last - first := by
  obtain ⟨hzero, hle, hcount⟩ := hnames
  rw [nameCount_eq_length] at hcount
  simp [namesWithin]
  omega

/-- A range of names is there exactly if all its names are; it holds them and nothing else, and a
range of it is a range of the path. -/
theorem ranges_of_reachable {p : Path} (hp : Reachable p) : p.Ranges := by
  have hwf := hp.wellFormed
  constructor
  case range => exact fun first last => rfl
  case subpath_error =>
    intro first last e
    rw [← nameCount_eq_length]
    exact subpath_eq_error_iff p first last e
  case get_error =>
    intro index e
    rw [← nameCount_eq_length]
    exact get_eq_error_iff p index e
  case subpath =>
    intro first last q hq
    obtain ⟨hroot, hrest⟩ := hwf.names_of_subpath hq
    exact ⟨(hwf.subpath hq).root?_eq_none_iff_rootText.mpr hroot, hrest⟩
  case get =>
    intro index q hq
    obtain ⟨hroot, huri, -⟩ := hwf.names_of_subpath hq
    have hpath := getElem?_namePaths_of_get hq
    refine ⟨(hwf.subpath hq).root?_eq_none_iff_rootText.mpr hroot, huri, ?_, hpath⟩
    rw [← map_raw_namePaths, List.getElem?_map, hpath]
    rfl
  case subpath_subpath =>
    intro first last q hq hne start stop hstart hle hstop
    have hnames := hasNames_of_subpath hq
    have hlength := length_namesWithin hnames
    obtain ⟨-, -, -, hqnames⟩ := hwf.names_of_subpath hq
    rw [← hqnames hne, ← nameCount_eq_length] at hlength
    obtain ⟨hzero, -, hcount⟩ := hnames
    have hinner : q.HasNames start stop := ⟨hstart, hle, by omega⟩
    have houter : p.HasNames (first + start) (first + stop) := ⟨by omega, by omega, by omega⟩
    obtain ⟨r, hr⟩ := exists_of_hasNames hinner
    obtain ⟨s, hs⟩ := exists_of_hasNames houter
    exact ⟨r, s, hr, hs, beq_of_view_eq (hwf.view_subpath_of_subpath hq hne hr hs)⟩

/-- In `/a//b/c` the second name is empty; the third and the fourth are the range `b/c`, which has
the range `c`. -/
theorem ranges_of_empty_name :
    Reachable (parse localUri "/a//b/c".toList) ∧
      (parse localUri "/a//b/c".toList).Ranges ∧
      (parse localUri "/a//b/c".toList).namesWithin 2 4 = ["b".toList, "c".toList] :=
  ⟨.parse _ _, ranges_of_reachable (.parse _ _), by decide⟩

end Path

end LexicalPaths
