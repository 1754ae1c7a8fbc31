import LexicalPaths.Path.Navigation
import LexicalPaths.Proofs.Path.Root

/-!
# The names in a text

The names of a path are the pieces of its text between separators, after one closing separator is
taken off.  The pieces that are not empty do not even depend on that, and texts that are joined by
a separator simply have the pieces of both.  `spell` writes names down again.
-/

namespace LexicalPaths.Separator

/-- The pieces that separators cut a text into; what follows the last one counts if it is not
empty. -/
def pieces : Text → List Text
  | [] => []
  | c :: t =>
    if isSeparator c then [] :: pieces t
    else
      match pieces t with
      | [] => [[c]]
      | piece :: rest => (c :: piece) :: rest

/-- The pieces that are not empty. -/
def properPieces (t : Text) : List Text :=
  (pieces t).filter fun piece => !piece.isEmpty

/-- The text without one closing separator. -/
def trimEnd (t : Text) : Text :=
  if endsInSeparator t then t.dropLast else t

/-- What can stand between separators and is not empty. -/
def IsName (n : Text) : Prop :=
  n ≠ [] ∧ ∀ c ∈ n, isSeparator c = false

/-- Puts a text in front of the first piece. -/
def glue (a : Text) : List Text → List Text
  | [] => if a = [] then [] else [a]
  | piece :: rest => (a ++ piece) :: rest

theorem glue_nil (ps : List Text) : glue [] ps = ps := by
  cases ps <;> simp [glue]

theorem pieces_cons_of_separator {s : Char} (hs : isSeparator s = true) (t : Text) :
    pieces (s :: t) = [] :: pieces t := by
  rw [pieces, if_pos hs]

theorem pieces_cons_of_not {c : Char} (hc : isSeparator c = false) (t : Text) :
    pieces (c :: t) = glue [c] (pieces t) := by
  rw [pieces, if_neg (by simp [hc])]
  cases pieces t <;> simp [glue]

theorem glue_append (a b : Text) (ps : List Text) : glue a (glue b ps) = glue (a ++ b) ps := by
  cases ps with
  | nil =>
      by_cases hb : b = []
      · simp [glue, hb]
      · simp [glue, hb]
  | cons piece rest => simp [glue]

theorem pieces_append {a : Text} (ha : ∀ c ∈ a, isSeparator c = false) (t : Text) :
    pieces (a ++ t) = glue a (pieces t) := by
  induction a with
  | nil => rw [List.nil_append, glue_nil]
  | cons c a ih =>
      have htail : ∀ x ∈ a, isSeparator x = false := fun x hx => ha x (List.mem_cons_of_mem c hx)
      rw [List.cons_append, pieces_cons_of_not (ha c List.mem_cons_self), ih htail, glue_append]
      rfl

theorem pieces_append_separator {a : Text} (ha : ∀ c ∈ a, isSeparator c = false) {s : Char}
    (hs : isSeparator s = true) (t : Text) : pieces (a ++ s :: t) = a :: pieces t := by
  rw [pieces_append ha, pieces_cons_of_separator hs]
  simp [glue]

theorem pieces_of_isName {n : Text} (hn : IsName n) : pieces n = [n] := by
  have happ := pieces_append hn.2 []
  rw [List.append_nil] at happ
  rw [happ]
  simp [pieces, glue, hn.1]

/-- The first piece is what comes before the first separator. -/
theorem exists_pieces_eq_cons {t : Text} (ht : StartsBare t) (hne : t ≠ []) :
    ∃ rest, pieces t = lead t :: rest := by
  induction t with
  | nil => exact absurd rfl hne
  | cons c t ih =>
      have hc := startsBare_cons.mp ht
      have hlead : lead (c :: t) = c :: lead t := by simp [lead, hc]
      rw [pieces_cons_of_not hc, hlead]
      cases t with
      | nil => exact ⟨[], rfl⟩
      | cons d t =>
          cases hd : isSeparator d with
          | true =>
              rw [pieces_cons_of_separator hd, lead_cons_separator hd]
              exact ⟨pieces t, rfl⟩
          | false =>
              obtain ⟨rest, hrest⟩ := ih (startsBare_cons.mpr hd) (by simp)
              exact ⟨rest, by rw [hrest]; rfl⟩

theorem pieces_eq_nil_iff {t : Text} : pieces t = [] ↔ t = [] := by
  cases t with
  | nil => simp [pieces]
  | cons c t =>
      cases hc : isSeparator c with
      | true => simp [pieces_cons_of_separator hc]
      | false =>
          rw [pieces_cons_of_not hc]
          cases pieces t <;> simp [glue]

theorem not_separator_of_mem_pieces {t n : Text} (hn : n ∈ pieces t) :
    ∀ c ∈ n, isSeparator c = false := by
  induction t generalizing n with
  | nil => simp [pieces] at hn
  | cons c t ih =>
      cases hc : isSeparator c with
      | true =>
          rw [pieces_cons_of_separator hc] at hn
          rcases List.mem_cons.mp hn with rfl | hn
          · simp
          · exact ih hn
      | false =>
          rw [pieces_cons_of_not hc] at hn
          cases hps : pieces t with
          | nil =>
              rw [hps] at hn
              have hnc : n = [c] := by simpa [glue] using hn
              simp [hnc, hc]
          | cons piece rest =>
              rw [hps] at hn ih
              rcases List.mem_cons.mp hn with rfl | hn
              · intro x hx
                rcases List.mem_cons.mp hx with rfl | hx
                · exact hc
                · exact ih List.mem_cons_self x hx
              · exact ih (List.mem_cons_of_mem piece hn)

theorem isName_of_mem_properPieces {t n : Text} (hn : n ∈ properPieces t) : IsName n := by
  obtain ⟨hmem, hne⟩ := List.mem_filter.mp hn
  exact ⟨by simpa using hne, not_separator_of_mem_pieces hmem⟩

theorem pieces_unify {s : Char} (hs : isSeparator s = true) (t : Text) :
    pieces (unify [s] t) = pieces t := by
  rw [unify_eq_map hs]
  induction t with
  | nil => rfl
  | cons c t ih =>
      rw [List.map_cons]
      cases hc : isSeparator c with
      | true =>
          rw [pieces_cons_of_separator (by rwa [isSeparator_restyle hs]),
            pieces_cons_of_separator hc, ih]
      | false => rw [restyle_of_not hc, pieces_cons_of_not hc, pieces_cons_of_not hc, ih]

theorem properPieces_unify {s : Char} (hs : isSeparator s = true) (t : Text) :
    properPieces (unify [s] t) = properPieces t := by
  rw [properPieces, pieces_unify hs]
  rfl

section

variable {s : Char} (hs : isSeparator s = true)
include hs

theorem pieces_append_cons (t u : Text) :
    pieces (t ++ s :: u) = pieces (t ++ [s]) ++ pieces u := by
  induction t with
  | nil => simp [pieces_cons_of_separator hs, pieces]
  | cons c t ih =>
      simp only [List.cons_append]
      cases hc : isSeparator c with
      | true => rw [pieces_cons_of_separator hc, pieces_cons_of_separator hc, ih]; rfl
      | false =>
          rw [pieces_cons_of_not hc, pieces_cons_of_not hc, ih]
          cases hps : pieces (t ++ [s]) with
          | nil =>
              cases t with
              | nil => simp [pieces_cons_of_separator hs] at hps
              | cons d t =>
                  rw [List.cons_append, pieces] at hps
                  split at hps
                  · simp at hps
                  · split at hps <;> simp at hps
          | cons piece rest => rfl

theorem pieces_append_singleton (t : Text) :
    pieces (t ++ [s]) = pieces t ∨ pieces (t ++ [s]) = pieces t ++ [[]] := by
  induction t with
  | nil => exact .inr (by simp [pieces_cons_of_separator hs, pieces])
  | cons c t ih =>
      simp only [List.cons_append]
      cases hc : isSeparator c with
      | true =>
          rw [pieces_cons_of_separator hc, pieces_cons_of_separator hc]
          rcases ih with ih | ih
          · exact .inl (by rw [ih])
          · exact .inr (by rw [ih]; rfl)
      | false =>
          rw [pieces_cons_of_not hc, pieces_cons_of_not hc]
          cases hps : pieces t with
          | nil =>
              rw [hps] at ih
              rcases ih with ih | ih
              · exact .inl (by rw [ih])
              · exact .inl (by rw [ih]; rfl)
          | cons piece rest =>
              rw [hps] at ih
              rcases ih with ih | ih
              · exact .inl (by rw [ih])
              · exact .inr (by rw [ih]; rfl)

theorem properPieces_append_singleton (t : Text) : properPieces (t ++ [s]) = properPieces t := by
  unfold properPieces
  rcases pieces_append_singleton hs t with h | h
  · rw [h]
  · simp [h]

/-- A separator between two texts keeps their pieces apart. -/
theorem properPieces_append_cons (t u : Text) :
    properPieces (t ++ s :: u) = properPieces t ++ properPieces u := by
  have happ : properPieces (t ++ s :: u) = properPieces (t ++ [s]) ++ properPieces u := by
    unfold properPieces
    rw [pieces_append_cons hs, List.filter_append]
  rw [happ, properPieces_append_singleton hs]

end

theorem exists_of_endsInSeparator {t : Text} (ht : endsInSeparator t = true) :
    ∃ u s, t = u ++ [s] ∧ isSeparator s = true := by
  unfold endsInSeparator at ht
  cases hlast : t.getLast? with
  | none => simp [hlast] at ht
  | some s =>
      obtain ⟨u, rfl⟩ := List.getLast?_eq_some_iff.mp hlast
      exact ⟨u, s, rfl, by simpa using ht⟩

theorem properPieces_trimEnd (t : Text) : properPieces (trimEnd t) = properPieces t := by
  unfold trimEnd
  split
  next h =>
    obtain ⟨u, s, rfl, hs⟩ := exists_of_endsInSeparator h
    rw [List.dropLast_concat, properPieces_append_singleton hs]
  next => rfl

/-- One closing separator is no part of the first name. -/
theorem StartsBare.trimEnd {t : Text} (ht : StartsBare t) (hne : t ≠ []) :
    StartsBare (trimEnd t) ∧ trimEnd t ≠ [] ∧ lead (trimEnd t) = lead t := by
  unfold Separator.trimEnd
  split
  next h =>
    obtain ⟨u, s, rfl, hs⟩ := exists_of_endsInSeparator h
    rw [List.dropLast_concat, lead_append_cons hs]
    cases u with
    | nil =>
        rw [List.nil_append, startsBare_cons, hs] at ht
        contradiction
    | cons c u => exact ⟨startsBare_cons.mpr (startsBare_cons.mp ht), by simp, rfl⟩
  next => exact ⟨ht, hne, rfl⟩

theorem trimEnd_unify {s : Char} (hs : isSeparator s = true) (t : Text) :
    trimEnd (unify [s] t) = unify [s] (trimEnd t) := by
  unfold trimEnd
  rw [endsInSeparator_unify hs]
  split
  · rw [unify_eq_map hs, unify_eq_map hs, List.map_dropLast]
  · rfl

/-! ## Names written down -/

/-- The text of names, with a closing separator if there are names and one is wanted. -/
def spell (s : Char) (names : List Text) (trail : Bool) : Text :=
  Text.joinWith [s] names ++ if trail && !names.isEmpty then [s] else []

@[simp] theorem spell_nil (s : Char) (trail : Bool) : spell s [] trail = [] := by
  simp [spell, Text.joinWith]

theorem spell_singleton (s : Char) (n : Text) (trail : Bool) :
    spell s [n] trail = n ++ if trail then [s] else [] := by
  simp [spell, Text.joinWith]

theorem spell_cons_cons (s : Char) (n m : Text) (rest : List Text) (trail : Bool) :
    spell s (n :: m :: rest) trail = n ++ s :: spell s (m :: rest) trail := by
  simp [spell, Text.joinWith]

theorem spell_append_cons (s : Char) (a n : Text) (rest : List Text) (trail : Bool) :
    spell s ((a ++ n) :: rest) trail = a ++ spell s (n :: rest) trail := by
  cases rest with
  | nil => rw [spell_singleton, spell_singleton, List.append_assoc]
  | cons m rest => rw [spell_cons_cons, spell_cons_cons, List.append_assoc]

theorem spell_nil_cons (s : Char) (rest : List Text) (trail : Bool) :
    spell s ([] :: rest) trail =
      (if trail || !rest.isEmpty then [s] else []) ++ spell s rest trail := by
  cases rest with
  | nil => simp [spell_singleton]
  | cons m rest => simp [spell_cons_cons]

/-- A closing separator can as well be thought of as standing before an empty last name. -/
theorem joinWith_append_nil (s : Char) (names : List Text) (trail : Bool) :
    Text.joinWith [s] (names ++ if trail then [[]] else []) = spell s names trail := by
  induction names with
  | nil => cases trail <;> rfl
  | cons n rest ih =>
      cases rest with
      | nil => cases trail <;> simp [spell, Text.joinWith]
      | cons m rest =>
          rw [spell_cons_cons, ← ih]
          simp [Text.joinWith]

theorem spell_true (s : Char) {names : List Text} (hne : names ≠ []) :
    spell s names true = spell s names false ++ [s] := by
  cases names with
  | nil => exact absurd rfl hne
  | cons n rest => simp [spell]

/-- The pieces of a text, written down, are the text again. -/
theorem spell_pieces {s : Char} (hs : isSeparator s = true) (t : Text) :
    spell s (pieces t) (endsInSeparator t) = unify [s] t := by
  induction t with
  | nil => rfl
  | cons c t ih =>
      rw [unify_cons hs, ← ih]
      by_cases hnil : t = []
      · subst hnil
        cases hc : isSeparator c with
        | true => simp [pieces, hc, spell, Text.joinWith, endsInSeparator, restyle]
        | false => simp [pieces, hc, spell, Text.joinWith, endsInSeparator, restyle]
      · have hends : endsInSeparator (c :: t) = endsInSeparator t :=
          endsInSeparator_append (t := [c]) hnil
        obtain ⟨piece, rest, hcons⟩ := List.exists_cons_of_ne_nil (pieces_eq_nil_iff.not.mpr hnil)
        rw [hends]
        cases hc : isSeparator c with
        | true =>
            rw [pieces_cons_of_separator hc, spell_nil_cons, hcons, restyle, if_pos hc]
            simp
        | false =>
            rw [pieces_cons_of_not hc, hcons, restyle_of_not hc]
            exact spell_append_cons s [c] piece rest _

section

variable {s : Char} {names : List Text} (hnames : ∀ n ∈ names, IsName n)
include hnames

theorem startsBare_spell (trail : Bool) : StartsBare (spell s names trail) := by
  cases names with
  | nil => simpa using startsBare_nil
  | cons n rest =>
      obtain ⟨hne, hbare⟩ := hnames n List.mem_cons_self
      cases n with
      | nil => exact absurd rfl hne
      | cons c n =>
          have hc : isSeparator c = false := hbare c List.mem_cons_self
          cases rest with
          | nil =>
              rw [spell_singleton]
              exact startsBare_cons.mpr hc
          | cons m rest =>
              rw [spell_cons_cons]
              exact startsBare_cons.mpr hc

theorem unify_spell {r : Char} (hs : isSeparator s = true) (hr : isSeparator r = true)
    (trail : Bool) : unify [r] (spell s names trail) = spell r names trail := by
  have hlast : unify [r] (if trail then [s] else []) = if trail then [r] else [] := by
    cases trail <;> simp [unify_eq_map hr, restyle, hs]
  induction names with
  | nil => simp [unify_eq_map hr]
  | cons n rest ih =>
      have hn : unify [r] n = n := unify_of_forall_not hr (hnames n List.mem_cons_self).2
      cases rest with
      | nil => rw [spell_singleton, spell_singleton, unify_append hr, hn, hlast]
      | cons m rest =>
          have hrest := ih fun x hx => hnames x (List.mem_cons_of_mem n hx)
          rw [spell_cons_cons, spell_cons_cons, unify_append hr, unify_cons hr, hn, hrest]
          simp [restyle, hs]

theorem endsInSeparator_spell_false : endsInSeparator (spell s names false) = false := by
  induction names with
  | nil => rfl
  | cons n rest ih =>
      obtain ⟨hne, hbare⟩ := hnames n List.mem_cons_self
      cases rest with
      | nil =>
          rw [spell_singleton]
          cases hends : endsInSeparator n with
          | false => simpa using hends
          | true =>
              obtain ⟨u, c, rfl, hc⟩ := exists_of_endsInSeparator hends
              rw [hbare c (by simp)] at hc
              contradiction
      | cons m rest =>
          have hrest := ih fun x hx => hnames x (List.mem_cons_of_mem n hx)
          have hsplit : n ++ s :: spell s (m :: rest) false =
              (n ++ [s]) ++ spell s (m :: rest) false := by simp
          have hm : spell s (m :: rest) false ≠ [] := by
            have hne := (hnames m (by simp)).1
            cases rest <;> simp [spell, Text.joinWith, hne]
          rw [spell_cons_cons, hsplit, endsInSeparator_append hm, hrest]

theorem endsInSeparator_spell (hs : isSeparator s = true) (trail : Bool) :
    endsInSeparator (spell s names trail) = (trail && !names.isEmpty) := by
  cases trail with
  | false => rw [endsInSeparator_spell_false hnames, Bool.false_and]
  | true =>
      by_cases hne : names = []
      · subst hne
        rfl
      · rw [spell_true s hne, endsInSeparator_append (by simp)]
        simp [endsInSeparator, hs, hne]

theorem trimEnd_spell (hs : isSeparator s = true) (trail : Bool) :
    trimEnd (spell s names trail) = spell s names false := by
  unfold trimEnd
  rw [endsInSeparator_spell hnames hs]
  by_cases hne : names = []
  · simp [hne]
  · cases trail with
    | false => rfl
    | true =>
        rw [spell_true s hne, List.dropLast_concat]
        simp [hne]

theorem pieces_spell (hs : isSeparator s = true) : pieces (spell s names false) = names := by
  induction names with
  | nil => rfl
  | cons n rest ih =>
      have hn := hnames n List.mem_cons_self
      cases rest with
      | nil =>
          rw [spell_singleton]
          simpa using pieces_of_isName hn
      | cons m rest =>
          rw [spell_cons_cons, pieces_append_separator hn.2 hs,
            ih fun x hx => hnames x (List.mem_cons_of_mem n hx)]

theorem properPieces_spell (hs : isSeparator s = true) (trail : Bool) :
    properPieces (spell s names trail) = names := by
  rw [← properPieces_trimEnd, trimEnd_spell hnames hs, properPieces, pieces_spell hnames hs]
  exact List.filter_eq_self.mpr fun n hn => by simp [(hnames n hn).1]

end

theorem lead_spell_cons {s : Char} (hs : isSeparator s = true) {n : Text} (hn : IsName n)
    (rest : List Text) (trail : Bool) : lead (spell s (n :: rest) trail) = n := by
  cases rest with
  | nil =>
      rw [spell_singleton, lead_append hn.2]
      cases trail with
      | false => simp [lead]
      | true => simp [lead_cons_separator hs]
  | cons m rest =>
      rw [spell_cons_cons, lead_append hn.2, lead_cons_separator hs, List.append_nil]

/-! ## Names that hold a drive -/

theorem isDriveName_of_isName {d r : Text} (hn : IsName (d ++ driveColon :: r))
    (hd : driveColon ∉ d) : Root.IsDriveName d := by
  intro c hc
  refine ⟨hn.2 c (List.mem_append_left _ hc), ?_⟩
  rintro rfl
  exact hd hc

theorem forall_isName_behind_drive {d r : Text} {rest : List Text}
    (hnames : ∀ n ∈ (d ++ driveColon :: r) :: rest, IsName n) (hr : r ≠ []) :
    ∀ n ∈ r :: rest, IsName n := by
  have hdrive := hnames _ List.mem_cons_self
  intro n hn
  rcases List.mem_cons.mp hn with rfl | hn
  · exact ⟨hr, fun c hc => hdrive.2 c (by simp [hc])⟩
  · exact hnames n (List.mem_cons_of_mem _ hn)

end LexicalPaths.Separator
