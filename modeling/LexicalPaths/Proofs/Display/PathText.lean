import LexicalPaths.Display.PathText
import LexicalPaths.Proofs.Path.Below

/-!
# Displayed paths

An absolute path is displayed from its root on, or from the base folder on if it lies below it on a
way down.  What the ellipsis hides are the first names of the displayed form, and its last names
are shown.  Every character has a span of its own.
-/

namespace LexicalPaths

/-! ## Characters -/

theorem Text.mem_joinWith {c : Char} {separator : Text} {names : List Text}
    (hc : c ∈ joinWith separator names) : c ∈ separator ∨ ∃ n ∈ names, c ∈ n := by
  induction names with
  | nil => contradiction
  | cons n names ih =>
      cases names with
      | nil => exact .inr ⟨n, List.mem_singleton_self n, hc⟩
      | cons m names =>
          simp only [joinWith, List.mem_append, or_assoc] at hc
          rcases hc with hc | hc | hc
          · exact .inr ⟨n, List.mem_cons_self, hc⟩
          · exact .inl hc
          · rcases ih hc with hc | ⟨k, hk, hc⟩
            · exact .inl hc
            · exact .inr ⟨k, List.mem_cons_of_mem n hk, hc⟩

theorem Text.joinWith_ne_nil {separator n : Text} {names : List Text} (hn : n ≠ []) :
    joinWith separator (n :: names) ≠ [] := by
  cases names <;> simp [joinWith, hn]

theorem Path.mem_text_of_mem_rootText {p : Path} {c : Char} (hc : c ∈ p.rootText) : c ∈ p.text :=
  List.mem_of_mem_take hc

theorem Path.mem_text_of_mem_names {p : Path} {n : Text} {c : Char} (hn : n ∈ p.names)
    (hc : c ∈ n) : c ∈ p.text := by
  obtain ⟨bounds, -, rfl⟩ := List.mem_map.mp hn
  exact List.mem_of_mem_take (List.mem_of_mem_drop hc)

namespace Display

open LexicalPaths.Path Separator

/-! ## Libraries of styled texts -/

/-- What the display relies on: a piece enters the text behind what is there, without the characters
that are stripped, and a piece with a style has a span for what entered.  Only control characters
are stripped. -/
structure TextLibrary.IsLawful {σ : Type} (library : TextLibrary σ) : Prop where
  plain_empty : library.plain (library.empty none) = []
  spans_empty : library.spans (library.empty none) = []
  plain_append : ∀ s piece style?, library.plain (library.append s piece style?) =
    library.plain s ++ piece.filter fun c => !library.strips c
  spans_append : ∀ s piece style, piece ≠ [] →
    library.spans (library.append s piece (some style)) =
      library.spans s ++ [⟨(library.plain s).length,
        (library.plain (library.append s piece (some style))).length, style⟩]
  strips : ∀ c, library.strips c = true → c.toNat < 32

theorem Styled.isLawful_library : library.IsLawful := by
  constructor
  case plain_empty => rfl
  case spans_empty => rfl
  case plain_append =>
    intro s piece style?
    by_cases hpiece : piece = []
    · simp [library, add, hpiece]
    · simp [library, add, hpiece, withoutControls]
  case spans_append =>
    intro s piece style hpiece
    simp [library, add, hpiece, spanIn]
  case strips =>
    intro c hc
    simp only [library, isControl, Bool.or_eq_true, beq_iff_eq] at hc
    omega

/-! ## Colours -/

section

variable {σ : Type} {library : TextLibrary σ} (hlibrary : library.IsLawful) {t : Text}
  (ht : ∀ c ∈ t, library.strips c = false)
include hlibrary ht

theorem foldl_append (s : σ) :
    let last := t.foldl (fun s c => library.append s [c] (some (.ofColor (pathColor c)))) s
    library.plain last = library.plain s ++ t ∧
      library.spans last = library.spans s ++
        (t.zipIdx (library.plain s).length).map fun (c, i) =>
          ⟨i, i + 1, .ofColor (pathColor c)⟩ := by
  induction t generalizing s with
  | nil => simp
  | cons c t ih =>
      obtain ⟨hc, ht⟩ := List.forall_mem_cons.mp ht
      have hplain : library.plain (library.append s [c] (some (.ofColor (pathColor c)))) =
          library.plain s ++ [c] := by
        simp [hlibrary.plain_append, hc]
      have hspans := hlibrary.spans_append s [c] (.ofColor (pathColor c)) (List.cons_ne_nil c [])
      obtain ⟨hlast, hlastSpans⟩ :=
        ih ht (library.append s [c] (some (.ofColor (pathColor c))))
      rw [hplain] at hlast hspans hlastSpans
      rw [hspans] at hlastSpans
      simp only [List.foldl_cons]
      exact ⟨by simpa using hlast, by simpa using hlastSpans⟩

theorem plain_colored : library.plain (colored library t) = t := by
  simpa [colored, hlibrary.plain_empty] using (foldl_append hlibrary ht (library.empty none)).1

theorem spans_colored :
    library.spans (colored library t) =
      t.zipIdx.map fun (c, i) => ⟨i, i + 1, .ofColor (pathColor c)⟩ := by
  simpa [colored, hlibrary.plain_empty, hlibrary.spans_empty] using
    (foldl_append hlibrary ht (library.empty none)).2

end

theorem pathColor_eq_magenta_iff (c : Char) :
    pathColor c = .magenta ↔ c = '/' ∨ c = '\\' ∨ c = '…' := by
  unfold pathColor
  split
  next h => simpa [ellipsis] using h
  next h => simpa [ellipsis] using h

/-! ## The displayed form -/

/-- The path with the text `t` in the form in which it is displayed. -/
def displayedForm (t : Text) (base? : Option Text) : Path :=
  shownForm (parse localUri t) (baseFolder base?)

/-- The path `p` lies below the folder with the text `base?`, on a way down. -/
def LeadsDown (base? : Option Text) (p : Path) : Prop :=
  ∃ base, base? = some base ∧ base ≠ [] ∧ (parse localUri base).rootKey = p.rootKey ∧
    ∃ first rest, p.properNames = (parse localUri base).properNames ++ first :: rest ∧
      first ≠ parentName

section

variable {t : Text} {base? : Option Text} (habs : (parse localUri t).isAbsolute = true)
include habs

theorem displayedForm_of_leadsDown (hdown : LeadsDown base? (parse localUri t)) :
    ∃ base first rest, base? = some base ∧
      LiesBelow (parse localUri base) (parse localUri t) first rest ∧
      displayedForm t base? = (parse localUri t).tail (first :: rest) := by
  obtain ⟨base, rfl, hne, hkey, first, rest, hnames, hup⟩ := hdown
  have hbelow : LiesBelow (parse localUri base) (parse localUri t) first rest :=
    ⟨habs, rfl, hkey, hnames⟩
  have hsome := (below?_eq_some_iff (wellFormed_parse localUri base) (wellFormed_parse localUri t)
    habs rfl).mpr ⟨first, rest, hbelow, hup, rfl⟩
  refine ⟨base, first, rest, rfl, hbelow, ?_⟩
  simp [displayedForm, baseFolder, shownForm, hne, hsome]

theorem displayedForm_of_not_leadsDown (hdown : ¬ LeadsDown base? (parse localUri t)) :
    displayedForm t base? = parse localUri t := by
  cases base? with
  | none => rfl
  | some base =>
      by_cases hne : base = []
      · simp [displayedForm, baseFolder, shownForm, hne]
      · cases hcase : (parse localUri base).below? (parse localUri t) with
        | none => simp [displayedForm, baseFolder, shownForm, hne, hcase]
        | some relative =>
            obtain ⟨first, rest, hbelow, hup, -⟩ :=
              (below?_eq_some_iff (wellFormed_parse localUri base) (wellFormed_parse localUri t)
                habs rfl).mp hcase
            exact absurd ⟨base, rfl, hne, hbelow.rootKey, first, rest, hbelow.names, hup⟩ hdown

end

/-! ## The shown text -/

/-- The names that the ellipsis stands for. -/
def hiddenNames (p : Path) : List Text :=
  p.names.take (p.names.length - shownNames)

def lastNames (p : Path) : List Text :=
  p.names.drop (p.names.length - shownNames)

/-- The mark for hidden names. -/
def cutMark (p : Path) : Text :=
  if shownNames < p.names.length then [ellipsis, p.separator] else []

theorem hiddenNames_append_lastNames (p : Path) : hiddenNames p ++ lastNames p = p.names :=
  List.take_append_drop _ _

theorem shortText_eq (p : Path) :
    shortText p = p.rootText ++ cutMark p ++ Text.joinWith [p.separator] (lastNames p) := by
  have hroot : (p.root?.map Path.raw).getD [] = p.rootText := by
    cases hcase : p.root? with
    | none =>
        rw [Path.rootText, (root?_eq_none_iff p).mp hcase]
        rfl
    | some root => exact raw_of_root? hcase
  unfold shortText
  rw [hroot]
  rfl

/-- The form shows some names of a path, behind the root of the path or behind none. -/
structure Shows (form p : Path) : Prop where
  separator : form.separator = p.separator
  rootText : form.rootText = [] ∨ form.rootText = p.rootText
  names : ∀ n ∈ form.names, n ∈ p.names
  shown : shortText form ≠ []

theorem shows_self {p : Path} (hp : p.WellFormed) (habs : p.isAbsolute = true) : Shows p p := by
  refine ⟨rfl, .inr rfl, fun _ => id, ?_⟩
  rw [shortText_eq]
  simp [hp.rootText_ne_nil_of_isAbsolute habs]

theorem shows_tail {base p : Path} {first : Text} {rest : List Text} (hp : p.WellFormed)
    (hbelow : LiesBelow base p first rest) : Shows (p.tail (first :: rest)) p := by
  have hnames := names_tail hp (hbelow.isName hp)
  constructor
  case separator => rfl
  case rootText => exact .inl rfl
  case names =>
    intro n hn
    rw [hnames] at hn
    have hproper : n ∈ p.properNames := by
      rw [hbelow.names]
      exact List.mem_append_right _ hn
    exact List.mem_of_mem_filter hproper
  case shown =>
    have hsome : lastNames (p.tail (first :: rest)) ≠ [] := by
      simp only [lastNames, hnames, shownNames, List.length_cons, ne_eq, List.drop_eq_nil_iff]
      omega
    obtain ⟨n, names, hlast⟩ := List.exists_cons_of_ne_nil hsome
    have hn : n ∈ first :: rest := by
      rw [← hnames]
      apply List.mem_of_mem_drop
      rw [← lastNames, hlast]
      exact List.mem_cons_self
    rw [shortText_eq, hlast]
    simp [Text.joinWith_ne_nil (hbelow.isName hp n hn).1]

theorem shows_displayedForm {t : Text} {base? : Option Text}
    (habs : (parse localUri t).isAbsolute = true) :
    Shows (displayedForm t base?) (parse localUri t) := by
  by_cases hdown : LeadsDown base? (parse localUri t)
  · obtain ⟨base, first, rest, -, hbelow, heq⟩ := displayedForm_of_leadsDown habs hdown
    rw [heq]
    exact shows_tail (wellFormed_parse localUri t) hbelow
  · rw [displayedForm_of_not_leadsDown habs hdown]
    exact shows_self (wellFormed_parse localUri t) habs

theorem TextLibrary.IsLawful.strips_eq_false {σ : Type} {library : TextLibrary σ}
    (hlibrary : library.IsLawful) {c : Char} (hc : 32 ≤ c.toNat) : library.strips c = false := by
  by_contra hstrips
  have hlt := hlibrary.strips c (eq_true_of_ne_false hstrips)
  omega

theorem Shows.forall_strips {form p : Path} (hform : Shows form p) (hp : p.WellFormed) {σ : Type}
    {library : TextLibrary σ} (hlibrary : library.IsLawful)
    (htext : ∀ c ∈ p.text, library.strips c = false) :
    ∀ c ∈ shortText form, library.strips c = false := by
  have hseparator : library.strips form.separator = false := by
    rw [hform.separator]
    rcases isSeparator_iff.mp hp.separator with hs | hs <;> rw [hs] <;>
      exact hlibrary.strips_eq_false (by decide)
  intro c hc
  rw [shortText_eq, List.mem_append, List.mem_append] at hc
  rcases hc with (hc | hc) | hc
  · rcases hform.rootText with hroot | hroot
    · rw [hroot] at hc
      contradiction
    · rw [hroot] at hc
      exact htext c (mem_text_of_mem_rootText hc)
  · unfold cutMark at hc
    split at hc
    · rcases List.mem_pair.mp hc with rfl | rfl
      · exact hlibrary.strips_eq_false (by decide)
      · exact hseparator
    · contradiction
  · rcases Text.mem_joinWith hc with hc | ⟨n, hn, hc⟩
    · rw [List.mem_singleton.mp hc]
      exact hseparator
    · exact htext c (mem_text_of_mem_names (hform.names n (List.mem_of_mem_drop hn)) hc)

section

variable {σ : Type} (library : TextLibrary σ)

/-- Every character of the text has a span of its own, and stands out if it is a separator or the
ellipsis. -/
structure Tiled (s : σ) : Prop where
  length : (library.spans s).length = (library.plain s).length
  span : ∀ i c, (library.plain s)[i]? = some c → ∃ color : Color,
    (library.spans s)[i]? = some (Span.mk i (i + 1) (.ofColor color)) ∧
      (color = .magenta ↔ c = '/' ∨ c = '\\' ∨ c = '…')

/-- How a path is displayed to who works in the folder with the text `base?`. -/
structure Faithful (t : Text) (base? : Option Text) : Prop where
  relative : (displayedForm t base?).rootText = [] ↔ LeadsDown base? (parse localUri t)
  names : ∀ base, base? = some base → LeadsDown base? (parse localUri t) →
    (parse localUri base).properNames ++
      (hiddenNames (displayedForm t base?) ++ lastNames (displayedForm t base?)) =
        (parse localUri t).properNames
  absolute : ¬ LeadsDown base? (parse localUri t) →
    displayedForm t base? = parse localUri t ∧
      (parse localUri t).rootText <+: library.plain (pathText library t base?)
  text : library.plain (pathText library t base?) = (displayedForm t base?).rootText ++
    (if 4 < (displayedForm t base?).names.length then ['…', (parse localUri t).separator]
      else []) ++
    Text.joinWith [(parse localUri t).separator] (lastNames (displayedForm t base?))
  shown : (lastNames (displayedForm t base?)).length =
    min 4 (displayedForm t base?).names.length
  tiled : Tiled library (pathText library t base?)

end

section

variable {σ : Type} {library : TextLibrary σ} (hlibrary : library.IsLawful)
include hlibrary

theorem tiled_colored {t : Text} (ht : ∀ c ∈ t, library.strips c = false) :
    Tiled library (colored library t) := by
  constructor
  case length => simp [plain_colored hlibrary ht, spans_colored hlibrary ht]
  case span =>
    intro i c hc
    rw [plain_colored hlibrary ht] at hc
    refine ⟨pathColor c, ?_, pathColor_eq_magenta_iff c⟩
    simp [spans_colored hlibrary ht, hc]

/-- A displayed path hides no name but those that the ellipsis stands for. -/
theorem faithful_pathText {t : Text} (base? : Option Text)
    (habs : (parse localUri t).isAbsolute = true) (ht : ∀ c ∈ t, library.strips c = false) :
    Faithful library t base? := by
  have hp := wellFormed_parse localUri t
  have hne := hp.rootText_ne_nil_of_isAbsolute habs
  have hform : Shows (displayedForm t base?) (parse localUri t) := shows_displayedForm habs
  -- The dot for an empty text is never needed: the root or a name is shown.
  have hpathText :
      pathText library t base? = colored library (shortText (displayedForm t base?)) := by
    rw [pathText, ← displayedForm, if_neg hform.shown]
  have hstrips := hform.forall_strips hp hlibrary ht
  have htext :
      library.plain (pathText library t base?) = shortText (displayedForm t base?) := by
    rw [hpathText, plain_colored hlibrary hstrips]
  constructor
  case relative =>
    constructor
    · intro hnil
      by_contra hdown
      rw [displayedForm_of_not_leadsDown habs hdown] at hnil
      exact hne hnil
    · intro hdown
      obtain ⟨base, first, rest, -, -, heq⟩ := displayedForm_of_leadsDown habs hdown
      rw [heq]
      rfl
  case names =>
    intro base hbase hdown
    obtain ⟨other, first, rest, hother, hbelow, heq⟩ := displayedForm_of_leadsDown habs hdown
    cases Option.some.inj (hbase.symm.trans hother)
    rw [hiddenNames_append_lastNames, heq, names_tail hp (hbelow.isName hp), hbelow.names]
  case absolute =>
    intro hdown
    have heq := displayedForm_of_not_leadsDown habs hdown
    refine ⟨heq, ?_⟩
    rw [htext, heq, shortText_eq, List.append_assoc]
    exact List.prefix_append _ _
  case text =>
    rw [htext, shortText_eq, ← hform.separator]
    rfl
  case shown =>
    simp only [lastNames, List.length_drop, shownNames]
    omega
  case tiled =>
    rw [hpathText]
    exact tiled_colored hlibrary hstrips

end

theorem faithful_pathText_of_five_names :
    let t := "/srv/a/b/c/d/e".toList
    Styled.library.IsLawful ∧ (parse localUri t).isAbsolute = true ∧
      (∀ c ∈ t, Styled.library.strips c = false) ∧
      Faithful Styled.library t (some "/srv".toList) := by
  intro t
  have habs : (parse localUri t).isAbsolute = true := by decide
  have ht : ∀ c ∈ t, Styled.library.strips c = false := by simp [t, Styled.library, isControl]
  exact ⟨Styled.isLawful_library, habs, ht,
    faithful_pathText Styled.isLawful_library _ habs ht⟩

example : (pathText Styled.library "/srv/a/b/c/d/e".toList (some "/srv".toList)).text =
    "…/b/c/d/e".toList := by
  decide

end Display
end LexicalPaths
