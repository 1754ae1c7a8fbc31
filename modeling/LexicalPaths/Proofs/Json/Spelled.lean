import LexicalPaths.Proofs.Json.Grammar
import LexicalPaths.Proofs.Json.RoundTrip
import LexicalPaths.Proofs.Text.Basic

/-!
# What is spelled is read

The reader takes every text that spells a value, up to what cannot go on with the value.  It stops
at one thing only that the grammar allows: a whole number with too many digits.
-/

namespace LexicalPaths.Json

/-! ## Strings -/

theorem stringFrom_escaped (opening : Nat) {c x : Char} (hescape : simpleEscape? c = some x)
    (rest : Text) :
    stringFrom opening ('\\' :: c :: rest) = consRead x (stringFrom opening rest) := by
  have hunit : c ≠ 'u' := by
    rintro rfl
    contradiction
  rw [stringFrom]
  · rw [hescape]
  all_goals
    intros
    contradiction

/-- A body that seems to begin with a code unit begins with one. -/
theorem SpellsText.exists_hexQuad {body s rest more : Text} {w x y z e : Char}
    (h : SpellsText body s)
    (heq : body ++ '"' :: rest = '\\' :: 'u' :: w :: x :: y :: z :: e :: more) :
    ∃ low t, body = '\\' :: 'u' :: w :: x :: y :: z :: t ∧ hexQuad? w x y z = some low := by
  cases h with
  | nil => exact absurd (List.cons.inj heq).1 (by decide)
  | plain _ hslash _ _ => exact absurd (List.cons.inj heq).1 hslash
  | escaped hescape _ =>
      obtain ⟨rfl, -⟩ := List.cons.inj (List.cons.inj heq).2
      contradiction
  | unit hquad _ _ =>
      simp only [List.cons_append, List.cons.injEq] at heq
      obtain ⟨-, -, rfl, rfl, rfl, rfl, -⟩ := heq
      exact ⟨_, _, rfl, hquad⟩
  | pair hquad _ _ _ =>
      simp only [List.cons_append, List.cons.injEq] at heq
      obtain ⟨-, -, rfl, rfl, rfl, rfl, -⟩ := heq
      exact ⟨_, _, rfl, hquad⟩

theorem stringFrom_of_spellsText (opening : Nat) {body s : Text} (h : SpellsText body s)
    (rest : Text) : stringFrom opening (body ++ '"' :: rest) = .ok (s, rest) := by
  induction h with
  | nil => rfl
  | plain hquote hslash hcontrol _ ih =>
      rw [List.cons_append, stringFrom_plain opening hquote hslash hcontrol, ih]
      rfl
  | escaped hescape _ ih =>
      rw [List.cons_append, List.cons_append, stringFrom_escaped opening hescape, ih]
      rfl
  | @unit a b c d n body s hquad hunpaired hbody ih =>
      have hnext : isHighUnit n = true → ∀ w x y z e more,
          body ++ '"' :: rest = '\\' :: 'u' :: w :: x :: y :: z :: e :: more →
            ∃ low, hexQuad? w x y z = some low ∧ isLowUnit low = false := by
        intro hhigh w x y z e more heq
        obtain ⟨low, t, hstart, hlow⟩ := hbody.exists_hexQuad heq
        have hnot := hunpaired w x y z t low hstart hlow
        exact ⟨low, hlow, by simpa [hhigh] using hnot⟩
      simp only [List.cons_append, stringFrom_unit opening hquad (by simp) hnext, ih]
      rfl
  | @pair a b c d w x y z high low body s hhigh hlow hpair _ ih =>
      have hne : body ++ '"' :: rest ≠ [] := by simp
      obtain ⟨e, more, heq⟩ := List.exists_cons_of_ne_nil hne
      rw [heq] at ih
      simp only [List.cons_append, heq]
      rw [stringFrom]
      simp only [hhigh, hlow, hpair.1, hpair.2, if_true, ih]
      rfl

/-! ## Numbers -/

/-- No digit follows. -/
def EndsDigits (rest : Text) : Prop :=
  ∀ c ∈ rest.head?, c.isDigit = false

/-- Nothing follows that would go on with a number. -/
def EndsNumber (rest : Text) : Prop :=
  ∀ c ∈ rest.head?, c.isDigit = false ∧ c ≠ '.' ∧ c ≠ 'e' ∧ c ≠ 'E'

theorem EndsNumber.endsDigits {rest : Text} (h : EndsNumber rest) : EndsDigits rest :=
  fun c hc => (h c hc).1

theorem spanDigits_eq {ds rest : Text} (hds : ∀ c ∈ ds, c.isDigit = true)
    (hrest : EndsDigits rest) : Text.spanDigits (ds ++ rest) = (ds, rest) := by
  have hstop : rest.takeWhile Char.isDigit = [] ∧ rest.dropWhile Char.isDigit = rest := by
    cases rest with
    | nil => exact ⟨rfl, rfl⟩
    | cons c rest =>
        have hc := hrest c rfl
        simp [hc]
  rw [Text.spanDigits, List.takeWhile_append_of_pos hds, List.dropWhile_append_of_pos hds,
    hstop.1, hstop.2, List.append_nil]

theorem integerPart_eq {whole rest : Text} (hwhole : IsWhole whole) (hrest : EndsDigits rest) :
    integerPart (whole ++ rest) = some (whole, rest) := by
  obtain ⟨⟨hne, hdigits⟩, hzero⟩ := hwhole
  obtain ⟨c, ds, rfl⟩ := List.exists_cons_of_ne_nil hne
  by_cases hc : c = '0'
  · subst hc
    obtain rfl := hzero ds rfl
    rfl
  · have hspan := spanDigits_eq hdigits hrest
    rw [List.cons_append] at hspan ⊢
    rw [integerPart]
    · rw [if_pos (hdigits c List.mem_cons_self), hspan]
    · exact hc

theorem fraction_eq {point places rest : Text} (hplaces : SpellsPlaces point places)
    (hrest : ∀ c ∈ rest.head?, c.isDigit = false ∧ c ≠ '.') :
    fraction (point ++ rest) = (places, rest) := by
  cases hplaces with
  | none =>
      cases rest with
      | nil => rfl
      | cons c rest =>
          rw [List.nil_append, fraction]
          rintro t ⟨⟩
          exact (hrest '.' rfl).2 rfl
  | some hdigits =>
      have hspan := spanDigits_eq hdigits.2 fun c hc => (hrest c hc).1
      rw [List.cons_append, fraction, hspan]
      cases places with
      | nil => exact absurd rfl hdigits.1
      | cons => rfl

theorem exponentSign_digits {ds : Text} (hds : IsDigits ds) (rest : Text) :
    exponentSign (ds ++ rest) = (false, ds ++ rest) := by
  obtain ⟨hne, hdigits⟩ := hds
  obtain ⟨c, ds, rfl⟩ := List.exists_cons_of_ne_nil hne
  have hc := hdigits c List.mem_cons_self
  rw [List.cons_append, exponentSign]
  · rintro t ⟨⟩
    contradiction
  · rintro t ⟨⟩
    contradiction

/-- An exponent is read once its sign is. -/
theorem exponent_of_sign {e : Char} {t ds rest : Text} {negative : Bool} (he : e = 'e' ∨ e = 'E')
    (hsign : exponentSign t = (negative, ds ++ rest)) (hds : IsDigits ds)
    (hrest : EndsDigits rest) :
    exponent (e :: t) =
      (some (if negative then -(Text.natOfDigits 10 ds : Int) else Text.natOfDigits 10 ds),
        rest) := by
  have hspan := spanDigits_eq hds.2 hrest
  rw [exponent, if_pos he, hsign]
  simp only [hspan]
  split
  next heq => exact absurd (Prod.mk.inj heq).1 hds.1
  next heq =>
    obtain ⟨rfl, rfl⟩ := Prod.mk.inj heq
    rfl

theorem exponent_eq {power rest : Text} {power? : Option Int} (hpower : SpellsPower power power?)
    (hrest : EndsNumber rest) : exponent (power ++ rest) = (power?, rest) := by
  cases hpower with
  | none =>
      cases rest with
      | nil => rfl
      | cons c rest =>
          obtain ⟨-, -, he, hE⟩ := hrest c rfl
          rw [List.nil_append, exponent, if_neg (by simp [he, hE])]
  | @unsigned e ds he hdigits =>
      exact exponent_of_sign he (exponentSign_digits hdigits rest) hdigits hrest.endsDigits
  | @plus e ds he hdigits =>
      have hsign : exponentSign ('+' :: (ds ++ rest)) = (false, ds ++ rest) := rfl
      exact exponent_of_sign he hsign hdigits hrest.endsDigits
  | @minus e ds he hdigits =>
      have hsign : exponentSign ('-' :: (ds ++ rest)) = (true, ds ++ rest) := rfl
      exact exponent_of_sign he hsign hdigits hrest.endsDigits

theorem SpellsPower.ends {power rest : Text} {power? : Option Int}
    (hpower : SpellsPower power power?) (hrest : EndsNumber rest) :
    ∀ c ∈ (power ++ rest).head?, c.isDigit = false ∧ c ≠ '.' := by
  have hletter : ∀ {e c : Char} {t : Text}, e = 'e' ∨ e = 'E' → c ∈ (e :: t).head? →
      c.isDigit = false ∧ c ≠ '.' := by
    rintro e c t (rfl | rfl) ⟨⟩ <;> decide
  cases hpower with
  | none => exact fun c hc => ⟨(hrest c hc).1, (hrest c hc).2.1⟩
  | unsigned he _ | plus he _ | minus he _ => exact fun c hc => hletter he hc

theorem SpellsPlaces.endsDigits {point places rest : Text} (hplaces : SpellsPlaces point places)
    (hrest : ∀ c ∈ rest.head?, c.isDigit = false ∧ c ≠ '.') : EndsDigits (point ++ rest) := by
  cases hplaces with
  | none => exact fun c hc => (hrest c hc).1
  | some _ =>
      rintro c ⟨⟩
      decide

/-- The outcome of reading a value: the value, if none of its whole numbers has too many digits. -/
def Yields {α : Type} (r : Read α) (x : α) (rest : Text) : Prop :=
  r = .ok (x, rest) ∨ ∃ n, r = .error (.tooManyDigits n)

theorem unsignedNumber_yields (token : Text) {negative : Bool} {t rest : Text} {d : Datum}
    (h : SpellsUnsigned negative t d) (hrest : EndsNumber rest) :
    Yields (unsignedNumber token negative (t ++ rest)) d rest := by
  cases h with
  | @mk whole point places power power? hwhole hplaces hpower =>
      have hbehind := hpower.ends hrest
      have hpart : integerPart (whole ++ (point ++ power) ++ rest) =
          some (whole, point ++ (power ++ rest)) := by
        rw [List.append_assoc, List.append_assoc]
        exact integerPart_eq hwhole (hplaces.endsDigits hbehind)
      rw [unsignedNumber, hpart]
      simp only [fraction_eq hplaces hbehind, exponent_eq hpower hrest]
      unfold numberValue
      split
      next =>
        split
        next => exact .inr ⟨_, rfl⟩
        next => exact .inl rfl
      next => exact .inl rfl

/-- A number begins with a digit, or with a minus and a digit. -/
theorem SpellsUnsigned.exists_digit {negative : Bool} {t : Text} {d : Datum}
    (h : SpellsUnsigned negative t d) : ∃ c u, t = c :: u ∧ c.isDigit = true := by
  cases h with
  | mk hwhole hplaces hpower =>
      obtain ⟨c, ds, hcons⟩ := List.exists_cons_of_ne_nil hwhole.digits.1
      exact ⟨c, _, by rw [hcons]; rfl, hwhole.digits.2 c (hcons ▸ List.mem_cons_self)⟩

/-! ## Values -/

theorem value_of_digit (fuel : Nat) {c : Char} (hc : c.isDigit = true) (t : Text) :
    value none (fuel + 1) (c :: t) = unsignedNumber (c :: t) false (c :: t) := by
  rw [value, number]
  all_goals
    intro rest heq
    exact absurd (List.cons.inj heq).1 (Text.ne_of_kind hc (by decide))

theorem value_of_minus (fuel : Nat) {c : Char} (hc : c.isDigit = true) (t : Text) :
    value none (fuel + 1) ('-' :: c :: t) = unsignedNumber ('-' :: c :: t) true (c :: t) := by
  rw [value, number]
  case x_10 =>
    intro rest heq
    exact absurd (List.cons.inj (List.cons.inj heq).2).1 (Text.ne_of_kind hc (by decide))
  all_goals
    intro rest heq
    exact absurd (List.cons.inj heq).1 (by decide)

theorem value_yields_of_number (fuel : Nat) {t rest : Text} {d : Datum} (h : SpellsNumber t d)
    (hrest : EndsNumber rest) : Yields (value none (fuel + 1) (t ++ rest)) d rest := by
  cases h with
  | positive h =>
      obtain ⟨c, u, rfl, hc⟩ := h.exists_digit
      rw [List.cons_append, value_of_digit fuel hc]
      exact unsignedNumber_yields _ h hrest
  | negative h =>
      obtain ⟨c, u, rfl, hc⟩ := h.exists_digit
      rw [List.cons_append, List.cons_append, value_of_minus fuel hc]
      exact unsignedNumber_yields _ h hrest

/-- A value begins with a character that is neither space nor a closing bracket. -/
theorem Spells.exists_cons_of_value {t : Text} {d : Datum} (h : Spells t (.value d)) :
    ∃ c u, t = c :: u ∧ isSpace c = false ∧ c ≠ ']' ∧ c ≠ '\ufeff' := by
  have hdigit : ∀ {c : Char}, c.isDigit = true → isSpace c = false ∧ c ≠ ']' ∧ c ≠ '\ufeff' := by
    intro c hc
    have hne : ∀ {d : Char}, d.isDigit = false → c ≠ d := fun hd => Text.ne_of_kind hc hd
    refine ⟨?_, hne (by decide), hne (by decide)⟩
    simp [isSpace, hne (by decide : ' '.isDigit = false), hne (by decide : '\t'.isDigit = false),
      hne (by decide : '\n'.isDigit = false), hne (by decide : '\r'.isDigit = false)]
  cases h with
  | number hnumber =>
      cases hnumber with
      | positive h =>
          obtain ⟨c, u, rfl, hc⟩ := h.exists_digit
          exact ⟨c, u, rfl, hdigit hc⟩
      | negative h => exact ⟨_, _, rfl, by decide⟩
  | _ => exact ⟨_, _, rfl, by decide⟩

theorem Spells.exists_cons_of_items {t : Text} {found : List Datum} (h : Spells t (.items found)) :
    ∃ c u, t = c :: u ∧ isSpace c = false ∧ c ≠ ']' := by
  cases h with
  | lastItem hitem _ | item hitem _ _ _ =>
      obtain ⟨c, u, rfl, hspace, hbracket, -⟩ := hitem.exists_cons_of_value
      exact ⟨c, _, rfl, hspace, hbracket⟩

theorem Spells.exists_cons_of_entries {t : Text} {pairs : List (Text × Datum)}
    (h : Spells t (.entries pairs)) : ∃ u, t = '"' :: u := by
  cases h with
  | lastEntry | entry => exact ⟨_, rfl⟩

theorem skipSpace_gap {gap : Text} (hgap : IsBlank gap) {c : Char} (hc : isSpace c = false)
    (t : Text) : skipSpace (gap ++ c :: t) = c :: t := by
  rw [skipSpace, List.dropWhile_append_of_pos hgap]
  exact skipSpace_cons hc t

theorem endsNumber_cons {c : Char} (hc : isSpace c = true ∨ c = ',' ∨ c = ']' ∨ c = '\x7d')
    (rest : Text) : EndsNumber (c :: rest) := by
  rintro _ ⟨⟩
  have hcases : c = ' ' ∨ c = '\t' ∨ c = '\n' ∨ c = '\r' ∨ c = ',' ∨ c = ']' ∨ c = '\x7d' := by
    simpa [isSpace, or_assoc] using hc
  rcases hcases with rfl | rfl | rfl | rfl | rfl | rfl | rfl <;> decide

theorem endsNumber_gap {gap : Text} (hgap : IsBlank gap) {rest : Text} (hrest : EndsNumber rest) :
    EndsNumber (gap ++ rest) := by
  cases gap with
  | nil => exact hrest
  | cons c gap => exact endsNumber_cons (.inl (hgap c List.mem_cons_self)) _

/-- With this much fuel all that is spelled with at most as many characters is read. -/
structure ReadsAll (fuel : Nat) : Prop where
  value : ∀ {t : Text} {d : Datum}, Spells t (.value d) → t.length ≤ fuel →
    ∀ {rest : Text}, EndsNumber rest → Yields (Json.value none fuel (t ++ rest)) d rest
  items : ∀ {t : Text} {found : List Datum}, Spells t (.items found) → t.length < fuel →
    ∀ rest : Text, Yields (Json.items none fuel (t ++ ']' :: rest)) found rest
  entries : ∀ {t : Text} {pairs : List (Text × Datum)}, Spells t (.entries pairs) →
    t.length < fuel →
      ∀ rest : Text, Yields (Json.entries none fuel (t ++ '\x7d' :: rest)) pairs rest

theorem readsAll_zero : ReadsAll 0 where
  value := by
    intro t d h hfuel
    obtain ⟨c, u, rfl, -⟩ := h.exists_cons_of_value
    simp at hfuel
  items := fun _ hfuel => absurd hfuel (by omega)
  entries := fun _ hfuel => absurd hfuel (by omega)

section

variable {fuel : Nat} (hfuel : ReadsAll fuel)
include hfuel

theorem value_yields_succ {t : Text} {d : Datum} (h : Spells t (.value d))
    (hlen : t.length ≤ fuel + 1) {rest : Text} (hrest : EndsNumber rest) :
    Yields (value none (fuel + 1) (t ++ rest)) d rest := by
  cases h with
  | null | isTrue | isFalse | notNumber | infinite | minusInfinite => exact .inl rfl
  | number hnumber => exact value_yields_of_number fuel hnumber hrest
  | @text body s hbody =>
      have hstring := stringFrom_of_spellsText ('"' :: (body ++ '"' :: rest)).length hbody rest
      simp only [List.cons_append, List.append_assoc, List.nil_append]
      rw [value, hstring]
      exact .inl rfl
  | @emptyList gap hgap =>
      simp only [List.cons_append, List.append_assoc, List.nil_append]
      rw [value, inBracket, skipSpace_gap hgap (by rfl)]
      exact .inl rfl
  | @list gap t found hgap hitems =>
      simp only [List.length_cons, List.length_append, List.length_nil] at hlen
      have hread := hfuel.items hitems (by omega) rest
      obtain ⟨c, u, rfl, hspace, hbracket⟩ := hitems.exists_cons_of_items
      simp only [List.cons_append, List.append_assoc, List.nil_append] at hread ⊢
      rw [value, inBracket, skipSpace_gap hgap hspace]
      split
      next heq => exact absurd (List.cons.inj heq).1 hbracket
      next =>
        rcases hread with hok | ⟨n, herror⟩
        · rw [hok]
          exact .inl rfl
        · rw [herror]
          exact .inr ⟨n, rfl⟩
  | @emptyTable gap hgap =>
      simp only [List.cons_append, List.append_assoc, List.nil_append]
      rw [value, inBracket, skipSpace_gap hgap (by rfl)]
      exact .inl rfl
  | @table gap t pairs hgap hentries =>
      simp only [List.length_cons, List.length_append, List.length_nil] at hlen
      have hread := hfuel.entries hentries (by omega) rest
      obtain ⟨u, rfl⟩ := hentries.exists_cons_of_entries
      simp only [List.cons_append, List.append_assoc, List.nil_append] at hread ⊢
      rw [value, inBracket, skipSpace_gap hgap (by rfl)]
      split
      next heq => exact absurd (List.cons.inj heq).1 (by decide)
      next =>
        rcases hread with hok | ⟨n, herror⟩
        · rw [hok]
          exact .inl rfl
        · rw [herror]
          exact .inr ⟨n, rfl⟩

theorem items_yields_succ {t : Text} {found : List Datum} (h : Spells t (.items found))
    (hlen : t.length < fuel + 1) (rest : Text) :
    Yields (items none (fuel + 1) (t ++ ']' :: rest)) found rest := by
  cases h with
  | @lastItem t gap d hitem hgap =>
      simp only [List.length_append] at hlen
      have hends := endsNumber_gap hgap (endsNumber_cons (c := ']') (by decide) rest)
      rw [List.append_assoc, items]
      rcases hfuel.value hitem (by omega) hends with hok | ⟨n, herror⟩
      · rw [hok]
        simp only [skipSpace_gap hgap (c := ']') rfl]
        exact .inl rfl
      · rw [herror]
        exact .inr ⟨n, rfl⟩
  | @item t gap space u d found hitem hgap hspace hmore =>
      simp only [List.length_append, List.length_cons] at hlen
      have hends := endsNumber_gap hgap
        (endsNumber_cons (c := ',') (by decide) (space ++ (u ++ ']' :: rest)))
      have hread := hfuel.items hmore (by omega) rest
      obtain ⟨c, w, rfl, hc, -⟩ := hmore.exists_cons_of_items
      simp only [List.cons_append, List.append_assoc] at hread hends ⊢
      rw [items]
      rcases hfuel.value hitem (by omega) hends with hok | ⟨n, herror⟩
      · rw [hok]
        simp only [skipSpace_gap hgap (c := ',') rfl, skipSpace_gap hspace hc]
        rcases hread with hok | ⟨n, herror⟩
        · rw [hok]
          exact .inl rfl
        · rw [herror]
          exact .inr ⟨n, rfl⟩
      · rw [herror]
        exact .inr ⟨n, rfl⟩

theorem entries_yields_succ {t : Text} {pairs : List (Text × Datum)}
    (h : Spells t (.entries pairs)) (hlen : t.length < fuel + 1) (rest : Text) :
    Yields (entries none (fuel + 1) (t ++ '\x7d' :: rest)) pairs rest := by
  cases h with
  | @lastEntry body key gap space t after d hkey hgap hspace hitem hafter =>
      simp only [List.length_append, List.length_cons] at hlen
      have hends := endsNumber_gap hafter (endsNumber_cons (c := '\x7d') (by decide) rest)
      have hread := hfuel.value hitem (by omega) hends
      obtain ⟨c, w, rfl, hc, -⟩ := hitem.exists_cons_of_value
      simp only [List.cons_append, List.append_assoc] at hread ⊢
      rw [entries, stringFrom_of_spellsText _ hkey]
      simp only [skipSpace_gap hgap (c := ':') rfl, skipSpace_gap hspace hc]
      rcases hread with hok | ⟨n, herror⟩
      · rw [hok]
        simp only [skipSpace_gap hafter (c := '\x7d') rfl]
        exact .inl rfl
      · rw [herror]
        exact .inr ⟨n, rfl⟩
  | @entry body key gap space t after before u d pairs hkey hgap hspace hitem hafter hbefore
      hmore =>
      simp only [List.length_append, List.length_cons] at hlen
      have hends := endsNumber_gap hafter
        (endsNumber_cons (c := ',') (by decide) (before ++ (u ++ '\x7d' :: rest)))
      have hread := hfuel.value hitem (by omega) hends
      have hagain := hfuel.entries hmore (by omega) rest
      obtain ⟨c, w, rfl, hc, -⟩ := hitem.exists_cons_of_value
      obtain ⟨v, rfl⟩ := hmore.exists_cons_of_entries
      simp only [List.cons_append, List.append_assoc] at hread hagain ⊢
      rw [entries, stringFrom_of_spellsText _ hkey]
      simp only [skipSpace_gap hgap (c := ':') rfl, skipSpace_gap hspace hc]
      rcases hread with hok | ⟨n, herror⟩
      · rw [hok]
        simp only [skipSpace_gap hafter (c := ',') rfl, skipSpace_gap hbefore (c := '"') rfl]
        rcases hagain with hok | ⟨n, herror⟩
        · rw [hok]
          exact .inl rfl
        · rw [herror]
          exact .inr ⟨n, rfl⟩
      · rw [herror]
        exact .inr ⟨n, rfl⟩

end

theorem readsAll (fuel : Nat) : ReadsAll fuel := by
  -- brackets and commas are characters too, so what stands between them is always shorter
  induction fuel with
  | zero => exact readsAll_zero
  | succ fuel ih =>
      exact ⟨fun h hlen _ hrest => value_yields_succ ih h hlen hrest, items_yields_succ ih,
        entries_yields_succ ih⟩

/-! ## Documents -/

/-- A document is read, unless a whole number in it has too many digits. -/
theorem read_of_denotes {document : Text} {d : Datum} (h : Denotes document d) :
    read document = .ok d ∨ ∃ n, read document = .error (.tooManyDigits n) := by
  obtain ⟨before, t, after, rfl, hbefore, hspells, hafter⟩ := h
  obtain ⟨c, u, rfl, hc, -, hmark⟩ := hspells.exists_cons_of_value
  have hends : EndsNumber (after ++ []) := endsNumber_gap hafter (by simp [EndsNumber])
  have hskip : skipSpace after = [] := List.dropWhile_eq_nil_iff.mpr hafter
  -- a byte order mark is neither space nor the beginning of a value
  have hfirst : (before ++ (c :: u ++ after)).head? ≠ some '\ufeff' := by
    cases before with
    | nil => exact fun h => hmark (Option.some.inj h)
    | cons x before =>
        have hx := hbefore x List.mem_cons_self
        exact fun h => Text.ne_of_kind hx (by decide) (Option.some.inj h)
  have hread := (readsAll (2 * (before ++ (c :: u ++ after)).length + 1)).value hspells
    (by simp only [List.length_append]; omega) hends
  rw [List.append_nil, List.cons_append] at hread
  unfold read readWithin
  rw [if_neg hfirst, List.cons_append, skipSpace_gap hbefore hc]
  rcases hread with hok | ⟨n, herror⟩
  · refine .inl ?_
    rw [hok]
    simp only [hskip]
  · refine .inr ⟨n, ?_⟩
    rw [herror]

theorem read_eq_ok_iff {document : Text} (hlimit : ∀ n, read document ≠ .error (.tooManyDigits n))
    (d : Datum) : read document = .ok d ↔ Denotes document d := by
  constructor
  · exact denotes_of_read
  · intro h
    rcases read_of_denotes h with hok | ⟨n, herror⟩
    · exact hok
    · exact absurd herror (hlimit n)

end LexicalPaths.Json
