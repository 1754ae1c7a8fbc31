import LexicalPaths.Json.Reader
import Mathlib.Data.List.TakeWhile
import Mathlib.Tactic.Common

/-!
# The grammar of JSON

Which texts spell which values, said without the reader: strings mark by mark, numbers part by
part, and values by one rule for each form.  Besides the standard there are the three numbers that
no digits spell.  Whatever the reader reads is spelled by the part of the text that it takes.
-/

namespace LexicalPaths.Json

/-! ## Strings -/

/-- The body does not begin with a low code unit that would be one character with the unit `n`. -/
def Unpaired (n : Nat) (body : Text) : Prop :=
  ∀ a b c d rest low, body = '\\' :: 'u' :: a :: b :: c :: d :: rest →
    hexQuad? a b c d = some low → ¬ (isHighUnit n = true ∧ isLowUnit low = true)

/-- What stands between the quotes of a string, and the text that it spells. -/
inductive SpellsText : Text → Text → Prop
  | nil : SpellsText [] []
  | plain {c : Char} {body s : Text} (hquote : c ≠ '"') (hslash : c ≠ '\\')
      (hcontrol : ¬ c.toNat < 0x20) (hbody : SpellsText body s) : SpellsText (c :: body) (c :: s)
  | escaped {c x : Char} {body s : Text} (hescape : simpleEscape? c = some x)
      (hbody : SpellsText body s) : SpellsText ('\\' :: c :: body) (x :: s)
  | unit {a b c d : Char} {n : Nat} {body s : Text} (hquad : hexQuad? a b c d = some n)
      (hunpaired : Unpaired n body) (hbody : SpellsText body s) :
      SpellsText ('\\' :: 'u' :: a :: b :: c :: d :: body) (unitChar n :: s)
  | pair {a b c d w x y z : Char} {high low : Nat} {body s : Text}
      (hhigh : hexQuad? a b c d = some high) (hlow : hexQuad? w x y z = some low)
      (hpair : isHighUnit high = true ∧ isLowUnit low = true) (hbody : SpellsText body s) :
      SpellsText
        ('\\' :: 'u' :: a :: b :: c :: d :: '\\' :: 'u' :: w :: x :: y :: z :: body)
        (pairChar high low :: s)

/-! ## Numbers -/

def IsDigits (ds : Text) : Prop :=
  ds ≠ [] ∧ ∀ c ∈ ds, c.isDigit = true

/-- The digits before the point: behind a leading zero there are none. -/
structure IsWhole (whole : Text) : Prop where
  digits : IsDigits whole
  zero : ∀ more, whole = '0' :: more → more = []

/-- The fraction of a number and its digits. -/
inductive SpellsPlaces : Text → Text → Prop
  | none : SpellsPlaces [] []
  | some {ds : Text} (hdigits : IsDigits ds) : SpellsPlaces ('.' :: ds) ds

/-- The exponent of a number and the power of ten that it stands for. -/
inductive SpellsPower : Text → Option Int → Prop
  | none : SpellsPower [] none
  | unsigned {e : Char} {ds : Text} (he : e = 'e' ∨ e = 'E') (hdigits : IsDigits ds) :
      SpellsPower (e :: ds) (some (Text.natOfDigits 10 ds))
  | plus {e : Char} {ds : Text} (he : e = 'e' ∨ e = 'E') (hdigits : IsDigits ds) :
      SpellsPower (e :: '+' :: ds) (some (Text.natOfDigits 10 ds))
  | minus {e : Char} {ds : Text} (he : e = 'e' ∨ e = 'E') (hdigits : IsDigits ds) :
      SpellsPower (e :: '-' :: ds) (some (-(Text.natOfDigits 10 ds : Int)))

/-- The value of a number: without a fraction and an exponent it is whole. -/
def numberValue (negative : Bool) (whole places : Text) (power? : Option Int) : Datum :=
  if places = [] ∧ power? = none then
    .int (if negative then -(Text.natOfDigits 10 whole : Int) else Text.natOfDigits 10 whole)
  else
    .float (.ofDecimal negative (Text.natOfDigits 10 (whole ++ places))
      (power?.getD 0 - places.length))

inductive SpellsUnsigned (negative : Bool) : Text → Datum → Prop
  | mk {whole point places power : Text} {power? : Option Int} (hwhole : IsWhole whole)
      (hplaces : SpellsPlaces point places) (hpower : SpellsPower power power?) :
      SpellsUnsigned negative (whole ++ (point ++ power))
        (numberValue negative whole places power?)

inductive SpellsNumber : Text → Datum → Prop
  | positive {t : Text} {d : Datum} (h : SpellsUnsigned false t d) : SpellsNumber t d
  | negative {t : Text} {d : Datum} (h : SpellsUnsigned true t d) : SpellsNumber ('-' :: t) d

/-! ## Values -/

def IsBlank (gap : Text) : Prop :=
  ∀ c ∈ gap, isSpace c = true

/-- What a part of a document can stand for. -/
inductive Phrase where
  | value (d : Datum)
  | items (found : List Datum)
  | entries (pairs : List (Text × Datum))

/-- The grammar: what a text without space around it stands for.  Items and entries are taken up to
the bracket that closes them. -/
inductive Spells : Text → Phrase → Prop
  | null : Spells ['n', 'u', 'l', 'l'] (.value .null)
  | isTrue : Spells ['t', 'r', 'u', 'e'] (.value (.bool true))
  | isFalse : Spells ['f', 'a', 'l', 's', 'e'] (.value (.bool false))
  | notNumber : Spells ['N', 'a', 'N'] (.value (.float .notNumber))
  | infinite : Spells ['I', 'n', 'f', 'i', 'n', 'i', 't', 'y'] (.value (.float (.infinite false)))
  | minusInfinite :
      Spells ['-', 'I', 'n', 'f', 'i', 'n', 'i', 't', 'y'] (.value (.float (.infinite true)))
  | number {t : Text} {d : Datum} (hnumber : SpellsNumber t d) : Spells t (.value d)
  | text {body s : Text} (hbody : SpellsText body s) :
      Spells ('"' :: (body ++ ['"'])) (.value (.text s))
  | emptyList {gap : Text} (hgap : IsBlank gap) : Spells ('[' :: (gap ++ [']'])) (.value (.list []))
  | list {gap t : Text} {found : List Datum} (hgap : IsBlank gap)
      (hitems : Spells t (.items found)) :
      Spells ('[' :: (gap ++ (t ++ [']']))) (.value (.list found))
  | emptyTable {gap : Text} (hgap : IsBlank gap) :
      Spells ('\x7b' :: (gap ++ ['\x7d'])) (.value (.table []))
  | table {gap t : Text} {pairs : List (Text × Datum)} (hgap : IsBlank gap)
      (hentries : Spells t (.entries pairs)) :
      Spells ('\x7b' :: (gap ++ (t ++ ['\x7d']))) (.value (.table (Datum.tableEntries pairs)))
  | lastItem {t gap : Text} {d : Datum} (hitem : Spells t (.value d)) (hgap : IsBlank gap) :
      Spells (t ++ gap) (.items [d])
  | item {t gap space u : Text} {d : Datum} {found : List Datum} (hitem : Spells t (.value d))
      (hgap : IsBlank gap) (hspace : IsBlank space) (hmore : Spells u (.items found)) :
      Spells (t ++ (gap ++ ',' :: (space ++ u))) (.items (d :: found))
  | lastEntry {body key gap space t after : Text} {d : Datum} (hkey : SpellsText body key)
      (hgap : IsBlank gap) (hspace : IsBlank space) (hitem : Spells t (.value d))
      (hafter : IsBlank after) :
      Spells ('"' :: (body ++ '"' :: (gap ++ ':' :: (space ++ (t ++ after))))) (.entries [(key, d)])
  | entry {body key gap space t after before u : Text} {d : Datum} {pairs : List (Text × Datum)}
      (hkey : SpellsText body key) (hgap : IsBlank gap) (hspace : IsBlank space)
      (hitem : Spells t (.value d)) (hafter : IsBlank after) (hbefore : IsBlank before)
      (hmore : Spells u (.entries pairs)) :
      Spells ('"' :: (body ++ '"' :: (gap ++ ':' :: (space ++
        (t ++ (after ++ ',' :: (before ++ u))))))) (.entries ((key, d) :: pairs))

/-- The document spells the value, with nothing but space around it. -/
def Denotes (document : Text) (d : Datum) : Prop :=
  ∃ before t after, document = before ++ (t ++ after) ∧ IsBlank before ∧ Spells t (.value d) ∧
    IsBlank after

/-! ## What is read is spelled -/

theorem consRead_eq_ok {c : Char} {r : Read Text} {s rest : Text}
    (hread : consRead c r = .ok (s, rest)) : ∃ u, r = .ok (u, rest) ∧ s = c :: u := by
  cases r with
  | error e => contradiction
  | ok found =>
      obtain ⟨u, rest⟩ := found
      obtain ⟨rfl, rfl⟩ := Prod.mk.inj (Except.ok.inj hread)
      exact ⟨u, rfl, rfl⟩

/-- Whether a body begins with a low code unit shows in the text that it begins. -/
theorem unpaired_of_append {n : Nat} {t body rest : Text} (heq : t = body ++ '"' :: rest)
    (h : ∀ a b c d e more low, t = '\\' :: 'u' :: a :: b :: c :: d :: e :: more →
      hexQuad? a b c d = some low → ¬ (isHighUnit n = true ∧ isLowUnit low = true)) :
    Unpaired n body := by
  rintro a b c d more low rfl hquad
  rcases more with _ | ⟨e, more⟩
  · exact h a b c d '"' rest low heq hquad
  · exact h a b c d e (more ++ '"' :: rest) low heq hquad

theorem exists_spellsText_of_stringFrom {opening : Nat} {t s rest : Text}
    (hread : stringFrom opening t = .ok (s, rest)) :
    ∃ body, t = body ++ '"' :: rest ∧ SpellsText body s := by
  fun_induction stringFrom opening t generalizing s rest with
  | case1 | case3 | case4 | case5 | case9 | case11 | case13 | case14 => contradiction
  | case2 =>
      obtain ⟨rfl, rfl⟩ := Prod.mk.inj (Except.ok.inj hread)
      exact ⟨[], rfl, .nil⟩
  | case6 a b c d w x y z e more high hhigh hfirst low hlow hsecond ih =>
      obtain ⟨u, hu, rfl⟩ := consRead_eq_ok hread
      obtain ⟨body, heq, hbody⟩ := ih hu
      exact ⟨_, by rw [heq]; rfl, .pair hhigh hlow ⟨hfirst, hsecond⟩ hbody⟩
  -- three ways for a unit to stand alone: the next unit is not low, it is itself not high, or no
  -- unit is next to it
  | case7 a b c d w x y z e more high hhigh hfirst low hlow hsecond ih =>
      obtain ⟨u, hu, rfl⟩ := consRead_eq_ok hread
      obtain ⟨body, heq, hbody⟩ := ih hu
      refine ⟨_, by rw [heq]; rfl, .unit hhigh (unpaired_of_append heq ?_) hbody⟩
      rintro a b c d e more low' ⟨⟩ hlow' ⟨-, hpaired⟩
      obtain rfl := Option.some.inj (hlow.symm.trans hlow')
      exact hsecond hpaired
  | case8 a b c d w x y z e more n hquad hfirst ih =>
      obtain ⟨u, hu, rfl⟩ := consRead_eq_ok hread
      obtain ⟨body, heq, hbody⟩ := ih hu
      exact ⟨_, by rw [heq]; rfl,
        .unit hquad (unpaired_of_append heq fun _ _ _ _ _ _ _ _ _ hpair => hfirst hpair.1) hbody⟩
  | case10 a b c d e more hno n hquad ih =>
      obtain ⟨u, hu, rfl⟩ := consRead_eq_ok hread
      obtain ⟨body, heq, hbody⟩ := ih hu
      refine ⟨_, by rw [heq]; rfl, .unit hquad (unpaired_of_append heq ?_) hbody⟩
      rintro a b c d e more low ⟨⟩
      exact absurd rfl (hno a b c d e more rfl)
  | case12 c more _ _ _ x hescape ih =>
      obtain ⟨u, hu, rfl⟩ := consRead_eq_ok hread
      obtain ⟨body, rfl, hbody⟩ := ih hu
      exact ⟨_, rfl, .escaped hescape hbody⟩
  | case15 c more hquote hempty _ _ _ hslash hcontrol ih =>
      obtain ⟨u, hu, rfl⟩ := consRead_eq_ok hread
      obtain ⟨body, rfl, hbody⟩ := ih hu
      refine ⟨_, rfl, .plain hquote ?_ hcontrol hbody⟩
      rintro rfl
      -- a backslash begins an escape, since the closing quote at least is behind it
      have hne : body ++ '"' :: rest ≠ [] := by simp
      obtain ⟨x, more, heq⟩ := List.exists_cons_of_ne_nil hne
      exact hslash x more rfl heq

/-! ### Numbers -/

theorem isDigit_of_mem_spanDigits (t : Text) : ∀ c ∈ (Text.spanDigits t).1, c.isDigit = true :=
  fun _ hc => List.mem_takeWhile_imp hc

theorem spanDigits_append (t : Text) : (Text.spanDigits t).1 ++ (Text.spanDigits t).2 = t :=
  List.takeWhile_append_dropWhile

theorem isDigits_of_spanDigits {t ds rest : Text} (hspan : Text.spanDigits t = (ds, rest))
    (hne : ds ≠ []) : t = ds ++ rest ∧ IsDigits ds := by
  have happend := spanDigits_append t
  have hdigits := isDigit_of_mem_spanDigits t
  rw [hspan] at happend hdigits
  exact ⟨happend.symm, hne, hdigits⟩

theorem exists_of_integerPart {t whole rest : Text} (hpart : integerPart t = some (whole, rest)) :
    t = whole ++ rest ∧ IsWhole whole := by
  unfold integerPart at hpart
  split at hpart
  next =>
    obtain ⟨rfl, rfl⟩ := Prod.mk.inj (Option.some.inj hpart)
    exact ⟨rfl, ⟨by simp, List.forall_mem_singleton.mpr rfl⟩,
      fun more heq => (List.cons.inj heq).2.symm⟩
  next c t hzero =>
    split at hpart
    next hc =>
      have hspan := Option.some.inj hpart
      have hfirst : whole = c :: t.takeWhile Char.isDigit := by
        rw [Text.spanDigits, List.takeWhile_cons_of_pos hc] at hspan
        exact (Prod.mk.inj hspan).1.symm
      obtain ⟨heq, hdigits⟩ := isDigits_of_spanDigits hspan (by simp [hfirst])
      refine ⟨heq, hdigits, ?_⟩
      rintro more rfl
      exact absurd (List.cons.inj hfirst).1.symm hzero
    next => contradiction
  next => contradiction

theorem exists_of_fraction {t places rest : Text} (hfraction : fraction t = (places, rest)) :
    ∃ point, t = point ++ rest ∧ SpellsPlaces point places := by
  unfold fraction at hfraction
  split at hfraction
  next t =>
    split at hfraction
    next =>
      obtain ⟨rfl, rfl⟩ := Prod.mk.inj hfraction
      exact ⟨[], rfl, .none⟩
    next hne =>
      rw [hfraction] at hne
      obtain ⟨rfl, hdigits⟩ :=
        isDigits_of_spanDigits hfraction fun hnil => hne rest (by rw [hnil])
      exact ⟨_, rfl, .some hdigits⟩
  next =>
    obtain ⟨rfl, rfl⟩ := Prod.mk.inj hfraction
    exact ⟨[], rfl, .none⟩

theorem exponentSign_cases {t more : Text} {negative : Bool}
    (hsign : exponentSign t = (negative, more)) :
    t = '-' :: more ∧ negative = true ∨ (t = '+' :: more ∨ t = more) ∧ negative = false := by
  unfold exponentSign at hsign
  split at hsign
  all_goals
    obtain ⟨rfl, rfl⟩ := Prod.mk.inj hsign
    simp

theorem exists_of_exponent {t rest : Text} {power? : Option Int}
    (hexponent : exponent t = (power?, rest)) :
    ∃ power, t = power ++ rest ∧ SpellsPower power power? := by
  unfold exponent at hexponent
  split at hexponent
  next c t =>
    split at hexponent
    next he =>
      split at hexponent
      next negative more hsign =>
        split at hexponent
        next =>
          obtain ⟨rfl, rfl⟩ := Prod.mk.inj hexponent
          exact ⟨[], rfl, .none⟩
        next ds after hne hspan =>
          obtain ⟨rfl, rfl⟩ := Prod.mk.inj hexponent
          obtain ⟨rfl, hdigits⟩ := isDigits_of_spanDigits hspan hne
          rcases exponentSign_cases hsign with ⟨rfl, rfl⟩ | ⟨rfl | rfl, rfl⟩
          · exact ⟨_, rfl, .minus he hdigits⟩
          · exact ⟨_, rfl, .plus he hdigits⟩
          · exact ⟨_, rfl, .unsigned he hdigits⟩
    next =>
      obtain ⟨rfl, rfl⟩ := Prod.mk.inj hexponent
      exact ⟨[], rfl, .none⟩
  next =>
    obtain ⟨rfl, rfl⟩ := Prod.mk.inj hexponent
    exact ⟨[], rfl, .none⟩

theorem exists_of_unsignedNumber {token t rest : Text} {negative : Bool} {d : Datum}
    (hread : unsignedNumber token negative t = .ok (d, rest)) :
    ∃ u, t = u ++ rest ∧ SpellsUnsigned negative u d := by
  unfold unsignedNumber at hread
  split at hread
  next => contradiction
  next whole behind hpart =>
    split at hread
    next places behind' hfraction =>
      split at hread
      next power? behind'' hexponent =>
        obtain ⟨rfl, hwhole⟩ := exists_of_integerPart hpart
        obtain ⟨point, rfl, hplaces⟩ := exists_of_fraction hfraction
        obtain ⟨power, rfl, hpower⟩ := exists_of_exponent hexponent
        have hvalue : d = numberValue negative whole places power? ∧ behind'' = rest := by
          unfold numberValue
          split at hread
          next hint =>
            split at hread
            next => contradiction
            next =>
              obtain ⟨rfl, rfl⟩ := Prod.mk.inj (Except.ok.inj hread)
              exact ⟨(if_pos hint).symm, rfl⟩
          next hfloat =>
            obtain ⟨rfl, rfl⟩ := Prod.mk.inj (Except.ok.inj hread)
            exact ⟨(if_neg hfloat).symm, rfl⟩
        obtain ⟨rfl, rfl⟩ := hvalue
        exact ⟨_, by simp, .mk hwhole hplaces hpower⟩

theorem exists_of_number {t rest : Text} {d : Datum} (hread : number t = .ok (d, rest)) :
    ∃ u, t = u ++ rest ∧ SpellsNumber u d := by
  unfold number at hread
  split at hread
  next =>
    obtain ⟨u, rfl, hu⟩ := exists_of_unsignedNumber hread
    exact ⟨_, rfl, .negative hu⟩
  next =>
    obtain ⟨u, rfl, hu⟩ := exists_of_unsignedNumber hread
    exact ⟨_, rfl, .positive hu⟩

/-! ### Values -/

theorem exists_isBlank (t : Text) : ∃ gap, t = gap ++ skipSpace t ∧ IsBlank gap :=
  ⟨t.takeWhile isSpace, List.takeWhile_append_dropWhile.symm, fun _ hc => List.mem_takeWhile_imp hc⟩

theorem inBracket_eq_ok {α : Type} {room? : Option Nat} {inner : Option Nat → Read α}
    {found : α × Text} (hread : inBracket room? inner = .ok found) :
    ∃ room?, inner room? = .ok found := by
  cases room? with
  | none => exact ⟨none, hread⟩
  | some room =>
      cases room with
      | zero => contradiction
      | succ room => exact ⟨some room, hread⟩

/-- What is read with this much fuel is spelled by the text that is taken. -/
structure ReadsSpelled (fuel : Nat) : Prop where
  value : ∀ {room? : Option Nat} {t rest : Text} {d : Datum},
    value room? fuel t = .ok (d, rest) → ∃ u, t = u ++ rest ∧ Spells u (.value d)
  items : ∀ {room? : Option Nat} {t rest : Text} {found : List Datum},
    items room? fuel t = .ok (found, rest) → ∃ u, t = u ++ ']' :: rest ∧ Spells u (.items found)
  entries : ∀ {room? : Option Nat} {t rest : Text} {pairs : List (Text × Datum)},
    entries room? fuel t = .ok (pairs, rest) →
      ∃ u, t = u ++ '\x7d' :: rest ∧ Spells u (.entries pairs)

theorem readsSpelled_zero : ReadsSpelled 0 where
  value := fun hread => by rw [value.eq_def] at hread; contradiction
  items := fun hread => by rw [items.eq_def] at hread; contradiction
  entries := fun hread => by rw [entries.eq_def] at hread; contradiction

section

variable {fuel : Nat} (hfuel : ReadsSpelled fuel) {room? : Option Nat}
include hfuel

theorem exists_spells_of_value_succ {t rest : Text} {d : Datum}
    (hread : value room? (fuel + 1) t = .ok (d, rest)) :
    ∃ u, t = u ++ rest ∧ Spells u (.value d) := by
  rw [value.eq_def] at hread
  simp only [] at hread
  split at hread
  case h_1 =>
    split at hread
    next hstring =>
      obtain ⟨body, rfl, hbody⟩ := exists_spellsText_of_stringFrom hstring
      cases hread
      exact ⟨_, by simp, .text hbody⟩
    next => contradiction
  case h_2 behind =>
    obtain ⟨gap, hgap, hblank⟩ := exists_isBlank behind
    obtain ⟨room?, hread⟩ := inBracket_eq_ok hread
    split at hread
    next more hskip =>
      cases hread
      exact ⟨_, by rw [hgap, hskip]; simp, .emptyTable hblank⟩
    next =>
      split at hread
      next hentries =>
        obtain ⟨u, hu, hspells⟩ := hfuel.entries hentries
        cases hread
        exact ⟨_, by rw [hgap, hu]; simp, .table hblank hspells⟩
      next => contradiction
  case h_3 behind =>
    obtain ⟨gap, hgap, hblank⟩ := exists_isBlank behind
    obtain ⟨room?, hread⟩ := inBracket_eq_ok hread
    split at hread
    next more hskip =>
      cases hread
      exact ⟨_, by rw [hgap, hskip]; simp, .emptyList hblank⟩
    next =>
      split at hread
      next hitems =>
        obtain ⟨u, hu, hspells⟩ := hfuel.items hitems
        cases hread
        exact ⟨_, by rw [hgap, hu]; simp, .list hblank hspells⟩
      next => contradiction
  case h_4 => cases hread; exact ⟨_, rfl, .null⟩
  case h_5 => cases hread; exact ⟨_, rfl, .isTrue⟩
  case h_6 => cases hread; exact ⟨_, rfl, .isFalse⟩
  case h_7 => cases hread; exact ⟨_, rfl, .notNumber⟩
  case h_8 => cases hread; exact ⟨_, rfl, .infinite⟩
  case h_9 => cases hread; exact ⟨_, rfl, .minusInfinite⟩
  case h_10 =>
    obtain ⟨u, rfl, hu⟩ := exists_of_number hread
    exact ⟨u, rfl, .number hu⟩

theorem exists_spells_of_items_succ {t rest : Text} {found : List Datum}
    (hread : items room? (fuel + 1) t = .ok (found, rest)) :
    ∃ u, t = u ++ ']' :: rest ∧ Spells u (.items found) := by
  rw [items.eq_def] at hread
  simp only [] at hread
  split at hread
  next => contradiction
  next d behind hvalue =>
    obtain ⟨u, rfl, hitem⟩ := hfuel.value hvalue
    obtain ⟨gap, hgap, hblank⟩ := exists_isBlank behind
    split at hread
    next hskip =>
      cases hread
      exact ⟨_, by rw [hgap, hskip]; simp, .lastItem hitem hblank⟩
    next more hskip =>
      obtain ⟨space, hspace, hbefore⟩ := exists_isBlank more
      split at hread
      next hitems =>
        obtain ⟨w, hw, hmore⟩ := hfuel.items hitems
        cases hread
        exact ⟨_, by rw [hgap, hskip, hspace, hw]; simp, .item hitem hblank hbefore hmore⟩
      next => contradiction
    next => contradiction

theorem exists_spells_of_entries_succ {t rest : Text} {pairs : List (Text × Datum)}
    (hread : entries room? (fuel + 1) t = .ok (pairs, rest)) :
    ∃ u, t = u ++ '\x7d' :: rest ∧ Spells u (.entries pairs) := by
  rw [entries.eq_def] at hread
  simp only [] at hread
  split at hread
  next behind =>
    split at hread
    next => contradiction
    next key afterKey hkey =>
      obtain ⟨body, rfl, hbody⟩ := exists_spellsText_of_stringFrom hkey
      obtain ⟨gap, hgap, hblank⟩ := exists_isBlank afterKey
      split at hread
      next afterColon hcolon =>
        obtain ⟨space, hspace, hbefore⟩ := exists_isBlank afterColon
        split at hread
        next => contradiction
        next d afterItem hvalue =>
          obtain ⟨u, hu, hitem⟩ := hfuel.value hvalue
          obtain ⟨after, hafter, hbehind⟩ := exists_isBlank afterItem
          split at hread
          next hskip =>
            cases hread
            exact ⟨_, by rw [hgap, hcolon, hspace, hu, hafter, hskip]; simp,
              .lastEntry hbody hblank hbefore hitem hbehind⟩
          next more hskip =>
            obtain ⟨before, hmore, hagain⟩ := exists_isBlank more
            split at hread
            next hentries =>
              obtain ⟨w, hw, hspells⟩ := hfuel.entries hentries
              cases hread
              exact ⟨_, by rw [hgap, hcolon, hspace, hu, hafter, hskip, hmore, hw]; simp,
                .entry hbody hblank hbefore hitem hbehind hagain hspells⟩
            next => contradiction
          next => contradiction
      next => contradiction
  next => contradiction

end

theorem readsSpelled (fuel : Nat) : ReadsSpelled fuel := by
  induction fuel with
  | zero => exact readsSpelled_zero
  | succ fuel ih =>
      exact ⟨exists_spells_of_value_succ ih, exists_spells_of_items_succ ih,
        exists_spells_of_entries_succ ih⟩

theorem denotes_of_readWithin {room? : Option Nat} {document : Text} {d : Datum}
    (hread : readWithin room? document = .ok d) : Denotes document d := by
  unfold readWithin at hread
  split at hread
  next => contradiction
  next =>
    split at hread
    next => contradiction
    next behind hvalue =>
      obtain ⟨before, hbefore, hblank⟩ := exists_isBlank document
      obtain ⟨t, ht, hspells⟩ := (readsSpelled _).value hvalue
      obtain ⟨after, hafter, hbehind⟩ := exists_isBlank behind
      split at hread
      next hskip =>
        obtain rfl := Except.ok.inj hread
        rw [hskip, List.append_nil] at hafter
        subst hafter
        exact ⟨before, t, behind, by rw [← ht, ← hbefore], hblank, hspells, hbehind⟩
      next => contradiction

theorem denotes_of_read {document : Text} {d : Datum} (hread : read document = .ok d) :
    Denotes document d :=
  denotes_of_readWithin hread

end LexicalPaths.Json
