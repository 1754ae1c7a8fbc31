import LexicalPaths.Json.Printer
import LexicalPaths.Json.Reader
import Mathlib.Data.List.TakeWhile
import Mathlib.Tactic.Common

/-!
# What is written is read again

The reader undoes the printer on texts, lists and tables, on one line and on lines that are
indented by space alone.  The reader spends one unit of fuel for each value, and the printed text
of a value is always long enough to pay for all that it holds.
-/

namespace LexicalPaths.Json

/-! ## Strings -/

/-- A code unit that is not joined with a next one stands for a character of its own. -/
theorem stringFrom_unit (opening : Nat) {a b c d : Char} {n : Nat}
    (hquad : hexQuad? a b c d = some n) {rest : Text} (hne : rest ≠ [])
    (hnext : isHighUnit n = true → ∀ w x y z e more,
      rest = '\\' :: 'u' :: w :: x :: y :: z :: e :: more →
        ∃ low, hexQuad? w x y z = some low ∧ isLowUnit low = false) :
    stringFrom opening ('\\' :: 'u' :: a :: b :: c :: d :: rest) =
      consRead (unitChar n) (stringFrom opening rest) := by
  by_cases hpair : ∃ w x y z e more, rest = '\\' :: 'u' :: w :: x :: y :: z :: e :: more
  · obtain ⟨w, x, y, z, e, more, rfl⟩ := hpair
    rw [stringFrom]
    simp only [hquad]
    split
    next hhigh =>
      obtain ⟨low, hlow, hnot⟩ := hnext hhigh w x y z e more rfl
      simp [hlow, hnot]
    next => rfl
  · obtain ⟨e, more, rfl⟩ := List.exists_cons_of_ne_nil hne
    rw [stringFrom]
    · simp only [hquad]
    · intro w x y z f others he hmore
      exact hpair ⟨w, x, y, z, f, others, by rw [he, hmore]⟩

theorem hexDigits_of_lt : ∀ n < 0x20,
    Text.hexDigits 4 n = ['0', '0', Nat.digitChar (n / 16), Nat.digitChar (n % 16)] ∧
      hexQuad? '0' '0' (Nat.digitChar (n / 16)) (Nat.digitChar (n % 16)) = some n := by
  decide

theorem unitChar_of_lt : ∀ n < 0x20, isHighUnit n = false ∧ unitChar n = Char.ofNat n := by
  decide

theorem stringFrom_plain (opening : Nat) {c : Char} (hquote : c ≠ '"') (hslash : c ≠ '\\')
    (hcontrol : ¬ c.toNat < 0x20) (rest : Text) :
    stringFrom opening (c :: rest) = consRead c (stringFrom opening rest) := by
  rw [stringFrom]
  · rw [if_neg hcontrol]
  all_goals
    intros
    contradiction

/-- Each form of a character is read as that character. -/
theorem stringFrom_escapeChar (opening : Nat) (c : Char) {rest : Text} (hne : rest ≠ []) :
    stringFrom opening (escapeChar c ++ rest) = consRead c (stringFrom opening rest) := by
  unfold escapeChar
  split
  next hc => subst hc; rfl
  next hquote =>
  split
  next hc => subst hc; rfl
  next hslash =>
  split
  next hc => subst hc; rfl
  split
  next hc => subst hc; rfl
  split
  next hc => subst hc; rfl
  split
  next hc => subst hc; rfl
  split
  next hc => subst hc; rfl
  split
  next hcontrol =>
    obtain ⟨hdigits, hquad⟩ := hexDigits_of_lt c.toNat hcontrol
    obtain ⟨hhigh, hunit⟩ := unitChar_of_lt c.toNat hcontrol
    have hread := stringFrom_unit opening hquad hne fun h => absurd h (by rw [hhigh]; decide)
    rw [hunit, Char.ofNat_toNat] at hread
    rw [hdigits]
    exact hread
  next hcontrol => exact stringFrom_plain opening hquote hslash hcontrol rest

theorem stringFrom_flatMap (opening : Nat) (t rest : Text) :
    stringFrom opening (t.flatMap escapeChar ++ '"' :: rest) = .ok (t, rest) := by
  induction t with
  | nil => rfl
  | cons c t ih =>
      rw [List.flatMap_cons, List.append_assoc, stringFrom_escapeChar opening c (by simp), ih]
      rfl

/-! ## Space -/

/-- Nothing but space stands between the parts of a document. -/
def Layout.IsBlank : Layout → Prop
  | .line => True
  | .indented unit => ∀ c ∈ unit, isSpace c = true

theorem isBlank_spaces (count : Nat) : (Layout.indented (List.replicate count ' ')).IsBlank := by
  intro c hc
  rw [List.eq_of_mem_replicate hc]
  rfl

theorem isSpace_of_mem_breakAt {layout : Layout} (hblank : layout.IsBlank) {depth : Nat} {c : Char}
    (hc : c ∈ layout.breakAt depth) : isSpace c = true := by
  cases layout with
  | line => simp [Layout.breakAt] at hc
  | indented unit =>
      rcases List.mem_cons.mp hc with rfl | hc
      · rfl
      · obtain ⟨line, hline, hmem⟩ := List.mem_flatten.mp hc
        rw [List.eq_of_mem_replicate hline] at hmem
        exact hblank c hmem

theorem skipSpace_cons {c : Char} (hc : isSpace c = false) (t : Text) :
    skipSpace (c :: t) = c :: t := by
  simp [skipSpace, hc]

theorem skipSpace_blank {c : Char} (hc : isSpace c = false) (t : Text) :
    skipSpace (' ' :: c :: t) = c :: t :=
  skipSpace_cons hc t

theorem skipSpace_breakAt {layout : Layout} (hblank : layout.IsBlank) (depth : Nat) {c : Char}
    (hc : isSpace c = false) (t : Text) :
    skipSpace (layout.breakAt depth ++ c :: t) = c :: t := by
  unfold skipSpace
  rw [List.dropWhile_append_of_pos fun x hx => isSpace_of_mem_breakAt hblank hx]
  simp [hc]

theorem exists_comma_eq {layout : Layout} (hblank : layout.IsBlank) (depth : Nat) :
    ∃ gap, layout.comma depth = ',' :: gap ∧
      ∀ c t, isSpace c = false → skipSpace (gap ++ c :: t) = c :: t := by
  cases layout with
  | line => exact ⟨[' '], rfl, fun c t hc => skipSpace_blank hc t⟩
  | indented unit => exact ⟨_, rfl, fun c t hc => skipSpace_breakAt hblank depth hc t⟩

/-! ## Values -/

/-- Texts, and the lists and tables that hold nothing else.  The keys of a table are distinct. -/
inductive Plain : Datum → Prop
  | text (t : Text) : Plain (.text t)
  | list {items : List Datum} (hitems : ∀ d ∈ items, Plain d) : Plain (.list items)
  | table {entries : List (Text × Datum)} (hkeys : (entries.map Prod.fst).Nodup)
      (hentries : ∀ e ∈ entries, Plain e.2) : Plain (.table entries)

/-- There is room for the lists and tables that lie in each other in the value. -/
inductive Fits : Option Nat → Datum → Prop
  | endless (d : Datum) : Fits none d
  | text (room : Nat) (t : Text) : Fits (some room) (.text t)
  | list {room : Nat} {items : List Datum} (hitems : ∀ d ∈ items, Fits (some room) d) :
      Fits (some (room + 1)) (.list items)
  | table {room : Nat} {entries : List (Text × Datum)}
      (hentries : ∀ e ∈ entries, Fits (some room) e.2) : Fits (some (room + 1)) (.table entries)

/-- The room `inner?` is what is left in a bracket. -/
def IsInside (room? inner? : Option Nat) : Prop :=
  ∀ {α : Type} (inner : Option Nat → Read α), inBracket room? inner = inner inner?

theorem Fits.of_list {room? : Option Nat} {items : List Datum} (hfits : Fits room? (.list items)) :
    ∃ inner?, IsInside room? inner? ∧ ∀ d ∈ items, Fits inner? d := by
  cases hfits with
  | endless => exact ⟨none, fun _ => rfl, fun d _ => .endless d⟩
  | @list room _ hitems => exact ⟨some room, fun _ => rfl, hitems⟩

theorem Fits.of_table {room? : Option Nat} {entries : List (Text × Datum)}
    (hfits : Fits room? (.table entries)) :
    ∃ inner?, IsInside room? inner? ∧ ∀ e ∈ entries, Fits inner? e.2 := by
  cases hfits with
  | endless => exact ⟨none, fun _ => rfl, fun e _ => .endless e.2⟩
  | @table room _ hentries => exact ⟨some room, fun _ => rfl, hentries⟩

theorem setEntry_of_notMem {key : Text} {entries : List (Text × Datum)} (d : Datum)
    (hkey : key ∉ entries.map Prod.fst) :
    Datum.setEntry key d entries = entries ++ [(key, d)] := by
  induction entries with
  | nil => rfl
  | cons e entries ih =>
      obtain ⟨hne, hrest⟩ := by simpa using hkey
      rw [Datum.setEntry, if_neg (Ne.symm hne), ih (by simpa using hrest)]
      rfl

theorem foldl_setEntry (before : List (Text × Datum)) {entries : List (Text × Datum)}
    (hkeys : ((before ++ entries).map Prod.fst).Nodup) :
    entries.foldl (fun found (key, value) => Datum.setEntry key value found) before =
      before ++ entries := by
  induction entries generalizing before with
  | nil => simp
  | cons e entries ih =>
      obtain ⟨key, d⟩ := e
      have hnew : key ∉ before.map Prod.fst := by
        rw [List.map_append, List.nodup_append] at hkeys
        exact fun hmem => hkeys.2.2 key hmem key (by simp) rfl
      have hmoved : before ++ (key, d) :: entries = before ++ [(key, d)] ++ entries := by simp
      rw [hmoved] at hkeys ⊢
      simp only [List.foldl_cons, setEntry_of_notMem d hnew, ih _ hkeys]

/-- Nothing is lost from a table whose keys are distinct. -/
theorem tableEntries_of_nodup {entries : List (Text × Datum)}
    (hkeys : (entries.map Prod.fst).Nodup) : Datum.tableEntries entries = entries :=
  foldl_setEntry [] hkeys

theorem print_text (layout : Layout) (depth : Nat) (t : Text) :
    print layout depth (.text t) = '"' :: (t.flatMap escapeChar ++ ['"']) := by
  rw [print, string, List.cons_append]

theorem print_list_cons (layout : Layout) (depth : Nat) (d : Datum) (items : List Datum) :
    print layout depth (.list (d :: items)) =
      '[' :: (layout.breakAt (depth + 1) ++
        (printItems layout (depth + 1) (d :: items) ++ (layout.breakAt depth ++ [']']))) := by
  rw [print]
  simp

theorem print_table_cons (layout : Layout) (depth : Nat) (e : Text × Datum)
    (entries : List (Text × Datum)) :
    print layout depth (.table (e :: entries)) =
      '\x7b' :: (layout.breakAt (depth + 1) ++
        (printEntries layout (depth + 1) (e :: entries) ++
          (layout.breakAt depth ++ ['\x7d']))) := by
  rw [print]
  simp

theorem printItems_singleton (layout : Layout) (depth : Nat) (d : Datum) :
    printItems layout depth [d] = print layout depth d := by
  rw [printItems]

theorem printItems_cons_cons (layout : Layout) (depth : Nat) (d e : Datum) (items : List Datum) :
    printItems layout depth (d :: e :: items) =
      print layout depth d ++ (layout.comma depth ++ printItems layout depth (e :: items)) := by
  rw [printItems]
  · simp
  · simp

theorem printEntries_singleton (layout : Layout) (depth : Nat) (key : Text) (d : Datum) :
    printEntries layout depth [(key, d)] =
      '"' :: (key.flatMap escapeChar ++ '"' :: ':' :: ' ' :: print layout depth d) := by
  rw [printEntries, string]
  simp

theorem printEntries_cons_cons (layout : Layout) (depth : Nat) (key : Text) (d : Datum)
    (e : Text × Datum) (entries : List (Text × Datum)) :
    printEntries layout depth ((key, d) :: e :: entries) =
      '"' :: (key.flatMap escapeChar ++ '"' :: ':' :: ' ' :: (print layout depth d ++
        (layout.comma depth ++ printEntries layout depth (e :: entries)))) := by
  rw [printEntries, string]
  · simp
  · simp

/-- The characters with which values start. -/
def Opens (c : Char) : Prop :=
  c = '"' ∨ c = '[' ∨ c = '\x7b'

theorem Opens.isSpace_eq {c : Char} (hc : Opens c) : isSpace c = false := by
  rcases hc with rfl | rfl | rfl <;> rfl

theorem Opens.ne {c d : Char} (hc : Opens c) (hd : d ≠ '"' ∧ d ≠ '[' ∧ d ≠ '\x7b') : c ≠ d := by
  rintro rfl
  rcases hc with h | h | h
  · exact hd.1 h
  · exact hd.2.1 h
  · exact hd.2.2 h

theorem exists_print_eq_cons (layout : Layout) (depth : Nat) {d : Datum} (hd : Plain d) :
    ∃ c t, print layout depth d = c :: t ∧ Opens c := by
  cases hd with
  | text t => exact ⟨'"', _, print_text layout depth t, .inl rfl⟩
  | @list items _ =>
      cases items with
      | nil => exact ⟨'[', _, by rw [print], .inr (.inl rfl)⟩
      | cons d items => exact ⟨'[', _, print_list_cons layout depth d items, .inr (.inl rfl)⟩
  | @table entries _ _ =>
      cases entries with
      | nil => exact ⟨'\x7b', _, by rw [print], .inr (.inr rfl)⟩
      | cons e entries =>
          exact ⟨'\x7b', _, print_table_cons layout depth e entries, .inr (.inr rfl)⟩

theorem exists_printItems_eq_cons (layout : Layout) (depth : Nat) {d : Datum} (hd : Plain d)
    (items : List Datum) :
    ∃ c t, printItems layout depth (d :: items) = c :: t ∧ Opens c := by
  obtain ⟨c, t, hprint, hc⟩ := exists_print_eq_cons layout depth hd
  cases items with
  | nil => exact ⟨c, t, by rw [printItems_singleton, hprint], hc⟩
  | cons e items =>
      exact ⟨c, _, by rw [printItems_cons_cons, hprint, List.cons_append], hc⟩

theorem exists_printEntries_eq_cons (layout : Layout) (depth : Nat) (e : Text × Datum)
    (entries : List (Text × Datum)) :
    ∃ t, printEntries layout depth (e :: entries) = '"' :: t := by
  obtain ⟨key, d⟩ := e
  cases entries with
  | nil => exact ⟨_, printEntries_singleton layout depth key d⟩
  | cons e entries => exact ⟨_, printEntries_cons_cons layout depth key d e entries⟩

/-- With this much fuel all that is printed with at most as many characters is read again, if there
is room for it. -/
structure Restores (layout : Layout) (fuel : Nat) : Prop where
  value : ∀ (depth : Nat) {room? : Option Nat} {d : Datum}, Plain d → Fits room? d →
    (print layout depth d).length ≤ fuel →
    ∀ rest, Json.value room? fuel (print layout depth d ++ rest) = .ok (d, rest)
  items : ∀ (depth outer : Nat) {room? : Option Nat} {found : List Datum}, found ≠ [] →
    (∀ d ∈ found, Plain d) → (∀ d ∈ found, Fits room? d) →
    (printItems layout depth found).length < fuel →
    ∀ rest, Json.items room? fuel
      (printItems layout depth found ++ (layout.breakAt outer ++ ']' :: rest)) = .ok (found, rest)
  entries : ∀ (depth outer : Nat) {room? : Option Nat} {found : List (Text × Datum)},
    found ≠ [] → (∀ e ∈ found, Plain e.2) → (∀ e ∈ found, Fits room? e.2) →
    (printEntries layout depth found).length < fuel →
    ∀ rest, Json.entries room? fuel
      (printEntries layout depth found ++ (layout.breakAt outer ++ '\x7d' :: rest)) =
        .ok (found, rest)

theorem restores_zero (layout : Layout) : Restores layout 0 where
  value := by
    intro depth room? d hd _ hfuel
    obtain ⟨c, t, hprint, -⟩ := exists_print_eq_cons layout depth hd
    simp [hprint] at hfuel
  items := by
    intro depth outer room? found _ _ _ hfuel
    omega
  entries := by
    intro depth outer room? found _ _ _ hfuel
    omega

section

variable {layout : Layout} {fuel : Nat} (hblank : layout.IsBlank) (hfuel : Restores layout fuel)
  {room? : Option Nat}
include hblank hfuel

theorem value_print_succ (depth : Nat) {d : Datum} (hd : Plain d) (hfits : Fits room? d)
    (hlen : (print layout depth d).length ≤ fuel + 1) (rest : Text) :
    value room? (fuel + 1) (print layout depth d ++ rest) = .ok (d, rest) := by
  cases hd with
  | text t =>
      rw [print_text, List.cons_append, List.append_assoc, List.singleton_append, value,
        stringFrom_flatMap]
  | @list items hitems =>
      obtain ⟨inner?, hinner, hinside⟩ := hfits.of_list
      cases items with
      | nil =>
          rw [print, List.cons_append, List.cons_append, value, hinner]
          rfl
      | cons d items =>
          rw [print_list_cons, List.length_cons, List.length_append, List.length_append,
            List.length_append] at hlen
          have hread := hfuel.items (depth + 1) depth (by simp) hitems hinside
            (by simp at hlen; omega) rest
          obtain ⟨c, t, hprint, hopens⟩ :=
            exists_printItems_eq_cons layout (depth + 1) (hitems d (by simp)) items
          simp only [print_list_cons, List.cons_append, List.append_assoc, List.nil_append,
            hprint] at hread ⊢
          rw [value, hinner, skipSpace_breakAt hblank _ hopens.isSpace_eq]
          split
          next heq => exact absurd (List.cons.inj heq).1 (hopens.ne (by decide))
          next => rw [hread]
  | @table entries hkeys hentries =>
      obtain ⟨inner?, hinner, hinside⟩ := hfits.of_table
      cases entries with
      | nil =>
          rw [print, List.cons_append, List.cons_append, value, hinner]
          rfl
      | cons e entries =>
          rw [print_table_cons, List.length_cons, List.length_append, List.length_append,
            List.length_append] at hlen
          have hread := hfuel.entries (depth + 1) depth (by simp) hentries hinside
            (by simp at hlen; omega) rest
          obtain ⟨t, hprint⟩ := exists_printEntries_eq_cons layout (depth + 1) e entries
          simp only [print_table_cons, List.cons_append, List.append_assoc, List.nil_append,
            hprint] at hread ⊢
          rw [value, hinner, skipSpace_breakAt hblank _ (by rfl)]
          split
          next heq => exact absurd (List.cons.inj heq).1 (by decide)
          next =>
            rw [hread]
            simp only [tableEntries_of_nodup hkeys]

theorem items_print_succ (depth outer : Nat) {found : List Datum} (hne : found ≠ [])
    (hfound : ∀ d ∈ found, Plain d) (hfits : ∀ d ∈ found, Fits room? d)
    (hlen : (printItems layout depth found).length < fuel + 1) (rest : Text) :
    items room? (fuel + 1)
        (printItems layout depth found ++ (layout.breakAt outer ++ ']' :: rest)) =
      .ok (found, rest) := by
  obtain ⟨d, found, rfl⟩ := List.exists_cons_of_ne_nil hne
  have hd := hfound d (by simp)
  have hfit := hfits d (by simp)
  cases found with
  | nil =>
      rw [printItems_singleton] at hlen ⊢
      rw [items, hfuel.value depth hd hfit (by omega)]
      simp only [skipSpace_breakAt hblank outer (c := ']') rfl]
  | cons e found =>
      have hrest : ∀ d ∈ e :: found, Plain d := fun d hd => hfound d (List.mem_cons_of_mem _ hd)
      have hroom : ∀ d ∈ e :: found, Fits room? d := fun d hd => hfits d (List.mem_cons_of_mem _ hd)
      obtain ⟨gap, hcomma, hgap⟩ := exists_comma_eq hblank depth
      obtain ⟨c, t, hprint, hopens⟩ :=
        exists_printItems_eq_cons layout depth (hrest e (by simp)) found
      rw [printItems_cons_cons, hcomma, List.length_append, List.length_append,
        List.length_cons] at hlen
      have hread := hfuel.items depth outer (by simp) hrest hroom (by omega) rest
      rw [hprint, List.cons_append] at hread
      rw [printItems_cons_cons, hcomma, hprint]
      simp only [List.append_assoc, List.cons_append]
      rw [items, hfuel.value depth hd hfit (by omega)]
      simp only [skipSpace_cons (c := ',') rfl, hgap c _ hopens.isSpace_eq, hread]

theorem entries_print_succ (depth outer : Nat) {found : List (Text × Datum)} (hne : found ≠ [])
    (hfound : ∀ e ∈ found, Plain e.2) (hfits : ∀ e ∈ found, Fits room? e.2)
    (hlen : (printEntries layout depth found).length < fuel + 1) (rest : Text) :
    entries room? (fuel + 1)
        (printEntries layout depth found ++ (layout.breakAt outer ++ '\x7d' :: rest)) =
      .ok (found, rest) := by
  obtain ⟨⟨key, d⟩, found, rfl⟩ := List.exists_cons_of_ne_nil hne
  have hd : Plain d := hfound (key, d) (by simp)
  have hfit : Fits room? d := hfits (key, d) (by simp)
  obtain ⟨x, u, hvalue, hopens⟩ := exists_print_eq_cons layout depth hd
  cases found with
  | nil =>
      rw [printEntries_singleton, List.length_cons, List.length_append, List.length_cons,
        List.length_cons, List.length_cons] at hlen
      have hitem := hfuel.value depth hd hfit (by omega)
        (layout.breakAt outer ++ '\x7d' :: rest)
      rw [hvalue, List.cons_append] at hitem
      rw [printEntries_singleton, hvalue]
      simp only [List.append_assoc, List.cons_append]
      rw [entries, stringFrom_flatMap]
      simp only [skipSpace_cons (c := ':') rfl, skipSpace_blank hopens.isSpace_eq, hitem,
        skipSpace_breakAt hblank outer (c := '\x7d') rfl]
  | cons e found =>
      have hrest : ∀ e' ∈ e :: found, Plain e'.2 := fun e' he =>
        hfound e' (List.mem_cons_of_mem _ he)
      have hroom : ∀ e' ∈ e :: found, Fits room? e'.2 := fun e' he =>
        hfits e' (List.mem_cons_of_mem _ he)
      obtain ⟨gap, hcomma, hgap⟩ := exists_comma_eq hblank depth
      obtain ⟨t, hprint⟩ := exists_printEntries_eq_cons layout depth e found
      rw [printEntries_cons_cons, hcomma, List.length_cons, List.length_append, List.length_cons,
        List.length_cons, List.length_cons, List.length_append, List.length_append,
        List.length_cons] at hlen
      have hread := hfuel.entries depth outer (by simp) hrest hroom (by omega) rest
      rw [hprint, List.cons_append] at hread
      have hitem := hfuel.value depth hd hfit (by omega)
        (',' :: (gap ++ '"' :: (t ++ (layout.breakAt outer ++ '\x7d' :: rest))))
      rw [hvalue, List.cons_append] at hitem
      rw [printEntries_cons_cons, hcomma, hprint, hvalue]
      simp only [List.append_assoc, List.cons_append]
      rw [entries, stringFrom_flatMap]
      simp only [skipSpace_cons (c := ':') rfl, skipSpace_blank hopens.isSpace_eq, hitem,
        skipSpace_cons (c := ',') rfl, hgap '"' _ rfl, hread]

end

theorem restores {layout : Layout} (hblank : layout.IsBlank) (fuel : Nat) :
    Restores layout fuel := by
  induction fuel with
  | zero => exact restores_zero layout
  | succ fuel ih =>
      exact ⟨fun depth _ _ hd hfits hlen => value_print_succ hblank ih depth hd hfits hlen,
        fun depth outer _ _ hne hfound hfits hlen =>
          items_print_succ hblank ih depth outer hne hfound hfits hlen,
        fun depth outer _ _ hne hfound hfits hlen =>
          entries_print_succ hblank ih depth outer hne hfound hfits hlen⟩

/-- The reader gets to the end of what was written if there is room for it, and refuses all but
space behind it. -/
theorem readWithin_write_append {layout : Layout} (hblank : layout.IsBlank) {d : Datum}
    (hd : Plain d) {room? : Option Nat} (hfits : Fits room? d) (rest : Text) :
    readWithin room? (write layout d ++ rest) =
      match skipSpace rest with
      | [] => .ok d
      | left => .error (.syntaxAt .extraData left.length) := by
  obtain ⟨c, t, hprint, hopens⟩ := exists_print_eq_cons layout 0 hd
  have hvalue := (restores hblank (2 * (write layout d ++ rest).length + 1)).value 0 hd hfits
    (by rw [write, List.length_append]; omega) rest
  rw [← write] at hvalue
  have hmark : (write layout d ++ rest).head? ≠ some '\ufeff' := by
    rw [write, hprint, List.cons_append, List.head?_cons]
    exact fun h => hopens.ne (by decide) (Option.some.inj h)
  have hskip : skipSpace (write layout d ++ rest) = write layout d ++ rest := by
    rw [write, hprint, List.cons_append]
    exact skipSpace_cons hopens.isSpace_eq _
  cases hleft : skipSpace rest with
  | nil =>
      unfold readWithin
      rw [if_neg hmark, hskip, hvalue]
      simp only [hleft]
  | cons =>
      unfold readWithin
      rw [if_neg hmark, hskip, hvalue]
      simp only [hleft]

/-- The reader gets back what was written if there is room for it. -/
theorem readWithin_write {layout : Layout} (hblank : layout.IsBlank) {d : Datum} (hd : Plain d)
    {room? : Option Nat} (hfits : Fits room? d) : readWithin room? (write layout d) = .ok d := by
  have hread := readWithin_write_append hblank hd hfits []
  rwa [List.append_nil] at hread

/-- The reader gets back what was written. -/
theorem read_write {layout : Layout} (hblank : layout.IsBlank) {d : Datum} (hd : Plain d) :
    read (write layout d) = .ok d :=
  readWithin_write hblank hd (.endless d)

theorem read_write_append_ne_ok {layout : Layout} (hblank : layout.IsBlank) {d : Datum}
    (hd : Plain d) {rest : Text} {c : Char} (hc : c ∈ rest) (hspace : isSpace c = false)
    (found : Datum) : read (write layout d ++ rest) ≠ .ok found := by
  intro hread
  rw [read, readWithin_write_append hblank hd (.endless d)] at hread
  split at hread
  next hnil =>
    have hall := List.dropWhile_eq_nil_iff.mp hnil c hc
    rw [hspace] at hall
    contradiction
  next => contradiction

end LexicalPaths.Json
