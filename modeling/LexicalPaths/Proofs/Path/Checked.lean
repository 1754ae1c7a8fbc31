import LexicalPaths.Proofs.Path.Parts

/-!
# Checked offsets

The operations on paths once more, with every offset checked where it is used: a character is read
only at an offset that the text reaches, a part is cut out only between two offsets in order that
it reaches, and an entry is taken only from a list that has it.  What fails a check is a fault.
-/

namespace LexicalPaths.Path

open Separator

namespace Checked

/-- Why a checked operation gives no result. -/
inductive Fault where
  /-- An offset was used that is not there. -/
  | offset (e : OffsetError)
  | range (e : RangeError)
deriving DecidableEq

@[simp] theorem ok_bind {α β : Type} (a : α) (next : α → Except Fault β) :
    (Except.ok a >>= next) = next a := rfl

/-! ## Reading -/

def charAt (t : Text) (i : Nat) : Except Fault Char :=
  match t[i]? with
  | some c => .ok c
  | none => .error (.offset ⟨i⟩)

def charBefore (t : Text) : Nat → Except Fault Char
  | 0 => .error (.offset ⟨-1⟩)
  | i + 1 => charAt t i

def cut (t : Text) (start stop : Nat) : Except Fault Text :=
  if start ≤ stop ∧ stop ≤ t.length then .ok (t.slice start stop) else .error (.offset ⟨stop⟩)

def entry (bounds : List (Nat × Nat)) (i : Nat) : Except Fault (Nat × Nat) :=
  match bounds[i]? with
  | some b => .ok b
  | none => .error (.offset ⟨i⟩)

/-- The offset of the first of the next `n` characters that satisfies `stops`, or the offset behind
them. -/
def scan (stops : Char → Bool) (t : Text) : Nat → Nat → Except Fault Nat
  | 0, i => .ok i
  | n + 1, i => do
    if stops (← charAt t i) then .ok i else scan stops t n (i + 1)

def rootLength (t : Text) : Except Fault Nat := do
  let slash ← scan isSeparator t t.length 0
  let colon := Root.firstColon t
  if colon < slash then scan (fun c => !isSeparator c) t (t.length - (colon + 1)) (colon + 1)
  else if 0 < slash then .ok 0
  else scan (fun c => !isSeparator c) t t.length 0

/-- A path is made together with its hash, for which both windows are cut out. -/
def made (p : Path) : Except Fault Path := do
  let _ ← cut p.text 0 p.rootEnd
  let _ ← cut p.text p.start p.stop
  .ok p

def parse (uri t : Text) : Except Fault Path := do
  made (withRoot uri t (← rootLength t) (detect t))

def rootText (p : Path) : Except Fault Text :=
  cut p.text 0 p.rootEnd

def namesText (p : Path) : Except Fault Text :=
  cut p.text p.start p.stop

def raw (p : Path) : Except Fault Text := do
  .ok ((← rootText p) ++ (← namesText p))

def display (p : Path) : Except Fault Text := do
  let scheme := if ['/', '/', '/'].isSuffixOf p.uri then p.uri.dropLast else p.uri
  .ok (scheme ++ (← raw p))

def isAbsolute (p : Path) : Except Fault Bool := do
  if p.rootEnd = 0 then .ok false else .ok (isSeparator (← charBefore p.text p.rootEnd))

def hasTrailingSeparator (p : Path) : Except Fault Bool := do
  if p.start < p.stop then .ok (isSeparator (← charBefore p.text p.stop)) else .ok false

/-! ## Navigation -/

def namesEnd (p : Path) : Except Fault Nat := do
  if ← hasTrailingSeparator p then .ok (p.stop - 1) else .ok p.stop

def root? (p : Path) : Except Fault (Option Path) := do
  if p.rootEnd = 0 then .ok none
  else .ok (some (← made { p with start := p.rootEnd, stop := p.rootEnd }))

def nameStart (p : Path) : Nat → Except Fault Nat
  | 0 => .ok 0
  | i + 1 => do
    if p.start < i + 1 then
      if isSeparator (← charBefore p.text (i + 1)) then .ok (i + 1) else nameStart p i
    else .ok (i + 1)

def fileName (p : Path) : Except Fault Path := do
  let stop ← namesEnd p
  made { p with start := ← nameStart p stop, stop := stop, rootEnd := 0 }

def parent? (p : Path) : Except Fault (Option Path) := do
  let stop ← namesEnd p
  if stop ≤ p.start then .ok none
  else
    let start ← nameStart p stop
    if start ≤ p.start + 1 then root? p
    else .ok (some (← made { p with stop := start - 1 }))

/-- The bounds of the names in the `n` characters from `i` on. -/
def boundsFrom (t : Text) (first : Nat) : Nat → Nat → Except Fault (List (Nat × Nat))
  | 0, i => .ok (if first < i then [(first, i)] else [])
  | n + 1, i => do
    if isSeparator (← charAt t i) then .ok ((first, i) :: (← boundsFrom t (i + 1) n (i + 1)))
    else boundsFrom t first n (i + 1)

def nameBounds (p : Path) : Except Fault (List (Nat × Nat)) := do
  boundsFrom p.text p.start ((← namesEnd p) - p.start) p.start

def names (p : Path) : Except Fault (List Text) := do
  (← nameBounds p).mapM fun (first, last) => cut p.text first last

def nameCount (p : Path) : Except Fault Nat := do
  .ok (← nameBounds p).length

def namePaths (p : Path) : Except Fault (List Path) := do
  (← nameBounds p).mapM fun (first, last) =>
    made { p with start := first, stop := last, rootEnd := 0 }

def subpath (p : Path) (first last : Int) : Except Fault Path := do
  let bounds ← nameBounds p
  if first < 0 ∨ last < first ∨ (bounds.length : Int) < last then
    .error (.range (.outOfRange first last (← display p)))
  else if first = last then parse p.uri []
  else
    let (start, _) ← entry bounds first.toNat
    let (_, stop) ← entry bounds (last.toNat - 1)
    made { p with start := start, stop := stop, rootEnd := 0 }

def get (p : Path) (index : Int) : Except Fault Path :=
  subpath p index (index + 1)

def range (p : Path) (first? last? step? : Option Int) : Except Fault Path := do
  if step?.any (· != 1) then .error (.range .step)
  else
    let last ← match last? with
      | some last => .ok last
      | none => (nameCount p).map Int.ofNat
    subpath p (first?.getD 0) last

/-! ## Composition -/

def ownRoot (p : Path) : Except Fault Text := do
  match ← root? p with
  | some root => .ok (unify [p.separator] (← raw root))
  | none => .ok []

def normalize (p : Path) : Except Fault Path := do
  let remaining := remainingNames (← isAbsolute p) (← names p)
  let closing : List Text := if ← hasTrailingSeparator p then [[]] else []
  let text := (← ownRoot p) ++ Text.joinWith [p.separator] (remaining ++ closing)
  made (withRoot p.uri text (← rootLength text) p.separator)

def same (p q : Path) : Except Fault Bool := do
  let roots := (← rootText p) == (← rootText q)
  let names := (← namesText p) == (← namesText q)
  .ok (p.uri == q.uri && roots && names)

def compatibleRoots : Option Path → Option Path → Except Fault Bool
  | none, none => .ok true
  | some root, some other => do
    if ← same root other then .ok true
    else .ok (Root.driveName (← raw root) == Root.driveName (← raw other))
  | _, _ => .ok false

def gap (p : Path) : Except Fault Text := do
  if p.start < p.stop then
    if isSeparator (← charBefore p.text p.stop) then .ok [] else .ok [p.separator]
  else .ok []

def resolve (p other : Path) : Except Fault Path := do
  let otherRoot? ← root? other
  let drive := Root.afterDrive (← rootText p)
  if p.isEmpty then .ok other
  else if ← isAbsolute other then
    if other.rootEnd = 1 ∧ 0 < drive then
      let text := (← cut p.text 0 drive) ++ unify [p.separator] (← raw other)
      made (withRoot p.uri text (drive + 1) (detect text))
    else .ok other
  else if otherRoot?.isSome ∧ (← compatibleRoots (← root? p) otherRoot?) = false then .ok other
  else if other.start = other.stop then .ok p
  else
    let text := (← raw p) ++ (← gap p) ++ unify [p.separator] (← namesText other)
    made { p with text := text, start := p.rootEnd, stop := text.length }

def rootKey (p : Path) : Except Fault Text := do
  match ← root? p with
  | some root => .ok (Root.key (← raw root))
  | none => .ok []

def keptRoot (p other : Path) : Except Fault Text := do
  let drive := Root.afterDrive (← rootText p)
  if 0 < drive ∧ drive ≤ other.rootEnd then
    if Text.upper (← cut other.text 0 drive) = Text.upper (← cut p.text 0 drive) then
      cut other.text drive other.rootEnd
    else rootText other
  else rootText other

def properNames (p : Path) : Except Fault (List Text) := do
  .ok ((← names p).filter fun name => !name.isEmpty)

def relativize (p other : Path) : Except Fault Path := do
  if p.isEmpty then .ok other
  else if (← isAbsolute p) && other.isEmpty then .ok other
  else if (← rootKey p) ≠ (← rootKey other) then
    let root ← keptRoot p other
    let text := root ++ (← namesText other)
    made (withRoot p.uri text root.length (detect text))
  else
    let mine ← properNames p
    let theirs ← properNames other
    let common := commonNames mine theirs
    let names := List.replicate (mine.length - common) parentName ++ theirs.drop common
    let trailing ← hasTrailingSeparator other
    let closing := if trailing && !names.isEmpty then [other.separator] else []
    let text := Text.joinWith [other.separator] names ++ closing
    made (withRoot p.uri text 0 other.separator)

/-! ## Reads that succeed -/

theorem charAt_eq {t : Text} {i : Nat} (hi : i < t.length) : charAt t i = .ok t[i] := by
  rw [charAt, List.getElem?_eq_getElem hi]

theorem cut_eq {t : Text} {start stop : Nat} (hle : start ≤ stop) (hstop : stop ≤ t.length) :
    cut t start stop = .ok (t.slice start stop) :=
  if_pos ⟨hle, hstop⟩

theorem entry_eq {bounds : List (Nat × Nat)} {i : Nat} (hi : i < bounds.length) :
    entry bounds i = .ok bounds[i] := by
  rw [entry, List.getElem?_eq_getElem hi]

theorem exists_charBefore {p : Path} {i : Nat} (hpos : 0 < i) (hi : i ≤ p.text.length) :
    ∃ c, charBefore p.text i = .ok c ∧ isSeparator c = p.separatorBefore i := by
  obtain ⟨j, rfl⟩ := Nat.exists_eq_succ_of_ne_zero (Nat.ne_of_gt hpos)
  exact ⟨p.text[j], charAt_eq hi, (separatorBefore_add_one hi).symm⟩

theorem mapM_eq {α β : Type} {read : α → Except Fault β} {f : α → β} {l : List α}
    (hread : ∀ a ∈ l, read a = .ok (f a)) : l.mapM read = .ok (l.map f) := by
  induction l with
  | nil => rfl
  | cons a l ih =>
      rw [List.mapM_cons, hread a List.mem_cons_self,
        ih fun b hb => hread b (List.mem_cons_of_mem a hb)]
      rfl

theorem scan_eq (stops : Char → Bool) {t : Text} {n i : Nat} (hn : i + n = t.length) :
    scan stops t n i = .ok (i + ((t.drop i).takeWhile fun c => !stops c).length) := by
  induction n generalizing i with
  | zero =>
      have hnil : t.drop i = [] := List.drop_eq_nil_of_le (by omega)
      rw [scan, hnil]
      rfl
  | succ n ih =>
      have hi : i < t.length := by omega
      have hdrop : t.drop i = t[i] :: t.drop (i + 1) := List.drop_eq_getElem_cons hi
      rw [scan, charAt_eq hi, ok_bind, hdrop, List.takeWhile_cons]
      cases stops t[i] with
      | true => rfl
      | false =>
          rw [if_neg Bool.false_ne_true, ih (by omega)]
          simp
          omega

theorem separatorRun_eq (t : Text) (i : Nat) :
    ((t.drop i).takeWhile fun c => !!isSeparator c).length = Root.separatorRun (t.drop i) := by
  simp [Root.separatorRun]

theorem rootLength_eq (t : Text) : rootLength t = .ok (Root.length t) := by
  have hslash : scan isSeparator t t.length 0 = .ok (firstIndex t) := by
    rw [scan_eq isSeparator (Nat.zero_add _)]
    simp [firstIndex]
  rw [rootLength, hslash, ok_bind]
  unfold Root.length
  have hle : firstIndex t ≤ t.length := (List.takeWhile_prefix _).length_le
  by_cases hdrive : Root.firstColon t < firstIndex t
  · rw [if_pos hdrive, if_pos hdrive, scan_eq _ (by omega), separatorRun_eq]
  · rw [if_neg hdrive, if_neg hdrive]
    split
    next hpos =>
      -- no separator at the front, so no run of them
      cases t with
      | nil => rfl
      | cons c t =>
          cases hc : isSeparator c with
          | true => simp [firstIndex, hc] at hpos
          | false => simp [Root.separatorRun, hc]
    next =>
      have hrun := separatorRun_eq t 0
      rw [scan_eq _ (Nat.zero_add _), hrun]
      simp

theorem boundsFrom_eq {t : Text} {n i : Nat} (hn : i + n ≤ t.length) (first : Nat) :
    boundsFrom t first n i = .ok (Path.boundsFrom first i (t.slice i (i + n))) := by
  induction n generalizing first i with
  | zero =>
      rw [boundsFrom, Nat.add_zero, slice_self]
      rfl
  | succ n ih =>
      have hi : i < t.length := by omega
      have hslice : t.slice i (i + (n + 1)) = t[i] :: t.slice (i + 1) (i + 1 + n) := by
        have hsplit : i + (n + 1) = i + 1 + n := by omega
        have hlt : i < (t.take (i + 1 + n)).length := by
          rw [List.length_take]
          omega
        rw [Text.slice, Text.slice, hsplit, List.drop_eq_getElem_cons hlt, List.getElem_take]
      rw [boundsFrom, charAt_eq hi, ok_bind, hslice, Path.boundsFrom, ih (by omega), ih (by omega),
        ok_bind]
      split
      · rfl
      · rfl

end Checked

end LexicalPaths.Path
