import LexicalPaths.Proofs.Toml.Quoted
import LexicalPaths.Toml.Document

/-!
# Documents line by line

A document without headers is read line after line: a remark leaves the entries as they are, and a
key with its value adds an entry.  A run of lines is described by the entries before and behind it,
whatever follows, so that the runs of a document are put together as its lines are.
-/

namespace LexicalPaths.Toml

open Config (escapeChar stringText)

/-- The draft of a document that has entries and no headers so far. -/
def Draft.of (entries : List (Text × Datum)) : Draft :=
  ⟨entries, [], [], [], []⟩

/-- Lines, each with its end. -/
def inLines (ls : List Text) : Text :=
  ls.flatMap (· ++ ['\n'])

theorem inLines_cons (line : Text) (ls : List Text) :
    inLines (line :: ls) = line ++ '\n' :: inLines ls := by
  simp [inLines]

theorem inLines_append (ls ms : List Text) : inLines (ls ++ ms) = inLines ls ++ inLines ms :=
  List.flatMap_append

/-- Lines that are joined and followed by an empty one all have their end. -/
theorem joinWith_concat_nil (ls : List Text) : Text.joinWith ['\n'] (ls ++ [[]]) = inLines ls := by
  induction ls with
  | nil => rfl
  | cons line ls ih =>
      have hjoin : Text.joinWith ['\n'] (line :: (ls ++ [[]])) =
          line ++ ['\n'] ++ Text.joinWith ['\n'] (ls ++ [[]]) := by
        cases ls <;> rfl
      rw [List.cons_append, hjoin, ih, inLines_cons, List.append_assoc, List.singleton_append]

theorem length_le_length_inLines (ls : List Text) : ls.length ≤ (inLines ls).length := by
  induction ls with
  | nil => exact Nat.le_refl 0
  | cons line ls ih =>
      rw [inLines_cons, List.length_append, List.length_cons, List.length_cons]
      omega

/-! ## One line -/

theorem skipSpace_cons {c : Char} (hspace : c ≠ ' ') (htab : c ≠ '\t') (t : Text) :
    skipSpace (c :: t) = c :: t :=
  List.dropWhile_cons_of_neg (by simp [isSpace, hspace, htab])

theorem skipSpace_lineEnd (rest : Text) : skipSpace ('\n' :: rest) = '\n' :: rest :=
  skipSpace_cons (by decide) (by decide) rest

theorem skipComment_lineEnd (rest : Text) : skipComment ('\n' :: rest) = .ok ('\n' :: rest) :=
  rfl

/-- A comment is skipped up to the line end. -/
theorem skipComment_of_isPlain {comment : Text} (hplain : IsPlain comment) (rest : Text) :
    skipComment ('#' :: (comment ++ '\n' :: rest)) = .ok ('\n' :: rest) := by
  have hmore : ∀ c ∈ comment, (c != '\n') = true := by
    intro c hmem
    rw [bne_iff_ne]
    rintro rfl
    exact absurd (hplain _ hmem) (by decide)
  have hcomment : (comment ++ '\n' :: rest).takeWhile (· != '\n') = comment := by
    rw [List.takeWhile_append_of_pos hmore, List.takeWhile_cons_of_neg (by decide),
      List.append_nil]
  have hnone : comment.any isControl = false :=
    List.any_eq_false.mpr fun c hmem => by rw [hplain c hmem]; decide
  simp only [skipComment, hcomment, hnone, List.drop_left]
  rfl

/-- A line that is empty or a comment. -/
def IsRemark : Text → Prop
  | [] => True
  | c :: comment => c = '#' ∧ IsPlain comment

instance : DecidablePred IsRemark
  | [] => inferInstanceAs (Decidable True)
  | c :: comment => inferInstanceAs (Decidable (c = '#' ∧ IsPlain comment))

theorem IsRemark.isPlain {line : Text} (hremark : IsRemark line) : IsPlain line := by
  cases line with
  | nil => exact isPlain_nil
  | cons c comment =>
      obtain ⟨rfl, hplain⟩ := hremark
      exact isPlain_cons_iff.mpr ⟨by decide, hplain⟩

/-- What is left of a line when its statement has been read. -/
theorem readLines_of_statement {draft next : Draft} {t rest : Text} (fuel : Nat)
    (hstatement : readStatement draft (skipSpace t) = .ok (next, '\n' :: rest)) :
    readLines (fuel + 1) draft t = readLines fuel next rest := by
  rw [readLines, hstatement]
  simp only [skipSpace_lineEnd, skipComment_lineEnd]

theorem readLines_of_remark {line : Text} (hremark : IsRemark line) (fuel : Nat) (draft : Draft)
    (rest : Text) :
    readLines (fuel + 1) draft (line ++ '\n' :: rest) = readLines fuel draft rest := by
  cases line with
  | nil =>
      refine readLines_of_statement fuel ?_
      rw [List.nil_append, skipSpace_lineEnd]
      rfl
  | cons c comment =>
      obtain ⟨rfl, hplain⟩ := hremark
      have hvisible : ∀ t, skipSpace ('#' :: t) = '#' :: t :=
        skipSpace_cons (by decide) (by decide)
      have hstatement : readStatement draft ('#' :: (comment ++ '\n' :: rest)) =
          .ok (draft, '#' :: (comment ++ '\n' :: rest)) := rfl
      rw [List.cons_append, readLines, hvisible, hstatement]
      simp only [hvisible, skipComment_of_isPlain hplain]

/-! ## Keys and values -/

theorem isControl_of_isBareChar {c : Char} (hbare : isBareChar c = true) : isControl c = false := by
  by_contra hcontrol
  rw [Bool.not_eq_false] at hcontrol
  have hascii : c.toNat < 128 := by
    simp only [isControl, Bool.or_eq_true, Bool.and_eq_true, decide_eq_true_eq, beq_iff_eq]
      at hcontrol
    omega
  have hnone : ∀ n < 128, isControl (Char.ofNat n) = true → isBareChar (Char.ofNat n) = false := by
    decide
  have hother := hnone c.toNat hascii
  rw [Char.ofNat_toNat, hbare] at hother
  nomatch hother hcontrol

/-- A key that needs no quotes. -/
def IsBareKey (key : Text) : Prop :=
  key ≠ [] ∧ key.all isBareChar = true

instance (key : Text) : Decidable (IsBareKey key) :=
  inferInstanceAs (Decidable (key ≠ [] ∧ key.all isBareChar = true))

/-- The value is read at the end of a line, whatever follows. -/
def IsReadAs (t : Text) (value : Datum) : Prop :=
  ∀ fuel rest, readValue (fuel + 1) (skipSpace (t ++ '\n' :: rest)) = .ok (value, '\n' :: rest)

/-- A plain text is read from its quoted form. -/
theorem isReadAs_stringText {t : Text} (ht : IsPlain t) : IsReadAs (stringText t) (.text t) := by
  intro fuel rest
  have hquote : skipSpace (stringText t ++ '\n' :: rest) = stringText t ++ '\n' :: rest :=
    skipSpace_cons (by decide) (by decide) _
  rw [hquote, readValue_stringText fuel ht]

section

variable {key : Text} (hkey : IsBareKey key)
include hkey

theorem IsBareKey.exists_cons : ∃ c more, key = c :: more ∧ isBareChar c = true := by
  obtain ⟨hne, hall⟩ := hkey
  cases key with
  | nil => exact absurd rfl hne
  | cons c more => exact ⟨c, more, rfl, List.all_eq_true.mp hall c List.mem_cons_self⟩

/-- A bare key is read up to the equals sign. -/
theorem readKey_of_isBareKey (t : Text) :
    readKey (key ++ " = ".toList ++ t) = .ok ([key], '=' :: ' ' :: t) := by
  have hall := List.all_eq_true.mp hkey.2
  have hword : (key ++ ' ' :: '=' :: ' ' :: t).takeWhile isBareChar = key := by
    rw [List.takeWhile_append_of_pos hall, List.takeWhile_cons_of_neg (by decide), List.append_nil]
  have hrest : (key ++ ' ' :: '=' :: ' ' :: t).dropWhile isBareChar = ' ' :: '=' :: ' ' :: t := by
    rw [List.dropWhile_append_of_pos hall, List.dropWhile_cons_of_neg (by decide)]
  have hpart : readKeyPart (key ++ ' ' :: '=' :: ' ' :: t) = .ok (key, ' ' :: '=' :: ' ' :: t) := by
    obtain ⟨c, more, rfl, hbare⟩ := hkey.exists_cons
    unfold readKeyPart
    split
    next hquote =>
      obtain rfl := (List.cons.inj hquote).1
      exact absurd hbare (by decide)
    next hquote =>
      obtain rfl := (List.cons.inj hquote).1
      exact absurd hbare (by decide)
    next => rw [hword, hrest]
  have htext : key ++ " = ".toList ++ t = key ++ ' ' :: '=' :: ' ' :: t := by simp
  have hspace : skipSpace (' ' :: '=' :: ' ' :: t) = '=' :: ' ' :: t := rfl
  rw [htext, readKey, readKeyFrom, hpart]
  simp only [hspace]
  rfl

theorem IsBareKey.isPlain : IsPlain key := fun c hmem =>
  isControl_of_isBareChar (List.all_eq_true.mp hkey.2 c hmem)

theorem readStatement_of_isBareKey (draft : Draft) (t : Text) :
    readStatement draft (skipSpace (key ++ t)) = readPair draft (key ++ t) := by
  obtain ⟨c, more, rfl, hbare⟩ := hkey.exists_cons
  have hne : ∀ d, isBareChar d = false → c ≠ d := fun d => Text.ne_of_kind hbare
  rw [List.cons_append, skipSpace_cons (hne _ (by decide)) (hne _ (by decide))]
  unfold readStatement
  split
  next hnil => nomatch hnil
  next heq => exact absurd (List.cons.inj heq).1 (hne _ (by decide))
  next heq => exact absurd (List.cons.inj heq).1 (hne _ (by decide))
  next heq => exact absurd (List.cons.inj heq).1 (hne _ (by decide))
  next heq => exact absurd (List.cons.inj heq).1 (hne _ (by decide))
  next => rfl

/-- The value behind a key is read with enough fuel for one value at least. -/
theorem readPair_of_isBareKey (draft : Draft) (t : Text) :
    ∃ fuel, readPair draft (key ++ " = ".toList ++ t) =
      match readValue (fuel + 1) (skipSpace t) with
      | .error e => .error e
      | .ok (value, rest) => accept (draft.add? [key] value) rest := by
  refine ⟨2 * (key ++ " = ".toList ++ t).length - 1, ?_⟩
  have hpositive : 2 * (key ++ " = ".toList ++ t).length - 1 + 1 =
      2 * (key ++ " = ".toList ++ t).length := by
    simp only [List.length_append, String.length_toList]
    have hlength : " = ".length = 3 := rfl
    omega
  rw [hpositive, readPair, readKey_of_isBareKey hkey]
  rfl

end

/-- A new key is added behind the other entries. -/
theorem add?_of {key : Text} {entries : List (Text × Datum)} {value : Datum}
    (hnew : Datum.entry? key entries = none) (hnest : isNest value = false) :
    (Draft.of entries).add? [key] value = some (.of (entries ++ [(key, value)])) := by
  simp [Draft.add?, Draft.of, passedTables, isClosed, addAt, changeAt, addEntry, hnew, hnest]

/-! ## Runs of lines -/

/-- Behind the entries `before`, the lines are read to the entries `after`, whatever follows. -/
structure Takes (ls : List Text) (before after : List (Text × Datum)) : Prop where
  isPlain : ∀ line ∈ ls, IsPlain line
  reads : ∀ fuel rest, readLines (fuel + ls.length) (.of before) (inLines ls ++ rest) =
    readLines fuel (.of after) rest

variable {before middle after : List (Text × Datum)}

theorem Takes.append {ls ms : List Text} (hone : Takes ls before middle)
    (htwo : Takes ms middle after) : Takes (ls ++ ms) before after where
  isPlain := fun line hmem => (List.mem_append.mp hmem).elim (hone.isPlain line) (htwo.isPlain line)
  reads := fun fuel rest => by
    have hfuel : fuel + (ls ++ ms).length = fuel + ms.length + ls.length := by
      rw [List.length_append]
      omega
    rw [hfuel, inLines_append, List.append_assoc, hone.reads, htwo.reads]

theorem takes_nil (entries : List (Text × Datum)) : Takes [] entries entries where
  isPlain := by simp
  reads := fun _ _ => rfl

theorem takes_remarks {ls : List Text} (hremarks : ∀ line ∈ ls, IsRemark line)
    (entries : List (Text × Datum)) : Takes ls entries entries where
  isPlain := fun line hmem => (hremarks line hmem).isPlain
  reads := fun fuel rest => by
    induction ls with
    | nil => rfl
    | cons line ls ih =>
        obtain ⟨hline, hmore⟩ := List.forall_mem_cons.mp hremarks
        rw [List.length_cons, ← Nat.add_assoc, inLines_cons, List.append_assoc, List.cons_append,
          readLines_of_remark hline, ih hmore]

/-- The line of a new key adds an entry. -/
theorem takes_pair {key t : Text} {value : Datum} (hkey : IsBareKey key) (ht : IsPlain t)
    (hread : IsReadAs t value) (hnew : Datum.entry? key before = none)
    (hnest : isNest value = false) :
    Takes [key ++ " = ".toList ++ t] before (before ++ [(key, value)]) where
  isPlain := fun line hmem => by
    obtain rfl := List.mem_singleton.mp hmem
    exact isPlain_append_iff.mpr ⟨isPlain_append_iff.mpr ⟨hkey.isPlain, by decide⟩, ht⟩
  reads := fun fuel rest => by
    refine readLines_of_statement fuel ?_
    obtain ⟨more, hpair⟩ := readPair_of_isBareKey hkey (.of before) (t ++ '\n' :: rest)
    have hline : inLines [key ++ " = ".toList ++ t] ++ rest =
        key ++ (" = ".toList ++ (t ++ '\n' :: rest)) := by
      simp [inLines]
    rw [hline, readStatement_of_isBareKey hkey, ← List.append_assoc, hpair, hread]
    simp only [add?_of hnew hnest]
    rfl

/-! ## Whole documents -/

theorem unifyBreaks_append {s : Text} (hs : '\r' ∉ s) (t : Text) :
    unifyBreaks (s ++ t) = s ++ unifyBreaks t := by
  induction s with
  | nil => rfl
  | cons c s ih =>
      obtain ⟨hc, hmore⟩ := not_or.mp fun h => hs (List.mem_cons.mpr h)
      have hcons : ∀ u, unifyBreaks (c :: u) = c :: unifyBreaks u := by
        intro u
        rw [unifyBreaks]
        intro _ heq
        exact absurd heq.symm hc
      rw [List.cons_append, hcons, ih hmore, List.cons_append]

theorem carriageReturn_notMem {t : Text} (ht : IsPlain t) : '\r' ∉ t := fun hmem =>
  absurd (ht _ hmem) (by decide)

theorem Takes.carriageReturn_notMem {ls : List Text} (htakes : Takes ls before after) :
    '\r' ∉ inLines ls := by
  intro hmem
  obtain ⟨line, hline, hmem⟩ := List.mem_flatMap.mp hmem
  rcases List.mem_append.mp hmem with hmem | hmem
  · exact Toml.carriageReturn_notMem (htakes.isPlain line hline) hmem
  · exact absurd (List.mem_singleton.mp hmem) (by decide)

/-- A document has more fuel than its first lines need. -/
theorem exists_lines_fuel (ls : List Text) (t : Text) :
    ∃ fuel, (inLines ls ++ t).length.succ = fuel + 1 + ls.length := by
  have hlength := length_le_length_inLines ls
  refine ⟨(inLines ls ++ t).length - ls.length, ?_⟩
  rw [List.length_append]
  omega

/-- A document is read to the entries that its lines add. -/
theorem read_inLines {ls : List Text} {entries : List (Text × Datum)}
    (htakes : Takes ls [] entries) : read (inLines ls) = .ok entries := by
  obtain ⟨fuel, hfuel⟩ := exists_lines_fuel ls []
  have hbreaks : unifyBreaks (inLines ls) = inLines ls ++ [] := by
    have hunified := unifyBreaks_append htakes.carriageReturn_notMem []
    rwa [List.append_nil] at hunified
  have hreads := htakes.reads (fuel + 1) []
  have hend : readLines (fuel + 1) (.of entries) [] = .ok (.of entries) := rfl
  rw [hend] at hreads
  simp only [read, hbreaks]
  rw [hfuel, show Draft.empty = .of [] from rfl, hreads]
  rfl

theorem exists_control_of_unifyBreaks {c : Char} (hc : isControl c = true) (u : Text) :
    ∃ d v, unifyBreaks (c :: u) = d :: v ∧ isControl d = true := by
  unfold unifyBreaks
  split
  next => exact ⟨_, _, rfl, by decide⟩
  next heq =>
    obtain ⟨rfl, rfl⟩ := List.cons.inj heq
    exact ⟨_, _, rfl, hc⟩
  next heq => nomatch heq

/-- A document is refused at the first control in the text of a setting, whatever follows. -/
theorem read_of_control {ls : List Text} {entries : List (Text × Datum)}
    (htakes : Takes ls [] entries) {key s : Text} (hkey : IsBareKey key) (hs : IsPlain s)
    {c : Char} (hc : isControl c = true) (u : Text) :
    ∃ left, read (inLines ls ++ (key ++ " = ".toList ++ ('"' :: s.flatMap escapeChar ++ c :: u))) =
      .error (.malformed left) := by
  obtain ⟨d, v, hbreaks, hd⟩ := exists_control_of_unifyBreaks hc u
  have hstart : '\r' ∉ key ++ " = ".toList ++ '"' :: s.flatMap escapeChar := by
    apply carriageReturn_notMem
    refine isPlain_append_iff.mpr ⟨isPlain_append_iff.mpr ⟨hkey.isPlain, by decide⟩, ?_⟩
    exact isPlain_cons_iff.mpr ⟨by decide, isPlain_flatMap_escapeChar hs⟩
  have hdocument : unifyBreaks
      (inLines ls ++ (key ++ " = ".toList ++ ('"' :: s.flatMap escapeChar ++ c :: u))) =
        inLines ls ++ (key ++ " = ".toList ++ '"' :: (s.flatMap escapeChar ++ d :: v)) := by
    rw [unifyBreaks_append htakes.carriageReturn_notMem, ← List.append_assoc (key ++ _),
      unifyBreaks_append hstart, hbreaks]
    simp
  obtain ⟨fuel, hfuel⟩ := exists_lines_fuel ls
    (key ++ " = ".toList ++ '"' :: (s.flatMap escapeChar ++ d :: v))
  obtain ⟨more, hpair⟩ := readPair_of_isBareKey hkey (.of entries)
    ('"' :: (s.flatMap escapeChar ++ d :: v))
  have hquote : ∀ t, skipSpace ('"' :: t) = '"' :: t := skipSpace_cons (by decide) (by decide)
  have hrefused : readLines (fuel + 1) (.of entries)
      (key ++ " = ".toList ++ '"' :: (s.flatMap escapeChar ++ d :: v)) = fail (d :: v) := by
    rw [List.append_assoc, readLines, readStatement_of_isBareKey hkey, ← List.append_assoc, hpair,
      hquote, readValue_of_control more hs hd]
    rfl
  refine ⟨(d :: v).length, ?_⟩
  simp only [read, hdocument]
  rw [hfuel, show Draft.empty = .of [] from rfl, htakes.reads, hrefused]
  rfl

/-- A text with a control spoils the document that it is written in. -/
theorem read_of_not_isPlain {ls : List Text} {entries : List (Text × Datum)}
    (htakes : Takes ls [] entries) {key t : Text} (hkey : IsBareKey key) (ht : ¬ IsPlain t)
    (ms : List Text) :
    ∃ left, read (inLines (ls ++ (key ++ " = ".toList ++ stringText t) :: ms)) =
      .error (.malformed left) := by
  obtain ⟨s, c, u, rfl, hs, hc⟩ := exists_control_of_not_isPlain ht
  have hescape : escapeChar c = [c] := by
    rw [escapeChar, if_neg (Text.ne_of_kind hc (by decide)),
      if_neg (Text.ne_of_kind hc (by decide))]
  have hdocument : inLines (ls ++ (key ++ " = ".toList ++ stringText (s ++ c :: u)) :: ms) =
      inLines ls ++ (key ++ " = ".toList ++ ('"' :: s.flatMap escapeChar ++
        c :: (u.flatMap escapeChar ++ '"' :: '\n' :: inLines ms))) := by
    rw [inLines_append, inLines_cons, stringText, List.flatMap_append, List.flatMap_cons, hescape]
    simp
  rw [hdocument]
  exact read_of_control htakes hkey hs hc _

end LexicalPaths.Toml
