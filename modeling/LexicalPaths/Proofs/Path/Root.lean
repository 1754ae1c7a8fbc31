import LexicalPaths.Proofs.Path.Separator

/-!
# The root of a text

Every text splits into a root and a rest that does not start with a separator.  A root is a run
of separators, or a drive name with its colon and a run of separators.  The length of the root
that is read from a text depends neither on the separator style nor on what follows the root.
-/

namespace LexicalPaths

namespace Separator

/-- Nothing but separators. -/
def IsRun (t : Text) : Prop :=
  ∀ c ∈ t, isSeparator c = true

/-- A text that does not start with a separator. -/
def StartsBare (t : Text) : Prop :=
  ∀ c ∈ t.head?, isSeparator c = false

/-- The beginning of a text up to its first separator. -/
def lead (t : Text) : Text :=
  t.takeWhile fun c => !isSeparator c

/-- Whether a text ends with a separator. -/
def endsInSeparator (t : Text) : Bool :=
  t.getLast?.any isSeparator

theorem startsBare_nil : StartsBare [] := by
  simp [StartsBare]

theorem startsBare_cons {c : Char} {t : Text} :
    StartsBare (c :: t) ↔ isSeparator c = false := by
  simp [StartsBare]

theorem StartsBare.append {t : Text} (ht : StartsBare t) (hne : t ≠ []) (u : Text) :
    StartsBare (t ++ u) := by
  cases t with
  | nil => exact absurd rfl hne
  | cons c t => exact startsBare_cons.mpr (startsBare_cons.mp ht)

theorem startsBare_unify {s : Char} (hs : isSeparator s = true) (t : Text) :
    StartsBare (unify [s] t) ↔ StartsBare t := by
  cases t with
  | nil => rfl
  | cons c t =>
      rw [unify_cons hs, startsBare_cons, startsBare_cons, isSeparator_restyle hs]

theorem isRun_unify {s : Char} (hs : isSeparator s = true) (t : Text) :
    IsRun (unify [s] t) ↔ IsRun t := by
  simp [IsRun, unify_eq_map hs, isSeparator_restyle hs]

theorem endsInSeparator_unify {s : Char} (hs : isSeparator s = true) (t : Text) :
    endsInSeparator (unify [s] t) = endsInSeparator t := by
  unfold endsInSeparator
  rw [unify_eq_map hs, List.getLast?_map]
  cases t.getLast? with
  | none => rfl
  | some c => simp [isSeparator_restyle hs]

theorem endsInSeparator_append {t u : Text} (hu : u ≠ []) :
    endsInSeparator (t ++ u) = endsInSeparator u := by
  unfold endsInSeparator
  rw [List.getLast?_append]
  cases hlast : u.getLast? with
  | none => exact absurd (List.getLast?_eq_none_iff.mp hlast) hu
  | some c => rfl

theorem lead_unify {s : Char} (hs : isSeparator s = true) (t : Text) :
    lead (unify [s] t) = lead t := by
  unfold lead
  rw [unify_eq_map hs]
  induction t with
  | nil => rfl
  | cons c t ih =>
      simp only [List.map_cons, List.takeWhile_cons, isSeparator_restyle hs]
      cases hc : isSeparator c with
      | true => rfl
      | false => simp [ih, restyle_of_not hc]

theorem lead_append {t u : Text} (ht : ∀ c ∈ t, isSeparator c = false) :
    lead (t ++ u) = t ++ lead u := by
  unfold lead
  exact List.takeWhile_append_of_pos fun c hc => by simp [ht c hc]

theorem lead_cons_separator {s : Char} (hs : isSeparator s = true) (t : Text) :
    lead (s :: t) = [] := by
  simp [lead, hs]

theorem lead_append_cons {s : Char} (hs : isSeparator s = true) (t u : Text) :
    lead (t ++ s :: u) = lead t := by
  induction t with
  | nil => rw [List.nil_append, lead_cons_separator hs]; rfl
  | cons c t ih =>
      cases hc : isSeparator c with
      | true => rw [List.cons_append, lead_cons_separator hc, lead_cons_separator hc]
      | false =>
          have hcons : ∀ v, lead (c :: v) = c :: lead v := fun v => by simp [lead, hc]
          rw [List.cons_append, hcons, hcons, ih]

theorem lead_ne_nil {t : Text} (ht : StartsBare t) (hne : t ≠ []) : lead t ≠ [] := by
  cases t with
  | nil => exact absurd rfl hne
  | cons c t => simp [lead, startsBare_cons.mp ht]

end Separator

namespace Root

open Separator

/-- A drive name holds neither separators nor colons. -/
def IsDriveName (t : Text) : Prop :=
  ∀ c ∈ t, isSeparator c = false ∧ c ≠ driveColon

/-- What can be the root of a path. -/
inductive IsRoot : Text → Prop
  | run {t : Text} (ht : IsRun t) : IsRoot t
  | drive {d t : Text} (hd : IsDriveName d) (ht : IsRun t) : IsRoot (d ++ driveColon :: t)

theorem isRoot_nil : IsRoot [] :=
  .run (by simp [IsRun])

theorem exists_run (t : Text) : ∃ r n, t = r ++ n ∧ IsRun r ∧ StartsBare n := by
  refine ⟨t.takeWhile isSeparator, t.dropWhile isSeparator,
    List.takeWhile_append_dropWhile.symm, ?_, ?_⟩
  · intro c hc
    exact List.all_eq_true.mp List.all_takeWhile c hc
  · intro c hc
    have hnot := List.head?_dropWhile_not isSeparator t
    rw [Option.mem_def.mp hc] at hnot
    simpa using hnot

theorem startsBare_of_separatorRun {t : Text} (ht : separatorRun t = 0) : StartsBare t := by
  cases t with
  | nil => exact startsBare_nil
  | cons c t =>
      rw [startsBare_cons]
      cases hc : isSeparator c with
      | false => rfl
      | true => simp [separatorRun, hc] at ht

theorem separatorRun_append {r n : Text} (hr : IsRun r) (hn : StartsBare n) :
    separatorRun (r ++ n) = r.length := by
  have hstop : n.takeWhile isSeparator = [] := by
    cases n with
    | nil => rfl
    | cons c n => simp [startsBare_cons.mp hn]
  unfold separatorRun
  rw [List.takeWhile_append_of_pos hr, hstop, List.append_nil]

theorem firstColon_drive {d : Text} (hd : IsDriveName d) (t : Text) :
    firstColon (d ++ driveColon :: t) = d.length := by
  unfold firstColon
  rw [List.takeWhile_append_of_pos fun c hc => by simp [(hd c hc).2]]
  simp

theorem length_lt_firstIndex_drive {d : Text} (hd : IsDriveName d) (t : Text) :
    d.length < firstIndex (d ++ driveColon :: t) := by
  unfold firstIndex
  rw [List.takeWhile_append_of_pos fun c hc => by simp [(hd c hc).1]]
  simp

theorem length_drive {d r n : Text} (hd : IsDriveName d) (hr : IsRun r) (hn : StartsBare n) :
    length (d ++ driveColon :: r ++ n) = (d ++ driveColon :: r).length := by
  have hassoc : d ++ driveColon :: r ++ n = d ++ driveColon :: (r ++ n) := by simp
  have hdrop : (d ++ driveColon :: (r ++ n)).drop (d.length + 1) = r ++ n := by
    rw [← List.drop_drop, List.drop_left]
    rfl
  unfold length
  rw [hassoc, firstColon_drive hd, if_pos (length_lt_firstIndex_drive hd _), hdrop,
    separatorRun_append hr hn]
  simp
  omega

theorem mem_lead_iff (t : Text) : driveColon ∈ lead t ↔ firstColon t < firstIndex t := by
  unfold lead firstColon firstIndex
  induction t with
  | nil => simp
  | cons c t ih =>
      by_cases hcolon : c = driveColon
      · subst hcolon
        simp
      · cases hc : isSeparator c with
        | true => simp [hc]
        | false => simp [hc, hcolon, ih, Ne.symm hcolon]

theorem length_of_not_mem_lead {t : Text} (ht : driveColon ∉ lead t) :
    length t = separatorRun t := by
  unfold length
  rw [if_neg fun hlt => ht ((mem_lead_iff t).mpr hlt)]

theorem lead_eq_nil_of_isRun {r : Text} (hr : IsRun r) (hne : r ≠ []) (n : Text) :
    lead (r ++ n) = [] := by
  cases r with
  | nil => exact absurd rfl hne
  | cons s r => exact lead_cons_separator (hr s (by simp)) _

/-- What follows a root has no part in it, unless it goes on with separators. -/
theorem length_append {r n : Text} (hr : IsRoot r) (hne : r ≠ []) (hn : StartsBare n) :
    length (r ++ n) = r.length := by
  cases hr with
  | run hrun =>
      rw [length_of_not_mem_lead (by simp [lead_eq_nil_of_isRun hrun hne]),
        separatorRun_append hrun hn]
  | drive hd hrun => exact length_drive hd hrun hn

theorem IsRoot.append {r t : Text} (hr : IsRoot r) (ht : IsRun t) : IsRoot (r ++ t) := by
  have hjoin : ∀ {u : Text}, IsRun u → IsRun (u ++ t) := by
    intro u hu c hc
    exact (List.mem_append.mp hc).elim (hu c) (ht c)
  cases hr with
  | run hrun => exact .run (hjoin hrun)
  | drive hd hrun =>
      rw [List.append_assoc]
      exact .drive hd (hjoin hrun)

/-- Separators behind a root are read as part of it. -/
theorem length_append_eq {r : Text} (hr : IsRoot r) (hne : r ≠ []) (n : Text) :
    length (r ++ n) = r.length + separatorRun n := by
  obtain ⟨a, m, rfl, ha, hm⟩ := exists_run n
  rw [← List.append_assoc, length_append (hr.append ha) (by simp [hne]) hm,
    separatorRun_append ha hm, List.length_append]

/-- A text has no root if it starts with a name that holds no colon. -/
theorem length_eq_zero {n : Text} (hn : StartsBare n) (hlead : driveColon ∉ lead n) :
    length n = 0 := by
  rw [length_of_not_mem_lead hlead]
  exact separatorRun_append (r := []) (by simp [IsRun]) hn

/-- A root is found again in front of names that cannot be taken for a part of it. -/
theorem length_of_split {r n : Text} (hr : IsRoot r) (hn : StartsBare n)
    (hlead : r = [] → driveColon ∉ lead n) : length (r ++ n) = r.length := by
  by_cases hnil : r = []
  · subst hnil
    exact length_eq_zero hn (hlead rfl)
  · exact length_append hr hnil hn

theorem exists_drive {t : Text} (ht : driveColon ∈ lead t) :
    ∃ d u, t = d ++ driveColon :: u ∧ IsDriveName d := by
  induction t with
  | nil => simp [lead] at ht
  | cons c t ih =>
      by_cases hcolon : c = driveColon
      · exact ⟨[], t, by simp [hcolon], by simp [IsDriveName]⟩
      · cases hc : isSeparator c with
        | true => simp [lead_cons_separator hc] at ht
        | false =>
            have hmem : driveColon ∈ lead t := by
              have hlead : lead (c :: t) = c :: lead t := by simp [lead, hc]
              rw [hlead] at ht
              exact (List.mem_cons.mp ht).resolve_left (Ne.symm hcolon)
            obtain ⟨d, u, rfl, hd⟩ := ih hmem
            refine ⟨c :: d, u, rfl, ?_⟩
            intro x hx
            rcases List.mem_cons.mp hx with rfl | hx
            · exact ⟨hc, hcolon⟩
            · exact hd x hx

/-- Every text splits at the end of its root. -/
theorem exists_split (t : Text) :
    ∃ r n, t = r ++ n ∧ IsRoot r ∧ StartsBare n ∧ length t = r.length ∧
      (r = [] → driveColon ∉ lead n) := by
  by_cases hdrive : driveColon ∈ lead t
  · obtain ⟨d, u, rfl, hd⟩ := exists_drive hdrive
    obtain ⟨r, n, rfl, hr, hn⟩ := exists_run u
    refine ⟨d ++ driveColon :: r, n, by simp, .drive hd hr, hn, ?_, by simp⟩
    rw [← length_drive hd hr hn]
    simp
  · obtain ⟨r, n, rfl, hr, hn⟩ := exists_run t
    refine ⟨r, n, rfl, .run hr, hn, ?_, ?_⟩
    · rw [length_of_not_mem_lead hdrive, separatorRun_append hr hn]
    · intro hnil
      simpa [hnil] using hdrive

theorem length_le (t : Text) : length t ≤ t.length := by
  obtain ⟨r, n, rfl, -, -, hlen, -⟩ := exists_split t
  simp [hlen]

theorem isRoot_take_length (t : Text) : IsRoot (t.take (length t)) := by
  obtain ⟨r, n, rfl, hr, -, hlen, -⟩ := exists_split t
  rwa [hlen, List.take_left]

theorem startsBare_drop_length (t : Text) : StartsBare (t.drop (length t)) := by
  obtain ⟨r, n, rfl, -, hn, hlen, -⟩ := exists_split t
  rwa [hlen, List.drop_left]

theorem not_mem_lead_of_length_eq_zero {t : Text} (ht : length t = 0) :
    driveColon ∉ lead t := by
  obtain ⟨r, n, rfl, -, -, hlen, hnil⟩ := exists_split t
  have hr : r = [] := List.length_eq_zero_iff.mp (hlen.symm.trans ht)
  subst hr
  exact hnil rfl

/-- A colon before the first separator belongs to the root. -/
theorem mem_take_length_of_mem_lead {t : Text} (ht : driveColon ∈ lead t) :
    driveColon ∈ t.take (length t) := by
  obtain ⟨r, n, rfl, hr, -, hlen, hnil⟩ := exists_split t
  rw [hlen, List.take_left]
  cases hr with
  | run hrun =>
      by_cases hne : r = []
      · subst hne
        exact absurd ht (hnil rfl)
      · rw [lead_eq_nil_of_isRun hrun hne] at ht
        contradiction
  | drive => simp

theorem IsRoot.isRun {r : Text} (hr : IsRoot r) (hcolon : driveColon ∉ r) : IsRun r := by
  cases hr with
  | run hrun => exact hrun
  | drive => simp at hcolon

theorem driveColon_notMem_of_isRun {r : Text} (hr : IsRun r) : driveColon ∉ r :=
  fun hmem => ne_driveColon_of_isSeparator (hr _ hmem) rfl

theorem isDriveName_unify {s : Char} (hs : isSeparator s = true) {d : Text}
    (hd : IsDriveName d) : unify [s] d = d :=
  unify_of_forall_not hs fun c hc => (hd c hc).1

theorem unify_drive {s : Char} (hs : isSeparator s = true) {d : Text} (hd : IsDriveName d)
    (t : Text) : unify [s] (d ++ driveColon :: t) = d ++ driveColon :: unify [s] t := by
  rw [unify_append hs, unify_cons hs, isDriveName_unify hs hd]
  rfl

theorem isRoot_unify {s : Char} (hs : isSeparator s = true) {r : Text} (hr : IsRoot r) :
    IsRoot (unify [s] r) := by
  cases hr with
  | run hrun => exact .run ((isRun_unify hs r).mpr hrun)
  | drive hd hrun =>
      rw [unify_drive hs hd]
      exact .drive hd ((isRun_unify hs _).mpr hrun)

/-- What is left of a root, when it is cut at its beginning, is a root. -/
theorem IsRoot.drop {r : Text} (hr : IsRoot r) (n : Nat) : IsRoot (r.drop n) := by
  cases hr with
  | run hrun => exact .run fun c hc => hrun c (List.mem_of_mem_drop hc)
  | @drive d t hd hrun =>
      rw [List.drop_append]
      cases hskip : n - d.length with
      | zero => exact .drive (fun c hc => hd c (List.mem_of_mem_drop hc)) hrun
      | succ k =>
          have hnil : d.drop n = [] := List.drop_eq_nil_of_le (by omega)
          rw [hnil, List.nil_append, List.drop_succ_cons]
          exact .run fun c hc => hrun c (List.mem_of_mem_drop hc)

theorem takeWhile_reverse_append {r : Text} (hr : IsRun r) (t : Text) :
    (r.reverse ++ t).takeWhile (· != driveColon) = r.reverse ++ t.takeWhile (· != driveColon) :=
  List.takeWhile_append_of_pos fun c hc => by
    simpa using ne_driveColon_of_isSeparator (hr c (List.mem_reverse.mp hc))

theorem afterDrive_of_isRun {r : Text} (hr : IsRun r) : afterDrive r = 0 := by
  have htake := takeWhile_reverse_append hr []
  simp only [List.append_nil, List.takeWhile_nil] at htake
  simp [afterDrive, htake]

theorem afterDrive_drive {d r : Text} (hr : IsRun r) :
    afterDrive (d ++ driveColon :: r) = d.length + 1 := by
  have htake : (d ++ driveColon :: r).reverse.takeWhile (· != driveColon) = r.reverse := by
    have hreverse : (d ++ driveColon :: r).reverse = r.reverse ++ driveColon :: d.reverse := by
      simp
    rw [hreverse, takeWhile_reverse_append hr]
    simp
  rw [afterDrive, htake]
  simp
  omega

theorem take_afterDrive (d : Text) {r : Text} (hr : IsRun r) :
    (d ++ driveColon :: r).take (afterDrive (d ++ driveColon :: r)) = d ++ [driveColon] := by
  have hlast : d.length + 1 = (d ++ [driveColon]).length := by simp
  rw [afterDrive_drive hr, List.append_cons, hlast, List.take_left]

theorem IsRoot.exists_drive {r : Text} (hr : IsRoot r) (hpos : 0 < afterDrive r) :
    ∃ d u, r = d ++ driveColon :: u ∧ IsDriveName d ∧ IsRun u := by
  cases hr with
  | run hrun =>
      rw [afterDrive_of_isRun hrun] at hpos
      contradiction
  | drive hd hrun => exact ⟨_, _, rfl, hd, hrun⟩

/-- The separator style has no influence on the length of the root. -/
theorem length_unify {s : Char} (hs : isSeparator s = true) (t : Text) :
    length (unify [s] t) = length t := by
  obtain ⟨r, n, rfl, hr, hn, hlen, hnil⟩ := exists_split t
  have hbare : StartsBare (unify [s] n) := (startsBare_unify hs n).mpr hn
  have hlead : unify [s] r = [] → driveColon ∉ lead (unify [s] n) := by
    rw [unify_eq_nil_iff hs, lead_unify hs]
    exact hnil
  rw [hlen, unify_append hs, length_of_split (isRoot_unify hs hr) hbare hlead,
    Separator.length_unify hs]

/-! ## Keys -/

theorem upper_append (t u : Text) : Text.upper (t ++ u) = Text.upper t ++ Text.upper u :=
  List.flatMap_append

theorem upperChar_of_isSeparator {c : Char} (hc : isSeparator c = true) :
    Text.upperChar c = [c] := by
  rcases isSeparator_iff.mp hc with rfl | rfl <;> decide

theorem upper_singleton_driveColon : Text.upper [driveColon] = [driveColon] := by
  decide

theorem key_unify {s : Char} (hs : isSeparator s = true) (t : Text) :
    key (unify [s] t) = key t := by
  unfold key
  rw [unify_unify hs isSeparator_portable]

theorem key_eq (t : Text) :
    key t = Text.upper ((unify [portable] t).take (afterDrive (unify [portable] t))) ++
      (unify [portable] t).drop (afterDrive (unify [portable] t)) := rfl

theorem key_of_isRun {r : Text} (hr : IsRun r) : key r = unify [portable] r := by
  rw [key_eq, afterDrive_of_isRun ((isRun_unify isSeparator_portable r).mpr hr)]
  rfl

theorem key_drive {d r : Text} (hd : IsDriveName d) (hr : IsRun r) :
    key (d ++ driveColon :: r) = Text.upper d ++ driveColon :: unify [portable] r := by
  have hlast : d.length + 1 = (d ++ [driveColon]).length := by simp
  rw [key_eq, unify_drive isSeparator_portable hd,
    afterDrive_drive ((isRun_unify isSeparator_portable r).mpr hr), List.append_cons, hlast,
    List.take_left, List.drop_left, upper_append, upper_singleton_driveColon, List.append_assoc]
  rfl

theorem endsInSeparator_drive (d r : Text) :
    endsInSeparator (d ++ driveColon :: r) = endsInSeparator r := by
  rw [endsInSeparator_append (by simp)]
  cases r with
  | nil => rfl
  | cons c r => rw [← List.singleton_append, endsInSeparator_append (by simp)]

/-- The key of a root tells whether it is the root of an absolute path. -/
theorem endsInSeparator_key {r : Text} (hr : IsRoot r) :
    endsInSeparator (key r) = endsInSeparator r := by
  cases hr with
  | run hrun => rw [key_of_isRun hrun, endsInSeparator_unify isSeparator_portable]
  | drive hd hrun =>
      rw [key_drive hd hrun, endsInSeparator_drive, endsInSeparator_drive,
        endsInSeparator_unify isSeparator_portable]

/-- The key of a root tells whether it names a drive. -/
theorem isRun_of_key_eq {r t : Text} (hr : IsRun r) (ht : IsRoot t) (hkey : key r = key t) :
    IsRun t ∧ r.length = t.length := by
  have hrun := (isRun_unify isSeparator_portable r).mpr hr
  rw [key_of_isRun hr] at hkey
  cases ht with
  | run ht =>
      rw [key_of_isRun ht] at hkey
      have hlen := congrArg List.length hkey
      rw [Separator.length_unify isSeparator_portable, Separator.length_unify isSeparator_portable]
        at hlen
      exact ⟨ht, hlen⟩
  | drive hd ht =>
      rw [key_drive hd ht] at hkey
      exact absurd (by simp [hkey]) (driveColon_notMem_of_isRun hrun)

theorem key_eq_nil_iff {r : Text} (hr : IsRoot r) : key r = [] ↔ r = [] := by
  cases hr with
  | run hrun => rw [key_of_isRun hrun, unify_eq_nil_iff isSeparator_portable]
  | drive hd hrun => simp [key_drive hd hrun]

end Root

end LexicalPaths
