import LexicalPaths.Path.Order
import Mathlib.Data.Finset.Card

/-!
# Order, equality and hashes

Paths are compared by three texts, so the order is total up to equality, and equality may look at
hashes first.  What lists of paths are asked for, their order, their ends and how many of them
differ, depends on these texts alone and not on the places of the paths in the list.
-/

namespace LexicalPaths

theorem Text.order_eq_compare (s t : Text) : Text.order s t = compare s t := by
  induction s generalizing t with
  | nil => cases t <;> rfl
  | cons a s ih =>
      cases t with
      | nil => rfl
      | cons b t =>
          rw [List.compare_cons_cons, ← ih t, Text.order]
          rcases Nat.lt_trichotomy a.toNat b.toNat with hlt | heq | hgt
          · have hchar : compare a b = .lt := compareOfLessAndEq_eq_lt.mpr hlt
            rw [if_pos hlt, hchar]
            rfl
          · obtain rfl := Char.toNat_inj.mp heq
            simp
          · have hchar : compare a b = .gt :=
              Std.OrientedCmp.gt_of_lt (compareOfLessAndEq_eq_lt.mpr hgt)
            rw [if_neg hgt.not_gt, if_pos hgt, hchar]
            rfl

namespace Path

/-- The texts that a path is compared by. -/
def texts (p : Path) : Text × Text × Text :=
  (p.uri, p.rootText, p.namesText)

/-! ## Two paths -/

def compareTexts : Text × Text × Text → Text × Text × Text → Ordering :=
  compareLex (compareOn Prod.fst) (compareLex (compareOn (·.2.1)) (compareOn (·.2.2)))

instance : Std.TransCmp compareTexts :=
  inferInstanceAs (Std.TransCmp (compareLex _ (compareLex _ _)))

instance : Std.LawfulEqCmp compareTexts where
  compare_self := Std.ReflCmp.compare_self
  eq_of_compare {a b} heq := by
    obtain ⟨a₁, a₂, a₃⟩ := a
    obtain ⟨b₁, b₂, b₃⟩ := b
    simpa [compareTexts, compareLex, compareOn] using heq

theorem order_eq_compareTexts (p q : Path) : p.order q = compareTexts p.texts q.texts := by
  simp only [order, Text.order_eq_compare]
  rfl

instance : Std.TransCmp Path.order where
  eq_swap {p q} := by
    rw [order_eq_compareTexts, order_eq_compareTexts]
    exact Std.OrientedCmp.eq_swap
  isLE_trans {p q r} hpq hqr := by
    rw [order_eq_compareTexts] at hpq hqr ⊢
    exact Std.TransCmp.isLE_trans hpq hqr

theorem order_eq_eq_iff {p q : Path} : p.order q = .eq ↔ p.texts = q.texts := by
  rw [order_eq_compareTexts, Std.LawfulEqCmp.compare_eq_iff_eq]

theorem beq_iff_texts {p q : Path} : (p == q) = true ↔ p.texts = q.texts := by
  change p.same q = true ↔ _
  simp [same, texts, and_assoc]

instance : EquivBEq Path where
  rfl := beq_iff_texts.mpr rfl
  symm hpq := beq_iff_texts.mpr (beq_iff_texts.mp hpq).symm
  trans hpq hqr := beq_iff_texts.mpr ((beq_iff_texts.mp hpq).trans (beq_iff_texts.mp hqr))

/-! ### Hashes -/

/-- Equality that asks for a hash of the texts before the texts. -/
def equalByHash (mix : Text × Text × Text → UInt64) (p q : Path) : Bool :=
  mix p.texts == mix q.texts && p.same q

theorem equalByHash_eq (mix : Text × Text × Text → UInt64) (p q : Path) :
    equalByHash mix p q = (p == q) := by
  change (mix p.texts == mix q.texts && p == q) = (p == q)
  cases heq : p == q with
  | false => rw [Bool.and_false]
  | true => rw [beq_iff_texts.mp heq, beq_self_eq_true, Bool.true_and]

/-- Paths with a hash of their texts. -/
abbrev hashableBy (mix : Text × Text × Text → UInt64) : Hashable Path :=
  ⟨fun p => mix p.texts⟩

instance lawfulHashable_hashableBy (mix : Text × Text × Text → UInt64) :
    @LawfulHashable Path _ (hashableBy mix) :=
  @LawfulHashable.mk _ _ (hashableBy mix) fun _ _ heq => congrArg mix (beq_iff_texts.mp heq)

instance : LawfulHashable Path :=
  lawfulHashable_hashableBy fun (uri, root, names) =>
    mixHash (textHash uri) (mixHash (textHash root) (textHash names))

/-! ## Lists of paths -/

theorem not_gt_eq_isLE (o : Ordering) : (o != .gt) = o.isLE := by
  cases o <;> rfl

theorem sorted_perm (paths : List Path) : (sorted paths).Perm paths :=
  List.mergeSort_perm _ _

theorem pairwise_sorted (paths : List Path) :
    (sorted paths).Pairwise fun p q => (p.order q).isLE = true := by
  have hsorted := @List.pairwise_mergeSort Path (fun p q => (p.order q).isLE)
    (fun _ _ _ => Std.TransCmp.isLE_trans)
    (fun p q => by
      rw [Bool.or_eq_true, ← Std.OrientedCmp.isGE_iff_isLE (a := p)]
      cases p.order q <;> simp) paths
  simpa only [sorted, not_gt_eq_isLE] using hsorted

theorem texts_sorted_of_perm {paths others : List Path} (hperm : others.Perm paths) :
    (sorted others).map texts = (sorted paths).map texts := by
  have hpairwise : ∀ l : List Path,
      ((sorted l).map texts).Pairwise fun a b => (compareTexts a b).isLE = true := by
    intro l
    rw [List.pairwise_map]
    simpa only [order_eq_compareTexts] using pairwise_sorted l
  -- Equal paths can have different separators, so the lists themselves need not be one.
  have hsame : (sorted others).Perm (sorted paths) :=
    ((sorted_perm others).trans hperm).trans (sorted_perm paths).symm
  refine List.Perm.eq_of_pairwise ?_ (hpairwise others) (hpairwise paths) (hsame.map texts)
  intro a b _ _ hab hba
  exact Std.LawfulEqCmp.eq_of_compare (Std.OrientedCmp.isLE_antisymm hab hba)

/-! ### The ends -/

theorem isLE_head_of_sorted {paths : List Path} {p : Path} (hhead : (sorted paths).head? = some p) :
    ∀ q ∈ paths, (p.order q).isLE = true := by
  obtain ⟨rest, hcons⟩ := List.head?_eq_some_iff.mp hhead
  have hpairwise := pairwise_sorted paths
  rw [hcons, List.pairwise_cons] at hpairwise
  intro q hq
  rw [← (sorted_perm paths).mem_iff, hcons] at hq
  rcases List.mem_cons.mp hq with rfl | hq
  · simp [Std.ReflCmp.compare_self]
  · exact hpairwise.1 q hq

theorem isLE_getLast_of_sorted {paths : List Path} {p : Path}
    (hlast : (sorted paths).getLast? = some p) : ∀ q ∈ paths, (q.order p).isLE = true := by
  obtain ⟨front, hconcat⟩ := List.getLast?_eq_some_iff.mp hlast
  have hpairwise := pairwise_sorted paths
  rw [hconcat, List.pairwise_append] at hpairwise
  intro q hq
  rw [← (sorted_perm paths).mem_iff, hconcat] at hq
  rcases List.mem_append.mp hq with hq | hq
  · exact hpairwise.2.2 q hq p (List.mem_singleton_self p)
  · obtain rfl := List.mem_singleton.mp hq
    simp [Std.ReflCmp.compare_self]

theorem less_eq_false_iff {p q : Path} :
    Relation.less.admits (p.order q) = false ↔ (q.order p).isLE = true := by
  have hswap : p.order q = (q.order p).swap := Std.OrientedCmp.eq_swap
  rw [hswap]
  cases q.order p <;> simp [Relation.admits]

theorem greater_eq_false_iff {p q : Path} :
    Relation.greater.admits (p.order q) = false ↔ (p.order q).isLE = true := by
  cases p.order q <;> simp [Relation.admits]

section

variable {relation : Relation} (hstrict : relation = .less ∨ relation = .greater)
include hstrict

theorem admits_asymm {p q : Path} (hpq : relation.admits (p.order q) = true) :
    relation.admits (q.order p) = false := by
  rcases hstrict with rfl | rfl
  · have hlt : p.order q = .lt := by simpa [Relation.admits] using hpq
    rw [less_eq_false_iff, hlt]
    rfl
  · have hgt : p.order q = .gt := by simpa [Relation.admits] using hpq
    rw [greater_eq_false_iff, Std.OrientedCmp.lt_of_gt hgt]
    rfl

theorem not_admits_trans {p q r : Path} (hpq : relation.admits (p.order q) = false)
    (hqr : relation.admits (q.order r) = false) : relation.admits (p.order r) = false := by
  rcases hstrict with rfl | rfl
  · rw [less_eq_false_iff] at hpq hqr ⊢
    exact Std.TransCmp.isLE_trans hqr hpq
  · rw [greater_eq_false_iff] at hpq hqr ⊢
    exact Std.TransCmp.isLE_trans hpq hqr

theorem not_admits_self (p : Path) : relation.admits (p.order p) = false := by
  have hself : p.order p = .eq := Std.ReflCmp.compare_self
  rw [hself]
  rcases hstrict with rfl | rfl <;> rfl

/-- No path stands in the relation to the one that is kept of a first one and those behind it. -/
theorem not_admits_foldl (p : Path) (rest : List Path) :
    let kept := rest.foldl (fun kept q => if relation.admits (q.order kept) then q else kept) p
    kept ∈ p :: rest ∧ ∀ q ∈ p :: rest, relation.admits (q.order kept) = false := by
  induction rest generalizing p with
  | nil => simp [not_admits_self hstrict]
  | cons q rest ih =>
      rw [List.foldl_cons]
      split
      next hq =>
        obtain ⟨hmem, hkept⟩ := ih q
        refine ⟨List.mem_cons_of_mem p hmem, List.forall_mem_cons.mpr ⟨?_, hkept⟩⟩
        exact not_admits_trans hstrict (admits_asymm hstrict hq) (hkept q List.mem_cons_self)
      next hq =>
        obtain ⟨hmem, hkept⟩ := ih p
        obtain ⟨hp, hrest⟩ := List.forall_mem_cons.mp hkept
        refine ⟨?_, List.forall_mem_cons.mpr ⟨hp, List.forall_mem_cons.mpr ⟨?_, hrest⟩⟩⟩
        · rcases List.mem_cons.mp hmem with heq | hmem
          · rw [heq]
            exact List.mem_cons_self
          · exact List.mem_cons_of_mem p (List.mem_cons_of_mem q hmem)
        · exact not_admits_trans hstrict (by simpa using hq) hp

theorem not_admits_extreme? {paths : List Path} {kept : Path}
    (hkept : extreme? relation paths = some kept) :
    kept ∈ paths ∧ ∀ q ∈ paths, relation.admits (q.order kept) = false := by
  cases paths with
  | nil => contradiction
  | cons p rest =>
      obtain rfl := Option.some.inj hkept
      exact not_admits_foldl hstrict p rest

theorem texts_eq_of_not_admits {p q : Path} (hpq : relation.admits (p.order q) = false)
    (hqp : relation.admits (q.order p) = false) : p.texts = q.texts := by
  apply order_eq_eq_iff.mp
  rcases hstrict with rfl | rfl
  · exact Std.OrientedCmp.isLE_antisymm (less_eq_false_iff.mp hqp) (less_eq_false_iff.mp hpq)
  · exact Std.OrientedCmp.isLE_antisymm (greater_eq_false_iff.mp hpq)
      (greater_eq_false_iff.mp hqp)

/-- The path that is kept has the texts of any other one to which none stands in the relation. -/
theorem texts_extreme? {paths : List Path} {end? : Option Path}
    (hnone : end? = none → paths = [])
    (hsome : ∀ p, end? = some p → p ∈ paths ∧ ∀ q ∈ paths, relation.admits (q.order p) = false) :
    (extreme? relation paths).map texts = end?.map texts := by
  cases hkept : extreme? relation paths with
  | none =>
      cases hend : end? with
      | none => rfl
      | some p =>
          obtain ⟨hmem, -⟩ := hsome p hend
          cases paths with
          | nil => contradiction
          | cons q rest => contradiction
  | some kept =>
      obtain ⟨hmem, hall⟩ := not_admits_extreme? hstrict hkept
      cases hend : end? with
      | none =>
          rw [hnone hend] at hmem
          contradiction
      | some p =>
          obtain ⟨hp, hallp⟩ := hsome p hend
          exact congrArg some (texts_eq_of_not_admits hstrict (hallp kept hmem) (hall p hp))

end

theorem eq_nil_of_sorted {paths : List Path} (hnil : sorted paths = []) : paths = [] :=
  (hnil ▸ sorted_perm paths).nil_eq.symm

theorem texts_least? (paths : List Path) :
    (least? paths).map texts = (sorted paths).head?.map texts :=
  texts_extreme? (.inl rfl) (fun hnone => eq_nil_of_sorted (List.head?_eq_none_iff.mp hnone))
    fun _ hp => ⟨(sorted_perm paths).mem_iff.mp (List.mem_of_head? hp),
      fun q hq => less_eq_false_iff.mpr (isLE_head_of_sorted hp q hq)⟩

theorem texts_greatest? (paths : List Path) :
    (greatest? paths).map texts = (sorted paths).getLast?.map texts :=
  texts_extreme? (.inr rfl) (fun hnone => eq_nil_of_sorted (List.getLast?_eq_none_iff.mp hnone))
    fun _ hp => ⟨(sorted_perm paths).mem_iff.mp (List.mem_of_getLast? hp),
      fun q hq => greater_eq_false_iff.mpr (isLE_getLast_of_sorted hp q hq)⟩

/-! ### How many differ -/

theorem toFinset_filter (p : Path) (rest : List Path) :
    ((rest.filter fun q => !q == p).map texts).toFinset =
      (rest.map texts).toFinset.erase p.texts := by
  ext t
  simp only [List.mem_toFinset, List.mem_map, List.mem_filter, Finset.mem_erase,
    Bool.not_eq_true', Bool.eq_false_iff, Ne, beq_iff_texts]
  constructor
  · rintro ⟨q, ⟨hq, hne⟩, rfl⟩
    exact ⟨hne, q, hq, rfl⟩
  · rintro ⟨hne, q, hq, rfl⟩
    exact ⟨q, ⟨hq, hne⟩, rfl⟩

theorem length_distinct (paths : List Path) :
    (distinct paths).length = (paths.map texts).toFinset.card := by
  unfold distinct
  induction hlength : paths.length using Nat.strong_induction_on generalizing paths with
  | _ count ih =>
      cases paths with
      | nil => rfl
      | cons p rest =>
          have hless : (rest.filter fun q => !q == p).length < count := by
            rw [← hlength, List.length_cons]
            exact Nat.lt_succ_of_le (List.length_filter_le _ rest)
          rw [List.eraseDups_cons, List.length_cons, ih _ hless _ rfl, toFinset_filter,
            List.map_cons, List.toFinset_cons,
            ← Finset.card_erase_add_one (Finset.mem_insert_self p.texts _),
            Finset.erase_insert_eq_erase]

/-- A set that finds its members by their hashes keeps as many of the paths as differ. -/
theorem size_ofList_hashableBy (mix : Text × Text × Text → UInt64) (paths : List Path) :
    (@Std.HashSet.ofList Path _ (hashableBy mix) paths).size = (paths.map texts).toFinset.card := by
  let _ := hashableBy mix
  induction paths using List.reverseRecOn with
  | nil => rfl
  | append_singleton paths p ih =>
      have hmem : p ∈ Std.HashSet.ofList paths ↔ p.texts ∈ (paths.map texts).toFinset := by
        rw [Std.HashSet.mem_ofList, List.contains_iff_exists_mem_beq, List.mem_toFinset,
          List.mem_map]
        refine exists_congr fun q => and_congr_right fun _ => ?_
        rw [beq_iff_texts, eq_comm]
      have hinsert : Std.HashSet.ofList (paths ++ [p]) = (Std.HashSet.ofList paths).insert p := by
        simp only [Std.HashSet.ofList_eq_insertMany_empty, Std.HashSet.insertMany_append,
          Std.HashSet.insertMany_list_singleton]
      have htexts : ((paths ++ [p]).map texts).toFinset =
          insert p.texts (paths.map texts).toFinset := by
        ext t
        simp [eq_comm]
      rw [hinsert, htexts, Std.HashSet.size_insert]
      split
      next hold => rw [ih, Finset.insert_eq_of_mem (hmem.mp hold)]
      next hnew => rw [ih, Finset.card_insert_of_notMem (hmem.not.mp hnew)]

/-! ## Together -/

/-- The ways in which `p` is compared with other paths agree, whatever hash of the texts it is that
equality asks for first. -/
structure Comparison (mix : Text × Text × Text → UInt64) (p q : Path) : Prop where
  order_swap : q.order p = (p.order q).swap
  order_trans : ∀ r, (p.order q).isLE = true → (q.order r).isLE = true → (p.order r).isLE = true
  beq_iff_order : (p == q) = true ↔ p.order q = .eq
  beq_iff_texts : (p == q) = true ↔ p.texts = q.texts
  equalByHash_eq : equalByHash mix p q = (p == q)
  hash_eq : (p == q) = true → hash p = hash q
  less : p.related .less (.path q) = .ok true ↔ p.order q = .lt
  atMost : p.related .atMost (.path q) = .ok true ↔ p.order q = .lt ∨ (p == q) = true
  greater : p.related .greater (.path q) = .ok true ↔ q.order p = .lt
  atLeast : p.related .atLeast (.path q) = .ok true ↔ q.order p = .lt ∨ (p == q) = true
  bne : (p != q) = true ↔ p.order q = .lt ∨ q.order p = .lt

/-- What a list of paths is asked for does not depend on the order in which it holds them. -/
structure Arrangement (mix : Text × Text × Text → UInt64) (paths others : List Path) : Prop where
  perm : (sorted paths).Perm paths
  ascending : (sorted paths).Pairwise fun p q => (p.order q).isLE = true
  sorted_eq : (sorted others).map texts = (sorted paths).map texts
  least : (least? paths).map texts = (sorted paths).head?.map texts
  greatest : (greatest? paths).map texts = (sorted paths).getLast?.map texts
  length_distinct : (distinct paths).length = (paths.map texts).toFinset.card
  size_set : (@Std.HashSet.ofList Path _ (hashableBy mix) paths).size =
    (paths.map texts).toFinset.card

theorem comparison (mix : Text × Text × Text → UInt64) (p q : Path) : Comparison mix p q := by
  have hswap : q.order p = (p.order q).swap := Std.OrientedCmp.eq_swap
  have hbeq : (p == q) = true ↔ p.order q = .eq := beq_iff_texts.trans order_eq_eq_iff.symm
  have hbne : (p != q) = true ↔ p.order q ≠ .eq := by
    rw [Ne, ← hbeq]
    simp [bne]
  constructor
  case order_swap => exact hswap
  case order_trans => exact fun r => Std.TransCmp.isLE_trans
  case beq_iff_order => exact hbeq
  case beq_iff_texts => exact beq_iff_texts
  case equalByHash_eq => exact equalByHash_eq mix p q
  case hash_eq => exact fun heq => LawfulHashable.hash_eq p q heq
  case bne =>
    rw [hbne, hswap]
    cases p.order q <;> simp
  case less | atMost | greater | atLeast =>
    simp only [hbeq, hswap, related]
    cases p.order q <;> simp [Relation.admits]

/-- Order, equality and hashes of paths agree, and so do the answers for lists that hold the same
paths. -/
theorem comparisons_agree (mix : Text × Text × Text → UInt64) {paths others : List Path}
    (hperm : others.Perm paths) :
    (∀ p q, Comparison mix p q) ∧ Arrangement mix paths others := by
  refine ⟨comparison mix, ?_⟩
  constructor
  case perm => exact sorted_perm paths
  case ascending => exact pairwise_sorted paths
  case sorted_eq => exact texts_sorted_of_perm hperm
  case least => exact texts_least? paths
  case greatest => exact texts_greatest? paths
  case length_distinct => exact Path.length_distinct paths
  case size_set => exact size_ofList_hashableBy mix paths

/-- A name that was found below a drive equals the same name on its own, although their separators
differ and every path has the same hash. -/
theorem comparisons_agree_of_separators :
    let found := (parse localUri "D:\\a".toList).fileName
    let alone := parse localUri "a".toList
    found.separator ≠ alone.separator ∧ (found == alone) = true ∧
      [found, alone].Perm [alone, found] ∧
      Arrangement (fun _ => 0) [alone, found] [found, alone] := by
  intro found alone
  have hperm : [found, alone].Perm [alone, found] := .swap _ _ _
  obtain ⟨hcomparison, harrangement⟩ := comparisons_agree (fun _ => 0) hperm
  exact ⟨by decide, (hcomparison found alone).beq_iff_texts.mpr (by decide), hperm, harrangement⟩

end Path

end LexicalPaths
