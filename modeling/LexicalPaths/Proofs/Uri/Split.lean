import LexicalPaths.Proofs.Text.Basic
import LexicalPaths.Proofs.Uri.Percent
import LexicalPaths.Uri.Split

/-!
# Splitting URIs

The scheme of a URI is read in lower case.  A URI that has a scheme and a path and nothing else is
split into these two.
-/

namespace LexicalPaths.Uri

/-- Neither a control character nor a space. -/
def IsVisible (t : Text) : Prop :=
  ∀ c ∈ t, 0x20 < c.toNat

instance (t : Text) : Decidable (IsVisible t) :=
  List.decidableBAll (fun c : Char => 0x20 < c.toNat) t

theorem IsVisible.append {t u : Text} (ht : IsVisible t) (hu : IsVisible u) :
    IsVisible (t ++ u) := fun c hc => (List.mem_append.mp hc).elim (ht c) (hu c)

theorem isVisible_percentEncode (t : Text) : IsVisible (percentEncode t) := fun _ hc =>
  (isEncoded_bounds (isEncoded_of_mem_percentEncode hc)).1

/-- A visible beginning is kept, and so are the spaces behind it. -/
theorem clean_append {t : Text} (ht : IsVisible t) (hne : t ≠ []) (u : Text) :
    clean (t ++ u) = t ++ u.filter fun c => c != '\t' && c != '\r' && c != '\n' := by
  have hdrop : ((t ++ u).dropWhile fun c => decide (c.toNat ≤ 0x20)) = t ++ u := by
    cases t with
    | nil => contradiction
    | cons c t => simp [Nat.not_le.mpr (ht c List.mem_cons_self)]
  unfold clean
  rw [hdrop, List.filter_append]
  congr 1
  rw [List.filter_eq_self]
  intro c hc
  have hvisible := ht c hc
  have hother : ∀ d : Char, d.toNat ≤ 0x20 → (c != d) = true := fun d hd => by
    rw [bne_iff_ne]
    rintro rfl
    omega
  rw [hother '\t' (by decide), hother '\r' (by decide), hother '\n' (by decide)]
  rfl

theorem clean_of_isVisible {t : Text} (ht : IsVisible t) : clean t = t := by
  by_cases hne : t = []
  · rw [hne]
    rfl
  · simpa using clean_append ht hne []

/-! ## The scheme -/

theorem isVisible_of_isSchemeChar {c : Char} (hc : isSchemeChar c = true) : 0x20 < c.toNat := by
  simp only [isSchemeChar, Bool.or_eq_true, beq_iff_eq] at hc
  rcases hc with ((hc | rfl) | rfl) | rfl
  · have hencoded : isEncoded c = true := by simp [isEncoded, hc]
    exact (isEncoded_bounds hencoded).1
  all_goals decide

theorem isVisible_of_isScheme {scheme : Text} (hscheme : isScheme scheme = true) :
    IsVisible scheme := by
  cases scheme with
  | nil => contradiction
  | cons c t =>
      simp only [isScheme, Bool.and_eq_true, List.all_eq_true] at hscheme
      rw [IsVisible, List.forall_mem_cons]
      refine ⟨isVisible_of_isSchemeChar ?_, fun d hd => isVisible_of_isSchemeChar (hscheme.2 d hd)⟩
      simp [isSchemeChar, Char.isAlphanum, hscheme.1]

theorem colon_notMem_of_isScheme {scheme : Text} (hscheme : isScheme scheme = true) :
    ':' ∉ scheme := by
  cases scheme with
  | nil => simp
  | cons c t =>
      simp only [isScheme, Bool.and_eq_true, List.all_eq_true] at hscheme
      intro hmem
      rcases List.mem_cons.mp hmem with rfl | hmem
      · exact absurd hscheme.1 (by decide)
      · exact absurd (hscheme.2 ':' hmem) (by decide)

theorem splitScheme_of_isScheme {scheme : Text} (hscheme : isScheme scheme = true) (rest : Text) :
    splitScheme (scheme ++ ':' :: rest) = (scheme.map Char.toLower, rest) := by
  rw [splitScheme, Text.cut?_append_cons (colon_notMem_of_isScheme hscheme)]
  simp [hscheme]

/-- The scheme of a URI is read in lower case, whatever follows it. -/
theorem scheme_of_isScheme {scheme rest : Text} {parts : Parts} (hscheme : isScheme scheme = true)
    (hsplit : split (scheme ++ ':' :: rest) = .ok parts) :
    parts.scheme = scheme.map Char.toLower := by
  have hne : scheme ≠ [] := by
    rintro rfl
    contradiction
  have hparts : parts.scheme = (splitScheme (clean (scheme ++ ':' :: rest))).1 := by
    unfold split at hsplit
    simp only [bind, Except.bind, pure, Except.pure] at hsplit
    split at hsplit
    · contradiction
    · split at hsplit
      · contradiction
      · rw [← Except.ok.inj hsplit]
  rw [hparts, clean_append (isVisible_of_isScheme hscheme) hne,
    List.filter_cons_of_pos (by decide), splitScheme_of_isScheme hscheme]

/-! ## A scheme and a path -/

theorem splitOff_of_notMem {mark : Char} {t : Text} (ht : mark ∉ t) :
    splitOff mark t = (t, []) := by
  rw [splitOff, Text.cut?_of_notMem ht]
  rfl

/-- A scheme and a path, as they stand in a URI. -/
theorem split_of_path {scheme rest path : Text} (hscheme : isScheme scheme = true)
    (hvisible : IsVisible (scheme ++ ':' :: rest)) (hauthority : splitAuthority rest = ([], path))
    (hfragment : '#' ∉ path) (hquery : '?' ∉ path) :
    split (scheme ++ ':' :: rest) = .ok ⟨scheme.map Char.toLower, [], path, [], []⟩ := by
  have hsplit := splitScheme_of_isScheme hscheme rest
  have hnone : checkBrackets [] = .ok () := rfl
  have hplain : checkCharacters [] = .ok () := rfl
  unfold split
  rw [clean_of_isVisible hvisible, hsplit]
  simp only [hauthority, hnone, hplain, splitOff_of_notMem hfragment, splitOff_of_notMem hquery]
  rfl

end LexicalPaths.Uri
