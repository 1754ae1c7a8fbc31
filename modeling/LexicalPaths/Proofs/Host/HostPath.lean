import LexicalPaths.Host.HostPath
import LexicalPaths.Proofs.Text.Basic

/-!
# Paths of the host as texts

What a text says of slashes and names, the text of the path says again.
-/

namespace LexicalPaths.HostPath

/-- The path is one that a text names. -/
structure IsRead (p : HostPath) : Prop where
  slashes : p.slashes ≤ 2
  isName : ∀ n ∈ p.names, isName n = true
  slash : ∀ n ∈ p.names, '/' ∉ n

theorem isRead_ofText (t : Text) : (ofText t).IsRead where
  slashes := by
    show rootSlashes t ≤ 2
    unfold rootSlashes
    split <;> omega
  isName := fun n hn => (List.mem_filter.mp hn).2
  slash := fun n hn => Text.notMem_of_mem_splitAt (List.mem_filter.mp hn).1

theorem rootSlashes_replicate_append {count : Nat} (hcount : count ≤ 2) {u : Text}
    (hu : u.head? ≠ some '/') : rootSlashes (List.replicate count '/' ++ u) = count := by
  have hrest : u.takeWhile (· == '/') = [] := by
    cases u with
    | nil => rfl
    | cons c u => exact List.takeWhile_cons_of_neg (by simpa using hu)
  have hslashes : (List.replicate count '/' ++ u).takeWhile (· == '/') =
      List.replicate count '/' := by
    rw [List.takeWhile_append_of_pos (by simp), hrest, List.append_nil]
  rw [rootSlashes, hslashes, List.length_replicate]
  match count with
  | 0 | 1 | 2 => rfl
  | _ + 3 => omega

namespace IsRead

variable {p : HostPath} (hp : p.IsRead)
include hp

theorem head?_joinWith : (Text.joinWith ['/'] p.names).head? ≠ some '/' := by
  rcases hnames : p.names with _ | ⟨n, names⟩
  · simp [Text.joinWith]
  · have hmem : n ∈ p.names := hnames ▸ List.mem_cons_self
    have hslash := hp.slash n hmem
    have hname := hp.isName n hmem
    cases n with
    | nil => contradiction
    | cons c n =>
        have hc : c ≠ '/' := fun heq => hslash (heq ▸ List.mem_cons_self)
        cases names <;> simpa [Text.joinWith] using hc

/-- The path is read from its text. -/
theorem ofText_toText : ofText p.toText = p := by
  have hfilter : p.names.filter HostPath.isName = p.names := List.filter_eq_self.mpr hp.isName
  unfold toText
  split
  next hempty =>
    obtain ⟨slashes, names⟩ := p
    obtain ⟨hslashes, hnames⟩ := hempty
    obtain rfl : slashes = 0 := hslashes
    obtain rfl : names = [] := List.isEmpty_iff.mp hnames
    decide
  next hnonempty =>
    have hslashes := rootSlashes_replicate_append hp.slashes hp.head?_joinWith
    have hpieces : ((Text.joinWith ['/'] p.names).splitAt '/').filter HostPath.isName =
        p.names := by
      by_cases hnames : p.names = []
      · rw [hnames]
        rfl
      · rw [Text.splitAt_joinWith hnames hp.slash, hfilter]
    rw [ofText, hslashes, Text.splitAt_replicate_append, List.filter_append, hpieces,
      List.filter_replicate_of_neg (by decide), List.nil_append]

end IsRead

end LexicalPaths.HostPath
