import LexicalPaths.Proofs.Json.RoundTrip

/-!
# Line ends in documents

Strings are written without control characters.  So a document has no line ends but those of its
layout, and none that a reader of texts would change.
-/

namespace LexicalPaths.Json

/-- The indentation of a layout does not return to the beginning of a line. -/
def Layout.KeepsLines : Layout → Prop
  | .line => True
  | .indented unit => '\r' ∉ unit

theorem keepsLines_spaces (count : Nat) :
    (Layout.indented (List.replicate count ' ')).KeepsLines := by
  intro hmem
  exact absurd (List.eq_of_mem_replicate hmem) (by decide)

theorem return_notMem_breakAt {layout : Layout} (hlines : layout.KeepsLines) (depth : Nat) :
    '\r' ∉ layout.breakAt depth := by
  cases layout with
  | line => simp [Layout.breakAt]
  | indented unit =>
      intro hmem
      rcases List.mem_cons.mp hmem with heq | hmem
      · contradiction
      · obtain ⟨line, hline, hreturn⟩ := List.mem_flatten.mp hmem
        rw [List.eq_of_mem_replicate hline] at hreturn
        exact hlines hreturn

theorem return_notMem_comma {layout : Layout} (hlines : layout.KeepsLines) (depth : Nat) :
    '\r' ∉ layout.comma depth := by
  cases layout with
  | line => simp [Layout.comma]
  | indented unit =>
      have hbreak := return_notMem_breakAt hlines depth
      simpa [Layout.comma] using hbreak

theorem return_notMem_escapeChar (c : Char) : '\r' ∉ escapeChar c := by
  unfold escapeChar
  repeat' split
  all_goals try decide
  next hcontrol =>
    have hall : ∀ n < 0x20, '\r' ∉ ['\\', 'u'] ++ Text.hexDigits 4 n := by decide
    exact hall c.toNat hcontrol
  next hreturn _ _ _ _ =>
    intro hmem
    exact hreturn (List.mem_singleton.mp hmem).symm

theorem return_notMem_string (t : Text) : '\r' ∉ string t := by
  intro hmem
  simp only [string, List.cons_append, List.mem_cons, List.mem_append, List.mem_flatMap] at hmem
  rcases hmem with heq | ⟨c, -, hc⟩ | heq
  · contradiction
  · exact return_notMem_escapeChar c hc
  · simp at heq

section

variable {layout : Layout} (hlines : layout.KeepsLines)
include hlines

theorem return_notMem_printItems {depth : Nat} {items : List Datum}
    (hitems : ∀ d ∈ items, '\r' ∉ print layout depth d) : '\r' ∉ printItems layout depth items := by
  induction items with
  | nil => simp [printItems]
  | cons d items ih =>
      have hd := hitems d List.mem_cons_self
      cases items with
      | nil => rwa [printItems_singleton]
      | cons e items =>
          have hrest := ih fun e he => hitems e (List.mem_cons_of_mem _ he)
          have hcomma := return_notMem_comma hlines depth
          rw [printItems_cons_cons]
          simp [hd, hcomma, hrest]

theorem return_notMem_printEntries {depth : Nat} {entries : List (Text × Datum)}
    (hentries : ∀ e ∈ entries, '\r' ∉ print layout depth e.2) :
    '\r' ∉ printEntries layout depth entries := by
  induction entries with
  | nil => simp [printEntries]
  | cons e entries ih =>
      obtain ⟨key, d⟩ := e
      have hd : '\r' ∉ print layout depth d := hentries (key, d) List.mem_cons_self
      have hkey := return_notMem_string key
      have hcolon : '\r' ∉ [':', ' '] := by decide
      cases entries with
      | nil =>
          rw [printEntries]
          simp [hd, hkey]
      | cons e entries =>
          have hrest := ih fun e he => hentries e (List.mem_cons_of_mem _ he)
          have hcomma := return_notMem_comma hlines depth
          rw [printEntries]
          · simp [hd, hkey, hcomma, hrest]
          · simp

theorem return_notMem_print {d : Datum} (hd : Plain d) (depth : Nat) :
    '\r' ∉ print layout depth d := by
  have hbreak := return_notMem_breakAt hlines
  induction hd generalizing depth with
  | text t =>
      rw [print]
      exact return_notMem_string t
  | @list items _ ih =>
      cases items with
      | nil => simp [print]
      | cons d items =>
          have hitems := return_notMem_printItems hlines fun d hd => ih d hd (depth + 1)
          rw [print_list_cons]
          simp [hbreak, hitems]
  | @table entries _ _ ih =>
      cases entries with
      | nil => simp [print]
      | cons e entries =>
          have hentries := return_notMem_printEntries hlines fun e he => ih e he (depth + 1)
          rw [print_table_cons]
          simp [hbreak, hentries]

end

end LexicalPaths.Json
