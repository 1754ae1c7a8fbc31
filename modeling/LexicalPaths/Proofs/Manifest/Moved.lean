import LexicalPaths.Proofs.Manifest.RoundTrip
import LexicalPaths.Proofs.Path.Reachable

/-!
# Folders that have moved

A manifest is written for one folder and read for another.  What lies in the old folder comes back
in the new one, along the same names, and every other absolute path comes back where it was.
-/

namespace LexicalPaths.Manifest

open Separator
open LexicalPaths.Path (LiesBelow Reachable parse parentName)

/-- The path without a root along the proper names of `p`, with one `/` between two of them and at
the end if `p` ends with a separator. -/
def collapsed (p : Path) : Path :=
  parse p.uri (spell portable p.properNames p.hasTrailingSeparator)

/-- How an output comes back when the folder `old` has moved to `new`. -/
structure Moves (old new : Path) (original loaded : Output) : Prop where
  type : loaded.type = original.type
  properties : loaded.properties = original.properties
  along : ∀ {u t : Text}, (parse u t).root? = none → (parse u t).names ≠ [] →
    (parse u t).names.head? ≠ some parentName → original.path = old.resolve (parse u t) →
      loaded.path = new.resolve (collapsed (parse u t))
  /-- Absolute paths on another root, not in the old folder, or outside it by their next name. -/
  stays : original.path.isAbsolute = true → original.path.uri = old.uri →
    (original.path.rootKey ≠ old.rootKey ∨
      (∀ next rest, original.path.properNames ≠ old.properNames ++ next :: rest) ∨
        ∃ rest, original.path.properNames = old.properNames ++ parentName :: rest) →
      loaded.path.uri = original.path.uri ∧
        loaded.path.portableText = original.path.portableText

/-- On which filesystem a text without a root was read makes no difference to where it leads. -/
theorem resolve_parse_eq {base : Path} (hempty : base.isEmpty = false) {t : Text}
    (ht : Root.length t = 0) (u v : Text) :
    base.resolve (parse u t) = base.resolve (parse v t) := by
  have hbare : ∀ w, (parse w t).rootText = [] := fun w => by
    rw [parse, Path.rootText_withRoot, ht, List.take_zero]
  rw [Path.WellFormed.resolve_of_rootText_nil (Path.wellFormed_parse u t) hempty (hbare u),
    Path.WellFormed.resolve_of_rootText_nil (Path.wellFormed_parse v t) hempty (hbare v)]
  rfl

section

variable {old new p : Path} (hold : old.WellFormed) (hnew : new.WellFormed) (hp : p.WellFormed)
include hold hnew hp

/-- What lies in the old folder comes back in the new one. -/
theorem moved_resolve (huri : new.uri = old.uri) (holdabs : old.isAbsolute = true)
    (hnewabs : new.isAbsolute = true) (hroot : p.rootText = []) {first : Text} {rest : List Text}
    (hnames : p.properNames = first :: rest) (hup : first ≠ parentName)
    (hcolon : driveColon ∉ first) :
    moved old new (old.resolve p) = new.resolve (collapsed p) := by
  have holdempty := Path.not_isEmpty_of_rootText hold (hold.rootText_ne_nil_of_isAbsolute holdabs)
  have hnewempty := Path.not_isEmpty_of_rootText hnew (hnew.rootText_ne_nil_of_isAbsolute hnewabs)
  have hbelow := Path.liesBelow_resolve hold hp holdabs hroot hnames
  have hresolved := hold.resolve hp
  have hne : p.namesText ≠ [] := by
    intro hnil
    rw [hp.properNames_eq, hnil] at hnames
    nomatch hnames
  have hread : reread old (old.resolve p) =
      parse old.uri (spell portable p.properNames p.hasTrailingSeparator) := by
    rw [reread_of_below hold hresolved hbelow hup, hbelow.uri, hnames,
      hold.hasTrailingSeparator_resolve_of_rootText_nil hp holdempty hroot hne]
  have hbare := (reread_of_below_of_plain hold hresolved hbelow hup hcolon).1
  have hlength : Root.length (spell portable p.properNames p.hasTrailingSeparator) = 0 := by
    apply Path.length_spell _ isSeparator_portable fun _ => hp.isName_of_mem_properNames
    rw [hnames]
    simpa using hcolon
  have hwf := (legible_reread old (old.resolve p)).wellFormed
  rw [moved, placed_of_rootText_nil hwf hbare (by rw [hread, huri]; rfl), hread]
  exact resolve_parse_eq hnewempty hlength _ _

omit hnew in
/-- A rooted path that is not in the old folder comes back where it was. -/
theorem moved_of_not_below
    (hnot : ∀ first rest, LiesBelow old p first rest → first = parentName)
    (hroot : p.rootText ≠ []) : moved old new p = parse p.uri p.portableText := by
  have hread : reread old p = parse p.uri p.portableText := by
    rw [reread, stored_of_not_below hold hp hnot]
  have hrooted := hp.rootText_parse_portableText_ne_nil hroot
  rw [moved, hread, placed_of_rootText (Path.wellFormed_parse _ _) (.inl hrooted)]

end

theorem moves_movedOutput {old new : Path} (hold : old.WellFormed) (hnew : new.WellFormed)
    (huri : new.uri = old.uri) (holdabs : old.isAbsolute = true) (hnewabs : new.isAbsolute = true)
    {output : Output} (hpath : output.path.WellFormed) :
    Moves old new output (movedOutput old new output) where
  type := by rw [movedOutput]
  properties := by rw [movedOutput]
  along := by
    intro u t hroot hnames hup hresolved
    have hlegible := Path.legible_parse u t
    have hbare := (Path.wellFormed_parse u t).root?_eq_none_iff_rootText.mp hroot
    obtain ⟨first, rest, hfirst, hproper, hcolon⟩ := hlegible.exists_properNames hbare hnames
    have hne : first ≠ parentName := by
      rintro rfl
      exact hup hfirst
    rw [path_movedOutput, hresolved]
    exact moved_resolve hold hnew (Path.wellFormed_parse u t) huri holdabs hnewabs hbare hproper hne
      hcolon
  stays := by
    intro habs _ hout
    have hnot : ∀ first rest, LiesBelow old output.path first rest → first = parentName := by
      intro first rest hbelow
      rcases hout with hkey | hnames | ⟨more, hnames⟩
      · exact absurd hbelow.rootKey.symm hkey
      · exact absurd hbelow.names (hnames first rest)
      · exact (List.cons.inj (List.append_cancel_left (hbelow.names.symm.trans hnames))).1
    have hroot := hpath.rootText_ne_nil_of_isAbsolute habs
    rw [path_movedOutput, moved_of_not_below hold hpath hnot hroot, Path.portableText_parse,
      Path.unify_portableText]
    exact ⟨rfl, rfl⟩

/-- A manifest that was written for one absolute folder can be read for any other one on the same
filesystem, and takes the outputs of the folder along, but no others. -/
theorem load_persist_of_moves {uri t₁ t₂ : Text} (hold : (parse uri t₁).isAbsolute = true)
    (hnew : (parse uri t₂).isAbsolute = true) {memory : Nat} {indent : Option Int}
    {result : Json.Layout} (hlayout : layout memory (indent.elim .null .int) = .ok result)
    {outputs : Manifest} (hpaths : ∀ output ∈ outputs, Reachable output.path)
    (htable : ∀ output ∈ outputs, DistinctKeys output) :
    ∃ loaded, load (parse uri t₂) none (persist (parse uri t₁) result outputs) = .ok loaded ∧
      List.Forall₂ (Moves (parse uri t₁) (parse uri t₂)) outputs loaded := by
  have huri : (parse uri t₂).uri = (parse uri t₁).uri := rfl
  refine ⟨_, load_persist_moved_eq huri (isBlank_of_layout hlayout) htable, ?_⟩
  rw [List.forall₂_map_right_iff, List.forall₂_same]
  intro output hmem
  exact moves_movedOutput (Path.wellFormed_parse uri t₁) (Path.wellFormed_parse uri t₂) rfl hold
    hnew (hpaths output hmem).wellFormed

/-- The output `a//b/` in `/out` comes back as `a/b/` in `/new`. -/
theorem load_persist_of_moves_out :
    ∃ loaded, load (parse Path.localUri "/new".toList) none
        (persist (parse Path.localUri "/out".toList) .line
          [⟨"APK".toList, (parse Path.localUri "/out".toList).resolve
            (parse Path.localUri "a//b/".toList), []⟩]) = .ok loaded ∧
      loaded.map (fun output => output.path.raw) = ["/new/a/b/".toList] := by
  obtain ⟨loaded, hload, hmoves⟩ := @load_persist_of_moves Path.localUri "/out".toList "/new".toList
    (by decide) (by decide) 0 none .line rfl
    [⟨"APK".toList, (parse Path.localUri "/out".toList).resolve
      (parse Path.localUri "a//b/".toList), []⟩]
    (by simpa using .resolve (.parse _ _) (.parse _ _)) (by simp [DistinctKeys])
  refine ⟨loaded, hload, ?_⟩
  cases hmoves with
  | @cons _ output _ _ hone hnone =>
      cases hnone
      have hpath := hone.along (u := Path.localUri) (t := "a//b/".toList) (by decide) (by decide)
        (by decide) rfl
      rw [List.map_singleton, hpath]
      decide

end LexicalPaths.Manifest
