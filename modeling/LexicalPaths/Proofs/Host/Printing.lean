import LexicalPaths.Proofs.Host.Orderly

/-!
# What is printed

Things are printed one after the other, up to the first one that the machine does not print.  What
was printed before it stays printed.
-/

namespace LexicalPaths

/-- What keeps the machine from printing one thing after the other behind what was printed. -/
def Machine.fault? (machine : Machine) (shown : List Display.Shown) :
    List Display.Shown → Option PrintFault
  | [] => none
  | item :: rest => (machine.prints shown item).or (machine.fault? (shown ++ [item]) rest)

namespace Act

/-- Everything is printed, or a beginning up to what the machine does not print. -/
theorem print_cases (items : List Display.Shown) (host : Host) :
    (host.machine.fault? host.shown items = none ∧
        (print items).result host = (.ok (), { host with shown := host.shown ++ items })) ∨
      ∃ fault before, host.machine.fault? host.shown items = some fault ∧ before <+: items ∧
        (print items).result host =
          (.error (.unprinted fault), { host with shown := host.shown ++ before }) := by
  induction items generalizing host with
  | nil =>
      left
      rw [List.append_nil]
      exact ⟨rfl, rfl⟩
  | cons item rest ih =>
      rw [print, bind_of_ok (result_get host)]
      cases hprints : host.machine.prints host.shown item with
      | some fault =>
          refine .inr ⟨fault, [], ?_, List.nil_prefix, ?_⟩
          · rw [Machine.fault?, hprints, Option.some_or]
          · rw [List.append_nil]
            rfl
      | none =>
          have hfault : host.machine.fault? host.shown (item :: rest) =
              host.machine.fault? (host.shown ++ [item]) rest := by
            rw [Machine.fault?, hprints, Option.none_or]
          dsimp only
          rw [hfault, bind_of_ok (result_modify host _)]
          rcases ih { host with shown := host.shown ++ [item] } with
            ⟨hnone, hall⟩ | ⟨fault, before, hsome, hbefore, hpart⟩
          · refine .inl ⟨hnone, ?_⟩
            rw [hall, List.append_assoc]
            rfl
          · refine .inr ⟨fault, item :: before, hsome, ?_, ?_⟩
            · exact List.cons_prefix_cons.mpr ⟨rfl, hbefore⟩
            · rw [hpart, List.append_assoc]
              rfl

/-- Printing changes nothing but what was printed. -/
theorem maintains_print {relation : Host → Host → Prop}
    (hprint : ∀ host shown, relation host { host with shown := shown })
    (items : List Display.Shown) : (print items).Maintains relation := by
  intro host
  rcases print_cases items host with ⟨-, hall⟩ | ⟨_, _, -, -, hpart⟩
  · rw [hall]
    exact hprint host _
  · rw [hpart]
    exact hprint host _

/-- Only the end of the output ends the program. -/
theorem escapes_print_iff {host : Host} {items : List Display.Shown} {failure : Failure} :
    (print items).Escapes host failure ↔
      host.machine.fault? host.shown items = some .closed ∧ failure = .unprinted .closed := by
  unfold Escapes
  rcases print_cases items host with ⟨hnone, hall⟩ | ⟨fault, before, hsome, -, hpart⟩
  · rw [hall, hnone]
    simp
  · rw [hpart, hsome]
    constructor
    · rintro ⟨hsame, hpassed⟩
      obtain rfl := Except.error.inj hsame
      cases fault with
      | closed => exact ⟨rfl, rfl⟩
      | refused reason => contradiction
      | unencodable reason => contradiction
    · rintro ⟨hclosed, rfl⟩
      obtain rfl := Option.some.inj hclosed
      exact ⟨rfl, rfl⟩

end Act

end LexicalPaths
