/-
  The finished pixel text is well bracketed.

  1. A library file is balanced by itself, without the files that it asks for.  Where their code is put in does
     not matter, because balanced code is not seen by what is around it.  So brackets of an expansion are read
     as those of the texts that its steps write (`Expands.readBrackets_code`).
  2. What the generator writes by itself is sound, hence balanced, and so is the root function.
  3. Replacing tokens leaves brackets alone (`brackets_finalTokens`).
-/
import ShadeGraph.Proofs.ExpandedFiles

namespace ShadeGraph

/-- **The brackets of an expansion are those of its steps**, if every file is balanced by itself. -/
theorem Expands.readBrackets_code {libraries : SearchPath} {ts : TokenTable} {noted : List Text}
    {steps : List CodeStep} {e : Expansion} (h : Expands libraries ts noted steps e)
    (hfiles : ∀ file ∈ e.files, Text.Balanced (libraries.ownText file)) : ∀ opened,
    Text.readBrackets opened e.code = Text.readBrackets opened (steps.flatMap CodeStep.text) := by
  induction h with
  | done => intro opened; rfl
  | @write _ t steps e _ ih =>
    intro opened
    rw [Expansion.code, List.flatMap_cons, CodeStep.text, Text.readBrackets_append,
      Text.readBrackets_append]
    exact Option.bind_congr fun inner _ => ih hfiles inner
  | known _ _ ih => exact ih hfiles
  | @file _ path source steps content e _ hread _ _ ihcontent ihrest =>
    intro opened
    have hcontent : Text.Balanced content.code := by
      intro inner
      have hown := hfiles _ List.mem_cons_self
      rw [SearchPath.ownText, SearchPath.sourceOf_eq hread] at hown
      rw [ihcontent fun file hfile => hfiles file (List.mem_cons_of_mem _ (List.mem_append_left _ hfile))]
      exact hown inner
    rw [Expansion.code, List.flatMap_cons, CodeStep.text, List.nil_append, Text.readBrackets_append,
      hcontent opened, Option.bind_some]
    exact ihrest (fun file hfile => hfiles file (List.mem_cons_of_mem _ (List.mem_append_right _ hfile))) opened

namespace FragmentGenerator

variable {g : FragmentGenerator} {o : Options} {samples : SampleSetting} {gr : Graph} {v : Inventory}
  {e : Expansion} {w : Stage} {s : Shader}

/-- The code in front of the root function is balanced. -/
theorem Written.balanced_expansion (h : g.Written o samples gr v e w s) : Text.Balanced e.code := by
  have hfiles : ∀ file ∈ e.files, Text.Balanced (SearchPath.standard.ownText file) := fun file hfile =>
    Text.balanced_of_read (SearchPath.standard_texts.1 file (g.reachableFiles_subset o (h.files_subset hfile)))
  have hsteps : Text.Balanced ((g.frontSteps o samples w s.graph.nodes).flatMap CodeStep.text) := by
    refine Text.Balanced.flatMap fun step hstep => ?_
    cases step with
    | write t => exact (h.sound_writes hstep).balanced
    | ask path => exact Text.Balanced.nil
  intro opened
  rw [h.expands.readBrackets_code hfiles]
  exact hsteps opened

end FragmentGenerator
end ShadeGraph
