/-
  Naming the variable of a port comes to an end.

  Two searches stand behind a variable.  One looks for a number that makes a name free.  The other is for 3 by
  3 matrices: it asks for one name after the other until the companion of one, the name with `4` behind it, is
  free too, and every name that it asks for is taken by that.  Neither has a bound of its own.  The functions
  that run have one, and this file shows that it never shows:

  1. `NumberSearch`, `HandsOut`, `CompanionSearchRun` and `VariableNaming` are the searches and what is built on
     them without any bound.  A derivation is a run that ends, and there is at most one.
  2. A bounded search that ends where its condition says is such a run (`numberSearch_firstFree`,
     `companionSearchRun_withCompanion`).
  3. The number of names that are taken is a bound that suffices.  For the first search some number within it
     is free; for the second, a companion that is found taken was taken at the start, because it has one digit
     more than any name that was handed out since (`CompanionSearch.run`).

  What is known of the variable itself is put together at the end, for every map of taken names.
-/
import ShadeGraph.Proofs.LegalNames

namespace ShadeGraph

/-! ## The search for a number -/

namespace IdentifierMap

variable {ids : IdentifierMap} {name : Text}

/-- The search for a free number, without a bound: begun at the first number it ends at the second. -/
inductive NumberSearch (ids : IdentifierMap) (name : Text) : Nat → Nat → Prop
  | stop {k : Nat} (hfree : ids.contains (name ++ Text.ofNat k) = false) : NumberSearch ids name k k
  | pass {k last : Nat} (htaken : ids.contains (name ++ Text.ofNat k) = true)
      (hrest : NumberSearch ids name (k + 1) last) : NumberSearch ids name k last

/-- The search has one result at most. -/
theorem NumberSearch.unique {k last last' : Nat} (h : NumberSearch ids name k last)
    (h' : NumberSearch ids name k last') : last = last' := by
  induction h with
  | stop hfree =>
    cases h' with
    | stop _ => rfl
    | pass htaken _ => rw [hfree] at htaken; cases htaken
  | pass htaken _ ih =>
    cases h' with
    | stop hfree => rw [hfree] at htaken; cases htaken
    | pass _ hrest => exact ih hrest

/-- A bounded search that ends at a free number is the search without a bound. -/
theorem numberSearch_firstFree : ∀ {tries k : Nat},
    ids.contains (name ++ Text.ofNat (ids.firstFree name tries k)) = false →
    NumberSearch ids name k (ids.firstFree name tries k) := by
  intro tries
  induction tries with
  | zero => intro k hfree; exact .stop hfree
  | succ tries ih =>
    intro k hfree
    rw [firstFree] at hfree ⊢
    split at hfree
    · next htaken =>
      rw [if_pos htaken]
      exact .pass htaken (ih hfree)
    · next htaken =>
      rw [if_neg htaken]
      exact .stop hfree

/-- Handing out a name, with the search for a number as it is without a bound. -/
inductive HandsOut (ids : IdentifierMap) (name : Text) : Text × IdentifierMap → Prop
  | own (hfree : ids.next? name = none) : HandsOut ids name (name, ids.set name 1)
  | numbered {next k : Nat} (htaken : ids.next? name = some next) (hsearch : NumberSearch ids name next k) :
      HandsOut ids name (name ++ Text.ofNat k, (ids.set name (k + 1)).set (name ++ Text.ofNat k) 1)

/-- There is one result of handing out a name. -/
theorem HandsOut.unique {r r' : Text × IdentifierMap} (h : HandsOut ids name r) (h' : HandsOut ids name r') :
    r = r' := by
  cases h with
  | own hfree =>
    cases h' with
    | own _ => rfl
    | numbered htaken _ => rw [hfree] at htaken; cases htaken
  | numbered htaken hsearch =>
    cases h' with
    | own hfree => rw [hfree] at htaken; cases htaken
    | numbered htaken' hsearch' =>
      obtain rfl := Option.some.inj (htaken.symm.trans htaken')
      rw [hsearch.unique hsearch']

/-- **A name is always handed out**, because of the numbers that are tried one is free. -/
theorem handsOut_makeUnique (ids : IdentifierMap) (name : Text) : HandsOut ids name (ids.makeUnique name) := by
  cases h : ids.next? name with
  | none =>
    rw [makeUnique_of_free h]
    exact .own h
  | some next =>
    have hname : ids.contains name = true := by rw [contains, h]; rfl
    rw [makeUnique, h]
    exact .numbered h (numberSearch_firstFree (firstFree_free (exists_free next hname)))

end IdentifierMap

open IdentifierMap (HandsOut handsOut_makeUnique)

/-- The name of a sampler is the sampler of its texture. -/
theorem Sampler.ofTexture_texture {name : Text} (h : isName name = true) : ofTexture (texture name) = name := by
  obtain ⟨t, hne, rfl⟩ := exists_texture h
  rw [texture_ofTexture hne]

namespace Naming

variable {ids : IdentifierMap} {name v : Text} {t : DataType}

/-! ## The search for a companion -/

/-- The search for a name whose companion is free, without a bound: begun with `v` it ends with the result. -/
inductive CompanionSearchRun (name : Text) : Text → IdentifierMap → Text × IdentifierMap → Prop
  | stop {v : Text} {ids : IdentifierMap} (hfree : ids.contains (v ++ wideSuffix) = false) :
      CompanionSearchRun name v ids (v, ids)
  | pass {v next : Text} {ids ids' : IdentifierMap} {r : Text × IdentifierMap}
      (htaken : ids.contains (v ++ wideSuffix) = true)
      (hnext : HandsOut ids (Identifier.legal name) (next, ids'))
      (hrest : CompanionSearchRun name next ids' r) : CompanionSearchRun name v ids r

/-- There is one result of the search for a companion. -/
theorem CompanionSearchRun.unique {r r' : Text × IdentifierMap} (h : CompanionSearchRun name v ids r)
    (h' : CompanionSearchRun name v ids r') : r = r' := by
  induction h with
  | stop hfree =>
    cases h' with
    | stop _ => rfl
    | pass htaken _ _ => rw [hfree] at htaken; cases htaken
  | pass htaken hnext _ ih =>
    cases h' with
    | stop hfree => rw [hfree] at htaken; cases htaken
    | pass _ hnext' hrest' =>
      obtain ⟨rfl, rfl⟩ := Prod.mk.inj (hnext.unique hnext')
      exact ih hrest'

/-- A bounded search that ends with a free companion is the search without a bound. -/
theorem companionSearchRun_withCompanion (name : Text) : ∀ {tries : Nat} {v : Text} {ids : IdentifierMap},
    (withCompanion name tries v ids).2.contains ((withCompanion name tries v ids).1 ++ wideSuffix) = false →
    CompanionSearchRun name v ids (withCompanion name tries v ids) := by
  intro tries
  induction tries with
  | zero => intro v ids hfree; exact .stop hfree
  | succ tries ih =>
    intro v ids hfree
    rw [withCompanion] at hfree ⊢
    split at hfree
    · next htaken =>
      rw [if_pos htaken]
      exact .pass htaken (handsOut_makeUnique ids (Identifier.legal name)) (ih hfree)
    · next htaken =>
      rw [if_neg htaken]
      exact .stop hfree

/-- **The search for a companion ends** within one try more than there are names taken when it begins. -/
theorem exists_companion (ids : IdentifierMap) (name : Text) :
    CompanionSearchRun name (ids.makeIdentifier name).1 (ids.makeIdentifier name).2
      (withCompanion name ((ids.makeIdentifier name).2.entries.length + 1) (ids.makeIdentifier name).1
        (ids.makeIdentifier name).2) := by
  apply companionSearchRun_withCompanion
  apply CompanionSearch.run name _ (companionSearch_start ids (Identifier.legal name))
  rw [List.length_map, List.length_nil]
  show (ids.makeIdentifier name).2.entries.length < _
  omega

/-! ## The variable of a port -/

/-- Naming the variable of a port by the fragment rule, with all searches as they are without a bound. -/
inductive VariableNaming (ids : IdentifierMap) (name : Text) (t : DataType) : Text × IdentifierMap → Prop
  | identifier {r : Text × IdentifierMap} (hfile : t ≠ .filename) (hmatrix : t ≠ .matrix33)
      (hfirst : HandsOut ids (Identifier.legal name) r) : VariableNaming ids name t r
  | sampler {v : Text} {ids' : IdentifierMap} (hfile : t = .filename)
      (hfirst : HandsOut ids (Identifier.legal name) (v, ids')) (hname : Sampler.isName v = true) :
      VariableNaming ids name t (v, ids')
  | texture {v : Text} {ids' : IdentifierMap} (hfile : t = .filename)
      (hfirst : HandsOut ids (Identifier.legal name) (v, ids')) (hname : Sampler.isName v = false) :
      VariableNaming ids name t (Sampler.ofTexture v, ids'.reserve (Sampler.ofTexture v))
  | matrix {v w : Text} {ids' ids'' : IdentifierMap} (hmatrix : t = .matrix33)
      (hfirst : HandsOut ids (Identifier.legal name) (v, ids'))
      (hsearch : CompanionSearchRun name v ids' (w, ids'')) :
      VariableNaming ids name t (w, ids''.reserve (w ++ wideSuffix))

/-- Naming ends with what the bounded functions give. -/
theorem variableNaming_variableName (ids : IdentifierMap) (name : Text) (t : DataType) :
    VariableNaming ids name t (variableName .fragment name t ids) := by
  have hfirst : HandsOut ids (Identifier.legal name) (ids.makeIdentifier name) := handsOut_makeUnique ids _
  rw [variableName]
  by_cases hfile : t = .filename
  · simp only [if_pos hfile]
    split
    · next hname => exact .sampler hfile hfirst hname
    · next hname => exact .texture hfile hfirst (Bool.eq_false_iff.mpr hname)
  · simp only [if_neg hfile]
    by_cases hmatrix : t = .matrix33
    · rw [if_pos hmatrix]
      exact .matrix hmatrix hfirst (exists_companion ids name)
    · rw [if_neg hmatrix]
      exact .identifier hfile hmatrix hfirst

/-- Naming has one result at most. -/
theorem VariableNaming.unique {r r' : Text × IdentifierMap} (h : VariableNaming ids name t r)
    (h' : VariableNaming ids name t r') : r = r' := by
  -- The type decides the rule, and what was handed out first decides whether it is a sampler already.
  cases h with
  | identifier hfile hmatrix hfirst =>
    cases h' with
    | identifier _ _ hfirst' => exact hfirst.unique hfirst'
    | sampler hyes _ _ => exact absurd hyes hfile
    | texture hyes _ _ => exact absurd hyes hfile
    | matrix hyes _ _ => exact absurd hyes hmatrix
  | sampler hfile hfirst hname =>
    cases h' with
    | identifier hno _ _ => exact absurd hfile hno
    | sampler _ hfirst' _ => exact hfirst.unique hfirst'
    | texture _ hfirst' hname' =>
      obtain ⟨rfl, rfl⟩ := Prod.mk.inj (hfirst.unique hfirst')
      rw [hname] at hname'
      cases hname'
    | matrix hmatrix _ _ => rw [hfile] at hmatrix; cases hmatrix
  | texture hfile hfirst hname =>
    cases h' with
    | identifier hno _ _ => exact absurd hfile hno
    | sampler _ hfirst' hname' =>
      obtain ⟨rfl, rfl⟩ := Prod.mk.inj (hfirst.unique hfirst')
      rw [hname] at hname'
      cases hname'
    | texture _ hfirst' _ =>
      obtain ⟨rfl, rfl⟩ := Prod.mk.inj (hfirst.unique hfirst')
      rfl
    | matrix hmatrix _ _ => rw [hfile] at hmatrix; cases hmatrix
  | matrix hmatrix hfirst hsearch =>
    cases h' with
    | identifier _ hno _ => exact absurd hmatrix hno
    | sampler hfile _ _ => rw [hmatrix] at hfile; cases hfile
    | texture hfile _ _ => rw [hmatrix] at hfile; cases hfile
    | matrix _ hfirst' hsearch' =>
      obtain ⟨rfl, rfl⟩ := Prod.mk.inj (hfirst.unique hfirst')
      obtain ⟨rfl, rfl⟩ := Prod.mk.inj (hsearch.unique hsearch')
      rfl

/-- The variable of a texture is the name of a sampler. -/
theorem VariableOf.isName (h : VariableOf name .filename v) : Sampler.isName v = true := by
  obtain ⟨u, hu, hv⟩ := h
  rw [if_pos rfl] at hv
  rcases hv with ⟨hname, rfl⟩ | rfl
  · exact hname
  · exact Sampler.isName_ofTexture (Identifier.ne_nil_of_numbered hu)

/-- **The variable of a port**, whatever names are taken.  Naming it comes to an end, with one result.  A
variable that is no texture was free and is taken afterwards; that of a 3 by 3 matrix has a companion of which
the same holds; that of a texture is a sampler, and the sampler of the texture it stands for. -/
theorem variable_naming_ends (ids : IdentifierMap) (name : Text) (t : DataType) :
    (∀ r, VariableNaming ids name t r ↔ r = variableName .fragment name t ids) ∧
    (t ≠ .filename →
      ids.contains (variableName .fragment name t ids).1 = false ∧
        (variableName .fragment name t ids).2.contains (variableName .fragment name t ids).1 = true) ∧
    (t = .matrix33 →
      ids.contains ((variableName .fragment name t ids).1 ++ wideSuffix) = false ∧
        (variableName .fragment name t ids).2.contains
          ((variableName .fragment name t ids).1 ++ wideSuffix) = true) ∧
    (t = .filename →
      Sampler.isName (variableName .fragment name t ids).1 = true ∧
        Sampler.ofTexture (Sampler.texture (variableName .fragment name t ids).1) =
          (variableName .fragment name t ids).1) := by
  have hgrants := variableName_grants name t ids
  have hends := variableNaming_variableName ids name t
  refine ⟨fun r => ⟨fun h => h.unique hends, fun h => h ▸ hends⟩, fun hfile => ?_, hgrants.companion, ?_⟩
  · exact ⟨hgrants.fresh hfile, hgrants.taken⟩
  · rintro rfl
    have hname := hgrants.spelled.isName
    exact ⟨hname, Sampler.ofTexture_texture hname⟩

/-- The map in which `M4` is taken and nothing else. -/
def companionTaken : IdentifierMap := IdentifierMap.empty.reserve "M4"

/-- A matrix that asks for `M` is passed on to `M1`, because the companion of `M` is taken; a texture of that
name is a sampler. -/
theorem variable_naming_ends_passed_on :
    (variableName .fragment "M" .matrix33 companionTaken).1 = "M1" ∧
    VariableNaming companionTaken "M" .matrix33 (variableName .fragment "M" .matrix33 companionTaken) ∧
    companionTaken.contains (variableName .fragment "M" .matrix33 companionTaken).1 = false ∧
    companionTaken.contains ((variableName .fragment "M" .matrix33 companionTaken).1 ++ wideSuffix) = false ∧
    (variableName .fragment "M" .filename companionTaken).1 = "_M_sampler" ∧
    Sampler.isName (variableName .fragment "M" .filename companionTaken).1 = true := by
  obtain ⟨hends, hfree, hcompanion, -⟩ := variable_naming_ends companionTaken "M" .matrix33
  obtain ⟨-, -, -, hsampler⟩ := variable_naming_ends companionTaken "M" .filename
  exact ⟨by decide, (hends _).mpr rfl, (hfree (by decide)).1, (hcompanion rfl).1, by decide, (hsampler rfl).1⟩

end Naming
end ShadeGraph
