/-
  What is known of the variable of a port when it has been named.

  1. A 3 by 3 matrix takes two names, its own and the one with `4` behind it.  The search for a name whose
     companion is free is a loop over numbered names; `CompanionSearch` is its invariant, with one step
     (`CompanionSearch.step`) and one run (`CompanionSearch.run`): every name that was passed over has its
     companion among the names taken at the start, so the tries outlast them.
  2. `variableName_grants` says what naming a port of any type gives: what is taken, what was free before,
     and how the variable is spelled.
  3. A `Ledger` keeps account of ports as they are named one after the other.  The names that its ports
     own are pairwise distinct.  Textures own none: their sampler names are only noted as taken.
-/
import Mathlib.Data.List.Flatten
import ShadeGraph.Proofs.Identifier
import ShadeGraph.Shader.Port

namespace ShadeGraph

open IdentifierMap (Numbered)

/-! ## The search for a free companion -/

theorem wideSuffix_eq : wideSuffix = [Text.digit 4] := by decide

/-- The state of the search: `v` is the name that is looked at, the names in `tried` have been passed over,
and all names handed out by the search have numbers below `bound`. -/
structure CompanionSearch (start : List Text) (base v : Text) (ids : IdentifierMap) (tried : List Text)
    (bound : Nat) : Prop where
  known : ∀ x, ids.contains x = true → x ∈ start ∨ ∃ j < bound, x = base ++ Text.ofNat j
  ahead : ∀ j < bound, v ++ wideSuffix ≠ base ++ Text.ofNat j
  next : ∃ n, ids.next? base = some n ∧ bound ≤ n
  taken : ids.contains v = true
  distinct : (v :: tried).Nodup
  passed : ∀ u ∈ tried, ids.contains u = true ∧ u ++ wideSuffix ∈ start

namespace CompanionSearch

variable {start tried : List Text} {base v : Text} {ids : IdentifierMap} {bound : Nat}

/-- A companion that is taken was taken at the start: what the search has handed out since is too small. -/
theorem companion_mem_start (h : CompanionSearch start base v ids tried bound)
    (htaken : ids.contains (v ++ wideSuffix) = true) : v ++ wideSuffix ∈ start := by
  rcases h.known _ htaken with hmem | ⟨j, hj, heq⟩
  · exact hmem
  · exact absurd heq (h.ahead j hj)

/-- One step of the search: the name is passed over, and the next number is handed out. -/
theorem step (h : CompanionSearch start base v ids tried bound)
    (htaken : ids.contains (v ++ wideSuffix) = true) :
    ∃ bound', CompanionSearch start base (ids.makeUnique base).1 (ids.makeUnique base).2 (v :: tried)
      bound' := by
  obtain ⟨n, hn, hbound⟩ := h.next
  obtain ⟨k, hk, hfree, heq⟩ := IdentifierMap.makeUnique_of_taken hn
  have hne : base ≠ base ++ Text.ofNat k := fun hbase =>
    Text.ofNat_ne_nil k (List.self_eq_append_right.mp hbase)
  have hold : ∀ u ∈ v :: tried, ids.contains u = true := by
    intro u hu
    rcases List.mem_cons.mp hu with rfl | hu
    · exact h.taken
    · exact (h.passed u hu).1
  have hgrow : ∀ x, ids.contains x = true →
      ((ids.set base (k + 1)).set (base ++ Text.ofNat k) 1).contains x = true := by
    intro x hx
    rw [IdentifierMap.contains_set, IdentifierMap.contains_set]
    exact Or.inr (Or.inr hx)
  rw [heq]
  -- Beside the names at the start, only forms of the base below `k + 1` are taken now.
  refine ⟨k + 1, ?_, ?_, ?_, ?_, ?_, ?_⟩
  · intro x hx
    rw [IdentifierMap.contains_set, IdentifierMap.contains_set] at hx
    rcases hx with rfl | rfl | hx
    · exact Or.inr ⟨k, Nat.lt_succ_self k, rfl⟩
    · rcases h.known x (by rw [IdentifierMap.contains, hn]; rfl) with hmem | ⟨j, hj, hx⟩
      · exact Or.inl hmem
      · exact Or.inr ⟨j, by omega, hx⟩
    · rcases h.known x hx with hmem | ⟨j, hj, hx⟩
      · exact Or.inl hmem
      · exact Or.inr ⟨j, by omega, hx⟩
  · intro j hj hcomp
    rw [wideSuffix_eq, List.append_assoc] at hcomp
    exact Text.ofNat_append_digit_ne (by omega) (by omega) (by omega) (List.append_cancel_left hcomp)
  · refine ⟨k + 1, ?_, Nat.le_refl _⟩
    rw [IdentifierMap.next?_set, if_neg hne, IdentifierMap.next?_set, if_pos rfl]
  · rw [IdentifierMap.contains_set]
    exact Or.inl rfl
  -- The new name was free and those tried before are taken, so it is none of them.
  · refine List.nodup_cons.mpr ⟨fun hmem => ?_, h.distinct⟩
    have := hold _ hmem
    rw [hfree] at this
    exact Bool.noConfusion this
  · intro u hu
    refine ⟨hgrow u (hold u hu), ?_⟩
    rcases List.mem_cons.mp hu with rfl | hu
    · exact h.companion_mem_start htaken
    · exact (h.passed u hu).2

/-- No more names can be passed over than were taken at the start. -/
theorem length_tried_le (h : CompanionSearch start base v ids tried bound) :
    tried.length ≤ start.length := by
  have hnodup : (tried.map (· ++ wideSuffix)).Nodup :=
    (List.nodup_cons.mp h.distinct).2.map fun _ _ heq => List.append_cancel_right heq
  have hsub : tried.map (· ++ wideSuffix) ⊆ start := by
    intro x hx
    obtain ⟨u, hu, rfl⟩ := List.mem_map.mp hx
    exact (h.passed u hu).2
  have hlen := (hnodup.subperm hsub).length_le
  rwa [List.length_map] at hlen

/-- **The whole search**: with more tries than names are left to pass over, it ends at a name whose
companion is free. -/
theorem run (name : Text) : ∀ (tries : Nat) {v : Text} {ids : IdentifierMap} {tried : List Text}
    {bound : Nat}, CompanionSearch start (Identifier.legal name) v ids tried bound →
    start.length < tried.length + tries →
    (Naming.withCompanion name tries v ids).2.contains
      ((Naming.withCompanion name tries v ids).1 ++ wideSuffix) = false := by
  intro tries
  induction tries with
  | zero =>
    intro v ids tried bound h hlen
    have := h.length_tried_le
    omega
  | succ tries ih =>
    intro v ids tried bound h hlen
    rw [Naming.withCompanion]
    split
    · next htaken =>
      obtain ⟨bound', h'⟩ := h.step htaken
      exact ih h' (by rw [List.length_cons]; omega)
    · next hfree => exact Bool.eq_false_iff.mpr hfree

end CompanionSearch

/-! ## The variable of a port -/

namespace Naming

/-- What holds of every result of the search for a companion, free or not. -/
theorem withCompanion_grows (name : Text) : ∀ (tries : Nat) {v : Text} {ids : IdentifierMap},
    Numbered (Identifier.legal name) v → ids.contains v = true →
    Numbered (Identifier.legal name) (withCompanion name tries v ids).1 ∧
    (withCompanion name tries v ids).2.contains (withCompanion name tries v ids).1 = true ∧
    (∀ x, ids.contains x = true → (withCompanion name tries v ids).2.contains x = true) ∧
    ((withCompanion name tries v ids).1 = v ∨
      ids.contains (withCompanion name tries v ids).1 = false) := by
  intro tries
  induction tries with
  | zero => intro v ids hv htaken; exact ⟨hv, htaken, fun _ hx => hx, Or.inl rfl⟩
  | succ tries ih =>
    intro v ids hv htaken
    rw [withCompanion]
    split
    · have hfresh := ids.makeUnique_fresh (Identifier.legal name)
      obtain ⟨hform, hin, hgrow, hnew⟩ := ih
        (ids.makeUnique_numbered (Identifier.legal name))
        (IdentifierMap.contains_makeUnique.mpr (Or.inl rfl))
      refine ⟨hform, hin, fun x hx => hgrow x (IdentifierMap.contains_makeUnique.mpr (Or.inr hx)),
        Or.inr ?_⟩
      rcases hnew with heq | hfree
      · exact heq ▸ hfresh
      · rw [Bool.eq_false_iff] at hfree ⊢
        exact fun hold => hfree (IdentifierMap.contains_makeUnique.mpr (Or.inr hold))
    · exact ⟨hv, htaken, fun _ hx => hx, Or.inl rfl⟩

/-- `v` is the variable of a port with the given name and type: the legal form of the name, maybe with a
number; for a texture, that or its sampler name, whichever is a sampler name. -/
def VariableOf (name : Text) (t : DataType) (v : Text) : Prop :=
  ∃ u, Numbered (Identifier.legal name) u ∧
    if t = .filename then (Sampler.isName u = true ∧ v = u) ∨ v = Sampler.ofTexture u else v = u

/-- What naming a port does to the taken names: `v` is its variable, and `ids'` are taken afterwards. -/
structure Grants (ids : IdentifierMap) (name : Text) (t : DataType) (v : Text) (ids' : IdentifierMap) :
    Prop where
  grows : ∀ x, ids.contains x = true → ids'.contains x = true
  taken : ids'.contains v = true
  spelled : VariableOf name t v
  fresh : t ≠ .filename → ids.contains v = false
  companion : t = .matrix33 →
    ids.contains (v ++ wideSuffix) = false ∧ ids'.contains (v ++ wideSuffix) = true

/-- Ports that are neither textures nor matrices get the next identifier. -/
theorem grants_identifier {name : Text} {t : DataType} {ids : IdentifierMap} (hfile : t ≠ .filename)
    (hmatrix : t ≠ .matrix33) :
    Grants ids name t (ids.makeIdentifier name).1 (ids.makeIdentifier name).2 where
  grows _ hx := IdentifierMap.contains_makeUnique.mpr (Or.inr hx)
  taken := IdentifierMap.contains_makeUnique.mpr (Or.inl rfl)
  spelled := ⟨_, ids.makeUnique_numbered _, by rw [if_neg hfile]; rfl⟩
  fresh _ := ids.makeUnique_fresh _
  companion h := absurd h hmatrix

/-- A texture gets the name of a sampler, which may be taken already. -/
theorem grants_sampler {name : Text} {ids : IdentifierMap} :
    Grants ids name .filename (variableName .fragment name .filename ids).1
      (variableName .fragment name .filename ids).2 := by
  have hnum := ids.makeUnique_numbered (Identifier.legal name)
  rw [variableName]
  simp only [if_true]
  split
  · next hname =>
    exact ⟨fun _ hx => IdentifierMap.contains_makeUnique.mpr (Or.inr hx),
      IdentifierMap.contains_makeUnique.mpr (Or.inl rfl), ⟨_, hnum, Or.inl ⟨hname, rfl⟩⟩,
      fun h => absurd rfl h, fun h => by cases h⟩
  · refine ⟨fun x hx => ?_, ?_, ⟨_, hnum, Or.inr rfl⟩, fun h => absurd rfl h, fun h => by cases h⟩
    · rw [IdentifierMap.contains_reserve]
      exact Or.inr (IdentifierMap.contains_makeUnique.mpr (Or.inr hx))
    · rw [IdentifierMap.contains_reserve]
      exact Or.inl rfl

/-- The name that the search for a companion starts from is a fair start. -/
theorem companionSearch_start (ids : IdentifierMap) (base : Text) :
    CompanionSearch ((ids.makeUnique base).2.entries.map Prod.fst) base (ids.makeUnique base).1
      (ids.makeUnique base).2 [] 0 where
  known _ hx := Or.inl (IdentifierMap.contains_iff.mp hx)
  ahead j hj := absurd hj (Nat.not_lt_zero j)
  next := by
    have hbase : (ids.makeUnique base).2.contains base = true := by
      rw [IdentifierMap.contains_makeUnique]
      cases h : ids.next? base with
      | none => exact Or.inl (by rw [IdentifierMap.makeUnique_of_free h])
      | some n => exact Or.inr (by rw [IdentifierMap.contains, h]; rfl)
    obtain ⟨n, hn⟩ := Option.isSome_iff_exists.mp hbase
    exact ⟨n, hn, Nat.zero_le n⟩
  taken := IdentifierMap.contains_makeUnique.mpr (Or.inl rfl)
  distinct := List.nodup_singleton _
  passed _ hu := absurd hu List.not_mem_nil

/-- **A matrix gets a name whose companion is free**: the search has tried enough names to find one. -/
theorem grants_matrix {name : Text} {ids : IdentifierMap} :
    Grants ids name .matrix33 (variableName .fragment name .matrix33 ids).1
      (variableName .fragment name .matrix33 ids).2 := by
  have hfresh := ids.makeUnique_fresh (Identifier.legal name)
  have hfirst : ∀ x, ids.contains x = true → (ids.makeIdentifier name).2.contains x = true :=
    fun x hx => IdentifierMap.contains_makeUnique.mpr (Or.inr hx)
  obtain ⟨hform, hin, hgrow, hnew⟩ :=
    withCompanion_grows name ((ids.makeIdentifier name).2.entries.length + 1)
      (ids.makeUnique_numbered _) (IdentifierMap.contains_makeUnique.mpr (Or.inl rfl))
  have hfree := CompanionSearch.run name ((ids.makeIdentifier name).2.entries.length + 1)
    (companionSearch_start ids (Identifier.legal name))
    (by rw [List.length_map, List.length_nil, Nat.zero_add]; exact Nat.lt_succ_self _)
  refine ⟨fun x hx => ?_, ?_, ⟨_, hform, rfl⟩, fun _ => ?_, fun _ => ⟨?_, ?_⟩⟩
  · exact IdentifierMap.contains_reserve.mpr (Or.inr (hgrow x (hfirst x hx)))
  · exact IdentifierMap.contains_reserve.mpr (Or.inr hin)
  · rcases hnew with heq | hnew
    · exact (congrArg ids.contains heq).trans hfresh
    · rw [Bool.eq_false_iff] at hnew ⊢
      exact fun hold => hnew (hfirst _ hold)
  · rw [Bool.eq_false_iff] at hfree ⊢
    exact fun hold => hfree (hgrow _ (hfirst _ hold))
  · exact IdentifierMap.contains_reserve.mpr (Or.inl rfl)

/-- **What naming a port gives**, for every name and type. -/
theorem variableName_grants (name : Text) (t : DataType) (ids : IdentifierMap) :
    Grants ids name t (variableName .fragment name t ids).1 (variableName .fragment name t ids).2 := by
  by_cases hfile : t = .filename
  · subst hfile
    exact grants_sampler
  by_cases hmatrix : t = .matrix33
  · subst hmatrix
    exact grants_matrix
  · rw [variableName]
    simp only [if_neg hfile, if_neg hmatrix]
    exact grants_identifier hfile hmatrix

/-! ## How variables are spelled -/

/-- A mended name is a word with a number behind it, too. -/
theorem isWordByte_of_numbered {name v : Text} {b : UInt8} (h : Numbered (Identifier.legal name) v)
    (hb : b ∈ v) : Identifier.isWordByte b = true := by
  rcases h with rfl | ⟨k, rfl⟩
  · exact Identifier.isWordByte_of_mem_legal hb
  · rcases List.mem_append.mp hb with hb | hb
    · exact Identifier.isWordByte_of_mem_legal hb
    · exact Identifier.isWordByte_of_isDigit (Text.isDigit_of_mem_ofNat hb)

namespace VariableOf

variable {name v : Text} {t : DataType}

/-- The variable of a port is a word. -/
theorem isWordByte (h : VariableOf name t v) {b : UInt8} (hb : b ∈ v) :
    Identifier.isWordByte b = true := by
  obtain ⟨u, hu, hv⟩ := h
  have hword : ∀ a ∈ u, Identifier.isWordByte a = true := fun a ha => isWordByte_of_numbered hu ha
  split at hv
  · rcases hv with ⟨_, rfl⟩ | rfl
    · exact hword b hb
    · rw [Sampler.ofTexture, List.mem_append, List.mem_append] at hb
      rcases hb with (hb | hb) | hb
      · exact List.all_eq_true.mp (by decide : Sampler.front.all Identifier.isWordByte = true) b hb
      · exact hword b hb
      · exact List.all_eq_true.mp (by decide : Sampler.back.all Identifier.isWordByte = true) b hb
  · exact hword b (hv ▸ hb)

/-- The variable of a texture ends like a sampler. -/
theorem back_suffix (h : VariableOf name .filename v) : Sampler.back <:+ v := by
  obtain ⟨u, _, hv⟩ := h
  rw [if_pos rfl] at hv
  rcases hv with ⟨hname, rfl⟩ | rfl
  · rw [Sampler.isName, Bool.and_eq_true] at hname
    exact List.isSuffixOf_iff_suffix.mp hname.2
  · exact List.suffix_append _ _

/-- An underscore of the name is one of the variable: mending drops none but doubles. -/
theorem underscore_mem (h : VariableOf name t v) (hname : Identifier.underscore ∈ name) :
    Identifier.underscore ∈ v := by
  obtain ⟨u, hu, hv⟩ := h
  have hmem : Identifier.underscore ∈ u := by
    rcases hu with rfl | ⟨k, rfl⟩
    · exact Identifier.underscore_mem_legal hname
    · exact List.mem_append_left _ (Identifier.underscore_mem_legal hname)
  split at hv
  · rcases hv with ⟨_, rfl⟩ | rfl
    · exact hmem
    · exact List.mem_append_left _ (List.mem_append_right _ hmem)
  · exact hv ▸ hmem

/-- A word without an underscore that does not end in a digit is the variable of no name but itself. -/
theorem name_eq {word : Text} (h : VariableOf name t word) (hword : Identifier.underscore ∉ word)
    (hlast : ∀ b ∈ word.getLast?, Text.isDigit b = false) : name = word := by
  obtain ⟨u, hu, hv⟩ := h
  have huv : word = u := by
    split at hv
    · rcases hv with ⟨_, rfl⟩ | rfl
      · rfl
      · refine absurd (List.mem_append_right _ ?_) hword
        decide
    · exact hv
  subst huv
  rcases hu with heq | ⟨k, heq⟩
  · exact Identifier.eq_of_legal_eq hword heq.symm
  · obtain ⟨b, hb⟩ := Option.ne_none_iff_exists'.mp
      (mt List.getLast?_eq_none_iff.mp (Text.ofNat_ne_nil k))
    have hdigit := Text.isDigit_of_mem_ofNat (List.mem_of_getLast? hb)
    have hend : word.getLast? = some b := by rw [heq, List.getLast?_append, hb]; rfl
    rw [hlast b hend] at hdigit
    exact Bool.noConfusion hdigit

end VariableOf
end Naming

/-! ## Keeping account of named ports -/

/-- The names that a port takes when it is named. -/
def Port.takenNames (p : Port) : List Text :=
  if p.type = .matrix33 then [p.ident, p.ident ++ wideSuffix] else [p.ident]

/-- The names that a port has for itself; a texture has none, because its sampler name is only noted. -/
def Port.ownNames (p : Port) : List Text := if p.type = .filename then [] else p.takenNames

namespace Port

variable {p : Port} {x : Text}

/-- A port takes its identifier, and a matrix takes the companion as well. -/
theorem mem_takenNames :
    x ∈ p.takenNames ↔ x = p.ident ∨ p.type = .matrix33 ∧ x = p.ident ++ wideSuffix := by
  rw [takenNames]
  split
  · next hmatrix => simp [hmatrix]
  · next hmatrix => simp [hmatrix]

theorem mem_ownNames : x ∈ p.ownNames ↔ p.type ≠ .filename ∧ x ∈ p.takenNames := by
  rw [ownNames]
  split
  · next hfile => simp [hfile]
  · next hfile => simp [hfile]

theorem ident_mem_ownNames (h : p.type ≠ .filename) : p.ident ∈ p.ownNames :=
  mem_ownNames.mpr ⟨h, mem_takenNames.mpr (Or.inl rfl)⟩

/-- A matrix and its companion have different names. -/
theorem nodup_takenNames (p : Port) : p.takenNames.Nodup := by
  rw [takenNames]
  split
  · refine List.nodup_cons.mpr ⟨fun hmem => ?_, List.nodup_singleton _⟩
    exact absurd (List.self_eq_append_right.mp (List.mem_singleton.mp hmem)) (by decide)
  · exact List.nodup_singleton _

theorem nodup_ownNames (p : Port) : p.ownNames.Nodup := by
  rw [ownNames]
  split
  · exact List.nodup_nil
  · exact p.nodup_takenNames

end Port

namespace Naming.Grants

variable {ids ids' : IdentifierMap} {name : Text} {p : Port}

/-- The names that the port has for itself were free. -/
theorem free (h : Grants ids name p.type p.ident ids') : ∀ x ∈ p.ownNames, ids.contains x = false := by
  intro x hx
  obtain ⟨hfile, hx⟩ := Port.mem_ownNames.mp hx
  rcases Port.mem_takenNames.mp hx with rfl | ⟨hmatrix, rfl⟩
  · exact h.fresh hfile
  · exact (h.companion hmatrix).1

/-- All its names are taken afterwards. -/
theorem contains (h : Grants ids name p.type p.ident ids') :
    ∀ x ∈ p.takenNames, ids'.contains x = true := by
  intro x hx
  rcases Port.mem_takenNames.mp hx with rfl | ⟨hmatrix, rfl⟩
  · exact h.taken
  · exact (h.companion hmatrix).2

end Naming.Grants

/-- The account of ports named one after the other, with `start` taken before the first of them and `ids`
after the last. -/
structure Ledger (start ids : IdentifierMap) (ports : List Port) : Prop where
  grows : ∀ x, start.contains x = true → ids.contains x = true
  taken : ∀ p ∈ ports, ∀ x ∈ p.takenNames, ids.contains x = true
  distinct : (ports.flatMap Port.ownNames).Nodup
  new : ∀ p ∈ ports, ∀ x ∈ p.ownNames, start.contains x = false
  spelled : ∀ p ∈ ports, ∃ name, Naming.VariableOf name p.type p.ident ∧
    (name = p.name ∨ Identifier.underscore ∈ name)

namespace Ledger

variable {start ids ids' : IdentifierMap} {ports ports' : List Port}

/-- Nothing is on the ledger at the start. -/
theorem nil (start : IdentifierMap) : Ledger start start [] where
  grows _ hx := hx
  taken _ hp := absurd hp List.not_mem_nil
  distinct := List.nodup_nil
  new _ hp := absurd hp List.not_mem_nil
  spelled _ hp := absurd hp List.not_mem_nil

/-- Further names that are taken do no harm to the ledger. -/
theorem mono (h : Ledger start ids ports) (hgrow : ∀ x, ids.contains x = true → ids'.contains x = true) :
    Ledger start ids' ports :=
  { h with
    grows := fun x hx => hgrow x (h.grows x hx)
    taken := fun p hp x hx => hgrow x (h.taken p hp x hx) }

/-- Fewer ports, or the same ones in another order, keep the account. -/
theorem subperm (h : Ledger start ids ports) (hsub : ports'.Subperm ports) : Ledger start ids ports' :=
  { grows := h.grows
    taken := fun p hp => h.taken p (hsub.subset hp)
    distinct := by
      obtain ⟨l, hperm, hl⟩ := hsub
      exact (hperm.flatMap_right _).nodup_iff.mp (h.distinct.sublist (hl.flatMap _))
    new := fun p hp => h.new p (hsub.subset hp)
    spelled := fun p hp => h.spelled p (hsub.subset hp) }

/-- One more port is named. -/
theorem cons {p : Port} {name : Text} (h : Ledger start ids ports)
    (hp : Naming.Grants ids name p.type p.ident ids')
    (hname : name = p.name ∨ Identifier.underscore ∈ name) : Ledger start ids' (p :: ports) := by
  have hotherwise := h.mono hp.grows
  refine ⟨hotherwise.grows, List.forall_mem_cons.mpr ⟨hp.contains, hotherwise.taken⟩, ?_,
    List.forall_mem_cons.mpr ⟨?_, h.new⟩, List.forall_mem_cons.mpr ⟨⟨name, hp.spelled, hname⟩, h.spelled⟩⟩
  · rw [List.flatMap_cons]
    refine List.nodup_append.mpr ⟨p.nodup_ownNames, h.distinct, fun x hx y hy hxy => ?_⟩
    subst hxy
    obtain ⟨q, hq, hxq⟩ := List.mem_flatMap.mp hy
    have htaken := h.taken q hq x (Port.mem_ownNames.mp hxq).2
    rw [hp.free x hx] at htaken
    exact Bool.noConfusion htaken
  · intro x hx
    have hfree := hp.free x hx
    rw [Bool.eq_false_iff] at hfree ⊢
    exact fun hstart => hfree (h.grows x hstart)

end Ledger
end ShadeGraph
