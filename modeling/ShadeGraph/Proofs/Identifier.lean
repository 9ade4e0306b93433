/-
  Identifiers that are handed out are new.

  The names of a shader come from one map of taken names.  This file gives the facts about that map that
  every statement about generated names rests on:

  1. decimal numbers read back, so two different numbers behind the same name give different names;
  2. taking names only ever adds to the map, and adds exactly the name that is handed out;
  3. the search for a free number ends at one: the numbered names it tries are all different, and there
     are more tries than names that could be taken (`exists_free`);
  4. a legal identifier holds letters, digits and underscores only, and a word without an underscore is
     the legal form of no name but itself.
-/
import Mathlib.Data.List.Nodup
import Mathlib.Data.List.Perm.Subperm
import Mathlib.Tactic.IntervalCases
import ShadeGraph.Glsl.Sampler

namespace ShadeGraph

/-! ## Decimal numbers read back -/

namespace Text

theorem isDigit_digit {n : Nat} (h : n < 10) : isDigit (digit n) = true := by
  interval_cases n <;> rfl

theorem toNat_digit {n : Nat} (h : n < 10) : (digit n).toNat - 48 = n := by
  interval_cases n <;> rfl

/-- Digits behind others are read with the number that these make. -/
theorem digitsValue?_append (s t : Text) (acc : Nat) :
    digitsValue? (s ++ t) acc = (digitsValue? s acc).bind (digitsValue? t) := by
  induction s generalizing acc with
  | nil => rfl
  | cons b s ih =>
    rw [List.cons_append, digitsValue?, digitsValue?]
    split
    · exact ih _
    · rfl

theorem digitsValue?_digit {n : Nat} (h : n < 10) (acc : Nat) :
    digitsValue? [digit n] acc = some (10 * acc + n) := by
  rw [digitsValue?, if_pos (isDigit_digit h), toNat_digit h, digitsValue?]

/-- The digits of a number denote it, as long as there is fuel for all of them. -/
theorem digitsValue?_digitsWithin :
    ∀ {fuel n : Nat}, n < fuel → digitsValue? (digitsWithin fuel n) 0 = some n := by
  intro fuel
  induction fuel with
  | zero => intro n h; omega
  | succ fuel ih =>
    intro n h
    rw [digitsWithin]
    by_cases hn : n < 10
    · rw [if_pos hn, digitsValue?_digit hn]
      simp
    · rw [if_neg hn, digitsValue?_append, ih (by omega), Option.bind_some,
        digitsValue?_digit (by omega)]
      congr 1
      omega

/-- The digits of a number are read as the number. -/
theorem digitsValue?_ofNat (n : Nat) : digitsValue? (ofNat n) 0 = some n :=
  digitsValue?_digitsWithin (Nat.lt_succ_self n)

/-- Different numbers have different digits. -/
theorem ofNat_injective {m n : Nat} (h : ofNat m = ofNat n) : m = n := by
  have hm := digitsValue?_ofNat m
  rw [h, digitsValue?_ofNat n] at hm
  exact (Option.some.inj hm).symm

/-- A number is written with digits only. -/
theorem isDigit_of_mem_digitsWithin {b : UInt8} :
    ∀ {fuel n : Nat}, b ∈ digitsWithin fuel n → isDigit b = true := by
  intro fuel
  induction fuel with
  | zero => intro n h; exact absurd h List.not_mem_nil
  | succ fuel ih =>
    intro n h
    rw [digitsWithin] at h
    split at h
    · next hn => rw [List.mem_singleton.mp h]; exact isDigit_digit hn
    · rcases List.mem_append.mp h with h | h
      · exact ih h
      · rw [List.mem_singleton.mp h]; exact isDigit_digit (by omega)

theorem isDigit_of_mem_ofNat {b : UInt8} {n : Nat} (h : b ∈ ofNat n) : isDigit b = true :=
  isDigit_of_mem_digitsWithin h

theorem ofNat_ne_nil (n : Nat) : ofNat n ≠ [] := by
  rw [ofNat, digitsWithin]
  split <;> simp

/-- A number with another digit behind it is larger, so it is the decimal form of no number up to it. -/
theorem ofNat_append_digit_ne {m n d : Nat} (hpos : 0 < d) (hd : d < 10) (hmn : n ≤ m) :
    ofNat m ++ [digit d] ≠ ofNat n := by
  intro h
  have hv := digitsValue?_append (ofNat m) [digit d] 0
  rw [h, digitsValue?_ofNat, digitsValue?_ofNat, Option.bind_some, digitsValue?_digit hd,
    Option.some.injEq] at hv
  omega

end Text

/-! ## The map of taken names -/

namespace IdentifierMap

/-- A name is taken if it is a key of the map. -/
theorem contains_iff {ids : IdentifierMap} {x : Text} :
    ids.contains x = true ↔ x ∈ ids.entries.map Prod.fst := by
  rw [contains, next?, List.lookup_isSome_iff, List.mem_map]
  constructor
  · rintro ⟨e, he, hx⟩
    exact ⟨e, he, (beq_iff_eq.mp hx).symm⟩
  · rintro ⟨e, he, hx⟩
    exact ⟨e, he, beq_iff_eq.mpr hx.symm⟩

/-- Setting an entry takes its name and no other. -/
theorem mem_keys_setEntry {x name : Text} {n : Nat} (es : List (Text × Nat)) :
    x ∈ (setEntry name n es).map Prod.fst ↔ x = name ∨ x ∈ es.map Prod.fst := by
  induction es with
  | nil => simp [setEntry]
  | cons e rest ih =>
    rw [setEntry]
    split
    · next he => rw [List.map_cons, List.map_cons, List.mem_cons, List.mem_cons, he]; tauto
    · rw [List.map_cons, List.map_cons, List.mem_cons, List.mem_cons, ih]; tauto

@[simp]
theorem contains_set {ids : IdentifierMap} {x name : Text} {n : Nat} :
    (ids.set name n).contains x = true ↔ x = name ∨ ids.contains x = true := by
  rw [contains_iff, contains_iff, set, mem_keys_setEntry]

theorem lookup_cons_of_ne {x key : Text} {n : Nat} {es : List (Text × Nat)} (h : x ≠ key) :
    ((key, n) :: es).lookup x = es.lookup x := by
  rw [List.lookup_cons, beq_eq_false_iff_ne.mpr h]

/-- The entry that was set is found under its name, and under every other name what was found before. -/
theorem lookup_setEntry {x name : Text} {n : Nat} (es : List (Text × Nat)) :
    (setEntry name n es).lookup x = if x = name then some n else es.lookup x := by
  induction es with
  | nil =>
    rw [setEntry]
    by_cases hx : x = name
    · rw [if_pos hx, hx, List.lookup_cons_self]
    · rw [if_neg hx, lookup_cons_of_ne hx]
  | cons e rest ih =>
    obtain ⟨key, number⟩ := e
    rw [setEntry]
    by_cases hkey : key = name
    · rw [if_pos hkey, hkey]
      by_cases hx : x = name
      · rw [if_pos hx, hx, List.lookup_cons_self]
      · rw [if_neg hx, lookup_cons_of_ne hx, lookup_cons_of_ne hx]
    · rw [if_neg hkey]
      by_cases hx : x = key
      · rw [hx, if_neg hkey, List.lookup_cons_self, List.lookup_cons_self]
      · rw [lookup_cons_of_ne hx, lookup_cons_of_ne hx, ih]

theorem next?_set (ids : IdentifierMap) (name x : Text) (n : Nat) :
    (ids.set name n).next? x = if x = name then some n else ids.next? x :=
  lookup_setEntry ids.entries

/-- Reserving a name takes it, be it taken already or not. -/
@[simp]
theorem contains_reserve {ids : IdentifierMap} {x name : Text} :
    (ids.reserve name).contains x = true ↔ x = name ∨ ids.contains x = true := by
  rw [reserve]
  split
  · next h =>
    constructor
    · exact Or.inr
    · rintro (rfl | hx)
      · exact h
      · exact hx
  · exact contains_set

/-! ## Numbered names -/

/-- `v` is the name `base`, or that name with a number behind it. -/
def Numbered (base v : Text) : Prop := v = base ∨ ∃ k, v = base ++ Text.ofNat k

/-- Different numbers behind a name make different names. -/
theorem numbered_injective {base : Text} {i j : Nat}
    (h : base ++ Text.ofNat i = base ++ Text.ofNat j) : i = j :=
  Text.ofNat_injective (List.append_cancel_left h)

/-- **A free number exists.**  Were all of the tried numbers taken, then together with the name itself
there would be more taken names than the map has entries. -/
theorem exists_free {ids : IdentifierMap} {name : Text} (k : Nat) (h : ids.contains name = true) :
    ∃ j < ids.entries.length, ids.contains (name ++ Text.ofNat (k + j)) = false := by
  by_contra hall
  have htaken : ∀ j < ids.entries.length, ids.contains (name ++ Text.ofNat (k + j)) = true := by
    intro j hj
    by_contra hfree
    exact hall ⟨j, hj, Bool.eq_false_iff.mpr hfree⟩
  -- The name and as many numbered forms as there are entries would all be taken: one too many.
  let tried := (List.range ids.entries.length).map fun j => name ++ Text.ofNat (k + j)
  have hnodup : (name :: tried).Nodup := by
    rw [List.nodup_cons]
    constructor
    · intro hmem
      obtain ⟨j, _, hj⟩ := List.mem_map.mp hmem
      exact Text.ofNat_ne_nil _ (List.self_eq_append_right.mp hj.symm)
    · refine List.Nodup.map (fun i j hij => ?_) List.nodup_range
      have := numbered_injective hij
      omega
  have hsub : name :: tried ⊆ ids.entries.map Prod.fst := by
    intro x hx
    rw [← contains_iff]
    rcases List.mem_cons.mp hx with rfl | hx
    · exact h
    · obtain ⟨j, hj, rfl⟩ := List.mem_map.mp hx
      exact htaken j (List.mem_range.mp hj)
  have hlen := (hnodup.subperm hsub).length_le
  simp only [tried, List.length_cons, List.length_map, List.length_range] at hlen
  omega

/-- If one of the numbers that are tried is free, so is the first one that is found. -/
theorem firstFree_free {ids : IdentifierMap} {name : Text} :
    ∀ {tries k : Nat}, (∃ j < tries, ids.contains (name ++ Text.ofNat (k + j)) = false) →
      ids.contains (name ++ Text.ofNat (ids.firstFree name tries k)) = false := by
  intro tries
  induction tries with
  | zero => rintro k ⟨j, hj, _⟩; omega
  | succ tries ih =>
    rintro k ⟨j, hj, hfree⟩
    rw [firstFree]
    split
    · next htaken =>
      -- The number `k` itself is taken, so the free one lies behind it.
      have hj0 : j ≠ 0 := by
        rintro rfl
        rw [Nat.add_zero, htaken] at hfree
        exact Bool.noConfusion hfree
      exact ih ⟨j - 1, by omega, by rwa [show k + 1 + (j - 1) = k + j from by omega]⟩
    · next hfree => exact Bool.eq_false_iff.mpr hfree

/-- The numbers are tried upwards. -/
theorem le_firstFree (ids : IdentifierMap) (name : Text) :
    ∀ tries k : Nat, k ≤ ids.firstFree name tries k := by
  intro tries
  induction tries with
  | zero => intro k; exact Nat.le_refl k
  | succ tries ih =>
    intro k
    rw [firstFree]
    split
    · exact Nat.le_of_succ_le (ih (k + 1))
    · exact Nat.le_refl k

/-! ## Names that are handed out -/

/-- A name that is free is handed out as it is. -/
theorem makeUnique_of_free {ids : IdentifierMap} {name : Text} (h : ids.next? name = none) :
    ids.makeUnique name = (name, ids.set name 1) := by
  rw [makeUnique, h]

/-- A name that is taken gets a number behind it, and both are taken from then on. -/
theorem makeUnique_of_taken {ids : IdentifierMap} {name : Text} {next : Nat}
    (h : ids.next? name = some next) :
    ∃ k, next ≤ k ∧ ids.contains (name ++ Text.ofNat k) = false ∧
      ids.makeUnique name =
        (name ++ Text.ofNat k, (ids.set name (k + 1)).set (name ++ Text.ofNat k) 1) := by
  have hname : ids.contains name = true := by rw [contains, h]; rfl
  refine ⟨ids.firstFree name ids.entries.length next, le_firstFree _ _ _ _, ?_, ?_⟩
  · exact firstFree_free (exists_free next hname)
  · rw [makeUnique, h]

/-- A name that is handed out was free. -/
theorem makeUnique_fresh (ids : IdentifierMap) (name : Text) :
    ids.contains (ids.makeUnique name).1 = false := by
  cases h : ids.next? name with
  | none => rw [makeUnique_of_free h, contains, h]; rfl
  | some next =>
    obtain ⟨k, _, hfree, heq⟩ := makeUnique_of_taken h
    rw [heq]
    exact hfree

/-- Handing out a name takes that name and no other. -/
@[simp]
theorem contains_makeUnique {ids : IdentifierMap} {name x : Text} :
    (ids.makeUnique name).2.contains x = true ↔
      x = (ids.makeUnique name).1 ∨ ids.contains x = true := by
  cases h : ids.next? name with
  | none => rw [makeUnique_of_free h, contains_set]
  | some next =>
    obtain ⟨k, _, _, heq⟩ := makeUnique_of_taken h
    have hname : ids.contains name = true := by rw [contains, h]; rfl
    rw [heq, contains_set, contains_set]
    constructor
    · rintro (hx | rfl | hx)
      · exact Or.inl hx
      · exact Or.inr hname
      · exact Or.inr hx
    · rintro (hx | hx)
      · exact Or.inl hx
      · exact Or.inr (Or.inr hx)

/-- What is handed out for a name is the name, with a number if need be. -/
theorem makeUnique_numbered (ids : IdentifierMap) (name : Text) :
    Numbered name (ids.makeUnique name).1 := by
  cases h : ids.next? name with
  | none => rw [makeUnique_of_free h]; exact Or.inl rfl
  | some next =>
    obtain ⟨k, _, _, heq⟩ := makeUnique_of_taken h
    rw [heq]
    exact Or.inr ⟨k, rfl⟩

end IdentifierMap

/-! ## Legal identifiers -/

namespace Identifier

/-- A byte that identifiers are made of. -/
def isWordByte (b : UInt8) : Bool := Text.isDigit b || Text.isLetter b || b == underscore

theorem isWordByte_of_isDigit {b : UInt8} (h : Text.isDigit b = true) : isWordByte b = true := by
  rw [isWordByte, h]
  rfl

/-- Mending a byte gives a letter, a digit or an underscore. -/
theorem isWordByte_mendByte (b : UInt8) : isWordByte (mendByte b) = true := by
  rw [mendByte]
  split
  · next h => rw [isWordByte, h]; rfl
  · rfl

/-- Dropping underscores makes no new byte. -/
theorem mem_of_mem_collapse {b : UInt8} :
    ∀ {t : Text} {after : Bool}, b ∈ collapse after t → b ∈ t := by
  intro t
  induction t with
  | nil => intro after h; exact h
  | cons a t ih =>
    intro after h
    rw [collapse] at h
    split at h
    · split at h
      · exact List.mem_cons_of_mem a (ih h)
      · rcases List.mem_cons.mp h with h | h
        · exact List.mem_cons.mpr (Or.inl h)
        · exact List.mem_cons_of_mem a (ih h)
    · rcases List.mem_cons.mp h with h | h
      · exact List.mem_cons.mpr (Or.inl h)
      · exact List.mem_cons_of_mem a (ih h)

/-- Of the underscores of a text at least one is left. -/
theorem underscore_mem_collapse :
    ∀ {t : Text}, underscore ∈ t → underscore ∈ collapse false t := by
  intro t
  induction t with
  | nil => intro h; exact h
  | cons a t ih =>
    intro h
    rw [collapse]
    by_cases ha : a = underscore
    · rw [if_pos ha, ha]
      exact List.mem_cons_self
    · rw [if_neg ha]
      rcases List.mem_cons.mp h with h | h
      · exact absurd h.symm ha
      · exact List.mem_cons_of_mem a (ih h)

/-- Without underscores nothing is dropped. -/
theorem collapse_of_not_mem :
    ∀ {t : Text} {after : Bool}, underscore ∉ t → collapse after t = t := by
  intro t
  induction t with
  | nil => intro after _; rfl
  | cons a t ih =>
    intro after h
    rw [List.mem_cons, not_or] at h
    rw [collapse, if_neg (Ne.symm h.1), ih h.2]

/-- **A mended name is a word.** -/
theorem isWordByte_of_mem_legal {b : UInt8} {name : Text} (h : b ∈ legal name) :
    isWordByte b = true := by
  have hbody : b ∈ collapse false (name.map mendByte) → isWordByte b = true := by
    intro hb
    obtain ⟨a, _, rfl⟩ := List.mem_map.mp (mem_of_mem_collapse hb)
    exact isWordByte_mendByte a
  rw [legal] at h
  split at h
  · rw [List.mem_singleton.mp h]; rfl
  · split at h
    · rcases List.mem_cons.mp h with rfl | h
      · rfl
      · exact hbody h
    · exact hbody h

/-- A name with an underscore has one in its legal form. -/
theorem underscore_mem_legal {name : Text} (h : underscore ∈ name) : underscore ∈ legal name := by
  have hbody : underscore ∈ collapse false (name.map mendByte) :=
    underscore_mem_collapse (List.mem_map.mpr ⟨underscore, h, rfl⟩)
  rw [legal]
  split
  · exact List.mem_cons_self
  · split
    · exact List.mem_cons_self
    · exact hbody

/-- A word without an underscore is the legal form of no name but itself. -/
theorem eq_of_legal_eq {name word : Text} (hword : underscore ∉ word) (h : legal name = word) :
    name = word := by
  subst h
  rw [legal] at hword ⊢
  by_cases hname : name = []
  · rw [if_pos hname] at hword
    exact absurd List.mem_cons_self hword
  · rw [if_neg hname] at hword ⊢
    split at hword
    · exact absurd List.mem_cons_self hword
    · next hguard =>
      -- A byte that is mended becomes an underscore, and one of those would be left.
      have hmend : ∀ b ∈ name, mendByte b = b := by
        intro b hb
        by_contra hne
        have hb95 : mendByte b = underscore := by
          rw [mendByte] at hne ⊢
          split at hne
          · exact absurd rfl hne
          · next hbad => rw [if_neg hbad]
        exact hword (underscore_mem_collapse (List.mem_map.mpr ⟨b, hb, hb95⟩))
      have hmap : name.map mendByte = name := by
        rw [List.map_congr_left hmend, List.map_id']
      rw [hmap] at hword
      rw [if_neg hguard, hmap]
      refine (collapse_of_not_mem ?_).symm
      intro hmem
      exact hword (underscore_mem_collapse hmem)

end Identifier
end ShadeGraph
