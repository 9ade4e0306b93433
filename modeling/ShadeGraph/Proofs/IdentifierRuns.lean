/-
  Runs of an identifier map.

  A taken name keeps the number that the search for a free one starts from, so that it does not start from
  one again.  That the number it ends at is nevertheless the least one that is free rests on one invariant:

  1. `Counted`: below the number of a taken name, every numbered form of it is taken.  A new name starts at
     one, and a name that is asked for again moves on past the form that is handed out.
  2. `Granted` says all that handing out a name does; it holds of every counted map (`granted_makeUnique`).
  3. A run of requests keeps a map counted, and hands out names that were not taken when it began.  Nothing
     is ever given back, so no two of them are equal.
-/
import Mathlib.Order.Bounds.Basic
import ShadeGraph.Proofs.Identifier

namespace ShadeGraph

namespace IdentifierMap

variable {ids : IdentifierMap}

/-! ## The search for a free number -/

/-- What the search passes is taken. -/
theorem contains_of_lt_firstFree {name : Text} : ∀ {tries k j : Nat}, k ≤ j →
    j < ids.firstFree name tries k → ids.contains (name ++ Text.ofNat j) = true := by
  intro tries
  induction tries with
  | zero =>
    intro k j hle hlt
    exact absurd hlt (Nat.not_lt.mpr hle)
  | succ tries ih =>
    intro k j hle hlt
    rw [firstFree] at hlt
    split at hlt
    · next htaken =>
      rcases Nat.eq_or_lt_of_le hle with rfl | hlater
      · exact htaken
      · exact ih hlater hlt
    · exact absurd hlt (Nat.not_lt.mpr hle)

/-- A free number, in front of which all from `next` on are taken, is where every search that gets there
ends, however many tries it has. -/
theorem firstFree_eq {name : Text} {k next tries : Nat} (hnext : next ≤ k) (htries : k < next + tries)
    (hfree : ids.contains (name ++ Text.ofNat k) = false)
    (hbefore : ∀ j, next ≤ j → j < k → ids.contains (name ++ Text.ofNat j) = true) :
    ids.firstFree name tries next = k := by
  have hwithin : ∃ j < tries, ids.contains (name ++ Text.ofNat (next + j)) = false :=
    ⟨k - next, by omega, by rwa [Nat.add_sub_cancel' hnext]⟩
  have hfound := firstFree_free hwithin
  rcases Nat.lt_trichotomy (ids.firstFree name tries next) k with hlt | heq | hgt
  · rw [hbefore _ (le_firstFree ids name tries next) hlt] at hfound
    cases hfound
  · exact heq
  · rw [contains_of_lt_firstFree hnext hgt] at hfree
    cases hfree

/-! ## Numbers that skip nothing free -/

/-- Below the number of a taken name, every numbered form of it is taken. -/
def Counted (ids : IdentifierMap) : Prop :=
  ∀ name next, ids.next? name = some next →
    0 < next ∧ ∀ j, 0 < j → j < next → ids.contains (name ++ Text.ofNat j) = true

theorem counted_empty : empty.Counted := fun _ _ h => by cases h

/-- Every reserved word starts at one. -/
theorem counted_reserved : reserved.Counted := by
  intro name next h
  obtain ⟨before, after, hentries, _⟩ := List.lookup_eq_some_iff.mp h
  have hentry : (name, next) ∈ reserved.entries := by rw [hentries]; simp
  obtain ⟨_, _, hword⟩ := List.mem_map.mp hentry
  obtain rfl : 1 = next := congrArg Prod.snd hword
  exact ⟨Nat.one_pos, fun j hpos hlt => by omega⟩

namespace Counted

/-- A name that starts at one has nothing below it. -/
theorem set_one (h : ids.Counted) (name : Text) : (ids.set name 1).Counted := by
  intro x next hx
  rw [next?_set] at hx
  split at hx
  · obtain rfl := Option.some.inj hx
    exact ⟨Nat.one_pos, fun j hpos hlt => by omega⟩
  · obtain ⟨hpos, hbelow⟩ := h x next hx
    exact ⟨hpos, fun j hj hlt => contains_set.mpr (Or.inr (hbelow j hj hlt))⟩

theorem reserve (h : ids.Counted) (name : Text) : (ids.reserve name).Counted := by
  rw [IdentifierMap.reserve]
  split
  · exact h
  · exact h.set_one name

/-- The form that is handed out next is the first free one of all, not only of those from the stored number
on, and every search with enough tries finds it. -/
theorem exists_least (h : ids.Counted) {name : Text} {next : Nat} (hname : ids.next? name = some next) :
    ∃ k, IsLeast {k | 0 < k ∧ ids.contains (name ++ Text.ofNat k) = false} k ∧
      (∀ tries, ids.entries.length ≤ tries → ids.firstFree name tries next = k) ∧
      ids.makeUnique name =
        (name ++ Text.ofNat k, (ids.set name (k + 1)).set (name ++ Text.ofNat k) 1) := by
  obtain ⟨hpos, hbelow⟩ := h name next hname
  have hcontains : ids.contains name = true := by rw [contains, hname]; rfl
  obtain ⟨j, hj, hfree⟩ := exists_free next hcontains
  have hfirst := firstFree_free ⟨j, hj, hfree⟩
  have hnext := le_firstFree ids name ids.entries.length next
  have hbefore : ∀ i, next ≤ i → i < ids.firstFree name ids.entries.length next →
      ids.contains (name ++ Text.ofNat i) = true := fun i => contains_of_lt_firstFree
  -- The free number `next + j` is within the tries, so the search does not run out of them.
  have hwithin : ids.firstFree name ids.entries.length next ≤ next + j := by
    by_contra hlt
    rw [hbefore (next + j) (Nat.le_add_right next j) (Nat.lt_of_not_le hlt)] at hfree
    cases hfree
  refine ⟨ids.firstFree name ids.entries.length next, ⟨⟨by omega, hfirst⟩, fun i hi => ?_⟩,
    fun tries htries => firstFree_eq hnext (by omega) hfirst hbefore, by rw [makeUnique, hname]⟩
  by_contra hlt
  have htaken : ids.contains (name ++ Text.ofNat i) = true := by
    by_cases hle : next ≤ i
    · exact hbefore i hle (Nat.lt_of_not_le hlt)
    · exact hbelow i hi.1 (Nat.lt_of_not_le hle)
  rw [hi.2] at htaken
  cases htaken

/-- Handing out a name keeps the numbers from skipping a free one. -/
theorem makeUnique (h : ids.Counted) (name : Text) : (ids.makeUnique name).2.Counted := by
  cases hname : ids.next? name with
  | none =>
    rw [makeUnique_of_free hname]
    exact h.set_one name
  | some next =>
    obtain ⟨k, hleast, _, heq⟩ := h.exists_least hname
    rw [heq]
    intro x number hx
    rw [next?_set, next?_set] at hx
    split at hx
    · obtain rfl := Option.some.inj hx
      exact ⟨Nat.one_pos, fun j hpos hlt => by omega⟩
    · split at hx
      · next hself =>
        -- The name itself has moved on to `k + 1`: the forms below `k` were taken, and `k` is now.
        obtain rfl := Option.some.inj hx
        refine ⟨Nat.succ_pos k, fun j hpos hlt => ?_⟩
        rw [contains_set, contains_set, hself]
        rcases Nat.eq_or_lt_of_le (Nat.le_of_lt_succ hlt) with rfl | hbelow
        · exact Or.inl rfl
        · refine Or.inr (Or.inr ?_)
          by_contra hfree
          exact absurd (hleast.2 ⟨hpos, Bool.eq_false_iff.mpr hfree⟩) (Nat.not_le.mpr hbelow)
      · obtain ⟨hpos, hbelow⟩ := h x number hx
        refine ⟨hpos, fun j hj hlt => ?_⟩
        rw [contains_set, contains_set]
        exact Or.inr (Or.inr (hbelow j hj hlt))

end Counted

/-! ## What handing out a name does -/

/-- The result of asking a map for a name: the name itself if it was free, otherwise the name with the least
positive number that makes it free.  The search for that number ends, with the same result for every number
of tries from that of the names on.  What is handed out was free, and is all that is taken. -/
structure Granted (ids : IdentifierMap) (name : Text) (result : Text × IdentifierMap) : Prop where
  own : ids.contains name = false → result.1 = name
  numbered : ∀ next, ids.next? name = some next →
    ∃ k, IsLeast {k | 0 < k ∧ ids.contains (name ++ Text.ofNat k) = false} k ∧
      (∀ tries, ids.entries.length ≤ tries → ids.firstFree name tries next = k) ∧
      result.1 = name ++ Text.ofNat k
  new : ids.contains result.1 = false
  taken : ∀ x, result.2.contains x = true ↔ x = result.1 ∨ ids.contains x = true

/-- A map whose numbers skip nothing free grants every name. -/
theorem granted_makeUnique (h : ids.Counted) (name : Text) : ids.Granted name (ids.makeUnique name) where
  own hfree := by
    have hnone : ids.next? name = none := Option.not_isSome_iff_eq_none.mp (Bool.eq_false_iff.mp hfree)
    rw [makeUnique_of_free hnone]
  numbered next hname := by
    obtain ⟨k, hleast, htries, heq⟩ := h.exists_least hname
    exact ⟨k, hleast, htries, by rw [heq]⟩
  new := makeUnique_fresh ids name
  taken _ := contains_makeUnique

end IdentifierMap

/-! ## Runs -/

/-- What is asked of an identifier map. -/
inductive NameRequest where
  /-- Take a name. -/
  | reserve (name : Text)
  /-- Hand out a name that is not taken. -/
  | unique (name : Text)
  deriving DecidableEq, Repr

namespace IdentifierMap

/-- The map after one request. -/
def serve (ids : IdentifierMap) : NameRequest → IdentifierMap
  | .reserve name => ids.reserve name
  | .unique name => (ids.makeUnique name).2

/-- The map after some requests. -/
def after (ids : IdentifierMap) (requests : List NameRequest) : IdentifierMap := requests.foldl serve ids

/-- The names that are handed out to some requests, in order. -/
def handedOut (ids : IdentifierMap) : List NameRequest → List Text
  | [] => []
  | .reserve name :: rest => handedOut (ids.reserve name) rest
  | .unique name :: rest => (ids.makeUnique name).1 :: handedOut (ids.makeUnique name).2 rest

/-- The requests of two lists are served one list after the other. -/
theorem handedOut_append (requests rest : List NameRequest) : ∀ ids : IdentifierMap,
    ids.handedOut (requests ++ rest) = ids.handedOut requests ++ (ids.after requests).handedOut rest := by
  induction requests with
  | nil => exact fun _ => rfl
  | cons r requests ih =>
    intro ids
    cases r with
    | reserve name => exact ih (ids.reserve name)
    | unique name => exact congrArg (List.cons _) (ih (ids.makeUnique name).2)

/-- One request keeps a map counted. -/
theorem Counted.serve {ids : IdentifierMap} (h : ids.Counted) (r : NameRequest) : (ids.serve r).Counted := by
  cases r with
  | reserve name => exact h.reserve name
  | unique name => exact h.makeUnique name

/-- Requests keep a map counted. -/
theorem Counted.after {ids : IdentifierMap} (h : ids.Counted) (requests : List NameRequest) :
    (ids.after requests).Counted := by
  induction requests generalizing ids with
  | nil => exact h
  | cons r requests ih => exact ih (h.serve r)

/-- What is handed out was not taken before. -/
theorem contains_of_mem_handedOut {x : Text} : ∀ {requests : List NameRequest} {ids : IdentifierMap},
    x ∈ ids.handedOut requests → ids.contains x = false := by
  intro requests
  induction requests with
  | nil => intro ids hx; cases hx
  | cons r requests ih =>
    intro ids hx
    cases r with
    | reserve name =>
      have hlater := ih hx
      rw [Bool.eq_false_iff] at hlater ⊢
      exact fun htaken => hlater (contains_reserve.mpr (Or.inr htaken))
    | unique name =>
      rcases List.mem_cons.mp hx with rfl | hx
      · exact makeUnique_fresh ids name
      · have hlater := ih hx
        rw [Bool.eq_false_iff] at hlater ⊢
        exact fun htaken => hlater (contains_makeUnique.mpr (Or.inr htaken))

/-- No name is handed out twice. -/
theorem nodup_handedOut (requests : List NameRequest) : ∀ ids : IdentifierMap,
    (ids.handedOut requests).Nodup := by
  induction requests with
  | nil => exact fun _ => List.nodup_nil
  | cons r requests ih =>
    intro ids
    cases r with
    | reserve name => exact ih (ids.reserve name)
    | unique name =>
      refine List.nodup_cons.mpr ⟨fun hmem => ?_, ih (ids.makeUnique name).2⟩
      have hfree := contains_of_mem_handedOut hmem
      rw [contains_makeUnique.mpr (Or.inl rfl)] at hfree
      cases hfree

/-- What is reserved is not handed out any more. -/
theorem reserved_not_mem_handedOut (ids : IdentifierMap) (x : Text) (rest : List NameRequest) :
    x ∉ (ids.reserve x).handedOut rest := by
  intro hmem
  have hfree := contains_of_mem_handedOut hmem
  rw [contains_reserve.mpr (Or.inl rfl)] at hfree
  cases hfree

theorem contains_reserved {w : Text} (h : w ∈ Glsl.reservedWords) : reserved.contains w = true := by
  rw [contains_iff, reserved, List.map_map]
  exact List.mem_map.mpr ⟨w, h, rfl⟩

/-- **Every name that is handed out is the least free one, and no two are equal.**  From the empty map or the
one with the reserved words, whatever was asked before: a name that is free is handed out as it is, any other
with the least positive number that makes it free, and nothing else is taken by that.  The names of a whole
run are distinct.  None is a reserved word, and none was reserved before. -/
theorem unique_names_least {start : IdentifierMap} (hstart : start = .empty ∨ start = .reserved)
    (requests : List NameRequest) :
    (∀ name, (start.after requests).Granted name ((start.after requests).makeUnique name)) ∧
    (start.handedOut requests).Nodup ∧
    (start = .reserved → ∀ w ∈ Glsl.reservedWords, w ∉ start.handedOut requests) ∧
    ∀ before x rest, requests = before ++ .reserve x :: rest →
      start.handedOut requests =
        start.handedOut before ++ ((start.after before).reserve x).handedOut rest ∧
      x ∉ ((start.after before).reserve x).handedOut rest := by
  have hcounted : start.Counted := by
    rcases hstart with rfl | rfl
    · exact counted_empty
    · exact counted_reserved
  refine ⟨granted_makeUnique (hcounted.after requests), nodup_handedOut requests start, ?_, ?_⟩
  · rintro rfl w hw hmem
    have hfree := contains_of_mem_handedOut hmem
    rw [contains_reserved hw] at hfree
    cases hfree
  · rintro before x rest rfl
    exact ⟨handedOut_append before (.reserve x :: rest) start, reserved_not_mem_handedOut _ x rest⟩

/-- Requests for names of which some are numbered forms of others, and one is reserved. -/
def nestedRequests : List NameRequest :=
  [.unique "a", .unique "a1", .unique "a", .unique "a1", .reserve "b1", .unique "a", .unique "b", .unique "b"]

theorem unique_names_least_nested :
    empty.handedOut nestedRequests =
      ["a", "a1", "a2", "a11", "a3", "b", "b2"].map Text.ofString ∧
    (empty.after nestedRequests).Granted "a1" ((empty.after nestedRequests).makeUnique "a1") ∧
    (empty.handedOut nestedRequests).Nodup := by
  have hrun := unique_names_least (Or.inl rfl) nestedRequests
  exact ⟨by decide, hrun.1 "a1", hrun.2.1⟩

end IdentifierMap
end ShadeGraph
