/-
  What a cache answers after a history.

  1. A table without a key twice is a map: it finds exactly what it lists (`FragmentTable.find?_eq_some`), and
     storing and removing change one key of it.
  2. A history says by itself what is stored: the last fragment that was put under a key, unless the key was
     removed since (`LastPut`).  One more step puts a fragment, or touches another key or none
     (`lastPut_concat`).
  3. `Holds` ties the two together, and every step keeps it.  Fragments that can be stored come back as they
     were, so the answers of the cache are those of the history (`cache_answers_last_put`).
-/
import ShadeGraph.Cache.Basic
import ShadeGraph.Proofs.FragmentCodec

namespace ShadeGraph

/-! ## Tables as maps -/

namespace FragmentTable

/-- No key is there twice. -/
def Unique (t : FragmentTable) : Prop := (t.entries.map Prod.fst).Nodup

theorem unique_empty : empty.Unique := List.nodup_nil

section

variable {t : FragmentTable}

theorem mem_erase {key k b : Text} : (k, b) ∈ (t.erase key).entries ↔ k ≠ key ∧ (k, b) ∈ t.entries := by
  rw [erase, List.mem_filter, bne_iff_ne, and_comm]

/-- Inserting replaces what is under the key. -/
theorem mem_insert {key bytes k b : Text} : (k, b) ∈ (t.insert key bytes).entries ↔
    (k = key ∧ b = bytes) ∨ (k ≠ key ∧ (k, b) ∈ t.entries) := by
  rw [insert, List.mem_append, mem_erase, List.mem_singleton, Prod.mk.injEq, or_comm]

theorem Unique.erase (h : t.Unique) (key : Text) : (t.erase key).Unique :=
  List.Nodup.sublist (List.filter_sublist.map Prod.fst) h

/-- Inserting keeps keys unique, because the old entry of the key is taken away. -/
theorem Unique.insert (h : t.Unique) (key bytes : Text) : (t.insert key bytes).Unique := by
  rw [Unique, FragmentTable.insert, List.map_append]
  refine List.nodup_append.mpr ⟨h.erase key, List.nodup_singleton key, fun k hk k' hk' heq => ?_⟩
  obtain ⟨⟨k, b⟩, he, rfl⟩ := List.mem_map.mp hk
  exact (mem_erase.mp he).1 (heq.trans (List.mem_singleton.mp hk'))

/-- A table without a key twice finds what it lists. -/
theorem find?_eq_some (h : t.Unique) {key bytes : Text} :
    t.find? key = some bytes ↔ (key, bytes) ∈ t.entries := by
  rw [find?, Option.map_eq_some_iff]
  constructor
  · rintro ⟨e, he, rfl⟩
    have hkey : e.1 = key := by simpa using List.find?_some he
    exact hkey ▸ List.mem_of_find?_eq_some he
  · intro hmem
    have hsome : (t.entries.find? (·.1 == key)).isSome = true :=
      List.find?_isSome.mpr ⟨_, hmem, beq_self_eq_true key⟩
    obtain ⟨e, he⟩ := Option.isSome_iff_exists.mp hsome
    have hkey : e.1 = key := by simpa using List.find?_some he
    have heq : e = (key, bytes) :=
      List.inj_on_of_nodup_map h (List.mem_of_find?_eq_some he) hmem hkey
    exact ⟨e, he, by rw [heq]⟩

end

end FragmentTable

/-! ## Histories -/

/-- A step of a history of a cache. -/
inductive CacheStep where
  | put (key : Text) (f : Fragment)
  | delete (key : Text)
  | get (key : Text)
  | size
  deriving DecidableEq, Repr

/-- What a cache answers. -/
inductive CacheAnswer where
  | done
  | fragment (f : Fragment)
  | number (n : Nat)
  deriving DecidableEq, Repr

namespace CacheStep

/-- The key under which a step changes something. -/
def changed? : CacheStep → Option Text
  | .put key _ | .delete key => some key
  | .get _ | .size => none

end CacheStep

/-- The last fragment that a history puts under a key, and does not remove again. -/
def LastPut (history : List CacheStep) (key : Text) (f : Fragment) : Prop :=
  ∃ before after, history = before ++ .put key f :: after ∧ ∀ s ∈ after, s.changed? ≠ some key

theorem not_lastPut_nil (key : Text) (f : Fragment) : ¬ LastPut [] key f := by
  rintro ⟨before, after, hempty, _⟩
  exact List.append_ne_nil_of_right_ne_nil before (List.cons_ne_nil _ after) hempty.symm

/-- One more step puts the fragment, or leaves the key alone. -/
theorem lastPut_concat {history : List CacheStep} {s : CacheStep} {key : Text} {f : Fragment} :
    LastPut (history ++ [s]) key f ↔
      s = .put key f ∨ (s.changed? ≠ some key ∧ LastPut history key f) := by
  constructor
  · rintro ⟨before, after, heq, hafter⟩
    rcases List.eq_nil_or_concat' after with rfl | ⟨after, s', rfl⟩
    · obtain ⟨_, hs⟩ := List.append_inj' heq rfl
      exact Or.inl (List.cons.inj hs).1
    · rw [← List.cons_append, ← List.append_assoc] at heq
      obtain ⟨hhistory, hs⟩ := List.append_inj' heq rfl
      obtain rfl : s = s' := (List.cons.inj hs).1
      exact Or.inr ⟨hafter s (by simp), before, after, hhistory,
        fun s' hs' => hafter s' (List.mem_append_left _ hs')⟩
  · rintro (rfl | ⟨hs, before, after, rfl, hafter⟩)
    · exact ⟨history, [], rfl, fun s hs => by cases hs⟩
    · refine ⟨before, after ++ [s], by simp, fun s' hs' => ?_⟩
      rcases List.mem_append.mp hs' with hs' | hs'
      · exact hafter s' hs'
      · exact List.mem_singleton.mp hs' ▸ hs

/-- What was put last was put. -/
theorem LastPut.mem {history : List CacheStep} {key : Text} {f : Fragment} (h : LastPut history key f) :
    .put key f ∈ history := by
  obtain ⟨before, after, rfl, _⟩ := h
  simp

namespace Cache

/-- Gives the cache after a change, or why it did not change. -/
def changed (c : Cache) : Except CacheError Cache → Except CacheError CacheAnswer × Cache
  | .ok c' => (.ok .done, c')
  | .error e => (.error e, c)

/-- One step: the answer, and the cache afterwards. -/
def perform (c : Cache) : CacheStep → Except CacheError CacheAnswer × Cache
  | .put key f => c.changed (c.put key f)
  | .delete key => c.changed (c.delete key)
  | .get key => ((c.get key).map .fragment, c)
  | .size => (c.size.map .number, c)

/-- The cache after a history. -/
def after (c : Cache) (history : List CacheStep) : Cache := history.foldl (fun c s => (c.perform s).2) c

/-- The cache is open and holds what a history has stored, each key once. -/
structure Holds (c : Cache) (history : List CacheStep) : Prop where
  isOpen : c.isOpen = true
  unique : c.table.Unique
  entries : ∀ key bytes, (key, bytes) ∈ c.table.entries ↔ ∃ f, LastPut history key f ∧ bytes = f.encode

/-- A new cache is open and holds nothing. -/
theorem holds_create (place : CachePlace) : (create place).Holds [] where
  isOpen := rfl
  unique := FragmentTable.unique_empty
  entries key bytes := by
    constructor
    · intro h
      cases h
    · rintro ⟨f, hf, _⟩
      exact absurd hf (not_lastPut_nil key f)

namespace Holds

variable {c : Cache} {history : List CacheStep}

/-- An open cache does what it is asked. -/
theorem whenOpen (h : c.Holds history) {α : Type} (r : CacheRequest)
    (f : FragmentTable → Except CacheError α) : c.whenOpen r f = f c.table := if_pos h.isOpen

/-- Putting a fragment into an open cache cannot fail. -/
theorem put_eq (h : c.Holds history) (key : Text) (f : Fragment) :
    c.put key f = .ok { c with table := c.table.store key f } := h.whenOpen .save _

/-- Removing a key from an open cache cannot fail, be it there or not. -/
theorem delete_eq (h : c.Holds history) (key : Text) :
    c.delete key = .ok { c with table := c.table.erase key } := h.whenOpen .delete _

/-- Every step keeps what the cache holds in line with the history. -/
theorem perform (h : c.Holds history) (s : CacheStep) : (c.perform s).2.Holds (history ++ [s]) := by
  cases s with
  | put key f =>
    rw [Cache.perform, h.put_eq]
    refine ⟨h.isOpen, h.unique.insert key f.encode, fun k b => ?_⟩
    show (k, b) ∈ (c.table.insert key f.encode).entries ↔ _
    simp only [FragmentTable.mem_insert, h.entries, lastPut_concat, CacheStep.changed?]
    grind
  | delete key =>
    rw [Cache.perform, h.delete_eq]
    refine ⟨h.isOpen, h.unique.erase key, fun k b => ?_⟩
    show (k, b) ∈ (c.table.erase key).entries ↔ _
    simp only [FragmentTable.mem_erase, h.entries, lastPut_concat, CacheStep.changed?]
    grind
  | get _ | size =>
    refine ⟨h.isOpen, h.unique, fun k b => ?_⟩
    simp only [Cache.perform, h.entries, lastPut_concat, CacheStep.changed?]
    grind

/-- After a history, a new cache holds what was stored. -/
theorem of_after (place : CachePlace) (history : List CacheStep) : ((create place).after history).Holds history := by
  induction history using List.reverseRecOn with
  | nil => exact holds_create place
  | append_singleton history s ih =>
    rw [after, List.foldl_append]
    exact ih.perform s

/-- What was put last is there, as long as it can be stored. -/
theorem get_of_lastPut (h : c.Holds history) {key : Text} {f : Fragment} (hf : LastPut history key f)
    (hstorable : f.Storable) : c.get key = .ok f := by
  have hfind : c.table.find? key = some f.encode :=
    (FragmentTable.find?_eq_some h.unique).mpr ((h.entries key f.encode).mpr ⟨f, hf, rfl⟩)
  rw [get, h.whenOpen, FragmentTable.fragment, hfind]
  simp only [hstorable.decode_encode]

/-- Under any other key there is nothing. -/
theorem get_of_not_lastPut (h : c.Holds history) {key : Text} (hnone : ∀ f, ¬ LastPut history key f) :
    c.get key = .error .notFound := by
  have hfind : c.table.find? key = none := by
    rw [Option.eq_none_iff_forall_ne_some]
    intro bytes hbytes
    obtain ⟨f, hf, _⟩ := (h.entries key bytes).mp ((FragmentTable.find?_eq_some h.unique).mp hbytes)
    exact hnone f hf
  rw [get, h.whenOpen, FragmentTable.fragment, hfind]

/-- The number of fragments is that of the keys with one. -/
theorem size_eq (h : c.Holds history) : ∃ keys : List Text, keys.Nodup ∧
    (∀ key, key ∈ keys ↔ ∃ f, LastPut history key f) ∧ c.size = .ok keys.length := by
  refine ⟨c.table.entries.map Prod.fst, h.unique, fun key => ?_, ?_⟩
  · simp only [List.mem_map, Prod.exists, h.entries]
    grind
  · rw [size, h.whenOpen, List.length_map]
    rfl

end Holds

/-- **A cache answers with what was put last.**  After every history of a new cache, in memory or in a file, of
fragments that can be stored: each of them is decoded from its encoding as it was; a key gives the fragment
that was put under it last and not removed since, and is not found if there is none; the size is the number
of keys that give one.  Putting and removing never fail, and asking changes nothing. -/
theorem cache_answers_last_put (place : CachePlace) (history : List CacheStep)
    (hfragments : ∀ key f, .put key f ∈ history → f.Storable) :
    (∀ key f, .put key f ∈ history → Fragment.decode f.encode = .ok f) ∧
    (∀ key f, ((create place).after history).get key = .ok f ↔ LastPut history key f) ∧
    (∀ key, ((create place).after history).get key = .error .notFound ↔ ∀ f, ¬ LastPut history key f) ∧
    (∃ keys : List Text, keys.Nodup ∧ (∀ key, key ∈ keys ↔ ∃ f, LastPut history key f) ∧
      ((create place).after history).size = .ok keys.length) ∧
    (∀ key f, (((create place).after history).perform (.put key f)).1 = .ok .done ∧
      (((create place).after history).perform (.delete key)).1 = .ok .done) ∧
    (∀ key, (((create place).after history).perform (.get key)).2 = (create place).after history) ∧
    (((create place).after history).perform .size).2 = (create place).after history := by
  have h := Holds.of_after place history
  have hget : ∀ key f, LastPut history key f → ((create place).after history).get key = .ok f :=
    fun key f hf => h.get_of_lastPut hf (hfragments key f hf.mem)
  -- Whatever is asked for, one of the two answers comes, and each excludes the other.
  have hcases : ∀ key, (∃ f, LastPut history key f) ∨
      ((create place).after history).get key = .error .notFound := by
    intro key
    by_cases hsome : ∃ f, LastPut history key f
    · exact Or.inl hsome
    · exact Or.inr (h.get_of_not_lastPut fun f hf => hsome ⟨f, hf⟩)
  refine ⟨fun key f hf => (hfragments key f hf).decode_encode, fun key f => ⟨fun hok => ?_, hget key f⟩,
    fun key => ⟨fun herror f hf => ?_, h.get_of_not_lastPut⟩, h.size_eq, fun key f => ⟨?_, ?_⟩,
    fun _ => rfl, rfl⟩
  · rcases hcases key with ⟨f', hf'⟩ | herror
    · rw [hget key f' hf'] at hok
      exact Except.ok.inj hok ▸ hf'
    · rw [herror] at hok
      cases hok
  · rw [hget key f hf] at herror
    cases herror
  · rw [perform, h.put_eq]
    rfl
  · rw [perform, h.delete_eq]
    rfl

/-- A fragment for a negative version, with a parameter that has no value and one whose numbers are an
infinity, a negative zero and the least number there is. -/
def storedFragment : Fragment :=
  ⟨"é", "f", "void f() \x7b\x7d", [],
    [⟨"tint", "tint", .color3, some (.ofNumbers .color3 [⟨0xFF800000⟩, ⟨0x80000000⟩, ⟨1⟩]), false⟩,
      ⟨"$envMatrix", "u_envMatrix", .matrix44, none, true⟩], true, ⟨-3⟩⟩

theorem storable_storedFragment : storedFragment.Storable where
  texts := by decide
  values := by decide
  parameters := by decide

/-- A history that stores under two keys, stores again under one and removes the other. -/
def storedHistory : List CacheStep :=
  [.put "k" .blank, .put "l" storedFragment, .get "k", .put "k" storedFragment, .delete "l", .size]

theorem cache_answers_last_put_stored :
    (∀ key f, .put key f ∈ storedHistory → f.Storable) ∧
      ((create .file).after storedHistory).get "k" = .ok storedFragment ∧
      ((create .file).after storedHistory).get "l" = .error .notFound := by
  have hblank : Fragment.blank.Storable := ⟨by decide, by decide, by decide⟩
  have hfragments : ∀ key f, .put key f ∈ storedHistory → f.Storable := by
    intro key f hf
    simp only [storedHistory, List.mem_cons, CacheStep.put.injEq, reduceCtorEq, false_or, or_false,
      List.not_mem_nil] at hf
    rcases hf with ⟨_, rfl⟩ | ⟨_, rfl⟩ | ⟨_, rfl⟩
    · exact hblank
    · exact storable_storedFragment
    · exact storable_storedFragment
  have hremoved : ∀ f, ¬ LastPut storedHistory "l" f := by
    intro f hf
    have hsize : LastPut (storedHistory.take 5 ++ [.size]) "l" f := hf
    obtain ⟨_, hf⟩ := (lastPut_concat.mp hsize).resolve_left CacheStep.noConfusion
    have hdelete : LastPut (storedHistory.take 4 ++ [.delete "l"]) "l" f := hf
    exact ((lastPut_concat.mp hdelete).resolve_left CacheStep.noConfusion).1 rfl
  obtain ⟨_, hget, hnone, _⟩ := cache_answers_last_put .file storedHistory hfragments
  exact ⟨hfragments,
    (hget "k" storedFragment).mpr ⟨storedHistory.take 3, storedHistory.drop 4, rfl, by decide⟩,
    (hnone "l").mpr hremoved⟩

end Cache
end ShadeGraph
