/-
  Substitution is the leftmost-longest single pass.

  1. Rules are sorted, so the first one that matches is a longest one (`longestAt_of_find?`).  Of equal tokens the
     sort keeps the first in front, and that is the one that the table answers with (`lookup_rules`).
  2. `Factored` says how a text is read: from left to right, each factor is the longest token that stands
     there, or a byte at which none stands.  It speaks of the table only through its answers, so neither the
     order of its entries nor the order of the rules is in it.
  3. There is one reading (`exists_factored`, `Factored.unique`), and substitution writes what it says
     (`Factored.replace_eq`).  So tables with the same answers substitute alike.
-/
import Mathlib.Data.List.Sort
import ShadeGraph.Proofs.ContextReuse

namespace ShadeGraph

/-! ## Sorting -/

namespace Sorting

variable {α : Type} {before : α → α → Bool}

theorem insert_eq_orderedInsert (a : α) (xs : List α) :
    insert before a xs = xs.orderedInsert (fun a b => before a b = true) a := by
  induction xs with
  | nil => rfl
  | cons b xs ih => rw [insert, List.orderedInsert, ih]

/-- Sorting neither adds nor drops anything. -/
theorem mem_sort {x : α} {xs : List α} : x ∈ sort before xs ↔ x ∈ xs := by
  induction xs with
  | nil => rfl
  | cons y xs ih =>
    show x ∈ insert before y (sort before xs) ↔ _
    rw [insert_eq_orderedInsert, List.mem_orderedInsert, ih, List.mem_cons]

/-- Sorting puts elements into every order that agrees with the comparison. -/
theorem pairwise_sort {R : α → α → Prop} (htrans : ∀ {a b c}, R a b → R b c → R a c)
    (hbefore : ∀ {a b}, before a b = true → R a b) (hafter : ∀ {a b}, before a b = false → R b a)
    (xs : List α) : (sort before xs).Pairwise R := by
  have hinsert : ∀ (a : α) {ys : List α}, ys.Pairwise R → (insert before a ys).Pairwise R := by
    intro a ys
    induction ys with
    | nil => intro _; exact List.pairwise_singleton R a
    | cons b ys ih =>
      intro h
      obtain ⟨hb, hys⟩ := List.pairwise_cons.mp h
      rw [insert]
      split
      · next hab =>
        refine List.pairwise_cons.mpr ⟨fun x hx => ?_, h⟩
        rcases List.mem_cons.mp hx with rfl | hx
        · exact hbefore hab
        · exact htrans (hbefore hab) (hb x hx)
      · next hab =>
        refine List.pairwise_cons.mpr ⟨fun x hx => ?_, ih hys⟩
        rw [insert_eq_orderedInsert, List.mem_orderedInsert] at hx
        rcases hx with rfl | hx
        · exact hafter (Bool.eq_false_iff.mpr hab)
        · exact hb x hx
  induction xs with
  | nil => exact List.Pairwise.nil
  | cons x xs ih => exact hinsert x ih

/-- Sorting entries keeps what is found first, if an entry may stand before any other of its key. -/
theorem lookup_sort {before : Text × Text → Text × Text → Bool}
    (hsame : ∀ {a b}, a.1 = b.1 → before a b = true) (key : Text) (es : List (Text × Text)) :
    (sort before es).lookup key = es.lookup key := by
  have hinsert : ∀ (e : Text × Text) (es : List (Text × Text)),
      (insert before e es).lookup key = (e :: es).lookup key := by
    intro e es
    induction es with
    | nil => rfl
    | cons e' es ih =>
      rw [insert]
      split
      · rfl
      · next hnot =>
        -- entries of one key never change places
        have hne : e.1 ≠ e'.1 := fun heq => hnot (hsame heq)
        rw [List.lookup_cons, ih, List.lookup_cons, List.lookup_cons, List.lookup_cons]
        by_cases hkey : key = e.1
        · rw [hkey, beq_self_eq_true, beq_eq_false_iff_ne.mpr hne]
        · rw [beq_eq_false_iff_ne.mpr hkey]
  induction es with
  | nil => rfl
  | cons e es ih =>
    show (insert before e (sort before es)).lookup key = _
    rw [hinsert, List.lookup_cons, List.lookup_cons, ih]

end Sorting

namespace TokenTable

/-! ## The first rule that matches -/

variable {ts : TokenTable} {s t token value : Text}

/-- A table answers with a rule, but for the empty token, which has none. -/
theorem lookup_rules (ts : TokenTable) (h : token ≠ []) : ts.rules.lookup token = ts.get? token := by
  rw [rules, Sorting.lookup_sort, get?]
  · induction ts.entries with
    | nil => rfl
    | cons e es ih =>
      rw [List.filter_cons]
      by_cases he : e.1 = []
      · have hne : (token == e.1) = false := beq_eq_false_iff_ne.mpr (he ▸ h)
        rw [if_neg (by simp [he]), ih, List.lookup_cons, hne]
      · rw [if_pos (by simpa using he), List.lookup_cons, List.lookup_cons, ih]
  · intro a b hab
    have hle : ∀ x : Text, Text.le x x = true := by
      intro x
      induction x with
      | nil => rfl
      | cons b x ih => rw [Text.le, if_pos rfl, ih]
    show before a.1 b.1 = true
    rw [hab, before, if_pos rfl, hle]

theorem rules_ne_nil (ts : TokenTable) : ∀ r ∈ ts.rules, r.1 ≠ [] := by
  intro r hr
  simpa using (List.mem_filter.mp (Sorting.mem_sort.mp hr)).2

/-- Rules with longer tokens come first. -/
theorem pairwise_rules (ts : TokenTable) : ts.rules.Pairwise fun a b => b.1.length ≤ a.1.length := by
  refine Sorting.pairwise_sort (R := fun a b : Text × Text => b.1.length ≤ a.1.length)
    (fun hab hbc => Nat.le_trans hbc hab) ?_ ?_ _
  · intro a b h
    dsimp only [before] at h
    split at h
    · omega
    · have := of_decide_eq_true h
      omega
  · intro a b h
    dsimp only [before] at h
    split at h
    · omega
    · have := of_decide_eq_false h
      omega

/-- A token of the table that stands at the front of a text, and no longer one does. -/
structure LongestAt (ts : TokenTable) (t token value : Text) : Prop where
  ne_nil : token ≠ []
  entry : ts.get? token = some value
  stands : token <+: t
  longest : ∀ other replacement, ts.get? other = some replacement → other <+: t →
    other.length ≤ token.length

/-- No token of the table stands at the front of a text, the empty one aside. -/
def Free (ts : TokenTable) (t : Text) : Prop :=
  ∀ token value, ts.get? token = some value → token <+: t → token = []

theorem LongestAt.not_free (h : ts.LongestAt t token value) : ¬ ts.Free t :=
  fun hfree => h.ne_nil (hfree token value h.entry h.stands)

/-- Two longest tokens are one: they are prefixes of the same length. -/
theorem LongestAt.unique {token' value' : Text} (h : ts.LongestAt t token value)
    (h' : ts.LongestAt t token' value') : token = token' ∧ value = value' := by
  have hlength : token.length = token'.length :=
    Nat.le_antisymm (h'.longest token value h.entry h.stands) (h.longest token' value' h'.entry h'.stands)
  obtain rfl : token = token' :=
    (List.prefix_of_prefix_length_le h.stands h'.stands (Nat.le_of_eq hlength)).eq_of_length hlength
  exact ⟨rfl, Option.some.inj (h.entry.symm.trans h'.entry)⟩

/-- Every token but the empty one is a rule. -/
theorem mem_rules_of_get? (h : ts.get? token = some value) (hne : token ≠ []) : (token, value) ∈ ts.rules := by
  rw [← lookup_rules ts hne, List.lookup_eq_some_iff] at h
  obtain ⟨front, back, heq, _⟩ := h
  rw [heq]
  exact List.mem_append_right _ List.mem_cons_self

/-- If no rule matches, no token stands there. -/
theorem free_of_find? (hfind : ts.rules.find? (fun r => r.1.isPrefixOf t) = none) : ts.Free t := by
  intro token value hentry hstands
  by_contra hne
  exact List.find?_eq_none.mp hfind _ (mem_rules_of_get? hentry hne)
    (List.isPrefixOf_iff_prefix.mpr hstands)

/-- **The first rule that matches is that of the longest token.** -/
theorem longestAt_of_find? {r : Text × Text}
    (hfind : ts.rules.find? (fun r => r.1.isPrefixOf t) = some r) : ts.LongestAt t r.1 r.2 := by
  obtain ⟨hr, front, back, hrules, hfront⟩ := List.find?_eq_some_iff_append.mp hfind
  have hne : r.1 ≠ [] := ts.rules_ne_nil r (List.mem_of_find?_eq_some hfind)
  have hearlier : ∀ r' ∈ front, ¬ r'.1 <+: t := by
    intro r' hr' hstands
    have hnot := hfront r' hr'
    rw [List.isPrefixOf_iff_prefix.mpr hstands] at hnot
    cases hnot
  refine ⟨hne, ?_, List.isPrefixOf_iff_prefix.mp hr, fun other replacement hentry hstands => ?_⟩
  · -- nothing in front of the rule has its token, for that would match too
    rw [← lookup_rules ts hne, List.lookup_eq_some_iff]
    refine ⟨front, back, hrules, fun r' hr' => ?_⟩
    rw [bne_iff_ne]
    intro heq
    exact hearlier r' hr' (heq ▸ List.isPrefixOf_iff_prefix.mp hr)
  · by_cases hother : other = []
    · rw [hother]
      exact Nat.zero_le _
    · -- another rule that matches comes behind it, and what comes behind is no longer
      have hmem := mem_rules_of_get? hentry hother
      have hsorted := ts.pairwise_rules
      rw [hrules] at hmem hsorted
      rcases List.mem_append.mp hmem with hmem | hmem
      · exact absurd hstands (hearlier _ hmem)
      · rcases List.mem_cons.mp hmem with hmem | hmem
        · rw [← hmem]
        · exact (List.pairwise_cons.mp (List.pairwise_append.mp hsorted).2.1).1 _ hmem

/-! ## How a text is read -/

/-- A factor of a text. -/
inductive Factor where
  /-- A token, with what it stands for. -/
  | token (token value : Text)
  /-- A byte that stays as it is. -/
  | byte (b : UInt8)
  deriving DecidableEq

namespace Factor

/-- What the factor is in the text. -/
def source : Factor → Text
  | .token t _ => t
  | .byte b => [b]

/-- What is written for the factor. -/
def output : Factor → Text
  | .token _ v => v
  | .byte b => [b]

end Factor

/-- The factors of a text, read from left to right: at each place the longest token that stands there, or a
byte if none does. -/
inductive Factored (ts : TokenTable) : Text → List Factor → Prop
  | nil : Factored ts [] []
  | token {token value rest : Text} {fs : List Factor} (hlongest : ts.LongestAt (token ++ rest) token value)
      (hrest : Factored ts rest fs) : Factored ts (token ++ rest) (.token token value :: fs)
  | byte {b : UInt8} {rest : Text} {fs : List Factor} (hfree : ts.Free (b :: rest))
      (hrest : Factored ts rest fs) : Factored ts (b :: rest) (.byte b :: fs)

variable {fs fs' : List Factor}

/-- Every text can be read. -/
theorem exists_factored (ts : TokenTable) (s : Text) : ∃ fs, ts.Factored s fs := by
  -- a factor is never empty, so what is left to read gets shorter
  induction hn : s.length using Nat.strong_induction_on generalizing s with
  | _ n ih =>
    subst hn
    cases s with
    | nil => exact ⟨[], .nil⟩
    | cons b rest =>
      cases hfind : ts.rules.find? fun r => r.1.isPrefixOf (b :: rest) with
      | some r =>
        have hlongest := longestAt_of_find? hfind
        obtain ⟨after, hafter⟩ := hlongest.stands
        have hpos := List.length_pos_iff.mpr hlongest.ne_nil
        obtain ⟨fs, hfs⟩ := ih after.length (by rw [← hafter, List.length_append]; omega) after rfl
        rw [← hafter] at hlongest ⊢
        exact ⟨.token r.1 r.2 :: fs, .token hlongest hfs⟩
      | none =>
        obtain ⟨fs, hfs⟩ := ih rest.length (Nat.lt_succ_self _) rest rfl
        exact ⟨.byte b :: fs, .byte (free_of_find? hfind) hfs⟩

namespace Factored

/-- The factors make up the text. -/
theorem flatMap_source (h : ts.Factored s fs) : fs.flatMap Factor.source = s := by
  induction h with
  | nil => rfl
  | token _ _ ih => rw [List.flatMap_cons, ih, Factor.source]
  | byte _ _ ih => rw [List.flatMap_cons, ih, Factor.source, List.singleton_append]

/-- **A text is read in one way only.** -/
theorem unique (h : ts.Factored s fs) (h' : ts.Factored s fs') : fs = fs' := by
  induction h generalizing fs' with
  | nil =>
    generalize hs : ([] : Text) = s at h'
    cases h' with
    | nil => rfl
    | token hlongest _ => exact absurd (List.append_eq_nil_iff.mp hs.symm).1 hlongest.ne_nil
    | byte _ _ => cases hs
  | @token token value rest fs hlongest _ ih =>
    generalize hs : token ++ rest = s at h'
    cases h' with
    | nil => exact absurd (List.append_eq_nil_iff.mp hs).1 hlongest.ne_nil
    | token hlongest' hrest' =>
      rw [hs] at hlongest
      obtain ⟨rfl, rfl⟩ := hlongest.unique hlongest'
      obtain rfl := List.append_cancel_left hs
      rw [ih hrest']
    -- A byte is passed only where no token stands.
    | byte hfree _ => exact absurd hfree (hs ▸ hlongest).not_free
  | @byte b rest fs hfree _ ih =>
    generalize hs : b :: rest = s at h'
    cases h' with
    | nil => cases hs
    | token hlongest _ => exact absurd (hs ▸ hfree) hlongest.not_free
    | byte _ hrest' =>
      obtain ⟨rfl, rfl⟩ := List.cons.inj hs
      rw [ih hrest']

/-- What a table answers is all that a reading asks of it. -/
theorem congr {ts' : TokenTable} (hanswers : ∀ token, token ≠ [] → ts'.get? token = ts.get? token)
    (h : ts.Factored s fs) : ts'.Factored s fs := by
  have hentry : ∀ {token value : Text}, token ≠ [] → ts'.get? token = some value →
      ts.get? token = some value := fun hne hvalue => hanswers _ hne ▸ hvalue
  induction h with
  | nil => exact .nil
  | token hlongest _ ih =>
    refine .token ⟨hlongest.ne_nil, hanswers _ hlongest.ne_nil ▸ hlongest.entry, hlongest.stands, ?_⟩ ih
    intro other replacement hother hstands
    by_cases hne : other = []
    · rw [hne]
      exact Nat.zero_le _
    · exact hlongest.longest other replacement (hentry hne hother) hstands
  | byte hfree _ ih =>
    refine .byte (fun other replacement hother hstands => ?_) ih
    by_contra hne
    exact hne (hfree other replacement (hentry hne hother) hstands)

end Factored

/-! ## Substitution follows the reading -/

/-- Bytes that are skipped are not there. -/
theorem substitute_skip (rules : List (Text × Text)) :
    ∀ (n : Nat) (t : Text), substitute rules n t = substitute rules 0 (t.drop n) := by
  intro n t
  induction t generalizing n with
  | nil => rw [List.drop_nil, substitute_nil, substitute_nil]
  | cons b t ih =>
    cases n with
    | zero => rfl
    | succ n => exact ih n

/-- A rule that matches is used, and the text goes on behind its token. -/
theorem substitute_rule {rules : List (Text × Text)} {b : UInt8} {r : Text × Text} (hne : r.1 ≠ [])
    (hfind : rules.find? (fun r => r.1.isPrefixOf (b :: t)) = some r) :
    substitute rules 0 (b :: t) = r.2 ++ substitute rules 0 ((b :: t).drop r.1.length) := by
  obtain ⟨n, hn⟩ := Nat.exists_eq_succ_of_ne_zero (mt List.length_eq_zero_iff.mp hne)
  rw [substitute, hfind, hn, List.drop_succ_cons, ← substitute_skip]
  show r.2 ++ substitute rules (r.1.length - 1) t = _
  rw [hn, Nat.succ_sub_one]

/-- **Substitution writes what the factors stand for.** -/
theorem Factored.replace_eq (h : ts.Factored s fs) : ts.replace s = fs.flatMap Factor.output := by
  induction h with
  | nil => rfl
  | @token token value rest fs hlongest _ ih =>
    rw [List.flatMap_cons, ← ih, Factor.output, replace, replace]
    cases htext : token ++ rest with
    | nil => exact absurd (List.append_eq_nil_iff.mp htext).1 hlongest.ne_nil
    | cons b t =>
      rw [htext] at hlongest
      cases hfind : ts.rules.find? fun r => r.1.isPrefixOf (b :: t) with
      | none => exact absurd (free_of_find? hfind) hlongest.not_free
      | some r =>
        have hfirst := longestAt_of_find? hfind
        obtain ⟨htoken, hvalue⟩ := hfirst.unique hlongest
        rw [substitute_rule hfirst.ne_nil hfind, hvalue, htoken, ← htext, List.drop_left]
  | @byte b rest fs hfree _ ih =>
    rw [List.flatMap_cons, ← ih, Factor.output, replace, replace]
    cases hfind : ts.rules.find? fun r => r.1.isPrefixOf (b :: rest) with
    | none => rw [substitute_pass hfind, List.singleton_append]
    | some r => exact absurd hfree (longestAt_of_find? hfind).not_free

/-- A text in which no token occurs is read byte by byte. -/
theorem factored_bytes (hnone : ∀ token value, ts.get? token = some value → token <:+: s → token = []) :
    ts.Factored s (s.map .byte) := by
  induction s with
  | nil => exact .nil
  | cons b rest ih =>
    refine .byte (fun token value hentry hstands => ?_) (ih fun token value hentry hin => ?_)
    · exact hnone token value hentry hstands.isInfix
    · exact hnone token value hentry (hin.trans (List.suffix_cons b rest).isInfix)

theorem flatMap_output_bytes (s : Text) : (s.map Factor.byte).flatMap Factor.output = s := by
  induction s with
  | nil => rfl
  | cons b rest ih => rw [List.map_cons, List.flatMap_cons, ih, Factor.output, List.singleton_append]

/-- Replacing depends on a table only by its answers. -/
theorem replace_congr {ts' : TokenTable} (hanswers : ∀ token, token ≠ [] → ts'.get? token = ts.get? token)
    (s : Text) : ts'.replace s = ts.replace s := by
  obtain ⟨fs, hfs⟩ := ts.exists_factored s
  rw [hfs.replace_eq, (hfs.congr hanswers).replace_eq]

/-! ## The order in which a table is built -/

/-- A token that was set is answered with its replacement. -/
theorem get?_set_self (ts : TokenTable) (token replacement : Text) :
    (ts.set token replacement).get? token = some replacement := by
  show (setEntry token replacement ts.entries).lookup token = _
  induction ts.entries with
  | nil => rw [setEntry, List.lookup_cons_self]
  | cons e es ih =>
    rw [setEntry]
    split
    · rw [List.lookup_cons_self]
    · next he => rw [List.lookup_cons, beq_eq_false_iff_ne.mpr (Ne.symm he), ih]

theorem lookup_eq_none_of_not_mem {es : List (Text × Text)} (h : token ∉ es.map Prod.fst) :
    es.lookup token = none := by
  rw [List.lookup_eq_none_iff]
  intro e he
  rw [bne_iff_ne]
  rintro rfl
  exact h (List.mem_map_of_mem he)

/-- Entries of different tokens are all found, whatever is in the table before. -/
theorem get?_setAll {es : List (Text × Text)} (hes : (es.map Prod.fst).Nodup) :
    ∀ ts : TokenTable, (ts.setAll es).get? token = (es.lookup token).or (ts.get? token) := by
  induction es with
  | nil => intro ts; rfl
  | cons e es ih =>
    intro ts
    obtain ⟨he, hes⟩ := List.nodup_cons.mp hes
    show ((ts.set e.1 e.2).setAll es).get? token = _
    rw [ih hes, List.lookup_cons]
    by_cases htoken : token = e.1
    · rw [htoken, lookup_eq_none_of_not_mem he, get?_set_self, beq_self_eq_true]
      rfl
    · rw [get?_set_of_ne htoken, beq_eq_false_iff_ne.mpr htoken]

/-- In entries of different tokens the order does not matter to what is found. -/
theorem lookup_perm {es es' : List (Text × Text)} (hperm : es.Perm es') (hes : (es.map Prod.fst).Nodup) :
    es.lookup token = es'.lookup token := by
  induction hperm with
  | nil => rfl
  | cons e _ ih => rw [List.lookup_cons, List.lookup_cons, ih (List.nodup_cons.mp hes).2]
  | swap e e' es =>
    have hne : e'.1 ≠ e.1 := fun heq => (List.nodup_cons.mp hes).1 (heq ▸ List.mem_cons_self)
    rw [List.lookup_cons, List.lookup_cons, List.lookup_cons, List.lookup_cons]
    by_cases htoken : token = e.1
    · rw [htoken, beq_self_eq_true, beq_eq_false_iff_ne.mpr hne.symm]
    · rw [beq_eq_false_iff_ne.mpr htoken]
  | trans hfirst _ ih ih' => rw [ih hes, ih' ((hfirst.map Prod.fst).nodup_iff.mp hes)]

/-- A table with the entries of another, put in one after the other in any order, answers like it. -/
theorem get?_ofList_perm {es : List (Text × Text)} (hperm : es.Perm ts.entries)
    (hes : (es.map Prod.fst).Nodup) : (ofList es).get? token = ts.get? token := by
  rw [ofList, get?_setAll hes, lookup_perm hperm hes]
  exact Option.or_none

/-- **Substitution is the leftmost-longest single pass.**  A text has one reading in factors, each the longest
token that stands at its place or a byte at which none does.  The factors make up the text, and what they
stand for makes up the result.  Only what the table answers matters: not the order of its entries, nor that
in which they were put in.  A text in which no token occurs stays as it is. -/
theorem replace_leftmost_longest (ts : TokenTable) (s : Text) :
    (∃! fs, ts.Factored s fs) ∧
    (∀ fs, ts.Factored s fs → fs.flatMap Factor.source = s ∧ ts.replace s = fs.flatMap Factor.output) ∧
    (∀ ts' : TokenTable, (∀ token, token ≠ [] → ts'.get? token = ts.get? token) →
      ts'.replace s = ts.replace s) ∧
    (∀ es : List (Text × Text), es.Perm ts.entries → (es.map Prod.fst).Nodup →
      (ofList es).replace s = ts.replace s) ∧
    ((∀ token value, ts.get? token = some value → token <:+: s → token = []) → ts.replace s = s) := by
  refine ⟨?_, fun fs hfs => ⟨hfs.flatMap_source, hfs.replace_eq⟩, fun ts' hanswers => ?_,
    fun es hperm hes => ?_, fun hnone => ?_⟩
  · obtain ⟨fs, hfs⟩ := ts.exists_factored s
    exact ⟨fs, hfs, fun fs' hfs' => hfs'.unique hfs⟩
  · exact replace_congr hanswers s
  · exact replace_congr (fun token _ => get?_ofList_perm hperm hes) s
  · rw [(factored_bytes hnone).replace_eq, flatMap_output_bytes]

/-- Tokens that start with each other; one stands for another token. -/
def overlapping : TokenTable := ⟨[("$vd", "g_vd"), ("$texcoord", "$vd"), ("$texcoordSet", "uvSet")]⟩

/-- The longest token wins, what it stands for is not read again, and neither an entry for the empty token nor
another order of the entries makes a difference. -/
theorem replace_leftmost_longest_overlapping :
    overlapping.Factored "$texcoordSet.$texcoord"
      [.token "$texcoordSet" "uvSet", .byte 46, .token "$texcoord" "$vd"] ∧
    overlapping.replace "$texcoordSet.$texcoord" = Text.ofString "uvSet.$vd" ∧
    (overlapping.set [] "x").replace "$texcoordSet.$texcoord" = Text.ofString "uvSet.$vd" ∧
    (ofList overlapping.entries.reverse).replace "$texcoordSet.$texcoord" = Text.ofString "uvSet.$vd" ∧
    overlapping.replace "$tex coord" = Text.ofString "$tex coord" := by
  have hset : overlapping.LongestAt (Text.ofString "$texcoordSet" ++ Text.ofString ".$texcoord")
      "$texcoordSet" "uvSet" := longestAt_of_find? (r := ("$texcoordSet", "uvSet")) (by decide)
  have hcoord : overlapping.LongestAt (Text.ofString "$texcoord" ++ []) "$texcoord" "$vd" :=
    longestAt_of_find? (r := ("$texcoord", "$vd")) (by decide)
  have hreading : overlapping.Factored "$texcoordSet.$texcoord"
      [.token "$texcoordSet" "uvSet", .byte 46, .token "$texcoord" "$vd"] :=
    .token hset (.byte (free_of_find? (by decide)) (.token hcoord .nil))
  obtain ⟨_, hreplace, hanswers, hperm, _⟩ := replace_leftmost_longest overlapping "$texcoordSet.$texcoord"
  obtain ⟨_, _, _, _, hnone⟩ := replace_leftmost_longest overlapping "$tex coord"
  have hvalue := (hreplace _ hreading).2
  refine ⟨hreading, hvalue, ?_, ?_, hnone fun token value hentry hin => ?_⟩
  · exact (hanswers _ fun token hne => get?_set_of_ne hne overlapping "x").trans hvalue
  · exact (hperm _ (List.reverse_perm _) (by decide)).trans hvalue
  · by_contra hne
    have hmem := mem_rules_of_get? hentry hne
    have hnot : ∀ r ∈ overlapping.rules, ¬ r.1 <:+: Text.ofString "$tex coord" := by decide
    exact hnot _ hmem hin

end TokenTable
end ShadeGraph
