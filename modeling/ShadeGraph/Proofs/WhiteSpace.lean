/-
  White space around a text.

  1. A text is `Strung` from a table if it is words of the table, one behind the other.  Stripping takes such
     a text away (`stripLeading_split`) and stops where no word stands (`not_prefix_stripLeading`).
  2. No blank is the start of another one, in either direction (`Code`), so the words that a text was strung
     from are found again one by one (`stripLeading_strung`).
  3. `WhiteSpace` is said of points, and the table of blanks holds their encodings (`blanks_eq`).  `Trimmed`
     says what is left of a text without the white space around it.  A blank cannot reach from what is left
     into the white space behind it, because the bytes inside a blank start none.  So there is one such text,
     and it is what trimming gives (`trimmed_iff`).
-/
import Mathlib.Data.List.Infix
import ShadeGraph.Text.Blank
import ShadeGraph.Text.Utf8

namespace ShadeGraph.Text

variable {table : List Text} {t w : Text}

/-! ## Words of a table -/

/-- Words of a table, one behind the other. -/
def Strung (table : List Text) (t : Text) : Prop :=
  ∃ words : List Text, words ⊆ table ∧ t = words.flatten

theorem Strung.nil : Strung table [] := ⟨[], List.nil_subset _, rfl⟩

theorem Strung.cons (hw : w ∈ table) (h : Strung table t) : Strung table (w ++ t) := by
  obtain ⟨words, hwords, rfl⟩ := h
  exact ⟨w :: words, List.cons_subset.mpr ⟨hw, hwords⟩, List.flatten_cons.symm⟩

/-- The first word of what is strung, if there is one. -/
theorem Strung.cases (h : Strung table t) :
    t = [] ∨ ∃ w ∈ table, ∃ rest, Strung table rest ∧ t = w ++ rest := by
  obtain ⟨words, hwords, rfl⟩ := h
  cases words with
  | nil => exact Or.inl rfl
  | cons w words =>
    obtain ⟨hw, hwords⟩ := List.cons_subset.mp hwords
    exact Or.inr ⟨w, hw, words.flatten, ⟨words, hwords, rfl⟩, List.flatten_cons⟩

/-- Where no word stands at the end, nothing was strung there. -/
theorem Strung.eq_nil (h : Strung table t) (front : Text) (hend : ∀ w ∈ table, ¬ w <:+ front ++ t) :
    t = [] := by
  obtain ⟨words, hwords, rfl⟩ := h
  rcases List.eq_nil_or_concat words with rfl | ⟨before, w, rfl⟩
  · rfl
  · rw [List.concat_eq_append] at hwords hend
    have hlast : w <:+ (before ++ [w]).flatten := by
      rw [List.flatten_append, List.flatten_singleton]
      exact List.suffix_append _ _
    have hw : w ∈ table := hwords (List.mem_append_right _ List.mem_cons_self)
    exact absurd (hlast.trans (List.suffix_append _ _)) (hend w hw)

/-- Read backwards, a text is strung from the words read backwards. -/
theorem Strung.reverse (h : Strung table t) : Strung (table.map List.reverse) t.reverse := by
  obtain ⟨words, hwords, rfl⟩ := h
  refine ⟨(words.map List.reverse).reverse, fun w hw => ?_, List.reverse_flatten⟩
  exact List.map_subset _ hwords (List.mem_reverse.mp hw)

theorem Strung.of_reverse (h : Strung (table.map List.reverse) t) : Strung table t.reverse := by
  have htable : (table.map List.reverse).map List.reverse = table := by
    rw [List.map_map]
    exact (List.map_congr_left fun w _ => List.reverse_reverse w).trans (List.map_id table)
  exact htable ▸ h.reverse

/-! ## Stripping -/

/-- What is stripped is strung from the table. -/
theorem stripLeading_split (table : List Text) (t : Text) :
    ∃ front, Strung table front ∧ t = front ++ stripLeading table t := by
  fun_induction stripLeading table t with
  | case1 => exact ⟨[], .nil, rfl⟩
  | case2 a t hword ih =>
    obtain ⟨front, hfront, ht⟩ := ih
    exact ⟨[a] ++ front, hfront.cons (List.contains_iff_mem.mp hword), congrArg (a :: ·) ht⟩
  | case4 a _ b t hword ih =>
    obtain ⟨front, hfront, ht⟩ := ih
    exact ⟨[a, b] ++ front, hfront.cons (List.contains_iff_mem.mp hword), congrArg (a :: b :: ·) ht⟩
  | case6 a _ b _ c t hword ih =>
    obtain ⟨front, hfront, ht⟩ := ih
    exact ⟨[a, b, c] ++ front, hfront.cons (List.contains_iff_mem.mp hword),
      congrArg (a :: b :: c :: ·) ht⟩
  | case3 | case5 | case7 => exact ⟨[], .nil, rfl⟩

/-- A table of words that are told apart by reading them: of one to three bytes, and none is the start of
another one. -/
structure Code (table : List Text) : Prop where
  nonempty : ∀ w ∈ table, w ≠ []
  short : ∀ w ∈ table, w.length ≤ 3
  free : ∀ v ∈ table, ∀ w ∈ table, v <+: w → v = w

namespace Code

/-- **Stripping stops where no word stands.** -/
theorem not_prefix_stripLeading (h : Code table) (hw : w ∈ table) (t : Text) :
    ¬ w <+: stripLeading table t := by
  have hmem : ∀ {u : Text}, ¬ table.contains u = true → w ≠ u := fun hu heq =>
    hu (List.contains_iff_mem.mpr (heq ▸ hw))
  have htake : ∀ {u : Text}, w <+: u → w = u.take 1 ∨ w = u.take 2 ∨ w = u.take 3 := fun {u} hpre => by
    have heq := List.prefix_iff_eq_take.mp hpre
    have hpos := List.length_pos_iff.mpr (h.nonempty w hw)
    have hshort := h.short w hw
    obtain hone | htwo | hthree : w.length = 1 ∨ w.length = 2 ∨ w.length = 3 := by omega
    · exact Or.inl (hone ▸ heq)
    · exact Or.inr (Or.inl (htwo ▸ heq))
    · exact Or.inr (Or.inr (hthree ▸ heq))
  -- One, two and three bytes are tried in turn: where none is a word, no word stands.
  fun_induction stripLeading table t with
  | case1 => exact fun hpre => h.nonempty w hw (List.prefix_nil.mp hpre)
  | case2 _ _ _ ih => exact ih
  | case4 _ _ _ _ _ ih => exact ih
  | case6 _ _ _ _ _ _ _ ih => exact ih
  | case3 a ha =>
    intro hpre
    rcases htake hpre with heq | heq | heq
    · exact hmem ha heq
    · exact hmem ha heq
    · exact hmem ha heq
  | case5 a ha b hb =>
    intro hpre
    rcases htake hpre with heq | heq | heq
    · exact hmem ha heq
    · exact hmem hb heq
    · exact hmem hb heq
  | case7 a ha b hb c t hc =>
    intro hpre
    rcases htake hpre with heq | heq | heq
    · exact hmem ha heq
    · exact hmem hb heq
    · exact hmem hc heq

/-- A word in front is stripped. -/
theorem stripLeading_append (h : Code table) (hw : w ∈ table) (t : Text) :
    stripLeading table (w ++ t) = stripLeading table t := by
  have hword : table.contains w = true := List.contains_iff_mem.mpr hw
  -- a shorter word would be the start of this one
  have hshorter : ∀ u, u <+: w → u ≠ w → table.contains u = false := fun u hpre hne => by
    rw [List.contains_eq_mem, decide_eq_false_iff_not]
    exact fun hu => hne (h.free u hu w hw hpre)
  have hlength := h.short w hw
  rcases w with _ | ⟨a, _ | ⟨b, _ | ⟨c, _ | ⟨d, w⟩⟩⟩⟩
  · exact absurd rfl (h.nonempty [] hw)
  · rw [List.singleton_append, stripLeading.eq_def]
    simp only [hword, if_true]
  · have ha := hshorter [a] ⟨[b], rfl⟩ (by simp)
    rw [List.cons_append, List.singleton_append, stripLeading.eq_def]
    simp only [ha, hword, Bool.false_eq_true, if_true, if_false]
  · have ha := hshorter [a] ⟨[b, c], rfl⟩ (by simp)
    have hb := hshorter [a, b] ⟨[c], rfl⟩ (by simp)
    rw [List.cons_append, List.cons_append, List.singleton_append, stripLeading.eq_def]
    simp only [ha, hb, hword, Bool.false_eq_true, if_true, if_false]
  · simp only [List.length_cons] at hlength
    omega

/-- Words at the front are stripped off, whatever stands behind them. -/
theorem stripLeading_strung (h : Code table) {front : Text} (hfront : Strung table front) (t : Text) :
    stripLeading table (front ++ t) = stripLeading table t := by
  obtain ⟨words, hwords, rfl⟩ := hfront
  induction words with
  | nil => rfl
  | cons w words ih =>
    obtain ⟨hw, hwords⟩ := List.cons_subset.mp hwords
    rw [List.flatten_cons, List.append_assoc, h.stripLeading_append hw, ih hwords]

end Code

/-- Where no word stands, nothing is stripped. -/
theorem stripLeading_eq_self (h : ∀ w ∈ table, ¬ w <+: t) : stripLeading table t = t := by
  obtain ⟨front, hfront, ht⟩ := stripLeading_split table t
  rcases hfront.cases with rfl | ⟨w, hw, rest, _, rfl⟩
  · exact ht.symm
  · exact absurd ⟨rest ++ stripLeading table t, by rw [← List.append_assoc]; exact ht.symm⟩ (h w hw)

/-! ## White space -/

/-- The points that are white space. -/
def whitePoints : List Nat :=
  [0x09, 0x0A, 0x0B, 0x0C, 0x0D, 0x20, 0x85, 0xA0, 0x1680, 0x2000, 0x2001, 0x2002, 0x2003, 0x2004, 0x2005,
    0x2006, 0x2007, 0x2008, 0x2009, 0x200A, 0x2028, 0x2029, 0x202F, 0x205F, 0x3000]

/-- A text of white space only: encodings of such points, one behind the other. -/
def WhiteSpace (t : Text) : Prop := Strung (whitePoints.map ofPoint) t

/-- The table of blanks holds the encodings of white space. -/
theorem blanks_eq : blanks = whitePoints.map ofPoint := by decide

theorem whiteSpace_iff : WhiteSpace t ↔ Strung blanks t := by rw [WhiteSpace, blanks_eq]

theorem code_blanks : Code blanks := ⟨by decide, by decide, by decide⟩

theorem code_blanks_reverse : Code (blanks.map List.reverse) := ⟨by decide, by decide, by decide⟩

/-! ## Trimming -/

/-- `t` is the text without the white space around it. -/
structure Trimmed (text t : Text) : Prop where
  around : ∃ front back, WhiteSpace front ∧ WhiteSpace back ∧ text = front ++ t ++ back
  bare : ∀ c ∈ whitePoints, ¬ ofPoint c <+: t ∧ ¬ ofPoint c <:+ t

/-- The ends of a trimmed text, said of the table. -/
theorem Trimmed.blank {text : Text} (h : Trimmed text t) (hw : w ∈ blanks) : ¬ w <+: t ∧ ¬ w <:+ t := by
  rw [blanks_eq] at hw
  obtain ⟨c, hc, rfl⟩ := List.mem_map.mp hw
  exact h.bare c hc

/-- Between white space, a text is what is left if no blank starts or ends with the same byte. -/
theorem trimmed_of_ends {front back : Text} (hfront : WhiteSpace front) (hback : WhiteSpace back)
    (h : ∀ w ∈ blanks, w.head? ≠ t.head? ∧ w.getLast? ≠ t.getLast?) : Trimmed (front ++ t ++ back) t := by
  refine ⟨⟨front, back, hfront, hback, rfl⟩, fun c hc => ?_⟩
  have hblank : ofPoint c ∈ blanks := blanks_eq ▸ List.mem_map_of_mem hc
  obtain ⟨hhead, hlast⟩ := h _ hblank
  have hne := code_blanks.nonempty _ hblank
  constructor
  · rintro ⟨rest, rfl⟩
    exact hhead (List.head?_append_of_ne_nil _ hne).symm
  · rintro ⟨rest, rfl⟩
    exact hlast (List.getLast?_append_of_ne_nil _ hne).symm

/-- Trimming leaves what is left without the white space around it. -/
theorem trimmed_trim (text : Text) : Trimmed text text.trim := by
  obtain ⟨front, hfront, htext⟩ := stripLeading_split blanks text
  obtain ⟨back, hback, hstart⟩ := stripLeading_split (blanks.map List.reverse) text.trimStart.reverse
  have hsplit : text.trimStart = text.trim ++ back.reverse := by
    rw [← List.reverse_reverse text.trimStart, hstart, List.reverse_append]
    rfl
  refine ⟨⟨front, back.reverse, whiteSpace_iff.mpr hfront, whiteSpace_iff.mpr hback.of_reverse, ?_⟩,
    fun c hc => ?_⟩
  · rw [List.append_assoc, ← hsplit]
    exact htext
  · have hblank : ofPoint c ∈ blanks := blanks_eq ▸ List.mem_map_of_mem hc
    constructor
    · intro hpre
      have hstart : ofPoint c <+: text.trimStart := hsplit ▸ List.prefix_append_of_prefix hpre
      exact code_blanks.not_prefix_stripLeading hblank text hstart
    · intro hsuf
      refine code_blanks_reverse.not_prefix_stripLeading (List.mem_map_of_mem hblank)
        text.trimStart.reverse ?_
      rw [← List.reverse_suffix, List.reverse_reverse]
      exact hsuf

/-- What is left of a text, nothing apart, keeps its start when white space is put behind it. -/
theorem not_prefix_append {back : Text} (hback : Strung blanks back) (hne : t ≠ [])
    (h : ∀ w ∈ blanks, ¬ w <+: t) : ∀ w ∈ blanks, ¬ w <+: t ++ back := by
  have hinside : ∀ v ∈ blanks, ∀ w ∈ blanks, v.tail.contains (w.headD 0) = false := by decide
  intro w hw hpre
  rcases List.prefix_or_prefix_of_prefix hpre (List.prefix_append t back) with hle | hle
  · exact h w hw hle
  · -- the blank reaches over the end of the text, into one that starts behind it
    obtain ⟨rest, rfl⟩ := hle
    have hrest : rest <+: back := (List.prefix_append_right_inj t).mp hpre
    cases rest with
    | nil => exact h _ hw (by rw [List.append_nil])
    | cons b rest =>
      have hb : b ∈ (t ++ b :: rest).tail := by
        rw [List.tail_append_of_ne_nil hne]
        exact List.mem_append_right _ List.mem_cons_self
      rcases hback.cases with rfl | ⟨v, hv, behind, _, rfl⟩
      · exact absurd (List.prefix_nil.mp hrest) (List.cons_ne_nil b rest)
      · obtain ⟨c, v, rfl⟩ := List.exists_cons_of_ne_nil (code_blanks.nonempty v hv)
        obtain rfl : b = c := (List.cons_prefix_cons.mp hrest).1
        have hnone : (t ++ b :: rest).tail.contains b = false := hinside _ hw _ hv
        rw [List.contains_iff_mem.mpr hb] at hnone
        cases hnone

/-- **Trimming takes away the white space around a text**, and leaves the only text without any at its
ends. -/
theorem trimmed_iff {text : Text} : Trimmed text t ↔ text.trim = t := by
  refine ⟨fun h => ?_, fun h => h ▸ trimmed_trim text⟩
  obtain ⟨front, back, hfront, hback, rfl⟩ := h.around
  rw [whiteSpace_iff] at hfront hback
  have hend : stripLeading (blanks.map List.reverse) (t ++ back).reverse = t.reverse := by
    rw [List.reverse_append, code_blanks_reverse.stripLeading_strung hback.reverse]
    refine stripLeading_eq_self fun w hw hpre => ?_
    obtain ⟨v, hv, rfl⟩ := List.mem_map.mp hw
    exact (h.blank hv).2 (List.reverse_prefix.mp hpre)
  rw [trim, trimStart, List.append_assoc, code_blanks.stripLeading_strung hfront]
  by_cases hnil : t = []
  · subst hnil
    have hall := code_blanks.stripLeading_strung hback []
    rw [List.append_nil] at hall
    rw [List.nil_append, hall]
    rfl
  · rw [stripLeading_eq_self (not_prefix_append hback hnil fun w hw => (h.blank hw).1), trimEnd, hend,
      List.reverse_reverse]

end ShadeGraph.Text
