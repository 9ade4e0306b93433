/-
  What substitution does to texts that are put together from pieces.

  1. A byte that no token holds is a wall: no token reaches across it, so the text is substituted on
     either side of it by itself (`TokenTable.substitute_wall`).  White space, brackets, commas, dots and
     underscores are such walls.
  2. `Text.marked` says that every occurrence of a byte starts one of some words.  Texts of which all
     dollar signs start tokens have none afterwards (`TokenTable.not_mem_substitute`), and texts of which
     all number signs start directives keep them that way (`TokenTable.marked_substitute`).
  3. `TokenTable.Hosted` collects what holds of the tables of the fragment generator.
-/
import Mathlib.Data.List.Infix
import ShadeGraph.Fragment.Generator

namespace ShadeGraph

/-! ## Marked texts -/

namespace Text

/-- Every byte `mark` of a text starts one of the words. -/
def marked (mark : UInt8) (words : List Text) : Text → Bool
  | [] => true
  | b :: t => (b != mark || words.any (·.isPrefixOf (b :: t))) && marked mark words t

variable {mark : UInt8} {words : List Text} {s t : Text}

/-- Of the first byte, only whether it is the mark has to be looked at. -/
theorem marked_cons {b : UInt8} :
    marked mark words (b :: t) = true ↔
      (b = mark → ∃ w ∈ words, w <+: b :: t) ∧ marked mark words t = true := by
  rw [marked, Bool.and_eq_true, Bool.or_eq_true, bne_iff_ne, List.any_eq_true]
  simp only [List.isPrefixOf_iff_prefix]
  exact and_congr_left' Decidable.imp_iff_not_or.symm

theorem marked_of_not_mem (h : mark ∉ t) : marked mark words t = true := by
  induction t with
  | nil => rfl
  | cons b t ih =>
    rw [List.mem_cons, not_or] at h
    exact marked_cons.mpr ⟨fun hb => absurd hb.symm h.1, ih h.2⟩

/-- **Marked texts one behind the other are marked**: a word that starts in the first is not cut off by its end.
-/
theorem marked_append (hs : marked mark words s = true) (ht : marked mark words t = true) :
    marked mark words (s ++ t) = true := by
  induction s with
  | nil => exact ht
  | cons b s ih =>
    obtain ⟨hb, hs⟩ := marked_cons.mp hs
    refine marked_cons.mpr ⟨fun hmark => ?_, ih hs⟩
    obtain ⟨w, hw, hpre⟩ := hb hmark
    exact ⟨w, hw, List.prefix_append_of_prefix hpre⟩

/-- More words are allowed. -/
theorem marked_mono {more : List Text} (hwords : words ⊆ more) (h : marked mark words t = true) :
    marked mark more t = true := by
  induction t with
  | nil => rfl
  | cons b t ih =>
    obtain ⟨hb, ht⟩ := marked_cons.mp h
    refine marked_cons.mpr ⟨fun hmark => ?_, ih ht⟩
    obtain ⟨w, hw, hpre⟩ := hb hmark
    exact ⟨w, hwords hw, hpre⟩

/-- Marked pieces make a marked text. -/
theorem marked_flatMap {α : Type} {f : α → Text} {xs : List α}
    (h : ∀ x ∈ xs, marked mark words (f x) = true) : marked mark words (xs.flatMap f) = true := by
  induction xs with
  | nil => rfl
  | cons x xs ih =>
    rw [List.flatMap_cons]
    exact marked_append (h x List.mem_cons_self) (ih fun y hy => h y (List.mem_cons_of_mem x hy))

/-- A word that starts with the mark, and that no word of the list can be confused with, stands behind a marked
text: where it stood, one of the list would stand too. -/
theorem exists_behind {word before after : Text} (hs : marked mark words s = true)
    (hmark : word.head? = some mark)
    (hother : ∀ w ∈ words, w.isPrefixOf word = false ∧ word.isPrefixOf w = false)
    (h : s ++ t = before ++ word ++ after) : ∃ mid, before = s ++ mid ∧ t = mid ++ word ++ after := by
  induction s generalizing before with
  | nil => exact ⟨before, rfl, h⟩
  | cons b s ih =>
    obtain ⟨hb, hs⟩ := marked_cons.mp hs
    cases before with
    | nil =>
      have hpre : word <+: b :: s ++ t := ⟨after, h.symm⟩
      have hfirst : b = mark := by
        cases word with
        | nil => cases hmark
        | cons c word => exact (List.cons.inj h).1.trans (Option.some.inj hmark)
      obtain ⟨w, hw, hwpre⟩ := hb hfirst
      obtain ⟨hleft, hright⟩ := hother w hw
      rcases List.prefix_or_prefix_of_prefix (List.prefix_append_of_prefix hwpre) hpre with hle | hle
      · rw [List.isPrefixOf_iff_prefix.mpr hle] at hleft
        cases hleft
      · rw [List.isPrefixOf_iff_prefix.mpr hle] at hright
        cases hright
    | cons c before =>
      obtain ⟨rfl, hrest⟩ := List.cons.inj h
      obtain ⟨mid, rfl, ht⟩ := ih hs hrest
      exact ⟨mid, rfl, ht⟩

/-- So it stands nowhere in a marked text. -/
theorem not_infix_of_marked {word : Text} (h : marked mark words t = true)
    (hmark : word.head? = some mark)
    (hother : ∀ w ∈ words, w.isPrefixOf word = false ∧ word.isPrefixOf w = false) :
    ¬ word <:+: t := by
  rintro ⟨before, after, hword⟩
  obtain ⟨mid, _, hnil⟩ := exists_behind h hmark hother ((List.append_nil t).trans hword.symm)
  rw [(List.append_eq_nil_iff.mp (List.append_eq_nil_iff.mp hnil.symm).1).2] at hmark
  cases hmark

end Text

/-! ## Substitution step by step -/

namespace TokenTable

variable {rules : List (Text × Text)}

@[simp] theorem substitute_nil (n : Nat) : substitute rules n [] = [] := by cases n <;> rfl

@[simp] theorem replace_nil (ts : TokenTable) : ts.replace [] = [] := rfl

/-- Where no token starts, a byte passes. -/
theorem substitute_pass {b : UInt8} {t : Text}
    (h : rules.find? (fun r => r.1.isPrefixOf (b :: t)) = none) :
    substitute rules 0 (b :: t) = b :: substitute rules 0 t := by
  rw [substitute, h]

/-- A rule whose token does not hold a byte matches in front of that byte or not at all. -/
theorem isPrefixOf_wall {token s t : Text} {wall : UInt8} (h : wall ∉ token) :
    token.isPrefixOf (s ++ wall :: t) = token.isPrefixOf s := by
  rw [Bool.eq_iff_iff, List.isPrefixOf_iff_prefix, List.isPrefixOf_iff_prefix]
  refine ⟨fun hpre => ?_, List.prefix_append_of_prefix⟩
  rcases List.prefix_or_prefix_of_prefix hpre (List.prefix_append s (wall :: t)) with hle | hle
  · exact hle
  · -- The text in front of the wall is used up, so the rest of the token would start with it.
    obtain ⟨rest, rfl⟩ := hle
    cases rest with
    | nil => rw [List.append_nil]
    | cons c rest =>
      have hc := (List.cons_prefix_cons.mp ((List.prefix_append_right_inj s).mp hpre)).1
      exact absurd (List.mem_append_right s (hc ▸ List.mem_cons_self)) h

/-- A token cannot reach over a byte that no token holds, so what is behind it does not matter. -/
theorem find?_wall {s t : Text} {wall : UInt8} (h : ∀ r ∈ rules, wall ∉ r.1) :
    rules.find? (fun r => r.1.isPrefixOf (s ++ wall :: t)) =
      rules.find? (fun r => r.1.isPrefixOf s) := by
  induction rules with
  | nil => rfl
  | cons r rules ih =>
    rw [List.find?_cons, List.find?_cons, isPrefixOf_wall (h r List.mem_cons_self),
      ih fun r' hr' => h r' (List.mem_cons_of_mem r hr')]

/-- **A byte that no token holds is a wall**: the texts on its two sides are substituted by themselves. -/
theorem substitute_wall {wall : UInt8} (hne : ∀ r ∈ rules, r.1 ≠ [])
    (hwall : ∀ r ∈ rules, wall ∉ r.1) (t : Text) :
    ∀ (s : Text) (n : Nat), n ≤ s.length →
      substitute rules n (s ++ wall :: t) = substitute rules n s ++ wall :: substitute rules 0 t := by
  intro s
  induction s with
  | nil =>
    intro n hn
    obtain rfl : n = 0 := Nat.le_zero.mp hn
    have hnone : rules.find? (fun r => r.1.isPrefixOf (wall :: t)) = none := by
      rw [← List.nil_append (wall :: t), find?_wall hwall, List.find?_eq_none]
      intro r hr hpre
      exact hne r hr (List.prefix_nil.mp (List.isPrefixOf_iff_prefix.mp hpre))
    rw [List.nil_append, substitute_nil, substitute_pass hnone, List.nil_append]
  | cons b s ih =>
    intro n hn
    cases n with
    | succ n => exact ih n (Nat.le_of_succ_le_succ hn)
    -- No rule reaches over the wall, so the same one matches with and without it.
    | zero =>
      rw [List.cons_append, substitute, substitute, ← List.cons_append, find?_wall hwall]
      cases hfind : rules.find? fun r => r.1.isPrefixOf (b :: s) with
      | none => exact congrArg (b :: ·) (ih 0 (Nat.zero_le _))
      | some r =>
        have hpre : r.1.isPrefixOf (b :: s) = true := by simpa using List.find?_some hfind
        have hlen := (List.isPrefixOf_iff_prefix.mp hpre).length_le
        rw [List.length_cons] at hlen
        show r.2 ++ _ = (r.2 ++ _) ++ _
        rw [ih _ (by omega), List.append_assoc]

/-! ## Texts with tokens and directives -/

/-- **No mark is left** in a text whose marks all start tokens, if the replacements bring in none. -/
theorem not_mem_substitute {mark : UInt8} {words : List Text}
    (hwords : ∀ w ∈ words, ∃ r ∈ rules, r.1 = w) (hclean : ∀ r ∈ rules, mark ∉ r.2) (t : Text) :
    ∀ n, Text.marked mark words t = true → mark ∉ substitute rules n t := by
  induction t with
  | nil => intro n _; rw [substitute_nil]; exact List.not_mem_nil
  | cons b t ih =>
    intro n h
    obtain ⟨hb, ht⟩ := Text.marked_cons.mp h
    cases n with
    | succ n => exact ih n ht
    | zero =>
      rw [substitute]
      cases hfind : rules.find? fun r => r.1.isPrefixOf (b :: t) with
      | some r =>
        rw [List.mem_append, not_or]
        exact ⟨hclean r (List.mem_of_find?_eq_some hfind), ih _ ht⟩
      | none =>
        rw [List.mem_cons, not_or]
        refine ⟨fun hmark => ?_, ih 0 ht⟩
        obtain ⟨w, hw, hpre⟩ := hb hmark.symm
        obtain ⟨r, hr, rfl⟩ := hwords w hw
        exact List.find?_eq_none.mp hfind r hr (List.isPrefixOf_iff_prefix.mpr hpre)

/-- A stretch without the byte that starts every token stays as it is. -/
theorem substitute_append_of_not_mem {mark : UInt8} (hmark : ∀ r ∈ rules, r.1.head? = some mark)
    {s : Text} (hs : mark ∉ s) (t : Text) :
    substitute rules 0 (s ++ t) = s ++ substitute rules 0 t := by
  induction s with
  | nil => rfl
  | cons b s ih =>
    rw [List.mem_cons, not_or] at hs
    have hnone : rules.find? (fun r => r.1.isPrefixOf (b :: (s ++ t))) = none := by
      rw [List.find?_eq_none]
      intro r hr hpre
      obtain ⟨rest, hrest⟩ := List.isPrefixOf_iff_prefix.mp hpre
      have hhead := hmark r hr
      cases hr1 : r.1 with
      | nil => rw [hr1] at hhead; cases hhead
      | cons c token =>
        rw [hr1] at hhead hrest
        exact hs.1 ((Option.some.inj hhead).symm.trans (List.cons.inj hrest).1)
    rw [List.cons_append, substitute_pass hnone, ih hs.2, List.cons_append]

/-- Tokens start with a mark, so a text without it stays as it is. -/
theorem substitute_of_not_mem {mark : UInt8} (hmark : ∀ r ∈ rules, r.1.head? = some mark) {s : Text}
    (hs : mark ∉ s) : substitute rules 0 s = s := by
  have h := substitute_append_of_not_mem hmark hs []
  rwa [List.append_nil, substitute_nil, List.append_nil] at h

/-- **Directives stay directives**: substitution neither brings in a number sign nor touches the word that
one starts. -/
theorem marked_substitute {mark hash : UInt8} {words : List Text}
    (hmark : ∀ r ∈ rules, r.1.head? = some mark) (hclean : ∀ r ∈ rules, hash ∉ r.2)
    (hwords : ∀ w ∈ words, mark ∉ w) (t : Text) :
    ∀ n, Text.marked hash words t = true → Text.marked hash words (substitute rules n t) = true := by
  induction t with
  | nil => intro n _; rw [substitute_nil]; rfl
  | cons b t ih =>
    intro n h
    obtain ⟨hb, ht⟩ := Text.marked_cons.mp h
    cases n with
    | succ n => exact ih n ht
    | zero =>
      cases hfind : rules.find? fun r => r.1.isPrefixOf (b :: t) with
      | some r =>
        rw [substitute, hfind]
        exact Text.marked_append
          (Text.marked_of_not_mem (hclean r (List.mem_of_find?_eq_some hfind))) (ih _ ht)
      | none =>
        rw [substitute_pass hfind]
        refine Text.marked_cons.mpr ⟨fun hhash => ?_, ih 0 ht⟩
        obtain ⟨w, hw, rest, hrest⟩ := hb hhash
        refine ⟨w, hw, substitute rules 0 rest, ?_⟩
        rw [← substitute_pass hfind, ← hrest, substitute_append_of_not_mem hmark (hwords w hw)]

end TokenTable

/-! ## The tables of the generator -/

namespace Text

/-- The byte that starts a directive. -/
def hash : UInt8 := 35

/-- The directives that generated code and library files hold; an include line is none of them, because
it is never written. -/
def directives : List Text := ["#define", "#if ", "#else", "#endif"]

/-- Every dollar sign of a text starts a token, and every number sign a directive. -/
def tidy (t : Text) : Bool :=
  marked Library.tokenMark Token.standard.tokens t && marked hash directives t

/-- A text without dollar signs and number signs. -/
def Quiet (t : Text) : Prop := ∀ b ∈ t, b ≠ hash ∧ b ≠ Library.tokenMark

instance (t : Text) : Decidable t.Quiet := List.decidableBAll _ t

/-- A run of bytes, at least one, of which no token holds any. -/
def Walls (t : Text) : Prop := t ≠ [] ∧ ∀ b ∈ t, b ≠ Library.tokenMark ∧ isLetter b = false

instance (t : Text) : Decidable t.Walls := @instDecidableAnd _ _ _ (List.decidableBAll _ t)

/-- A text without marks is tidy. -/
theorem Quiet.tidy {t : Text} (h : t.Quiet) : t.tidy = true := by
  rw [Text.tidy, Bool.and_eq_true]
  exact ⟨marked_of_not_mem fun hmem => (h _ hmem).2 rfl, marked_of_not_mem fun hmem => (h _ hmem).1 rfl⟩

theorem Quiet.append {s t : Text} (hs : s.Quiet) (ht : t.Quiet) : Quiet (s ++ t) := by
  intro b hb
  rcases List.mem_append.mp hb with hb | hb
  · exact hs b hb
  · exact ht b hb

/-- Tidy texts one behind the other are tidy. -/
theorem tidy_append {s t : Text} (hs : s.tidy = true) (ht : t.tidy = true) :
    Text.tidy (s ++ t) = true := by
  rw [Text.tidy, Bool.and_eq_true] at hs ht ⊢
  exact ⟨marked_append hs.1 ht.1, marked_append hs.2 ht.2⟩

theorem tidy_flatMap {α : Type} {f : α → Text} {xs : List α} (h : ∀ x ∈ xs, (f x).tidy = true) :
    Text.tidy (xs.flatMap f) = true := by
  rw [Text.tidy, Bool.and_eq_true]
  exact ⟨marked_flatMap fun x hx => (Bool.and_eq_true_iff.mp (h x hx)).1,
    marked_flatMap fun x hx => (Bool.and_eq_true_iff.mp (h x hx)).2⟩

end Text

/-- What the tables of the fragment generator have in common: tokens are a dollar sign and letters,
replacements hold no dollar sign and no number sign, and every standard token has an entry. -/
structure TokenTable.Hosted (ts : TokenTable) : Prop where
  mark : ∀ r ∈ ts.rules, r.1.head? = some Library.tokenMark
  letters : ∀ r ∈ ts.rules, ∀ b ∈ r.1.tail, Text.isLetter b = true
  clean : ∀ r ∈ ts.rules, r.2.Quiet
  covers : ∀ w ∈ Token.standard.tokens, ∃ r ∈ ts.rules, r.1 = w

instance (ts : TokenTable) : Decidable ts.Hosted :=
  decidable_of_iff
    ((∀ r ∈ ts.rules, r.1.head? = some Library.tokenMark) ∧
      (∀ r ∈ ts.rules, r.1.tail.all Text.isLetter = true) ∧ (∀ r ∈ ts.rules, r.2.Quiet) ∧
      ∀ w ∈ Token.standard.tokens, ∃ r ∈ ts.rules, r.1 = w)
    ⟨fun h => ⟨h.1, fun r hr => List.all_eq_true.mp (h.2.1 r hr), h.2.2.1, h.2.2.2⟩,
      fun h => ⟨h.mark, fun r hr => List.all_eq_true.mpr (h.letters r hr), h.clean, h.covers⟩⟩

namespace TokenTable.Hosted

variable {ts : TokenTable}

theorem ne_nil (h : ts.Hosted) : ∀ r ∈ ts.rules, r.1 ≠ [] := by
  intro r hr hnil
  have hmark := h.mark r hr
  rw [hnil] at hmark
  cases hmark

/-- A byte that is neither a dollar sign nor a letter is a wall. -/
theorem replace_wall (h : ts.Hosted) {wall : UInt8} (hmark : wall ≠ Library.tokenMark)
    (hletter : Text.isLetter wall = false) (s t : Text) :
    ts.replace (s ++ wall :: t) = ts.replace s ++ wall :: ts.replace t := by
  refine substitute_wall h.ne_nil (fun r hr hmem => ?_) t s 0 (Nat.zero_le _)
  have hhead := h.mark r hr
  have htail := h.letters r hr
  cases hr1 : r.1 with
  | nil => exact h.ne_nil r hr hr1
  | cons b token =>
    rw [hr1] at hhead htail hmem
    rcases List.mem_cons.mp hmem with rfl | hmem
    · exact hmark (Option.some.inj hhead)
    · rw [htail wall hmem] at hletter
      exact Bool.noConfusion hletter

/-- Tokens are replaced on both sides of a run of walls by themselves. -/
theorem replace_walls (h : ts.Hosted) {walls : Text} (hwalls : walls.Walls) (t : Text) :
    ∀ s : Text, ts.replace (s ++ (walls ++ t)) = ts.replace s ++ (walls ++ ts.replace t) := by
  obtain ⟨hne, hwalls⟩ := hwalls
  induction walls with
  | nil => exact absurd rfl hne
  | cons w rest ih =>
    intro s
    obtain ⟨hmark, hletter⟩ := hwalls w List.mem_cons_self
    rw [List.cons_append, List.cons_append, h.replace_wall hmark hletter]
    cases rest with
    | nil => rfl
    | cons w' rest =>
      have hrest := ih (List.cons_ne_nil w' rest) (fun b hb => hwalls b (List.mem_cons_of_mem w hb)) []
      rw [List.nil_append] at hrest
      rw [hrest]
      rfl

/-- Tokens are not replaced where there are none. -/
theorem replace_of_quiet (h : ts.Hosted) {t : Text} (ht : t.Quiet) : ts.replace t = t :=
  substitute_of_not_mem h.mark fun hmem => (ht _ hmem).2 rfl

/-- **A tidy text has neither tokens nor include lines** once its tokens are replaced. -/
theorem replace_tidy (h : ts.Hosted) {t : Text} (ht : t.tidy = true) :
    Library.tokenMark ∉ ts.replace t ∧ ¬ Source.includeWord <:+: ts.replace t := by
  obtain ⟨htokens, hdirectives⟩ := Bool.and_eq_true_iff.mp ht
  refine ⟨not_mem_substitute h.covers (fun r hr hmem => (h.clean r hr _ hmem).2 rfl) t 0 htokens, ?_⟩
  have hkept := marked_substitute h.mark (fun r hr hmem => (h.clean r hr _ hmem).1 rfl) (by decide) t 0
    hdirectives
  exact Text.not_infix_of_marked hkept (by decide) (by decide)

end TokenTable.Hosted

namespace FragmentGenerator

/-- The table by which tokens are replaced at the end. -/
def finalTokens (g : FragmentGenerator) (o : Options) : TokenTable :=
  g.tokens.set Token.fileTransform (transformPath o)

/-- Only whether the light interface is an old one matters to the tokens. -/
theorem tokens_congr {g h : FragmentGenerator} (hapi : g.api.isLegacy = h.api.isLegacy) :
    g.tokens = h.tokens := by
  rw [tokens, tokens, hapi]

/-- A property of tokens holds of every generator if it holds of one for each kind of light interface. -/
theorem forall_tokens {P : TokenTable → Prop} (hlegacy : P (tokens ⟨.legacy⟩)) (hhost : P standard.tokens)
    (g : FragmentGenerator) : P g.tokens := by
  cases hapi : g.api.isLegacy with
  | true => rw [tokens_congr (h := ⟨.legacy⟩) (by rw [hapi]; decide)]; exact hlegacy
  | false => rw [tokens_congr (h := standard) (by rw [hapi]; decide)]; exact hhost

/-- The tokens of a generator name the host's variables, for each version of lights. -/
theorem tokens_hosted (g : FragmentGenerator) : g.tokens.Hosted :=
  forall_tokens (by decide) (by decide) g

/-- The same for the final tokens, for which the file of the transform matters too. -/
theorem forall_finalTokens {P : TokenTable → Prop}
    (hlegacy : ∀ path ∈ [Path.flippedTransform, Path.transform],
      P ((tokens ⟨.legacy⟩).set Token.fileTransform path))
    (hhost : ∀ path ∈ [Path.flippedTransform, Path.transform],
      P (standard.tokens.set Token.fileTransform path))
    (g : FragmentGenerator) (o : Options) : P (g.finalTokens o) := by
  refine forall_tokens (P := fun ts => ∀ path ∈ [Path.flippedTransform, Path.transform],
    P (ts.set Token.fileTransform path)) hlegacy hhost g _ ?_
  rw [transformPath]
  split
  · exact List.mem_cons_self
  · exact List.mem_cons_of_mem _ List.mem_cons_self

/-- So do the final ones, with the transformation of coordinates that the options ask for. -/
theorem finalTokens_hosted (g : FragmentGenerator) (o : Options) : (g.finalTokens o).Hosted :=
  forall_finalTokens (by decide) (by decide) g o

end FragmentGenerator
end ShadeGraph
