/-
  Names that the shading language accepts.

  1. `Identifier.Spelled` is a word of letters, digits and underscores that starts with no digit and has no two
     underscores next to each other.  `Identifier.Allowed` adds that it is none of the words that the language
     keeps for itself.  Every mended name is well spelled (`spelled_legal`).
  2. Mending a name gives an identifier unless the name slips the guard: the guard looks for `gl_` in the name
     as it was, and mending can make one (`allowed_legal_iff`).  A number behind the name changes nothing.
  3. A texture is named by putting underscores around it.  They must not meet another one
     (`Naming.VariableOf.allowed_texture_iff`).
  4. The number of texture coordinates is written with its sign, which no identifier has.
  5. So there are three ways in which a name of the signature is no identifier, and no other
     (`Finished.allowed_names_iff`).
-/
import Mathlib.Data.List.Chain
import ShadeGraph.Proofs.HostUniforms

namespace ShadeGraph

/-! ## Identifiers -/

namespace Identifier

/-- A word that starts with no digit and whose underscores stand alone. -/
structure Spelled (t : Text) : Prop where
  nonempty : t ≠ []
  word : ∀ b ∈ t, isWordByte b = true
  start : ∀ b ∈ t.head?, Text.isDigit b = false
  single : ¬ [underscore, underscore] <:+: t

/-- An identifier that a program may use: a well spelled word that is none of the language's own. -/
structure Allowed (t : Text) : Prop extends Spelled t where
  foreign : ¬ languagePrefix <+: t

theorem spelled_iff {t : Text} : Spelled t ↔ t ≠ [] ∧ (∀ b ∈ t, isWordByte b = true) ∧
    (∀ b ∈ t.head?, Text.isDigit b = false) ∧ ¬ [underscore, underscore] <:+: t :=
  ⟨fun h => ⟨h.nonempty, h.word, h.start, h.single⟩, fun ⟨h₁, h₂, h₃, h₄⟩ => ⟨h₁, h₂, h₃, h₄⟩⟩

theorem allowed_iff {t : Text} : Allowed t ↔ Spelled t ∧ ¬ languagePrefix <+: t :=
  ⟨fun h => ⟨h.toSpelled, h.foreign⟩, fun h => ⟨h.1, h.2⟩⟩

/-- Only the first byte, if there is one, has to be looked at for a digit in front. -/
theorem any_head?_iff {t : Text} :
    t.head?.any Text.isDigit = false ↔ ∀ b ∈ t.head?, Text.isDigit b = false := by
  cases t.head? <;> simp

instance (t : Text) : Decidable (Spelled t) :=
  decidable_of_iff (t ≠ [] ∧ t.all isWordByte = true ∧ t.head?.any Text.isDigit = false ∧
    ¬ [underscore, underscore] <:+: t) (by rw [spelled_iff, List.all_eq_true, any_head?_iff])

instance (t : Text) : Decidable (Allowed t) := decidable_of_iff _ allowed_iff.symm

/-- The words of the language start with a letter. -/
theorem not_languagePrefix_underscore (t : Text) : ¬ languagePrefix <+: underscore :: t := fun hstart =>
  absurd (List.cons_prefix_cons.mp hstart).1 (by decide)

/-- At most one of two bytes is an underscore. -/
def Apart (a b : UInt8) : Prop := ¬ (a = underscore ∧ b = underscore)

/-- No two underscores meet if neighbours are apart. -/
theorem single_iff : ∀ {t : Text}, ¬ [underscore, underscore] <:+: t ↔ t.IsChain Apart := by
  intro t
  induction t with
  | nil => simp
  | cons a t ih =>
    rw [List.infix_cons_iff, not_or, ih, List.isChain_cons]
    refine and_congr_left fun _ => ?_
    cases t with
    | nil => simp
    | cons b t => simp [Apart, eq_comm]

/-- A word with an underscore in front is an identifier if its underscores stand alone. -/
theorem allowed_underscore_iff {t : Text} (hword : ∀ b ∈ underscore :: t, isWordByte b = true) :
    Allowed (underscore :: t) ↔ (underscore :: t).IsChain Apart := by
  refine ⟨fun h => single_iff.mp h.single, fun h => ⟨⟨List.cons_ne_nil _ _, hword, ?_, single_iff.mpr h⟩, ?_⟩⟩
  · exact fun b hb => Option.some.inj hb ▸ rfl
  · exact not_languagePrefix_underscore t

/-! ### Mending -/

/-- What is left of the underscores of a text stands alone, and behind an underscore comes none. -/
theorem isChain_collapse : ∀ (t : Text) (after : Bool), (collapse after t).IsChain Apart ∧
    (after = true → ∀ b ∈ (collapse after t).head?, b ≠ underscore) := by
  intro t
  induction t with
  | nil => intro after; exact ⟨List.IsChain.nil, fun _ b hb => by cases hb⟩
  | cons a t ih =>
    intro after
    rw [collapse]
    by_cases ha : a = underscore
    · obtain ⟨hchain, hhead⟩ := ih true
      rw [if_pos ha]
      cases after with
      | true => exact ⟨hchain, fun _ => hhead rfl⟩
      | false =>
        refine ⟨List.isChain_cons.mpr ⟨fun b hb hboth => ?_, hchain⟩, fun h => by cases h⟩
        exact hhead rfl b hb hboth.2
    · rw [if_neg ha]
      refine ⟨List.isChain_cons.mpr ⟨fun b _ hboth => ha hboth.1, (ih false).1⟩, fun _ b hb => ?_⟩
      rwa [← Option.some.inj hb]

/-- The first byte is kept: nothing is in front of it. -/
theorem collapse_cons (a : UInt8) (t : Text) : ∃ rest, collapse false (a :: t) = a :: rest := by
  rw [collapse]
  split
  · exact ⟨_, rfl⟩
  · exact ⟨_, rfl⟩

/-- A letter in front of a word is kept with it. -/
theorem cons_prefix_collapse {a : UInt8} {w : Text} (ha : a ≠ underscore)
    (hw : ∀ t, w <+: collapse false t ↔ w <+: t) (t : Text) :
    a :: w <+: collapse false t ↔ a :: w <+: t := by
  cases t with
  | nil => exact Iff.rfl
  | cons b t =>
    rw [collapse]
    by_cases hb : b = underscore
    · have hne : a ≠ b := fun hab => ha (hab.trans hb)
      simp only [if_pos hb, Bool.false_eq_true, if_false, List.cons_prefix_cons, hne, false_and]
    · rw [if_neg hb, List.cons_prefix_cons, List.cons_prefix_cons, hw]

/-- Dropping underscores neither makes nor breaks `gl_`, whose underscore is the first of its run. -/
theorem languagePrefix_collapse (t : Text) : languagePrefix <+: collapse false t ↔ languagePrefix <+: t := by
  have hfirst : ∀ t, [underscore] <+: collapse false t ↔ [underscore] <+: t := by
    intro t
    cases t with
    | nil => exact Iff.rfl
    | cons a t =>
      obtain ⟨rest, hrest⟩ := collapse_cons a t
      simp [hrest, List.cons_prefix_cons]
  exact cons_prefix_collapse (by decide) (cons_prefix_collapse (by decide) hfirst) t

/-- A name that starts with `gl_` only after its bytes are mended. -/
def slipsGuard (name : Text) : Bool :=
  !languagePrefix.isPrefixOf name && languagePrefix.isPrefixOf (name.map mendByte)

/-- A guarded name starts with a letter or a digit, and does not slip the guard. -/
theorem kept_of_needsGuard {b : UInt8} {t : Text} (h : needsGuard (b :: t) = true) :
    mendByte b ≠ underscore ∧ slipsGuard (b :: t) = false := by
  have hmend : ∀ {b : UInt8}, (Text.isDigit b || Text.isLetter b) = true → mendByte b = b := fun h => if_pos h
  rw [needsGuard, Bool.or_eq_true] at h
  rcases h with hdigit | hlanguage
  · -- a digit is kept, and `gl_` does not start with one
    have hb : mendByte b = b := hmend (by rw [hdigit]; rfl)
    have hother : ∀ c : UInt8, Text.isDigit c = false → b ≠ c := fun c hc hbc =>
      Bool.false_ne_true (hc.symm.trans (hbc ▸ hdigit))
    refine ⟨hb.symm ▸ hother underscore rfl, ?_⟩
    rw [slipsGuard, Bool.and_eq_false_iff]
    refine Or.inr (Bool.eq_false_iff.mpr fun hstart => ?_)
    rw [List.isPrefixOf_iff_prefix, List.map_cons, hb] at hstart
    exact hother 103 rfl (List.cons_prefix_cons.mp hstart).1.symm
  · obtain rfl : 103 = b := (List.cons_prefix_cons.mp (List.isPrefixOf_iff_prefix.mp hlanguage)).1
    exact ⟨by decide, by rw [slipsGuard, hlanguage]; rfl⟩

/-- A mended name: an underscore where the guard asks for one, and the bytes that are left. -/
theorem legal_cons (b : UInt8) (t : Text) : ∃ rest, collapse false ((b :: t).map mendByte) = mendByte b :: rest ∧
    legal (b :: t) = if needsGuard (b :: t) then underscore :: mendByte b :: rest else mendByte b :: rest := by
  obtain ⟨rest, hrest⟩ := collapse_cons (mendByte b) (t.map mendByte)
  have hbody : collapse false ((b :: t).map mendByte) = mendByte b :: rest := hrest
  refine ⟨rest, hbody, ?_⟩
  rw [legal, if_neg (List.cons_ne_nil b t)]
  simp only [hbody]

/-- **The underscores of a mended name stand alone**, the one of the guard included. -/
theorem isChain_legal (name : Text) : (legal name).IsChain Apart := by
  cases name with
  | nil => exact List.isChain_singleton underscore
  | cons b t =>
    obtain ⟨rest, hbody, hlegal⟩ := legal_cons b t
    have hchain : (mendByte b :: rest).IsChain Apart := hbody ▸ (isChain_collapse _ false).1
    rw [hlegal]
    split
    · next hguard =>
      refine List.isChain_cons.mpr ⟨fun c hc hboth => (kept_of_needsGuard hguard).1 ?_, hchain⟩
      exact Option.some.inj hc ▸ hboth.2
    · exact hchain

/-- Mending makes no digit. -/
theorem isDigit_mendByte {b : UInt8} (h : Text.isDigit b = false) : Text.isDigit (mendByte b) = false := by
  rw [mendByte]
  split
  · exact h
  · rfl

/-- A mended name starts with an underscore, or with a byte that was no digit. -/
theorem isDigit_head?_legal (name : Text) : ∀ b ∈ (legal name).head?, Text.isDigit b = false := by
  intro c hc
  cases name with
  | nil => exact Option.some.inj hc ▸ rfl
  | cons b t =>
    obtain ⟨rest, _, hlegal⟩ := legal_cons b t
    rw [hlegal] at hc
    split at hc
    · exact Option.some.inj hc ▸ rfl
    · next hguard =>
      rw [needsGuard, Bool.not_eq_true, Bool.or_eq_false_iff] at hguard
      exact Option.some.inj hc ▸ isDigit_mendByte hguard.1

/-- Every mended name is well spelled. -/
theorem spelled_legal (name : Text) : Spelled (legal name) where
  nonempty := legal_ne_nil name
  word := fun _ => isWordByte_of_mem_legal
  start := isDigit_head?_legal name
  single := single_iff.mpr (isChain_legal name)

/-- **A mended name is an identifier unless it slips the guard.** -/
theorem allowed_legal_iff (name : Text) : Allowed (legal name) ↔ slipsGuard name = false := by
  rw [allowed_iff, and_iff_right (spelled_legal name)]
  cases name with
  | nil => decide
  | cons b t =>
    obtain ⟨rest, hbody, hlegal⟩ := legal_cons b t
    cases hguard : needsGuard (b :: t) with
    | true =>
      rw [hguard, if_pos rfl] at hlegal
      rw [hlegal]
      exact iff_of_true (not_languagePrefix_underscore _) (kept_of_needsGuard hguard).2
    | false =>
      rw [hguard, if_neg Bool.false_ne_true] at hlegal
      rw [needsGuard, Bool.or_eq_false_iff] at hguard
      -- without a guard in front, it is the mended bytes that may start with `gl_`
      rw [hlegal, slipsGuard, hguard.2, Bool.not_false, Bool.true_and, ← hbody, ← Bool.not_eq_true,
        List.isPrefixOf_iff_prefix, languagePrefix_collapse]

/-! ### Numbers behind a name -/

section

variable {t digits : Text} (hdigits : ∀ b ∈ digits, Text.isDigit b = true)
include hdigits

/-- Digits behind a name put no underscores together. -/
theorem isChain_append_digits : (t ++ digits).IsChain Apart ↔ t.IsChain Apart := by
  have hapart : digits.IsChain Apart := single_iff.mp fun hin =>
    absurd (hdigits underscore (hin.subset List.mem_cons_self)) (by decide)
  rw [List.isChain_append]
  refine ⟨fun h => h.1, fun h => ⟨h, hapart, fun a _ b hb hboth => ?_⟩⟩
  have hdigit := hdigits b (List.mem_of_mem_head? hb)
  rw [hboth.2] at hdigit
  cases hdigit

/-- Digits behind a name do not complete `gl_`. -/
theorem languagePrefix_append_digits : languagePrefix <+: t ++ digits ↔ languagePrefix <+: t := by
  refine ⟨fun h => ?_, fun h => h.trans (List.prefix_append _ _)⟩
  rcases List.prefix_or_prefix_of_prefix h (List.prefix_append t digits) with hin | ⟨rest, hrest⟩
  · exact hin
  · rw [← hrest, List.prefix_append_right_inj] at h
    cases rest using List.reverseRecOn with
    | nil => rw [← hrest, List.append_nil]
    | append_singleton front last _ =>
      -- the underscore of `gl_` would be a digit
      have hlast : underscore = last := by
        have hends := congrArg List.getLast? hrest
        rw [← List.append_assoc, List.getLast?_concat] at hends
        exact (Option.some.inj hends).symm
      have hmem := h.subset (List.mem_append_right front (List.mem_singleton_self last))
      exact absurd (hdigits _ (hlast ▸ hmem)) (by decide)

/-- Digits behind a name do not change how it is spelled. -/
theorem spelled_append_digits (ht : t ≠ []) : Spelled (t ++ digits) ↔ Spelled t := by
  rw [spelled_iff, spelled_iff, List.head?_append_of_ne_nil t ht, single_iff, single_iff,
    isChain_append_digits hdigits]
  constructor
  · rintro ⟨_, hword, hrest⟩
    exact ⟨ht, fun b hb => hword b (List.mem_append_left _ hb), hrest⟩
  · rintro ⟨_, hword, hrest⟩
    refine ⟨List.append_ne_nil_of_left_ne_nil ht _, fun b hb => ?_, hrest⟩
    rcases List.mem_append.mp hb with hb | hb
    · exact hword b hb
    · exact isWordByte_of_isDigit (hdigits b hb)

/-- Digits behind a name make and break no identifier. -/
theorem allowed_append_digits (ht : t ≠ []) : Allowed (t ++ digits) ↔ Allowed t := by
  rw [allowed_iff, allowed_iff, spelled_append_digits hdigits ht, languagePrefix_append_digits hdigits]

end

/-- No underscore is at the ends of a text. -/
def Trimmed (t : Text) : Prop := t.head? ≠ some underscore ∧ t.getLast? ≠ some underscore

instance (t : Text) : Decidable (Trimmed t) := inferInstanceAs (Decidable (_ ∧ _))

end Identifier

open Identifier (Allowed Apart Trimmed slipsGuard underscore)

/-! ## Samplers -/

namespace Sampler

variable {name t : Text}

/-- A texture with the underscores around it is a sampler's name. -/
theorem isName_ofTexture (h : t ≠ []) : isName (ofTexture t) = true := by
  have hlength : front.length + back.length < (ofTexture t).length := by
    have hpos := List.length_pos_iff.mpr h
    rw [ofTexture, List.length_append, List.length_append]
    omega
  have hfront : front <+: ofTexture t := by
    rw [ofTexture, List.append_assoc]
    exact List.prefix_append _ _
  rw [isName, Bool.and_eq_true, Bool.and_eq_true]
  exact ⟨⟨decide_eq_true hlength, List.isPrefixOf_iff_prefix.mpr hfront⟩,
    List.isSuffixOf_iff_suffix.mpr (List.suffix_append _ _)⟩

/-- The texture is found in it again. -/
theorem texture_ofTexture (h : t ≠ []) : texture (ofTexture t) = t := by
  have hdrop : (ofTexture t).drop front.length = t ++ back := by
    rw [ofTexture, List.append_assoc]
    exact List.drop_left
  have hlength : (ofTexture t).length - front.length - back.length = t.length := by
    rw [ofTexture, List.length_append, List.length_append]
    omega
  rw [texture, if_pos (isName_ofTexture h), hdrop, hlength, List.take_left]

/-- A sampler's name is the sampler of a texture. -/
theorem exists_texture (h : isName name = true) : ∃ t ≠ [], name = ofTexture t := by
  rw [isName, Bool.and_eq_true, Bool.and_eq_true, decide_eq_true_eq, List.isPrefixOf_iff_prefix,
    List.isSuffixOf_iff_suffix] at h
  obtain ⟨⟨hlength, rest, rfl⟩, before, hback⟩ := h
  have hsum := congrArg List.length hback
  rw [List.length_append] at hlength hsum
  rw [List.length_append] at hsum
  cases before with
  | nil =>
    have hshort : front.length = 1 := by decide
    rw [List.length_nil] at hsum
    omega
  | cons b t =>
    have hrest : t ++ back = rest := (List.cons.inj hback).2
    refine ⟨t, ?_, by rw [ofTexture, List.append_assoc, hrest]⟩
    rintro rfl
    rw [← hrest, List.nil_append] at hlength
    omega

/-- The underscores of a sampler stand alone if those of the texture do and none is at its ends. -/
theorem isChain_ofTexture_iff (h : t ≠ []) :
    (ofTexture t).IsChain Apart ↔ t.IsChain Apart ∧ Trimmed t := by
  have hfront : front = [underscore] := by decide
  have hback : back.IsChain Apart := Identifier.single_iff.mp (by decide)
  have hlast : (front ++ t).getLast? = t.getLast? := by
    obtain ⟨b, hb⟩ := Option.ne_none_iff_exists'.mp (mt List.getLast?_eq_none_iff.mp h)
    rw [List.getLast?_append, hb, Option.some_or]
  have hstart : back.head? = some underscore := by decide
  have hnone : ∀ byte? : Option UInt8, (∀ b ∈ byte?, b ≠ underscore) ↔ byte? ≠ some underscore := by
    intro byte?
    cases byte? <;> simp
  rw [ofTexture, List.isChain_append, List.isChain_append, hlast, hstart, hfront, Trimmed, ← hnone, ← hnone]
  simp only [hback, List.isChain_singleton, List.getLast?_singleton, Option.mem_some_iff, forall_eq', true_and,
    Apart, not_and, true_implies, not_true_eq_false, imp_false, ne_eq, and_assoc]

end Sampler

/-! ## Variables of ports -/

namespace Naming

variable {name u v : Text} {t : DataType}

/-- What is behind a numbered name are digits. -/
theorem exists_digits {base : Text} (h : IdentifierMap.Numbered base u) :
    ∃ digits, u = base ++ digits ∧ ∀ b ∈ digits, Text.isDigit b = true := by
  rcases h with rfl | ⟨k, rfl⟩
  · exact ⟨[], (List.append_nil u).symm, fun b hb => by cases hb⟩
  · exact ⟨Text.ofNat k, rfl, fun b => Text.isDigit_of_mem_ofNat⟩

/-- The variable of a port that is no texture is an identifier unless the port's name slips the guard. -/
theorem VariableOf.allowed_iff (h : VariableOf name t v) (ht : t ≠ .filename) :
    Allowed v ↔ slipsGuard name = false := by
  obtain ⟨u, hu, hv⟩ := h
  rw [if_neg ht] at hv
  obtain ⟨digits, rfl, hdigits⟩ := exists_digits hu
  rw [hv, Identifier.allowed_append_digits hdigits (Identifier.legal_ne_nil name), Identifier.allowed_legal_iff]

/-- **The variable of a texture is an identifier if no underscore of the texture meets one of the sampler.** -/
theorem VariableOf.allowed_texture_iff (h : VariableOf name .filename v) :
    Allowed v ↔ Trimmed (Sampler.texture v) := by
  have hword : ∀ b ∈ v, Identifier.isWordByte b = true := fun b => h.isWordByte
  obtain ⟨u, hu, hv⟩ := h
  obtain ⟨digits, hdigits, hdigit⟩ := exists_digits hu
  have hchain : u.IsChain Apart := by
    rw [hdigits, Identifier.isChain_append_digits hdigit]
    exact Identifier.isChain_legal name
  have htexture : ∃ t ≠ [], v = Sampler.ofTexture t ∧ t.IsChain Apart := by
    -- what looks like a sampler already is kept, and anything else is made one
    rw [if_pos rfl] at hv
    rcases hv with ⟨hsampler, rfl⟩ | rfl
    · obtain ⟨t, ht, rfl⟩ := Sampler.exists_texture hsampler
      exact ⟨t, ht, rfl, ((Sampler.isChain_ofTexture_iff ht).mp hchain).1⟩
    · exact ⟨u, Identifier.ne_nil_of_numbered hu, rfl, hchain⟩
  obtain ⟨t, ht, rfl, hapart⟩ := htexture
  rw [Sampler.texture_ofTexture ht]
  exact (Identifier.allowed_underscore_iff hword).trans
    ((Sampler.isChain_ofTexture_iff ht).trans (and_iff_right hapart))

end Naming

/-- The name of a port becomes an identifier: it does not slip the guard, or for a texture, the name that is
made of it has no underscore at its ends. -/
def Port.NamesIdentifier (p : Port) : Prop :=
  if p.type = .filename then Trimmed (Sampler.texture p.ident) else slipsGuard p.name = false

instance (p : Port) : Decidable p.NamesIdentifier := inferInstanceAs (Decidable (ite _ _ _))

/-- The number of the texture coordinates that a node asks for. -/
def ShaderNode.texcoordIndex (n : ShaderNode) : Int :=
  match (n.input? "index").bind ShaderInput.value with
  | some v => v.asInt
  | none => 0

namespace FragmentGenerator

/-! ## Arguments -/

/-- The argument of a port is an identifier if the name of the port becomes one. -/
theorem allowed_argumentOf_iff {p : Port} (h : Naming.VariableOf p.name p.type p.ident) :
    Allowed (argumentOf p).2 ↔ p.NamesIdentifier := by
  have hsuffix : wideSuffix.all Text.isDigit = true := by decide
  rw [argumentOf, Port.NamesIdentifier]
  by_cases hfile : p.type = .filename
  · rw [hfile] at h
    rw [if_pos hfile, if_neg (by rw [hfile]; decide)]
    exact h.allowed_texture_iff
  · rw [if_neg hfile, ← h.allowed_iff hfile]
    split
    · exact Identifier.allowed_append_digits (List.all_eq_true.mp hsuffix) h.ne_nil
    · exact Iff.rfl

/-- The names of texture coordinates are identifiers if their number has no sign. -/
theorem allowed_texcoord_iff (g : FragmentGenerator) (o : Options) (i : Int) :
    Allowed ((g.finalTokens o).replace (Token.texcoord ++ "_" ++ Text.ofInt i)) ↔ 0 ≤ i := by
  have hfront : Allowed (Text.ofString "texcoord" ++ [95]) := by decide
  rw [replace_texcoord]
  cases i with
  | ofNat n =>
    have hsplit : Text.ofString "texcoord" ++ 95 :: Text.ofInt (.ofNat n) =
        Text.ofString "texcoord" ++ [95] ++ Text.ofNat n := by
      rw [List.append_assoc]
      rfl
    rw [hsplit, Identifier.allowed_append_digits (fun b => Text.isDigit_of_mem_ofNat) (by decide)]
    exact iff_of_true hfront (Int.natCast_nonneg n)
  | negSucc n =>
    refine iff_of_false (fun h => ?_) (by omega)
    have hsign := h.word 45 (List.mem_append_right _ (List.mem_cons_of_mem _ List.mem_cons_self))
    exact absurd hsign (by decide)

/-- What a node asks for of the vertices has identifiers for names, negative texture coordinates apart. -/
theorem allowed_vertexNeeds_iff (g : FragmentGenerator) (o : Options) (n : ShaderNode) :
    (∀ x ∈ Inventory.vertexNeeds n, Allowed ((g.finalTokens o).replace x)) ↔
      (n.implementation = .texcoord → 0 ≤ n.texcoordIndex) := by
  have hgeometric : ∀ x ∈ Inventory.geometricTokens, Allowed ((g.finalTokens o).replace x) :=
    forall_finalTokens (P := fun ts => ∀ x ∈ Inventory.geometricTokens, Allowed (ts.replace x))
      (by decide) (by decide) g o
  have hfirst : Allowed ((g.finalTokens o).replace ShaderNode.firstTexcoord) :=
    (g.allowed_texcoord_iff o 0).mpr (Int.le_refl 0)
  rw [Inventory.vertexNeeds]
  cases n.implementation with
  | texcoord =>
    simp only [List.mem_singleton, forall_eq, true_implies]
    exact g.allowed_texcoord_iff o n.texcoordIndex
  | geometric k =>
    refine iff_of_true (List.forall_mem_singleton.mpr ?_) (fun h => by cases h)
    exact hgeometric _ (Inventory.geometricToken_mem n k)
  -- An image falls back on the first coordinates, whose index is zero.
  | image t =>
    refine iff_of_true ?_ (fun h => by cases h)
    simp only
    split
    · exact fun x hx => by cases hx
    · exact List.forall_mem_singleton.mpr hfirst
  | surface l =>
    refine iff_of_true (fun x hx => hgeometric x ?_) (fun h => by cases h)
    have hsurface : [Token.positionWorld, Token.normalWorld] ⊆ Inventory.geometricTokens := by decide
    exact hsurface hx
  | constant | hostNumber | arithmetic | mix | transformMatrix | diffuseBsdf | uniformEdf | surfaceUnlit =>
    exact iff_of_true (fun x hx => by cases hx) (fun h => by cases h)

/-! ## The signature -/

/-- The names of the arguments: those of the public ports, of the vertex data, and for transparency. -/
theorem argumentNames_finalRoot (g : FragmentGenerator) (o : Options) (graph : ShaderGraph) (ps : Stage) :
    (g.finalRoot o graph ps).arguments.map Prod.snd =
      ((publicPorts ps).map (fun p => (argumentOf p).2) ++ (vertexPorts ps).map (fun p => (argumentOf p).2) ++
        transparencyNames o.transparency).map (g.finalTokens o).replace := by
  have hlast : (if o.transparency then [(Text.ofString "float", transparencyArgument)] else []).map Prod.snd =
      transparencyNames o.transparency := by
    cases o.transparency <;> rfl
  rw [finalRoot, RootFunction.resolve, root, rootArguments, ← hlast]
  simp only [List.map_append, List.map_map]
  rfl

namespace Finished

variable {g : FragmentGenerator} {o : Options} {gr : Graph} {v : Inventory} {ps : Stage} {s : Shader}

/-- The root function has the name of the stage's function, which holds no token. -/
theorem name_finalRoot (h : g.Finished o gr v ps s) : (g.finalRoot o s.graph ps).name = ps.functionName :=
  (g.finalTokens_hosted o).replace_of_quiet h.name

/-- Every public port has a variable that is made of its name. -/
theorem named_publicPorts (h : g.Finished o gr v ps s) :
    ∀ p ∈ publicPorts ps, Naming.VariableOf p.name p.type p.ident := by
  have hrig : ∀ p ∈ lightRigPorts, p.ident = Identifier.legal p.name ∧ p.type ≠ .filename := by decide
  obtain ⟨added, hpublished, hsub, _⟩ := g.lit_published o s.graph v
  intro p hp
  rw [h.publicPorts_eq, hpublished] at hp
  rcases List.mem_append.mp hp with hp | hp
  · exact h.created.named p hp
  · obtain ⟨hident, htype⟩ := hrig p (hsub.subset hp)
    exact ⟨_, Or.inl rfl, by rw [if_neg htype]; exact hident⟩

/-- Vertex data is what the nodes ask for. -/
theorem mem_names_vertex_iff (h : g.Finished o gr v ps s) (x : Text) :
    x ∈ (vertexPorts ps).map Port.name ↔ ∃ n ∈ s.graph.nodes, x ∈ Inventory.vertexNeeds n := by
  obtain ⟨nodes, before, hnone, _, hfurnished⟩ := h.created.furnished
  have hnames := (Inventory.names_furnishAll nodes before x).1
  rw [hfurnished, hnone] at hnames
  rw [h.vertexPorts_eq, hnames, List.map_nil]
  simp only [List.not_mem_nil, false_or]

/-- The published arguments are identifiers if the names of their ports become such. -/
theorem allowed_public_iff (h : g.Finished o gr v ps s) :
    (∀ p ∈ publicPorts ps, Allowed ((g.finalTokens o).replace (argumentOf p).2)) ↔
      ∀ p ∈ publicPorts ps, p.NamesIdentifier := by
  refine forall₂_congr fun p hp => ?_
  rw [(g.finalTokens_hosted o).replace_of_quiet (quiet_argumentOf (h.quiet_publicPorts p hp))]
  exact allowed_argumentOf_iff (h.named_publicPorts p hp)

/-- Vertex data has identifiers for names, unless a node asks for texture coordinates by a negative number. -/
theorem allowed_vertex_iff (h : g.Finished o gr v ps s) :
    (∀ p ∈ vertexPorts ps, Allowed ((g.finalTokens o).replace (argumentOf p).2)) ↔
      ∀ n ∈ s.graph.nodes, n.implementation = .texcoord → 0 ≤ n.texcoordIndex := by
  have hname : ∀ p ∈ vertexPorts ps, (argumentOf p).2 = p.name := by
    intro p hp
    rw [h.vertexPorts_eq] at hp
    obtain ⟨_, hident, htype⟩ := h.created.hosted.vertex p hp
    rw [argumentOf, if_neg htype]
    exact hident
  have hnames : (∀ p ∈ vertexPorts ps, Allowed ((g.finalTokens o).replace (argumentOf p).2)) ↔
      ∀ x ∈ (vertexPorts ps).map Port.name, Allowed ((g.finalTokens o).replace x) := by
    rw [List.forall_mem_map]
    exact forall₂_congr fun p hp => by rw [hname p hp]
  rw [hnames]
  constructor
  · intro hall n hn
    exact (g.allowed_vertexNeeds_iff o n).mp fun x hx => hall x ((h.mem_names_vertex_iff x).mpr ⟨n, hn, hx⟩)
  · intro hall x hx
    obtain ⟨n, hn, hneeds⟩ := (h.mem_names_vertex_iff x).mp hx
    exact (g.allowed_vertexNeeds_iff o n).mpr (hall n hn) x hneeds

/-- **When all names of the signature are identifiers.** -/
theorem allowed_names_iff (h : g.Finished o gr v ps s) {name : Text}
    (hname : Naming.VariableOf name .float ps.functionName) :
    (∀ x ∈ (g.finalRoot o s.graph ps).name :: (g.finalRoot o s.graph ps).arguments.map Prod.snd, Allowed x) ↔
      slipsGuard name = false ∧ (∀ p ∈ publicPorts ps, p.NamesIdentifier) ∧
        ∀ n ∈ s.graph.nodes, n.implementation = .texcoord → 0 ≤ n.texcoordIndex := by
  have hfunction : Allowed ps.functionName ↔ slipsGuard name = false := hname.allowed_iff (by decide)
  have htransparency : ∀ x ∈ (transparencyNames o.transparency).map (g.finalTokens o).replace, Allowed x := by
    have hquiet : transparencyArgument.Quiet := by decide
    have hword : Allowed ((g.finalTokens o).replace transparencyArgument) := by
      rw [(g.finalTokens_hosted o).replace_of_quiet hquiet]
      decide
    cases o.transparency with
    | false => exact fun x hx => by cases hx
    | true => exact List.forall_mem_singleton.mpr hword
  rw [List.forall_mem_cons, argumentNames_finalRoot, h.name_finalRoot, hfunction, List.map_append,
    List.map_append, List.forall_mem_append, List.forall_mem_append, List.map_map, List.map_map,
    List.forall_mem_map, List.forall_mem_map]
  simp only [Function.comp_apply, h.allowed_public_iff, h.allowed_vertex_iff]
  rw [and_iff_left htransparency]

end Finished

/-- **The names of the signature are identifiers**, that of the root function and those of its arguments,
except where one of three things happens: a name becomes one that starts with `gl_` only by being mended, an
underscore of a texture's name meets one of the sampler, or texture coordinates have a negative number. -/
theorem signature_names_legal_iff {g : FragmentGenerator} {name : Text} {graph : Option Graph} {o : Options}
    {samples : SampleSetting} {s : Shader}
    (h : (g.generate name graph (g.contextWith o samples)).1 = .ok s) :
    ∃ ps front, s.stage? pixelStage = some ps ∧ ps.code = front ++ (g.finalRoot o s.graph ps).text ∧
      ((∀ x ∈ (g.finalRoot o s.graph ps).name :: (g.finalRoot o s.graph ps).arguments.map Prod.snd,
          Allowed x) ↔
        slipsGuard name = false ∧ (∀ p ∈ publicPorts ps, p.NamesIdentifier) ∧
          ∀ n ∈ s.graph.nodes, n.implementation = .texcoord → 0 ≤ n.texcoordIndex) := by
  obtain ⟨_, _, _, ps, hfinished⟩ := finished_of_generate h
  obtain ⟨front, hcode⟩ := hfinished.exists_front
  exact ⟨ps, front, hfinished.pixel, hcode,
    hfinished.allowed_names_iff (functionName_of_generate h hfinished.pixel)⟩

set_option maxRecDepth 2000 in
/-- All names of the textured surface are identifiers. -/
theorem signature_names_legal_iff_textured : ∃ s ps front,
    (standard.generate "lit" (some texturedGraph) (standard.contextWith .standard .absent)).1 = .ok s ∧
      s.stage? pixelStage = some ps ∧ ps.code = front ++ (standard.finalRoot .standard s.graph ps).text ∧
      ∀ x ∈ (standard.finalRoot .standard s.graph ps).name ::
        (standard.finalRoot .standard s.graph ps).arguments.map Prod.snd, Allowed x := by
  obtain ⟨made, v, _, _, hcreate, hs⟩ := exists_finalShader accepted_texturedGraph "lit" (o := .standard)
    (by decide) .absent
  -- The ports and nodes are known as soon as the shader is made, before any code is written.
  have hmade : (standard.createShader "lit" (some texturedGraph)
      (some (standard.contextWith .standard .absent))).toOption.all (fun b : Shader =>
        decide ((∀ p ∈ publicPorts ((b.stage? pixelStage).getD (.empty pixelStage)), p.NamesIdentifier) ∧
          ∀ n ∈ b.graph.nodes, n.implementation = .texcoord → 0 ≤ n.texcoordIndex)) = true := rfl
  rw [hcreate] at hmade
  obtain ⟨ps, front, hps, hcode, hlegal⟩ := signature_names_legal_iff hs
  obtain rfl := Option.some.inj hps
  exact ⟨_, _, front, hs, hps, hcode, hlegal.mpr ⟨by decide, of_decide_eq_true hmade⟩⟩

/-- A root function whose name starts with `gl_`, which its shader's name does not. -/
theorem function_name_reserved : ∃ s ps front,
    (standard.generate "gl-x" (some darkGraph) (standard.contextWith .standard .absent)).1 = .ok s ∧
      s.stage? pixelStage = some ps ∧ ps.code = front ++ (standard.finalRoot .standard s.graph ps).text ∧
      ¬ Identifier.languagePrefix <+: Text.ofString "gl-x" ∧
      Identifier.languagePrefix <+: (standard.finalRoot .standard s.graph ps).name := by
  obtain ⟨_, _, _, _, _, hs⟩ := exists_finalShader accepted_darkGraph "gl-x" (o := .standard) (by decide) .absent
  obtain ⟨_, _, _, ps, hfinished⟩ := finished_of_generate hs
  obtain ⟨front, hcode⟩ := hfinished.exists_front
  refine ⟨_, ps, front, hs, hfinished.pixel, hcode, by decide, ?_⟩
  obtain ⟨u, hu, hv⟩ := functionName_of_generate hs hfinished.pixel
  obtain ⟨digits, rfl, _⟩ := Naming.exists_digits hu
  have hmended : Identifier.languagePrefix <+: Identifier.legal "gl-x" := by decide
  rw [hfinished.name_finalRoot]
  exact hv ▸ hmended.trans (List.prefix_append _ _)

end FragmentGenerator
end ShadeGraph
