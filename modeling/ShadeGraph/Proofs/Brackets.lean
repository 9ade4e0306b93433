/-
  Brackets of a text.

  1. `Text.Nested` is the specification: a word of brackets is nested if it is empty, or a bracket, a nested
     word, the bracket that fits, and a nested word again.
  2. `Text.readBrackets` reads a text with a stack of the brackets that are open.  It can be run, and it goes
     over texts that are put together from pieces (`readBrackets_append`).
  3. The two agree (`balanced_iff_nested`).  From right to left a nested word leaves every stack as it was.
     The other way round the induction needs the open brackets in the statement: what is read with a stack is
     a nested word, the bracket that closes the innermost scope, and so on down the stack (`Closing`).
  4. A balanced text may be put between any two pieces without being seen (`readBrackets_joinWith`), and
     substitution leaves brackets alone if tokens and replacements hold none
     (`TokenTable.brackets_substitute`).
  5. `Text.Sound` is what all text that the generator writes has in common: it says which tokens stand in it,
     that number signs start directives, and that brackets are balanced.  Text without directives is `Sober`.
-/
import ShadeGraph.Proofs.Identifier
import ShadeGraph.Proofs.Pieces
import ShadeGraph.Proofs.Substitution

namespace ShadeGraph

namespace Bracket

/-- The kinds of brackets. -/
def kinds : List Bracket := [.brace, .parenthesis, .square]

/-- The kind of bracket that a byte opens. -/
def opened? (b : UInt8) : Option Bracket := kinds.find? (·.opener == b)

/-- The kind of bracket that a byte closes. -/
def closed? (b : UInt8) : Option Bracket := kinds.find? (·.closer == b)

/-- A byte that opens or closes a bracket. -/
def isByte (b : UInt8) : Bool := (opened? b).isSome || (closed? b).isSome

@[simp] theorem opened?_opener (k : Bracket) : opened? k.opener = some k := by cases k <;> rfl

@[simp] theorem opened?_closer (k : Bracket) : opened? k.closer = none := by cases k <;> rfl

@[simp] theorem closed?_closer (k : Bracket) : closed? k.closer = some k := by cases k <;> rfl

/-- A byte opens one kind of bracket only. -/
theorem eq_opener {b : UInt8} {k : Bracket} (h : opened? b = some k) : b = k.opener := by
  have hopener : (k.opener == b) = true := List.find?_some (p := fun k : Bracket => k.opener == b) h
  exact (beq_iff_eq.mp hopener).symm

/-- A byte closes one kind of bracket only. -/
theorem eq_closer {b : UInt8} {k : Bracket} (h : closed? b = some k) : b = k.closer := by
  have hcloser : (k.closer == b) = true := List.find?_some (p := fun k : Bracket => k.closer == b) h
  exact (beq_iff_eq.mp hcloser).symm

theorem isByte_eq_false {b : UInt8} (h : isByte b = false) : opened? b = none ∧ closed? b = none := by
  rw [isByte, Bool.or_eq_false_iff] at h
  exact ⟨Option.isSome_eq_false_iff.mp h.1 |> Option.isNone_iff_eq_none.mp,
    Option.isSome_eq_false_iff.mp h.2 |> Option.isNone_iff_eq_none.mp⟩

end Bracket

namespace Text

/-! ## Nested words -/

/-- The brackets of a text, in order. -/
def brackets (t : Text) : Text := t.filter Bracket.isByte

/-- Properly nested words of brackets. -/
inductive Nested : Text → Prop
  | nil : Nested []
  | wrap (k : Bracket) {inner rest : Text} (hinner : Nested inner) (hrest : Nested rest) :
      Nested (k.opener :: (inner ++ k.closer :: rest))

/-- Words that close the open brackets, the innermost first, with nested words between them. -/
inductive Closing : List Bracket → Text → Prop
  | nil {t : Text} (h : Nested t) : Closing [] t
  | cons (k : Bracket) {opened : List Bracket} {inner rest : Text} (hinner : Nested inner)
      (hrest : Closing opened rest) : Closing (k :: opened) (inner ++ k.closer :: rest)

/-- A nested word in front changes nothing. -/
theorem Closing.wrap (k : Bracket) {opened : List Bracket} {inner rest : Text} (hinner : Nested inner)
    (h : Closing opened rest) : Closing opened (k.opener :: (inner ++ k.closer :: rest)) := by
  cases h with
  | nil hrest => exact .nil (.wrap k hinner hrest)
  | @cons k' opened second rest hsecond hrest =>
    have hfirst : Nested (k.opener :: (inner ++ k.closer :: second)) := .wrap k hinner hsecond
    have := Closing.cons k' hfirst hrest
    rwa [List.cons_append, List.append_assoc] at this

/-! ## Reading brackets with a stack -/

/-- The brackets that are open when a text has been read, the innermost first; `none` if one was closed
that was not the innermost. -/
def readBrackets : (opened : List Bracket) → Text → Option (List Bracket)
  | opened, [] => some opened
  | opened, b :: t =>
    match Bracket.opened? b with
    | some k => readBrackets (k :: opened) t
    | none =>
      match Bracket.closed? b with
      | none => readBrackets opened t
      | some k =>
        match opened with
        | [] => none
        | k' :: outer => if k = k' then readBrackets outer t else none

/-- Every bracket that a text opens is closed in it, and no other. -/
def Balanced (t : Text) : Prop := ∀ opened, readBrackets opened t = some opened

variable {opened opened' : List Bracket} {s t : Text}

/-- **A text can be read piece by piece**: the second piece goes on with the brackets that the first leaves
open. -/
theorem readBrackets_append (opened : List Bracket) (s t : Text) :
    readBrackets opened (s ++ t) = (readBrackets opened s).bind fun opened => readBrackets opened t := by
  induction s generalizing opened with
  | nil => rfl
  | cons b s ih =>
    rw [List.cons_append, readBrackets, readBrackets]
    cases Bracket.opened? b with
    | some k => exact ih (k :: opened)
    | none =>
      cases Bracket.closed? b with
      | none => exact ih opened
      | some k =>
        cases opened with
        | nil => rfl
        | cons k' outer =>
          simp only
          split
          · exact ih outer
          · rfl

/-- Brackets below those that are needed do not matter. -/
theorem readBrackets_above (below : List Bracket) (h : readBrackets opened t = some opened') :
    readBrackets (opened ++ below) t = some (opened' ++ below) := by
  induction t generalizing opened with
  | nil => rw [readBrackets] at h ⊢; rw [Option.some.inj h]
  | cons b t ih =>
    rw [readBrackets] at h ⊢
    cases hopened : Bracket.opened? b with
    | some k => simp only [hopened] at h ⊢; exact ih h
    | none =>
      cases hclosed : Bracket.closed? b with
      | none => simp only [hopened, hclosed] at h ⊢; exact ih h
      | some k =>
        simp only [hopened, hclosed] at h ⊢
        cases opened with
        | nil => cases h
        | cons k' outer =>
          simp only [List.cons_append] at h ⊢
          split at h
          · next heq => rw [if_pos heq]; exact ih h
          · cases h

/-- Only brackets are looked at. -/
theorem readBrackets_brackets (opened : List Bracket) (t : Text) :
    readBrackets opened t.brackets = readBrackets opened t := by
  induction t generalizing opened with
  | nil => rfl
  | cons b t ih =>
    cases hb : Bracket.isByte b with
    | false =>
      obtain ⟨hopened, hclosed⟩ := Bracket.isByte_eq_false hb
      have hskip : brackets (b :: t) = brackets t := List.filter_cons_of_neg (by rw [hb]; decide)
      rw [hskip, readBrackets, hopened, hclosed]
      exact ih opened
    | true =>
      have hkeep : brackets (b :: t) = b :: brackets t := List.filter_cons_of_pos hb
      rw [hkeep, readBrackets, readBrackets]
      cases Bracket.opened? b with
      | some k => exact ih _
      | none =>
        cases Bracket.closed? b with
        | none => exact ih _
        | some k =>
          cases opened with
          | nil => rfl
          | cons k' outer => simp only; split; exacts [ih _, rfl]

/-- What is read with a stack closes it. -/
theorem closing_of_readBrackets (h : readBrackets opened t = some []) : Closing opened t.brackets := by
  induction t generalizing opened with
  | nil =>
    rw [readBrackets] at h
    obtain rfl := Option.some.inj h
    exact .nil .nil
  | cons b t ih =>
    rw [readBrackets] at h
    cases hopened : Bracket.opened? b with
    | some k =>
      -- The stack of the rest has one bracket more, and the rest closes that one first.
      simp only [hopened] at h
      have hkeep : brackets (b :: t) = k.opener :: brackets t := by
        rw [brackets, List.filter_cons_of_pos (by rw [Bracket.isByte, hopened]; rfl), Bracket.eq_opener hopened]
        rfl
      rw [hkeep]
      generalize brackets t = word at ih
      cases ih h with
      | cons _ hinner hrest => exact hrest.wrap k hinner
    | none =>
      cases hclosed : Bracket.closed? b with
      | none =>
        simp only [hopened, hclosed] at h
        have hskip : brackets (b :: t) = brackets t :=
          List.filter_cons_of_neg (by rw [Bracket.isByte, hopened, hclosed]; exact Bool.false_ne_true)
        rw [hskip]
        exact ih h
      | some k =>
        simp only [hopened, hclosed] at h
        have hkeep : brackets (b :: t) = k.closer :: brackets t := by
          rw [brackets, List.filter_cons_of_pos (by rw [Bracket.isByte, hclosed, Option.isSome_some, Bool.or_true]),
            Bracket.eq_closer hclosed]
          rfl
        rw [hkeep]
        cases opened with
        | nil => cases h
        | cons k' outer =>
          simp only at h
          split at h
          · next heq => exact heq ▸ Closing.cons k .nil (ih h)
          · cases h

/-- A nested word leaves every stack as it was, by induction on the nesting. -/
theorem balanced_of_nested (h : Nested t) : Balanced t := by
  induction h with
  | nil => exact fun opened => rfl
  | wrap k _ _ ihinner ihrest =>
    intro opened
    rw [readBrackets, Bracket.opened?_opener]
    simp only [readBrackets_append, ihinner (k :: opened), Option.bind_some]
    rw [readBrackets, Bracket.opened?_closer, Bracket.closed?_closer]
    simp only [if_true]
    exact ihrest opened

/-- **Reading with a stack decides nesting**: the text is balanced exactly if its brackets are nested. -/
theorem balanced_iff_nested : Balanced t ↔ Nested t.brackets := by
  constructor
  · intro h
    cases closing_of_readBrackets (h []) with
    | nil hnested => exact hnested
  · intro h opened
    rw [← readBrackets_brackets]
    exact balanced_of_nested h opened

/-- A text is balanced if reading it alone leaves nothing open. -/
theorem balanced_of_read (h : readBrackets [] t = some []) : Balanced t := fun opened =>
  readBrackets_above opened h

/-! ## Texts from pieces -/

namespace Balanced

theorem nil : Balanced [] := fun _ => rfl

/-- Balanced texts one behind the other are balanced. -/
theorem append (hs : Balanced s) (ht : Balanced t) : Balanced (s ++ t) := by
  intro opened
  rw [readBrackets_append, hs, Option.bind_some, ht]

theorem flatMap {α : Type} {f : α → Text} {xs : List α} (h : ∀ x ∈ xs, Balanced (f x)) :
    Balanced (xs.flatMap f) := by
  induction xs with
  | nil => exact nil
  | cons x xs ih =>
    rw [List.flatMap_cons]
    exact (h x List.mem_cons_self).append (ih fun y hy => h y (List.mem_cons_of_mem x hy))

end Balanced

/-- A text without brackets is balanced. -/
theorem balanced_of_brackets (h : t.brackets = []) : Balanced t := balanced_iff_nested.mpr (h ▸ Nested.nil)

theorem brackets_append (s t : Text) : brackets (s ++ t) = brackets s ++ brackets t :=
  List.filter_append s t

theorem brackets_eq_nil_iff : t.brackets = [] ↔ ∀ b ∈ t, Bracket.isByte b = false := by
  rw [brackets, List.filter_eq_nil_iff]
  exact forall₂_congr fun b _ => by rw [Bool.not_eq_true]

/-- Identifiers have no brackets. -/
theorem balanced_of_isWordByte (h : ∀ b ∈ t, Identifier.isWordByte b = true) : Balanced t := by
  refine balanced_of_brackets (brackets_eq_nil_iff.mpr fun b hb => ?_)
  have hword := h b hb
  by_contra hbracket
  rw [Bool.not_eq_false, Bracket.isByte, Bool.or_eq_true, Option.isSome_iff_exists, Option.isSome_iff_exists]
    at hbracket
  have hnone : ∀ k : Bracket, Identifier.isWordByte k.opener = false ∧ Identifier.isWordByte k.closer = false := by
    intro k
    cases k <;> exact ⟨rfl, rfl⟩
  rcases hbracket with ⟨k, hk⟩ | ⟨k, hk⟩
  · rw [Bracket.eq_opener hk, (hnone k).1] at hword
    cases hword
  · rw [Bracket.eq_closer hk, (hnone k).2] at hword
    cases hword

/-- **A balanced text between pieces is not seen**, also where the pieces alone are not balanced. -/
theorem readBrackets_joinWith {e : Text} (he : Balanced e) (pieces : List Text) : ∀ opened,
    readBrackets opened (joinWith e pieces) = readBrackets opened pieces.flatten := by
  rw [joinWith]
  induction pieces with
  | nil => intro opened; rfl
  | cons p pieces ih =>
    intro opened
    cases pieces with
    | nil => rw [List.intercalate_singleton, List.flatten_cons, List.flatten_nil, List.append_nil]
    | cons q pieces =>
      rw [List.intercalate_cons_cons, List.flatten_cons, readBrackets_append, readBrackets_append,
        readBrackets_append opened p]
      cases readBrackets opened p with
      | none => rfl
      | some opened =>
        show ((readBrackets opened e).bind fun opened => readBrackets opened _) = readBrackets opened _
        rw [he opened, Option.bind_some, ih]

/-- A balanced text between two texts whose brackets fit each other. -/
theorem Balanced.enclose {front back : Text} (ht : Balanced t) (h : Balanced (front ++ back)) :
    Balanced (front ++ t ++ back) := by
  intro opened
  rw [← h opened, readBrackets_append, readBrackets_append, readBrackets_append]
  cases readBrackets opened front with
  | none => rfl
  | some inner => rw [Option.bind_some, Option.bind_some, ht inner, Option.bind_some]

instance (t : Text) : Decidable t.Balanced :=
  decidable_of_iff (readBrackets [] t = some []) ⟨balanced_of_read, fun h => h []⟩

/-! ## Calm texts -/

/-- A text without dollar signs and number signs, whose brackets are balanced. -/
structure Calm (t : Text) : Prop where
  quiet : t.Quiet
  balanced : t.Balanced

instance (t : Text) : Decidable t.Calm :=
  decidable_of_iff (t.Quiet ∧ t.Balanced) ⟨fun h => ⟨h.1, h.2⟩, fun h => ⟨h.quiet, h.balanced⟩⟩

namespace Calm

/-- Calm texts one behind the other are calm. -/
theorem append (hs : Calm s) (ht : Calm t) : Calm (s ++ t) :=
  ⟨hs.quiet.append ht.quiet, hs.balanced.append ht.balanced⟩

theorem joinWith {sep : Text} {pieces : List Text} (hsep : Calm sep) (h : ∀ p ∈ pieces, Calm p) :
    Calm (Text.joinWith sep pieces) :=
  joinWith_induction (by decide) append hsep h

/-- A calm text between quiet pieces whose brackets fit each other. -/
theorem fill {pattern : List Text} (h : Calm t) (hpattern : ∀ p ∈ pattern, p.Quiet)
    (hbrackets : Balanced pattern.flatten) : Calm (Text.joinWith t pattern) := by
  refine ⟨joinWith_induction (fun _ hb => absurd hb List.not_mem_nil) Quiet.append h.quiet hpattern, ?_⟩
  intro opened
  rw [readBrackets_joinWith h.balanced, hbrackets]

end Calm

/-- Words are calm: letters, digits and underscores are neither marks nor brackets. -/
theorem calm_of_isWordByte (h : ∀ b ∈ t, Identifier.isWordByte b = true) : Calm t := by
  refine ⟨fun b hb => ?_, balanced_of_isWordByte h⟩
  have hword := h b hb
  constructor <;> rintro rfl <;> exact absurd hword (by decide)

/-! ## Sound texts -/

/-- Every dollar sign of a text starts one of the words, every number sign a directive, and the brackets are
balanced. -/
structure Sound (words : List Text) (t : Text) : Prop where
  tokens : marked Library.tokenMark words t = true
  directives : marked hash Text.directives t = true
  balanced : t.Balanced

instance (words : List Text) (t : Text) : Decidable (t.Sound words) :=
  decidable_of_iff (marked Library.tokenMark words t = true ∧ marked hash Text.directives t = true ∧ t.Balanced)
    ⟨fun h => ⟨h.1, h.2.1, h.2.2⟩, fun h => ⟨h.tokens, h.directives, h.balanced⟩⟩

variable {words : List Text}

theorem Quiet.marked (h : Quiet t) :
    Text.marked Library.tokenMark words t = true ∧ Text.marked hash Text.directives t = true :=
  ⟨marked_of_not_mem fun hmem => (h _ hmem).2 rfl, marked_of_not_mem fun hmem => (h _ hmem).1 rfl⟩

/-- What is calm is sound, whichever words are allowed. -/
theorem Calm.sound (h : Calm t) : Sound words t := by
  have hmarked : Text.marked Library.tokenMark words t = true ∧ _ := h.quiet.marked
  exact ⟨hmarked.1, hmarked.2, h.balanced⟩

namespace Sound

theorem nil : Sound words [] := ⟨rfl, rfl, Balanced.nil⟩

/-- Sound texts one behind the other are sound, because words and directives are not cut. -/
theorem append (hs : Sound words s) (ht : Sound words t) : Sound words (s ++ t) :=
  ⟨marked_append hs.tokens ht.tokens, marked_append hs.directives ht.directives,
    hs.balanced.append ht.balanced⟩

/-- Sound pieces make a sound text. -/
theorem flatMap {α : Type} {f : α → Text} {xs : List α} (h : ∀ x ∈ xs, Sound words (f x)) :
    Sound words (xs.flatMap f) :=
  ⟨marked_flatMap fun x hx => (h x hx).tokens, marked_flatMap fun x hx => (h x hx).directives,
    Balanced.flatMap fun x hx => (h x hx).balanced⟩

/-- Sound pieces with something sound between them make a sound text. -/
theorem joinWith {sep : Text} {pieces : List Text} (hsep : Sound words sep)
    (h : ∀ p ∈ pieces, Sound words p) : Sound words (Text.joinWith sep pieces) :=
  joinWith_induction nil append hsep h

/-- A sound text between two texts whose brackets fit each other. -/
theorem enclose (h : Sound words t) (front back : Text)
    (hfront : marked Library.tokenMark words front = true ∧ marked hash Text.directives front = true)
    (hback : marked Library.tokenMark words back = true ∧ marked hash Text.directives back = true)
    (hbrackets : Balanced (front ++ back)) : Sound words (front ++ t ++ back) :=
  ⟨marked_append (marked_append hfront.1 h.tokens) hback.1,
    marked_append (marked_append hfront.2 h.directives) hback.2, h.balanced.enclose hbrackets⟩

/-- Everything sound is tidy, if the words are tokens. -/
theorem tidy (h : Sound words t) (hwords : words ⊆ Token.standard.tokens) : t.tidy = true := by
  rw [Text.tidy, Bool.and_eq_true]
  exact ⟨marked_mono hwords h.tokens, h.directives⟩

end Sound

/-! ## Sober texts -/

/-- A sound text without directives: no number sign is in it. -/
structure Sober (words : List Text) (t : Text) : Prop where
  sound : Sound words t
  bare : hash ∉ t

instance (words : List Text) (t : Text) : Decidable (t.Sober words) :=
  decidable_of_iff (t.Sound words ∧ t.contains hash = false)
    ⟨fun h => ⟨h.1, by simpa using h.2⟩, fun h => ⟨h.sound, by simpa using h.bare⟩⟩

theorem Quiet.bare (h : Quiet t) : hash ∉ t := fun hmem => (h _ hmem).1 rfl

/-- What is calm is sober. -/
theorem Calm.sober (h : Calm t) : Sober words t := ⟨h.sound, h.quiet.bare⟩

namespace Sober

theorem nil : Sober words [] := ⟨Sound.nil, List.not_mem_nil⟩

/-- Sober texts one behind the other are sober. -/
theorem append (hs : Sober words s) (ht : Sober words t) : Sober words (s ++ t) :=
  ⟨hs.sound.append ht.sound, fun hmem => (List.mem_append.mp hmem).elim hs.bare ht.bare⟩

/-- Sober pieces make a sober text. -/
theorem flatMap {α : Type} {f : α → Text} {xs : List α} (h : ∀ x ∈ xs, Sober words (f x)) :
    Sober words (xs.flatMap f) := by
  refine ⟨Sound.flatMap fun x hx => (h x hx).sound, fun hmem => ?_⟩
  obtain ⟨x, hx, hmem⟩ := List.mem_flatMap.mp hmem
  exact (h x hx).bare hmem

/-- Sober pieces with something sober between them make a sober text. -/
theorem joinWith {sep : Text} {pieces : List Text} (hsep : Sober words sep)
    (h : ∀ p ∈ pieces, Sober words p) : Sober words (Text.joinWith sep pieces) :=
  joinWith_induction nil append hsep h

/-- A sober text between two quiet texts whose brackets fit each other. -/
theorem enclose (h : Sober words t) (front back : Text) (hfront : front.Quiet) (hback : back.Quiet)
    (hbrackets : Balanced (front ++ back)) : Sober words (front ++ t ++ back) := by
  refine ⟨h.sound.enclose front back hfront.marked hback.marked hbrackets, ?_⟩
  rw [List.mem_append, List.mem_append, not_or, not_or]
  exact ⟨⟨hfront.bare, h.bare⟩, hback.bare⟩

end Sober
end Text

/-! ## Substitution -/

namespace TokenTable

/-- Tokens and replacements hold no brackets. -/
def Unbracketed (rules : List (Text × Text)) : Prop :=
  ∀ r ∈ rules, r.1.brackets = [] ∧ r.2.brackets = []

instance (rules : List (Text × Text)) : Decidable (Unbracketed rules) := List.decidableBAll _ rules

/-- **Substitution leaves brackets alone.** -/
theorem brackets_substitute {rules : List (Text × Text)} (hne : ∀ r ∈ rules, r.1 ≠ [])
    (h : Unbracketed rules) (t : Text) :
    ∀ n, Text.brackets (substitute rules n t) = Text.brackets (t.drop n) := by
  induction t with
  | nil => intro n; rw [substitute_nil, List.drop_nil]
  | cons b t ih =>
    intro n
    cases n with
    | succ n => exact ih n
    | zero =>
      rw [substitute, List.drop_zero]
      cases hfind : rules.find? fun r => r.1.isPrefixOf (b :: t) with
      | none =>
        show Text.brackets ([b] ++ substitute rules 0 t) = Text.brackets ([b] ++ t)
        rw [Text.brackets_append, Text.brackets_append, ih 0, List.drop_zero]
      | some r =>
        -- The token that is skipped and the text that is put in its place both have no brackets.
        have hr := List.mem_of_find?_eq_some hfind
        obtain ⟨htoken, hreplacement⟩ := h r hr
        have hpre : r.1.isPrefixOf (b :: t) = true := by simpa using List.find?_some hfind
        obtain ⟨rest, hrest⟩ := List.isPrefixOf_iff_prefix.mp hpre
        obtain ⟨c, token, hcons⟩ := List.exists_cons_of_ne_nil (hne r hr)
        have hdrop : t.drop (r.1.length - 1) = rest := by
          rw [hcons, List.cons_append] at hrest
          rw [hcons, List.length_cons, Nat.add_sub_cancel, ← (List.cons.inj hrest).2, List.drop_left]
        show Text.brackets (r.2 ++ substitute rules (r.1.length - 1) t) = Text.brackets (b :: t)
        rw [Text.brackets_append, hreplacement, ih, hdrop, ← hrest, Text.brackets_append, htoken]

end TokenTable

namespace FragmentGenerator

/-- Replacing the tokens of a generator leaves brackets alone, whatever its options are. -/
theorem brackets_finalTokens (g : FragmentGenerator) (o : Options) (t : Text) :
    Text.brackets ((g.finalTokens o).replace t) = Text.brackets t := by
  have hrules : TokenTable.Unbracketed (g.finalTokens o).rules :=
    forall_finalTokens (P := fun ts => TokenTable.Unbracketed ts.rules) (by decide) (by decide) g o
  exact TokenTable.brackets_substitute (g.finalTokens_hosted o).ne_nil hrules t 0

end FragmentGenerator
end ShadeGraph
