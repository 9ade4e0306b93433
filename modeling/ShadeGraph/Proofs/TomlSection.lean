/-
  Documents with one section.

  A section is a header `[name]` and, below it, one line for each entry: a bare key, an equals sign and a
  scalar.  Reading such a text gives back the section.

  1. Decimal numbers and words in quotes are read as far as they go and no further (`Spells`).
  2. A line adds its key and its scalar to the section that is open (`readStatement_line`), so a text of
     lines adds them all (`readStatements_lines`).
  3. The text is ASCII without control characters, and its header opens the section (`parse?_sectionText`).
-/
import ShadeGraph.Toml.Parse
import ShadeGraph.Proofs.Identifier

namespace ShadeGraph

/-! ## Decimal numbers -/

namespace Text

/-- Only the number zero starts with a zero. -/
theorem exists_digitsWithin : ∀ {fuel n : Nat}, n < fuel → 0 < n →
    ∃ b t, digitsWithin fuel n = b :: t ∧ b ≠ 48 := by
  intro fuel
  induction fuel with
  | zero => intro n h; omega
  | succ fuel ih =>
    intro n hfuel hpos
    rw [digitsWithin]
    by_cases hn : n < 10
    · rw [if_pos hn]
      refine ⟨digit n, [], rfl, fun h => ?_⟩
      have hback := toNat_digit hn
      rw [h] at hback
      exact absurd hback (Nat.ne_of_lt hpos)
    · obtain ⟨b, t, ht, hb⟩ := ih (n := n / 10) (by omega) (by omega)
      exact ⟨b, t ++ [digit (n % 10)], by rw [if_neg hn, ht, List.cons_append], hb⟩

/-- No number is written with a zero in front of other digits. -/
theorem ofNat_ne_zero_cons (n : Nat) (b : UInt8) (t : Text) : ofNat n ≠ 48 :: b :: t := by
  intro h
  by_cases hn : n = 0
  · subst hn
    cases h
  · obtain ⟨c, u, hc, hne⟩ := exists_digitsWithin (Nat.lt_succ_self n) (Nat.pos_of_ne_zero hn)
    rw [ofNat, hc] at h
    exact hne (List.cons.inj h).1

/-- A number has a digit at least. -/
theorem exists_ofNat (n : Nat) : ∃ b t, ofNat n = b :: t ∧ isDigit b = true := by
  obtain ⟨b, t, h⟩ := List.exists_cons_of_ne_nil (ofNat_ne_nil n)
  exact ⟨b, t, h, isDigit_of_mem_ofNat (h ▸ List.mem_cons_self)⟩

/-- Writing a number and reading it gives it back. -/
theorem toNat?_ofNat (n : Nat) : toNat? (ofNat n) = some n := by
  obtain ⟨b, t, h, -⟩ := exists_ofNat n
  have hvalue := digitsValue?_ofNat n
  rw [h] at hvalue ⊢
  exact hvalue

/-- A number without a sign is read as an integer too: its first digit is no sign. -/
theorem toInt?_ofNat (n : Nat) : toInt? (ofNat n) = some (n : Int) := by
  obtain ⟨b, t, h, hb⟩ := exists_ofNat n
  have hvalue := toNat?_ofNat n
  rw [h] at hvalue ⊢
  unfold toInt?
  split
  · next heq => rw [(List.cons.inj heq).1] at hb; cases hb
  · next heq => rw [(List.cons.inj heq).1] at hb; cases hb
  · rw [hvalue]; rfl

/-- Writing an integer and reading it gives it back, with its sign. -/
theorem toInt?_ofInt (n : Int) : toInt? (ofInt n) = some n := by
  cases n with
  | ofNat n => exact toInt?_ofNat n
  | negSucc n =>
    rw [ofInt, toInt?, toNat?_ofNat]
    rfl

/-- Different integers are written in different ways. -/
theorem ofInt_inj {m n : Int} : ofInt m = ofInt n ↔ m = n := by
  refine ⟨fun h => ?_, congrArg _⟩
  have hread : toInt? (ofInt m) = toInt? (ofInt n) := congrArg _ h
  rw [toInt?_ofInt, toInt?_ofInt] at hread
  exact Option.some.inj hread

/-! ## ASCII texts -/

/-- An ASCII byte is a rune of its own. -/
theorem runes_cons_ascii {a : UInt8} (h : a < 0x80) (t : Text) :
    runes (a :: t) = .point a.toNat :: runes t := by
  have hfirst : firstRune a t = (.point a.toNat, 0) := by rw [firstRune.eq_def, if_pos h]
  rw [runes, runesAfter, hfirst, runes]

/-- A text of ASCII bytes is well-formed. -/
theorem isUtf8_of_ascii {t : Text} (h : ∀ b ∈ t, b < 0x80) : t.isUtf8 = true := by
  induction t with
  | nil => rfl
  | cons a t ih =>
    have hrest := ih fun b hb => h b (List.mem_cons_of_mem a hb)
    rw [isUtf8] at hrest ⊢
    rw [runes_cons_ascii (h a List.mem_cons_self), List.all_cons, hrest]
    rfl

end Text

namespace Toml

/-! ## Plain text -/

/-- A printable ASCII byte or a line feed. -/
def isPlain (b : UInt8) : Bool := (32 ≤ b && b ≤ 126) || b = 10

theorem ascii_of_plain {b : UInt8} (h : isPlain b = true) : b < 0x80 := by
  simp only [isPlain, Bool.or_eq_true, Bool.and_eq_true, decide_eq_true_eq] at h
  rcases h with ⟨-, h⟩ | rfl
  · exact UInt8.lt_of_le_of_lt h (by decide)
  · decide

/-- Plain text has no control characters besides the line feed, so the whole document is accepted. -/
theorem isClean_of_plain {t : Text} (h : t.all isPlain = true) : isClean t = true := by
  induction t with
  | nil => rfl
  | cons b t ih =>
    rw [List.all_cons, Bool.and_eq_true] at h
    obtain ⟨hb, ht⟩ := h
    have hne : b ≠ 13 := by rintro rfl; cases hb
    have hclean : (32 ≤ b && b ≠ 127 || b = 9 || b = 10) = true := by
      simp only [isPlain, Bool.or_eq_true, Bool.and_eq_true, decide_eq_true_eq] at hb ⊢
      rcases hb with ⟨hlow, hhigh⟩ | rfl
      · exact .inl (.inl ⟨hlow, by rintro rfl; exact absurd hhigh (by decide)⟩)
      · exact .inr rfl
    unfold isClean
    split
    · next heq => cases heq
    · next heq => exact absurd (List.cons.inj heq).1 hne
    · next heq =>
      obtain ⟨rfl, rfl⟩ := List.cons.inj heq
      rw [hclean, ih ht]
      rfl

/-! ## Bare words -/

/-- A word that is a key without quotes. -/
def IsBare (t : Text) : Prop := t ≠ [] ∧ t.all isBareByte = true

section

variable {b c : UInt8} {t u : Text}

/-- A byte of a bare word is none of the bytes that end one. -/
theorem ne_of_bare (hb : isBareByte b = true) (hc : isBareByte c = false) : b ≠ c := by
  rintro rfl
  exact Bool.false_ne_true (hc.symm.trans hb)

theorem spacing_of_bare (hb : isBareByte b = true) : isSpacing b = false := by
  simp [isSpacing, isBlank, isBreak, ne_of_bare hb (c := 32) rfl, ne_of_bare hb (c := 9) rfl,
    ne_of_bare hb (c := 10) rfl, ne_of_bare hb (c := 13) rfl]

theorem blank_of_bare (hb : isBareByte b = true) : isBlank b = false :=
  (Bool.or_eq_false_iff.mp (spacing_of_bare hb)).1

theorem break_of_bare (hb : isBareByte b = true) : isBreak b = false :=
  (Bool.or_eq_false_iff.mp (spacing_of_bare hb)).2

theorem bare_of_digit (hb : Text.isDigit b = true) : isBareByte b = true := by
  simp [isBareByte, hb]

/-- Bytes of bare words can be printed. -/
theorem plain_of_bare (hb : isBareByte b = true) : isPlain b = true := by
  simp only [isBareByte, Text.isDigit, Text.isLetter, Bool.or_eq_true, Bool.and_eq_true,
    decide_eq_true_eq, UInt8.le_iff_toNat_le] at hb
  simp only [isPlain, Bool.or_eq_true, Bool.and_eq_true, decide_eq_true_eq, UInt8.le_iff_toNat_le]
  refine .inl ?_
  rcases hb with ((⟨hlow, hhigh⟩ | ⟨hlow, hhigh⟩ | ⟨hlow, hhigh⟩) | rfl) | rfl
  · exact ⟨Nat.le_trans (by decide) hlow, Nat.le_trans hhigh (by decide)⟩
  · exact ⟨Nat.le_trans (by decide) hlow, Nat.le_trans hhigh (by decide)⟩
  · exact ⟨Nat.le_trans (by decide) hlow, Nat.le_trans hhigh (by decide)⟩
  · decide
  · decide

/-- A bare word has a first byte. -/
theorem IsBare.exists_cons (h : IsBare t) : ∃ b u, t = b :: u ∧ isBareByte b = true := by
  obtain ⟨b, u, rfl⟩ := List.exists_cons_of_ne_nil h.1
  exact ⟨b, u, rfl, (Bool.and_eq_true_iff.mp h.2).1⟩

theorem IsBare.plain (h : IsBare t) : t.all isPlain = true :=
  List.all_eq_true.mpr fun b hb => plain_of_bare (List.all_eq_true.mp h.2 b hb)

theorem isBare_ofNat (n : Nat) : IsBare (Text.ofNat n) :=
  ⟨Text.ofNat_ne_nil n, List.all_eq_true.mpr fun _ hb => bare_of_digit (Text.isDigit_of_mem_ofNat hb)⟩

/-- A run of bytes of a class is taken up to the first byte that is not of it. -/
theorem takeWhile_run {p : UInt8 → Bool} (h : ∀ b ∈ t, p b = true) (hc : p c = false) (u : Text) :
    (t ++ c :: u).takeWhile p = t := by
  rw [List.takeWhile_append_of_pos h, List.takeWhile_cons_of_neg (by rw [hc]; exact Bool.false_ne_true),
    List.append_nil]

/-- In front of a bare word there are no blanks to skip. -/
theorem skipBlanks_bare (h : IsBare t) : skipBlanks (t ++ u) = t ++ u := by
  obtain ⟨b, t, rfl, hb⟩ := h.exists_cons
  exact List.dropWhile_cons_of_neg (by rw [blank_of_bare hb]; exact Bool.false_ne_true)

/-- A bare key is read to its end, whatever byte ends it. -/
theorem readKeyPart_bare (h : IsBare t) (hc : isBareByte c = false) :
    readKeyPart (t ++ c :: u) = some (t, c :: u) := by
  have hpart : (t ++ c :: u).takeWhile isBareByte = t := takeWhile_run (List.all_eq_true.mp h.2) hc u
  obtain ⟨b, t, rfl, hb⟩ := h.exists_cons
  unfold readKeyPart
  split
  · next heq => exact absurd (List.cons.inj heq).1 (ne_of_bare hb rfl)
  · next heq => exact absurd (List.cons.inj heq).1 (ne_of_bare hb rfl)
  · rw [hpart, if_neg h.1, List.drop_left]

/-- A bare key is read up to the byte that ends it, blanks in front of that byte being skipped. -/
theorem readKey_bare {stop : UInt8} {gap : Text} (h : IsBare t) (hgap : gap.all isBlank = true)
    (hbare : isBareByte stop = false) (hblank : isBlank stop = false) (hdot : stop ≠ 46) (fuel : Nat) :
    readKey stop (fuel + 1) (t ++ gap ++ stop :: u) = some ([t], u) := by
  have hskip : skipBlanks (gap ++ stop :: u) = stop :: u := by
    rw [skipBlanks, List.dropWhile_append_of_pos (List.all_eq_true.mp hgap)]
    exact List.dropWhile_cons_of_neg (by rw [hblank]; exact Bool.false_ne_true)
  have hpart : readKeyPart (t ++ (gap ++ stop :: u)) = some (t, gap ++ stop :: u) := by
    cases gap with
    | nil => exact readKeyPart_bare h hbare
    | cons b gap =>
      refine readKeyPart_bare h (Bool.eq_false_iff.mpr fun hb => ?_)
      exact Bool.false_ne_true ((blank_of_bare hb).symm.trans (Bool.and_eq_true_iff.mp hgap).1)
  rw [readKey, List.append_assoc, skipBlanks_bare h, hpart, Option.bind_some]
  simp only [hskip, if_neg hdot, if_true]

end

/-! ## Scalars -/

/-- The text denotes the scalar: at the end of a line it is read as that, and the line break is left. -/
structure Spells (v : Text) (s : Scalar) : Prop where
  start : ∃ b t, v = b :: t ∧ isBlank b = false ∧ b ≠ 91 ∧ b ≠ 123
  plain : v.all isPlain = true
  read : ∀ rest, readScalar (v ++ 10 :: rest) = some (s, 10 :: rest)

/-- The word `true` is read as such and no further. -/
theorem spells_true : Spells (Text.ofString "true") (.boolean true) where
  start := ⟨116, _, rfl, by decide⟩
  plain := by decide
  read _ := rfl

/-- The word `false` is read as such and no further. -/
theorem spells_false : Spells (Text.ofString "false") (.boolean false) where
  start := ⟨102, _, rfl, by decide⟩
  plain := by decide
  read _ := rfl

section

variable {t : Text}

/-- Digits without underscores between them are well spaced. -/
theorem spacedDigits_of_digits (h : ∀ b ∈ t, Text.isDigit b = true) :
    ∀ allowed, (allowed = true ∨ t ≠ []) → spacedDigits allowed t = true := by
  induction t with
  | nil =>
    intro allowed ha
    exact ha.resolve_right (not_not_intro rfl)
  | cons b t ih =>
    intro allowed _
    have hb := h b List.mem_cons_self
    have hne : b ≠ 95 := by rintro rfl; cases hb
    have hhex : (hexValue? b).isSome = true := by rw [hexValue?, if_pos hb]; rfl
    rw [spacedDigits, if_neg hne, hhex]
    exact ih (fun c hc => h c (List.mem_cons_of_mem b hc)) true (.inl rfl)

theorem dropUnderscores_of_digits (h : ∀ b ∈ t, Text.isDigit b = true) : dropUnderscores t = t := by
  refine List.filter_eq_self.mpr fun b hb => ?_
  rw [bne_iff_ne]
  rintro rfl
  cases h 95 hb

/-- A number is written without a zero in front. -/
theorem leadingZero_ofNat (n : Nat) : leadingZero (Text.ofNat n) = false := by
  obtain ⟨b, t, h, hb⟩ := Text.exists_ofNat n
  unfold leadingZero
  split
  · next heq => rw [h] at heq; rw [(List.cons.inj heq).1] at hb; cases hb
  · next heq => rw [h] at heq; rw [(List.cons.inj heq).1] at hb; cases hb
  · next heq => exact absurd heq (Text.ofNat_ne_zero_cons n _ _)
  · rfl

/-- **The digits of a number that fits a word are read as that number.** -/
theorem integer?_ofNat {n : Nat} (h : SignedWord.holds n = true) :
    integer? (Text.ofNat n) = some (n : Int) := by
  have hdigits : ∀ b ∈ Text.ofNat n, Text.isDigit b = true := fun b => Text.isDigit_of_mem_ofNat
  have hunbounded : unboundedInteger? (Text.ofNat n) = some (n : Int) := by
    rw [unboundedInteger?, spacedDigits_of_digits hdigits false (.inr (Text.ofNat_ne_nil n)),
      Bool.not_true, if_neg Bool.false_ne_true, leadingZero_ofNat, if_neg Bool.false_ne_true,
      dropUnderscores_of_digits hdigits, Text.toInt?_ofNat]
    exact Text.ofNat_ne_zero_cons n
  rw [integer?, hunbounded, Option.filter_some, if_pos h]

/-- A number that ends its line is no part of a time. -/
theorem startsTime_digits (h : ∀ b ∈ t, Text.isDigit b = true) (rest : Text) :
    startsTime (t ++ 10 :: rest) = false := by
  rw [startsTime, takeWhile_run h rfl, List.drop_left]
  exact Bool.and_false _

/-- The digits of a number are read up to the line break. -/
theorem spells_ofNat {n : Nat} (h : SignedWord.holds n = true) : Spells (Text.ofNat n) (.integer n) where
  start := by
    obtain ⟨b, t, ht, hb⟩ := Text.exists_ofNat n
    have hb := bare_of_digit hb
    exact ⟨b, t, ht, blank_of_bare hb, ne_of_bare hb rfl, ne_of_bare hb rfl⟩
  plain := (isBare_ofNat n).plain
  read rest := by
    have hdigits : ∀ b ∈ Text.ofNat n, Text.isDigit b = true := fun b => Text.isDigit_of_mem_ofNat
    have hword : ∀ b ∈ Text.ofNat n, isWordByte b = true := fun b hb => by
      rw [isWordByte, hdigits b hb]; rfl
    -- Digits are neither of the two words for truth values.
    have hvalue : ofWord? (Text.ofNat n) = some (.integer n) := by
      have hletter : ∀ c u, c :: u = Text.ofNat n → Text.isDigit c = true := fun c u hc =>
        hdigits c (hc ▸ List.mem_cons_self)
      rw [ofWord?, if_neg fun heq => Bool.false_ne_true (hletter 116 _ heq.symm),
        if_neg fun heq => Bool.false_ne_true (hletter 102 _ heq.symm), integer?_ofNat h]
    have hread : readWord (Text.ofNat n ++ 10 :: rest) = some (.integer n, 10 :: rest) := by
      have hcut : (Text.ofNat n ++ 10 :: rest).takeWhile isWordByte = Text.ofNat n :=
        takeWhile_run hword rfl rest
      simp only [readWord, startsTime_digits hdigits, hcut, hvalue, List.drop_left]
      rfl
    obtain ⟨b, t, ht, hb⟩ := Text.exists_ofNat n
    have hb := bare_of_digit hb
    rw [ht] at hread ⊢
    unfold readScalar
    split
    · next heq => exact absurd (List.cons.inj heq).1 (ne_of_bare hb rfl)
    · next heq => exact absurd (List.cons.inj heq).1 (ne_of_bare hb rfl)
    · exact hread

/-- A word in quotes has no escapes, and ends at the next quote. -/
theorem lineBody_bare (h : t.all isBareByte = true) (rest : Text) :
    lineBody 34 true (t ++ 34 :: rest) = some (t, rest) := by
  induction t with
  | nil => rw [List.nil_append, lineBody.eq_def]; exact if_pos rfl
  | cons b t ih =>
    obtain ⟨hb, ht⟩ := Bool.and_eq_true_iff.mp h
    have hescape : (true && decide (b = 92)) = false := by simp [ne_of_bare hb (c := 92) rfl]
    rw [List.cons_append, lineBody.eq_def]
    simp only [if_neg (ne_of_bare hb (c := 34) rfl), break_of_bare hb,
      if_neg Bool.false_ne_true, hescape, ih ht]
    rfl

/-- A bare word has no escapes. -/
theorem unescape_bare (h : t.all isBareByte = true) : unescape t = some t := by
  induction t with
  | nil => rfl
  | cons b t ih =>
    obtain ⟨hb, ht⟩ := Bool.and_eq_true_iff.mp h
    have hne : b ≠ 92 := ne_of_bare hb rfl
    rw [unescape, ih ht]
    · rfl
    all_goals simp_all

/-- A bare word in quotes is read up to the second quote. -/
theorem spells_quoted (h : IsBare t) : Spells (Text.ofString "\"" ++ t ++ Text.ofString "\"") (.string t) where
  start := ⟨34, _, rfl, by decide⟩
  plain := by
    rw [List.all_append, List.all_append, h.plain]
    decide
  read rest := by
    have hread : readString (34 :: (t ++ 34 :: 10 :: rest)) = some (t, 10 :: rest) := by
      have hline : basicLine (t ++ 34 :: 10 :: rest) = some (t, 10 :: rest) := by
        rw [basicLine, lineBody_bare h.2, Option.bind_some, unescape_bare h.2]
        rfl
      obtain ⟨b, t, rfl, hb⟩ := h.exists_cons
      rw [readString]
      · exact hline
      · intro u hu
        rw [List.cons_append] at hu
        exact ne_of_bare hb rfl (List.cons.inj hu).1
    have hquoted : Text.ofString "\"" ++ t ++ Text.ofString "\"" ++ 10 :: rest =
        34 :: (t ++ 34 :: 10 :: rest) := by
      rw [List.append_assoc, List.append_assoc]
      rfl
    rw [hquoted, readScalar, hread]
    rfl

end

/-! ## Lines -/

/-- A line of a section: a bare key, and a scalar in one of its spellings. -/
structure Line where
  key : Text
  spelling : Text
  value : Scalar
  bare : IsBare key
  spells : Spells spelling value

namespace Line

/-- The text of a line in front of the text of further ones. -/
def text (l : Line) : Text := "  " ++ l.key ++ " = " ++ l.spelling ++ "\n"

/-- The entry that a line adds to the section. -/
def entry (l : Line) : Text × Value := (l.key, .scalar l.value)

/-- A line in front of a text, without the blanks at its start. -/
theorem text_append (l : Line) (rest : Text) :
    l.text ++ rest = 32 :: 32 :: (l.key ++ [32] ++ 61 :: 32 :: (l.spelling ++ 10 :: rest)) := by
  simp [text, show Text.ofString "  " = [32, 32] from rfl, show Text.ofString " = " = [32, 61, 32] from rfl,
    show Text.ofString "\n" = [10] from rfl]

/-- The text of a line is plain. -/
theorem plain_text (l : Line) : l.text.all isPlain = true := by
  simp only [text, List.all_append, l.bare.plain, l.spells.plain]
  decide

end Line

/-- The text of a section. -/
def sectionText (name : Text) (lines : List Line) : Text := "[" ++ name ++ "]\n" ++ lines.flatMap Line.text

/-- What has been read behind some lines of a section. -/
def Builder.inSection (name : Text) (lines : List Line) : Builder where
  root := [(name, .table (lines.map Line.entry))]
  written := (lines.map fun l => [name, l.key]).reverse ++ [[name]]
  implicit := []
  arrays := []
  shared := []
  context := [name]

/-- The document of a section. -/
def Document.ofSection (name : Text) (lines : List Line) : Document where
  root := [(name, .table (lines.map Line.entry))]
  keys := [name] :: lines.map fun l => [name, l.key]

theorem Table.get?_eq_none {t : Table} {key : Text} (h : key ∉ t.map Prod.fst) : t.get? key = none := by
  rw [get?, List.lookup_eq_none_iff]
  intro e he
  exact bne_iff_ne.mpr fun heq => h (List.mem_map.mpr ⟨e, he, heq.symm⟩)

/-- A new key is put at the end of a table. -/
theorem Table.set_of_not_mem {key : Text} {v : Value} :
    ∀ {t : Table}, key ∉ t.map Prod.fst → set key v t = t ++ [(key, v)] := by
  intro t
  induction t with
  | nil => intro _; rfl
  | cons e t ih =>
    intro h
    rw [List.map_cons, List.mem_cons, not_or] at h
    rw [set, if_neg (Ne.symm h.1), ih h.2, List.cons_append]

section

variable {name : Text} {lines : List Line} {l : Line}

theorem keys_entries : (lines.map Line.entry).map Prod.fst = lines.map Line.key := by
  rw [List.map_map]
  rfl

/-- A value for a new key goes to the end of the section. -/
theorem Builder.assign_inSection (h : l.key ∉ lines.map Line.key) :
    ((inSection name lines).write [name, l.key]).assign l.key (.scalar l.value) =
      some (inSection name (lines ++ [l])) := by
  have hkey : l.key ∉ (lines.map Line.entry).map Prod.fst := keys_entries ▸ h
  have hfind : (inSection name lines).root.get? name = some (.table (lines.map Line.entry)) := by
    rw [Table.get?, inSection, List.lookup_cons, beq_self_eq_true]
  have htable : (inSection name lines).root.tableAt? [name] = some (lines.map Line.entry) := by
    rw [Table.tableAt?, hfind]
    rfl
  have hmodify : (inSection name lines).root.modifyAt (Table.set l.key (.scalar l.value)) [name] =
      (inSection name (lines ++ [l])).root := by
    rw [Table.modifyAt, hfind]
    simp only [Table.modifyAt, Table.set_of_not_mem hkey]
    simp [inSection, Table.set, Line.entry]
  have hput : ((inSection name lines).write [name, l.key]).put l.key (.scalar l.value) =
      some (inSection name (lines ++ [l])) := by
    -- Writing a key changes neither the table nor the section that is open.
    have hroot : ((inSection name lines).write [name, l.key]).root = (inSection name lines).root := rfl
    have hcontext : ((inSection name lines).write [name, l.key]).context = [name] := rfl
    rw [put, hroot, hcontext, htable, Option.bind_some, Table.get?_eq_none hkey, Option.isNone_none, if_pos rfl,
      setAt, hroot, hcontext, hmodify]
    simp [write, inSection]
  rw [assign, hput]
  rfl

/-- The scalar of a line is read to the end of the line. -/
theorem readValue_line (l : Line) (fuel : Nat) (b : Builder) (rest : Text) :
    readValue l.key false (fuel + 1) b (32 :: (l.spelling ++ 10 :: rest)) =
      some (.scalar l.value, b, 10 :: rest) := by
  obtain ⟨c, u, hc, hblank, harray, htable⟩ := l.spells.start
  have hskip : skipBlanks (32 :: (l.spelling ++ 10 :: rest)) = l.spelling ++ 10 :: rest := by
    rw [skipBlanks, List.dropWhile_cons_of_pos rfl, hc]
    exact List.dropWhile_cons_of_neg (by rw [hblank]; exact Bool.false_ne_true)
  have hread := l.spells.read rest
  rw [readValue, hskip]
  rw [hc] at hread ⊢
  split
  · next heq => exact absurd (List.cons.inj heq).1 harray
  · next heq => exact absurd (List.cons.inj heq).1 htable
  · rw [hread]
    rfl

/-- The key and the scalar of a line are put into the section. -/
theorem readPair_line (h : l.key ∉ lines.map Line.key) (fuel : Nat) (rest : Text) :
    readPair (fuel + 2) (.inSection name lines) (l.key ++ [32] ++ 61 :: 32 :: (l.spelling ++ 10 :: rest)) =
      some ([l.key], .scalar l.value, .inSection name (lines ++ [l]), 10 :: rest) := by
  have hlength : (l.key ++ [32] ++ 61 :: 32 :: (l.spelling ++ 10 :: rest)).length =
      (l.key.length + l.spelling.length + rest.length + 3) + 1 := by
    simp only [List.length_append, List.length_cons, List.length_nil]
    omega
  rw [readPair, hlength, readKey_bare l.bare rfl rfl rfl (by decide)]
  have hlast : [l.key].getLastD [] = l.key := rfl
  have hpath : (Builder.inSection name lines).context ++ [l.key] = [name, l.key] := rfl
  simp only [bind, Option.bind, List.dropLast_singleton, Builder.passAll, hlast, hpath, readValue_line,
    Builder.assign_inSection h]
  rfl

/-- A line is read to its end, and adds its entry to the section. -/
theorem readStatement_line (h : l.key ∉ lines.map Line.key) (rest : Text) :
    readStatement (.inSection name lines) (l.key ++ [32] ++ 61 :: 32 :: (l.spelling ++ 10 :: rest)) =
      some (.inSection name (lines ++ [l]), 10 :: rest) := by
  obtain ⟨b, key, hkey, hb⟩ := l.bare.exists_cons
  have hlength : (l.key ++ [32] ++ 61 :: 32 :: (l.spelling ++ 10 :: rest)).length + 1 =
      (l.key.length + l.spelling.length + rest.length + 3) + 2 := by
    simp only [List.length_append, List.length_cons, List.length_nil]
    omega
  have hread := @readPair_line name lines l h (l.key.length + l.spelling.length + rest.length + 3) rest
  rw [← hlength] at hread
  rw [readStatement, hread]
  · rfl
  all_goals
    intro u hu
    rw [hkey] at hu
    exact absurd (List.cons.inj hu).1 (ne_of_bare hb rfl)

/-- The lines of a text add their entries one after another. -/
theorem readStatements_lines : ∀ {more lines : List Line} {fuel : Nat}, more.length < fuel →
    ((lines ++ more).map Line.key).Nodup →
    readStatements fuel (.inSection name lines) (more.flatMap Line.text) =
      some (.inSection name (lines ++ more)) := by
  intro more
  induction more with
  | nil =>
    intro lines fuel hfuel _
    obtain ⟨fuel, rfl⟩ := Nat.exists_eq_add_of_lt hfuel
    rw [List.append_nil]
    rfl
  | cons l more ih =>
    intro lines fuel hfuel hkeys
    obtain ⟨fuel, rfl⟩ : ∃ k, fuel = k + 1 := ⟨fuel - 1, by omega⟩
    have hnew : l.key ∉ lines.map Line.key := by
      rw [List.map_append, List.nodup_append] at hkeys
      intro hmem
      exact hkeys.2.2 _ hmem _ (List.mem_map_of_mem List.mem_cons_self) rfl
    have hsplit : lines ++ l :: more = lines ++ [l] ++ more := by simp
    rw [hsplit] at hkeys ⊢
    have hrest := ih (Nat.lt_of_succ_lt_succ hfuel) hkeys
    -- The key starts with a bare byte, so neither a comment nor an empty line is skipped.
    have hskip : skipLines (l.text ++ more.flatMap Line.text).length (l.text ++ more.flatMap Line.text) =
        l.key ++ [32] ++ 61 :: 32 :: (l.spelling ++ 10 :: more.flatMap Line.text) := by
      obtain ⟨b, key, hkey, hb⟩ := l.bare.exists_cons
      rw [Line.text_append, List.length_cons, skipLines, List.dropWhile_cons_of_pos rfl,
        List.dropWhile_cons_of_pos rfl, hkey, List.cons_append, List.cons_append,
        List.dropWhile_cons_of_neg (by rw [spacing_of_bare hb]; exact Bool.false_ne_true)]
      split
      · next heq => exact absurd (List.cons.inj heq).1 (ne_of_bare hb rfl)
      · rfl
    have hne : l.key ++ [32] ++ 61 :: 32 :: (l.spelling ++ 10 :: more.flatMap Line.text) ≠ [] := by simp
    rw [List.flatMap_cons, readStatements, hskip]
    split
    · next heq => exact absurd heq hne
    · rw [readStatement_line hnew]
      exact hrest

/-- Every line has a byte at least, so that fuel for every byte is enough for all lines. -/
theorem length_le_flatMap_text (lines : List Line) : lines.length ≤ (lines.flatMap Line.text).length := by
  induction lines with
  | nil => exact Nat.le_refl _
  | cons l lines ih =>
    have hpos : 0 < l.text.length := by
      rw [← List.append_nil l.text, Line.text_append]
      exact Nat.succ_pos _
    rw [List.flatMap_cons, List.length_append, List.length_cons]
    omega

/-- **A section reads back.** -/
theorem parse?_sectionText (hname : IsBare name) (hkeys : (lines.map Line.key).Nodup) :
    parse? (sectionText name lines) = some (.ofSection name lines) := by
  have htext : sectionText name lines = 91 :: (name ++ [] ++ 93 :: 10 :: lines.flatMap Line.text) := by
    simp [sectionText, show Text.ofString "[" = [91] from rfl, show Text.ofString "]\n" = [93, 10] from rfl]
  have hplain : (sectionText name lines).all isPlain = true := by
    have hlines : (lines.flatMap Line.text).all isPlain = true := by
      rw [List.all_flatMap]
      exact List.all_eq_true.mpr fun l _ => l.plain_text
    rw [sectionText, List.all_append, List.all_append, List.all_append, hname.plain, hlines]
    decide
  have hutf8 : (sectionText name lines).isUtf8 = true :=
    Text.isUtf8_of_ascii fun b hb => ascii_of_plain (List.all_eq_true.mp hplain b hb)
  -- A bracket in front is not a byte order mark.
  have hmark : dropMark (sectionText name lines) = sectionText name lines := by
    rw [htext]
    rfl
  obtain ⟨b, u, hu, hb⟩ := hname.exists_cons
  have hlength : (name ++ [] ++ 93 :: 10 :: lines.flatMap Line.text).length =
      (name.length + (lines.flatMap Line.text).length + 1) + 1 := by
    simp only [List.length_append, List.length_cons, List.length_nil]
    omega
  have hheader : readStatement .empty (sectionText name lines) =
      some (.inSection name [], 10 :: lines.flatMap Line.text) := by
    rw [htext, readStatement, hlength, readKey_bare hname rfl rfl rfl (by decide)]
    · rfl
    · intro v hv
      rw [hu] at hv
      exact ne_of_bare hb rfl (List.cons.inj hv).1
  have hskip : skipLines (sectionText name lines).length (sectionText name lines) = sectionText name lines := by
    rw [htext]
    rfl
  -- Every line has a byte at least, so there are tries for all of them.
  have hfuel : lines.length < (sectionText name lines).length := by
    have hcount := length_le_flatMap_text lines
    rw [htext, List.length_cons, hlength]
    omega
  have hread : readStatements ((sectionText name lines).length + 1) .empty (sectionText name lines) =
      some (.inSection name lines) := by
    rw [readStatements, hskip]
    split
    · next heq =>
      rw [htext] at heq
      cases heq
    · rw [hheader]
      exact readStatements_lines hfuel hkeys
  rw [parse?, hmark, hutf8, isClean_of_plain hplain, hread]
  simp [Builder.finish, Builder.inSection, Document.ofSection]

end

end Toml
end ShadeGraph
