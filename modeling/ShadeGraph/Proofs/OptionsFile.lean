/-
  Options that are written to a file read back.

  1. A method is written as a bare word: its name, or its number with a sign in front when it is negative.
     White space is no part of such a word, and a number starts with a byte that no name starts with in any
     case, so every method reads back (`Method.ofText?_toText`).
  2. The file of some options is a section with a line for every key (`Options.line`), so it is read as the
     document of that section, and every option is set to its value again.
-/
import ShadeGraph.Options.File
import ShadeGraph.Proofs.TomlSection
import ShadeGraph.Proofs.WhiteSpace

namespace ShadeGraph

/-! ## Methods -/

namespace Text

theorem bytes_of_blanks : blanks.all (·.all (!Toml.isBareByte ·)) = true := by decide

/-- A bare word has no white space to trim. -/
theorem trim_of_bare {t : Text} (h : Toml.IsBare t) : t.trim = t := by
  have hblank : ∀ w ∈ blanks, ∀ b ∈ w, b ∉ t := fun w hw b hb ht => by
    have hbare := List.all_eq_true.mp h.2 b ht
    have hnone := List.all_eq_true.mp (List.all_eq_true.mp bytes_of_blanks w hw) b hb
    rw [hbare] at hnone
    cases hnone
  have htrimmed : Trimmed ([] ++ t ++ []) t := by
    refine trimmed_of_ends Strung.nil Strung.nil fun w hw => ?_
    have hne := code_blanks.nonempty w hw
    rw [List.head?_eq_some_head hne, List.getLast?_eq_some_getLast hne]
    exact ⟨fun heq => hblank w hw _ (List.head_mem hne) (List.mem_of_mem_head? heq.symm),
      fun heq => hblank w hw _ (List.getLast_mem hne) (List.mem_of_mem_getLast? heq.symm)⟩
  rw [List.nil_append, List.append_nil] at htrimmed
  exact trimmed_iff.mp htrimmed

/-- A text that starts with a sign or a digit is the lower-case form of no word of letters. -/
theorem lowerEquals_of_head {a c : UInt8} (ha : a < 65) (hc : 97 ≤ c) (hascii : c < 0x80) (t u : Text) :
    lowerEquals (a :: t) (c :: u) = false := by
  rw [UInt8.lt_iff_toNat_lt] at ha
  rw [UInt8.le_iff_toNat_le] at hc
  have ha : a.toNat < 65 := ha
  have hc : 97 ≤ c.toNat := hc
  have hsame : lowerPoint a.toNat = a.toNat := by
    rw [lowerPoint, if_neg (by omega), if_neg (by omega), smallLetter]
    simp only [Bool.and_eq_true, decide_eq_true_eq]
    exact if_neg (by omega)
  have hfirst : a < 0x80 := UInt8.lt_iff_toNat_lt.mpr (Nat.lt_trans ha (by decide))
  rw [lowerEquals, runes_cons_ascii hfirst, runes_cons_ascii hascii, List.map_cons]
  refine beq_false_of_ne fun h => ?_
  have hhead := Rune.point.inj (List.cons.inj h).1
  rw [hsame] at hhead
  omega

end Text

namespace Toml

/-- Numbers are bare words, also those with a sign. -/
theorem isBare_ofInt (n : Int) : IsBare (Text.ofInt n) := by
  cases n with
  | ofNat n => exact isBare_ofNat n
  | negSucc n => exact ⟨List.cons_ne_nil _ _, by rw [Text.ofInt, List.all_cons, (isBare_ofNat _).2]; rfl⟩

end Toml

/-- A number starts with a sign or a digit, and these come before all letters. -/
theorem Text.exists_ofInt (n : Int) : ∃ b t, ofInt n = b :: t ∧ b < 65 := by
  cases n with
  | ofNat n =>
    obtain ⟨b, t, h, hb⟩ := exists_ofNat n
    simp only [isDigit, Bool.and_eq_true, decide_eq_true_eq] at hb
    exact ⟨b, t, h, UInt8.lt_of_le_of_lt hb.2 (by decide)⟩
  | negSucc n => exact ⟨45, _, rfl, by decide⟩

namespace SignedWord

theorem holds_iff {n : Int} : holds n = true ↔ -0x8000000000000000 ≤ n ∧ n ≤ 0x7FFFFFFFFFFFFFFF := by
  rw [holds, Bool.and_eq_true, decide_eq_true_iff, decide_eq_true_iff]
  rfl

/-- The value of a signed word is in the range of signed words. -/
theorem holds_toInt (n : Int64) : holds n.toInt = true := by
  have hlow := Int64.le_toInt n
  have hhigh := Int64.toInt_lt n
  exact holds_iff.mpr ⟨by omega, by omega⟩

end SignedWord

namespace MethodKind

/-- Every name is a bare word that starts with a small letter. -/
theorem names_bare (kind : MethodKind) {name : Text} (h : name ∈ kind.names) :
    Toml.IsBare name ∧ ∃ c u, name = c :: u ∧ 97 ≤ c ∧ c < 0x80 := by
  cases kind <;> simp only [names, List.mem_cons, List.not_mem_nil, or_false] at h <;>
    rcases h with rfl | rfl | rfl <;> exact ⟨⟨by decide, by decide⟩, _, _, rfl, by decide, by decide⟩

/-- A name is found where it stands, and nowhere before. -/
theorem findIdx?_name (kind : MethodKind) {i : Nat} {name : Text} (h : kind.names[i]? = some name) :
    kind.names.findIdx? (Text.lowerEquals name ·) = some i := by
  cases kind <;> rcases i with _ | _ | _ | i <;> cases h <;> decide

end MethodKind

namespace Method

variable {kind : MethodKind} (m : Method kind)

/-- A method is written as a bare word. -/
theorem isBare_toText : Toml.IsBare m.toText := by
  rw [toText]
  cases hname : m.name? with
  | none => exact Toml.isBare_ofInt _
  | some name =>
    rw [name?] at hname
    split at hname
    · cases hname
    · exact (kind.names_bare (List.mem_of_getElem? hname)).1

/-- **A method reads back**, by its name if it has one and by its number if not. -/
theorem ofText?_toText : ofText? m.toText = some m := by
  rw [ofText?, Text.trim_of_bare m.isBare_toText, toText]
  cases hname : m.name? with
  | some name =>
    rw [name?] at hname
    split at hname
    · cases hname
    next hcode =>
    have hpos : 0 ≤ m.code.toInt := by
      rw [Int64.lt_iff_toInt_lt] at hcode
      exact Int.not_lt.mp hcode
    have hword : Int64.ofNat m.code.toInt.toNat = m.code := by
      rw [← Int64.ofInt_eq_ofNat, Int.toNat_of_nonneg hpos, Int64.ofInt_toInt]
    rw [Option.getD_some, kind.findIdx?_name hname]
    simp only [hword]
  | none =>
    have hnone : kind.names.findIdx? (Text.lowerEquals (Text.ofInt m.code.toInt) ·) = none := by
      rw [List.findIdx?_eq_none_iff]
      intro name hmem
      obtain ⟨-, c, u, rfl, hc, hascii⟩ := kind.names_bare hmem
      obtain ⟨b, t, ht, hb⟩ := Text.exists_ofInt m.code.toInt
      rw [ht]
      exact Text.lowerEquals_of_head hb hc hascii t u
    rw [Option.getD_none, hnone, Text.toInt?_ofInt, Option.bind_some, ofInt?,
      if_pos (SignedWord.holds_toInt m.code), Int64.ofInt_toInt]

end Method

/-! ## Files -/

namespace OptionKey

/-- Keys are bare words. -/
theorem isBare_name (k : OptionKey) : Toml.IsBare k.name := by
  cases k <;> exact ⟨by decide, by decide⟩

/-- A key is known by its name. -/
theorem ofName?_name (k : OptionKey) : ofName? k.name = some k := by
  cases k <;> decide

theorem nodup_names : (all.map name).Nodup := by decide

end OptionKey

namespace Options

/-- The scalar that a file holds for one of the options. -/
def scalarOf (o : Options) : OptionKey → Toml.Scalar
  | .lights => .integer o.lights.toNat
  | .specular => .string o.specular.toText
  | .albedo => .string o.albedo.toText
  | .verticalFlip => .boolean o.verticalFlip
  | .transparency => .boolean o.transparency

/-- The options with one of them taken from `p`. -/
def take (o p : Options) : OptionKey → Options
  | .lights => { o with lights := p.lights }
  | .specular => { o with specular := p.specular }
  | .albedo => { o with albedo := p.albedo }
  | .verticalFlip => { o with verticalFlip := p.verticalFlip }
  | .transparency => { o with transparency := p.transparency }

/-- A flag is read as a boolean. -/
theorem spells_flagLiteral (b : Bool) : Toml.Spells (flagLiteral b) (.boolean b) := by
  cases b with
  | false => exact Toml.spells_false
  | true => exact Toml.spells_true

section

variable {o : Options} (h : o.lights < 0x8000000000000000)
include h

/-- Every option is written in a spelling of its scalar. -/
theorem spells_literalOf (k : OptionKey) : Toml.Spells (o.literalOf k) (o.scalarOf k) := by
  cases k with
  | lights =>
    have hlights : o.lights.toNat < 0x8000000000000000 := UInt64.lt_iff_toNat_lt.mp h
    exact Toml.spells_ofNat (SignedWord.holds_iff.mpr ⟨by omega, by omega⟩)
  | specular => exact Toml.spells_quoted o.specular.isBare_toText
  | albedo => exact Toml.spells_quoted o.albedo.isBare_toText
  | verticalFlip => exact spells_flagLiteral o.verticalFlip
  | transparency => exact spells_flagLiteral o.transparency

end

/-- The line of an options file for a key. -/
def line (o : Options) (h : o.lights < 0x8000000000000000) (k : OptionKey) : Toml.Line where
  key := k.name
  spelling := o.literalOf k
  value := o.scalarOf k
  bare := k.isBare_name
  spells := spells_literalOf h k

/-- The document that an options file is. -/
def document (o : Options) : Toml.Document where
  root := [(tableName, .table (OptionKey.all.map fun k => (k.name, .scalar (o.scalarOf k))))]
  keys := [tableName] :: OptionKey.all.map fun k => [tableName, k.name]

/-- **The file of some options is read as their document**: a section with one line for each key. -/
theorem parse?_toFile {o : Options} (h : o.lights < 0x8000000000000000) :
    Toml.parse? o.toFile = some o.document := by
  have hfile : o.toFile = Toml.sectionText tableName (OptionKey.all.map (o.line h)) := by
    rw [toFile, Toml.sectionText, List.flatMap_map]
    rfl
  have hkeys : ((OptionKey.all.map (o.line h)).map Toml.Line.key).Nodup := by
    rw [List.map_map]
    exact OptionKey.nodup_names
  rw [hfile, Toml.parse?_sectionText ⟨by decide, by decide⟩ hkeys]
  simp only [Toml.Document.ofSection, document, List.map_map]
  rfl

/-- Reading the scalar of an option sets that option and no other. -/
theorem set?_scalarOf (o p : Options) (k : OptionKey) : o.set? (.scalar (p.scalarOf k)) k = some (o.take p k) := by
  cases k with
  | lights =>
    have hlights : (Int64.ofInt (p.lights.toNat : Int)).toUInt64 = p.lights := by
      rw [Int64.ofInt_eq_ofNat]
      exact UInt64.ofNat_toNat
    rw [set?, scalarOf, lightsOf?, hlights]
    rfl
  | specular => rw [set?, scalarOf, methodOf?, Method.ofText?_toText]; rfl
  | albedo => rw [set?, scalarOf, methodOf?, Method.ofText?_toText]; rfl
  | verticalFlip => rfl
  | transparency => rfl

/-- Whatever the options were before, the entries of a file replace them all. -/
theorem setAll?_entries (o p : Options) :
    o.setAll? (OptionKey.all.map fun k => (k.name, .scalar (p.scalarOf k))) = some p := by
  have hstep : ∀ (keys : List OptionKey) (o : Options),
      o.setAll? (keys.map fun k => (k.name, .scalar (p.scalarOf k))) = some (keys.foldl (take · p) o) := by
    intro keys
    induction keys with
    | nil => intro o; rfl
    | cons k keys ih =>
      intro o
      have := ih (o.take p k)
      rw [setAll?] at this ⊢
      rw [List.map_cons, List.foldlM_cons, OptionKey.ofName?_name]
      simp only [set?_scalarOf]
      exact this
  rw [hstep]
  rfl

/-- Every key of a file means something. -/
theorem isKnown_document (o : Options) {p : Toml.Path} (h : p ∈ o.document.keys) :
    isKnown o.document.root p = true := by
  have hname : namesTable tableName = true := beq_self_eq_true _
  have hfind : o.document.root.get? tableName =
      some (.table (OptionKey.all.map fun k => (k.name, .scalar (o.scalarOf k)))) := by
    rw [Toml.Table.get?, document, List.lookup_cons, beq_self_eq_true]
  rcases List.mem_cons.mp h with rfl | h
  · rw [isKnown, hname, hfind]
    rfl
  · obtain ⟨k, -, rfl⟩ := List.mem_map.mp h
    have hentry : (Toml.Table.get? (OptionKey.all.map fun k => (k.name, .scalar (o.scalarOf k))) k.name).isSome =
        true := by
      cases k <;> rfl
    rw [isKnown, hname, OptionKey.ofName?_name, Toml.Table.tableAt?, hfind]
    exact hentry

/-- **Options survive their file**, whatever numbers the methods have, as long as the number of lights is a
signed 64-bit integer: the file has a line for every key, reading it gives the same options, and so does
reading a method alone. -/
theorem ofFile_toFile (o : Options) (h : o.lights < 0x8000000000000000) :
    ofFile o.toFile = .ok o ∧ Toml.parse? o.toFile = some o.document ∧
      ∀ (kind : MethodKind) (m : Method kind), Method.ofText? m.toText = some m := by
  refine ⟨?_, parse?_toFile h, fun kind m => m.ofText?_toText⟩
  have hset : ofDocument? o.document = some o := by
    rw [ofDocument?, document, List.foldlM_cons]
    simp only [show namesTable tableName = true from beq_self_eq_true _, if_true, setAll?_entries]
    rfl
  have hknown : (o.document.keys.filter fun p => !isKnown o.document.root p) = [] := by
    rw [List.filter_eq_nil_iff]
    intro p hp
    rw [isKnown_document o hp]
    exact Bool.false_ne_true
  rw [ofFile, parse?_toFile h]
  simp only [hset, hknown]

/-- The largest number of lights, the least number as a method and the first number without a name. -/
def extreme : Options := ⟨0x7FFFFFFFFFFFFFFF, ⟨-0x8000000000000000⟩, ⟨3⟩, true, false⟩

theorem ofFile_toFile_extreme :
    extreme.lights < 0x8000000000000000 ∧ extreme.specular.isDefined = false ∧
      extreme.albedo.isDefined = false ∧ ofFile extreme.toFile = .ok extreme ∧
      Toml.parse? extreme.toFile = some extreme.document :=
  have hlights : extreme.lights < 0x8000000000000000 := by decide
  have hread := ofFile_toFile extreme hlights
  ⟨hlights, by decide, by decide, hread.1, hread.2.1⟩

end Options
end ShadeGraph
