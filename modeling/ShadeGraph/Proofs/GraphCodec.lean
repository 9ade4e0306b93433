/-
  Graphs that are written and read again.

  1. Numbers come back in single precision, with NaNs made one (`float_toItem`); so do types.
  2. Each kind of record is intact as an item, and decoding it fills in its fields one after the other.
     What comes back is the record `settled`: a boolean has lost its numbers, and a NaN its payload.
  3. A graph whose texts, values and lists are `Storable` comes back settled (`parse_encode`).  If its
     values are `Lossless`, it comes back as it was (`decode_encode_graph`).
-/
import ShadeGraph.Proofs.CborRecord
import ShadeGraph.Proofs.HalfPrecision

namespace ShadeGraph

open Cbor (Item Decoded FieldKey Fills Fit StorableText)

/-! ## Numbers and types -/

namespace Binary32

/-- The number as it is after writing and reading. -/
def settled (x : Binary32) : Binary32 := if x.isNaN then nan else x

/-- A number that is no NaN is settled. -/
theorem settled_of_not_nan {x : Binary32} (h : x.isNaN = false) : x.settled = x := by
  rw [settled, h]
  rfl

/-- **A number is written in the shortest of its forms and read as it was**, unless it is a NaN. -/
theorem float_toItem {ε : Type} (x : Binary32) :
    Cbor.Decode.float x.toItem = (.ok x.settled : Decoded ε Binary32) := by
  rw [toItem]
  cases hhalf : x.toHalf? with
  | some h =>
    show Except.ok (ofHalf h) = _
    rw [ofHalf_toHalf? hhalf, settled]
  | none =>
    -- only a number is too wide for half precision
    have hnan : x.isNaN = false := by
      cases hnan : x.isNaN with
      | false => rfl
      | true => rw [toHalf?, hnan] at hhalf; cases hhalf
    show Except.ok (Binary32.mk x.bits) = _
    rw [settled_of_not_nan hnan]

/-- Whichever form it has, a number is an intact item. -/
theorem intact_toItem (x : Binary32) (depth : Nat) : x.toItem.Intact depth := by
  rw [toItem]
  split
  · exact ⟨trivial, rfl⟩
  · exact ⟨trivial, rfl⟩

end Binary32

namespace DataType

/-- The code of a type fits a byte. -/
theorem code_le (t : DataType) : t.code ≤ 255 := by
  cases t with
  | reserved k => have := k.isLt; simp only [code]; omega
  | _ => decide

/-- Types are known by their codes, those included that have no meaning. -/
theorem ofCode_code (t : DataType) : ofCode (UInt8.ofNat t.code) = t := by
  cases t with
  | reserved k =>
    have hk := k.isLt
    have hbyte : (UInt8.ofNat (17 + k.val)).toNat = 17 + k.val :=
      UInt8.toNat_ofNat_of_lt' (show _ < 256 by omega)
    have hnone : all[17 + k.val]? = Option.none := List.getElem?_eq_none (by simp [all])
    rw [code, ofCode, hbyte, hnone]
    simp
  | _ => rfl

/-- A type is written as its code and read as the same type. -/
theorem ofItem_toItem {ε : Type} (t : DataType) : ofItem t.toItem = (.ok t : Decoded ε DataType) := by
  have hcode := t.code_le
  have hinteger : Cbor.Decode.integer 0 255 t.toItem = (.ok (t.code : Int) : Decoded ε Int) := by
    show (if (0 : Int) ≤ t.code ∧ (t.code : Int) ≤ 255 then Except.ok (t.code : Int) else _) = _
    rw [if_pos (by omega)]
  rw [ofItem, hinteger]
  show Except.ok (ofCode (UInt8.ofNat (t.code : Int).toNat)) = _
  rw [Int.toNat_natCast, ofCode_code]

theorem intact_toItem (t : DataType) (depth : Nat) : t.toItem.Intact depth :=
  Cbor.intact_unsigned (by have := t.code_le; omega)

end DataType

/-! ## Values -/

namespace Value

/-- The value as it is after writing and reading. -/
def settled (v : Value) : Value where
  type := v.type
  numbers := if v.type = .boolean then [] else v.numbers.map Binary32.settled
  text := v.text
  flag := v.flag
  sized h := by rw [if_neg h, List.length_map, v.sized h]

theorem numbers_settled (v : Value) :
    v.settled.numbers = if v.type = .boolean then [] else v.numbers.map Binary32.settled := rfl

/-- The numbers of a value that is no boolean are few. -/
theorem length_le (v : Value) (hboolean : ¬ v.type = .boolean) : v.numbers.length ≤ capacity := by
  rw [v.sized hboolean]
  exact size_le v.type

/-- Few numbers are written, or none at all, so the item of a value can be read again. -/
theorem intact_toItem {v : Value} (htext : StorableText v.text) {depth : Nat}
    (hdepth : depth + 1 < Cbor.maxDepth) : v.toItem.Intact depth := by
  have hflag : Fit (depth + 1) 1 (if v.flag then Cbor.entry "b" (.bool true) else []) := by
    split
    · exact Cbor.fit_entry (by decide) (Cbor.intact_bool true)
    · exact Cbor.fit_nil
  have hnumbers : Fit (depth + 1) 1 (if v.type = .boolean then [] else
      Cbor.listEntry "f" (v.numbers.map Binary32.toItem)) := by
    split
    · exact Cbor.fit_nil
    · next hboolean =>
      refine Cbor.fit_listEntry (by decide) (Cbor.intact_array hdepth ?_ ?_)
      · rw [List.length_map]
        exact (v.length_le hboolean).trans (by decide)
      · intro i hi
        obtain ⟨x, _, rfl⟩ := List.mem_map.mp hi
        exact x.intact_toItem _
  rw [toItem]
  exact (((hflag.append hnumbers).append (Cbor.fit_textEntry (by decide) htext)).append
    (Cbor.fit_entry (by decide) (v.type.intact_toItem _))).map (by omega) (by decide)

/-- The fields of a settled value pass the checks, and the cut to the capacity leaves the numbers alone. -/
theorem ofFields_settled {v : Value} (hdefined : v.type.isDefined = true) :
    ofFields ⟨v.type, v.settled.numbers, v.text, v.flag⟩ = .ok v.settled := by
  have hcount : ¬ (v.type ≠ .boolean ∧ v.settled.numbers.length ≠ v.type.size) :=
    fun h => h.2 (v.settled.sized h.1)
  have hfew : v.settled.numbers.take capacity = v.settled.numbers := by
    refine List.take_of_length_le ?_
    by_cases hboolean : v.type = .boolean
    · rw [numbers_settled, if_pos hboolean]
      exact Nat.zero_le _
    · exact v.settled.length_le hboolean
  rw [ofFields, if_neg (by rw [hdefined]; decide), dif_neg hcount]
  exact congrArg Except.ok (Value.ext rfl hfew rfl rfl)

/-- A value of a type with a meaning comes back settled. -/
theorem ofItem_toItem {v : Value} (hdefined : v.type.isDefined = true) : ofItem v.toItem = .ok v.settled := by
  -- The fields are filled in the order of their encoded keys.
  have hflag : Fills keys (setField (ε := ValueError)) [] [3]
      (if v.flag then Cbor.entry "b" (.bool true) else []) ⟨.none, [], [], false⟩
      ⟨.none, [], [], v.flag⟩ := by
    cases v.flag with
    | true => exact Cbor.fills_entry rfl (by decide) rfl
    | false => exact Cbor.fills_nothing 3
  have hnumbers : Fills keys (setField (ε := ValueError)) [3] [1, 3] (if v.type = .boolean then [] else
      Cbor.listEntry "f" (v.numbers.map Binary32.toItem)) ⟨.none, [], [], v.flag⟩
      ⟨.none, v.settled.numbers, [], v.flag⟩ := by
    rw [numbers_settled]
    split
    · exact Cbor.fills_nothing 1
    · refine Cbor.fills_listEntry rfl (by decide) ?_ fun hnone => ?_
      · rw [setField, Cbor.list_array fun x _ => x.float_toItem]
        rfl
      · rw [List.map_eq_nil_iff.mp hnone]
        rfl
  have htext : Fills keys (setField (ε := ValueError)) [1, 3] [2, 1, 3] (Cbor.textEntry "s" v.text)
      ⟨.none, v.settled.numbers, [], v.flag⟩ ⟨.none, v.settled.numbers, v.text, v.flag⟩ :=
    Cbor.fills_textEntry rfl (by decide) rfl fun hnone => by rw [hnone]
  have htype : Fills keys (setField (ε := ValueError)) [2, 1, 3] [0, 2, 1, 3]
      (Cbor.entry "type" v.type.toItem) ⟨.none, v.settled.numbers, v.text, v.flag⟩
      ⟨v.type, v.settled.numbers, v.text, v.flag⟩ := by
    refine Cbor.fills_entry rfl (by decide) ?_
    rw [setField, DataType.ofItem_toItem]
    rfl
  rw [ofItem, toItem, Cbor.record_map (((hflag.trans hnumbers).trans htext).trans htype)]
  exact ofFields_settled hdefined

end Value

/-! ## Records with a value -/

section

variable {ρ : Type} {keys : List FieldKey} {set : Nat → Item → ρ → Decoded ValueError ρ} {used : List Nat}
  {r r' : ρ} {i depth : Nat} {value : Option Value}

/-- The text of a value that may be absent. -/
def valueTexts (value : Option Value) : List Text := (value.map Value.text).toList

/-- A value that is there is an entry of a record, and one that is not there is none. -/
theorem fit_value (htexts : ∀ t ∈ valueTexts value, StorableText t)
    (hdepth : depth + 1 < Cbor.maxDepth) : Fit depth 1 (Value.entry? value) := by
  cases value with
  | none => exact Cbor.fit_nil
  | some v =>
    have htext : StorableText v.text := htexts v.text (List.mem_singleton.mpr rfl)
    exact Cbor.fit_entry (by decide) (Value.intact_toItem htext hdepth)

theorem optional_toItem {v : Value} (h : v.type.isDefined = true) :
    Cbor.Decode.optional Value.ofItem v.toItem = .ok (some v.settled) := by
  show (Value.ofItem v.toItem).map some = _
  rw [Value.ofItem_toItem h]
  rfl

/-- The field for a value: filled in if there is one, and left alone if not. -/
theorem fills_value (hvalue : ∀ v ∈ value, v.type.isDefined = true)
    (hkey : keys.findIdx? (·.name == Text.ofString "value") = some i) (hi : i ∉ used)
    (hset : ∀ v ∈ value, Cbor.Decode.optional Value.ofItem v.toItem = .ok (some v.settled) →
      set i v.toItem r = .ok r')
    (habsent : value = none → r = r') : Fills keys set used (i :: used) (Value.entry? value) r r' := by
  cases value with
  | none => rw [habsent rfl]; exact Cbor.fills_nothing i
  | some v => exact Cbor.fills_entry hkey hi (hset v rfl (optional_toItem (hvalue v rfl)))

end

namespace InterfaceInput

/-- All texts of an interface input. -/
def texts (i : InterfaceInput) : List Text := i.name :: valueTexts i.value

/-- The interface input as it is after writing and reading. -/
def settled (i : InterfaceInput) : InterfaceInput := { i with value := i.value.map Value.settled }

/-- The record of an interface input: name, type, and a value if there is one. -/
theorem intact_toItem {i : InterfaceInput} (htexts : ∀ t ∈ i.texts, StorableText t) {depth : Nat}
    (hdepth : depth + 2 < Cbor.maxDepth) : i.toItem.Intact depth := by
  obtain ⟨hname, htexts⟩ := List.forall_mem_cons.mp htexts
  rw [toItem]
  exact (((Cbor.fit_entry (by decide) (Cbor.intact_text hname)).append
    (Cbor.fit_entry (by decide) (i.type.intact_toItem _))).append
    (fit_value htexts hdepth)).map (by omega) (by decide)

/-- Reading the record fills in the fields of an interface input one after the other. -/
theorem ofItem_toItem {i : InterfaceInput} (hvalue : ∀ v ∈ i.value, v.type.isDefined = true) :
    ofItem i.toItem = .ok i.settled := by
  have hname : Fills keys setField [] [0] (Cbor.entry "name" (.text i.name)) ⟨[], .none, none⟩
      ⟨i.name, .none, none⟩ := Cbor.fills_entry rfl (by decide) rfl
  have htype : Fills keys setField [0] [1, 0] (Cbor.entry "type" i.type.toItem) ⟨i.name, .none, none⟩
      ⟨i.name, i.type, none⟩ :=
    Cbor.fills_entry rfl (by decide) (by rw [setField, DataType.ofItem_toItem]; rfl)
  have hvalue : Fills keys setField [1, 0] [2, 1, 0] (Value.entry? i.value) ⟨i.name, i.type, none⟩
      i.settled :=
    fills_value hvalue rfl (by decide)
      (fun v hv hset => by simp only [setField, hset, settled, Option.mem_def.mp hv]; rfl)
      (fun hnone => by rw [settled, hnone]; rfl)
  exact Cbor.record_map ((hname.trans htype).trans hvalue)

end InterfaceInput

namespace NodeInput

/-- All texts of a node input. -/
def texts (i : NodeInput) : List Text := i.name :: i.node :: i.output :: i.interface :: valueTexts i.value

/-- The node input as it is after writing and reading. -/
def settled (i : NodeInput) : NodeInput := { i with value := i.value.map Value.settled }

/-- The record of a node input, of whose names those that are empty are left out. -/
theorem intact_toItem {i : NodeInput} (htexts : ∀ t ∈ i.texts, StorableText t) {depth : Nat}
    (hdepth : depth + 2 < Cbor.maxDepth) : i.toItem.Intact depth := by
  simp only [texts, List.forall_mem_cons] at htexts
  obtain ⟨hname, hnode, houtput, hinterface, htexts⟩ := htexts
  rw [toItem]
  exact ((((((Cbor.fit_entry (by decide) (Cbor.intact_text hname)).append
    (Cbor.fit_textEntry (by decide) hnode)).append
    (Cbor.fit_entry (by decide) (i.type.intact_toItem _))).append
    (fit_value htexts hdepth)).append
    (Cbor.fit_textEntry (by decide) houtput)).append
    (Cbor.fit_textEntry (by decide) hinterface)).map (by omega) (by decide)

/-- Reading the record fills in the fields of a node input.  What was left out is empty in the record that
reading starts from. -/
theorem ofItem_toItem {i : NodeInput} (hvalue : ∀ v ∈ i.value, v.type.isDefined = true) :
    ofItem i.toItem = .ok i.settled := by
  have hname : Fills keys setField [] [0] (Cbor.entry "name" (.text i.name)) ⟨[], .none, none, [], [], []⟩
      ⟨i.name, .none, none, [], [], []⟩ := Cbor.fills_entry rfl (by decide) rfl
  have hnode : Fills keys setField [0] [3, 0] (Cbor.textEntry "node" i.node)
      ⟨i.name, .none, none, [], [], []⟩ ⟨i.name, .none, none, i.node, [], []⟩ :=
    Cbor.fills_textEntry rfl (by decide) rfl fun hnone => by rw [hnone]
  have htype : Fills keys setField [3, 0] [1, 3, 0] (Cbor.entry "type" i.type.toItem)
      ⟨i.name, .none, none, i.node, [], []⟩ ⟨i.name, i.type, none, i.node, [], []⟩ :=
    Cbor.fills_entry rfl (by decide) (by rw [setField, DataType.ofItem_toItem]; rfl)
  have hvalue : Fills keys setField [1, 3, 0] [2, 1, 3, 0] (Value.entry? i.value)
      ⟨i.name, i.type, none, i.node, [], []⟩ ⟨i.name, i.type, i.value.map Value.settled, i.node, [], []⟩ :=
    fills_value hvalue rfl (by decide)
      (fun v hv hset => by rw [setField, hset, Option.mem_def.mp hv]; rfl) (fun hnone => by rw [hnone]; rfl)
  have houtput : Fills keys setField [2, 1, 3, 0] [4, 2, 1, 3, 0] (Cbor.textEntry "output" i.output)
      ⟨i.name, i.type, i.value.map Value.settled, i.node, [], []⟩
      ⟨i.name, i.type, i.value.map Value.settled, i.node, i.output, []⟩ :=
    Cbor.fills_textEntry rfl (by decide) rfl fun hnone => by rw [hnone]
  have hinterface : Fills keys setField [4, 2, 1, 3, 0] [5, 4, 2, 1, 3, 0]
      (Cbor.textEntry "interface" i.interface)
      ⟨i.name, i.type, i.value.map Value.settled, i.node, i.output, []⟩ i.settled :=
    Cbor.fills_textEntry rfl (by decide) rfl fun hnone => by rw [settled, hnone]
  exact Cbor.record_map
    (((((hname.trans hnode).trans htype).trans hvalue).trans houtput).trans hinterface)

end NodeInput

namespace NodeOutput

/-- The record of an output of a node. -/
theorem intact_toItem {o : NodeOutput} (hname : StorableText o.name) {depth : Nat}
    (hdepth : depth < Cbor.maxDepth) : o.toItem.Intact depth :=
  ((Cbor.fit_entry (by decide) (Cbor.intact_text hname)).append
    (Cbor.fit_entry (by decide) (o.type.intact_toItem _))).map hdepth (by decide)

theorem ofItem_toItem (o : NodeOutput) : ofItem o.toItem = .ok o := by
  have hname : Fills keys setField [] [0] (Cbor.entry "name" (.text o.name)) ⟨[], .none⟩ ⟨o.name, .none⟩ :=
    Cbor.fills_entry rfl (by decide) rfl
  have htype : Fills keys setField [0] [1, 0] (Cbor.entry "type" o.type.toItem) ⟨o.name, .none⟩ o :=
    Cbor.fills_entry rfl (by decide) (by simp only [setField, DataType.ofItem_toItem]; rfl)
  exact Cbor.record_map (hname.trans htype)

end NodeOutput

namespace Socket

/-- All texts of a socket. -/
def texts (s : Socket) : List Text := s.name :: s.node :: s.nodeOutput :: s.channels :: valueTexts s.value

/-- The socket as it is after writing and reading. -/
def settled (s : Socket) : Socket := { s with value := s.value.map Value.settled }

/-- The record of an output socket. -/
theorem intact_toItem {s : Socket} (htexts : ∀ t ∈ s.texts, StorableText t) {depth : Nat}
    (hdepth : depth + 2 < Cbor.maxDepth) : s.toItem.Intact depth := by
  simp only [texts, List.forall_mem_cons] at htexts
  obtain ⟨hname, hnode, houtput, hchannels, htexts⟩ := htexts
  rw [toItem]
  exact ((((((Cbor.fit_entry (by decide) (Cbor.intact_text hname)).append
    (Cbor.fit_textEntry (by decide) hnode)).append
    (Cbor.fit_entry (by decide) (s.type.intact_toItem _))).append
    (fit_value htexts hdepth)).append
    (Cbor.fit_textEntry (by decide) hchannels)).append
    (Cbor.fit_textEntry (by decide) houtput)).map (by omega) (by decide)

/-- Reading the record fills in the fields of a socket. -/
theorem ofItem_toItem {s : Socket} (hvalue : ∀ v ∈ s.value, v.type.isDefined = true) :
    ofItem s.toItem = .ok s.settled := by
  have hname : Fills keys setField [] [0] (Cbor.entry "name" (.text s.name)) blank
      ⟨s.name, .none, [], [], [], none⟩ := Cbor.fills_entry rfl (by decide) rfl
  have hnode : Fills keys setField [0] [2, 0] (Cbor.textEntry "node" s.node)
      ⟨s.name, .none, [], [], [], none⟩ ⟨s.name, .none, s.node, [], [], none⟩ :=
    Cbor.fills_textEntry rfl (by decide) rfl fun hnone => by rw [hnone]
  have htype : Fills keys setField [2, 0] [1, 2, 0] (Cbor.entry "type" s.type.toItem)
      ⟨s.name, .none, s.node, [], [], none⟩ ⟨s.name, s.type, s.node, [], [], none⟩ :=
    Cbor.fills_entry rfl (by decide) (by rw [setField, DataType.ofItem_toItem]; rfl)
  have hvalue : Fills keys setField [1, 2, 0] [5, 1, 2, 0] (Value.entry? s.value)
      ⟨s.name, s.type, s.node, [], [], none⟩ ⟨s.name, s.type, s.node, [], [], s.value.map Value.settled⟩ :=
    fills_value hvalue rfl (by decide)
      (fun v hv hset => by simp only [setField, hset, Option.mem_def.mp hv]; rfl)
      (fun hnone => by rw [hnone]; rfl)
  have hchannels : Fills keys setField [5, 1, 2, 0] [4, 5, 1, 2, 0] (Cbor.textEntry "channels" s.channels)
      ⟨s.name, s.type, s.node, [], [], s.value.map Value.settled⟩
      ⟨s.name, s.type, s.node, [], s.channels, s.value.map Value.settled⟩ :=
    Cbor.fills_textEntry rfl (by decide) rfl fun hnone => by rw [hnone]
  have houtput : Fills keys setField [4, 5, 1, 2, 0] [3, 4, 5, 1, 2, 0]
      (Cbor.textEntry "nodeoutput" s.nodeOutput)
      ⟨s.name, s.type, s.node, [], s.channels, s.value.map Value.settled⟩ s.settled :=
    Cbor.fills_textEntry rfl (by decide) rfl fun hnone => by rw [settled, hnone]
  exact Cbor.record_map
    (((((hname.trans hnode).trans htype).trans hvalue).trans hchannels).trans houtput)

end Socket

/-! ## Nodes and graphs -/

namespace Node

/-- All texts of a node. -/
def texts (n : Node) : List Text :=
  n.name :: n.definition :: (n.inputs.flatMap NodeInput.texts ++ n.outputs.map NodeOutput.name)

/-- All values of a node. -/
def values (n : Node) : List Value := n.inputs.filterMap NodeInput.value

/-- The lengths of the lists of a node. -/
def lengths (n : Node) : List Nat := [n.inputs.length, n.outputs.length]

/-- The node as it is after writing and reading. -/
def settled (n : Node) : Node := { n with inputs := n.inputs.map NodeInput.settled }

/-- A node that can be stored. -/
structure Storable (n : Node) : Prop where
  texts : ∀ t ∈ n.texts, StorableText t
  values : ∀ v ∈ n.values, v.type.isDefined = true
  lengths : ∀ k ∈ n.lengths, k ≤ Cbor.maxElements

/-- What is stored of a node is stored of each of its inputs. -/
theorem Storable.input {n : Node} (h : n.Storable) {i : NodeInput} (hi : i ∈ n.inputs) :
    (∀ t ∈ i.texts, StorableText t) ∧ ∀ v ∈ i.value, v.type.isDefined = true := by
  refine ⟨fun t ht => h.texts t ?_, fun v hv => h.values v (List.mem_filterMap.mpr ⟨i, hi, hv⟩)⟩
  simp only [Node.texts, List.mem_cons, List.mem_append, List.mem_flatMap]
  exact Or.inr (Or.inr (Or.inl ⟨i, hi, ht⟩))

/-- The record of a node: its lists are arrays of records, two levels further down. -/
theorem intact_toItem {n : Node} (h : n.Storable) {depth : Nat} (hdepth : depth + 4 < Cbor.maxDepth) :
    n.toItem.Intact depth := by
  have hlengths := h.lengths
  have htexts := h.texts
  simp only [lengths, texts, List.forall_mem_cons, List.forall_mem_append] at hlengths htexts
  obtain ⟨hname, hdefinition, -, houtputs⟩ := htexts
  have hinputs : (Item.array (n.inputs.map NodeInput.toItem)).Intact (depth + 1) := by
    refine Cbor.intact_array (by omega) (by rw [List.length_map]; exact hlengths.1) fun j hj => ?_
    obtain ⟨i, hi, rfl⟩ := List.mem_map.mp hj
    exact NodeInput.intact_toItem (h.input hi).1 (by omega)
  have houtputs : (Item.array (n.outputs.map NodeOutput.toItem)).Intact (depth + 1) := by
    refine Cbor.intact_array (by omega) (by rw [List.length_map]; exact hlengths.2.1) fun j hj => ?_
    obtain ⟨o, ho, rfl⟩ := List.mem_map.mp hj
    exact NodeOutput.intact_toItem (houtputs o.name (List.mem_map_of_mem ho)) (by omega)
  rw [toItem]
  exact (((((Cbor.fit_entry (by decide) (Cbor.intact_text hdefinition)).append
    (Cbor.fit_entry (by decide) (Cbor.intact_text hname))).append
    (Cbor.fit_entry (by decide) (n.type.intact_toItem _))).append
    (Cbor.fit_listEntry (by decide) hinputs)).append
    (Cbor.fit_listEntry (by decide) houtputs)).map (by omega) (by decide)

/-- Reading the record of a node reads its lists item by item. -/
theorem ofItem_toItem {n : Node} (h : n.Storable) : ofItem n.toItem = .ok n.settled := by
  have hdefinition : Fills keys setField [] [1] (Cbor.entry "def" (.text n.definition))
      ⟨[], [], .none, [], []⟩ ⟨[], n.definition, .none, [], []⟩ := Cbor.fills_entry rfl (by decide) rfl
  have hname : Fills keys setField [1] [0, 1] (Cbor.entry "name" (.text n.name))
      ⟨[], n.definition, .none, [], []⟩ ⟨n.name, n.definition, .none, [], []⟩ :=
    Cbor.fills_entry rfl (by decide) rfl
  have htype : Fills keys setField [0, 1] [2, 0, 1] (Cbor.entry "type" n.type.toItem)
      ⟨n.name, n.definition, .none, [], []⟩ ⟨n.name, n.definition, n.type, [], []⟩ :=
    Cbor.fills_entry rfl (by decide) (by rw [setField, DataType.ofItem_toItem]; rfl)
  have hinputs : Fills keys setField [2, 0, 1] [3, 2, 0, 1]
      (Cbor.listEntry "inputs" (n.inputs.map NodeInput.toItem)) ⟨n.name, n.definition, n.type, [], []⟩
      ⟨n.name, n.definition, n.type, n.inputs.map NodeInput.settled, []⟩ := by
    refine Cbor.fills_listEntry rfl (by decide) ?_ fun hnone => ?_
    · rw [setField, Cbor.list_array fun i hi => NodeInput.ofItem_toItem (h.input hi).2]
      rfl
    · rw [List.map_eq_nil_iff.mp hnone]
      rfl
  have houtputs : Fills keys setField [3, 2, 0, 1] [4, 3, 2, 0, 1]
      (Cbor.listEntry "outputs" (n.outputs.map NodeOutput.toItem))
      ⟨n.name, n.definition, n.type, n.inputs.map NodeInput.settled, []⟩ n.settled := by
    refine Cbor.fills_listEntry rfl (by decide) ?_ fun hnone => ?_
    · simp only [setField, Cbor.list_array fun o _ => NodeOutput.ofItem_toItem o, List.map_id']
      rfl
    · rw [settled, List.map_eq_nil_iff.mp hnone]
  exact Cbor.record_map ((((hdefinition.trans hname).trans htype).trans hinputs).trans houtputs)

end Node

namespace Graph

/-- All texts of a graph. -/
def texts (g : Graph) : List Text :=
  g.name :: (g.inputs.flatMap InterfaceInput.texts ++ g.nodes.flatMap Node.texts ++ g.output.texts)

/-- All values of a graph. -/
def values (g : Graph) : List Value :=
  g.inputs.filterMap InterfaceInput.value ++ g.nodes.flatMap Node.values ++ g.output.value.toList

/-- The lengths of all lists of a graph. -/
def lengths (g : Graph) : List Nat := g.inputs.length :: g.nodes.length :: g.nodes.flatMap Node.lengths

/-- The graph as it is after writing and reading. -/
def settled (g : Graph) : Graph :=
  { g with
    inputs := g.inputs.map InterfaceInput.settled
    nodes := g.nodes.map Node.settled
    output := g.output.settled }

/-- A graph that can be stored. -/
structure Storable (g : Graph) : Prop where
  texts : ∀ t ∈ g.texts, StorableText t
  values : ∀ v ∈ g.values, v.type.isDefined = true
  lengths : ∀ k ∈ g.lengths, k ≤ Cbor.maxElements

namespace Storable

variable {g : Graph}

/-- What is stored of a graph is stored of each interface input. -/
theorem input (h : g.Storable) {i : InterfaceInput} (hi : i ∈ g.inputs) :
    (∀ t ∈ i.texts, StorableText t) ∧ ∀ v ∈ i.value, v.type.isDefined = true := by
  refine ⟨fun t ht => h.texts t ?_, fun v hv => h.values v ?_⟩
  · simp only [Graph.texts, List.mem_cons, List.mem_append, List.mem_flatMap]
    exact Or.inr (Or.inl (Or.inl ⟨i, hi, ht⟩))
  · simp only [Graph.values, List.mem_append, List.mem_filterMap]
    exact Or.inl (Or.inl ⟨i, hi, hv⟩)

/-- A node of a graph that can be stored can be stored. -/
theorem node (h : g.Storable) {n : Node} (hn : n ∈ g.nodes) : n.Storable := by
  refine ⟨fun t ht => h.texts t ?_, fun v hv => h.values v ?_, fun k hk => h.lengths k ?_⟩
  · simp only [Graph.texts, List.mem_cons, List.mem_append, List.mem_flatMap]
    exact Or.inr (Or.inl (Or.inr ⟨n, hn, ht⟩))
  · simp only [Graph.values, List.mem_append, List.mem_flatMap]
    exact Or.inl (Or.inr ⟨n, hn, hv⟩)
  · simp only [Graph.lengths, List.mem_cons, List.mem_flatMap]
    exact Or.inr (Or.inr ⟨n, hn, hk⟩)

theorem socket (h : g.Storable) :
    (∀ t ∈ g.output.texts, StorableText t) ∧ ∀ v ∈ g.output.value, v.type.isDefined = true := by
  refine ⟨fun t ht => h.texts t ?_, fun v hv => h.values v ?_⟩
  · exact List.mem_cons_of_mem _ (List.mem_append_right _ ht)
  · exact List.mem_append_right _ (Option.mem_toList.mpr hv)

end Storable

/-- **The record of a graph is intact**: nothing in it is too deep, too long or out of order. -/
theorem intact_toItem {g : Graph} (h : g.Storable) : g.toItem.Intact 0 := by
  have hlengths := h.lengths
  simp only [lengths, List.forall_mem_cons] at hlengths
  have hname : StorableText g.name := h.texts g.name List.mem_cons_self
  have hnodes : (Item.array (g.nodes.map Node.toItem)).Intact 1 := by
    refine Cbor.intact_array (by decide) (by rw [List.length_map]; exact hlengths.2.1) fun j hj => ?_
    obtain ⟨n, hn, rfl⟩ := List.mem_map.mp hj
    exact Node.intact_toItem (h.node hn) (by decide)
  have hinputs : (Item.array (g.inputs.map InterfaceInput.toItem)).Intact 1 := by
    refine Cbor.intact_array (by decide) (by rw [List.length_map]; exact hlengths.1) fun j hj => ?_
    obtain ⟨i, hi, rfl⟩ := List.mem_map.mp hj
    exact InterfaceInput.intact_toItem (h.input hi).1 (by decide)
  rw [toItem]
  exact ((((Cbor.fit_entry (by decide) (Cbor.intact_text hname)).append
    (Cbor.fit_listEntry (by decide) hnodes)).append
    (Cbor.fit_listEntry (by decide) hinputs)).append
    (Cbor.fit_entry (by decide)
      (Socket.intact_toItem h.socket.1 (by decide)))).map (by decide) (by decide)

/-- **Reading the record of a graph gives the settled graph.** -/
theorem ofItem_toItem {g : Graph} (h : g.Storable) : ofItem g.toItem = .ok g.settled := by
  have hname : Fills keys setField [] [0] (Cbor.entry "name" (.text g.name)) ⟨[], [], [], Socket.blank⟩
      ⟨g.name, [], [], Socket.blank⟩ := Cbor.fills_entry rfl (by decide) rfl
  have hnodes : Fills keys setField [0] [2, 0] (Cbor.listEntry "nodes" (g.nodes.map Node.toItem))
      ⟨g.name, [], [], Socket.blank⟩ ⟨g.name, [], g.nodes.map Node.settled, Socket.blank⟩ := by
    refine Cbor.fills_listEntry rfl (by decide) ?_ fun hnone => ?_
    · rw [setField, Cbor.list_array fun n hn => Node.ofItem_toItem (h.node hn)]
      rfl
    · rw [List.map_eq_nil_iff.mp hnone]
      rfl
  have hinputs : Fills keys setField [2, 0] [1, 2, 0]
      (Cbor.listEntry "inputs" (g.inputs.map InterfaceInput.toItem))
      ⟨g.name, [], g.nodes.map Node.settled, Socket.blank⟩
      ⟨g.name, g.inputs.map InterfaceInput.settled, g.nodes.map Node.settled, Socket.blank⟩ := by
    refine Cbor.fills_listEntry rfl (by decide) ?_ fun hnone => ?_
    · rw [setField, Cbor.list_array fun i hi => InterfaceInput.ofItem_toItem (h.input hi).2]
      rfl
    · rw [List.map_eq_nil_iff.mp hnone]
      rfl
  have houtput : Fills keys setField [1, 2, 0] [3, 1, 2, 0] (Cbor.entry "output" g.output.toItem)
      ⟨g.name, g.inputs.map InterfaceInput.settled, g.nodes.map Node.settled, Socket.blank⟩
      g.settled := by
    refine Cbor.fills_entry rfl (by decide) ?_
    simp only [setField, Socket.ofItem_toItem h.socket.2]
    rfl
  exact Cbor.record_map (((hname.trans hnodes).trans hinputs).trans houtput)

/-- **A graph that can be stored comes back settled.** -/
theorem parse_encode {g : Graph} (h : g.Storable) : parse g.encode = .ok g.settled := by
  rw [parse, encode, (intact_toItem h).parse?]
  exact ofItem_toItem h

end Graph

/-! ## Graphs that come back as they were -/

theorem map_eq_self {α : Type} {f : α → α} {xs : List α} (h : ∀ x ∈ xs, f x = x) : xs.map f = xs :=
  (List.map_congr_left h).trans xs.map_id

namespace Value

/-- A value that loses nothing when it is written: its type has a meaning, it holds no NaN, and it has no
numbers beside a truth value. -/
structure Lossless (v : Value) : Prop where
  defined : v.type.isDefined = true
  boolean : v.type = .boolean → v.numbers = []
  numbers : ∀ x ∈ v.numbers, x.isNaN = false

instance (v : Value) : Decidable v.Lossless :=
  decidable_of_iff (v.type.isDefined = true ∧ (v.type = .boolean → v.numbers = []) ∧
    ∀ x ∈ v.numbers, x.isNaN = false) ⟨fun h => ⟨h.1, h.2.1, h.2.2⟩, fun h => ⟨h.defined, h.boolean, h.numbers⟩⟩

/-- What the constructors make is lossless, unless a NaN is given to them. -/
theorem lossless_ofNumbers {t : DataType} {xs : List Binary32} (hdefined : t.isDefined = true)
    (hnan : ∀ x ∈ xs, x.isNaN = false) : (ofNumbers t xs).Lossless where
  defined := hdefined
  boolean hboolean := by
    have hboolean : t = .boolean := hboolean
    subst hboolean
    exact List.length_eq_zero_iff.mp (length_fit .boolean xs)
  numbers x hx := by
    -- a number that is not among the given ones is zero
    obtain hgiven | hzero := List.mem_append.mp hx
    · exact hnan x (List.mem_of_mem_take hgiven)
    · rw [List.eq_of_mem_replicate hzero]
      rfl

/-- A lossless value is settled. -/
theorem Lossless.settled_eq {v : Value} (h : v.Lossless) : v.settled = v := by
  refine Value.ext rfl ?_ rfl rfl
  rw [numbers_settled]
  split
  · next hboolean => exact (h.boolean hboolean).symm
  · exact map_eq_self fun x hx => Binary32.settled_of_not_nan (h.numbers x hx)

end Value

namespace Graph

/-- A graph is settled if its values are. -/
theorem settled_eq {g : Graph} (h : ∀ v ∈ g.values, v.settled = v) : g.settled = g := by
  have hvalue : ∀ {value : Option Value}, (∀ v ∈ value, v.settled = v) → value.map Value.settled = value := by
    intro value hvalue
    cases value with
    | none => rfl
    | some v => exact congrArg some (hvalue v rfl)
  simp only [values, List.forall_mem_append] at h
  obtain ⟨⟨hinputs, hnodes⟩, houtput⟩ := h
  have hinputs : g.inputs.map InterfaceInput.settled = g.inputs := by
    refine map_eq_self fun i hi => ?_
    rw [InterfaceInput.settled, hvalue fun v hv => hinputs v (List.mem_filterMap.mpr ⟨i, hi, hv⟩)]
  have hnodes : g.nodes.map Node.settled = g.nodes := by
    refine map_eq_self fun n hn => ?_
    have hn' : n.inputs.map NodeInput.settled = n.inputs := by
      refine map_eq_self fun i hi => ?_
      rw [NodeInput.settled, hvalue fun v hv =>
        hnodes v (List.mem_flatMap.mpr ⟨n, hn, List.mem_filterMap.mpr ⟨i, hi, hv⟩⟩)]
    rw [Node.settled, hn']
  have houtput : g.output.settled = g.output := by
    rw [Socket.settled, hvalue fun v hv => houtput v (Option.mem_toList.mpr hv)]
  rw [settled, hinputs, hnodes, houtput]

/-- **A checked graph comes back as it was**, if its texts are well-formed, its values lossless and its lists
not too long to be read. -/
theorem decode_encode_graph {g : Graph} (hcheck : g.check = .ok ())
    (htexts : ∀ t ∈ g.texts, t.isUtf8 = true ∧ t.length < 2 ^ 64)
    (hvalues : ∀ v ∈ g.values, v.Lossless)
    (hlists : ∀ n ∈ g.lengths, n ≤ Cbor.maxElements) : decode g.encode = .ok g := by
  have hstorable : g.Storable := ⟨htexts, fun v hv => (hvalues v hv).defined, hlists⟩
  have hsettled : g.settled = g := settled_eq fun v hv => (hvalues v hv).settled_eq
  rw [decode, parse_encode hstorable, hsettled]
  simp only [hcheck]

/-- A graph with a number that fits no half, a negative zero, an infinity, the least number there is, a
boolean and a file name; its node names its outputs. -/
def storedGraph : Graph :=
  ⟨"G", [⟨"tint", .color3, some (.ofNumbers .color3 [⟨0x3DCCCCCD⟩, ⟨0x80000000⟩, ⟨0x7F800000⟩])⟩,
      ⟨"on", .boolean, some (.boolean true)⟩],
    [⟨"n", "ND_image_color3", .color3,
      [⟨"file", .filename, some (.filename "é.png"), [], [], []⟩,
        ⟨"default", .color3, some (.ofNumbers .color3 [⟨1⟩, .one]), [], [], "tint"⟩],
      [⟨"out", .color3⟩, ⟨"alpha", .float⟩]⟩],
    ⟨"out", .float, "n", "alpha", [], none⟩⟩

theorem decode_encode_stored : storedGraph.check = .ok () ∧ decode storedGraph.encode = .ok storedGraph :=
  ⟨by decide, decode_encode_graph (by decide) (by decide) (by decide) (by decide)⟩

end Graph

end ShadeGraph
