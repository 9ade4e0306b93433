/-
  Reading what was written.

  1. Numbers, heads and strings come back, with the rest of the input behind them (`readHead_head`).
  2. `Item.reading` says what becomes of an item that is encoded and read at some depth: texts that are no
     UTF-8 are garbled, and what nests too deep or has too many elements is refused.
  3. Reading an encoding gives just that (`reads_of_sized`).  The induction is on the item; it carries the
     rest of the input, the depth, and fuel of twice the length of the encoding.
-/
import Mathlib.Tactic.Ring
import ShadeGraph.Cbor.Parse

namespace ShadeGraph.Cbor

/-! ## Numbers and strings -/

@[simp] theorem length_bigEndian (width n : Nat) : (bigEndian width n).length = width := by
  induction width generalizing n with
  | zero => rfl
  | succ width ih => rw [bigEndian, List.length_append, ih]; rfl

/-- A number that fits the width comes back. -/
theorem ofBigEndian_bigEndian : ∀ {width n : Nat}, n < 256 ^ width →
    ofBigEndian (bigEndian width n) = n := by
  intro width
  induction width with
  | zero => intro n h; rw [Nat.pow_zero] at h; rw [Nat.lt_one_iff.mp h]; rfl
  | succ width ih =>
    intro n h
    have hbyte : (UInt8.ofNat (n % 256)).toNat = n % 256 := UInt8.toNat_ofNat_of_lt' (Nat.mod_lt _ (by decide))
    have hhigh : n / 256 < 256 ^ width := by
      rw [Nat.pow_succ] at h
      exact Nat.div_lt_of_lt_mul (by rw [Nat.mul_comm]; exact h)
    have hih := ih hhigh
    rw [ofBigEndian] at hih
    rw [ofBigEndian, bigEndian, List.foldl_append, hih]
    show 256 * (n / 256) + (UInt8.ofNat (n % 256)).toNat = n
    rw [hbyte]
    omega

/-- A text in front of the rest is taken off. -/
theorem takeExactly_append (t rest : Text) : takeExactly t.length (t ++ rest) = some (t, rest) := by
  rw [takeExactly, List.length_append, if_neg (by omega), List.take_left, List.drop_left]

/-- A number in front of the rest is taken off. -/
theorem takeNumber_bigEndian {width n : Nat} (h : n < 256 ^ width) (rest : Text) :
    takeNumber width (bigEndian width n ++ rest) = some (n, rest) := by
  have htake := takeExactly_append (bigEndian width n) rest
  rw [length_bigEndian] at htake
  rw [takeNumber, htake]
  show some (ofBigEndian (bigEndian width n), rest) = some (n, rest)
  rw [ofBigEndian_bigEndian h]

/-! ## Heads -/

/-- The low five bits of the first byte of a head. -/
def headInfo (n : Nat) : Nat :=
  if n < 24 then n
  else if n < 0x100 then 24
  else if n < 0x10000 then 25
  else if n < 0x100000000 then 26
  else 27

/-- A first byte, and the number behind it that it announces. -/
theorem readHead_cons {major info : Nat} {argument : Option Nat} {t rest : Text} (hmajor : major < 8)
    (hinfo : info < 32) (hread : readArgument info t = some (argument, rest))
    (hadmissible : (Head.mk major info argument).isAdmissible = true) :
    readHead (UInt8.ofNat (32 * major + info) :: t) = some (⟨major, info, argument⟩, rest) := by
  have hbyte : (UInt8.ofNat (32 * major + info)).toNat = 32 * major + info :=
    UInt8.toNat_ofNat_of_lt' (show _ < 256 by omega)
  have hlow : (32 * major + info) % 32 = info := by omega
  have hhigh : (32 * major + info) / 32 = major := by omega
  simp only [readHead, hbyte, hlow, hhigh, hread]
  exact if_pos hadmissible

/-- A head is read as it was written.  A simple value is not written as a number between 24 and 31. -/
theorem readHead_head {major n : Nat} (hmajor : major < 8) (hn : n < 2 ^ 64)
    (hsimple : major = 7 → n < 24 ∨ 32 ≤ n) (rest : Text) :
    readHead (head major n ++ rest) = some (⟨major, headInfo n, some n⟩, rest) := by
  have hadmissible : (Head.mk major (headInfo n) (some n)).isAdmissible = true := by
    rw [Head.isAdmissible]
    by_cases h : major = 7
    · rcases hsimple h with hlow | hhigh
      · have : headInfo n ≠ 24 := by rw [headInfo, if_pos hlow]; omega
        simp [this]
      · simp [show ¬ n < 32 by omega]
    · simp [h]
  have hinfo : headInfo n < 32 := by
    rw [headInfo]
    split_ifs <;> omega
  have hnumber : ∀ width, n < 256 ^ width → takeNumber width (bigEndian width n ++ rest) = some (n, rest) :=
    fun width h => takeNumber_bigEndian h rest
  rw [head]
  rw [headInfo] at hadmissible hinfo ⊢
  split_ifs at hadmissible hinfo ⊢ with h₁ h₂ h₃ h₄
  · exact readHead_cons hmajor hinfo (by rw [readArgument, if_pos h₁]; rfl) hadmissible
  · exact readHead_cons hmajor hinfo (by simp [readArgument, hnumber 1 (by omega)]) hadmissible
  · exact readHead_cons hmajor hinfo (by simp [readArgument, hnumber 2 (by omega)]) hadmissible
  · exact readHead_cons hmajor hinfo (by simp [readArgument, hnumber 4 (by omega)]) hadmissible
  · exact readHead_cons hmajor hinfo (by simp [readArgument, hnumber 8 (by omega)]) hadmissible

/-- The head of anything but a simple item may have any argument. -/
theorem readHead_below {major n : Nat} (hmajor : major < 7) (hn : n < 2 ^ 64) (rest : Text) :
    readHead (head major n ++ rest) = some (⟨major, headInfo n, some n⟩, rest) :=
  readHead_head (by omega) hn (by omega) rest

theorem length_head_pos (major n : Nat) : 0 < (head major n).length := by
  rw [head]
  split_ifs <;> exact Nat.succ_pos _

/-! ## Items -/

mutual

/-- All lengths and numbers of an item fit into a head. -/
def Item.Sized : Item → Prop
  | .unsigned n | .negative n => n < 2 ^ 64
  | .bytes b | .text b => b.length < 2 ^ 64
  | .array items => items.length < 2 ^ 64 ∧ SizedItems items
  | .map entries => entries.length < 2 ^ 64 ∧ SizedEntries entries
  | .tag n content => n < 2 ^ 64 ∧ content.Sized
  | .simple n => n < 24 ∨ 32 ≤ n ∧ n < 256
  | .garbled | .half _ | .single _ | .double _ => True

@[inherit_doc Item.Sized]
def SizedItems : List Item → Prop
  | [] => True
  | i :: rest => i.Sized ∧ SizedItems rest

@[inherit_doc Item.Sized]
def SizedEntries : List (Item × Item) → Prop
  | [] => True
  | (k, v) :: rest => k.Sized ∧ v.Sized ∧ SizedEntries rest

end

mutual

/-- What is read when an item was written, at a nesting depth and perhaps inside a tag. -/
def Item.reading (depth : Nat) (tagged : Bool) : Item → Option Item
  | .text t => some (if t.isUtf8 then .text t else .garbled)
  | .array items =>
    if maxDepth ≤ depth ∨ maxElements < items.length then none
    else (readings (depth + 1) items).map .array
  | .map entries =>
    if maxDepth ≤ depth ∨ maxElements < entries.length then none
    else (entryReadings (depth + 1) entries).map .map
  | .tag n content =>
    let depth := if tagged then depth + 1 else depth
    if maxDepth < depth then none else (content.reading depth true).map (.tag n)
  | item => some item

/-- What is read when items were written, one after the other. -/
def readings (depth : Nat) : List Item → Option (List Item)
  | [] => some []
  | i :: rest =>
    (i.reading depth false).bind fun j => (readings depth rest).map (j :: ·)

/-- What is read when keys and values were written, one after the other. -/
def entryReadings (depth : Nat) : List (Item × Item) → Option (List (Item × Item))
  | [] => some []
  | (k, v) :: rest =>
    (k.reading depth false).bind fun k' => (v.reading depth false).bind fun v' =>
      (entryReadings depth rest).map ((k', v') :: ·)

end

theorem Item.length_encode_pos (i : Item) : 0 < i.encode.length := by
  cases i <;> simp [Item.encode, length_head_pos]

/-- Keys and values as items one after the other. -/
def flatten (entries : List (Item × Item)) : List Item := entries.flatMap fun e => [e.1, e.2]

/-- Keys and values are paired again. -/
theorem pairs?_flatten (entries : List (Item × Item)) : pairs? (flatten entries) = some entries := by
  induction entries with
  | nil => rfl
  | cons e rest ih =>
    show (pairs? (flatten rest)).map _ = _
    rw [ih]
    rfl

/-- No item is lost or made by reading. -/
theorem length_readings {depth : Nat} : ∀ {items js : List Item}, readings depth items = some js →
    js.length = items.length := by
  intro items
  induction items with
  | nil => intro js h; cases h; rfl
  | cons i rest ih =>
    intro js h
    rw [readings] at h
    obtain ⟨j, _, h⟩ := Option.bind_eq_some_iff.mp h
    obtain ⟨js', hjs, rfl⟩ := Option.map_eq_some_iff.mp h
    rw [List.length_cons, List.length_cons, ih hjs]

/-- Nor is an entry. -/
theorem length_entryReadings {depth : Nat} : ∀ {entries es : List (Item × Item)},
    entryReadings depth entries = some es → es.length = entries.length := by
  intro entries
  induction entries with
  | nil => intro es h; cases h; rfl
  | cons e rest ih =>
    intro es h
    rw [entryReadings] at h
    obtain ⟨k, _, h⟩ := Option.bind_eq_some_iff.mp h
    obtain ⟨v, _, h⟩ := Option.bind_eq_some_iff.mp h
    obtain ⟨es', hes, rfl⟩ := Option.map_eq_some_iff.mp h
    rw [List.length_cons, List.length_cons, ih hes]

/-- The encoding of an item is read as `Item.reading` says, and the rest of the input stays. -/
def Item.Reads (i : Item) : Prop :=
  ∀ (fuel depth : Nat) (tagged : Bool) (rest : Text), 2 * i.encode.length ≤ fuel →
    readItem fuel depth tagged (i.encode ++ rest) = (i.reading depth tagged).map (·, rest)

/-- Reading items one after the other, if each of them is read. -/
theorem readItems_encode {depth : Nat} : ∀ {items : List Item} {fuel : Nat} (rest : Text),
    (∀ i ∈ items, i.Reads) → 2 * (encodeItems items).length + 1 ≤ fuel →
    readItems fuel depth items.length (encodeItems items ++ rest) =
      (readings depth items).map (·, rest) := by
  intro items
  induction items with
  | nil => intro fuel rest _ _; rw [List.length_nil, readItems]; rfl
  | cons i items ih =>
    intro fuel rest hreads hfuel
    have hpos := i.length_encode_pos
    rw [encodeItems, List.length_append] at hfuel
    obtain ⟨fuel, rfl⟩ : ∃ f, fuel = f + 1 := ⟨fuel - 1, by omega⟩
    have hfirst := hreads i List.mem_cons_self fuel depth false (encodeItems items ++ rest) (by omega)
    have hrest := ih rest (fun j hj => hreads j (List.mem_cons_of_mem i hj)) (show _ ≤ fuel by omega)
    rw [encodeItems, List.append_assoc, List.length_cons, readItems, readings, hfirst]
    cases i.reading depth false with
    | none => rfl
    | some j =>
      simp only [Option.map_some, Option.bind_eq_bind, Option.bind_some, hrest]
      cases readings depth items <;> rfl

/-- Reading keys and values one after the other, if each of them is read. -/
theorem readItems_encodeEntries {depth : Nat} : ∀ {entries : List (Item × Item)} {fuel : Nat} (rest : Text),
    (∀ e ∈ entries, e.1.Reads ∧ e.2.Reads) → 2 * (encodeEntries entries).length + 1 ≤ fuel →
    readItems fuel depth (2 * entries.length) (encodeEntries entries ++ rest) =
      (entryReadings depth entries).map fun es => (flatten es, rest) := by
  intro entries
  induction entries with
  | nil => intro fuel rest _ _; rw [List.length_nil, Nat.mul_zero, readItems]; rfl
  | cons e entries ih =>
    intro fuel rest hreads hfuel
    obtain ⟨k, v⟩ := e
    have hk := k.length_encode_pos
    have hv := v.length_encode_pos
    rw [encodeEntries, List.length_append, List.length_append] at hfuel
    -- a key and a value take two steps
    obtain ⟨fuel, rfl⟩ : ∃ f, fuel = f + 1 + 1 := ⟨fuel - 2, by omega⟩
    obtain ⟨hreadsk, hreadsv⟩ : k.Reads ∧ v.Reads := hreads (k, v) List.mem_cons_self
    have hkey := hreadsk (fuel + 1) depth false (v.encode ++ (encodeEntries entries ++ rest)) (by omega)
    have hvalue := hreadsv fuel depth false (encodeEntries entries ++ rest) (by omega)
    have hrest := ih rest (fun j hj => hreads j (List.mem_cons_of_mem _ hj)) (show _ ≤ fuel by omega)
    rw [encodeEntries, List.append_assoc, List.append_assoc, List.length_cons,
      show 2 * (entries.length + 1) = 2 * entries.length + 1 + 1 by ring, readItems, entryReadings, hkey]
    cases k.reading depth false with
    | none => rfl
    | some k' =>
      simp only [Option.map_some, Option.bind_eq_bind, Option.bind_some]
      rw [readItems, hvalue]
      cases v.reading depth false with
      | none => rfl
      | some v' =>
        simp only [Option.map_some, Option.bind_eq_bind, Option.bind_some, hrest]
        cases entryReadings depth entries <;> rfl

theorem sizedItems_iff {items : List Item} : SizedItems items ↔ ∀ i ∈ items, i.Sized := by
  induction items with
  | nil => simp [SizedItems]
  | cons i rest ih => rw [SizedItems, ih, List.forall_mem_cons]

theorem sizedEntries_iff {entries : List (Item × Item)} :
    SizedEntries entries ↔ ∀ e ∈ entries, e.1.Sized ∧ e.2.Sized := by
  induction entries with
  | nil => simp [SizedEntries]
  | cons e rest ih => rw [SizedEntries, ih, List.forall_mem_cons, and_assoc]

theorem collectionItem_array {items : List Item} (h : ¬ maxElements < items.length) :
    collectionItem 4 items = some (.array items) := by
  rw [collectionItem, if_pos rfl, if_neg h]

/-- Items in turn are the keys and values of a map, if there are not too many. -/
theorem collectionItem_map {entries : List (Item × Item)} (h : ¬ maxElements < entries.length) :
    collectionItem 5 (flatten entries) = some (.map entries) := by
  rw [collectionItem, if_neg (by decide), pairs?_flatten]
  exact if_neg h

/-- An array is read if its items are: the depth is checked first, and the number of items afterwards. -/
theorem reads_array {items : List Item} (hlength : items.length < 2 ^ 64) (hitems : ∀ i ∈ items, i.Reads) :
    (Item.array items).Reads := by
  intro fuel depth tagged rest hfuel
  have hpos := length_head_pos 4 items.length
  rw [Item.encode, List.length_append] at hfuel
  obtain ⟨fuel, rfl⟩ : ∃ f, fuel = f + 1 := ⟨fuel - 1, by omega⟩
  rw [Item.encode, List.append_assoc, readItem, readHead_below (by decide) hlength, Item.reading]
  simp only [Option.bind_eq_bind, Option.bind_some, Bool.or_eq_true, decide_eq_true_eq, if_true]
  by_cases hlimit : maxDepth ≤ depth ∨ maxElements < items.length
  · rw [if_pos hlimit, if_pos hlimit]
    rfl
  · rw [if_neg hlimit, if_neg hlimit, readItems_encode rest hitems (show _ ≤ fuel by omega)]
    cases hreadings : readings (depth + 1) items with
    | none => rfl
    | some js =>
      have hjs : collectionItem 4 js = some (.array js) :=
        collectionItem_array (by rw [length_readings hreadings]; omega)
      simp only [Option.map_some, Option.bind_some, hjs]

/-- A map is read if its keys and values are, one after the other. -/
theorem reads_map {entries : List (Item × Item)} (hlength : entries.length < 2 ^ 64)
    (hentries : ∀ e ∈ entries, e.1.Reads ∧ e.2.Reads) : (Item.map entries).Reads := by
  intro fuel depth tagged rest hfuel
  have hpos := length_head_pos 5 entries.length
  rw [Item.encode, List.length_append] at hfuel
  obtain ⟨fuel, rfl⟩ : ∃ f, fuel = f + 1 := ⟨fuel - 1, by omega⟩
  rw [Item.encode, List.append_assoc, readItem, readHead_below (by decide) hlength, Item.reading]
  simp only [Option.bind_eq_bind, Option.bind_some, Bool.or_eq_true, decide_eq_true_eq]
  by_cases hlimit : maxDepth ≤ depth ∨ maxElements < entries.length
  · rw [if_pos hlimit, if_pos hlimit]
    rfl
  · rw [if_neg hlimit, if_neg hlimit, if_neg (by decide),
      readItems_encodeEntries rest hentries (show _ ≤ fuel by omega)]
    cases hreadings : entryReadings (depth + 1) entries with
    | none => rfl
    | some es =>
      have hes : collectionItem 5 (flatten es) = some (.map es) :=
        collectionItem_map (by rw [length_entryReadings hreadings]; omega)
      simp only [Option.map_some, Option.bind_some, hes]

/-- A tag is read if its content is, which knows that it stands in a tag. -/
theorem reads_tag {n : Nat} {content : Item} (hn : n < 2 ^ 64) (hcontent : content.Reads) :
    (Item.tag n content).Reads := by
  intro fuel depth tagged rest hfuel
  have hpos := length_head_pos 6 n
  rw [Item.encode, List.length_append] at hfuel
  obtain ⟨fuel, rfl⟩ : ∃ f, fuel = f + 1 := ⟨fuel - 1, by omega⟩
  rw [Item.encode, List.append_assoc, readItem, readHead_below (by decide) hn, Item.reading]
  simp only [Option.bind_eq_bind, Option.bind_some]
  generalize (if tagged then depth + 1 else depth) = inner
  split
  · rfl
  · rw [hcontent fuel inner true rest (by omega)]
    cases content.reading inner true <;> rfl

/-- An item without parts needs a single step. -/
theorem reads_leaf {i : Item} (h : ∀ (fuel depth : Nat) (tagged : Bool) (rest : Text),
    readItem (fuel + 1) depth tagged (i.encode ++ rest) = (i.reading depth tagged).map (·, rest)) :
    i.Reads := by
  intro fuel depth tagged rest hfuel
  have hpos := i.length_encode_pos
  obtain ⟨fuel, rfl⟩ : ∃ f, fuel = f + 1 := ⟨fuel - 1, by omega⟩
  exact h fuel depth tagged rest

/-- A number of fixed width. -/
theorem reads_number {i : Item} (info width : Nat) {n : Nat} (hinfo : 24 < info ∧ info < 28)
    (hn : n < 256 ^ width) (hencode : i.encode = UInt8.ofNat (32 * 7 + info) :: bigEndian width n)
    (hargument : ∀ t, readArgument info t = (takeNumber width t).map fun r => (some r.1, r.2))
    (hitem : simpleItem info n = i) (hreading : ∀ depth tagged, i.reading depth tagged = some i) :
    i.Reads := by
  refine reads_leaf fun fuel depth tagged rest => ?_
  have hhead : readHead (i.encode ++ rest) = some (⟨7, info, some n⟩, rest) := by
    rw [hencode, List.cons_append]
    refine readHead_cons (by decide) (by omega) ?_ ?_
    · rw [hargument, takeNumber_bigEndian hn]
      rfl
    · have : info ≠ 24 := by omega
      simp [Head.isAdmissible, this]
  rw [readItem, hhead, hreading]
  simp only [Option.bind_eq_bind, Option.bind_some, hitem, Option.map_some]

/-- A simple value has a short head. -/
theorem simpleItem_headInfo {n : Nat} (h : n < 24 ∨ 32 ≤ n ∧ n < 256) :
    simpleItem (headInfo n) n = .simple n := by
  have hinfo : headInfo n < 25 := by
    rw [headInfo]
    split_ifs <;> omega
  rw [simpleItem, if_neg (by omega), if_neg (by omega), if_neg (by omega)]

/-- Items are smaller than their array, so that the induction may go on with them. -/
theorem sizeOf_lt_array {items : List Item} {i : Item} (hi : i ∈ items) :
    sizeOf i < sizeOf (Item.array items) := by
  have := List.sizeOf_lt_of_mem hi
  rw [Item.array.sizeOf_spec]
  omega

theorem sizeOf_lt_map {entries : List (Item × Item)} {e : Item × Item} (he : e ∈ entries) :
    sizeOf e.1 < sizeOf (Item.map entries) ∧ sizeOf e.2 < sizeOf (Item.map entries) := by
  have := List.sizeOf_lt_of_mem he
  have hpair : sizeOf e = 1 + sizeOf e.1 + sizeOf e.2 := rfl
  rw [Item.map.sizeOf_spec]
  omega

/-- **An encoded item is read as `Item.reading` says.** -/
theorem reads_of_sized : ∀ i : Item, i.Sized → i.Reads := by
  intro i hs
  cases i with
  | unsigned n =>
    refine reads_leaf fun fuel depth tagged rest => ?_
    rw [Item.encode, readItem, readHead_below (by decide) hs]
    rfl
  | negative n =>
    refine reads_leaf fun fuel depth tagged rest => ?_
    rw [Item.encode, readItem, readHead_below (by decide) hs]
    rfl
  | bytes b =>
    refine reads_leaf fun fuel depth tagged rest => ?_
    rw [Item.encode, List.append_assoc, readItem, readHead_below (by decide) hs]
    simp only [Option.bind_eq_bind, Option.bind_some, takeExactly_append, stringItem]
    simp [Item.reading]
  | text t =>
    refine reads_leaf fun fuel depth tagged rest => ?_
    rw [Item.encode, List.append_assoc, readItem, readHead_below (by decide) hs]
    simp only [Option.bind_eq_bind, Option.bind_some, takeExactly_append, stringItem]
    simp [Item.reading]
  | garbled =>
    refine reads_leaf fun fuel depth tagged rest => ?_
    rw [Item.encode, List.append_assoc, readItem, readHead_below (by decide) (by decide)]
    rfl
  -- Items inside are read by the theorem itself, since they are smaller.
  | array items =>
    obtain ⟨hlength, hitems⟩ := hs
    exact reads_array hlength fun i hi => reads_of_sized i (sizedItems_iff.mp hitems i hi)
  | map entries =>
    obtain ⟨hlength, hentries⟩ := hs
    exact reads_map hlength fun e he => ⟨reads_of_sized e.1 (sizedEntries_iff.mp hentries e he).1,
      reads_of_sized e.2 (sizedEntries_iff.mp hentries e he).2⟩
  | tag n content => exact reads_tag hs.1 (reads_of_sized content hs.2)
  | simple n =>
    have hs : n < 24 ∨ 32 ≤ n ∧ n < 256 := hs
    refine reads_leaf fun fuel depth tagged rest => ?_
    rw [Item.encode, readItem, readHead_head (by decide) (by omega) (by omega)]
    simp only [Option.bind_eq_bind, Option.bind_some, simpleItem_headInfo hs]
    rfl
  | half b =>
    exact reads_number 25 2 (by decide) b.toNat_lt rfl (fun t => rfl) (by simp [simpleItem])
      fun depth tagged => rfl
  | single b =>
    exact reads_number 26 4 (by decide) b.toNat_lt rfl (fun t => rfl) (by simp [simpleItem])
      fun depth tagged => rfl
  | double b =>
    exact reads_number 27 8 (by decide) b.toNat_lt rfl (fun t => rfl) (by simp [simpleItem])
      fun depth tagged => rfl
termination_by i => sizeOf i
decreasing_by
  all_goals subst_vars
  · exact sizeOf_lt_array hi
  · exact (sizeOf_lt_map he).1
  · exact (sizeOf_lt_map he).2
  · rw [Item.tag.sizeOf_spec]
    omega

/-- **Parsing the encoding of an item gives its reading**, as nothing is left behind it. -/
theorem parse?_encode {i : Item} (hs : i.Sized) : Item.parse? i.encode = i.reading 0 false := by
  have hread := reads_of_sized i hs (3 * i.encode.length + 3) 0 false [] (by omega)
  rw [List.append_nil] at hread
  rw [Item.parse?, hread]
  cases i.reading 0 false <;> rfl

end ShadeGraph.Cbor
