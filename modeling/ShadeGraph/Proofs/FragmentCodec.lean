/-
  What a stored fragment keeps.

  1. A key that stands for a field stands for one that was not there before (`locate_new`), so that fields
     that were read stay as they are (`entries_kept`).
  2. No length in an encoding of less than `2 ^ 64` bytes is too large for its head (`Bounded`).
  3. The name and the texts of a fragment are the first entries of its encoding.  Bytes that are no UTF-8
     make it unreadable; a fragment that is read back has them as they were (`decode_encode_files`).
  4. Numbered fields fill in a record like named ones.  A fragment whose texts are well-formed, whose values
     are lossless and whose parameters are not too many comes back as it was (`decode_encode`).
-/
import ShadeGraph.Fragment.Codec
import ShadeGraph.Proofs.CborRecord
import ShadeGraph.Proofs.GraphCodec

namespace ShadeGraph

namespace Cbor

/-! ## Fields that are read once -/

/-- The field that is found is one that was not seen yet. -/
theorem findNew_new {p : FieldKey → Bool} {seen : List Nat} {keys : List FieldKey} {i : Nat}
    (h : FieldKey.findNew p seen keys = some i) : i ∉ seen := by
  have hfound := List.find?_some h
  rw [Bool.and_eq_true, Bool.not_eq_true', List.contains_eq_mem, decide_eq_false_iff_not] at hfound
  exact hfound.1

/-- A field that was there before is passed over. -/
theorem locate_new {ε : Type} {keys : List FieldKey} {seen : List Nat} {k : Item} {i : Nat}
    (h : FieldKey.locate keys seen k = (.ok (some i) : Decoded ε (Option Nat))) : i ∉ seen := by
  unfold FieldKey.locate at h
  split at h
  · split at h
    · next hfound =>
      cases h
      exact findNew_new hfound
    · exact findNew_new (Except.ok.inj h)
  · exact findNew_new (Except.ok.inj h)
  · split at h
    · exact findNew_new (Except.ok.inj h)
    · cases h
  · cases h

section

variable {ε ρ : Type} {keys : List FieldKey} {set : Nat → Item → ρ → Decoded ε ρ} {P : ρ → Prop}

/-- What all other fields keep holds until the end once some fields are there. -/
theorem entries_kept {used : List Nat}
    (hset : ∀ {i : Nat} {v : Item} {r r' : ρ}, i ∉ used → P r → set i v r = .ok r' → P r')
    {es : List (Item × Item)} {seen : List Nat} {r r' : ρ} (hseen : used ⊆ seen) (hr : P r)
    (h : Decode.entries keys set seen es r = .ok r') : P r' := by
  induction es generalizing seen r with
  | nil =>
    cases h
    exact hr
  | cons e es ih =>
    rw [Decode.entries] at h
    split at h
    · cases h
    · exact ih hseen hr h
    · next i hi =>
      have hnew : i ∉ used := fun hmem => locate_new hi (hseen hmem)
      split at h
      · cases h
      · next r₁ hr₁ => exact ih (List.subset_cons_of_subset i hseen) (hset hnew hr hr₁) h

/-- The entry of a numbered field is read first, and then the rest. -/
theorem entries_numbered {n i : Nat} {v : Item} {seen : List Nat} {es : List (Item × Item)} {r r' : ρ}
    (hkey : keys.findIdx? (·.number == some (SignedWord.wrap n)) = some i) (hseen : i ∉ seen)
    (h : Decode.entries keys set seen ((.unsigned n, v) :: es) r = .ok r') :
    ∃ r₁, set i v r = .ok r₁ ∧ Decode.entries keys set (i :: seen) es r₁ = .ok r' := by
  rw [Decode.entries, locate_numbered hkey hseen] at h
  dsimp only at h
  split at h
  · cases h
  · next r₁ hr₁ => exact ⟨r₁, hr₁, h⟩

end

/-- What is read when a text was written. -/
def textReading (t : Text) : Item := if t.isUtf8 then .text t else .garbled

/-- A text that was written and is read is the same. -/
theorem text_textReading {ε : Type} {t u : Text} (h : Decode.text (textReading t) = (.ok u : Decoded ε Text)) :
    u = t := by
  unfold textReading at h
  split at h
  · exact (Except.ok.inj h).symm
  · cases h

theorem entryReadings_text (depth n : Nat) (t : Text) (rest : List (Item × Item)) :
    entryReadings depth (numberedEntry n (.text t) ++ rest) =
      (entryReadings depth rest).map ((.unsigned n, textReading t) :: ·) := rfl

/-! ## Short encodings -/

/-- An item of which all lengths fit into a head if its encoding is shorter than any that would not. -/
def Item.Bounded (i : Item) : Prop := i.encode.length < 2 ^ 64 → i.Sized

/-- The bytes of a text stand in its encoding, so there are no more of them than fit a head. -/
theorem bounded_text (t : Text) : (Item.text t).Bounded := by
  intro h
  rw [Item.encode, List.length_append] at h
  show t.length < 2 ^ 64
  omega

theorem bounded_bool (b : Bool) : (Item.bool b).Bounded :=
  fun _ => (intact_bool b : (Item.bool b).Intact 0).sized

/-- An array has no more items than bytes in its encoding, because every item takes one at least. -/
theorem bounded_array {items : List Item} (h : ∀ i ∈ items, i.Bounded) : (Item.array items).Bounded := by
  have hitems (items : List Item) (h : ∀ i ∈ items, i.Bounded) (hlength : (encodeItems items).length < 2 ^ 64) :
      items.length ≤ (encodeItems items).length ∧ SizedItems items := by
    induction items with
    | nil => exact ⟨Nat.zero_le _, trivial⟩
    | cons i items ih =>
      obtain ⟨hi, hrest⟩ := List.forall_mem_cons.mp h
      have hpos := i.length_encode_pos
      rw [encodeItems, List.length_append] at hlength
      obtain ⟨hcount, hsized⟩ := ih hrest (by omega)
      rw [encodeItems, List.length_append, List.length_cons]
      exact ⟨by omega, hi (by omega), hsized⟩
  intro hlength
  rw [Item.encode, List.length_append] at hlength
  obtain ⟨hcount, hsized⟩ := hitems items h (by omega)
  exact ⟨by omega, hsized⟩

/-- Keys and values that are sized as soon as their encodings are. -/
def BoundedEntries (es : List (Item × Item)) : Prop := ∀ e ∈ es, e.1.Bounded ∧ e.2.Bounded

/-- The same holds of a map: every entry takes a byte at least. -/
theorem bounded_map {es : List (Item × Item)} (h : BoundedEntries es) : (Item.map es).Bounded := by
  have hentries (es : List (Item × Item)) (h : BoundedEntries es)
      (hlength : (encodeEntries es).length < 2 ^ 64) :
      es.length ≤ (encodeEntries es).length ∧ SizedEntries es := by
    induction es with
    | nil => exact ⟨Nat.zero_le _, trivial⟩
    | cons e es ih =>
      obtain ⟨⟨hkey, hvalue⟩, hrest⟩ := List.forall_mem_cons.mp h
      have hpos := e.1.length_encode_pos
      rw [encodeEntries, List.length_append, List.length_append] at hlength
      obtain ⟨hcount, hsized⟩ := ih hrest (by omega)
      rw [encodeEntries, List.length_append, List.length_append, List.length_cons]
      exact ⟨by omega, hkey (by omega), hvalue (by omega), hsized⟩
  intro hlength
  rw [Item.encode, List.length_append] at hlength
  obtain ⟨hcount, hsized⟩ := hentries es h (by omega)
  exact ⟨by omega, hsized⟩

section

variable {es es' : List (Item × Item)} {v : Item}

theorem boundedEntries_nil : BoundedEntries [] := fun e he => by cases he

/-- Entries behind others. -/
theorem BoundedEntries.append (h : BoundedEntries es) (h' : BoundedEntries es') : BoundedEntries (es ++ es') := by
  intro e he
  rcases List.mem_append.mp he with he | he
  · exact h e he
  · exact h' e he

/-- An entry under a number. -/
theorem boundedEntries_numbered {n : Nat} (hn : n < 2 ^ 64) (hv : v.Bounded) :
    BoundedEntries (numberedEntry n v) := by
  intro e he
  obtain rfl := List.mem_singleton.mp he
  exact ⟨fun _ => hn, hv⟩

/-- A flag that is not set has no entry. -/
theorem boundedEntries_flag {n : Nat} (hn : n < 2 ^ 64) (b : Bool) : BoundedEntries (flagEntry n b) := by
  unfold flagEntry
  split
  · exact boundedEntries_numbered hn (bounded_bool true)
  · exact boundedEntries_nil

theorem boundedEntries_entry {name : Text} (hv : v.Bounded) : BoundedEntries (entry name v) := by
  intro e he
  obtain rfl := List.mem_singleton.mp he
  exact ⟨bounded_text name, hv⟩

end

end Cbor

section

open Cbor

/-- The item of a value has lengths that fit, as soon as its encoding does. -/
theorem Value.bounded_toItem (v : Value) : v.toItem.Bounded := by
  refine bounded_map (((BoundedEntries.append ?_ ?_).append ?_).append ?_)
  · split
    · exact boundedEntries_entry (bounded_bool true)
    · exact boundedEntries_nil
  · split
    · exact boundedEntries_nil
    · unfold listEntry
      split
      · exact boundedEntries_nil
      · refine boundedEntries_entry (bounded_array fun i hi => ?_)
        obtain ⟨x, _, rfl⟩ := List.mem_map.mp hi
        exact fun _ => (x.intact_toItem 0).sized
  · unfold textEntry
    split
    · exact boundedEntries_nil
    · exact boundedEntries_entry (bounded_text v.text)
  · exact boundedEntries_entry fun _ => (v.type.intact_toItem 0).sized

/-- So has that of a parameter. -/
theorem FragmentParameter.bounded_toItem (p : FragmentParameter) : p.toItem.Bounded := by
  refine bounded_map ((((BoundedEntries.append ?_ ?_).append ?_).append ?_).append ?_)
  · exact boundedEntries_numbered (by decide) (bounded_text p.name)
  · exact boundedEntries_numbered (by decide) (bounded_text p.ident)
  · exact boundedEntries_numbered (by decide) fun _ => (p.type.intact_toItem 0).sized
  · cases p.value with
    | none => exact boundedEntries_nil
    | some v => exact boundedEntries_numbered (by decide) v.bounded_toItem
  · exact boundedEntries_flag (by decide) p.hostBound

/-- **No length of a fragment is too large for its head** if its encoding fits into memory. -/
theorem Fragment.bounded_toItem (f : Fragment) : f.toItem.Bounded := by
  refine bounded_map ((((((BoundedEntries.append ?_ ?_).append ?_).append ?_).append ?_).append ?_).append ?_)
  · exact boundedEntries_numbered (by decide) (bounded_text f.name)
  · exact boundedEntries_numbered (by decide) (bounded_text f.functionName)
  · exact boundedEntries_numbered (by decide) (bounded_text f.pixel)
  · exact boundedEntries_numbered (by decide) (bounded_text f.uniforms)
  · unfold parametersEntry
    split
    · exact boundedEntries_nil
    · refine boundedEntries_numbered (by decide) (bounded_array fun i hi => ?_)
      obtain ⟨p, _, rfl⟩ := List.mem_map.mp hi
      exact p.bounded_toItem
  · exact boundedEntries_flag (by decide) f.transparent
  · exact boundedEntries_numbered (by decide) fun _ => (intact_int f.api.version 0).sized

end

/-! ## The files of a fragment -/

namespace Fragment

open Cbor (Item entries_numbered entryReadings_text text_textReading textReading)

/-- The fragments have the same files: their name, their code and their uniforms. -/
def SameFiles (f f' : Fragment) : Prop := f'.name = f.name ∧ f'.pixel = f.pixel ∧ f'.uniforms = f.uniforms

/-- Fields behind the texts leave those as they are. -/
theorem setField_sameFiles {f : Fragment} {i : Nat} {v : Item} {r r' : Fragment} (hi : i ∉ [3, 2, 1, 0])
    (hr : SameFiles f r) (h : setField i v r = .ok r') : SameFiles f r' := by
  unfold setField at h
  split at h
  iterate 4 simp at hi
  all_goals
    obtain ⟨_, _, rfl⟩ := bind_pure_eq_ok.mp h
    exact hr

/-- The encoding of a fragment is read as a map that starts with its texts. -/
theorem exists_entries {f f' : Fragment} (hlength : f.encode.length < 2 ^ 64) (h : decode f.encode = .ok f') :
    ∃ es, Cbor.Decode.entries (Cbor.numberedKeys 7) setField []
      ((.unsigned 1, textReading f.name) :: (.unsigned 2, textReading f.functionName) ::
        (.unsigned 3, textReading f.pixel) :: (.unsigned 4, textReading f.uniforms) :: es) blank = .ok f' := by
  rw [decode, encode, Cbor.parse?_encode (f.bounded_toItem hlength), toItem, Item.reading] at h
  split at h
  · cases h
  · next item hitem =>
    split at hitem
    · cases hitem
    · simp only [List.append_assoc, entryReadings_text, Option.map_map, Option.map_eq_some_iff] at hitem
      obtain ⟨es, _, rfl⟩ := hitem
      exact ⟨es, h⟩

/-- A fragment that is read back has the files of the one that was written. -/
theorem decode_encode_files {f f' : Fragment} (hlength : f.encode.length < 2 ^ 64) (h : decode f.encode = .ok f') :
    SameFiles f f' := by
  obtain ⟨es, h⟩ := exists_entries hlength h
  obtain ⟨r₁, hset, h⟩ := entries_numbered (i := 0) (by decide) (by decide) h
  obtain ⟨name, hname, rfl⟩ := bind_pure_eq_ok.mp hset
  obtain ⟨r₂, hset, h⟩ := entries_numbered (i := 1) (by decide) (by decide) h
  obtain ⟨functionName, -, rfl⟩ := bind_pure_eq_ok.mp hset
  obtain ⟨r₃, hset, h⟩ := entries_numbered (i := 2) (by decide) (by decide) h
  obtain ⟨pixel, hpixel, rfl⟩ := bind_pure_eq_ok.mp hset
  obtain ⟨r₄, hset, h⟩ := entries_numbered (i := 3) (by decide) (by decide) h
  obtain ⟨uniforms, huniforms, rfl⟩ := bind_pure_eq_ok.mp hset
  have hfiles : SameFiles f ⟨name, functionName, pixel, uniforms, [], false, ⟨0⟩⟩ :=
    ⟨text_textReading hname, text_textReading hpixel, text_textReading huniforms⟩
  exact Cbor.entries_kept setField_sameFiles (List.Subset.refl _) hfiles h

end Fragment

/-! ## Fields that are known by numbers -/

namespace Cbor

section

variable {ε ρ : Type} {keys : List FieldKey} {set : Nat → Item → ρ → Decoded ε ρ} {used : List Nat}
  {r r' : ρ} {n i depth : Nat} {v : Item}

/-- A numbered field is filled in like a named one. -/
theorem fills_numbered (hkey : keys.findIdx? (·.number == some (SignedWord.wrap n)) = some i) (hi : i ∉ used)
    (hset : set i v r = .ok r') : Fills keys set used (i :: used) (numberedEntry n v) r r' :=
  fills_field hi (fun _ hseen => locate_numbered hkey hseen) hset

/-- A truth value that is left out is one that is false already. -/
theorem fills_flag {b : Bool} (hkey : keys.findIdx? (·.number == some (SignedWord.wrap n)) = some i)
    (hi : i ∉ used) (hset : b = true → set i (.bool true) r = .ok r') (habsent : b = false → r = r') :
    Fills keys set used (i :: used) (flagEntry n b) r r' := by
  cases b with
  | true => exact fills_numbered hkey hi (hset rfl)
  | false => rw [habsent rfl]; exact fills_nothing i

theorem fit_numbered (hn : n < 2 ^ 64) (hv : v.Intact depth) : Fit depth 1 (numberedEntry n v) := by
  refine ⟨Nat.le_refl 1, fun e he => ?_⟩
  obtain rfl := List.mem_singleton.mp he
  exact ⟨intact_unsigned hn, hv⟩

theorem fit_flag (hn : n < 2 ^ 64) (b : Bool) : Fit depth 1 (flagEntry n b) := by
  cases b with
  | true => exact fit_numbered hn (intact_bool true)
  | false => exact fit_nil

end

end Cbor

/-! ## Fragments that come back as they were -/

open Cbor (Item Decoded Fills Fit StorableText)

namespace LightApi

/-- The version of lighting is written as a signed number and read as such, whatever its value is. -/
theorem ofItem_toItem {ε : Type} (a : LightApi) : ofItem a.toItem = (.ok a : Decoded ε LightApi) := by
  have hlow := a.version.le_toInt
  have hhigh := a.version.toInt_lt
  have hinteger : Cbor.Decode.integer SignedWord.least SignedWord.greatest a.toItem =
      (.ok a.version.toInt : Decoded ε Int) := by
    have hitem : a.toItem.integer? = some a.version.toInt := by
      unfold toItem
      cases hversion : a.version.toInt with
      | ofNat n => rfl
      | negSucc n =>
        show (if n < 0x8000000000000000 then some (-1 - (n : Int)) else none) = _
        rw [if_pos (by omega)]
        congr 1
        omega
    have huntagged : a.toItem.untagged = (.ok a.toItem : Decoded ε Item) := by
      unfold toItem
      cases a.version.toInt <;> rfl
    simp only [Cbor.Decode.integer, huntagged, bind, Except.bind, hitem]
    exact if_pos ⟨by rw [SignedWord.least]; omega, by rw [SignedWord.greatest]; omega⟩
  rw [ofItem, hinteger]
  show Except.ok (LightApi.mk (Int64.ofInt a.version.toInt)) = _
  rw [Int64.ofInt_toInt]

theorem intact_toItem (a : LightApi) (depth : Nat) : a.toItem.Intact depth :=
  Cbor.intact_int a.version depth

end LightApi

namespace FragmentParameter

/-- All texts of a parameter. -/
def texts (p : FragmentParameter) : List Text := p.name :: p.ident :: valueTexts p.value

/-- The parameter as it is after writing and reading. -/
def settled (p : FragmentParameter) : FragmentParameter := { p with value := p.value.map Value.settled }

/-- The record of a parameter. -/
theorem intact_toItem {p : FragmentParameter} (htexts : ∀ t ∈ p.texts, StorableText t) {depth : Nat}
    (hdepth : depth + 2 < Cbor.maxDepth) : p.toItem.Intact depth := by
  simp only [texts, List.forall_mem_cons] at htexts
  obtain ⟨hname, hident, htexts⟩ := htexts
  have hentry : Fit (depth + 1) 1 (valueEntry p.value) := by
    cases hp : p.value with
    | none => exact Cbor.fit_nil
    | some v =>
      have htext : StorableText v.text := htexts v.text (by rw [hp]; exact List.mem_singleton.mpr rfl)
      exact Cbor.fit_numbered (by decide) (Value.intact_toItem htext hdepth)
  rw [toItem]
  exact (((((Cbor.fit_numbered (by decide) (Cbor.intact_text hname)).append
    (Cbor.fit_numbered (by decide) (Cbor.intact_text hident))).append
    (Cbor.fit_numbered (by decide) (p.type.intact_toItem _))).append hentry).append
    (Cbor.fit_flag (by decide) p.hostBound)).map (by omega) (by decide)

/-- Reading the record of a parameter gives it with its value settled. -/
theorem ofItem_toItem {p : FragmentParameter} (hvalue : ∀ v ∈ p.value, v.type.isDefined = true) :
    ofItem p.toItem = .ok p.settled := by
  have hname : Fills (Cbor.numberedKeys 5) setField [] [0] (Cbor.numberedEntry 1 (.text p.name))
      ⟨[], [], .none, none, false⟩ ⟨p.name, [], .none, none, false⟩ :=
    Cbor.fills_numbered rfl (by decide) rfl
  have hident : Fills (Cbor.numberedKeys 5) setField [0] [1, 0] (Cbor.numberedEntry 2 (.text p.ident))
      ⟨p.name, [], .none, none, false⟩ ⟨p.name, p.ident, .none, none, false⟩ :=
    Cbor.fills_numbered rfl (by decide) rfl
  have htype : Fills (Cbor.numberedKeys 5) setField [1, 0] [2, 1, 0] (Cbor.numberedEntry 3 p.type.toItem)
      ⟨p.name, p.ident, .none, none, false⟩ ⟨p.name, p.ident, p.type, none, false⟩ :=
    Cbor.fills_numbered rfl (by decide) (by rw [setField, DataType.ofItem_toItem]; rfl)
  have hvalue : Fills (Cbor.numberedKeys 5) setField [2, 1, 0] [3, 2, 1, 0] (valueEntry p.value)
      ⟨p.name, p.ident, p.type, none, false⟩
      ⟨p.name, p.ident, p.type, p.value.map Value.settled, false⟩ := by
    cases hp : p.value with
    | none => exact Cbor.fills_nothing 3
    | some v =>
      refine Cbor.fills_numbered rfl (by decide) ?_
      rw [setField, optional_toItem (hvalue v hp)]
      rfl
  have hflag : Fills (Cbor.numberedKeys 5) setField [3, 2, 1, 0] [4, 3, 2, 1, 0]
      (Cbor.flagEntry 5 p.hostBound) ⟨p.name, p.ident, p.type, p.value.map Value.settled, false⟩
      p.settled :=
    Cbor.fills_flag rfl (by decide) (fun hb => by rw [settled, hb]; rfl) (fun hb => by rw [settled, hb])
  exact Cbor.record_map ((((hname.trans hident).trans htype).trans hvalue).trans hflag)

end FragmentParameter

namespace Fragment

/-- All texts of a fragment. -/
def texts (f : Fragment) : List Text :=
  f.name :: f.functionName :: f.pixel :: f.uniforms :: f.parameters.flatMap FragmentParameter.texts

/-- All values of a fragment. -/
def values (f : Fragment) : List Value := f.parameters.filterMap FragmentParameter.value

/-- A fragment that can be stored: its texts are well-formed, its values lossless and its parameters not too
many to be read. -/
structure Storable (f : Fragment) : Prop where
  texts : ∀ t ∈ f.texts, t.isUtf8 = true ∧ t.length < 2 ^ 64
  values : ∀ v ∈ f.values, v.Lossless
  parameters : f.parameters.length ≤ Cbor.maxElements

namespace Storable

variable {f : Fragment} {p : FragmentParameter}

/-- What is stored of a fragment is stored of its parameters. -/
theorem parameter_texts (h : f.Storable) (hp : p ∈ f.parameters) : ∀ t ∈ p.texts, StorableText t := by
  intro t ht
  refine h.texts t ?_
  simp only [Fragment.texts, List.mem_cons, List.mem_flatMap]
  exact Or.inr (Or.inr (Or.inr (Or.inr ⟨p, hp, ht⟩)))

theorem parameter_value (h : f.Storable) (hp : p ∈ f.parameters) : ∀ v ∈ p.value, v.Lossless :=
  fun v hv => h.values v (List.mem_filterMap.mpr ⟨p, hp, hv⟩)

/-- Lossless values are settled already. -/
theorem settled_parameter (h : f.Storable) (hp : p ∈ f.parameters) : p.settled = p := by
  have hvalue : p.value.map Value.settled = p.value := by
    cases hv : p.value with
    | none => rfl
    | some v => exact congrArg some (h.parameter_value hp v hv).settled_eq
  rw [FragmentParameter.settled, hvalue]

/-- The record of a fragment is read just as it was written. -/
theorem intact_toItem (h : f.Storable) : f.toItem.Intact 0 := by
  have htexts := h.texts
  simp only [Fragment.texts, List.forall_mem_cons] at htexts
  obtain ⟨hname, hfunction, hpixel, huniforms, _⟩ := htexts
  have hparameters : Fit 1 1 (parametersEntry f.parameters) := by
    unfold parametersEntry
    split
    · exact Cbor.fit_nil
    · refine Cbor.fit_numbered (by decide) (Cbor.intact_array (by decide) ?_ fun i hi => ?_)
      · rw [List.length_map]
        exact h.parameters
      · obtain ⟨p, hp, rfl⟩ := List.mem_map.mp hi
        exact FragmentParameter.intact_toItem (h.parameter_texts hp) (by decide)
  rw [toItem]
  exact (((((((Cbor.fit_numbered (by decide) (Cbor.intact_text hname)).append
    (Cbor.fit_numbered (by decide) (Cbor.intact_text hfunction))).append
    (Cbor.fit_numbered (by decide) (Cbor.intact_text hpixel))).append
    (Cbor.fit_numbered (by decide) (Cbor.intact_text huniforms))).append hparameters).append
    (Cbor.fit_flag (by decide) f.transparent)).append
    (Cbor.fit_numbered (by decide) (f.api.intact_toItem _))).map (by decide) (by decide)

/-- **Reading the record of a fragment gives it back**: seven fields are filled in one after the other. -/
theorem ofItem_toItem (h : f.Storable) : ofItem f.toItem = .ok f := by
  -- One field after the other is filled in, from a blank fragment on.
  have hname : Fills (Cbor.numberedKeys 7) setField [] [0] (Cbor.numberedEntry 1 (.text f.name)) blank
      { blank with name := f.name } := Cbor.fills_numbered rfl (by decide) rfl
  have hfunction : Fills (Cbor.numberedKeys 7) setField [0] [1, 0]
      (Cbor.numberedEntry 2 (.text f.functionName)) { blank with name := f.name }
      ⟨f.name, f.functionName, [], [], [], false, ⟨0⟩⟩ := Cbor.fills_numbered rfl (by decide) rfl
  have hpixel : Fills (Cbor.numberedKeys 7) setField [1, 0] [2, 1, 0] (Cbor.numberedEntry 3 (.text f.pixel))
      ⟨f.name, f.functionName, [], [], [], false, ⟨0⟩⟩
      ⟨f.name, f.functionName, f.pixel, [], [], false, ⟨0⟩⟩ := Cbor.fills_numbered rfl (by decide) rfl
  have huniforms : Fills (Cbor.numberedKeys 7) setField [2, 1, 0] [3, 2, 1, 0]
      (Cbor.numberedEntry 4 (.text f.uniforms)) ⟨f.name, f.functionName, f.pixel, [], [], false, ⟨0⟩⟩
      ⟨f.name, f.functionName, f.pixel, f.uniforms, [], false, ⟨0⟩⟩ :=
    Cbor.fills_numbered rfl (by decide) rfl
  have hparameters : Fills (Cbor.numberedKeys 7) setField [3, 2, 1, 0] [4, 3, 2, 1, 0]
      (parametersEntry f.parameters) ⟨f.name, f.functionName, f.pixel, f.uniforms, [], false, ⟨0⟩⟩
      ⟨f.name, f.functionName, f.pixel, f.uniforms, f.parameters, false, ⟨0⟩⟩ := by
    unfold parametersEntry
    split
    · next hnone =>
      rw [List.isEmpty_iff.mp hnone]
      exact Cbor.fills_nothing 4
    · refine Cbor.fills_numbered rfl (by decide) ?_
      have hlist := Cbor.list_array fun p hp =>
        FragmentParameter.ofItem_toItem fun v hv => (h.parameter_value hp v hv).defined
      rw [map_eq_self fun p hp => h.settled_parameter hp] at hlist
      simp only [setField, hlist]
      rfl
  have htransparent : Fills (Cbor.numberedKeys 7) setField [4, 3, 2, 1, 0] [5, 4, 3, 2, 1, 0]
      (Cbor.flagEntry 6 f.transparent)
      ⟨f.name, f.functionName, f.pixel, f.uniforms, f.parameters, false, ⟨0⟩⟩
      ⟨f.name, f.functionName, f.pixel, f.uniforms, f.parameters, f.transparent, ⟨0⟩⟩ :=
    Cbor.fills_flag rfl (by decide) (fun hb => by rw [hb]; rfl) (fun hb => by rw [hb])
  have hapi : Fills (Cbor.numberedKeys 7) setField [5, 4, 3, 2, 1, 0] [6, 5, 4, 3, 2, 1, 0]
      (Cbor.numberedEntry 7 f.api.toItem)
      ⟨f.name, f.functionName, f.pixel, f.uniforms, f.parameters, f.transparent, ⟨0⟩⟩ f := by
    refine Cbor.fills_numbered rfl (by decide) ?_
    simp only [setField, LightApi.ofItem_toItem]
    rfl
  exact Cbor.record_map
    ((((((hname.trans hfunction).trans hpixel).trans huniforms).trans hparameters).trans htransparent).trans hapi)

/-- **A fragment that can be stored comes back as it was.** -/
theorem decode_encode (h : f.Storable) : decode f.encode = .ok f := by
  rw [decode, encode, h.intact_toItem.parse?]
  exact h.ofItem_toItem

end Storable

end Fragment

end ShadeGraph
