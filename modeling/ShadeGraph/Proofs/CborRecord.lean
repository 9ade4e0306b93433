/-
  Records as maps.

  1. An item is `Intact` at a depth if it is read just as it was written; maps and arrays are intact if
     their parts are and there are not too many of them.
  2. A key is found under its name as long as its field was not there before (`locate_named`).
  3. `Fills` says that some entries take a record from one state to another, whatever stands behind them.
     Fields are put together one by one; one that is left out fills in what is there already.
-/
import ShadeGraph.Graph.Codec
import ShadeGraph.Proofs.Computation
import ShadeGraph.Proofs.CborReading

namespace ShadeGraph.Cbor

/-! ## Items that are read as they were written -/

/-- An item that fits into an encoding and is read as it is at a nesting depth. -/
structure Item.Intact (depth : Nat) (i : Item) : Prop where
  sized : i.Sized
  same : i.reading depth false = some i

/-- A text that can be stored: well-formed, and not too long for a head. -/
def StorableText (t : Text) : Prop := t.isUtf8 = true ∧ t.length < 2 ^ 64

instance (t : Text) : Decidable (StorableText t) :=
  inferInstanceAs (Decidable (t.isUtf8 = true ∧ t.length < 2 ^ 64))

section

variable {depth : Nat}

/-- A text that can be stored is read as it was written. -/
theorem intact_text {t : Text} (h : StorableText t) : (Item.text t).Intact depth := by
  refine ⟨h.2, ?_⟩
  rw [Item.reading, if_pos h.1]

theorem intact_unsigned {n : Nat} (h : n < 2 ^ 64) : (Item.unsigned n).Intact depth := ⟨h, rfl⟩

theorem intact_bool (b : Bool) : (Item.bool b).Intact depth := by
  cases b <;> exact ⟨Or.inl (by decide), rfl⟩

/-- An integer of a word is read as it was written, whatever its sign. -/
theorem intact_int (v : Int64) (depth : Nat) : (Item.int v.toInt).Intact depth := by
  have hlow := v.le_toInt
  have hhigh := v.toInt_lt
  cases hv : v.toInt with
  | ofNat n =>
    have hn : (n : Int) = v.toInt := hv.symm
    exact intact_unsigned (by omega)
  | negSucc n =>
    refine ⟨?_, rfl⟩
    show n < 2 ^ 64
    omega

/-- An array is intact if its items are one level further down, and it is neither too deep nor too long. -/
theorem intact_array {items : List Item} (hdepth : depth < maxDepth) (hlength : items.length ≤ maxElements)
    (hitems : ∀ i ∈ items, i.Intact (depth + 1)) : (Item.array items).Intact depth := by
  have hsame : ∀ items : List Item, (∀ i ∈ items, i.Intact (depth + 1)) →
      readings (depth + 1) items = some items := by
    intro items
    induction items with
    | nil => intro _; rfl
    | cons i rest ih =>
      intro h
      rw [readings, (h i List.mem_cons_self).same, ih fun j hj => h j (List.mem_cons_of_mem i hj)]
      rfl
  have hmax : maxElements < 2 ^ 64 := by decide
  refine ⟨⟨by omega, sizedItems_iff.mpr fun i hi => (hitems i hi).sized⟩, ?_⟩
  rw [Item.reading, if_neg (by omega), hsame items hitems]
  rfl

/-- A map is intact if its keys and values are one level further down. -/
theorem intact_map {entries : List (Item × Item)} (hdepth : depth < maxDepth)
    (hlength : entries.length ≤ maxElements)
    (hentries : ∀ e ∈ entries, e.1.Intact (depth + 1) ∧ e.2.Intact (depth + 1)) :
    (Item.map entries).Intact depth := by
  have hsame : ∀ entries : List (Item × Item),
      (∀ e ∈ entries, e.1.Intact (depth + 1) ∧ e.2.Intact (depth + 1)) →
      entryReadings (depth + 1) entries = some entries := by
    intro entries
    induction entries with
    | nil => intro _; rfl
    | cons e rest ih =>
      intro h
      obtain ⟨hkey, hvalue⟩ := h e List.mem_cons_self
      rw [entryReadings, hkey.same, hvalue.same, ih fun j hj => h j (List.mem_cons_of_mem e hj)]
      rfl
  have hmax : maxElements < 2 ^ 64 := by decide
  refine ⟨⟨by omega, sizedEntries_iff.mpr fun e he => ⟨(hentries e he).1.sized, (hentries e he).2.sized⟩⟩, ?_⟩
  rw [Item.reading, if_neg (by omega), hsame entries hentries]
  rfl

/-- **An intact item is parsed as it was written.** -/
theorem Item.Intact.parse? {i : Item} (h : i.Intact 0) : Item.parse? i.encode = some i := by
  rw [parse?_encode h.sized, h.same]

end

/-! ## Keys -/

/-- The first key that satisfies a condition is found, unless it was there before. -/
theorem findNew_eq {p : FieldKey → Bool} {seen : List Nat} {keys : List FieldKey} {i : Nat}
    (hfirst : keys.findIdx? p = some i) (hseen : i ∉ seen) : FieldKey.findNew p seen keys = some i := by
  obtain ⟨hlt, hp, hbefore⟩ := List.findIdx?_eq_some_iff_getElem.mp hfirst
  rw [FieldKey.findNew, List.find?_range_eq_some]
  refine ⟨?_, List.mem_range.mpr hlt, fun j hj => ?_⟩
  · simp [hseen, hp, List.getElem?_eq_getElem hlt]
  · have hjlt : j < keys.length := by omega
    have hjp := hbefore j hj
    simp [List.getElem?_eq_getElem hjlt, hjp]

/-- The field of a name, if it was not there before. -/
theorem locate_named {ε : Type} {keys : List FieldKey} {seen : List Nat} {name : Text} {i : Nat}
    (hkey : keys.findIdx? (·.name == name) = some i) (hseen : i ∉ seen) :
    FieldKey.locate keys seen (.text name) = (.ok (some i) : Decoded ε (Option Nat)) := by
  rw [FieldKey.locate, findNew_eq hkey hseen]

/-- The field of a number, if it was not there before. -/
theorem locate_numbered {ε : Type} {keys : List FieldKey} {seen : List Nat} {n i : Nat}
    (hkey : keys.findIdx? (·.number == some (SignedWord.wrap n)) = some i) (hseen : i ∉ seen) :
    FieldKey.locate keys seen (.unsigned n) = (.ok (some i) : Decoded ε (Option Nat)) := by
  rw [FieldKey.locate, findNew_eq hkey hseen]

/-! ## Fields -/

section

variable {ε ρ : Type} {keys : List FieldKey} {set : Nat → Item → ρ → Decoded ε ρ}
  {used used' used'' : List Nat} {es es' : List (Item × Item)} {r r' r'' : ρ}

/-- The entries take the record from `r` to `r'`, where only `used` fields were there before and only
`used'` fields are there afterwards. -/
def Fills (keys : List FieldKey) (set : Nat → Item → ρ → Decoded ε ρ) (used used' : List Nat)
    (es : List (Item × Item)) (r r' : ρ) : Prop :=
  ∀ seen rest, seen ⊆ used → ∃ seen', seen' ⊆ used' ∧
    Decode.entries keys set seen (es ++ rest) r = Decode.entries keys set seen' rest r'

/-- Entries behind others go on with the record that these leave. -/
theorem Fills.trans (h : Fills keys set used used' es r r') (h' : Fills keys set used' used'' es' r' r'') :
    Fills keys set used used'' (es ++ es') r r'' := by
  intro seen rest hseen
  obtain ⟨seen', hseen', heq⟩ := h seen (es' ++ rest) hseen
  obtain ⟨seen'', hseen'', heq'⟩ := h' seen' rest hseen'
  exact ⟨seen'', hseen'', by rw [List.append_assoc, heq, heq']⟩

/-- A field that is left out. -/
theorem fills_nothing (i : Nat) : Fills keys set used (i :: used) [] r r := by
  intro seen rest hseen
  exact ⟨seen, List.subset_cons_of_subset i hseen, rfl⟩

/-- A field that is there. -/
theorem fills_field {k v : Item} {i : Nat} (hi : i ∉ used)
    (hlocate : ∀ seen : List Nat, i ∉ seen → FieldKey.locate keys seen k = (.ok (some i) : Decoded ε _))
    (hset : set i v r = .ok r') : Fills keys set used (i :: used) [(k, v)] r r' := by
  intro seen rest hseen
  refine ⟨i :: seen, List.cons_subset_cons i hseen, ?_⟩
  rw [List.singleton_append, Decode.entries, hlocate seen fun hmem => hi (hseen hmem)]
  simp only [hset]

/-- One entry fills in its field. -/
theorem fills_entry {name : Text} {v : Item} {i : Nat} (hkey : keys.findIdx? (·.name == name) = some i)
    (hi : i ∉ used) (hset : set i v r = .ok r') :
    Fills keys set used (i :: used) (entry name v) r r' :=
  fills_field hi (fun _ hseen => locate_named hkey hseen) hset

/-- All entries of a map fill in the record. -/
theorem record_map (h : Fills keys set [] used es r r') :
    Decode.record keys set r (.map es) = .ok r' := by
  obtain ⟨seen, _, heq⟩ := h [] [] (List.nil_subset _)
  rw [List.append_nil] at heq
  show Decode.entries keys set [] es r = .ok r'
  rw [heq, Decode.entries]

end

/-! ## Fields that may be left out -/

/-- Entries that are read as they were written, and not more than some number of them. -/
structure Fit (depth count : Nat) (es : List (Item × Item)) : Prop where
  length : es.length ≤ count
  intact : ∀ e ∈ es, e.1.Intact depth ∧ e.2.Intact depth

section

variable {depth : Nat} {name : Text}

/-- Entries behind others fit if there is room for both. -/
theorem Fit.append {m n : Nat} {es es' : List (Item × Item)} (h : Fit depth m es) (h' : Fit depth n es') :
    Fit depth (m + n) (es ++ es') := by
  constructor
  · rw [List.length_append]
    exact Nat.add_le_add h.length h'.length
  · intro e he
    rcases List.mem_append.mp he with he | he
    · exact h.intact e he
    · exact h'.intact e he

theorem fit_nil : Fit depth 1 [] := ⟨Nat.zero_le 1, fun e he => by cases he⟩

theorem fit_entry {v : Item} (hname : StorableText name) (hv : v.Intact depth) : Fit depth 1 (entry name v) := by
  refine ⟨Nat.le_refl 1, fun e he => ?_⟩
  obtain rfl := List.mem_singleton.mp he
  exact ⟨intact_text hname, hv⟩

/-- A text that is empty has no entry. -/
theorem fit_textEntry {t : Text} (hname : StorableText name) (ht : StorableText t) :
    Fit depth 1 (textEntry name t) := by
  rw [textEntry]
  split
  · exact fit_nil
  · exact fit_entry hname (intact_text ht)

/-- A list that is empty has no entry. -/
theorem fit_listEntry {items : List Item} (hname : StorableText name) (hitems : (Item.array items).Intact depth) :
    Fit depth 1 (listEntry name items) := by
  rw [listEntry]
  split
  · exact fit_nil
  · exact fit_entry hname hitems

/-- Entries that fit make an intact map. -/
theorem Fit.map {count : Nat} {es : List (Item × Item)} (h : Fit (depth + 1) count es)
    (hdepth : depth < maxDepth) (hcount : count ≤ maxElements) : (Item.map es).Intact depth :=
  intact_map hdepth (h.length.trans hcount) h.intact

end

section

variable {ε ρ : Type} {keys : List FieldKey} {set : Nat → Item → ρ → Decoded ε ρ} {used : List Nat}
  {r r' : ρ} {name : Text} {i : Nat}

/-- A text that was left out fills in what is there already. -/
theorem fills_textEntry {t : Text} (hkey : keys.findIdx? (·.name == name) = some i) (hi : i ∉ used)
    (hset : set i (.text t) r = .ok r') (habsent : t = [] → r = r') :
    Fills keys set used (i :: used) (textEntry name t) r r' := by
  rw [textEntry]
  split
  · next ht => rw [habsent ht]; exact fills_nothing i
  · exact fills_entry hkey hi hset

/-- A list that was left out fills in what is there already. -/
theorem fills_listEntry {items : List Item} (hkey : keys.findIdx? (·.name == name) = some i) (hi : i ∉ used)
    (hset : set i (.array items) r = .ok r') (habsent : items = [] → r = r') :
    Fills keys set used (i :: used) (listEntry name items) r r' := by
  rw [listEntry]
  split
  · next hitems => rw [habsent (List.isEmpty_iff.mp hitems)]; exact fills_nothing i
  · exact fills_entry hkey hi hset

end

/-! ## Lists -/

/-- Items that were written from elements are decoded element by element. -/
theorem each_map {ε α β : Type} {decode : Item → Decoded ε β} {write : α → Item} {f : α → β} :
    ∀ {xs : List α}, (∀ x ∈ xs, decode (write x) = .ok (f x)) →
      Decode.each decode (xs.map write) = .ok (xs.map f) := by
  intro xs
  induction xs with
  | nil => intro _; rfl
  | cons x xs ih =>
    intro h
    rw [List.map_cons, Decode.each, h x List.mem_cons_self]
    simp only [ih fun y hy => h y (List.mem_cons_of_mem x hy)]
    rfl

theorem list_array {ε α β : Type} {decode : Item → Decoded ε β} {write : α → Item} {f : α → β} {xs : List α}
    (h : ∀ x ∈ xs, decode (write x) = .ok (f x)) :
    Decode.list decode (.array (xs.map write)) = .ok (xs.map f) := each_map h

end ShadeGraph.Cbor
