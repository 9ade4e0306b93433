/-
  What is known of a graph that was decoded.

  1. Well-formed texts one behind the other are well-formed (`isUtf8_append`), so the chunks of a string make
     a well-formed text.
  2. Whatever bytes are read, the texts of the item are well-formed and no longer than the input, and its
     arrays are not too long: the item is `Admitted`.
  3. Decoders keep this: tags are stripped, lists are decoded item by item, and a record is filled in by
     steps that each keep an invariant (`record_invariant`).  So a graph that was read can be stored
     (`storable_of_parse`).
-/
import ShadeGraph.Proofs.GraphCodec

namespace ShadeGraph

/-! ## Well-formed texts -/

namespace Text

/-- Bytes behind a rune that is complete do not change it. -/
theorem firstRune_append {a : UInt8} {t : Text} {p k : Nat} (h : firstRune a t = (.point p, k)) (u : Text) :
    firstRune a (t ++ u) = (.point p, k) ∧ k ≤ t.length := by
  unfold firstRune at h ⊢
  by_cases hascii : a < 0x80
  · rw [if_pos hascii] at h ⊢
    obtain ⟨-, rfl⟩ := Prod.mk.inj h
    exact ⟨h, Nat.zero_le _⟩
  rw [if_neg hascii] at h ⊢
  rcases t with _ | ⟨b, _ | ⟨c, _ | ⟨d, t⟩⟩⟩
  · cases h
  · cases hpair : pair? a b with
    | none => simp [hpair] at h
    | some q => simp_all
  · cases hpair : pair? a b <;> cases htriple : triple? a b c <;> simp_all
  · cases hpair : pair? a b <;> cases htriple : triple? a b c <;>
      cases hquadruple : quadruple? a b c d <;> simp_all
    all_goals omega

/-- The runes of a text without strays stay the same in front of anything. -/
theorem runesAfter_append (u : Text) : ∀ {t : Text} {skip : Nat}, skip ≤ t.length →
    (∀ b, Rune.stray b ∉ runesAfter skip t) → runesAfter skip (t ++ u) = runesAfter skip t ++ runes u := by
  intro t
  induction t with
  | nil =>
    intro skip hskip _
    obtain rfl : skip = 0 := Nat.le_zero.mp hskip
    rfl
  | cons a t ih =>
    intro skip hskip hpoints
    cases skip with
    | succ skip => exact ih (Nat.le_of_succ_le_succ hskip) hpoints
    | zero =>
      cases hfirst : firstRune a t with
      | mk r k =>
        rw [runesAfter, hfirst] at hpoints
        cases r with
        | stray b => exact absurd List.mem_cons_self (hpoints b)
        | point p =>
          obtain ⟨hsame, hk⟩ := firstRune_append hfirst u
          have hrest := ih hk fun b hb => hpoints b (List.mem_cons_of_mem _ hb)
          rw [List.cons_append, runesAfter, runesAfter, hsame, hfirst, hrest, List.cons_append]

/-- A text is well-formed if no byte of it stands alone. -/
theorem isUtf8_iff {t : Text} : t.isUtf8 = true ↔ ∀ b, Rune.stray b ∉ runes t := by
  rw [isUtf8, List.all_eq_true]
  constructor
  · intro h b hb
    cases h _ hb
  · intro h r hr
    cases r with
    | point c => rfl
    | stray b => exact absurd hr (h b)

/-- **Well-formed texts one behind the other are well-formed.** -/
theorem isUtf8_append {t u : Text} (ht : t.isUtf8 = true) (hu : u.isUtf8 = true) :
    (t ++ u).isUtf8 = true := by
  rw [isUtf8_iff] at ht hu ⊢
  intro b hb
  rw [runes, runesAfter_append u (Nat.zero_le _) ht] at hb
  rcases List.mem_append.mp hb with hb | hb
  · exact ht b hb
  · exact hu b hb

/-- So the chunks of a string make one well-formed text. -/
theorem isUtf8_flatten {ts : List Text} (h : ∀ t ∈ ts, t.isUtf8 = true) :
    isUtf8 ts.flatten = true := by
  induction ts with
  | nil => rfl
  | cons t ts ih =>
    rw [List.flatten_cons]
    exact isUtf8_append (h t List.mem_cons_self) (ih fun u hu => h u (List.mem_cons_of_mem t hu))

end Text

/-! ## Items that are read -/

namespace Cbor

/-- An item that reading may give: its texts can be stored, and its arrays are not too long. -/
inductive Item.Admitted : Item → Prop
  | unsigned (n : Nat) : Admitted (.unsigned n)
  | negative (n : Nat) : Admitted (.negative n)
  | bytes (b : Text) : Admitted (.bytes b)
  | text {t : Text} (h : StorableText t) : Admitted (.text t)
  | garbled : Admitted .garbled
  | array {items : List Item} (hlength : items.length ≤ maxElements) (hitems : ∀ i ∈ items, Admitted i) :
      Admitted (.array items)
  | map {entries : List (Item × Item)} (hvalues : ∀ e ∈ entries, Admitted e.2) : Admitted (.map entries)
  | tag {n : Nat} {content : Item} (h : Admitted content) : Admitted (.tag n content)
  | simple (n : Nat) : Admitted (.simple n)
  | half (b : UInt16) : Admitted (.half b)
  | single (b : UInt32) : Admitted (.single b)
  | double (b : UInt64) : Admitted (.double b)

section

variable {t rest : Text}

/-- Taking bytes away neither loses nor makes any. -/
theorem takeExactly_length {n : Nat} {b : Text} (h : takeExactly n t = some (b, rest)) :
    b.length + rest.length = t.length := by
  rw [takeExactly] at h
  split at h
  · cases h
  · obtain ⟨rfl, rfl⟩ := Prod.mk.inj (Option.some.inj h)
    rw [List.length_take, List.length_drop]
    omega

/-- The argument of a head takes some of the bytes behind it. -/
theorem readArgument_length {info : Nat} {argument : Option Nat}
    (h : readArgument info t = some (argument, rest)) : rest.length ≤ t.length := by
  have hnumber : ∀ n, (takeNumber n t).map (fun r => (some r.1, r.2)) = some (argument, rest) →
      rest.length ≤ t.length := by
    intro n h
    rw [takeNumber, Option.map_map] at h
    obtain ⟨⟨b, rest'⟩, hr, heq⟩ := Option.map_eq_some_iff.mp h
    obtain rfl : rest' = rest := congrArg Prod.snd heq
    have hlength := takeExactly_length hr
    omega
  unfold readArgument at h
  split_ifs at h
  · obtain ⟨-, rfl⟩ := Prod.mk.inj (Option.some.inj h)
    exact Nat.le_refl _
  · exact hnumber 1 h
  · exact hnumber 2 h
  · exact hnumber 4 h
  · exact hnumber 8 h
  · obtain ⟨-, rfl⟩ := Prod.mk.inj (Option.some.inj h)
    exact Nat.le_refl _

/-- A head takes one byte at least.  This is why fuel for every byte is enough. -/
theorem readHead_length {h : Head} (hread : readHead t = some (h, rest)) : rest.length < t.length := by
  cases t with
  | nil => cases hread
  | cons b t =>
    obtain ⟨⟨argument, rest'⟩, hargument, hread⟩ := Option.bind_eq_some_iff.mp hread
    simp only at hread
    split at hread
    · cases hread
      exact Nat.lt_succ_of_le (readArgument_length hargument)
    · cases hread

/-- The chunks of a string are no longer than what was read for them. -/
theorem readChunks_length {major : Nat} : ∀ {fuel : Nat} {t rest : Text} {chunks : List Text},
    readChunks major fuel t = some (chunks, rest) → chunks.flatten.length + rest.length ≤ t.length := by
  intro fuel
  induction fuel with
  | zero => intro t rest chunks h; cases h
  | succ fuel ih =>
    intro t rest chunks h
    rw [readChunks] at h
    split at h
    · obtain ⟨rfl, rfl⟩ := Prod.mk.inj (Option.some.inj h)
      simp
    · obtain ⟨⟨hd, rest₁⟩, hhead, h⟩ := Option.bind_eq_some_iff.mp h
      simp only at h
      split at h
      · cases h
      · obtain ⟨n, -, h⟩ := Option.bind_eq_some_iff.mp h
        obtain ⟨⟨chunk, rest₂⟩, hchunk, h⟩ := Option.bind_eq_some_iff.mp h
        obtain ⟨⟨chunks', rest₃⟩, hchunks, h⟩ := Option.bind_eq_some_iff.mp h
        obtain ⟨rfl, rfl⟩ := Prod.mk.inj (Option.some.inj h)
        have h₁ := readHead_length hhead
        have h₂ := takeExactly_length hchunk
        have h₃ : chunks'.flatten.length + rest₃.length ≤ rest₂.length := ih hchunks
        show (chunk :: chunks').flatten.length + rest₃.length ≤ t.length
        rw [List.flatten_cons, List.length_append]
        omega

end

/-- Chunks that fit into memory make a byte string, a text that can be stored, or an item that says it is
garbled. -/
theorem admitted_stringItem {major : Nat} {chunks : List Text} (h : chunks.flatten.length < 2 ^ 64) :
    (stringItem major chunks).Admitted := by
  rw [stringItem]
  split
  · exact .bytes _
  · split
    · next hall => exact .text ⟨Text.isUtf8_flatten (List.all_eq_true.mp hall), h⟩
    · exact .garbled

theorem admitted_simpleItem (info n : Nat) : (simpleItem info n).Admitted := by
  rw [simpleItem]
  split_ifs
  · exact .half _
  · exact .single _
  · exact .double _
  · exact .simple n

/-- The values of a map are among the items that were read for it. -/
theorem mem_of_pairs? : ∀ {items : List Item} {entries : List (Item × Item)}, pairs? items = some entries →
    ∀ e ∈ entries, e.2 ∈ items := by
  intro items
  fun_induction pairs? items with
  | case1 => intro entries h e he; cases h; cases he
  | case2 => intro entries h; cases h
  | case3 k v rest ih =>
    intro entries h e he
    obtain ⟨tail, htail, rfl⟩ := Option.map_eq_some_iff.mp h
    rcases List.mem_cons.mp he with rfl | he
    · simp
    · exact List.mem_cons_of_mem k (List.mem_cons_of_mem v (ih htail e he))

/-- An array or a map of admitted items is admitted, because longer arrays are refused. -/
theorem admitted_collectionItem {major : Nat} {items : List Item} {i : Item}
    (hitems : ∀ j ∈ items, j.Admitted) (h : collectionItem major items = some i) : i.Admitted := by
  rw [collectionItem] at h
  split at h
  · split at h
    · cases h
    · next hlength =>
      cases h
      exact .array (Nat.le_of_not_lt hlength) hitems
  · obtain ⟨entries, hentries, h⟩ := Option.bind_eq_some_iff.mp h
    split at h
    · cases h
    · cases h
      exact .map fun e he => hitems e.2 (mem_of_pairs? hentries e he)

/-- Reading with some fuel gives admitted items, and leaves no more than there was. -/
structure ReadsAdmitted (fuel : Nat) : Prop where
  item : ∀ {depth : Nat} {tagged : Bool} {t rest : Text} {i : Item}, t.length < 2 ^ 64 →
    readItem fuel depth tagged t = some (i, rest) → i.Admitted ∧ rest.length ≤ t.length
  items : ∀ {depth count : Nat} {t rest : Text} {is : List Item}, t.length < 2 ^ 64 →
    readItems fuel depth count t = some (is, rest) → (∀ i ∈ is, i.Admitted) ∧ rest.length ≤ t.length
  untilBreak : ∀ {depth : Nat} {t rest : Text} {is : List Item}, t.length < 2 ^ 64 →
    readUntilBreak fuel depth t = some (is, rest) → (∀ i ∈ is, i.Admitted) ∧ rest.length ≤ t.length

section

variable {fuel depth : Nat} {t rest : Text}

/-- A string of known length. -/
theorem chunk_admitted {major n : Nat} {i : Item} (ht : t.length < 2 ^ 64)
    (h : ((takeExactly n t).bind fun r => some (stringItem major [r.1], r.2)) = some (i, rest)) :
    i.Admitted ∧ rest.length ≤ t.length := by
  obtain ⟨⟨chunk, rest'⟩, hr, h⟩ := Option.bind_eq_some_iff.mp h
  have hlength := takeExactly_length hr
  simp only [Option.some.injEq, Prod.mk.injEq] at h
  obtain ⟨rfl, rfl⟩ := h
  refine ⟨admitted_stringItem ?_, by omega⟩
  rw [List.flatten_cons, List.flatten_nil, List.append_nil]
  omega

/-- A string of chunks, up to the break behind them. -/
theorem chunks_admitted {major fuel : Nat} {i : Item} (ht : t.length < 2 ^ 64)
    (h : ((readChunks major fuel t).bind fun r => some (stringItem major r.1, r.2)) = some (i, rest)) :
    i.Admitted ∧ rest.length ≤ t.length := by
  obtain ⟨⟨chunks, rest'⟩, hr, h⟩ := Option.bind_eq_some_iff.mp h
  have hlength := readChunks_length hr
  simp only [Option.some.injEq, Prod.mk.injEq] at h
  obtain ⟨rfl, rfl⟩ := h
  exact ⟨admitted_stringItem (by omega), by omega⟩

/-- The elements of an array or map, however they were read. -/
theorem elements_admitted {read : Option (List Item × Text)} {major : Nat} {i : Item}
    (hread : ∀ r, read = some r → (∀ j ∈ r.1, j.Admitted) ∧ r.2.length ≤ t.length)
    (h : (read.bind fun r => (collectionItem major r.1).bind fun j => some (j, r.2)) = some (i, rest)) :
    i.Admitted ∧ rest.length ≤ t.length := by
  obtain ⟨r, hr, h⟩ := Option.bind_eq_some_iff.mp h
  obtain ⟨j, hj, h⟩ := Option.bind_eq_some_iff.mp h
  obtain ⟨rfl, rfl⟩ := Prod.mk.inj (Option.some.inj h)
  exact ⟨admitted_collectionItem (hread r hr).1 hj, (hread r hr).2⟩

/-- One item with one unit of fuel more: every kind of head leads to a string, a collection, a tag or a simple
item. -/
theorem ReadsAdmitted.succ_item (ih : ReadsAdmitted fuel) {tagged : Bool} {i : Item}
    (ht : t.length < 2 ^ 64) (h : readItem (fuel + 1) depth tagged t = some (i, rest)) :
    i.Admitted ∧ rest.length ≤ t.length := by
  rw [readItem] at h
  obtain ⟨⟨hd, rest₁⟩, hhead, h⟩ := Option.bind_eq_some_iff.mp h
  have hlt := readHead_length hhead
  have ht₁ : rest₁.length < 2 ^ 64 := by omega
  -- it is enough to have read the rest behind the head
  suffices hsuffices : i.Admitted ∧ rest.length ≤ rest₁.length from ⟨hsuffices.1, by omega⟩
  have hcounted : ∀ n, (if (decide (maxDepth ≤ depth) || decide (maxElements < n)) = true then none else
      (readItems fuel (depth + 1) (if hd.major = 4 then n else 2 * n) rest₁).bind fun r =>
        (collectionItem hd.major r.1).bind fun j => some (j, r.2)) = some (i, rest) →
      i.Admitted ∧ rest.length ≤ rest₁.length := by
    intro n h
    split at h
    · cases h
    · exact elements_admitted (fun r hr => ih.items ht₁ hr) h
  have hopen : (if maxDepth ≤ depth then none else
      (readUntilBreak fuel (depth + 1) rest₁).bind fun r =>
        (collectionItem hd.major r.1).bind fun j => some (j, r.2)) = some (i, rest) →
      i.Admitted ∧ rest.length ≤ rest₁.length := by
    intro h
    split at h
    · cases h
    · exact elements_admitted (fun r hr => ih.untilBreak ht₁ hr) h
  simp only at h
  split at h
  · cases h; exact ⟨.unsigned _, Nat.le_refl _⟩
  · cases h; exact ⟨.negative _, Nat.le_refl _⟩
  · -- a tag
    generalize (if tagged = true then depth + 1 else depth) = depth at h
    split at h
    · cases h
    · obtain ⟨⟨content, rest₂⟩, hcontent, h⟩ := Option.bind_eq_some_iff.mp h
      cases h
      obtain ⟨hadmitted, hle⟩ := ih.item ht₁ hcontent
      exact ⟨.tag hadmitted, hle⟩
  · cases h; exact ⟨admitted_simpleItem _ _, Nat.le_refl _⟩
  · exact chunk_admitted ht₁ h
  · exact chunk_admitted ht₁ h
  · exact chunks_admitted ht₁ h
  · exact chunks_admitted ht₁ h
  · exact hcounted _ h
  · exact hcounted _ h
  · exact hopen h
  · exact hopen h
  · cases h

/-- One item and then the rest, whichever way the rest is read: counted, or up to a break. -/
theorem ReadsAdmitted.succ_cons (ih : ReadsAdmitted fuel) {read : Text → Option (List Item × Text)}
    (hread : ∀ {t r}, t.length < 2 ^ 64 → read t = some r →
      (∀ i ∈ r.1, i.Admitted) ∧ r.2.length ≤ t.length)
    {is : List Item} (ht : t.length < 2 ^ 64)
    (h : ((readItem fuel depth false t).bind fun r =>
      (read r.2).bind fun rs => some (r.1 :: rs.1, rs.2)) = some (is, rest)) :
    (∀ i ∈ is, i.Admitted) ∧ rest.length ≤ t.length := by
  obtain ⟨⟨i, rest₁⟩, hi, h⟩ := Option.bind_eq_some_iff.mp h
  obtain ⟨⟨others, rest₂⟩, hrs, h⟩ := Option.bind_eq_some_iff.mp h
  cases h
  obtain ⟨hfirst, hle⟩ := ih.item ht hi
  obtain ⟨hothers, hle'⟩ := hread (hle.trans_lt ht) hrs
  exact ⟨List.forall_mem_cons.mpr ⟨hfirst, hothers⟩, hle'.trans hle⟩

end

/-- **Whatever is read is admitted**, by induction on the fuel. -/
theorem readsAdmitted (fuel : Nat) : ReadsAdmitted fuel := by
  have hnone : ∀ {t : Text}, (∀ i ∈ ([] : List Item), i.Admitted) ∧ t.length ≤ t.length :=
    ⟨by simp, Nat.le_refl _⟩
  induction fuel with
  | zero =>
    constructor
    · intro depth tagged t rest i _ h
      rw [readItem] at h
      cases h
    · intro depth count t rest is _ h
      cases count with
      | zero => rw [readItems] at h; cases h; exact hnone
      | succ count => rw [readItems] at h; cases h
    · intro depth t rest is _ h
      rw [readUntilBreak] at h
      cases h
  | succ fuel ih =>
    -- Each reader calls the others with a smaller bound only.
    refine ⟨ih.succ_item, ?_, ?_⟩
    · intro depth count t rest is ht h
      cases count with
      | zero => rw [readItems] at h; cases h; exact hnone
      | succ count =>
        rw [readItems] at h
        exact ih.succ_cons (fun ht h => ih.items ht h) ht h
    · intro depth t rest is ht h
      rw [readUntilBreak] at h
      split at h
      · obtain ⟨rfl, rfl⟩ := Prod.mk.inj (Option.some.inj h)
        refine ⟨by simp, ?_⟩
        rw [List.length_tail]
        omega
      · exact ih.succ_cons (fun ht h => ih.untilBreak ht h) ht h

/-- **Whatever is read is admitted.** -/
theorem admitted_of_parse? {t : Text} {i : Item} (ht : t.length < 2 ^ 64) (h : Item.parse? t = some i) :
    i.Admitted := by
  rw [Item.parse?] at h
  split at h
  · next item hread =>
    cases h
    exact ((readsAdmitted _).item ht hread).1
  · cases h

/-! ## Decoders -/

section

variable {ε α ρ : Type} {item : Item}

/-- Stripping tags keeps an item admitted. -/
theorem Item.Admitted.untagged (h : item.Admitted) {i : Item}
    (hdecode : item.untagged = (.ok i : Decoded ε Item)) : i.Admitted := by
  fun_induction Item.untagged (ε := ε) item with
  | case1 content hcontent ih => cases h with | tag h => exact ih h hdecode
  | case2 => cases hdecode
  | case3 content hcontent ih => cases h with | tag h => exact ih h hdecode
  | case4 => cases hdecode
  | case5 b hb => cases hdecode; exact .unsigned _
  | case6 => cases hdecode
  | case7 b hb => cases hdecode; exact .negative _
  | case8 => cases hdecode
  | case9 => cases hdecode
  | case10 => cases hdecode
  | case11 n content _ _ _ _ _ _ ih => cases h with | tag h => exact ih h hdecode
  | case12 => cases hdecode; exact h

/-- A text that was decoded can be stored: a garbled item is refused. -/
theorem storable_text {t : Text} (h : item.Admitted) (hdecode : Decode.text item = (.ok t : Decoded ε Text)) :
    StorableText t := by
  obtain ⟨i, hi, hdecode⟩ := bind_eq_ok.mp hdecode
  have hadmitted := h.untagged hi
  split at hdecode
  · cases hdecode
    cases hadmitted with | text h => exact h
  · split at hdecode
    · cases hdecode; exact ⟨rfl, by decide⟩
    · cases hdecode

/-- A list is decoded item by item, so every element comes from an item. -/
theorem each_decoded {decode : Item → Decoded ε α} : ∀ {items : List Item} {xs : List α},
    Decode.each decode items = .ok xs →
      xs.length = items.length ∧ ∀ x ∈ xs, ∃ i ∈ items, decode i = .ok x := by
  intro items
  induction items with
  | nil => intro xs h; cases h; exact ⟨rfl, by simp⟩
  | cons i items ih =>
    intro xs h
    rw [Decode.each] at h
    split at h
    · cases h
    · next x hx =>
      split at h
      · cases h
      · next xs' hxs =>
        cases h
        obtain ⟨hlength, hmem⟩ := ih hxs
        refine ⟨congrArg (· + 1) hlength, List.forall_mem_cons.mpr ⟨⟨i, List.mem_cons_self, hx⟩, ?_⟩⟩
        intro y hy
        obtain ⟨j, hj, hdecode⟩ := hmem y hy
        exact ⟨j, List.mem_cons_of_mem i hj, hdecode⟩

/-- A list that was decoded is not too long, and its elements come from admitted items. -/
theorem list_decoded {decode : Item → Decoded ε α} {xs : List α} (h : item.Admitted)
    (hdecode : Decode.list decode item = .ok xs) :
    xs.length ≤ maxElements ∧ ∀ x ∈ xs, ∃ i : Item, i.Admitted ∧ decode i = .ok x := by
  obtain ⟨i, hi, hdecode⟩ := bind_eq_ok.mp hdecode
  have hadmitted := h.untagged hi
  split at hdecode
  · next items =>
    cases hadmitted with
    | array hlength hitems =>
      obtain ⟨hsame, hmem⟩ := each_decoded hdecode
      refine ⟨hsame ▸ hlength, fun x hx => ?_⟩
      obtain ⟨j, hj, hdecode⟩ := hmem x hx
      exact ⟨j, hitems j hj, hdecode⟩
  · split at hdecode
    · cases hdecode
      exact ⟨Nat.zero_le _, by simp⟩
    · cases hdecode

section

variable {keys : List FieldKey} {set : Nat → Item → ρ → Decoded ε ρ} {P : ρ → Prop}

/-- Filling in a record keeps what each of its fields keeps, in whichever order the fields come. -/
theorem entries_invariant
    (hset : ∀ {k : Nat} {v : Item} {r r' : ρ}, v.Admitted → P r → set k v r = .ok r' → P r') :
    ∀ {es : List (Item × Item)} {seen : List Nat} {r r' : ρ}, (∀ e ∈ es, e.2.Admitted) → P r →
      Decode.entries keys set seen es r = .ok r' → P r' := by
  intro es
  induction es with
  | nil => intro seen r r' _ hr h; cases h; exact hr
  | cons e es ih =>
    intro seen r r' hes hr h
    obtain ⟨hv, hes⟩ := List.forall_mem_cons.mp hes
    rw [Decode.entries] at h
    split at h
    · cases h
    · exact ih hes hr h
    · split at h
      · cases h
      · next r₁ hr₁ => exact ih hes (hset hv hr hr₁) h

/-- What holds at the start and is kept by every field holds of a record that was decoded. -/
theorem record_invariant {start r : ρ} (hstart : P start)
    (hset : ∀ {k : Nat} {v : Item} {r r' : ρ}, v.Admitted → P r → set k v r = .ok r' → P r')
    (h : item.Admitted) (hdecode : Decode.record keys set start item = .ok r) : P r := by
  obtain ⟨i, hi, hdecode⟩ := bind_eq_ok.mp hdecode
  have hadmitted := h.untagged hi
  split at hdecode
  · cases hadmitted with | map hvalues => exact entries_invariant hset hvalues hstart hdecode
  · split at hdecode
    · cases hdecode; exact hstart
    · cases hdecode

end

end

end Cbor

open Cbor (Item Decoded StorableText)

namespace Value

/-- What is known of a value that was decoded. -/
def Stored (v : Value) : Prop := v.type.isDefined = true ∧ StorableText v.text

/-- A decoded value has a type that exists, and a text that can be stored. -/
theorem stored_of_ofItem {item : Item} {v : Value} (h : item.Admitted) (hdecode : ofItem item = .ok v) :
    v.Stored := by
  obtain ⟨w, hw, hfields⟩ := bind_eq_ok.mp hdecode
  have htext : StorableText w.text := by
    refine Cbor.record_invariant (P := fun w => StorableText w.text) (by decide) ?_ h hw
    intro k i r r' hi hr hset
    rcases k with _ | _ | _ | k
    · obtain ⟨t, -, rfl⟩ := bind_pure_eq_ok.mp hset
      exact hr
    · obtain ⟨xs, -, rfl⟩ := bind_pure_eq_ok.mp hset
      exact hr
    · obtain ⟨t, ht, rfl⟩ := bind_pure_eq_ok.mp hset
      exact Cbor.storable_text hi ht
    · obtain ⟨b, -, rfl⟩ := bind_pure_eq_ok.mp hset
      exact hr
  rw [ofFields] at hfields
  split at hfields
  · cases hfields
  · next hdefined =>
    split at hfields
    · cases hfields
    · cases hfields
      exact ⟨Bool.eq_true_of_not_eq_false hdefined, htext⟩

end Value

/-- What is known of a value that may be absent. -/
theorem stored_of_optional {item : Item} {value : Option Value} (h : item.Admitted)
    (hdecode : Cbor.Decode.optional Value.ofItem item = .ok value) : ∀ v ∈ value, v.Stored := by
  intro v hv
  rw [Cbor.Decode.optional] at hdecode
  split at hdecode
  · cases hdecode; cases hv
  · cases hvalue : Value.ofItem item with
    | error e => rw [hvalue] at hdecode; cases hdecode
    | ok w =>
      rw [hvalue] at hdecode
      cases hdecode
      cases hv
      exact Value.stored_of_ofItem h hvalue

theorem storable_valueTexts {value : Option Value} (h : ∀ v ∈ value, v.Stored) :
    ∀ t ∈ valueTexts value, StorableText t := by
  cases value with
  | none => simp [valueTexts]
  | some v => simpa [valueTexts] using (h v rfl).2

/-! ## Records -/

namespace InterfaceInput

/-- What is known of an interface input that was decoded. -/
def Stored (i : InterfaceInput) : Prop := StorableText i.name ∧ ∀ v ∈ i.value, v.Stored

/-- Decoding an interface input. -/
theorem stored_of_ofItem {item : Item} {i : InterfaceInput} (h : item.Admitted)
    (hdecode : ofItem item = .ok i) : i.Stored := by
  refine Cbor.record_invariant (P := Stored) ⟨by decide, by simp⟩ ?_ h hdecode
  rintro (_ | _ | k) j r r' hj ⟨hname, hvalue⟩ hset
  · obtain ⟨t, ht, rfl⟩ := bind_pure_eq_ok.mp hset
    exact ⟨Cbor.storable_text hj ht, hvalue⟩
  · obtain ⟨t, -, rfl⟩ := bind_pure_eq_ok.mp hset
    exact ⟨hname, hvalue⟩
  · obtain ⟨value, hdecoded, rfl⟩ := bind_pure_eq_ok.mp hset
    exact ⟨hname, stored_of_optional hj hdecoded⟩

theorem Stored.texts {i : InterfaceInput} (h : i.Stored) : ∀ t ∈ i.texts, StorableText t :=
  List.forall_mem_cons.mpr ⟨h.1, storable_valueTexts h.2⟩

end InterfaceInput

namespace NodeInput

/-- What is known of a node input that was decoded. -/
structure Stored (i : NodeInput) : Prop where
  name : StorableText i.name
  node : StorableText i.node
  output : StorableText i.output
  interface : StorableText i.interface
  value : ∀ v ∈ i.value, v.Stored

/-- Decoding a node input: its four names are texts, and the value was decoded too. -/
theorem stored_of_ofItem {item : Item} {i : NodeInput} (h : item.Admitted) (hdecode : ofItem item = .ok i) :
    i.Stored := by
  refine Cbor.record_invariant (P := Stored) ⟨by decide, by decide, by decide, by decide, by simp⟩ ?_ h hdecode
  rintro (_ | _ | _ | _ | _ | k) j r r' hj hr hset
  · obtain ⟨t, ht, rfl⟩ := bind_pure_eq_ok.mp hset
    exact { hr with name := Cbor.storable_text hj ht }
  · obtain ⟨t, -, rfl⟩ := bind_pure_eq_ok.mp hset
    exact { hr with }
  · obtain ⟨value, hvalue, rfl⟩ := bind_pure_eq_ok.mp hset
    exact { hr with value := stored_of_optional hj hvalue }
  · obtain ⟨t, ht, rfl⟩ := bind_pure_eq_ok.mp hset
    exact { hr with node := Cbor.storable_text hj ht }
  · obtain ⟨t, ht, rfl⟩ := bind_pure_eq_ok.mp hset
    exact { hr with output := Cbor.storable_text hj ht }
  · obtain ⟨t, ht, rfl⟩ := bind_pure_eq_ok.mp hset
    exact { hr with interface := Cbor.storable_text hj ht }

theorem Stored.texts {i : NodeInput} (h : i.Stored) : ∀ t ∈ i.texts, StorableText t := by
  simp only [NodeInput.texts, List.forall_mem_cons]
  exact ⟨h.name, h.node, h.output, h.interface, storable_valueTexts h.value⟩

end NodeInput

namespace NodeOutput

/-- Decoding an output of a node, of which only the name is a text. -/
theorem storable_name_of_ofItem {item : Item} {o : NodeOutput} (h : item.Admitted)
    (hdecode : ofItem item = .ok o) : StorableText o.name := by
  refine Cbor.record_invariant (P := fun o : NodeOutput => StorableText o.name) (by decide) ?_ h hdecode
  rintro (_ | k) j r r' hj hr hset
  · obtain ⟨t, ht, rfl⟩ := bind_pure_eq_ok.mp hset
    exact Cbor.storable_text hj ht
  · obtain ⟨t, -, rfl⟩ := bind_pure_eq_ok.mp hset
    exact hr

end NodeOutput

namespace Socket

/-- What is known of a socket that was decoded. -/
structure Stored (s : Socket) : Prop where
  name : StorableText s.name
  node : StorableText s.node
  nodeOutput : StorableText s.nodeOutput
  channels : StorableText s.channels
  value : ∀ v ∈ s.value, v.Stored

theorem stored_blank : blank.Stored := ⟨by decide, by decide, by decide, by decide, by simp [blank]⟩

/-- Decoding a socket.  Fields that are missing stay blank, and blank texts can be stored. -/
theorem stored_of_ofItem {item : Item} {s : Socket} (h : item.Admitted) (hdecode : ofItem item = .ok s) :
    s.Stored := by
  refine Cbor.record_invariant (P := Stored) stored_blank ?_ h hdecode
  rintro (_ | _ | _ | _ | _ | k) j r r' hj hr hset
  · obtain ⟨t, ht, rfl⟩ := bind_pure_eq_ok.mp hset
    exact { hr with name := Cbor.storable_text hj ht }
  · obtain ⟨t, -, rfl⟩ := bind_pure_eq_ok.mp hset
    exact { hr with }
  · obtain ⟨t, ht, rfl⟩ := bind_pure_eq_ok.mp hset
    exact { hr with node := Cbor.storable_text hj ht }
  · obtain ⟨t, ht, rfl⟩ := bind_pure_eq_ok.mp hset
    exact { hr with nodeOutput := Cbor.storable_text hj ht }
  · obtain ⟨t, ht, rfl⟩ := bind_pure_eq_ok.mp hset
    exact { hr with channels := Cbor.storable_text hj ht }
  · obtain ⟨value, hvalue, rfl⟩ := bind_pure_eq_ok.mp hset
    exact { hr with value := stored_of_optional hj hvalue }

theorem Stored.texts {s : Socket} (h : s.Stored) : ∀ t ∈ s.texts, StorableText t := by
  simp only [Socket.texts, List.forall_mem_cons]
  exact ⟨h.name, h.node, h.nodeOutput, h.channels, storable_valueTexts h.value⟩

end Socket

namespace Node

/-- What is known of a node that was decoded. -/
structure Stored (n : Node) : Prop where
  name : StorableText n.name
  definition : StorableText n.definition
  inputs : n.inputs.length ≤ Cbor.maxElements ∧ ∀ i ∈ n.inputs, i.Stored
  outputs : n.outputs.length ≤ Cbor.maxElements ∧ ∀ o ∈ n.outputs, StorableText o.name

/-- Decoding a node: its lists come from arrays, which are not too long. -/
theorem stored_of_ofItem {item : Item} {n : Node} (h : item.Admitted) (hdecode : ofItem item = .ok n) :
    n.Stored := by
  refine Cbor.record_invariant (P := Stored) ⟨by decide, by decide, by simp, by simp⟩ ?_ h hdecode
  rintro (_ | _ | _ | _ | k) j r r' hj hr hset
  · obtain ⟨t, ht, rfl⟩ := bind_pure_eq_ok.mp hset
    exact { hr with name := Cbor.storable_text hj ht }
  · obtain ⟨t, ht, rfl⟩ := bind_pure_eq_ok.mp hset
    exact { hr with definition := Cbor.storable_text hj ht }
  · obtain ⟨t, -, rfl⟩ := bind_pure_eq_ok.mp hset
    exact { hr with }
  · obtain ⟨inputs, hinputs, rfl⟩ := bind_pure_eq_ok.mp hset
    obtain ⟨hlength, hmem⟩ := Cbor.list_decoded hj hinputs
    refine { hr with inputs := ⟨hlength, fun i hi => ?_⟩ }
    obtain ⟨item, hitem, hdecode⟩ := hmem i hi
    exact NodeInput.stored_of_ofItem hitem hdecode
  · obtain ⟨outputs, houtputs, rfl⟩ := bind_pure_eq_ok.mp hset
    obtain ⟨hlength, hmem⟩ := Cbor.list_decoded hj houtputs
    refine { hr with outputs := ⟨hlength, fun o ho => ?_⟩ }
    obtain ⟨item, hitem, hdecode⟩ := hmem o ho
    exact NodeOutput.storable_name_of_ofItem hitem hdecode

/-- A node that was decoded can be stored again. -/
theorem Stored.storable {n : Node} (h : n.Stored) : n.Storable := by
  refine ⟨?_, fun v hv => ?_, ?_⟩
  · simp only [texts, List.forall_mem_cons, List.forall_mem_append, List.forall_mem_flatMap, List.forall_mem_map]
    exact ⟨h.name, h.definition, fun i hi => (h.inputs.2 i hi).texts, h.outputs.2⟩
  · obtain ⟨i, hi, hv⟩ := List.mem_filterMap.mp hv
    exact ((h.inputs.2 i hi).value v hv).1
  · simp only [lengths, List.forall_mem_cons]
    exact ⟨h.inputs.1, h.outputs.1, by simp⟩

end Node

namespace Graph

/-- What is known of a graph that was decoded. -/
structure Stored (g : Graph) : Prop where
  name : StorableText g.name
  inputs : g.inputs.length ≤ Cbor.maxElements ∧ ∀ i ∈ g.inputs, i.Stored
  nodes : g.nodes.length ≤ Cbor.maxElements ∧ ∀ n ∈ g.nodes, n.Stored
  output : g.output.Stored

/-- Decoding a graph, by what decoding its parts gives. -/
theorem stored_of_ofItem {item : Item} {g : Graph} (h : item.Admitted) (hdecode : ofItem item = .ok g) :
    g.Stored := by
  refine Cbor.record_invariant (P := Stored) ⟨by decide, by simp, by simp, Socket.stored_blank⟩ ?_ h hdecode
  rintro (_ | _ | _ | k) j r r' hj hr hset
  · obtain ⟨t, ht, rfl⟩ := bind_pure_eq_ok.mp hset
    exact { hr with name := Cbor.storable_text hj ht }
  · obtain ⟨inputs, hinputs, rfl⟩ := bind_pure_eq_ok.mp hset
    obtain ⟨hlength, hmem⟩ := Cbor.list_decoded hj hinputs
    refine { hr with inputs := ⟨hlength, fun i hi => ?_⟩ }
    obtain ⟨item, hitem, hdecode⟩ := hmem i hi
    exact InterfaceInput.stored_of_ofItem hitem hdecode
  · obtain ⟨nodes, hnodes, rfl⟩ := bind_pure_eq_ok.mp hset
    obtain ⟨hlength, hmem⟩ := Cbor.list_decoded hj hnodes
    refine { hr with nodes := ⟨hlength, fun n hn => ?_⟩ }
    obtain ⟨item, hitem, hdecode⟩ := hmem n hn
    exact Node.stored_of_ofItem hitem hdecode
  · obtain ⟨output, houtput, rfl⟩ := bind_pure_eq_ok.mp hset
    exact { hr with output := Socket.stored_of_ofItem hj houtput }

/-- A graph that was decoded can be stored again. -/
theorem Stored.storable {g : Graph} (h : g.Stored) : g.Storable := by
  have hnodes : ∀ n ∈ g.nodes, n.Storable := fun n hn => (h.nodes.2 n hn).storable
  refine ⟨?_, ?_, ?_⟩
  · simp only [texts, List.forall_mem_cons, List.forall_mem_append, List.forall_mem_flatMap]
    exact ⟨h.name, ⟨fun i hi => (h.inputs.2 i hi).texts, fun n hn => (hnodes n hn).texts⟩, h.output.texts⟩
  · simp only [values, List.forall_mem_append, List.forall_mem_flatMap, List.mem_filterMap, Option.mem_toList]
    refine ⟨⟨?_, fun n hn => (hnodes n hn).values⟩, fun v hv => (h.output.value v hv).1⟩
    rintro v ⟨i, hi, hv⟩
    exact ((h.inputs.2 i hi).2 v hv).1
  · simp only [lengths, List.forall_mem_cons, List.forall_mem_flatMap]
    exact ⟨h.inputs.1, h.nodes.1, fun n hn => (hnodes n hn).lengths⟩

/-- **A graph that was read can be stored.** -/
theorem storable_of_parse {bytes : Text} {g : Graph} (hsize : bytes.length < 2 ^ 64) (h : parse bytes = .ok g) :
    g.Storable := by
  rw [parse] at h
  split at h
  · cases h
  · next item hitem => exact (stored_of_ofItem (Cbor.admitted_of_parse? hsize hitem) h).storable

end Graph

end ShadeGraph
