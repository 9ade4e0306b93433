/-
  What a key tells apart.

  1. The encoding of options is short and gives the options back (`Options.encode_injective`).
  2. The words of a request say how long its texts are before the texts come, so that they give back all
     that a fragment depends on (`words_eq_iff_agrees`).
  3. A key is the hash in hexadecimal, from which the hash can be read again (`Text.hexOfNat_injective`).
     Requests whose words differ in one place have different keys; the version of the light interface
     is such a place, and so is the number of samples.
-/
import ShadeGraph.Cache.Key
import ShadeGraph.Proofs.CacheTransparency
import ShadeGraph.Proofs.Mixing

namespace ShadeGraph

/-! ## Hexadecimal numbers -/

namespace Text

/-- The number of a hexadecimal digit. -/
def hexDigitValue (b : UInt8) : Nat := if b < 58 then b.toNat - 48 else b.toNat - 87

/-- The number of hexadecimal digits, the highest first. -/
def hexValue (t : Text) : Nat := t.foldl (fun n b => 16 * n + hexDigitValue b) 0

theorem hexDigitValue_hexDigit : ∀ n < 16, hexDigitValue (hexDigit n) = n := by decide

/-- One digit more. -/
theorem hexValue_append_digit (t : Text) {n : Nat} (h : n < 16) :
    hexValue (t ++ [hexDigit n]) = 16 * hexValue t + n := by
  rw [hexValue, List.foldl_append]
  show 16 * hexValue t + hexDigitValue (hexDigit n) = _
  rw [hexDigitValue_hexDigit n h]

/-- Reading the hexadecimal digits of a number gives it back. -/
theorem hexValue_hexWithin : ∀ {fuel n : Nat}, n < fuel → hexValue (hexWithin fuel n) = n
  | fuel + 1, n, h => by
    rw [hexWithin]
    split
    · next hsmall => rw [← List.nil_append [hexDigit n], hexValue_append_digit [] hsmall]; exact Nat.zero_add n
    · rw [hexValue_append_digit _ (Nat.mod_lt n (by decide)), hexValue_hexWithin (show n / 16 < fuel by omega)]
      omega

/-- Different numbers have different digits. -/
theorem hexOfNat_injective : Function.Injective hexOfNat :=
  Function.LeftInverse.injective (g := hexValue) fun n => hexValue_hexWithin (Nat.lt_succ_self n)

end Text

/-! ## Encoded options -/

namespace Cbor

theorem length_head_le (major n : Nat) : (head major n).length ≤ 9 := by
  rw [head]
  split_ifs <;> simp

theorem Item.int_injective : Function.Injective Item.int := by
  intro m n h
  cases m <;> cases n <;> cases h <;> rfl

theorem Item.bool_injective : Function.Injective Item.bool := by
  intro b c h
  cases b <;> cases c <;> first | rfl | cases h

theorem length_encode_int_le (n : Int) : (Item.int n).encode.length ≤ 9 := by
  cases n <;> exact length_head_le _ _

/-- Few short entries have a short encoding. -/
theorem length_encodeEntries_le : ∀ {es : List (Item × Item)},
    (∀ e ∈ es, e.1.encode.length ≤ 9 ∧ e.2.encode.length ≤ 9) → (encodeEntries es).length ≤ 18 * es.length
  | [], _ => Nat.le_refl 0
  | e :: es, h => by
    obtain ⟨⟨hkey, hvalue⟩, hrest⟩ := List.forall_mem_cons.mp h
    have hlength := length_encodeEntries_le hrest
    rw [encodeEntries, List.length_append, List.length_append, List.length_cons]
    omega

end Cbor

namespace Options

/-- The record of options gives the options back. -/
theorem toItem_injective : Function.Injective toItem := by
  intro o p h
  simp only [toItem, Cbor.numberedEntry, List.cons_append, List.nil_append, Cbor.Item.map.injEq, List.cons.injEq,
    Prod.mk.injEq, Cbor.Item.unsigned.injEq, true_and, and_true] at h
  obtain ⟨hlights, hspecular, halbedo, hflip, htransparency⟩ := h
  have hspecular := Int64.toInt_inj.mp (Cbor.Item.int_injective hspecular)
  have halbedo := Int64.toInt_inj.mp (Cbor.Item.int_injective halbedo)
  cases o with
  | mk lights specular albedo verticalFlip transparency =>
    cases p with
    | mk lights' specular' albedo' verticalFlip' transparency' =>
      rw [Options.mk.injEq]
      exact ⟨UInt64.toNat_inj.mp hlights, congrArg Method.mk hspecular, congrArg Method.mk halbedo,
        Cbor.Item.bool_injective hflip, Cbor.Item.bool_injective htransparency⟩

/-- The record of options is intact: it has few fields, and they are numbers and flags. -/
theorem intact_toItem (o : Options) : o.toItem.Intact 0 := by
  have hlights : Cbor.Fit 1 1 (Cbor.numberedEntry 1 (.unsigned o.lights.toNat)) :=
    Cbor.fit_numbered (by decide) (Cbor.intact_unsigned o.lights.toNat_lt)
  have hspecular : Cbor.Fit 1 1 (Cbor.numberedEntry 2 (.int o.specular.code.toInt)) :=
    Cbor.fit_numbered (by decide) (Cbor.intact_int o.specular.code 1)
  have halbedo : Cbor.Fit 1 1 (Cbor.numberedEntry 3 (.int o.albedo.code.toInt)) :=
    Cbor.fit_numbered (by decide) (Cbor.intact_int o.albedo.code 1)
  have hflip : Cbor.Fit 1 1 (Cbor.numberedEntry 4 (.bool o.verticalFlip)) :=
    Cbor.fit_numbered (by decide) (Cbor.intact_bool o.verticalFlip)
  have htransparency : Cbor.Fit 1 1 (Cbor.numberedEntry 5 (.bool o.transparency)) :=
    Cbor.fit_numbered (by decide) (Cbor.intact_bool o.transparency)
  exact ((((hlights.append hspecular).append halbedo).append hflip).append htransparency).map (by decide) (by decide)

/-- **Different options have different encodings.** -/
theorem encode_injective : Function.Injective encode := by
  intro o p h
  have hparsed := o.intact_toItem.parse?
  rw [show o.toItem.encode = p.toItem.encode from h, p.intact_toItem.parse?] at hparsed
  exact toItem_injective (Option.some.inj hparsed).symm

/-- The encoding of options is so short that its length fits a word. -/
theorem length_encode_le (o : Options) : o.encode.length ≤ 99 := by
  have hentries : ∀ e ∈ Cbor.numberedEntry 1 (.unsigned o.lights.toNat) ++
      Cbor.numberedEntry 2 (.int o.specular.code.toInt) ++ Cbor.numberedEntry 3 (.int o.albedo.code.toInt) ++
      Cbor.numberedEntry 4 (.bool o.verticalFlip) ++ Cbor.numberedEntry 5 (.bool o.transparency),
      e.1.encode.length ≤ 9 ∧ e.2.encode.length ≤ 9 := by
    simp [Cbor.numberedEntry, Cbor.Item.encode, Cbor.Item.bool, Cbor.length_head_le, Cbor.length_encode_int_le]
  have hhead := Cbor.length_head_le 5 5
  have hlength := Cbor.length_encodeEntries_le hentries
  rw [encode, toItem, Cbor.Item.encode, List.length_append]
  exact Nat.add_le_add hhead hlength

end Options

/-! ## The words of a request -/

namespace FragmentSource

/-- Lengths that fill the same word are the same, up to a multiple of all words. -/
theorem mod_eq_of_toUInt64_eq {m n : Nat} (h : m.toUInt64 = n.toUInt64) : m % 2 ^ 64 = n % 2 ^ 64 := by
  have hnat := congrArg UInt64.toNat h
  rwa [Nat.toUInt64_eq, Nat.toUInt64_eq, UInt64.toNat_ofNat', UInt64.toNat_ofNat'] at hnat

theorem toUInt64_injective : Function.Injective Int64.toUInt64 := by
  rintro ⟨m⟩ ⟨n⟩ h
  exact congrArg Int64.ofUInt64 h

/-- All words of a request, in the order in which they are mixed in. -/
def words (s : FragmentSource) : List UInt64 :=
  s.header ++ Hash.words s.name ++ Hash.words s.graph ++ Hash.words s.options.encode

/-- The parts of a request go in one after the other, which comes to mixing in all their words. -/
theorem hash_eq (s : FragmentSource) : s.hash = s.words.foldl Hash.mix 0 := by
  simp only [hash, Hash.absorb, Hash.words_flatMap, words, List.foldl_append]

variable {s t : FragmentSource}

/-- Requests that agree have the same words, because the number of samples is counted only where samples are
drawn. -/
theorem Agrees.words_eq (h : s.Agrees t) : s.words = t.words := by
  rw [words, words, header, header, h.name, h.graph, h.options, h.api, h.samples]

/-- The words give the request back, as long as a word holds the length of the name: behind the name,
the length of the graph follows from the number of words. -/
theorem agrees_of_words_eq (hs : s.name.length < 2 ^ 64) (ht : t.name.length < 2 ^ 64) (h : s.words = t.words) :
    s.Agrees t := by
  simp only [words, List.append_assoc] at h
  obtain ⟨hheader, htexts⟩ := List.append_inj h rfl
  simp only [header, List.cons.injEq, and_true] at hheader
  obtain ⟨hapi, hsamples, hname, hgraph, hoptions⟩ := hheader
  have hname := mod_eq_of_toUInt64_eq hname
  have hgraph := mod_eq_of_toUInt64_eq hgraph
  have hoptions := mod_eq_of_toUInt64_eq hoptions
  have hshort := s.options.length_encode_le
  have hshort' := t.options.length_encode_le
  have hlength : s.name.length = t.name.length := by omega
  have hlength' : s.options.encode.length = t.options.encode.length := by omega
  obtain ⟨hname, htexts⟩ := List.append_inj htexts (Hash.length_words_congr hlength)
  obtain ⟨hgraph', hoptions⟩ := List.append_inj' htexts (Hash.length_words_congr hlength')
  have hlength'' : s.graph.length = t.graph.length := by
    have hs := Hash.length_words s.graph
    have ht := Hash.length_words t.graph
    rw [hgraph'] at hs
    omega
  exact ⟨Hash.words_inj hlength hname, Hash.words_inj hlength'' hgraph',
    Options.encode_injective (Hash.words_inj hlength' hoptions),
    congrArg LightApi.mk (toUInt64_injective hapi), toUInt64_injective hsamples⟩

/-- **The words of requests are the same just if the requests agree.** -/
theorem words_eq_iff_agrees (hs : s.name.length < 2 ^ 64) (ht : t.name.length < 2 ^ 64) :
    s.words = t.words ↔ s.Agrees t :=
  ⟨agrees_of_words_eq hs ht, Agrees.words_eq⟩

/-- The bytes of the words are the header and the three texts, each filled up. -/
theorem flatMap_words (s : FragmentSource) : s.words.flatMap Hash.bytesOfWord =
    s.header.flatMap Hash.bytesOfWord ++ Hash.padded s.name ++ Hash.padded s.graph ++
      Hash.padded s.options.encode := by
  simp only [words, List.flatMap_append, Hash.flatMap_words]

/-! ## Keys -/

/-- The key shows all of the hash. -/
theorem key_eq_iff_hash_eq : s.key = t.key ↔ s.hash = t.hash := by
  refine ⟨fun h => UInt64.toNat_inj.mp (Text.hexOfNat_injective h), fun h => ?_⟩
  rw [key, key, h]

/-- Requests whose words differ in one place have different keys. -/
theorem key_ne_of_words (before after : List UInt64) {v w : UInt64} (hs : s.words = before ++ v :: after)
    (ht : t.words = before ++ w :: after) (hvw : v ≠ w) : s.key ≠ t.key := by
  rw [Ne, key_eq_iff_hash_eq, hash_eq, hash_eq, hs, ht]
  exact Hash.foldl_mix_ne 0 before after hvw

/-- The words behind the version and the number of samples. -/
def textWords (s : FragmentSource) : List UInt64 :=
  s.name.length.toUInt64 :: s.graph.length.toUInt64 :: s.options.encode.length.toUInt64 ::
    (Hash.words s.name ++ Hash.words s.graph ++ Hash.words s.options.encode)

/-- The version and the number of samples are the first two words. -/
theorem words_eq_cons (s : FragmentSource) :
    s.words = s.api.version.toUInt64 :: s.effectiveSamples.toUInt64 :: s.textWords := by
  simp only [words, header, textWords, List.cons_append, List.nil_append, List.append_assoc]

/-- **Another version of the light interface always makes another key.** -/
theorem key_api_eq_iff (s : FragmentSource) (api : LightApi) : { s with api := api }.key = s.key ↔ api = s.api := by
  refine ⟨fun h => ?_, fun h => by rw [h]⟩
  by_contra hne
  have hword : api.version.toUInt64 ≠ s.api.version.toUInt64 := fun hsame =>
    hne (congrArg LightApi.mk (toUInt64_injective hsame))
  exact key_ne_of_words [] _ (words_eq_cons { s with api := api }) (words_eq_cons s) hword h

/-- **Another number of samples makes another key just if it counts.** -/
theorem key_samples_eq_iff (s : FragmentSource) (n : Int64) :
    { s with samples := n }.key = s.key ↔ { s with samples := n }.effectiveSamples = s.effectiveSamples := by
  constructor
  · intro h
    by_contra hne
    exact key_ne_of_words [s.api.version.toUInt64] _ (words_eq_cons { s with samples := n }) (words_eq_cons s)
      (fun hsame => hne (toUInt64_injective hsame)) h
  · intro h
    rw [key_eq_iff_hash_eq, hash_eq, hash_eq, words_eq_cons, words_eq_cons, h]
    rfl

/-- The number of samples that a count stands for where samples are drawn. -/
def normalSamples (n : Int64) : Int64 := if n ≤ 0 then FragmentGenerator.defaultSamples else n

/-- Where samples are drawn, the count is taken as it is, if it is positive. -/
theorem effectiveSamples_sampled (h : s.options.specular = .sampled) :
    s.effectiveSamples = normalSamples s.samples := by
  rw [effectiveSamples, if_neg (not_not_intro h), normalSamples]

/-- A key is the fold of the mixing step over words.  The words are the header and the three texts, filled
up with zeros; as long as a word holds the lengths of names, they are the same just for requests that agree.
A step is a bijection in both arguments, so that keys differ if the words do in one place.  For any texts and
options a key tells the light interface, and where samples are drawn also their number. -/
theorem key_tells_apart (s t : FragmentSource) :
    s.key = Text.hexOfNat (s.words.foldl Hash.mix 0).toNat ∧
    s.words.flatMap Hash.bytesOfWord = s.header.flatMap Hash.bytesOfWord ++ Hash.padded s.name ++
      Hash.padded s.graph ++ Hash.padded s.options.encode ∧
    (s.name.length < 2 ^ 64 → t.name.length < 2 ^ 64 → (s.words = t.words ↔ s.Agrees t)) ∧
    (∀ w, Function.Bijective (Hash.mix · w)) ∧ (∀ state, Function.Bijective (Hash.mix state)) ∧
    (∀ before after v w, s.words = before ++ v :: after → t.words = before ++ w :: after → v ≠ w →
      s.key ≠ t.key) ∧
    (∀ api, { s with api := api }.key = s.key ↔ api = s.api) ∧
    (s.options.specular = .sampled → ∀ n, { s with samples := n }.key = s.key ↔
      normalSamples n = normalSamples s.samples) := by
  refine ⟨by rw [key, hash_eq], s.flatMap_words, words_eq_iff_agrees, Hash.mix_bijective_state, Hash.mix_bijective_word, ?_,
    s.key_api_eq_iff, ?_⟩
  · intro before after v w hs ht hvw
    exact key_ne_of_words before after hs ht hvw
  · intro hsampled n
    rw [key_samples_eq_iff, effectiveSamples_sampled hsampled,
      effectiveSamples_sampled (s := { s with samples := n }) hsampled]

/-- A request whose name ends in a zero. -/
def zeroEnded : FragmentSource := ⟨[97, 0], [1, 2, 3], .standard, .legacy, 0⟩

/-- The request without the zero, which fills up to the same words. -/
def zeroFilled : FragmentSource := { zeroEnded with name := [97] }

/-- The name's words are the same with its last zero and without it, but its length is not; and no samples
are as good as the usual number of them. -/
theorem key_tells_apart_zeros : Hash.words zeroEnded.name = Hash.words zeroFilled.name ∧
    zeroEnded.words ≠ zeroFilled.words ∧ zeroEnded.key ≠ zeroFilled.key ∧
    { zeroEnded with api := .v2 }.key ≠ zeroEnded.key ∧ { zeroEnded with samples := 64 }.key = zeroEnded.key ∧
    { zeroEnded with samples := 65 }.key ≠ zeroEnded.key := by
  obtain ⟨-, -, hwords, -, -, hplace, hapi, hsamples⟩ := key_tells_apart zeroEnded zeroFilled
  refine ⟨rfl, ?_, ?_, ?_, ?_, ?_⟩
  · rw [Ne, hwords (by decide) (by decide)]
    intro hagrees
    exact absurd hagrees.name (by decide)
  · exact hplace [1, 64] zeroEnded.textWords.tail 2 1 (by decide) (by decide) (by decide)
  · exact fun h => absurd ((hapi .v2).mp h) (by decide)
  · exact (hsamples rfl 64).mpr (by decide)
  · exact fun h => absurd ((hsamples rfl 65).mp h) (by decide)

end FragmentSource
end ShadeGraph
