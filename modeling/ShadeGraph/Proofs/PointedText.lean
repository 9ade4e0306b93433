/-
  Points in code.

  In numbers and swizzles a point is followed by a digit or a component (`Text.Pointed`).  Literals, types,
  identifiers and swizzles are such texts, and so is what is put together from them.  A surface has members,
  which are read with a point too.  A pointed text reads none of them (`Pointed.reads_nothing`), and a member
  that is read in a longer text stands behind its pointed part (`Pointed.exists_behind`), so it can be said
  which word the members are read of (`ReadsOf`).
-/
import ShadeGraph.Proofs.Spelling

namespace ShadeGraph

/-! ## Points -/

namespace Text

/-- What a point is followed by in numbers and swizzles. -/
def pointWords : List Text :=
  ((List.range 10).map fun n => [46, digit n]) ++ Swizzle.vectorChannels.map fun c => [46, c]

/-- Every point of a text is followed by a digit or a component. -/
def Pointed (t : Text) : Prop := marked 46 pointWords t = true

instance (t : Text) : Decidable t.Pointed := inferInstanceAs (Decidable (_ = _))

/-- The members of a surface, as they are read. -/
def surfaceMembers : List Text := [".color", ".transparency"]

/-- A text ends with a word that is not part of a longer one. -/
def EndsIn (word t : Text) : Prop :=
  ∃ front, t = front ++ word ∧ ∀ b ∈ front.getLast?, Identifier.isWordByte b = false

/-- Members of a surface are read only behind a word. -/
def ReadsOf (word e : Text) : Prop :=
  ∀ member ∈ surfaceMembers, ∀ before after, e = before ++ member ++ after → word.EndsIn before

section

variable {s t before after : Text}

/-- No member of a surface is a digit or a component. -/
theorem surfaceMembers_other {member : Text} (h : member ∈ surfaceMembers) : member.head? = some 46 ∧
    ∀ w ∈ pointWords, w.isPrefixOf member = false ∧ member.isPrefixOf w = false := by
  have hall : surfaceMembers.all (fun m => m.head? == some 46 &&
      pointWords.all fun w => !w.isPrefixOf m && !m.isPrefixOf w) = true := by decide
  obtain ⟨hhead, hwords⟩ := Bool.and_eq_true_iff.mp (List.all_eq_true.mp hall member h)
  refine ⟨beq_iff_eq.mp hhead, fun w hw => ?_⟩
  obtain ⟨hleft, hright⟩ := Bool.and_eq_true_iff.mp (List.all_eq_true.mp hwords w hw)
  exact ⟨Bool.not_eq_true' _ ▸ hleft, Bool.not_eq_true' _ ▸ hright⟩

namespace Pointed

theorem append (hs : Pointed s) (ht : Pointed t) : Pointed (s ++ t) := marked_append hs ht

theorem joinWith {pieces : List Text} (hs : Pointed s) (h : ∀ p ∈ pieces, Pointed p) :
    Pointed (Text.joinWith s pieces) :=
  joinWith_induction rfl append hs h

/-- A member of a surface that is read in a text is read behind its pointed part. -/
theorem exists_behind {member : Text} (hs : Pointed s) (hm : member ∈ surfaceMembers)
    (h : s ++ t = before ++ member ++ after) : ∃ mid, before = s ++ mid ∧ t = mid ++ member ++ after :=
  Text.exists_behind hs (surfaceMembers_other hm).1 (surfaceMembers_other hm).2 h

/-- **A pointed text reads no member of a surface**, because a point is not followed by a letter of their names
in it. -/
theorem reads_nothing {member : Text} (hs : Pointed s) (hm : member ∈ surfaceMembers) :
    s ≠ before ++ member ++ after := fun h =>
  not_infix_of_marked hs (surfaceMembers_other hm).1 (surfaceMembers_other hm).2 ⟨before, after, h.symm⟩

end Pointed

/-- A word at the end of a text is one behind a point, too. -/
theorem EndsIn.behind_point {word : Text} (h : word.EndsIn t) (s : Text) : word.EndsIn (s ++ 46 :: t) := by
  obtain ⟨front, rfl, hlast⟩ := h
  refine ⟨s ++ 46 :: front, by simp, fun b hb => ?_⟩
  rw [List.getLast?_append_cons, List.getLast?_cons] at hb
  cases hfront : front.getLast? with
  | none =>
    rw [hfront] at hb
    obtain rfl := Option.some.inj hb
    rfl
  | some c =>
    rw [hfront] at hb
    obtain rfl := Option.some.inj hb
    exact hlast c hfront

theorem Pointed.readsOf {word : Text} (h : Pointed t) : ReadsOf word t :=
  fun _ hm _ _ he => absurd he (h.reads_nothing hm)

/-- One more member of a word may be read behind it. -/
theorem ReadsOf.behind {word : Text} (h : ReadsOf word t) (front : Text) (hword : word.Pointed)
    (hfront : front.Pointed) (hlast : ∀ b ∈ front.getLast?, Identifier.isWordByte b = false) :
    ReadsOf word (front ++ word ++ 46 :: t) := by
  intro member hm before after he
  obtain ⟨mid, rfl, hmid⟩ := (hfront.append hword).exists_behind hm he
  cases mid with
  | nil => exact ⟨front, List.append_nil _, hlast⟩
  | cons b mid =>
    obtain ⟨rfl, hrest⟩ := List.cons.inj hmid
    exact (h member hm mid after hrest).behind_point _

/-- Words have no points. -/
theorem pointed_of_isWordByte (h : ∀ b ∈ t, Identifier.isWordByte b = true) : Pointed t :=
  marked_of_not_mem fun hmem => absurd (h 46 hmem) (by decide)

theorem pointed_of_isDigit (h : ∀ b ∈ t, isDigit b = true) : Pointed t :=
  pointed_of_isWordByte fun b hb => Identifier.isWordByte_of_isDigit (h b hb)

/-- A point in front of digits. -/
theorem pointed_fraction {d : UInt8} (h : ∀ b ∈ d :: t, isDigit b = true) : Pointed (46 :: d :: t) := by
  have hd := h d List.mem_cons_self
  simp only [isDigit, Bool.and_eq_true, decide_eq_true_eq, UInt8.le_iff_toNat_le] at hd
  have hlow : 48 ≤ d.toNat := hd.1
  have hhigh : d.toNat ≤ 57 := hd.2
  have hdigit : digit (d.toNat - 48) = d := by
    rw [digit, Nat.add_sub_cancel' hlow, UInt8.ofNat_toNat]
  refine marked_cons.mpr ⟨fun _ => ⟨[46, d], ?_, t, rfl⟩, pointed_of_isDigit h⟩
  refine List.mem_append_left _ (List.mem_map.mpr ⟨d.toNat - 48, List.mem_range.mpr (by omega), ?_⟩)
  rw [hdigit]

end

end Text

/-! ## Points of literals and swizzles -/

/-- The point of a literal is followed by a digit. -/
theorem Binary32.pointed_literal (x : Binary32) : (x.literal .fixed).Pointed := by
  have hdigits : ∀ b ∈ x.literalValue.digits.digits, Text.isDigit b = true := fun _ =>
    Digits.isDigit_of_mem_ofDecimal
  have hwhole := Text.pointed_of_isDigit (Digits.isDigit_of_mem_whole hdigits)
  have hfraction : Text.Pointed
      (46 :: if x.literalValue.digits.fraction = [] then [48] else x.literalValue.digits.fraction) := by
    split
    · decide
    · next hne =>
      obtain ⟨d, t, hd⟩ := List.exists_cons_of_ne_nil hne
      rw [hd]
      exact Text.pointed_fraction (hd ▸ Digits.isDigit_of_mem_fraction hdigits)
  rw [literal, fixedLiteral, withSign]
  split
  · exact Text.Pointed.append (s := [45]) (by decide) (hwhole.append hfraction)
  · exact hwhole.append hfraction

theorem DataType.pointed_glslName (t : DataType) : t.glslName.Pointed := by
  cases t <;> exact of_decide_eq_true rfl

theorem Glsl.pointed_construct {type arguments : Text} (htype : type.Pointed)
    (harguments : arguments.Pointed) : (construct type arguments).Pointed :=
  ((htype.append (by decide)).append harguments).append (by decide)

theorem Glsl.pointed_floats (xs : List Binary32) : (floats .fixed ", " xs).Pointed := by
  refine Text.Pointed.joinWith (by decide) fun p hp => ?_
  obtain ⟨x, _, rfl⟩ := List.mem_map.mp hp
  exact x.pointed_literal

namespace Swizzle

/-- One channel is read with a point in front of it. -/
theorem pointed_member {name : Text} (h : name.Pointed) (source : DataType) (c : UInt8) :
    (member name source c).Pointed := by
  rw [member]
  split
  · decide
  · next i hi =>
    split
    · exact h
    · have hindex := List.mem_of_find?_eq_some (Option.filter_eq_some_iff.mp hi).1
      have hbound : i < 4 := List.mem_range.mp hindex
      refine h.append ?_
      interval_cases i <;> decide

/-- Channels of something pointed are pointed. -/
theorem pointed_expression {name : Text} (h : name.Pointed) (source : DataType) (channels : Text)
    (target : DataType) : (expression name source channels target).Pointed := by
  have hmembers : ∀ p ∈ channels.map (member name source), p.Pointed := by
    intro p hp
    obtain ⟨c, _, rfl⟩ := List.mem_map.mp hp
    exact pointed_member h source c
  rw [expression]
  split
  · next m hm => exact hmembers m (hm ▸ List.mem_singleton_self m)
  · exact Glsl.pointed_construct target.pointed_glslName (.joinWith (by decide) hmembers)

end Swizzle

end ShadeGraph
