/-
  The color that the root function returns.

  1. `Glsl.Components` counts the components of an expression by its text.  Turning what the socket shows into
     a color gives as many as are returned (`components_color`).
  2. A graph is classified by the first output of the node that its socket shows, also when the socket shows
     another output of that node (`StandsFor.classified`).
  3. So the returned expression is a color that reads surfaces only, except in two cases (`typed_iff`): the
     first output is a closure, which is returned as black of three components, and the first output is a
     surface, but the socket shows something else, of which no color can be read.
-/
import ShadeGraph.Proofs.PointedText
import ShadeGraph.Proofs.SoundText
import ShadeGraph.Proofs.SwizzleMembers

namespace ShadeGraph

/-! ## Components -/

/-- A type with a color that can be read. -/
def DataType.isSurface (t : DataType) : Bool := t = .surfaceShader || t = .material

theorem DataType.eq_of_isFloat3 {t : DataType} (h : t.isFloat3 = true) : t = .vector3 ∨ t = .color3 := by
  simpa only [isFloat3, Bool.or_eq_true, decide_eq_true_eq] using h

theorem DataType.eq_of_isFloat4 {t : DataType} (h : t.isFloat4 = true) : t = .vector4 ∨ t = .color4 := by
  simpa only [isFloat4, Bool.or_eq_true, decide_eq_true_eq] using h

theorem DataType.size_of_isFloat3 {t : DataType} (h : t.isFloat3 = true) : t.size = 3 := by
  rcases eq_of_isFloat3 h with rfl | rfl <;> rfl

theorem DataType.size_of_isFloat4 {t : DataType} (h : t.isFloat4 = true) : t.size = 4 := by
  rcases eq_of_isFloat4 h with rfl | rfl <;> rfl

/-- A closure has no color to read. -/
theorem DataType.not_surface_of_closure {t : DataType} (h : t.isClosure = true) : t.isSurface = false := by
  simp only [isClosure, Bool.or_eq_true, decide_eq_true_eq] at h
  rcases h with rfl | rfl <;> rfl

/-- How many components an expression has by its text: a variable has those of its type, `.xyz` and `.color`
have three, and a call of `vec` followed by a number has that many. -/
inductive Glsl.Components (scope : List (Text × DataType)) : Text → Nat → Prop
  | named {name : Text} {t : DataType} (h : (name, t) ∈ scope) : Components scope name t.size
  | xyz {e : Text} (h : Components scope e 4) : Components scope (e ++ ".xyz") 3
  | color (e : Text) : Components scope (e ++ ".color") 3
  | vector (n : Nat) (arguments : Text) (h : arguments.Balanced) :
      Components scope (construct ("vec" ++ Text.ofNat n) arguments) n

open Glsl (Components)

namespace FragmentGenerator

/-- The number of components of the color that is returned. -/
def width (transparent : Bool) : Nat := if transparent then 4 else 3

/-- The type that the root function returns has as many components as a color of this kind. -/
theorem returnType_eq (transparent : Bool) : returnType transparent = "vec" ++ Text.ofNat (width transparent) := by
  cases transparent <;> rfl

section

variable {scope : List (Text × DataType)} {e : Text} {t : DataType}

/-- A color that is made from components, of which an expression gives the first ones. -/
theorem components_call (transparent : Bool) (back : Text) (he : e.Balanced) (hback : back.Balanced) :
    Components scope (returnType transparent ++ "(" ++ e ++ (back ++ ")")) (width transparent) := by
  have hvector : Components scope _ (width transparent) := .vector _ _ (he.append hback)
  rw [returnType_eq]
  simp only [Glsl.construct, List.append_assoc] at hvector ⊢
  exact hvector

/-- **Whatever the type, three components are made of it**: they are taken from the expression, or filled up
with zeros. -/
theorem components_toVec3 (he : e.Balanced)
    (hsize : t.isFloat3 = true ∨ t.isFloat4 = true → Components scope e t.size) :
    Components scope (Color.toVec3 t e) 3 := by
  have hcomma : Text.Balanced ", " := by decide
  rw [Color.toVec3]
  split
  · next ht => exact DataType.size_of_isFloat3 ht ▸ hsize (.inl ht)
  split
  · exact components_call false ", 0.0" he (by decide)
  split
  · next ht => exact .xyz (DataType.size_of_isFloat4 ht ▸ hsize (.inr ht))
  split
  · have hcall : Components scope _ 3 := components_call false (", " ++ e ++ ", " ++ e) he
      (((hcomma.append he).append hcomma).append he)
    simp only [List.append_assoc] at hcall ⊢
    exact hcall
  split
  · exact components_call false [] he .nil
  · exact .vector 3 "0.0, 0.0, 0.0" (by decide)

/-- **And four of them**, an alpha of one included where the expression has none. -/
theorem components_toVec4 (he : e.Balanced)
    (hsize : t.isFloat3 = true ∨ t.isFloat4 = true → Components scope e t.size) :
    Components scope (Color.toVec4 t e) 4 := by
  have hcomma : Text.Balanced ", " := by decide
  rw [Color.toVec4]
  split
  · next ht => exact DataType.size_of_isFloat4 ht ▸ hsize (.inr ht)
  split
  · exact components_call true ", 1.0" he (by decide)
  split
  · exact components_call true ", 0.0, 1.0" he (by decide)
  split
  · have hcall : Components scope _ 4 := components_call true (", " ++ e ++ ", " ++ e ++ ", 1.0") he
      ((((hcomma.append he).append hcomma).append he).append (by decide))
    simp only [List.append_assoc] at hcall ⊢
    exact hcall
  split
  · exact components_call true ", 1.0" he (by decide)
  · exact .vector 4 "0.0, 0.0, 0.0, 1.0" (by decide)

end

/-! ## The expression that is returned -/

/-- The text of what the socket shows. -/
def shownText (socket : ShaderSocket) (p : Port) : Text :=
  if socket.channels = [] then p.ident
  else Swizzle.expression p.ident p.type socket.channels socket.port.type

/-- The expression that the root function returns. -/
def returned (graph : ShaderGraph) (transparent : Bool) : Text :=
  let socket := graph.socket
  let t := socket.port.type
  if graph.bareClosure then "vec3(0.0)"
  else
    match socket.connection with
    | some p =>
      if graph.classification.has .surface then surfaceColor transparent (shownText socket p)
      else color transparent t (shownText socket p)
    | none =>
      if (if transparent then t.isFloat4 else t.isFloat3) then socketValue socket
      else color transparent t (localName socket)

/-- The variables that a returned expression may be made from: the outputs of the nodes, and the local
variable of a socket that is not connected. -/
def scopeOf (graph : ShaderGraph) : List (Text × DataType) :=
  (graph.nodes.flatMap ShaderNode.outputs).map (fun p => (p.ident, p.type)) ++
    match graph.socket.connection with
    | some _ => []
    | none => [(localName graph.socket, graph.socket.port.type)]

/-- Members are read only of a surface that the socket shows. -/
def ReadsSurface (socket : ShaderSocket) (e : Text) : Prop :=
  ∀ member ∈ Text.surfaceMembers, ∀ before after, e = before ++ member ++ after →
    ∃ p ∈ socket.connection, p.type.isSurface = true ∧ p.ident.EndsIn before

/-- An expression is a color as the signature asks for it. -/
structure TypedColor (graph : ShaderGraph) (transparent : Bool) (e : Text) : Prop where
  components : Components (scopeOf graph) e (width transparent)
  reads : ReadsSurface graph.socket e

/-- An expression whose points are those of numbers and of vectors reads no member of a surface. -/
theorem readsSurface_of_pointed {socket : ShaderSocket} {e : Text} (h : e.Pointed) : ReadsSurface socket e :=
  fun _ hm _ _ he => absurd he (h.reads_nothing hm)

/-- A closure that no surface stands around is returned as black, with three components in any case. -/
theorem returned_of_bare {graph : ShaderGraph} (h : graph.bareClosure = true) (transparent : Bool) :
    returned graph transparent = "vec3(0.0)" := by
  simp only [returned, h, if_true]

/-- The last statement returns the expression.  What is in front of it declares the local variable of a socket
that nothing is connected to. -/
theorem exists_returnStatements {graph : ShaderGraph} (h : graph.bareClosure = false) (transparent : Bool) :
    ∃ front : List Text, returnStatements .fixed graph transparent =
      front ++ ["return " ++ returned graph transparent] := by
  rw [returnStatements, returned]
  simp only [h, Bool.false_eq_true, if_false]
  cases graph.socket.connection with
  | some p =>
    refine ⟨[], ?_⟩
    simp only [shownText]
    split <;> rfl
  | none =>
    by_cases hdirect : (if transparent = true then graph.socket.port.type.isFloat4
        else graph.socket.port.type.isFloat3) = true
    · simp only [if_pos hdirect]
      exact ⟨[], rfl⟩
    · simp only [if_neg hdirect]
      exact ⟨[_], rfl⟩

/-- The last statement of the body returns the expression. -/
theorem exists_return (g : FragmentGenerator) (transparent : Bool) (graph : ShaderGraph) (ps : Stage) :
    ∃ front : List Text, (g.rootBody transparent graph ps).map Statement.text =
      front ++ ["return " ++ returned graph transparent] := by
  cases hbare : graph.bareClosure with
  | true =>
    rw [rootBody, if_pos hbare, returned_of_bare hbare]
    exact ⟨[], rfl⟩
  | false =>
    obtain ⟨front, hfront⟩ := exists_returnStatements hbare transparent
    rw [rootBody, hbare, if_neg Bool.false_ne_true, List.map_append, ← returnStatements_eq, hfront,
      ← List.append_assoc]
    exact ⟨_, rfl⟩

section

variable {graph : ShaderGraph} {scope : List (Text × DataType)} {t : DataType} {p : Port}

/-! ## Values and swizzles of colors -/

/-- The name of a color's type tells how many components it has. -/
theorem glslName_of_color (h : t.isFloat3 = true ∨ t.isFloat4 = true) :
    t.glslName = "vec" ++ Text.ofNat t.size := by
  rcases h with h | h
  · rcases DataType.eq_of_isFloat3 h with rfl | rfl <;> rfl
  · rcases DataType.eq_of_isFloat4 h with rfl | rfl <;> rfl

/-- A value of a color is a call of its type. -/
theorem exists_socketValue {socket : ShaderSocket} (hvalue : ∀ v ∈ socket.port.value, v.type = socket.port.type)
    (h : socket.port.type.isFloat3 = true ∨ socket.port.type.isFloat4 = true) :
    ∃ arguments : Text, arguments.Calm ∧ arguments.Pointed ∧
      socketValue socket = Glsl.construct socket.port.type.glslName arguments := by
  have htype : socket.port.type = .vector3 ∨ socket.port.type = .color3 ∨ socket.port.type = .vector4 ∨
      socket.port.type = .color4 := by
    rcases h with h | h
    · rcases DataType.eq_of_isFloat3 h with h | h <;> simp [h]
    · rcases DataType.eq_of_isFloat4 h with h | h <;> simp [h]
  rw [socketValue]
  cases hv : socket.port.value with
  | none =>
    refine ⟨"0.0", by decide, by decide, ?_⟩
    rcases htype with htype | htype | htype | htype <;> rw [htype] <;> rfl
  | some v =>
    refine ⟨Glsl.floats .fixed ", " v.components, Glsl.calm_floats _, Glsl.pointed_floats _, ?_⟩
    have hsame := hvalue v hv
    rw [← hsame] at htype ⊢
    rcases htype with htype | htype | htype | htype <;> simp only [Value.literal, htype]

/-- The value of a socket that is a color already is returned as it is, without a local variable. -/
theorem typed_socketValue {socket : ShaderSocket} {transparent : Bool}
    (hvalue : ∀ v ∈ socket.port.value, v.type = socket.port.type)
    (h : (if transparent = true then socket.port.type.isFloat4 else socket.port.type.isFloat3) = true) :
    Components scope (socketValue socket) (width transparent) ∧ (socketValue socket).Pointed := by
  have hcolor : (socket.port.type.isFloat3 = true ∨ socket.port.type.isFloat4 = true) ∧
      socket.port.type.size = width transparent := by
    cases transparent with
    | false => exact ⟨.inl h, DataType.size_of_isFloat3 h⟩
    | true => exact ⟨.inr h, DataType.size_of_isFloat4 h⟩
  obtain ⟨arguments, hcalm, hpointed, hconstruct⟩ := exists_socketValue hvalue hcolor.1
  rw [hconstruct]
  refine ⟨?_, Glsl.pointed_construct (DataType.pointed_glslName _) hpointed⟩
  rw [glslName_of_color hcolor.1, hcolor.2]
  exact .vector _ _ hcalm.balanced

/-- Channels that make a color are put together by a call of its type. -/
theorem exists_swizzle {channels : Text} (hp : p.ident.Calm)
    (hcheck : Swizzle.check p.type channels t = .ok ()) (h : t.isFloat3 = true ∨ t.isFloat4 = true) :
    ∃ arguments : Text, arguments.Calm ∧
      Swizzle.expression p.ident p.type channels t = Glsl.construct t.glslName arguments := by
  have hmany : channels.length ≠ 1 := by
    rw [(Swizzle.check_eq_ok_iff.mp hcheck).length]
    rcases h with h | h
    · rw [DataType.size_of_isFloat3 h]; decide
    · rw [DataType.size_of_isFloat4 h]; decide
  refine ⟨Text.joinWith ", " (channels.map (Swizzle.member p.ident p.type)), ?_,
    Swizzle.expression_of_length hmany⟩
  refine Text.Calm.joinWith (by decide) fun m hm => ?_
  obtain ⟨c, _, rfl⟩ := List.mem_map.mp hm
  exact Swizzle.calm_member hp p.type c

/-- The socket fits a port of a shader. -/
def FitsPort (socket : ShaderSocket) (p : Port) : Prop :=
  if socket.channels = [] then p.type = socket.port.type
  else Swizzle.check p.type socket.channels socket.port.type = .ok ()

/-- What the socket shows has the components of the socket's type: a port of that type, or channels that make
one. -/
theorem components_shownText {socket : ShaderSocket} (hp : (p.ident, p.type) ∈ scope) (hcalm : p.ident.Calm)
    (hfits : FitsPort socket p) (h : socket.port.type.isFloat3 = true ∨ socket.port.type.isFloat4 = true) :
    Components scope (shownText socket p) socket.port.type.size := by
  rw [FitsPort] at hfits
  rw [shownText]
  split at hfits
  · next hchannels =>
    rw [if_pos hchannels, ← hfits]
    exact .named hp
  · next hchannels =>
    obtain ⟨arguments, harguments, hexpression⟩ := exists_swizzle hcalm hfits h
    rw [if_neg hchannels, hexpression, glslName_of_color h]
    exact .vector _ _ harguments.balanced

/-- Taking channels of a port puts brackets in pairs around it. -/
theorem calm_shownText {socket : ShaderSocket} (h : p.ident.Calm) : (shownText socket p).Calm := by
  rw [shownText]
  split
  · exact h
  · exact Swizzle.calm_expression h _ _ _

/-- Taking channels of a port adds points in front of channels only. -/
theorem pointed_shownText {socket : ShaderSocket} (h : p.ident.Pointed) : (shownText socket p).Pointed := by
  rw [shownText]
  split
  · exact h
  · exact Swizzle.pointed_expression h _ _ _

/-- A surface is shown as it is. -/
theorem shownText_surface {socket : ShaderSocket} (hfits : FitsPort socket p) (h : p.type.isSurface = true) :
    shownText socket p = p.ident := by
  have hsize : p.type.size = 0 := by
    simp only [DataType.isSurface, Bool.or_eq_true, decide_eq_true_eq] at h
    rcases h with h | h <;> rw [h] <;> rfl
  rw [FitsPort] at hfits
  rw [shownText]
  split at hfits
  · next hchannels => rw [if_pos hchannels]
  · rw [Swizzle.check, if_pos (.inl hsize)] at hfits
    cases hfits

/-- The color has as many components as are returned. -/
theorem components_color (transparent : Bool) {e : Text} (he : e.Balanced)
    (hsize : t.isFloat3 = true ∨ t.isFloat4 = true → Components scope e t.size) :
    Components scope (color transparent t e) (width transparent) := by
  cases transparent with
  | false => exact components_toVec3 he hsize
  | true => exact components_toVec4 he hsize

/-- Making a color of an expression reads no member of it. -/
theorem pointed_color (transparent : Bool) (t : DataType) {e : Text} (he : e.Pointed) :
    (color transparent t e).Pointed := by
  have hpattern : ∀ p ∈ colorPattern transparent t, p.Pointed := by
    cases transparent <;> cases t <;> exact of_decide_eq_true rfl
  rw [color_eq]
  exact he.joinWith hpattern

/-- The color of a surface has as many components as are returned, too. -/
theorem components_surfaceColor (transparent : Bool) {e : Text} (he : e.Balanced) :
    Components scope (surfaceColor transparent e) (width transparent) := by
  cases transparent with
  | false => exact .color e
  | true =>
    have hback : Text.Balanced (".color, clamp(1.0 - dot(" ++ e ++ ".transparency, vec3(0.3333)), 0.0, 1.0)") :=
      he.enclose (by decide)
    have hcall : Components scope _ (width true) := components_call true _ he hback
    rw [surfaceColor, if_pos rfl]
    simp only [List.append_assoc] at hcall ⊢
    exact hcall

/-- The color of a surface reads a member. -/
theorem exists_member_surfaceColor (transparent : Bool) (e : Text) :
    ∃ before after, surfaceColor transparent e = before ++ Text.ofString ".color" ++ after := by
  cases transparent with
  | false => exact ⟨e, [], (List.append_nil _).symm⟩
  | true =>
    refine ⟨"vec4(" ++ e, ", clamp(1.0 - dot(" ++ e ++ ".transparency, vec3(0.3333)), 0.0, 1.0))", ?_⟩
    rw [surfaceColor, if_pos rfl]
    simp only [List.append_assoc]
    rfl

/-- In the color of a surface, members are read of the surface and of nothing else. -/
theorem readsOf_surfaceColor (transparent : Bool) {x : Text} (hx : x.Pointed) :
    x.ReadsOf (surfaceColor transparent x) := by
  cases transparent with
  | false =>
    have hcolor : Text.ReadsOf x "color" := Text.Pointed.readsOf (by decide)
    exact hcolor.behind [] hx rfl (by simp)
  | true =>
    have hrest : Text.ReadsOf x "transparency, vec3(0.3333)), 0.0, 1.0))" := Text.Pointed.readsOf (by decide)
    have hmiddle := hrest.behind "color, clamp(1.0 - dot(" hx (by decide)
      fun b hb => Option.some.inj hb ▸ rfl
    have hall := hmiddle.behind "vec4(" hx (by decide) fun b hb => Option.some.inj hb ▸ rfl
    rw [surfaceColor, if_pos rfl]
    simp only [List.append_assoc] at hall ⊢
    exact hall

/-- Black of three components is no color with an alpha. -/
theorem not_components_black (hscope : ∀ v ∈ scope, ∀ b ∈ v.1, Identifier.isWordByte b = true) :
    ¬ Components scope "vec3(0.0)" 4 := by
  intro h
  generalize he : Text.ofString "vec3(0.0)" = e at h
  generalize hn : 4 = n at h
  cases h with
  | named hmem =>
    have hparenthesis : (40 : UInt8) ∈ Text.ofString "vec3(0.0)" := by decide
    cases hscope _ hmem 40 (he ▸ hparenthesis)
  | xyz _ => cases hn
  | color _ => cases hn
  | vector n _ _ =>
    subst hn
    have hfourth : some (51 : UInt8) = some 52 := congrArg (·[3]?) he
    cases hfourth

end

end FragmentGenerator

/-! ## The classification of a graph -/

/-- The first output of the node that the socket of a graph shows. -/
def Graph.feeding? (g : Graph) : Option NodeOutput :=
  (g.node? g.output.node).bind fun n => n.allOutputs.head?

/-- The color of a graph can be returned: what its socket shows is not classified as a closure if an alpha is
asked for, and is a surface if it is classified as one. -/
def Graph.Paints (g : Graph) (transparent : Bool) : Prop :=
  g.output.isConnected = true → ∀ first ∈ g.feeding?, ∀ shown ∈ g.shown?,
    (first.type.isClosure = true → transparent = false) ∧
    (first.type.isSurface = true → shown.type.isSurface = true)

/-- Implementations add nothing to a classification but that a surface takes no light. -/
theorem Implementation.added (i : Implementation) :
    i.classification?.getD .empty = .empty ∨ i.classification?.getD .empty = .unlit := by
  cases i with
  | surfaceUnlit => exact .inr rfl
  | surface lights => cases lights <;> exact .inl rfl
  | _ => exact .inl rfl

theorem DataType.classify_reserved (k : Fin 239) : (reserved k).classify = .texture := rfl

/-- What implementations add to a classification does not make a surface of it. -/
theorem DataType.has_surface_classify (t : DataType) {c : Classification} (hc : c = .empty ∨ c = .unlit) :
    (t.classify.union c).has .surface = t.isSurface := by
  cases t with
  | reserved k =>
    have hnot : (reserved k).isSurface = false := by simp [isSurface]
    rw [hnot, classify_reserved]
    rcases hc with rfl | rfl <;> rfl
  | _ => rcases hc with rfl | rfl <;> rfl

/-- Nor does it make or break a closure. -/
theorem DataType.has_closure_classify (t : DataType) {c : Classification} (hc : c = .empty ∨ c = .unlit) :
    ((t.classify.union c).has .closure && !(t.classify.union c).has .shader) = t.isClosure := by
  cases t with
  | reserved k =>
    have hnot : (reserved k).isClosure = false := by simp [isClosure]
    rw [hnot, classify_reserved]
    rcases hc with rfl | rfl <;> rfl
  | _ => rcases hc with rfl | rfl <;> rfl

/-- A node is classified by its first output. -/
theorem ShaderNode.StandsFor.classified {registry : Registry} {n : Node} {m : ShaderNode}
    (h : StandsFor registry n m) : ∃ first, n.allOutputs.head? = some first ∧
      m.classification.has .surface = first.type.isSurface ∧
      (m.classification.has .closure && !m.classification.has .shader) = first.type.isClosure := by
  obtain ⟨q, hm⟩ : ∃ q, m.outputs.head? = some q :=
    Option.ne_none_iff_exists'.mp (mt List.head?_eq_none_iff.mp h.outputs_ne_nil)
  have hhead := head?_rel h.outputs
  rw [hm] at hhead
  cases hn : n.allOutputs.head? with
  | none =>
    rw [hn] at hhead
    cases hhead
  | some first =>
    rw [hn] at hhead
    cases hhead with
    | some hq =>
      have hclass : m.classification =
          first.type.classify.union (m.implementation.classification?.getD .empty) := by
        obtain ⟨rest, hrest⟩ := List.head?_eq_some_iff.mp hm
        have hclassified := h.classification
        rw [hrest] at hclassified
        rw [← Except.ok.inj hclassified, hq.2.1]
      refine ⟨first, rfl, ?_, ?_⟩
      · rw [hclass, first.type.has_surface_classify m.implementation.added]
      · rw [hclass, first.type.has_closure_classify m.implementation.added]

namespace FragmentGenerator

/-! ## The return statement -/

/-- Replacing tokens leaves the type that is returned. -/
theorem returns_finalRoot (g : FragmentGenerator) (o : Options) (graph : ShaderGraph) (ps : Stage) :
    (g.finalRoot o graph ps).returns = "vec" ++ Text.ofNat (width o.transparency) := by
  have hquiet : (returnType o.transparency).Quiet := by cases o.transparency <;> decide
  rw [← returnType_eq]
  exact (g.finalTokens_hosted o).replace_of_quiet hquiet

namespace Finished

variable {g : FragmentGenerator} {o : Options} {gr : Graph} {v : Inventory} {ps : Stage} {s : Shader}

/-- The outputs of nodes have words for identifiers. -/
theorem isWordByte_output (h : g.Finished o gr v ps s) {p : Port}
    (hp : p ∈ s.graph.nodes.flatMap ShaderNode.outputs) : ∀ b ∈ p.ident, Identifier.isWordByte b = true := by
  intro b hb
  obtain ⟨name, hname, _⟩ := h.created.accounted.spelled p (List.mem_append_right _ hp)
  exact hname.isWordByte hb

/-- So has the local variable of a socket. -/
theorem isWordByte_localName (h : g.Finished o gr v ps s) :
    ∀ b ∈ localName s.graph.socket, Identifier.isWordByte b = true := by
  intro b hb
  obtain ⟨_, hspelled⟩ := h.created.spelled
  rcases List.mem_append.mp hb with hb | hb
  · exact hspelled.isWordByte hb
  · exact List.all_eq_true.mp (by decide : (Text.ofString "_tmp").all Identifier.isWordByte = true) b hb

/-- So have all variables that the returned expression may name. -/
theorem isWordByte_scopeOf (h : g.Finished o gr v ps s) :
    ∀ x ∈ scopeOf s.graph, ∀ b ∈ x.1, Identifier.isWordByte b = true := by
  intro x hx
  rcases List.mem_append.mp hx with hx | hx
  · obtain ⟨p, hp, rfl⟩ := List.mem_map.mp hx
    exact h.isWordByte_output hp
  · split at hx
    · cases hx
    · rw [List.mem_singleton.mp hx]
      exact h.isWordByte_localName

/-- The statement that returns the color has no tokens, so that it is not changed when they are replaced. -/
theorem calm_return (h : g.Finished o gr v ps s) (transparent : Bool) :
    Text.Calm ("return " ++ returned s.graph transparent) := by
  cases hbare : s.graph.bareClosure with
  | true =>
    rw [returned_of_bare hbare]
    decide
  | false =>
    obtain ⟨front, hfront⟩ := exists_returnStatements hbare transparent
    obtain ⟨_, hspelled⟩ := h.created.spelled
    have hlines := calm_returnStatements transparent
      (fun p hp => Text.calm_of_isWordByte (h.isWordByte_output (h.created.socket p hp))) hspelled.calm
    exact hlines _ (hfront ▸ List.mem_append_right _ List.mem_cons_self)

/-- The last statement returns the expression, in which there are no tokens. -/
theorem exists_return (h : g.Finished o gr v ps s) :
    ∃ front : List Text, (g.finalRoot o s.graph ps).body.map Statement.text =
      front ++ ["return " ++ returned s.graph o.transparency] := by
  obtain ⟨front, hfront⟩ := g.exists_return o.transparency s.graph ps
  have hosted := g.finalTokens_hosted o
  have hbody : (g.finalRoot o s.graph ps).body.map Statement.text =
      ((g.rootBody o.transparency s.graph ps).map Statement.text).map (g.finalTokens o).replace := by
    rw [finalRoot, RootFunction.resolve, root, List.map_map, List.map_map]
    exact List.map_congr_left fun st _ => hosted.text_resolve st
  refine ⟨front.map (g.finalTokens o).replace, ?_⟩
  rw [hbody, hfront, List.map_append, List.map_singleton, hosted.replace_of_quiet (h.calm_return _).quiet]

/-- The value of a socket that is not connected is returned as a color. -/
theorem typed_value (h : g.Finished o gr v ps s) (hbare : s.graph.bareClosure = false)
    (hport : s.graph.socket.connection = none)
    (hvalue : ∀ v ∈ s.graph.socket.port.value, v.type = s.graph.socket.port.type) (transparent : Bool) :
    TypedColor s.graph transparent (returned s.graph transparent) := by
  have hlocal : (localName s.graph.socket, s.graph.socket.port.type) ∈ scopeOf s.graph := by
    rw [scopeOf, hport]
    exact List.mem_append_right _ List.mem_cons_self
  have hword := h.isWordByte_localName
  rw [returned, hbare, hport, if_neg Bool.false_ne_true]
  by_cases hdirect : (if transparent = true then s.graph.socket.port.type.isFloat4
      else s.graph.socket.port.type.isFloat3) = true
  · simp only [if_pos hdirect]
    have htyped : Components (scopeOf s.graph) _ (width transparent) ∧ _ := typed_socketValue hvalue hdirect
    exact ⟨htyped.1, readsSurface_of_pointed htyped.2⟩
  · simp only [if_neg hdirect]
    exact ⟨components_color transparent (Text.balanced_of_isWordByte hword) fun _ => .named hlocal,
      readsSurface_of_pointed (pointed_color transparent _ (Text.pointed_of_isWordByte hword))⟩

/-- A closure by itself is returned as a color unless an alpha is asked for. -/
theorem typed_closure_iff (h : g.Finished o gr v ps s) (hbare : s.graph.bareClosure = true) (transparent : Bool) :
    TypedColor s.graph transparent (returned s.graph transparent) ↔ transparent = false := by
  rw [returned_of_bare hbare]
  cases transparent with
  | false =>
    exact iff_of_true ⟨.vector 3 "0.0" (by decide), readsSurface_of_pointed (by decide)⟩ rfl
  | true =>
    exact iff_of_false (fun htyped => not_components_black h.isWordByte_scopeOf htyped.components) (by decide)

section

variable {p : Port} (hport : s.graph.socket.connection = some p) (hfits : FitsPort s.graph.socket p)
include hport hfits

/-- A port that is no surface is returned as a color. -/
theorem typed_color (h : g.Finished o gr v ps s) (hbare : s.graph.bareClosure = false)
    (hsurface : s.graph.classification.has .surface = false) (transparent : Bool) :
    TypedColor s.graph transparent (returned s.graph transparent) := by
  have hmem := h.created.socket p hport
  have hword := h.isWordByte_output hmem
  have hcalm := Text.calm_of_isWordByte hword
  have hscope : (p.ident, p.type) ∈ scopeOf s.graph :=
    List.mem_append_left _ (List.mem_map.mpr ⟨p, hmem, rfl⟩)
  simp only [returned, hbare, hport, hsurface, Bool.false_eq_true, if_false]
  exact ⟨components_color transparent (calm_shownText hcalm).balanced (components_shownText hscope hcalm hfits),
    readsSurface_of_pointed (pointed_color transparent _ (pointed_shownText (Text.pointed_of_isWordByte hword)))⟩

/-- Where the graph is classified as a surface, the members of the port are read, so it has to be one. -/
theorem typed_surface_iff (h : g.Finished o gr v ps s) (hbare : s.graph.bareClosure = false)
    (hsurface : s.graph.classification.has .surface = true) (transparent : Bool) :
    TypedColor s.graph transparent (returned s.graph transparent) ↔ p.type.isSurface = true := by
  have hword := h.isWordByte_output (h.created.socket p hport)
  simp only [returned, hbare, hport, hsurface, Bool.false_eq_true, if_false, if_true]
  constructor
  · intro htyped
    obtain ⟨before, after, he⟩ := exists_member_surfaceColor transparent (shownText s.graph.socket p)
    obtain ⟨q, hq, hqsurface, _⟩ := htyped.reads _ List.mem_cons_self before after he
    exact Option.some.inj (hq.symm.trans hport) ▸ hqsurface
  · intro hp
    rw [shownText_surface hfits hp]
    refine ⟨components_surfaceColor transparent (Text.balanced_of_isWordByte hword), ?_⟩
    intro member hm before after he
    exact ⟨p, hport, hp,
      readsOf_surfaceColor transparent (Text.pointed_of_isWordByte hword) member hm before after he⟩

end

/-- **When the returned expression is a color.** -/
theorem typed_iff (h : g.Finished o gr v ps s) (transparent : Bool) :
    TypedColor s.graph transparent (returned s.graph transparent) ↔ gr.Paints transparent := by
  cases h.created.shows with
  | nothing hconnected hport hvalue hclass =>
    have hbare : s.graph.bareClosure = false := by rw [ShaderGraph.bareClosure, hclass]; rfl
    exact iff_of_true (h.typed_value hbare hport hvalue transparent)
      fun hc => absurd (hconnected.symm.trans hc) Bool.false_ne_true
  | @output n shown m p hconnected hn ho hm hport htype hfits hclass =>
    obtain ⟨first, hfirst, hsurface, hclosure⟩ := hm.classified
    rw [← hclass] at hsurface hclosure
    have hpaints : gr.Paints transparent ↔ (first.type.isClosure = true → transparent = false) ∧
        (first.type.isSurface = true → p.type.isSurface = true) := by
      have hfeeding : gr.feeding? = some first := by rw [Graph.feeding?, hn]; exact hfirst
      have hshown : gr.shown? = some shown := by rw [Graph.shown?, hn]; exact ho
      rw [Graph.Paints, hfeeding, hshown, htype]
      exact ⟨fun hp => hp hconnected first rfl shown rfl, fun hp _ f hf t ht =>
        Option.some.inj hf ▸ Option.some.inj ht ▸ hp⟩
    have hfitsPort : FitsPort s.graph.socket p := by
      rw [FitsPort, h.created.channels, h.created.type, htype]
      exact hfits
    rw [hpaints]
    -- The first output of the feeding node decides how the result is put together.
    cases hc : first.type.isClosure with
    | true =>
      rw [h.typed_closure_iff (hclosure.trans hc), DataType.not_surface_of_closure hc]
      simp
    | false =>
      have hbare := hclosure.trans hc
      cases hs : first.type.isSurface with
      | true =>
        rw [h.typed_surface_iff hport hfitsPort hbare (hsurface.trans hs)]
        simp
      | false =>
        refine iff_of_true (h.typed_color hport hfitsPort hbare (hsurface.trans hs) transparent) ?_
        simp

end Finished

/-- **When the return statement is typed like the signature.**  The finished pixel stage ends with the text of
its root function, which returns a vector of three or four components and whose last statement returns an
expression.  By its text the expression has as many components, and reads the members of a surface only of a
surface that the socket shows, exactly if the graph paints: the node that the socket shows does not start with
a closure when an alpha is asked for, and if it starts with a surface, the socket shows a surface. -/
theorem return_typed_iff {g : FragmentGenerator} {name : Text} {graph : Option Graph} {o : Options}
    {samples : SampleSetting} {s : Shader}
    (h : (g.generate name graph (g.contextWith o samples)).1 = .ok s) :
    ∃ gr ∈ graph, ∃ (ps : Stage) (front : Text) (body : List Text) (e : Text),
      s.stage? pixelStage = some ps ∧ ps.code = front ++ (g.finalRoot o s.graph ps).text ∧
      (g.finalRoot o s.graph ps).returns = "vec" ++ Text.ofNat (width o.transparency) ∧
      (g.finalRoot o s.graph ps).body.map Statement.text = body ++ ["return " ++ e] ∧
      (TypedColor s.graph o.transparency e ↔ gr.Paints o.transparency) := by
  obtain ⟨gr, hgr, _, ps, hfinished⟩ := finished_of_generate h
  obtain ⟨front, hcode⟩ := hfinished.exists_front
  obtain ⟨body, hbody⟩ := hfinished.exists_return
  exact ⟨gr, hgr, ps, front, body, _, hfinished.pixel, hcode, g.returns_finalRoot o s.graph ps, hbody,
    hfinished.typed_iff o.transparency⟩

/-- Options that ask for an alpha. -/
def alphaOptions : Options := ⟨3, .off, .analytic, false, true⟩

/-- A graph with a node whose first output is a surface, and a socket that shows its second output. -/
def tintGraph : Graph :=
  ⟨"G", [], [⟨"u", "ND_surface_unlit", .none, [], [⟨"out", .surfaceShader⟩, ⟨"tint", .color3⟩]⟩],
    ⟨"out", .color3, "u", "tint", [], none⟩⟩

theorem accepted_tintGraph : tintGraph.Accepted standard.registry :=
  ⟨by decide, by decide, fun _ => ⟨⟨"tint", .color3⟩, by decide, rfl⟩⟩

theorem return_typed_iff_tint : ∃ s,
    (standard.generate "S" (some tintGraph) (standard.contextWith alphaOptions .absent)).1 = .ok s ∧
    ∃ (ps : Stage) (front : Text) (body : List Text) (e : Text), s.stage? pixelStage = some ps ∧
      ps.code = front ++ (standard.finalRoot alphaOptions s.graph ps).text ∧
      (standard.finalRoot alphaOptions s.graph ps).returns = Text.ofString "vec4" ∧
      (standard.finalRoot alphaOptions s.graph ps).body.map Statement.text = body ++ ["return " ++ e] ∧
      ¬ TypedColor s.graph true e := by
  obtain ⟨_, _, _, _, _, hs⟩ :=
    exists_finalShader (o := alphaOptions) accepted_tintGraph "S" (by decide) .absent
  obtain ⟨gr, hgr, ps, front, body, e, hpixel, hcode, hreturns, hbody, htyped⟩ := return_typed_iff hs
  obtain rfl := Option.some.inj hgr
  exact ⟨_, hs, ps, front, body, e, hpixel, hcode, hreturns, hbody, fun hcolor =>
    absurd (htyped.mp hcolor rfl ⟨"out", .surfaceShader⟩ rfl ⟨"tint", .color3⟩ rfl).2 (by decide)⟩

/-- A graph that shows a closure. -/
def closureGraph : Graph :=
  ⟨"G", [], [⟨"b", "ND_diffuse_bsdf", .bsdf, [], []⟩], ⟨"out", .bsdf, "b", [], [], none⟩⟩

theorem accepted_closureGraph : closureGraph.Accepted standard.registry :=
  ⟨by decide, by decide, fun _ => ⟨⟨"out", .bsdf⟩, by decide, rfl⟩⟩

/-- With an alpha, a closure is returned as three components where four are declared. -/
theorem closure_returned_without_alpha : ∃ (s : Shader) (ps : Stage) (front : Text) (body : List Text),
    (standard.generate "S" (some closureGraph) (standard.contextWith alphaOptions .absent)).1 = .ok s ∧
    s.stage? pixelStage = some ps ∧
    ps.code = front ++ (standard.finalRoot alphaOptions s.graph ps).text ∧
    (standard.finalRoot alphaOptions s.graph ps).returns = Text.ofString "vec4" ∧
    (standard.finalRoot alphaOptions s.graph ps).body.map Statement.text = body ++ [Text.ofString "return vec3(0.0)"] ∧
    ¬ Components (scopeOf s.graph) "vec3(0.0)" 4 := by
  obtain ⟨made, v, text, includes, hcreate, hs⟩ :=
    exists_finalShader (o := alphaOptions) accepted_closureGraph "S" (by decide) .absent
  -- The graph is classified as soon as the shader is made, before any code is written.
  have hbare : (standard.createShader "S" (some closureGraph)
      (some (standard.contextWith alphaOptions .absent))).toOption.all (fun b => b.graph.bareClosure) = true := by
    decide
  rw [hcreate] at hbare
  have hclosure : (standard.finalShader alphaOptions "S" made v text includes).graph.bareClosure = true := hbare
  obtain ⟨_, _, _, ps, hfinished⟩ := finished_of_generate hs
  obtain ⟨front, hcode⟩ := hfinished.exists_front
  obtain ⟨body, hbody⟩ := hfinished.exists_return
  rw [returned_of_bare hclosure] at hbody
  exact ⟨_, ps, front, body, hs, hfinished.pixel, hcode, standard.returns_finalRoot _ _ _, hbody,
    not_components_black hfinished.isWordByte_scopeOf⟩

end FragmentGenerator
end ShadeGraph
