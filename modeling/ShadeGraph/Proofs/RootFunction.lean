/-
  The root function as a syntax tree.

  1. Every writer of a stage without open scopes is `Stage.write` of one text.
  2. What a node computes is a list of operands, its `phrase`: texts, literals, and the ports that it reads.
  3. A `Statement` declares a variable or does something else, and says which ports it reads.  A
     `RootFunction` is a signature and a body of statements, and has one text.
  4. `FragmentGenerator.root` is the root function of a shader, and writing the root function is writing its
     text (`writeRoot_eq`).
  5. Replacing the tokens of the text is replacing those of its parts (`TokenTable.Hosted.replace_text`).
-/
import ShadeGraph.Fragment.Basic
import ShadeGraph.Proofs.Include
import ShadeGraph.Proofs.ScopedWriting

namespace ShadeGraph

/-! ## What code is written from -/

/-- The stage has the blocks that code is written from. -/
structure Stage.Equipped (s : Stage) : Prop where
  vertex : (s.inputBlock? BlockName.vertexData).isSome = true
  published : (s.uniformBlock? BlockName.publicUniforms).isSome = true
  hidden : (s.uniformBlock? BlockName.privateUniforms).isSome = true

namespace FragmentGenerator

/-- The vertex data of a stage; none without a block for it. -/
def vertexPorts (s : Stage) : List Port := portsOf (s.inputBlock? BlockName.vertexData)

/-- A block that is there has ports to read. -/
theorem requirePorts_eq {block : Option VariableBlock} (h : block.isSome = true) (name : Text) :
    requirePorts name block = .ok (portsOf block) := by
  obtain ⟨b, rfl⟩ := Option.isSome_iff_exists.mp h
  rfl

/-- A stage with all blocks has vertex data to read, and the same holds of its uniforms. -/
theorem readVertex_eq {s : Stage} (h : s.Equipped) : readVertex s = .ok (vertexPorts s) :=
  requirePorts_eq h.vertex _

theorem readPublic_eq {s : Stage} (h : s.Equipped) : readPublic s = .ok (publicPorts s) :=
  requirePorts_eq h.published _

theorem readPrivate_eq {s : Stage} (h : s.Equipped) : readPrivate s = .ok (privatePorts s) :=
  requirePorts_eq h.hidden _

theorem readFormat_eq {c : Context} {d : Dialect} (h : c.dialect = some d) : readFormat c = .ok d.format := by
  rw [readFormat, h]

end FragmentGenerator

/-! ## Writing with at most one scope -/

namespace Stage

variable (s : Stage)

/-- The stage with one open scope. -/
def inside (b : Bracket) : Stage := { s with depth := 1, scopes := [b] }

/-- A line in an open scope is indented once. -/
theorem inside_line (b : Bracket) (t : Text) (semicolon : Bool) :
    (s.inside b).line t semicolon =
      (s.write (indentation ++ t ++ lineEnd semicolon)).inside b := by
  rw [line_eq]
  rfl

variable {s}

theorem Closed.indent (h : s.Closed) : s.indent = [] := InStep.indent h

/-- A line outside of all scopes is not indented. -/
theorem Closed.line (h : s.Closed) (t : Text) (semicolon : Bool) :
    s.line t semicolon = s.write (t ++ lineEnd semicolon) := by
  rw [line_eq, h.indent]
  rfl

/-- Opening the only scope. -/
theorem beginScope_write (h : s.Closed) (t : Text) (b : Bracket) :
    (s.write t).beginScope b = (s.write (t ++ [b.opener, 10])).inside b := by
  rw [beginScope, beginLine, write_indent, h.indent, write_nil, write_write, inside]
  simp only [write_depth, write_scopes, h.depth, h.scopes]
  rfl

/-- Closing the only scope. -/
theorem closeScope_inside (h : s.Closed) (t : Text) (b : Bracket) (newline : Bool) :
    FragmentGenerator.closeScope ((s.write t).inside b) newline =
      .ok (s.write (t ++ b.closer :: if newline then [10] else [])) := by
  have hend : ((s.write t).inside b).endScope false newline =
      .ok (((s.write t).write []).write (b.closer :: if newline then [10] else [])) := by
    obtain ⟨hdepth, hscopes⟩ := h
    cases s
    subst hdepth hscopes
    cases newline <;> rfl
  rw [FragmentGenerator.closeScope, hend, write_nil, write_write]

end Stage

namespace FragmentGenerator

/-- Statements, each on a line with its indentation. -/
def statementLines (statements : List Text) : Text :=
  statements.flatMap fun t => Stage.indentation ++ t ++ Stage.lineEnd true

/-- Writing statements in a scope is writing their lines, and the scope stays open. -/
theorem writeStatements_inside (b : Bracket) (statements : List Text) : ∀ s : Stage,
    writeStatements statements (s.inside b) = (s.write (statementLines statements)).inside b := by
  induction statements with
  | nil => intro s; rw [statementLines, List.flatMap_nil, Stage.write_nil]; rfl
  | cons t rest ih =>
    intro s
    show writeStatements rest ((s.inside b).line t true) = _
    rw [Stage.inside_line, ih, Stage.write_write, statementLines, statementLines, List.flatMap_cons]

/-- Arguments, each on a line of its own, with commas between them. -/
def argumentLines : List Text → Text
  | [] => []
  | [a] => Stage.indentation ++ a ++ [10]
  | a :: rest => Stage.indentation ++ (a ++ [44]) ++ [10] ++ argumentLines rest

/-- Writing arguments in a scope is writing their lines.  The last one has no comma. -/
theorem writeArguments_inside (b : Bracket) (arguments : List Text) : ∀ s : Stage,
    writeArguments arguments (s.inside b) = (s.write (argumentLines arguments)).inside b := by
  induction arguments with
  | nil => intro s; rw [writeArguments, argumentLines, Stage.write_nil]
  | cons a rest ih =>
    intro s
    cases rest with
    | nil => rw [writeArguments, argumentLines, Stage.inside_line]; rfl
    | cons a' rest =>
      show writeArguments (a' :: rest) ((s.inside b).line (a ++ [44]) false) = _
      rw [Stage.inside_line, ih, Stage.write_write]
      rfl

end FragmentGenerator

/-! ## What nodes compute -/

namespace Operand

/-- The port that an operand reads. -/
def port? : Operand → Option Port
  | .port p => some p
  | _ => none

/-- Operands one after the other. -/
def renderAll (format : FloatFormat) (operands : List Operand) : Text :=
  operands.flatMap (render format)

/-- The ports that operands read. -/
def ports (operands : List Operand) : List Port := operands.filterMap port?

/-- Operands with a text between them are their renderings, joined by the text. -/
theorem renderAll_intersperse (format : FloatFormat) (sep : Text) (operands : List Operand) :
    renderAll format (operands.intersperse (.text sep)) =
      Text.joinWith sep (operands.map (render format)) := by
  rw [renderAll, Text.joinWith]
  induction operands with
  | nil => rfl
  | cons a rest ih =>
    cases rest with
    | nil =>
      rw [List.intersperse_singleton, List.map_singleton, List.intercalate_singleton,
        List.flatMap_singleton]
    | cons b rest =>
      rw [List.intersperse_cons_cons, List.flatMap_cons, List.flatMap_cons, ih]
      simp only [List.map_cons, List.intercalate_cons_cons, List.append_assoc]
      rfl

end Operand

namespace ShaderNode

/-- What a node that is written in place computes. -/
def phrase (n : ShaderNode) (stage : Stage) : List Operand :=
  match n.implementation with
  | .constant t =>
    match n.constant with
    | some p => [.port p]
    | none => [n.operand valueInput t.glslDefault]
  | .arithmetic op t =>
    [n.operand "in1" (splat t "0.0"), .text (" " ++ op.operator ++ " "),
      n.operand "in2" (splat t op.identity)]
  | .mix t =>
    [.text "mix(", n.operand "bg" (splat t "0.0"), .text ", ", n.operand "fg" (splat t "0.0"),
      .text ", ", n.operand "mix" "0.0", .text ")"]
  | .transformMatrix => [n.operand "mat" "mat3(1.0)", .text " * ", n.operand "in" "vec3(0.0)"]
  | .uniformEdf => [n.operand "color" "vec3(1.0)"]
  | .geometric _ | .texcoord | .hostNumber _ => [.text (n.expression .fixed stage)]
  | .image _ | .diffuseBsdf | .surface _ | .surfaceUnlit => []

/-- **What a node computes in place is the text of its phrase**, whichever implementation it has. -/
theorem expression_eq (n : ShaderNode) (stage : Stage) :
    n.expression .fixed stage = Operand.renderAll .fixed (n.phrase stage) := by
  rw [Operand.renderAll, phrase]
  cases h : n.implementation with
  | constant t =>
    rw [expression, h]
    cases n.constant <;> simp only [List.flatMap_singleton] <;> rfl
  | arithmetic op t =>
    rw [expression, h]
    simp only [List.flatMap_cons, List.flatMap_nil, List.append_nil, operandText, Operand.render,
      List.append_assoc]
  | mix t =>
    rw [expression, h]
    simp only [List.flatMap_cons, List.flatMap_nil, List.append_nil, operandText, Operand.render,
      List.append_assoc]
  | transformMatrix =>
    rw [expression, h]
    simp only [List.flatMap_cons, List.flatMap_nil, List.append_nil, operandText, Operand.render,
      List.append_assoc]
  | uniformEdf => rw [expression, h]; simp only [List.flatMap_singleton]; rfl
  | geometric g => simp only [List.flatMap_singleton]; rfl
  | texcoord => simp only [List.flatMap_singleton]; rfl
  | hostNumber k => simp only [List.flatMap_singleton]; rfl
  | image | diffuseBsdf | surface | surfaceUnlit => rw [expression, h]; rfl

/-- The operands of the parameters of a library function. -/
def operands (n : ShaderNode) : List Operand :=
  n.implementation.parameters.map fun p =>
    n.operand p.name (if p.fallback = [] then p.type.glslDefault else p.fallback)

/-- The call of a library function, with the output behind the operands. -/
def callPhrase (n : ShaderNode) (function : Text) (out : Port) : List Operand :=
  .text (function ++ "(") :: List.intersperse (.text ", ") (n.operands ++ [.port out]) ++ [.text ")"]

/-- The call of a library function is the text of its phrase, with the output behind the operands. -/
theorem callText_eq (n : ShaderNode) (function : Text) (out : Port) :
    n.callText .fixed function out = Operand.renderAll .fixed (n.callPhrase function out) := by
  have harguments : n.implementation.parameters.map (n.argument .fixed) ++ [out.ident] =
      (n.operands ++ [Operand.port out]).map (Operand.render .fixed) := by
    rw [operands, List.map_append, List.map_map]
    rfl
  rw [callText, harguments, ← Operand.renderAll_intersperse, callPhrase, Operand.renderAll,
    Operand.renderAll, List.flatMap_append, List.flatMap_cons, List.flatMap_singleton]
  rfl

end ShaderNode

/-! ## Swizzles and colors of a port -/

namespace Operand

theorem renderAll_append (format : FloatFormat) (a b : List Operand) :
    renderAll format (a ++ b) = renderAll format a ++ renderAll format b :=
  List.flatMap_append

/-- Pieces with operands between them are their renderings, joined by what is between. -/
theorem renderAll_intercalate (format : FloatFormat) (sep : List Operand) (pieces : List (List Operand)) :
    renderAll format (sep.intercalate pieces) =
      Text.joinWith (renderAll format sep) (pieces.map (renderAll format)) := by
  rw [Text.joinWith]
  induction pieces with
  | nil => rfl
  | cons a rest ih =>
    cases rest with
    | nil => rw [List.intercalate_singleton, List.map_singleton, List.intercalate_singleton]
    | cons b rest =>
      rw [List.intercalate_cons_cons, renderAll_append, renderAll_append, ih]
      simp only [List.map_cons, List.intercalate_cons_cons]

/-- A pattern of texts with operands between them. -/
def fill (pattern : List Text) (operands : List Operand) : List Operand :=
  operands.intercalate (pattern.map fun t => [.text t])

/-- A pattern is filled with an expression by joining its texts with it. -/
theorem renderAll_fill (format : FloatFormat) (pattern : List Text) (operands : List Operand) :
    renderAll format (fill pattern operands) = Text.joinWith (renderAll format operands) pattern := by
  have hpattern : (pattern.map fun t => [Operand.text t]).map (renderAll format) = pattern := by
    rw [List.map_map]
    exact (List.map_congr_left fun t _ => List.append_nil t).trans (List.map_id' pattern)
  rw [fill, renderAll_intercalate, hpattern]

end Operand

namespace Swizzle

/-- One channel of a port. -/
def memberPhrase (p : Port) (c : UInt8) : List Operand :=
  match indexBelow? p.type.size c with
  | none => [.text "0.0"]
  | some i =>
    if p.type.size = 1 then [.port p] else [.port p, .text (46 :: (vectorChannels.drop i).take 1)]

/-- Channels of a port as a value of the target type. -/
def phrase (p : Port) (channels : Text) (target : DataType) : List Operand :=
  match channels.map (memberPhrase p) with
  | [m] => m
  | members =>
    .text (target.glslName ++ "(") :: List.intercalate [.text ", "] members ++ [.text ")"]

/-- One channel: the port itself if it has no more, one of its members, or zero. -/
theorem member_eq (p : Port) (c : UInt8) :
    member p.ident p.type c = Operand.renderAll .fixed (memberPhrase p c) := by
  rw [member, memberPhrase]
  cases indexBelow? p.type.size c with
  | none => rfl
  | some i =>
    show (if p.type.size = 1 then _ else _) = Operand.renderAll .fixed (if p.type.size = 1 then _ else _)
    split
    · exact (List.append_nil _).symm
    · simp only [Operand.renderAll, List.flatMap_cons, List.flatMap_nil, List.append_nil]
      rfl

/-- Channels of a port: one of them alone, or several in a constructor call. -/
theorem expression_eq (p : Port) (channels : Text) (target : DataType) :
    expression p.ident p.type channels target =
      Operand.renderAll .fixed (phrase p channels target) := by
  have hmembers : channels.map (member p.ident p.type) =
      (channels.map (memberPhrase p)).map (Operand.renderAll .fixed) := by
    rw [List.map_map]
    exact List.map_congr_left fun c _ => member_eq p c
  have hmany : ∀ members : List (List Operand),
      Glsl.construct target.glslName (Text.joinWith ", " (members.map (Operand.renderAll .fixed))) =
        Operand.renderAll .fixed (.text (target.glslName ++ "(") ::
          List.intercalate [.text ", "] members ++ [.text ")"]) := by
    intro members
    have hsep : Operand.renderAll .fixed [.text ", "] = Text.ofString ", " := rfl
    rw [Operand.renderAll_append, Operand.renderAll, List.flatMap_cons, ← Operand.renderAll,
      Operand.renderAll_intercalate, hsep]
    rfl
  rw [expression, phrase, hmembers]
  cases channels.map (memberPhrase p) with
  | nil => exact hmany []
  | cons m rest =>
    cases rest with
    | nil => rfl
    | cons m' rest => exact hmany (m :: m' :: rest)

end Swizzle

namespace Color

/-- The texts around an expression that make it a color of three components. -/
def pattern3 (t : DataType) : List Text :=
  if t.isFloat3 then [[], []]
  else if t.isFloat2 then ["vec3(", ", 0.0)"]
  else if t.isFloat4 then [[], ".xyz"]
  else if t = .float ∨ t = .integer then ["vec3(", ", ", ", ", ")"]
  else if t.isClosure then ["vec3(", ")"]
  else ["vec3(0.0, 0.0, 0.0)"]

/-- The texts around an expression that make it a color of four components. -/
def pattern4 (t : DataType) : List Text :=
  if t.isFloat4 then [[], []]
  else if t.isFloat3 then ["vec4(", ", 1.0)"]
  else if t.isFloat2 then ["vec4(", ", 0.0, 1.0)"]
  else if t = .float ∨ t = .integer then ["vec4(", ", ", ", ", ", 1.0)"]
  else if t.isClosure then ["vec4(", ", 1.0)"]
  else ["vec4(0.0, 0.0, 0.0, 1.0)"]

/-- A color of three components is a pattern around the expression. -/
theorem toVec3_eq (t : DataType) (e : Text) : toVec3 t e = Text.joinWith e (pattern3 t) := by
  rw [toVec3, pattern3, Text.joinWith]
  repeat' split
  all_goals simp [List.intercalate_cons_cons, List.intercalate_singleton]

/-- A color of four components is a pattern around the expression. -/
theorem toVec4_eq (t : DataType) (e : Text) : toVec4 t e = Text.joinWith e (pattern4 t) := by
  rw [toVec4, pattern4, Text.joinWith]
  repeat' split
  all_goals simp [List.intercalate_cons_cons, List.intercalate_singleton]

end Color

/-! ## Statements -/

/-- A line of a function body: the declaration of a variable and what it is given, or something else. -/
inductive Statement where
  | declare (type name : Text) (value : Option (List Operand))
  | perform (content : List Operand)

namespace Statement

/-- The text of a statement, without its semicolon. -/
def text : Statement → Text
  | .declare type name none => type ++ " " ++ name
  | .declare type name (some value) => type ++ " " ++ name ++ " = " ++ Operand.renderAll .fixed value
  | .perform content => Operand.renderAll .fixed content

/-- The variable that a statement declares. -/
def declared? : Statement → Option Text
  | .declare _ name _ => some name
  | .perform _ => none

/-- The ports that a statement reads. -/
def reads : Statement → List Port
  | .declare _ _ value => Operand.ports (value.getD [])
  | .perform content => Operand.ports content

end Statement

namespace ShaderNode

/-- The declaration of the output of a node, with the zero of its type if there is one. -/
def zeroStatement (out : Port) : Statement :=
  .declare out.type.glslName out.ident
    (if out.type.glslDefault = [] then none else some [.text out.type.glslDefault])

/-- The declaration of an output with the zero of its type. -/
theorem text_zeroStatement (out : Port) : (zeroStatement out).text = out.outputDeclaration := by
  rw [zeroStatement, Port.outputDeclaration, Glsl.declaration]
  split
  · simp [Statement.text]
  · simp [Statement.text, Operand.renderAll, Operand.render]

/-- The statements of a node. -/
def statements (n : ShaderNode) (stage : Stage) : List Statement :=
  match n.outputs.head? with
  | none => []
  | some out =>
    match n.implementation.sourcePath? with
    | none => [.declare out.type.glslName out.ident (some (n.phrase stage))]
    | some path =>
      [zeroStatement out, .perform (n.callPhrase (Implementation.functionIn path) out)]

/-- The call of a node can be written: it has an output, and its function is found. -/
def Callable (c : Context) (n : ShaderNode) : Prop :=
  n.outputs ≠ [] ∧ ∀ path, n.implementation.sourcePath? = some path →
    functionName c path = .ok (Implementation.functionIn path)

end ShaderNode

namespace FragmentGenerator

/-- The lines of statements. -/
def bodyLines (body : List Statement) : Text := statementLines (body.map Statement.text)

theorem bodyLines_append (a b : List Statement) : bodyLines (a ++ b) = bodyLines a ++ bodyLines b := by
  rw [bodyLines, bodyLines, bodyLines, List.map_append, statementLines, List.flatMap_append]
  rfl

/-- Writing the call of a node is writing its statements. -/
theorem emitCall_inside {c : Context} {naming : Naming} (hdialect : c.dialect = some ⟨naming, .fixed⟩)
    {n : ShaderNode} (hn : n.Callable c) (b : Bracket) (s : Stage) :
    n.emitCall c (s.inside b) = .ok ((s.write (bodyLines (n.statements s))).inside b) := by
  obtain ⟨out, hout⟩ := Option.ne_none_iff_exists'.mp (mt List.head?_eq_none_iff.mp hn.1)
  rw [ShaderNode.emitCall, ShaderNode.statements, hout]
  cases hpath : n.implementation.sourcePath? with
  | none =>
    have htext : out.type.glslName ++ " " ++ out.ident ++ " = " ++ n.expression .fixed (s.inside b) =
        (Statement.declare out.type.glslName out.ident (some (n.phrase s))).text := by
      rw [ShaderNode.expression_eq]; rfl
    simp only [hdialect]
    rw [htext, Stage.inside_line, bodyLines, statementLines, List.map_singleton, List.flatMap_singleton]
  | some path =>
    simp only [hdialect, hn.2 path hpath]
    rw [Stage.declareOutput, Stage.inside_line, Stage.inside_line, Stage.write_write,
      ← ShaderNode.text_zeroStatement, ShaderNode.callText_eq]
    simp only [bodyLines, statementLines, List.map_cons, List.map_nil, List.flatMap_cons,
      List.flatMap_nil, List.append_nil]
    rfl

/-- Writing the calls of all nodes is writing their statements. -/
theorem callFunctions_inside {c : Context} {naming : Naming}
    (hdialect : c.dialect = some ⟨naming, .fixed⟩) (b : Bracket) :
    ∀ (nodes : List ShaderNode), (∀ n ∈ nodes, n.Callable c) → ∀ s : Stage,
      Shader.callFunctions c nodes (s.inside b) =
        .ok ((s.write (bodyLines (nodes.flatMap fun n => n.statements s))).inside b) := by
  intro nodes
  induction nodes with
  | nil => intro _ s; rw [List.flatMap_nil, bodyLines, List.map_nil, statementLines, List.flatMap_nil,
      Stage.write_nil]; rfl
  | cons n rest ih =>
    intro hcallable s
    rw [Shader.callFunctions, emitCall_inside hdialect (hcallable n List.mem_cons_self)]
    show Shader.callFunctions c rest _ = _
    rw [ih fun m hm => hcallable m (List.mem_cons_of_mem n hm), Stage.write_write, List.flatMap_cons,
      bodyLines_append]
    rfl

/-! ## The parts of the root function -/

/-- The type and the name of the argument for a port. -/
def argumentOf (p : Port) : Text × Text :=
  if p.type = .matrix33 then (Port.wideMatrix, p.ident ++ wideSuffix) else (p.type.glslName, p.ident)

/-- An argument is declared by type and name.  Matrices of three rows come in as wider ones. -/
theorem declaration_argumentOf (p : Port) :
    p.declaration .fragment .fixed [] false = (argumentOf p).1 ++ " " ++ (argumentOf p).2 := by
  rw [Port.declaration, argumentOf]
  by_cases htype : p.type = .matrix33
  · rw [if_pos htype, if_pos ⟨htype, by decide⟩, Glsl.declaration]
    simp
  · rw [if_neg htype, if_neg fun h => htype h.1, Port.plainDeclaration, Glsl.declaration]
    simp

/-- The arguments of the root function: public uniforms, vertex data, and the one for transparency. -/
def rootArguments (ps : Stage) (transparent : Bool) : List (Text × Text) :=
  (publicPorts ps ++ vertexPorts ps).map argumentOf ++
    if transparent then [(Text.ofString "float", transparencyArgument)] else []

/-- The arguments that are written are those of the signature. -/
theorem arguments_eq (ps : Stage) (transparent : Bool) :
    arguments .fixed (publicPorts ps ++ vertexPorts ps) transparent =
      (rootArguments ps transparent).map fun a => (a.1 ++ " " ++ a.2 : Text) := by
  rw [arguments, rootArguments]
  generalize publicPorts ps ++ vertexPorts ps = ports
  rw [List.map_append, List.map_map]
  congr 1
  · exact List.map_congr_left fun p _ => declaration_argumentOf p
  · cases transparent <;> rfl

/-- Vertex data is copied to where functions read it. -/
def copyStatement (p : Port) : Statement :=
  .perform [.text (Token.vertexData ++ "." ++ p.ident ++ " = "), .port p]

/-- A 3 by 3 matrix is taken out of the 4 by 4 one that is passed. -/
def matrixStatement (p : Port) : Statement :=
  .declare "mat3" p.ident (some [.text ("mat3(" ++ p.ident ++ wideSuffix ++ ")")])

/-- Samples of the environment are stored. -/
def sampleStatements : List Statement :=
  [.perform [.text (globalPrefix ++ irradianceSample ++ " = " ++ irradianceSample)],
    .perform [.text (globalPrefix ++ radianceSample ++ " = " ++ radianceSample)]]

/-- The statements that make the arguments available. -/
def bindingStatements (ps : Stage) (lightRig : Bool) : List Statement :=
  (vertexPorts ps).map copyStatement ++ (if lightRig then sampleStatements else []) ++
    ((publicPorts ps).filter (·.type == .matrix33)).map matrixStatement

/-- What is written in front of the nodes: vertex data is copied, samples are stored, and wide matrices are cut
down. -/
theorem bindings_eq (ps : Stage) (lightRig : Bool) :
    bindings (publicPorts ps) (vertexPorts ps) lightRig =
      (bindingStatements ps lightRig).map Statement.text := by
  rw [bindings, bindingStatements, List.map_append, List.map_append, List.map_map, List.map_map]
  congr 1
  · congr 1
    · refine List.map_congr_left fun p _ => ?_
      simp [copyStatement, Statement.text, Operand.renderAll, Operand.render]
    · cases lightRig <;> rfl
  · refine List.map_congr_left fun p _ => ?_
    simp only [matrixStatement, Statement.text, Operand.renderAll, Operand.render, Function.comp,
      List.flatMap_singleton, List.append_assoc]
    rfl

/-- The texts around an expression that make it the color of a type. -/
def colorPattern (transparent : Bool) (t : DataType) : List Text :=
  if transparent then Color.pattern4 t else Color.pattern3 t

/-- With and without an alpha, a color is a pattern around an expression. -/
theorem color_eq (transparent : Bool) (t : DataType) (e : Text) :
    color transparent t e = Text.joinWith e (colorPattern transparent t) := by
  cases transparent
  · exact Color.toVec3_eq t e
  · exact Color.toVec4_eq t e

/-- The texts around an expression that make it the color of a surface. -/
def surfacePattern (transparent : Bool) : List Text :=
  if transparent then
    ["vec4(", ".color, clamp(1.0 - dot(", ".transparency, vec3(0.3333)), 0.0, 1.0))"]
  else [[], ".color"]

/-- The color of a surface is a pattern that names the surface once for each of its members. -/
theorem surfaceColor_eq (transparent : Bool) (e : Text) :
    surfaceColor transparent e = Text.joinWith e (surfacePattern transparent) := by
  rw [surfaceColor, surfacePattern, Text.joinWith]
  cases transparent <;> simp [List.intercalate_cons_cons, List.intercalate_singleton]

/-- The port that the socket shows, through its channels if there are any. -/
def resultPhrase (socket : ShaderSocket) (p : Port) : List Operand :=
  if socket.channels = [] then [.port p] else Swizzle.phrase p socket.channels socket.port.type

/-- The local variable of a socket that is not connected. -/
def localName (socket : ShaderSocket) : Text := socket.port.ident ++ "_tmp"

/-- The value of a socket that is not connected. -/
def socketValue (socket : ShaderSocket) : Text :=
  match socket.port.value with
  | some v => v.literal .fixed
  | none => socket.port.type.glslDefault

/-- The statements that return the color of the socket. -/
def resultStatements (graph : ShaderGraph) (transparent : Bool) : List Statement :=
  let socket := graph.socket
  let t := socket.port.type
  match socket.connection with
  | some p =>
    let pattern :=
      if graph.classification.has .surface then surfacePattern transparent
      else colorPattern transparent t
    [.perform (.text "return " :: Operand.fill pattern (resultPhrase socket p))]
  | none =>
    if (if transparent then t.isFloat4 else t.isFloat3) then
      [.perform [.text ("return " ++ socketValue socket)]]
    else
      [.declare t.glslName (localName socket) (some [.text (socketValue socket)]),
        .perform [.text ("return " ++ color transparent t (localName socket))]]

/-- **What is written behind the nodes** are the statements of the result: a closure is black, a connected
socket shows a port, and any other socket its value. -/
theorem returnStatements_eq (graph : ShaderGraph) (transparent : Bool) :
    returnStatements .fixed graph transparent =
      (resultStatements graph transparent).map Statement.text := by
  rw [returnStatements, resultStatements]
  cases hconnection : graph.socket.connection with
  | some p =>
    have hresult : (if graph.socket.channels = [] then p.ident
        else Swizzle.expression p.ident p.type graph.socket.channels graph.socket.port.type) =
        Operand.renderAll .fixed (resultPhrase graph.socket p) := by
      rw [resultPhrase]
      split
      · exact (List.append_nil _).symm
      · exact Swizzle.expression_eq p _ _
    have htext : ∀ pattern : List Text,
        (Statement.perform (.text "return " :: Operand.fill pattern (resultPhrase graph.socket p))).text =
        "return " ++ Text.joinWith (Operand.renderAll .fixed (resultPhrase graph.socket p)) pattern := by
      intro pattern
      rw [← Operand.renderAll_fill]
      rfl
    simp only [hresult, List.map_cons, List.map_nil, htext]
    split
    · rw [surfaceColor_eq]
    · rw [color_eq]
  | none =>
    have hone : ∀ t : Text, (Statement.perform [.text t]).text = t := fun t => List.append_nil t
    have htmp : ∀ v : Text, (Statement.declare graph.socket.port.type.glslName (localName graph.socket)
        (some [.text v])).text =
        graph.socket.port.type.glslName ++ " " ++ localName graph.socket ++ " = " ++ v :=
      fun v => by rw [Statement.text, Operand.renderAll, List.flatMap_singleton]; rfl
    simp only [apply_ite (List.map Statement.text), List.map_cons, List.map_nil, hone, htmp]
    rfl

end FragmentGenerator

/-! ## The root function -/

/-- A function that returns a color: its signature and its body.  An argument is a type and a name. -/
structure RootFunction where
  returns : Text
  name : Text
  arguments : List (Text × Text)
  body : List Statement

namespace RootFunction

/-- The names that are declared in the scope of the function. -/
def names (r : RootFunction) : List Text :=
  r.arguments.map Prod.snd ++ r.body.filterMap Statement.declared?

/-- The text of an argument. -/
def argumentText (a : Text × Text) : Text := a.1 ++ " " ++ a.2

/-- The text of the function. -/
def text (r : RootFunction) : Text :=
  r.returns ++ " " ++ r.name ++ "\n(\n" ++
    FragmentGenerator.argumentLines (r.arguments.map argumentText) ++ ")\n\x7b\n" ++
    FragmentGenerator.bodyLines r.body ++ "\x7d\n"

end RootFunction

/-- A closure by itself, which cannot be shown. -/
def ShaderGraph.bareClosure (graph : ShaderGraph) : Bool :=
  graph.classification.has .closure && !graph.classification.has .shader

namespace FragmentGenerator

/-- The body of the root function. -/
def rootBody (g : FragmentGenerator) (transparent : Bool) (graph : ShaderGraph) (ps : Stage) :
    List Statement :=
  if graph.bareClosure then [.perform [.text "return vec3(0.0)"]]
  else
    bindingStatements ps (graph.requiresLighting && g.api.isLegacy) ++
      graph.nodes.flatMap (fun n => n.statements ps) ++ resultStatements graph transparent

/-- The root function of a graph, for the ports of a pixel stage. -/
def root (g : FragmentGenerator) (transparent : Bool) (graph : ShaderGraph) (name : Text) (ps : Stage) :
    RootFunction :=
  { returns := returnType transparent, name := name, arguments := rootArguments ps transparent
    body := g.rootBody transparent graph ps }

/-- Writing the body is writing its statements. -/
theorem writeBody_inside (g : FragmentGenerator) {c : Context} {naming : Naming}
    (hdialect : c.dialect = some ⟨naming, .fixed⟩) {graph : ShaderGraph}
    (hcallable : ∀ n ∈ graph.nodes, n.Callable c) (b : Bracket) (s : Stage) :
    g.writeBody c .fixed graph (publicPorts s) (vertexPorts s) (s.inside b) =
      .ok ((s.write (bodyLines (g.rootBody c.options.transparency graph s))).inside b) := by
  rw [writeBody, rootBody, ShaderGraph.bareClosure]
  split
  · rw [Stage.inside_line, bodyLines, statementLines, List.map_singleton, List.flatMap_singleton]
    rfl
  · dsimp only
    rw [bindings_eq, writeStatements_inside, ← bodyLines]
    simp only [callFunctions_inside hdialect b graph.nodes hcallable]
    rw [returnStatements_eq, writeStatements_inside, ← bodyLines, bodyLines_append, bodyLines_append,
      Stage.write_write, Stage.write_write, List.append_assoc]
    rfl

/-- **Writing the root function is writing its text.** -/
theorem writeRoot_eq (g : FragmentGenerator) {c : Context} {naming : Naming}
    (hdialect : c.dialect = some ⟨naming, .fixed⟩) {graph : ShaderGraph}
    (hcallable : ∀ n ∈ graph.nodes, n.Callable c) (name : Text) {s : Stage} (hclosed : s.Closed)
    (hequipped : s.Equipped) :
    g.writeRoot c graph name s =
      .ok ((s.setFunctionName name).write (g.root c.options.transparency graph name s).text) := by
  have hclosed' : (s.setFunctionName name).Closed := ⟨hclosed.depth, hclosed.scopes⟩
  have harguments : arguments .fixed (publicPorts s ++ vertexPorts s) c.options.transparency =
      (rootArguments s c.options.transparency).map RootFunction.argumentText := arguments_eq s _
  have hbody : ∀ t, g.writeBody c .fixed graph (publicPorts s) (vertexPorts s)
      (((s.setFunctionName name).write t).inside .brace) =
      .ok ((((s.setFunctionName name).write t).write
        (bodyLines (g.rootBody c.options.transparency graph s))).inside .brace) :=
    fun t => writeBody_inside g hdialect hcallable .brace _
  rw [writeRoot, readFormat_eq hdialect, readPublic_eq hequipped, readVertex_eq hequipped]
  simp only [bind, Except.bind]
  rw [hclosed'.line, Stage.beginScope_write hclosed', harguments, writeArguments_inside, Stage.write_write,
    Stage.closeScope_inside hclosed']
  simp only [Stage.beginScope_write hclosed', hbody, Stage.write_write, Stage.closeScope_inside hclosed',
    RootFunction.text, root, List.append_assoc]
  rfl

end FragmentGenerator
/-! ## Tokens of the root function -/

/-- A statement with its tokens replaced. -/
def Statement.resolve (ts : TokenTable) : Statement → Statement
  | .declare type name value =>
    .declare (ts.replace type) (ts.replace name)
      (value.map fun v => [.text (ts.replace (Operand.renderAll .fixed v))])
  | .perform content => .perform [.text (ts.replace (Operand.renderAll .fixed content))]

/-- A root function with its tokens replaced. -/
def RootFunction.resolve (ts : TokenTable) (r : RootFunction) : RootFunction :=
  { returns := ts.replace r.returns, name := ts.replace r.name
    arguments := r.arguments.map fun a => (ts.replace a.1, ts.replace a.2)
    body := r.body.map (Statement.resolve ts) }

theorem Statement.declared?_resolve (ts : TokenTable) (st : Statement) :
    (st.resolve ts).declared? = st.declared?.map ts.replace := by
  cases st <;> rfl

theorem RootFunction.names_resolve (ts : TokenTable) (r : RootFunction) :
    (r.resolve ts).names = r.names.map ts.replace := by
  have hdeclared : Statement.declared? ∘ Statement.resolve ts =
      fun st => st.declared?.map ts.replace := funext (Statement.declared?_resolve ts)
  rw [names, names, resolve, List.map_append, List.map_map, List.map_map, List.filterMap_map, hdeclared,
    List.map_filterMap]
  rfl

namespace TokenTable.Hosted

variable {ts : TokenTable}

/-- Replacing the tokens of a statement's parts replaces those of its text, because no token reaches over the
seams. -/
theorem text_resolve (h : ts.Hosted) (st : Statement) : (st.resolve ts).text = ts.replace st.text := by
  cases st with
  | perform content => exact List.append_nil _
  | declare type name value =>
    have hspace : Text.Walls " " := by decide
    have hequals : Text.Walls " = " := by decide
    cases value with
    | none =>
      have hboth := h.replace_walls hspace name type
      rw [Statement.text, List.append_assoc, hboth]
      exact List.append_assoc _ _ _
    | some value =>
      have hboth := h.replace_walls hspace (name ++ (" = " ++ Operand.renderAll .fixed value)) type
      rw [h.replace_walls hequals] at hboth
      simp only [Statement.text, List.append_assoc, hboth]
      simp [Statement.resolve, Operand.renderAll, Operand.render]

/-- The same for an argument of the signature. -/
theorem argumentText_resolve (h : ts.Hosted) (a : Text × Text) :
    RootFunction.argumentText (ts.replace a.1, ts.replace a.2) =
      ts.replace (RootFunction.argumentText a) := by
  have hspace : Text.Walls " " := by decide
  rw [RootFunction.argumentText, RootFunction.argumentText, List.append_assoc, List.append_assoc,
    h.replace_walls hspace]

/-- Tokens of lines are replaced line by line. -/
theorem replace_statementLines (h : ts.Hosted) (statements : List Text) (rest : Text) :
    ts.replace (FragmentGenerator.statementLines statements ++ rest) =
      FragmentGenerator.statementLines (statements.map ts.replace) ++ ts.replace rest := by
  have hindentation : Stage.indentation.Walls := by decide
  have hend : (Stage.lineEnd true).Walls := by decide
  induction statements with
  | nil => rfl
  | cons t statements ih =>
    have hline := h.replace_walls hindentation
      (t ++ (Stage.lineEnd true ++ (FragmentGenerator.statementLines statements ++ rest))) []
    rw [h.replace_walls hend, ih] at hline
    simpa [FragmentGenerator.statementLines] using hline

/-- Tokens of arguments are replaced argument by argument. -/
theorem replace_argumentLines (h : ts.Hosted) (arguments : List Text) (rest : Text) :
    ts.replace (FragmentGenerator.argumentLines arguments ++ rest) =
      FragmentGenerator.argumentLines (arguments.map ts.replace) ++ ts.replace rest := by
  have hindentation : Stage.indentation.Walls := by decide
  have hlast : Text.Walls [10] := by decide
  have hcomma : Text.Walls [44, 10] := by decide
  induction arguments with
  | nil => rfl
  | cons a arguments ih =>
    cases arguments with
    | nil =>
      have hline := h.replace_walls hindentation (a ++ ([10] ++ rest)) []
      rw [h.replace_walls hlast] at hline
      simpa [FragmentGenerator.argumentLines] using hline
    | cons a' arguments =>
      have hline := h.replace_walls hindentation
        (a ++ ([44, 10] ++ (FragmentGenerator.argumentLines (a' :: arguments) ++ rest))) []
      rw [h.replace_walls hcomma, ih] at hline
      simpa [FragmentGenerator.argumentLines] using hline

/-- **Replacing the tokens of a root function is replacing those of its parts.** -/
theorem replace_text (h : ts.Hosted) (r : RootFunction) :
    ts.replace r.text = (r.resolve ts).text := by
  have hspace : Text.Walls " " := by decide
  have hopen : Text.Walls "\n(\n" := by decide
  have hbody : Text.Walls ")\n\x7b\n" := by decide
  have hclose : Text.Walls "\x7d\n" := by decide
  have harguments : (r.arguments.map RootFunction.argumentText).map ts.replace =
      (r.resolve ts).arguments.map RootFunction.argumentText := by
    rw [RootFunction.resolve, List.map_map, List.map_map]
    exact List.map_congr_left fun a _ => (h.argumentText_resolve a).symm
  have hlines : (r.body.map Statement.text).map ts.replace =
      (r.resolve ts).body.map Statement.text := by
    rw [RootFunction.resolve, List.map_map, List.map_map]
    exact List.map_congr_left fun st _ => (h.text_resolve st).symm
  have hend : ts.replace (Text.ofString "\x7d\n") = Text.ofString "\x7d\n" :=
    h.replace_of_quiet (by decide)
  simp only [RootFunction.text, FragmentGenerator.bodyLines, List.append_assoc]
  rw [h.replace_walls hspace, h.replace_walls hopen, h.replace_argumentLines]
  have hrest := h.replace_walls hbody
    (FragmentGenerator.statementLines (r.body.map Statement.text) ++ Text.ofString "\x7d\n") []
  rw [List.nil_append, h.replace_statementLines, hend, hlines] at hrest
  rw [hrest, harguments]
  rfl

end TokenTable.Hosted
end ShadeGraph
