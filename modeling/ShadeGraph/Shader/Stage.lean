/-
  Stages: one text of a shader, and what is declared for it.

  Code is only ever written at the end.  Lines are indented by four spaces for each step of depth.  A scope
  is opened on a line of its own, which adds a step, and closed by the bracket that fits.  When all code has been
  written, tokens are replaced once.  Two uses are faults: closing a scope when none is open, and
  replacing tokens a second time.
-/
import ShadeGraph.Glsl.TokenTable
import ShadeGraph.Shader.Port

namespace ShadeGraph

/-- The brackets around a scope. -/
inductive Bracket where
  | brace
  | parenthesis
  | square
  deriving DecidableEq, Repr

namespace Bracket

/-- The byte that opens a scope. -/
def opener : Bracket → UInt8
  | .brace => 123
  | .parenthesis => 40
  | .square => 91

/-- The byte that closes a scope. -/
def closer : Bracket → UInt8
  | .brace => 125
  | .parenthesis => 41
  | .square => 93

end Bracket

/-- One text of a shader, and what is declared for it. -/
structure Stage where
  name : Text
  /-- The code written so far. -/
  code : Text
  /-- How far lines are indented. -/
  depth : Int
  /-- The open scopes, the innermost first. -/
  scopes : List Bracket
  /-- The name of the root function; empty as long as there is none. -/
  functionName : Text
  constants : VariableBlock
  uniforms : List VariableBlock
  inputs : List VariableBlock
  /-- The include paths that were asked for. -/
  includes : List Text
  /-- Whether tokens have been replaced. -/
  replaced : Bool
  deriving DecidableEq, Repr

/-- A misuse of a stage. -/
inductive StageFault where
  /-- A scope is closed when none is open. -/
  | noOpenScope
  /-- Tokens are replaced a second time. -/
  | tokensReplaced (stage : Text)
  deriving DecidableEq, Repr

/-- The message of a fault. -/
def StageFault.message : StageFault → Text
  | .noOpenScope => "shadergen: EndScope without matching BeginScope"
  | .tokensReplaced name => "shadergen: tokens already replaced in stage " ++ name

namespace Stage

/-- The name of every stage's block of constants. -/
def constantsName : Text := "Constants"

/-- A stage without code. -/
def empty (name : Text) : Stage :=
  { name, code := [], depth := 0, scopes := [], functionName := [], constants := .empty constantsName []
    uniforms := [], inputs := [], includes := [], replaced := false }

/-! ## Writing code -/

/-- One step of indentation. -/
def indentation : Text := "    "

/-- The white space in front of a line. -/
def indent (s : Stage) : Text := Text.times s.depth.toNat indentation

/-- The end of a line. -/
def lineEnd (semicolon : Bool) : Text := if semicolon then [59, 10] else [10]

/-- Writes a text as it is. -/
def write (s : Stage) (t : Text) : Stage := { s with code := s.code ++ t }

/-- Starts a line with its indentation. -/
def beginLine (s : Stage) : Stage := s.write s.indent

/-- Ends a line, with a semicolon if asked for. -/
def endLine (s : Stage) (semicolon : Bool) : Stage := s.write (lineEnd semicolon)

/-- Writes a whole line. -/
def line (s : Stage) (t : Text) (semicolon : Bool) : Stage := (s.beginLine.write t).endLine semicolon

/-- Writes a line break. -/
def newline (s : Stage) : Stage := s.write [10]

/-- Opens a scope on a line of its own. -/
def beginScope (s : Stage) (b : Bracket) : Stage :=
  let s := s.beginLine.write [b.opener, 10]
  { s with depth := s.depth + 1, scopes := b :: s.scopes }

/-- Closes the innermost scope. -/
def endScope (s : Stage) (semicolon newline : Bool) : Except StageFault Stage :=
  match s.scopes with
  | [] => .error .noOpenScope
  | b :: outer =>
    let mark : Text := if semicolon then [59] else []
    let break? : Text := if newline then [10] else []
    .ok ({ s with depth := s.depth - 1, scopes := outer }.beginLine.write ([b.closer] ++ mark ++ break?))

/-! ## Includes, tokens and the root function -/

/-- Whether an include path was asked for. -/
def hasInclude (s : Stage) (path : Text) : Bool := s.includes.contains path

/-- Notes an include path. -/
def addInclude (s : Stage) (path : Text) : Stage :=
  if s.hasInclude path then s else { s with includes := path :: s.includes }

/-- The code holds the byte that starts every token of a shader. -/
def holdsToken (s : Stage) : Bool := s.code.contains 36

/-- Replaces the tokens of the code, once.  Code without a dollar sign stays as it is. -/
def replaceTokens (s : Stage) (ts : TokenTable) : Except StageFault Stage :=
  if s.replaced then .error (.tokensReplaced s.name)
  else if ts.entries.isEmpty || !s.holdsToken then .ok { s with replaced := true }
  else .ok { s with replaced := true, code := ts.replace s.code }

/-- Names the root function. -/
def setFunctionName (s : Stage) (name : Text) : Stage := { s with functionName := name }

/-! ## Blocks -/

/-- The first block of a name. -/
def findBlock (blocks : List VariableBlock) (name : Text) : Option VariableBlock :=
  blocks.find? (·.name == name)

/-- Adds an empty block, unless there is one of its name. -/
def createBlock (blocks : List VariableBlock) (name instanceName : Text) : List VariableBlock :=
  if (findBlock blocks name).isSome then blocks else blocks ++ [.empty name instanceName]

/-- Adds a port to the first block of a name. -/
def addToBlock (name : Text) (p : Port) : List VariableBlock → List VariableBlock
  | [] => []
  | b :: rest => if b.name = name then b.add p :: rest else b :: addToBlock name p rest

/-- The uniform block of a name. -/
def uniformBlock? (s : Stage) (name : Text) : Option VariableBlock := findBlock s.uniforms name

/-- The input block of a name. -/
def inputBlock? (s : Stage) (name : Text) : Option VariableBlock := findBlock s.inputs name

/-- Makes sure that there is a uniform block of a name. -/
def createUniformBlock (s : Stage) (name instanceName : Text) : Stage :=
  { s with uniforms := createBlock s.uniforms name instanceName }

/-- Makes sure that there is an input block of a name. -/
def createInputBlock (s : Stage) (name instanceName : Text) : Stage :=
  { s with inputs := createBlock s.inputs name instanceName }

/-- Adds a port to a uniform block. -/
def addUniform (s : Stage) (block : Text) (p : Port) : Stage :=
  { s with uniforms := addToBlock block p s.uniforms }

/-- Adds a port to an input block. -/
def addInput (s : Stage) (block : Text) (p : Port) : Stage :=
  { s with inputs := addToBlock block p s.inputs }

/-- Adds a constant. -/
def addConstant (s : Stage) (p : Port) : Stage := { s with constants := s.constants.add p }

end Stage
end ShadeGraph
