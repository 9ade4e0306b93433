/-
  Tokens and their substitution.

  Generated code speaks of host variables through tokens such as `$positionWorld`; a token table says
  what each of them stands for.  Substitution is one pass from left to right: where several tokens
  match, the longest wins, and what it puts in is not read again.
-/
import ShadeGraph.Text.Basic
import ShadeGraph.Text.Sorting

namespace ShadeGraph

/-- Texts that stand for others, each token with its replacement. -/
structure TokenTable where
  entries : List (Text × Text)
  deriving DecidableEq, Repr

namespace TokenTable

/-- No token. -/
def empty : TokenTable := ⟨[]⟩

/-- The replacement of a token. -/
def get? (ts : TokenTable) (token : Text) : Option Text := ts.entries.lookup token

/-- Writes the replacement of a token into a list of entries, at the end for a new token. -/
def setEntry (token replacement : Text) : List (Text × Text) → List (Text × Text)
  | [] => [(token, replacement)]
  | e :: rest =>
    if e.1 = token then (token, replacement) :: rest else e :: setEntry token replacement rest

/-- The table with one replacement set. -/
def set (ts : TokenTable) (token replacement : Text) : TokenTable :=
  ⟨setEntry token replacement ts.entries⟩

/-- The table with several replacements set, one after the other. -/
def setAll (ts : TokenTable) (es : List (Text × Text)) : TokenTable :=
  es.foldl (fun ts e => ts.set e.1 e.2) ts

/-- A table from entries, the last one of a token being the one that counts. -/
def ofList (es : List (Text × Text)) : TokenTable := empty.setAll es

/-- The order in which tokens are tried: longer ones first, then by bytes. -/
def before (s t : Text) : Bool :=
  if s.length = t.length then Text.le s t else t.length < s.length

/-- The entries with a token that is not empty, in the order in which they are tried. -/
def rules (ts : TokenTable) : List (Text × Text) :=
  Sorting.sort (fun a b => before a.1 b.1) (ts.entries.filter fun e => e.1 ≠ [])

/-- The tokens in the order in which they are tried. -/
def tokens (ts : TokenTable) : List Text := ts.rules.map Prod.fst

/-- Substitutes by a list of rules behind the first `skip` bytes; the first rule that matches at a
position is applied. -/
def substitute (rules : List (Text × Text)) : Nat → Text → Text
  | _, [] => []
  | skip + 1, _ :: t => substitute rules skip t
  | 0, b :: t =>
    match rules.find? fun r => r.1.isPrefixOf (b :: t) with
    | some r => r.2 ++ substitute rules (r.1.length - 1) t
    | none => b :: substitute rules 0 t

/-- The text with every token replaced. -/
def replace (ts : TokenTable) (t : Text) : Text := substitute ts.rules 0 t

end TokenTable
end ShadeGraph
