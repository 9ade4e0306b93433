/-
  Scopes of a stage.

  1. A `WriteOp` writes code, or opens or closes a scope.  Which scopes operations leave open can be read off
     the operations alone (`WriteOp.openScopes`), and so can what each of them writes (`WriteOp.text`).
  2. A stage is `InStep` with open scopes if its depth and its stack both agree with them.  One operation then
     writes its text and changes depth and stack alike (`InStep.after_eq`), so a stage stays in step.
  3. `Text.Opening` is the specification of the brackets: a word that leaves brackets open is made of nested
     words with these brackets between them, the innermost last.  Whatever closes them completes the word
     (`Opening.append_closing`), and closing the innermost gives a word that leaves the others open
     (`Opening.close`).
  4. Together: after any operations whose texts hold no brackets, depth, stack, faults, brackets and
     indentation all agree with the scopes that are open (`scopes_in_order`).
-/
import ShadeGraph.Proofs.Brackets

namespace ShadeGraph

/-! ## Words that leave brackets open -/

namespace Text

variable {s t : Text} {opened : List Bracket} {k : Bracket}

/-- Words that leave brackets open, with nested words between them.  The innermost is the first of the list
and the last of the word. -/
inductive Opening : Text → List Bracket → Prop
  | nested {t : Text} (h : Nested t) : Opening t []
  | opened (k : Bracket) {t inner : Text} {opened : List Bracket} (h : Opening t opened)
      (hinner : Nested inner) : Opening (t ++ k.opener :: inner) (k :: opened)

/-- Nested words one behind the other are nested. -/
theorem Nested.append (hs : Nested s) (ht : Nested t) : Nested (s ++ t) := by
  induction hs with
  | nil => exact ht
  | wrap k hinner _ _ ihrest =>
    rw [List.cons_append, List.append_assoc, List.cons_append]
    exact .wrap k hinner ihrest

namespace Opening

/-- A nested word at the end leaves the same brackets open. -/
theorem append_nested (h : Opening s opened) (ht : Nested t) : Opening (s ++ t) opened := by
  cases h with
  | nested hs => exact .nested (hs.append ht)
  | opened k h hinner =>
    rw [List.append_assoc, List.cons_append]
    exact .opened k h (hinner.append ht)

/-- One more bracket is opened. -/
theorem opener (h : Opening t opened) (k : Bracket) : Opening (t ++ [k.opener]) (k :: opened) :=
  .opened k h .nil

/-- Closing the innermost bracket leaves the others open. -/
theorem close (h : Opening t (k :: opened)) : Opening (t ++ [k.closer]) opened := by
  cases h with
  | @opened _ t inner _ h hinner =>
    rw [List.append_assoc, List.cons_append]
    exact h.append_nested (.wrap k hinner .nil)

/-- **A word that closes what is open completes the word that opened it.** -/
theorem append_closing (h : Opening s opened) (ht : Closing opened t) : Nested (s ++ t) := by
  induction h generalizing t with
  | nested hs =>
    cases ht with
    | nil ht => exact hs.append ht
  | @opened k s inner opened _ hinner ih =>
    cases ht with
    | @cons _ _ second rest hsecond hrest =>
      have hwhole := ih (hrest.wrap k (hinner.append hsecond))
      rw [List.append_assoc] at hwhole ⊢
      exact hwhole

end Opening

/-- The closing brackets alone, from the innermost to the outermost, close what is open. -/
theorem closing_closers (opened : List Bracket) : Closing opened (opened.map Bracket.closer) := by
  induction opened with
  | nil => exact .nil .nil
  | cons k opened ih => exact .cons k .nil ih

end Text

/-! ## Operations -/

/-- An operation that writes code, or opens or closes a scope. -/
inductive WriteOp where
  | beginLine
  | endLine (semicolon : Bool)
  | line (t : Text) (semicolon : Bool)
  /-- Writes a string, or bytes, as they are. -/
  | write (t : Text)
  | newline
  | beginScope (b : Bracket)
  | endScope (semicolon lineBreak : Bool)
  deriving DecidableEq, Repr

namespace WriteOp

/-- The text that an operation is given. -/
def given : WriteOp → Text
  | line t _ => t
  | write t => t
  | _ => []

/-- The open scopes after an operation, the innermost first. -/
def scopesAfter (opened : List Bracket) : WriteOp → List Bracket
  | beginScope b => b :: opened
  | endScope _ _ => opened.tail
  | _ => opened

/-- The scopes that operations leave open, the innermost first. -/
def openScopes (ops : List WriteOp) : List Bracket := ops.foldl scopesAfter []

/-- Four spaces for each of `n` scopes. -/
def margin (n : Nat) : Text := List.replicate (4 * n) 32

/-- What closes a scope. -/
def closing (b : Bracket) (semicolon lineBreak : Bool) : Text :=
  [b.closer] ++ (if semicolon then [59] else []) ++ if lineBreak then [10] else []

/-- What an operation writes when scopes are open. -/
def text (opened : List Bracket) : WriteOp → Text
  | beginLine => margin opened.length
  | endLine semicolon => Stage.lineEnd semicolon
  | line t semicolon => margin opened.length ++ t ++ Stage.lineEnd semicolon
  | write t => t
  | newline => [10]
  | beginScope b => margin opened.length ++ [b.opener, 10]
  | endScope semicolon lineBreak =>
    match opened with
    | [] => []
    | b :: outer => margin outer.length ++ closing b semicolon lineBreak

/-- `op.WritesLine opened n t` says that `op`, with the scopes `opened` open before it, writes the line `t`
with `n` scopes open around it. -/
inductive WritesLine : WriteOp → List Bracket → Nat → Text → Prop
  | line (opened : List Bracket) (t : Text) (semicolon : Bool) :
      WritesLine (line t semicolon) opened opened.length (t ++ Stage.lineEnd semicolon)
  | beginScope (opened : List Bracket) (b : Bracket) :
      WritesLine (beginScope b) opened opened.length [b.opener, 10]
  | endScope (b : Bracket) (outer : List Bracket) (semicolon lineBreak : Bool) :
      WritesLine (endScope semicolon lineBreak) (b :: outer) outer.length (closing b semicolon lineBreak)

variable {op : WriteOp} {opened : List Bracket}

/-- The text of an operation that writes a line starts with the margin. -/
theorem WritesLine.text_eq {n : Nat} {t : Text} (h : op.WritesLine opened n t) :
    op.text opened = margin n ++ t := by
  cases h with
  | line => exact List.append_assoc ..
  | beginScope => rfl
  | endScope => rfl

/-! The brackets of what is written are those of the scopes. -/

theorem brackets_margin (n : Nat) : (margin n).brackets = [] :=
  Text.brackets_eq_nil_iff.mpr fun b hb => by rw [List.eq_of_mem_replicate hb]; rfl

theorem brackets_lineEnd (semicolon : Bool) : (Stage.lineEnd semicolon).brackets = [] := by
  cases semicolon <;> rfl

theorem brackets_closing (b : Bracket) (semicolon lineBreak : Bool) :
    (closing b semicolon lineBreak).brackets = [b.closer] := by
  cases b <;> cases semicolon <;> cases lineBreak <;> rfl

/-- An operation whose text holds no brackets opens and closes just the brackets of its scopes. -/
theorem opening_text {t : Text} (hgiven : op.given.brackets = []) (h : Text.Opening t opened) :
    Text.Opening (t ++ (op.text opened).brackets) (op.scopesAfter opened) := by
  -- What writes no bracket leaves the brackets that are open.
  have hnone {u : Text} (hu : u.brackets = []) : Text.Opening (t ++ u.brackets) opened := by
    rw [hu, List.append_nil]
    exact h
  cases op with
  | beginLine => exact hnone (brackets_margin opened.length)
  | endLine semicolon => exact hnone (brackets_lineEnd semicolon)
  | line u semicolon =>
    refine hnone ?_
    rw [text, Text.brackets_append, Text.brackets_append, brackets_margin, brackets_lineEnd,
      show u.brackets = [] from hgiven]
    rfl
  | write u => exact hnone hgiven
  | newline => exact hnone rfl
  | beginScope b =>
    rw [text, Text.brackets_append, brackets_margin, List.nil_append]
    have hopener : Text.brackets [b.opener, 10] = [b.opener] := by cases b <;> rfl
    rw [hopener]
    exact h.opener b
  | endScope semicolon lineBreak =>
    cases opened with
    | nil => exact hnone rfl
    | cons b outer =>
      rw [text, Text.brackets_append, brackets_margin, brackets_closing, List.nil_append]
      exact h.close

end WriteOp

/-! ## Writing is appending -/

namespace Stage

section

variable (s : Stage)

@[simp] theorem write_nil : s.write [] = s := by rw [write, List.append_nil]

@[simp] theorem write_write (t u : Text) : (s.write t).write u = s.write (t ++ u) := by
  rw [write, write, write, List.append_assoc]

@[simp] theorem write_depth (t : Text) : (s.write t).depth = s.depth := rfl

@[simp] theorem write_scopes (t : Text) : (s.write t).scopes = s.scopes := rfl

@[simp] theorem write_indent (t : Text) : (s.write t).indent = s.indent := rfl

/-- A line is its indentation, its text, and its end. -/
theorem line_eq (t : Text) (semicolon : Bool) :
    s.line t semicolon = s.write (s.indent ++ t ++ lineEnd semicolon) := by
  rw [line, beginLine, endLine, write_write, write_write, List.append_assoc]

end

/-- Does an operation. -/
def perform (s : Stage) : WriteOp → Except StageFault Stage
  | .beginLine => .ok s.beginLine
  | .endLine semicolon => .ok (s.endLine semicolon)
  | .line t semicolon => .ok (s.line t semicolon)
  | .write t => .ok (s.write t)
  | .newline => .ok s.newline
  | .beginScope b => .ok (s.beginScope b)
  | .endScope semicolon lineBreak => s.endScope semicolon lineBreak

/-- The stage after an operation.  A fault leaves it as it was. -/
def after (s : Stage) (op : WriteOp) : Stage := (s.perform op).toOption.getD s

/-- The stage after operations, one after the other. -/
def performAll (s : Stage) (ops : List WriteOp) : Stage := ops.foldl after s

theorem after_of_ok {s t : Stage} {op : WriteOp} (h : s.perform op = .ok t) : s.after op = t := by
  rw [after, h]
  rfl

/-! ## Depth and stack -/

/-- Indentation by levels is the margin of as many scopes. -/
theorem times_indentation (n : Nat) : Text.times n indentation = WriteOp.margin n := by
  induction n with
  | zero => rfl
  | succ n ih =>
    have hstep : WriteOp.margin (n + 1) = List.replicate 4 32 ++ WriteOp.margin n := by
      rw [WriteOp.margin, WriteOp.margin, List.replicate_append_replicate]
      congr 1
      omega
    rw [Text.times, ih, hstep]
    rfl

/-- Depth and stack agree with the open scopes. -/
structure InStep (opened : List Bracket) (s : Stage) : Prop where
  depth : s.depth = opened.length
  scopes : s.scopes = opened

/-- No scope is open, and nothing is indented. -/
abbrev Closed (s : Stage) : Prop := InStep [] s

namespace InStep

variable {opened : List Bracket} {s : Stage}

/-- A stage that is in step indents by the scopes that are open. -/
theorem indent (h : InStep opened s) : s.indent = WriteOp.margin opened.length := by
  rw [Stage.indent, h.depth, Int.toNat_natCast, times_indentation]

theorem write (h : InStep opened s) (t : Text) : InStep opened (s.write t) := ⟨h.depth, h.scopes⟩

/-- Writing changes neither depth nor stack. -/
theorem write_eq (h : InStep opened s) (t : Text) :
    s.write t = { s with code := s.code ++ t, depth := opened.length, scopes := opened } := by
  obtain ⟨hdepth, hscopes⟩ := h
  rw [Stage.write, ← hdepth, ← hscopes]

/-- **One operation**: its text is written, and depth and stack change alike. -/
theorem after_eq (h : InStep opened s) (op : WriteOp) : s.after op =
    { s with code := s.code ++ op.text opened, depth := (op.scopesAfter opened).length
             scopes := op.scopesAfter opened } := by
  cases op with
  | beginLine => rw [after_of_ok rfl, beginLine, h.indent]; exact h.write_eq _
  | endLine semicolon => exact h.write_eq _
  | line t semicolon => rw [after_of_ok rfl, line_eq, h.indent]; exact h.write_eq _
  | write t => exact h.write_eq t
  | newline => exact h.write_eq _
  | beginScope b =>
    rw [after_of_ok rfl, beginScope, beginLine, h.indent, write_write]
    simp only [write_depth, write_scopes, h.depth, h.scopes]
    rfl
  | endScope semicolon lineBreak =>
    cases opened with
    | nil =>
      have hfault : s.perform (.endScope semicolon lineBreak) = .error .noOpenScope := by
        rw [perform, endScope, h.scopes]
      rw [after, hfault]
      exact (write_nil s).symm.trans (h.write_eq [])
    | cons b outer =>
      -- one step of depth is taken back with the scope
      have hdepth : s.depth - 1 = outer.length := by
        rw [h.depth, List.length_cons]
        omega
      have hinner : InStep outer { s with depth := s.depth - 1, scopes := outer } := ⟨hdepth, rfl⟩
      have hdone : s.perform (.endScope semicolon lineBreak) =
          .ok ({ s with depth := s.depth - 1, scopes := outer }.write
            (WriteOp.margin outer.length ++ WriteOp.closing b semicolon lineBreak)) := by
        rw [perform, endScope, h.scopes]
        simp only [beginLine, hinner.indent, write_write]
        rfl
      rw [after_of_ok hdone]
      exact hinner.write_eq _

/-- **One operation keeps a stage in step.** -/
theorem after (h : InStep opened s) (op : WriteOp) : InStep (op.scopesAfter opened) (s.after op) := by
  rw [h.after_eq]
  exact ⟨rfl, rfl⟩

/-- It writes its text behind the code. -/
theorem code_after (h : InStep opened s) (op : WriteOp) : (s.after op).code = s.code ++ op.text opened := by
  rw [h.after_eq]

/-- All operations keep a stage in step, with the scopes that they leave open. -/
theorem performAll (ops : List WriteOp) : ∀ {opened : List Bracket} {s : Stage}, InStep opened s →
    InStep (ops.foldl WriteOp.scopesAfter opened) (s.performAll ops) := by
  induction ops with
  | nil => intro opened s h; exact h
  | cons op ops ih => intro opened s h; exact ih (h.after op)

/-- Code is only ever written at the end. -/
theorem code_performAll (ops : List WriteOp) : ∀ {opened : List Bracket} {s : Stage}, InStep opened s →
    ∃ later, (s.performAll ops).code = s.code ++ later := by
  induction ops with
  | nil => intro opened s _; exact ⟨[], (List.append_nil s.code).symm⟩
  | cons op ops ih =>
    intro opened s h
    obtain ⟨later, hlater⟩ := ih (h.after op)
    refine ⟨op.text opened ++ later, ?_⟩
    rw [← List.append_assoc, ← h.code_after]
    exact hlater

/-- The brackets of the code leave the open scopes open. -/
theorem opening_performAll (ops : List WriteOp) : ∀ {opened : List Bracket} {s : Stage}, InStep opened s →
    (∀ op ∈ ops, op.given.brackets = []) → Text.Opening s.code.brackets opened →
    Text.Opening (s.performAll ops).code.brackets (ops.foldl WriteOp.scopesAfter opened) := by
  induction ops with
  | nil => intro opened s _ _ hopening; exact hopening
  | cons op ops ih =>
    intro opened s h hgiven hopening
    refine ih (h.after op) (fun op' hop => hgiven op' (List.mem_cons_of_mem op hop)) ?_
    rw [h.code_after, Text.brackets_append]
    exact WriteOp.opening_text (hgiven op List.mem_cons_self) hopening

end InStep

theorem closed_empty (name : Text) : (empty name).Closed := ⟨rfl, rfl⟩

/-- A scope is closed unless none is open. -/
theorem InStep.endScope_error_iff {opened : List Bracket} {s : Stage} (h : InStep opened s)
    (semicolon lineBreak : Bool) (f : StageFault) :
    s.endScope semicolon lineBreak = .error f ↔ opened = [] ∧ f = .noOpenScope := by
  rw [endScope, h.scopes]
  cases opened with
  | nil =>
    rw [Except.error.injEq]
    exact ⟨fun hf => ⟨rfl, hf.symm⟩, fun hf => hf.2.symm⟩
  | cons b outer =>
    constructor
    · intro hf; cases hf
    · rintro ⟨hnone, _⟩; cases hnone

/-! ## All operations -/

/-- What a stage is after operations: everything agrees with the scopes that are open. -/
structure InOrder (name : Text) (ops : List WriteOp) (s : Stage) : Prop where
  depth : s.depth = (WriteOp.openScopes ops).length
  scopes : s.scopes = WriteOp.openScopes ops
  /-- Closing a scope is a fault exactly if none is open. -/
  fault : ∀ semicolon lineBreak f, s.endScope semicolon lineBreak = .error f ↔
    WriteOp.openScopes ops = [] ∧ f = .noOpenScope
  /-- The brackets of the code are nested but for those of the open scopes, the innermost last. -/
  unclosed : Text.Opening s.code.brackets (WriteOp.openScopes ops)
  /-- The brackets of the code start a nested word, which ends when the open scopes are closed. -/
  completed : Text.Nested (s.code.brackets ++ (WriteOp.openScopes ops).map Bracket.closer)
  /-- Every line stands behind four spaces for each scope that is open around it. -/
  lines : ∀ before op rest n t, ops = before ++ op :: rest → op.WritesLine (WriteOp.openScopes before) n t →
    ∃ later, s.code = ((empty name).performAll before).code ++ List.replicate (4 * n) 32 ++ t ++ later

/-- **Scopes, depth, brackets and indentation agree** after any operations whose texts hold no brackets. -/
theorem scopes_in_order (name : Text) (ops : List WriteOp) (h : ∀ op ∈ ops, op.given.brackets = []) :
    InOrder name ops ((empty name).performAll ops) := by
  have hstep (ops : List WriteOp) : InStep (WriteOp.openScopes ops) ((empty name).performAll ops) :=
    (closed_empty name).performAll ops
  have hunclosed : Text.Opening ((empty name).performAll ops).code.brackets (WriteOp.openScopes ops) :=
    (closed_empty name).opening_performAll ops h (.nested .nil)
  refine ⟨(hstep ops).depth, (hstep ops).scopes, (hstep ops).endScope_error_iff, hunclosed,
    hunclosed.append_closing (Text.closing_closers _), ?_⟩
  rintro before op rest n t rfl hline
  -- the code up to the line, the line, and what later operations write
  obtain ⟨later, hlater⟩ := ((hstep before).after op).code_performAll rest
  refine ⟨later, ?_⟩
  rw [performAll, List.foldl_append, List.foldl_cons]
  refine hlater.trans ?_
  rw [(hstep before).code_after, hline.text_eq, WriteOp.margin, List.append_assoc _ (List.replicate _ _)]

/-- Two scopes, one in the other, of which the outer one stays open, and a scope too many closed before. -/
def nestedOps : List WriteOp :=
  [.endScope false true, .line "struct" false, .beginScope .brace, .write "  ", .line "float a" true,
    .beginScope .square, .line "3" false, .endScope true true]

theorem scopes_in_order_nested : (∀ op ∈ nestedOps, op.given.brackets = []) ∧
    InOrder "pixel" nestedOps ((empty "pixel").performAll nestedOps) ∧
    ((empty "pixel").performAll nestedOps).code =
      "struct\n\x7b\n      float a;\n    [\n        3\n    ];\n" := by
  have hgiven : ∀ op ∈ nestedOps, op.given.brackets = [] := by decide
  exact ⟨hgiven, scopes_in_order "pixel" nestedOps hgiven, by decide⟩

end Stage
end ShadeGraph
