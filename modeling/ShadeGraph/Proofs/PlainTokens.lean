/-
  Code without a dollar sign.

  A stage replaces its tokens in one pass over its code.  Code without a dollar sign is passed over, whatever
  the table holds, so the test of the code stands for a test of the table.

  1. An unreplaced stage is marked, and its code is substituted or left (`replaceTokens_eq`).  The two agree
     on code that substitution would not change either.
  2. A token without a dollar sign can be the whole code of a stage.  It is then read as itself, for no longer
     token stands in it (`replace_token`), and what it stands for is lost.
  3. So the test is right for every stage exactly when all tokens without a dollar sign stand for themselves.
-/
import ShadeGraph.Proofs.LongestMatch
import ShadeGraph.Shader.Token

namespace ShadeGraph

namespace TokenTable

variable {ts : TokenTable} {s token value : Text}

/-- Every token without a dollar sign stands for itself. -/
def KeepsPlain (ts : TokenTable) : Prop :=
  ∀ token value, ts.get? token = some value → token ≠ [] → Library.tokenMark ∉ token → value = token

/-- A text that is a token is replaced as a whole. -/
theorem replace_token (hne : token ≠ []) (hentry : ts.get? token = some value) : ts.replace token = value := by
  have hlongest : ts.LongestAt (token ++ []) token value := by
    refine ⟨hne, hentry, List.prefix_append token [], fun other _ _ hstands => ?_⟩
    rw [List.append_nil] at hstands
    exact hstands.length_le
  have hreading := Factored.token hlongest .nil
  rw [List.append_nil] at hreading
  rw [hreading.replace_eq, List.flatMap_cons, List.flatMap_nil, List.append_nil, Factor.output]

/-- Factors of a text without a dollar sign are written as they are. -/
theorem Factored.flatMap_output {fs : List Factor} (hplain : ts.KeepsPlain) (h : ts.Factored s fs)
    (hs : Library.tokenMark ∉ s) : fs.flatMap Factor.output = s := by
  induction h with
  | nil => rfl
  | @token token value rest fs hlongest _ ih =>
    rw [List.mem_append, not_or] at hs
    have hvalue := hplain token value hlongest.entry hlongest.ne_nil hs.1
    rw [List.flatMap_cons, ih hs.2, Factor.output, hvalue]
  | byte _ _ ih =>
    rw [List.mem_cons, not_or] at hs
    rw [List.flatMap_cons, ih hs.2, Factor.output, List.singleton_append]

/-- Where plain tokens stand for themselves, a text without a dollar sign is left. -/
theorem KeepsPlain.replace_eq (hplain : ts.KeepsPlain) (hs : Library.tokenMark ∉ s) : ts.replace s = s := by
  obtain ⟨fs, hfs⟩ := ts.exists_factored s
  rw [hfs.replace_eq, hfs.flatMap_output hplain hs]

/-- An empty table leaves every text. -/
theorem replace_of_isEmpty (h : ts.entries.isEmpty = true) (s : Text) : ts.replace s = s := by
  have hnone : ∀ token value, ts.get? token = some value → token <:+: s → token = [] := by
    intro token value hentry _
    rw [get?, List.isEmpty_iff.mp h] at hentry
    cases hentry
  rw [(factored_bytes hnone).replace_eq, flatMap_output_bytes]

end TokenTable

namespace Stage

variable {s : Stage} {ts : TokenTable}

/-- The stage after a pass over its code, whatever the code. -/
def substituted (s : Stage) (ts : TokenTable) : Stage :=
  { s with replaced := true, code := ts.replace s.code }

theorem holdsToken_iff : s.holdsToken = true ↔ Library.tokenMark ∈ s.code := List.contains_iff_mem

/-- A stage of which nothing has been replaced is marked; its code is substituted if it has a dollar sign. -/
theorem replaceTokens_eq (hfirst : s.replaced = false) (ts : TokenTable) :
    s.replaceTokens ts =
      .ok { s with replaced := true, code := if s.holdsToken then ts.replace s.code else s.code } := by
  rw [replaceTokens, if_neg (by rw [hfirst]; exact Bool.false_ne_true)]
  cases hholds : s.holdsToken with
  | false => rw [Bool.not_false, Bool.or_true, if_pos rfl, if_neg Bool.false_ne_true]
  | true =>
    rw [Bool.not_true, Bool.or_false, if_pos rfl]
    split
    · next hempty => rw [TokenTable.replace_of_isEmpty hempty]
    · rfl

/-- The stage is the substituted one if its code has a dollar sign, or has nothing to replace. -/
theorem replaceTokens_eq_substituted_iff (hfirst : s.replaced = false) :
    s.replaceTokens ts = .ok (s.substituted ts) ↔
      Library.tokenMark ∈ s.code ∨ ts.replace s.code = s.code := by
  rw [replaceTokens_eq hfirst, ← holdsToken_iff]
  cases hholds : s.holdsToken with
  | true => exact iff_of_true rfl (Or.inl rfl)
  | false =>
    constructor
    · intro heq
      exact Or.inr (congrArg Stage.code (Except.ok.inj heq)).symm
    · rintro (h | hsame)
      · cases h
      · rw [substituted, hsame]
        rfl

/-- **Replacing the tokens of a stage is one pass over its code, but for tokens without a dollar sign.**  Of a
stage that has not been replaced, the mark and the code are all that changes.  The code becomes what the
table makes of it if it has a dollar sign, and stays as it is otherwise.  A table does the same to every stage
as the pass would if and only if its tokens without a dollar sign stand for themselves. -/
theorem replaceTokens_substitutes_iff (ts : TokenTable) :
    (∀ s : Stage, s.replaced = false →
      (∃ code, s.replaceTokens ts = .ok { s with replaced := true, code } ∧
        (Library.tokenMark ∈ s.code → code = ts.replace s.code) ∧
        (Library.tokenMark ∉ s.code → code = s.code)) ∧
      (s.replaceTokens ts = .ok (s.substituted ts) ↔
        Library.tokenMark ∈ s.code ∨ ts.replace s.code = s.code)) ∧
    ((∀ s : Stage, s.replaced = false → s.replaceTokens ts = .ok (s.substituted ts)) ↔ ts.KeepsPlain) := by
  refine ⟨fun s hfirst => ⟨⟨_, replaceTokens_eq hfirst ts, ?_, ?_⟩, replaceTokens_eq_substituted_iff hfirst⟩,
    fun hall token value hentry hne hplain => ?_, fun hplain s hfirst => ?_⟩
  · exact fun hmark => if_pos (holdsToken_iff.mpr hmark)
  · exact fun hmark => if_neg (mt holdsToken_iff.mp hmark)
  · -- the token as the code of a stage: what is left of it has to be what it stands for
    have hstage := hall ((empty []).write token) rfl
    rcases (replaceTokens_eq_substituted_iff rfl).mp hstage with hmark | hsame
    · exact absurd hmark hplain
    · have hcode : ts.replace token = token := hsame
      rw [← hcode, TokenTable.replace_token hne hentry]
  · rw [replaceTokens_eq_substituted_iff hfirst]
    by_cases hmark : Library.tokenMark ∈ s.code
    · exact Or.inl hmark
    · exact Or.inr (hplain.replace_eq hmark)

/-- A stage that has been given one line of code. -/
def coded (code : Text) : Stage := (empty pixelStage).line code true

/-- A token with its dollar sign inside, and one without that stands for itself. -/
def looseTokens : TokenTable := ⟨[("p$w", "Pw"), ("Nw", "Nw")]⟩

theorem replaceTokens_substitutes_iff_loose :
    looseTokens.KeepsPlain ∧
    (coded "a = p$w + Nw").replaceTokens looseTokens = .ok ((coded "a = p$w + Nw").substituted looseTokens) ∧
    ((coded "a = p$w + Nw").substituted looseTokens).code = Text.ofString "a = Pw + Nw;\n" ∧
    (coded "a = Nw").replaceTokens looseTokens = .ok ((coded "a = Nw").substituted looseTokens) := by
  have hplain : looseTokens.KeepsPlain := by
    intro token value hentry hne hmark
    have hmem := TokenTable.mem_rules_of_get? hentry hne
    have hrules : ∀ r ∈ looseTokens.rules, Library.tokenMark ∈ r.1 ∨ r.2 = r.1 := by decide
    exact (hrules _ hmem).resolve_left hmark
  have hall := (replaceTokens_substitutes_iff looseTokens).2.mpr hplain
  exact ⟨hplain, hall _ rfl, by decide, hall _ rfl⟩

/-- A token that has no dollar sign. -/
def plainTokens : TokenTable := ⟨[("pos", "Pw")]⟩

/-- **A token without a dollar sign is passed over**, unless there is a dollar sign elsewhere. -/
theorem plain_token_passed_over :
    (coded "pos").replaced = false ∧
    (coded "pos").replaceTokens plainTokens = .ok { coded "pos" with replaced := true } ∧
    (coded "pos").code = Text.ofString "pos;\n" ∧
    plainTokens.replace (coded "pos").code = Text.ofString "Pw;\n" ∧
    (coded "pos $").replaceTokens plainTokens = .ok ((coded "pos $").substituted plainTokens) ∧
    ((coded "pos $").substituted plainTokens).code = Text.ofString "Pw $;\n" := by
  refine ⟨rfl, ?_, ?_, ?_, ?_, ?_⟩ <;> decide

end Stage
end ShadeGraph
