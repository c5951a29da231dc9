import ReactMigration.Proofs.PipeChains
import ReactMigration.Proofs.Precedence
import ReactMigration.Proofs.Scanning
import ReactMigration.Proofs.SwitchOrder

/-!
How printed conditions are read.

A condition is printed in front of `?` as it is, in round brackets only if it takes several lines.  So
what is tested is the whole condition if that holds together more tightly than `?:`; otherwise the last
operand of its loosest operators is tested alone.
-/

namespace ReactMigration

namespace Script

open ReactMigration.Text

/-! ### Texts of words -/

namespace Spells

variable {s t : List Char} {ws ws' : List Word}

theorem behind {gap : List Char} (blank : ∀ c ∈ gap, isBlank c = true) (h : Spells t ws) :
    Spells (gap ++ t) ws := by
  cases h with
  | done more => exact .done (List.forall_mem_append.mpr ⟨blank, more⟩)
  | @word gap' rest w ws more h =>
      have whole : Spells (gap ++ gap' ++ w.chars ++ rest) (w :: ws) :=
        .word (List.forall_mem_append.mpr ⟨blank, more⟩) h
      simpa only [List.append_assoc] using whole

theorem append (h : Spells s ws) (h' : Spells t ws') : Spells (s ++ t) (ws ++ ws') := by
  induction h with
  | done blank => exact h'.behind blank
  | word blank _ ih =>
      rw [List.append_assoc]
      exact .word blank ih

/-- A text as one word. -/
theorem one (w : Word) : Spells w.chars [w] := by
  have whole : Spells ([] ++ w.chars ++ []) [w] := .word (by simp) (.done (by simp))
  simpa using whole

theorem isBlank_space : ∀ c ∈ [' '], isBlank c = true :=
  List.forall_mem_singleton.mpr (by decide)

/-- Words with blanks between them. -/
theorem joined (w : Word) (ws : List Word) :
    Spells (w.chars ++ ws.flatMap fun w => ' ' :: w.chars) (w :: ws) := by
  have later : Spells (ws.flatMap fun w => ' ' :: w.chars) ws := by
    induction ws with
    | nil => exact .done (by simp)
    | cons w ws ih => exact ((Spells.one w).behind isBlank_space).append ih
  exact (Spells.one w).append later

/-- A sign between blanks. -/
theorem spaced (sign : String) : Spells (" " ++ sign ++ " ").toList [.sign sign] := by
  have whole := ((Spells.one (.sign sign)).append (.done isBlank_space)).behind isBlank_space
  simpa [Word.chars] using whole

end Spells

/-! ### A choice behind an expression -/

namespace Expression

variable {e u v : Expression}

/-- What is read where `?` and `:` with two branches follow an expression: the choice goes to the last
operand that holds together more tightly than a choice. -/
def chosen (e u v : Expression) : Expression :=
  match e with
  | .conditional t a b => .conditional t a (b.chosen u v)
  | .infixed sign l r =>
      if 2 ≤ e.level then .conditional e u v else .infixed sign l (r.chosen u v)
  | .prefixed sign inner =>
      if 2 ≤ e.level then .conditional e u v else .prefixed sign (inner.chosen u v)
  | .postfixed .. => .conditional e u v
  | .operand _ => .conditional e u v

theorem parts_chosen : ∀ e : Expression,
    (e.chosen u v).parts = e.parts ++ .question :: (u.parts ++ .colon :: v.parts)
  | .conditional t a b => by simp [chosen, parts, parts_chosen b]
  | .infixed sign l r => by
      unfold chosen
      split
      · rfl
      · simp [parts, parts_chosen r]
  | .prefixed sign e => by
      unfold chosen
      split
      · rfl
      · simp [parts, parts_chosen e]
  | .postfixed e sign => rfl
  | .operand text => rfl

theorem level_chosen (e : Expression) : (e.chosen u v).level = min e.level 1 := by
  cases e with
  | conditional t a b => rfl
  | infixed sign l r =>
      unfold chosen
      split
      · simp only [level] at *
        omega
      · simp only [level] at *
        omega
  | prefixed sign e =>
      unfold chosen
      split
      · simp only [level] at *
        omega
      · simp only [level] at *
        omega
  | postfixed e sign => rfl
  | operand text => rfl

/-- A choice behind an expression is an expression again. -/
theorem grammatical_chosen (gu : u.grammatical = true) (gv : v.grammatical = true) (lu : 1 ≤ u.level)
    (lv : 1 ≤ v.level) {e : Expression} (ge : e.grammatical = true) :
    (e.chosen u v).grammatical = true := by
  have choice {e : Expression} (ge : e.grammatical = true) (high : 2 ≤ e.level) :
      (conditional e u v).grammatical = true :=
    grammatical_conditional.mpr ⟨high, lu, lv, ge, gu, gv⟩
  induction e with
  | conditional t a b _ _ ih =>
      obtain ⟨lt, la, lb, gt, ga, gb⟩ := grammatical_conditional.mp ge
      refine grammatical_conditional.mpr ⟨lt, la, ?_, gt, ga, ih gb⟩
      rw [level_chosen]
      omega
  | infixed sign l r _ ih =>
      unfold chosen
      split
      · exact choice ge ‹_›
      · rename_i low
        obtain ⟨n, found, left, right, gl, gr⟩ := grammatical_infixed.mp ge
        rw [level_infixed found] at low
        refine grammatical_infixed.mpr ⟨n, found, left, ?_, gl, ih gr⟩
        have small : rightLevel n = 1 := by
          obtain rfl | rfl : n = 0 ∨ n = 1 := by omega
          · rfl
          · rfl
        rw [level_chosen]
        omega
  | prefixed sign e ih =>
      unfold chosen
      split
      · exact choice ge ‹_›
      · rename_i low
        obtain ⟨own, inner, found, le, ge⟩ := grammatical_prefixed.mp ge
        rw [level_prefixed found] at low
        have cases := prefixLevels?_cases found
        refine grammatical_prefixed.mpr ⟨own, inner, found, ?_, ih ge⟩
        rw [level_chosen]
        omega
  | postfixed e sign => exact choice ge (by simp [level])
  | operand text => exact choice ge (by simp [level])

/-- The choice is made by the whole expression exactly if that is no list, assignment, function or
choice itself. -/
theorem chosen_eq_conditional_iff (ge : e.grammatical = true) :
    e.chosen u v = .conditional e u v ↔ 2 ≤ e.level := by
  cases e with
  | conditional t a b =>
      obtain ⟨lt, -⟩ := grammatical_conditional.mp ge
      constructor
      · intro same
        have own : t = .conditional t a b := (conditional.inj same).1
        rw [own] at lt
        exact lt
      · intro high
        simp [level] at high
  | infixed sign l r =>
      unfold chosen
      split <;> simp [*]
  | prefixed sign e =>
      unfold chosen
      split <;> simp [*]
  | postfixed e sign => simp [chosen, level]
  | operand text => simp [chosen, level]

end Expression

variable {ws wu wv : List Word} {e u v : Expression}

/-- Words with a choice behind them are read in one way. -/
theorem groups_choice_iff (he : Groups ws e) (hu : Groups wu u) (hv : Groups wv v) (lu : 1 ≤ u.level)
    (lv : 1 ≤ v.level) {r : Expression} :
    Groups (ws ++ .sign "?" :: (wu ++ .sign ":" :: wv)) r ↔ r = e.chosen u v := by
  have read : Groups (ws ++ .sign "?" :: (wu ++ .sign ":" :: wv)) (e.chosen u v) := by
    refine ⟨Expression.grammatical_chosen hu.grammatical hv.grammatical lu lv he.grammatical, ?_⟩
    rw [Expression.words, Expression.parts_chosen, ← he.words, ← hu.words, ← hv.words]
    simp [Expression.words, Part.word]
  exact ⟨fun other => other.unique read, fun same => same ▸ read⟩

/-- A comparison of two expressions is read as one exactly if the first is made of operators from
comparisons for equality on, and the second of tighter ones. -/
theorem groups_equal_iff {ws ws' : List Word} {e e' : Expression} (h : Groups ws e) (h' : Groups ws' e') :
    Groups (ws ++ .sign "===" :: ws') (.infixed "===" e e') ↔ 7 ≤ e.level ∧ 8 ≤ e'.level := by
  have sign : infixLevel? "===" = some 7 := by decide
  constructor
  · intro read
    obtain ⟨n, found, left, right, -⟩ := Expression.grammatical_infixed.mp read.grammatical
    obtain rfl := Option.some.inj (sign.symm.trans found)
    exact ⟨left, right⟩
  · rintro ⟨left, right⟩
    refine ⟨Expression.grammatical_infixed.mpr ⟨7, sign, left, right, h.grammatical, h'.grammatical⟩, ?_⟩
    rw [← h.words, ← h'.words]
    simp [Expression.words, Expression.parts, Part.word]

end Script

/-! ### Printed conditions -/

open Script (Word Expression Spells Groups rows rows_eq_unlines)
open Text (unlines)

/-- Code that stands as a branch on the line of its condition is no list. -/
def Markup.StandsInBranch : Markup → Prop
  | .expression code => ∀ line, Text.lines code = [line] →
      ∃ ws e, Spells line.toList ws ∧ Groups ws e ∧ 1 ≤ e.level
  | _ => True

namespace Printing

/-- A condition in front of its `?`. -/
def writtenTest (condition : String) : String :=
  if condition.toList.contains '\n' then "(" ++ condition ++ ")" else condition

/-- The words of a condition in front of its `?`; brackets make one of them. -/
def testWords (condition : String) (ws : List Word) : List Word :=
  if condition.toList.contains '\n' then [.operand ("(" ++ condition ++ ")")] else ws

/-- The whole condition, in brackets where it is printed in brackets. -/
def testExpression (condition : String) (e : Expression) : Expression :=
  if condition.toList.contains '\n' then .operand ("(" ++ condition ++ ")") else e

/-- A branch on lines of its own, in brackets. -/
def groupText (branch : List String) : String :=
  "(\n" ++ String.ofList (rows (branch.map indentLine)) ++ ")"

/-- A branch is printed on the line of its condition or in brackets. -/
def BranchText (branch : List String) (text : String) : Prop :=
  branch = [text] ∨ text = groupText branch

theorem unlines_of_rows {ls : List String} {s : String} (same : rows ls = s.toList ++ ['\n']) :
    unlines ls = s := by
  have some : ls ≠ [] := by
    rintro rfl
    simp [rows] at same
  rw [rows_eq_unlines some] at same
  exact String.toList_inj.mp (List.append_cancel_right same)

/-- A conditional is printed as its condition and its two branches. -/
theorem unlines_conditionalLines (condition : String) (shown otherwise : List String) :
    ∃ first second, BranchText shown first ∧ BranchText otherwise second ∧
      unlines (conditionalLines condition shown otherwise) =
        writtenTest condition ++ (" ? " ++ (first ++ (" : " ++ second))) := by
  unfold conditionalLines
  extract_lets test long
  have same : test = writtenTest condition := rfl
  have several : ∃ first second, BranchText shown first ∧ BranchText otherwise second ∧
      unlines long = writtenTest condition ++ (" ? " ++ (first ++ (" : " ++ second))) := by
    rw [← same]
    unfold long
    split
    · rename_i line
      exact ⟨groupText shown, line, .inr rfl, .inl rfl, unlines_of_rows (by simp [rows, groupText])⟩
    · exact ⟨groupText shown, groupText otherwise, .inr rfl, .inr rfl,
        unlines_of_rows (by simp [rows, groupText])⟩
  split
  · rename_i a b
    extract_lets single
    split
    · refine ⟨a, b, .inl rfl, .inl rfl, ?_⟩
      rw [unlines, String.intercalate_singleton, ← same]
      simp only [single, String.append_assoc]
    · exact several
  · exact several

variable {condition : String} {ws : List Word} {e : Expression}

theorem spells_testText (h : Spells condition.toList ws) :
    Spells (writtenTest condition).toList (testWords condition ws) := by
  unfold writtenTest testWords
  split
  · exact Spells.one (.operand ("(" ++ condition ++ ")"))
  · exact h

theorem groups_testWords (condition : String) (h : Groups ws e) :
    Groups (testWords condition ws) (testExpression condition e) := by
  unfold testWords testExpression
  split
  · exact ⟨rfl, rfl⟩
  · exact h

theorem testExpression_level :
    2 ≤ (testExpression condition e).level ↔ condition.toList.contains '\n' = true ∨ 2 ≤ e.level := by
  unfold testExpression
  split
  · rename_i several
    exact ⟨fun _ => .inl several, fun _ => by simp [Expression.level]⟩
  · rename_i one
    exact ⟨.inr, fun h => h.resolve_left one⟩

theorem operand_groups (text : String) : ∃ ws e, Spells text.toList ws ∧ Groups ws e ∧ 1 ≤ e.level :=
  ⟨[.operand text], .operand text, .one (.operand text), ⟨rfl, rfl⟩, by simp [Expression.level]⟩

/-- What is printed as a branch is read as an operand, but for code on one line. -/
theorem branch_groups {m : Markup} {text : String} (stands : m.StandsInBranch)
    (printed : BranchText (branchLines m (render m)) text) :
    ∃ ws e, Spells text.toList ws ∧ Groups ws e ∧ 1 ≤ e.level := by
  cases m with
  | expression code =>
      obtain line | _ := printed
      · rw [branchLines, render.eq_def] at line
        dsimp only at line
        split at line
        · exact operand_groups text
        · exact stands text line
        · nofun
      · exact operand_groups text
  | _ => exact operand_groups text

/-- The words of a conditional. -/
def printedWords (condition : String) (ws : List Word) (u v : Expression) : List Word :=
  testWords condition ws ++ .sign "?" :: (u.words ++ .sign ":" :: v.words)

/-- However a condition is cut into words, the printed conditional is read with a choice behind the
condition; its test is the whole condition exactly if that is printed in brackets or is no list, no
assignment, no function and no choice. -/
def TestRead (condition : String) (shown : Markup) (otherwise : Option Markup) : Prop :=
  ∀ ws e, Spells condition.toList ws → Groups ws e → shown.StandsInBranch →
    (∀ m ∈ otherwise, m.StandsInBranch) →
      ∃ u v, Spells (unlines (render (.conditional condition shown otherwise))).toList
          (printedWords condition ws u v) ∧
        (∀ r, Groups (printedWords condition ws u v) r ↔ r = (testExpression condition e).chosen u v) ∧
        (Groups (printedWords condition ws u v) (.conditional (testExpression condition e) u v) ↔
          condition.toList.contains '\n' = true ∨ 2 ≤ e.level)

theorem testRead (condition : String) (shown : Markup) (otherwise : Option Markup) :
    TestRead condition shown otherwise := by
  intro ws e spelled grouped first second
  obtain ⟨text, text', printed, printed', whole⟩ :=
    unlines_conditionalLines condition (branchLines shown (render shown)) (renderOtherwise otherwise)
  obtain ⟨_, u, su, gu, lu⟩ := branch_groups first printed
  obtain ⟨_, v, sv, gv, lv⟩ : ∃ ws e, Spells text'.toList ws ∧ Groups ws e ∧ 1 ≤ e.level := by
    cases otherwise with
    | none => exact operand_groups text'
    | some m =>
        rw [renderOtherwise] at printed'
        exact branch_groups (second m rfl) printed'
  have test := groups_testWords condition grouped
  have readings (r : Expression) :
      Groups (printedWords condition ws u v) r ↔ r = (testExpression condition e).chosen u v := by
    rw [printedWords, gu.words, gv.words]
    exact Script.groups_choice_iff test gu gv lu lv
  refine ⟨u, v, ?_, readings, ?_⟩
  · rw [render, whole, printedWords, gu.words, gv.words]
    simp only [String.toList_append]
    exact (spells_testText spelled).append
      ((Spells.spaced "?").append (su.append ((Spells.spaced ":").append sv)))
  · rw [readings, eq_comm, Expression.chosen_eq_conditional_iff test.grammatical, testExpression_level]

end Printing

/-! ### Conditions of templates -/

section Conditions

open Template
open Converting (Gives)
open Printing (TestRead testRead)

/-- However the two sides are cut into words, the comparison is read as one of both exactly if the
switched value has no operator looser than comparisons for equality, and the case none that is not
tighter. -/
def ComparisonRead (switch value : String) : Prop :=
  ∀ ws e ws' e', Spells switch.toList ws → Groups ws e → Spells value.toList ws' → Groups ws' e' →
    Spells s!"{switch} === {value}".toList (ws ++ .sign "===" :: ws') ∧
      (Groups (ws ++ .sign "===" :: ws') (.infixed "===" e e') ↔ 7 ≤ e.level ∧ 8 ≤ e'.level)

theorem comparisonRead (switch value : String) : ComparisonRead switch value := by
  intro ws e ws' e' spelled grouped spelled' grouped'
  refine ⟨?_, Script.groups_equal_iff grouped grouped'⟩
  have text : s!"{switch} === {value}" = switch ++ (" === " ++ value) := String.append_assoc
  rw [text]
  simpa using spelled.append ((Spells.spaced "===").append spelled')

variable {env : TemplateEnv} {content : ContentOf} {s : Scope}

/-- The markup of `*ngIf` is a conditional over the bound expression. -/
theorem convertNode_ngIf {region : Bool} {source : String} {clauses : Clauses} {child : Node}
    {p : Position} {m : Option Markup}
    (given : Gives (convertNode env content s region (.structural "ngIf" source clauses child p none)) m) :
    ∃ condition shown otherwise, m = some (.conditional condition shown otherwise) ∧
      Gives (s.bound env (parseBoundValue clauses.expression (some p)) clauses.asName (some p)) condition := by
  unfold convertNode at given
  obtain ⟨⟨condition, inner⟩, head, given⟩ := given.bind
  unfold conditionHead at head
  obtain ⟨code, bound, head⟩ := head.bind
  cases head.pure
  have ends {shown : Option Markup} (given : Gives (do
      let otherwise ← if present clauses.elseRef then content clauses.elseRef (s.child [] false) p
        else pure none
      return some (Markup.conditional condition (shown.getD .nothing) otherwise)) m) :
      ∃ condition shown otherwise, m = some (.conditional condition shown otherwise) ∧
        Gives (s.bound env (parseBoundValue clauses.expression (some p)) clauses.asName (some p))
          condition := by
    dsimp only at given
    split at given
    · obtain ⟨otherwise, _, given⟩ := given.bind
      exact ⟨condition, _, otherwise, given.pure, bound⟩
    · obtain ⟨otherwise, _, given⟩ := given.bind
      exact ⟨condition, _, otherwise, given.pure, bound⟩
  dsimp only at given
  split at given
  · obtain ⟨shown, _, given⟩ := given.bind
    exact ends given
  · obtain ⟨shown, _, given⟩ := given.bind
    exact ends given

/-- The case of a switch compares the switched code with that of its own expression. -/
theorem convertSwitch_compares {switch : String} {ns : List Node} {w : SwitchParts}
    (given : Gives (convertSwitch env content s switch ns) w) :
    ∀ entry ∈ w.cases, ∃ source clauses child p directive value,
      Node.structural "ngSwitchCase" source clauses child p directive ∈ ns ∧
        Gives (s.boundAt env (parseBoundValue clauses.expression (some p)) p) value ∧
        entry.1 = s!"{switch} === {value}" := by
  obtain ⟨items, each, rfl⟩ := convertSwitch_becomes given
  intro entry mem
  obtain ⟨item, inside, isCase⟩ := List.mem_filterMap.mp mem
  obtain ⟨n, child, becomes⟩ := mem_right_of_forall₂ each.flip inside
  cases becomes with
  | case compared shown =>
      cases isCase
      exact ⟨_, _, _, _, _, _, child, compared, rfl⟩
  | fallback => cases isCase
  | other => cases isCase

/-- What `*ngIf` and a switch test.  The test of a printed `*ngIf` is its whole condition exactly if
that is printed in brackets or holds together more tightly than a choice, and a printed case compares
the whole switched value with its own whole value exactly if both hold together tightly enough;
otherwise their last (first) operands alone are tested (compared). -/
theorem conditions_read (env : TemplateEnv) (content : ContentOf) (s : Scope) :
    (∀ region source clauses child p m,
      Gives (convertNode env content s region (.structural "ngIf" source clauses child p none)) m →
        ∃ condition shown otherwise, m = some (.conditional condition shown otherwise) ∧
          Gives (s.bound env (parseBoundValue clauses.expression (some p)) clauses.asName (some p))
            condition ∧
          TestRead condition shown otherwise) ∧
    (∀ region tag attributes children p selfClosing component m uses,
      directiveUses env.index 0 [] attributes = .ok uses → "ngSwitch" ∉ uses.flatMap (·.names) →
      attributes.any (·.isSwitch) = true →
      Gives (convertNode env content s region
        (.element tag attributes children p selfClosing component)) m →
        ∃ (start : StartTag) (attrs : List MarkupAttr) (switch : String) (w : SwitchParts),
          m = some (.element start.tag attrs w.markup) ∧
          SwitchesOver env s attributes switch ∧
          ∀ entry ∈ w.cases, ∃ source clauses child p directive value,
            Node.structural "ngSwitchCase" source clauses child p directive ∈ children ∧
              Gives (s.boundAt env (parseBoundValue clauses.expression (some p)) p) value ∧
              entry.1 = s!"{switch} === {value}" ∧ ComparisonRead switch value ∧
              ∀ otherwise, TestRead entry.1 entry.2 otherwise) := by
  constructor
  · intro region source clauses child p m given
    obtain ⟨condition, shown, otherwise, same, bound⟩ := convertNode_ngIf given
    exact ⟨condition, shown, otherwise, same, bound, testRead _ _ _⟩
  · intro region tag attributes children p selfClosing component m uses claims own switches given
    obtain ⟨start, attrs, switch, w, _, subject, parts, same⟩ := convertNode_parts claims own switches given
    refine ⟨start, attrs, switch, w, same, subject, fun entry mem => ?_⟩
    obtain ⟨source, clauses, child, p, directive, value, inside, compared, condition⟩ :=
      convertSwitch_compares parts entry mem
    exact ⟨source, clauses, child, p, directive, value, inside, compared, condition,
      comparisonRead switch value, fun _ => testRead _ _ _⟩

/-- The branches of a conditional. -/
def Markup.branches : Markup → List Markup
  | .conditional _ shown otherwise => shown :: otherwise.toList
  | _ => []

/-- Whether markup is mere code. -/
def Markup.isCode : Markup → Bool
  | .expression _ => true
  | _ => false

theorem Markup.standsInBranch {m : Markup} (markup : m.isCode = false) : m.StandsInBranch := by
  cases m with
  | expression code => cases markup
  | _ => exact trivial

/-- A paragraph under a condition. -/
def paragraphIf (condition : String) : Node :=
  .structural "ngIf" condition { expression := condition }
    (.element "p" [] [.text "x" {}] {} false none) {} none

/-- The condition `a || b`. -/
def eitherWords : List Word :=
  [.operand "a", .sign "||", .operand "b"]

def either : Expression :=
  .infixed "||" (.operand "a") (.operand "b")

theorem conditions_read_either :
    (∃ shown otherwise, Gives (convertNode rowsEnv (templateContent rowsEnv 1) {} false (paragraphIf "a || b"))
        (some (.conditional "a || b" shown otherwise)) ∧
      ∃ u v, Spells (unlines (Printing.render (.conditional "a || b" shown otherwise))).toList
          (Printing.printedWords "a || b" eitherWords u v) ∧
        Groups (Printing.printedWords "a || b" eitherWords u v) (.conditional either u v)) ∧
    ∃ m, Gives (convertNode rowsEnv (templateContent rowsEnv 1) {} false (switchOverK headedCases)) (some m) ∧
      Printing.render m = ["<div>", "  <b />", "  \x7bk === 1 ? <p>1</p> : (k === 2 ? <p>2</p> : null)\x7d",
        "</div>"] ∧
      ∃ (switch : String) (w : SwitchParts), ∀ entry ∈ w.cases, ∃ value,
        entry.1 = s!"{switch} === {value}" ∧ ComparisonRead switch value := by
  obtain ⟨ifs, switches⟩ := conditions_read rowsEnv (templateContent rowsEnv 1) {}
  constructor
  · have converted : ((convertNode rowsEnv (templateContent rowsEnv 1) {} false
        (paragraphIf "a || b")).value?.map fun m => (m.toList.flatMap Markup.branches).all (!·.isCode)) =
        some true := by
      decide +kernel
    obtain ⟨m, found, markup⟩ := Option.map_eq_some_iff.mp converted
    have made := Converting.gives_of_value? found
    obtain ⟨condition, shown, otherwise, rfl, bound, read⟩ := ifs _ _ _ _ _ _ made
    have plain : parseBoundValue "a || b" (some {}) = .text "a || b" := by
      decide +kernel
    have code : Scope.codeOf rowsEnv {} "a || b" = .ok "a || b" := by
      decide +kernel
    rw [plain] at bound
    obtain rfl : "a || b" = condition := Except.ok.inj ((Scope.settles_of_codeOf code).gives bound)
    have spelled : Spells "a || b".toList eitherWords := by
      simpa [eitherWords, Word.chars] using Spells.joined (.operand "a") [.sign "||", .operand "b"]
    have stands (branch : Markup) (mem : branch ∈ shown :: otherwise.toList) : branch.StandsInBranch :=
      Markup.standsInBranch (by simpa using List.all_eq_true.mp markup branch (by simpa [Markup.branches] using mem))
    obtain ⟨u, v, text, -, whole⟩ := read eitherWords either spelled ⟨by decide, by decide⟩
      (stands shown List.mem_cons_self)
      fun branch mem => stands branch (List.mem_cons_of_mem shown (Option.mem_toList.mpr mem))
    exact ⟨_, _, made, u, v, text, whole.mpr (.inr (by decide))⟩
  · obtain ⟨m, made, shown⟩ : ∃ m, Gives (convertNode rowsEnv (templateContent rowsEnv 1) {} false
        (switchOverK headedCases)) (some m) ∧ Printing.render m = ["<div>", "  <b />",
          "  \x7bk === 1 ? <p>1</p> : (k === 2 ? <p>2</p> : null)\x7d", "</div>"] :=
      rendered_of_value? (by decide +kernel)
    have claims : directiveUses rowsEnv.index 0 [] [.property "ngSwitch" "k" (.text "k") {} false] = .ok [] :=
      rfl
    obtain ⟨_, _, switch, w, -, -, cases⟩ := switches _ _ _ _ _ _ _ _ _ claims nofun rfl made
    refine ⟨m, made, shown, switch, w, fun entry mem => ?_⟩
    obtain ⟨_, _, _, _, _, value, -, -, condition, compared, -⟩ := cases entry mem
    exact ⟨value, condition, compared⟩

/-- The condition `a ? b : c`. -/
def choiceWords : List Word :=
  [.operand "a", .sign "?", .operand "b", .sign ":", .operand "c"]

def choice : Expression :=
  .conditional (.operand "a") (.operand "b") (.operand "c")

/-- The test of a printed `a ? b : c` is `a`. -/
theorem test_lost_choice :
    (∃ m, Gives (convertNode rowsEnv (templateContent rowsEnv 1) {} false (paragraphIf "a ? b : c")) (some m) ∧
      Printing.render m = ["a ? b : c ? <p>x</p> : null"]) ∧
    Spells "a ? b : c".toList choiceWords ∧ Groups choiceWords choice ∧
    Spells "a ? b : c ? <p>x</p> : null".toList
      (choiceWords ++ [.sign "?", .operand "<p>x</p>", .sign ":", .operand "null"]) ∧
    ∀ r, Groups (choiceWords ++ [.sign "?", .operand "<p>x</p>", .sign ":", .operand "null"]) r →
      r = .conditional (.operand "a") (.operand "b")
        (.conditional (.operand "c") (.operand "<p>x</p>") (.operand "null")) := by
  refine ⟨rendered_of_value? (by decide +kernel), ?_, ⟨by decide, by decide⟩, ?_, fun r read => ?_⟩
  · simpa [choiceWords, Word.chars] using
      Spells.joined (.operand "a") [.sign "?", .operand "b", .sign ":", .operand "c"]
  · simpa [choiceWords, Word.chars] using Spells.joined (.operand "a")
      [.sign "?", .operand "b", .sign ":", .operand "c", .sign "?", .operand "<p>x</p>", .sign ":",
        .operand "null"]
  · exact read.unique ⟨by decide, by decide⟩

end Conditions

end ReactMigration
