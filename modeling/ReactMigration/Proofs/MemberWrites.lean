import ReactMigration.Proofs.Matching
import ReactMigration.Proofs.Recasting

/-!
How a write of a member is recognised.

A member is `this.` and a whole name at a word boundary, with an optional step in front.  What follows it
decides about the write: a step, a call that changes an array in place, or an assignment to the member
or to a part of it.
-/

namespace ReactMigration.Recast

open ReactMigration.Text
open ReactMigration.Text.Pattern (Captures isName isPath atBoundary)

variable {c d : Cursor} {m : Match}

/-- The keyword that a member is addressed through, with its dot. -/
def instanceDot : List Char := "this.".toList

/-- The signs that change a member by one. -/
def stepSigns : List String := ["++", "--"]

/-- A stretch of a text that starts behind a part of it starts in what follows. -/
theorem exists_append_of_le {u v x y : List Char} (same : u ++ v = x ++ y) (late : u.length ≤ x.length) :
    ∃ z, x = u ++ z ∧ v = z ++ y := by
  obtain ⟨z, rfl, rest⟩ | ⟨z, rfl, rest⟩ := List.append_eq_append_iff.mp same
  · exact ⟨z, rfl, rest⟩
  · rw [List.length_append] at late
    obtain rfl := List.length_eq_zero_iff.mp (show z.length = 0 by omega)
    exact ⟨[], by simp, by simpa using rest.symm⟩

theorem eq_of_mem_stepSigns {step : List Char} (sign : String.ofList step ∈ stepSigns) :
    step = ['+', '+'] ∨ step = ['-', '-'] := by
  simp only [stepSigns, List.mem_cons, List.not_mem_nil, or_false] at sign
  refine sign.imp (fun same => ?_) fun same => ?_
  · simpa using congrArg String.toList same
  · simpa using congrArg String.toList same

/-! ### Members -/

/-- A member at a place, with the step and the blank space in front of it. -/
structure MemberAt (c : Cursor) (m : Match) (step blanks name : List Char) : Prop where
  blank : ∀ b ∈ blanks, isBlank b = true
  bound : ∀ d, c.Spans (step ++ blanks) d → atBoundary d = true
  chars : m.chars = step ++ (blanks ++ (instanceDot ++ name))
  spans : c.Spans m.chars m.rest
  start : m.start = c.offset
  named : name ≠ []
  letters : ∀ a ∈ name, isName a = true
  whole : NotNext isName m.rest.after
  member : m.group 2 = String.ofList name
  stepped : step = [] ∧ m.group? 1 = none ∨
    String.ofList step ∈ stepSigns ∧ m.group? 1 = some (String.ofList step)

/-- What stands in front of the name of a member. -/
theorem memberFront_takes {g h : Captures} :
    (Pattern.opt (.group 1 (.oneOf ["++", "--"])) ++ .blanks ++ .boundary ++ .text "this.").Takes c g d h ↔
      ∃ step blanks e, c.Spans (step ++ blanks) e ∧ (∀ b ∈ blanks, isBlank b = true) ∧
        atBoundary e = true ∧ e.Spans instanceDot d ∧
        (step = [] ∧ h = g ∨ String.ofList step ∈ stepSigns ∧ h = (1, step) :: g) := by
  simp only [Pattern.seq_takes, Pattern.opt_takes, Pattern.group_takes, Pattern.oneOf_takes,
    Pattern.boundary_takes, Pattern.text_takes, Pattern.blanks, Pattern.many_takes]
  constructor
  · rintro ⟨e, i, ⟨e', i', ⟨f, j, stepped, ⟨⟨blanks, spans, blank, -⟩, rfl⟩⟩, rfl, rfl, bound⟩, dot, rfl⟩
    obtain ⟨g', ⟨⟨s, sign, span⟩, rfl⟩, rfl⟩ | ⟨rfl, rfl⟩ := stepped
    · refine ⟨s.toList, blanks, _, span.trans spans, blank, bound, dot, .inr ⟨?_, ?_⟩⟩
      · rw [String.ofList_toList]
        exact sign
      · rw [span.after, span.offset, Nat.add_sub_cancel_left, List.take_left]
    · exact ⟨[], blanks, _, spans, blank, bound, dot, .inl ⟨rfl, rfl⟩⟩
  · rintro ⟨step, blanks, e, spans, blank, bound, dot, stepped⟩
    have after : c.after = step ++ (blanks ++ e.after) := by rw [spans.after, List.append_assoc]
    have first : c.Spans step (c.advance step.length) := Cursor.spans_advance after
    have rest : (c.advance step.length).Spans blanks e := by
      have span := Cursor.spans_advance (first.remaining after)
      rwa [(first.trans span).unique spans] at span
    refine ⟨e, h, ⟨e, h, ⟨_, h, ?_, ⟨blanks, rest, blank, Nat.zero_le _⟩, rfl⟩, rfl, rfl, bound⟩, dot, rfl⟩
    obtain ⟨rfl, rfl⟩ | ⟨sign, rfl⟩ := stepped
    · exact .inr ⟨rfl, rfl⟩
    · refine .inl ⟨g, ⟨⟨String.ofList step, sign, by simpa using first⟩, rfl⟩, ?_⟩
      rw [first.after, first.offset, Nat.add_sub_cancel_left, List.take_left]

theorem memberAccess_matchAt (found : memberAccess.matchAt? c = some m) :
    ∃ step blanks name, MemberAt c m step blanks name := by
  obtain ⟨-, spans, start, -⟩ := Pattern.matchAt?_eq_some found
  unfold Pattern.matchAt? Pattern.matchThen? at found
  split at found
  · rename_i d groups ran
    cases found
    obtain ⟨e, h, front, ran⟩ := Pattern.run_takes (show Pattern.run _ _ _
      (fun c' g' => (Pattern.group 2 .name).run c' g' fun c g => some (c, g)) = _ from ran)
    obtain ⟨step, blanks, b, toName, blank, bound, dot, stepped⟩ := memberFront_takes.mp front
    have name := Cursor.spans_while isName e
    have nonempty : 1 ≤ (e.after.takeWhile isName).length := by
      obtain ⟨f, x, span, letters, enough, -⟩ := Pattern.runMany_eq_some
        (show Pattern.runMany _ _ _ _ _ e.before e.after e.offset = _ from ran)
      refine Nat.le_trans enough ?_
      rw [span.after, List.takeWhile_append_of_pos letters]
      simp
    have longest := Pattern.runMany_longest name nonempty
      (k := fun c' g' => some (c', (2, e.after.take (c'.offset - e.offset)) :: g')) (g := h) rfl
    obtain ⟨rfl, rfl⟩ := Prod.mk.inj (Option.some.inj (longest.symm.trans ran))
    have whole := toName.trans (dot.trans name)
    have chars : c.after.take ((e.advance (e.after.takeWhile isName).length).offset - c.offset) =
        step ++ (blanks ++ (instanceDot ++ e.after.takeWhile isName)) := by
      rw [whole.offset, Nat.add_sub_cancel_left, whole.after, List.take_left]
      simp
    refine ⟨step, blanks, e.after.takeWhile isName, blank, ?_, chars, spans, start, ?_, ?_, ?_, ?_, ?_⟩
    · intro d' reached
      rwa [reached.unique toName]
    · exact List.length_pos_iff.mp nonempty
    · exact List.all_eq_true.mp List.all_takeWhile
    · rw [name.remaining List.takeWhile_append_dropWhile.symm]
      exact notNext_dropWhile isName e.after
    · have part : e.after.take ((e.advance (e.after.takeWhile isName).length).offset - e.offset) =
          e.after.takeWhile isName := by
        rw [name.offset, Nat.add_sub_cancel_left]
        exact (List.prefix_iff_eq_take.mp (List.takeWhile_prefix _)).symm
      simp only [Match.group, Match.group?, part]
      rfl
    · obtain ⟨rfl, rfl⟩ | ⟨sign, rfl⟩ := stepped
      · exact .inl ⟨rfl, rfl⟩
      · exact .inr ⟨sign, by simp [Match.group?]⟩
  · cases found

theorem atBoundary_of_keyword {rest : List Char} (keyword : NotNext isPath c.before)
    (after : c.after = instanceDot ++ rest) : atBoundary c = true := by
  have left : (c.before.head?.map isWord).getD false = false := by
    cases before : c.before with
    | nil => rfl
    | cons b _ =>
        have := keyword b (by rw [before]; rfl)
        simp only [isPath, isName, Bool.or_eq_false_iff] at this
        exact this.1.1
  have right : (c.after.head?.map isWord).getD false = true := by
    rw [after]
    exact (by decide : isWord 't' = true)
  rw [atBoundary, left, right]
  rfl

theorem memberAccess_isSome {step blanks rest : List Char} {a : Char} (spans : c.Spans (step ++ blanks) d)
    (stepped : step = [] ∨ String.ofList step ∈ stepSigns) (blank : ∀ b ∈ blanks, isBlank b = true)
    (bound : atBoundary d = true) (after : d.after = instanceDot ++ a :: rest)
    (letter : isName a = true) : (memberAccess.matchAt? c).isSome := by
  have dot := Cursor.spans_advance after
  have name : (d.advance instanceDot.length).Spans [a] (d.advance instanceDot.length).next :=
    Cursor.spans_next (dot.remaining after)
  have steady : memberAccess.Steady := by
    simp [memberAccess, Pattern.Steady, Pattern.blanks, Pattern.name]
  have front := memberFront_takes.mpr ⟨step, blanks, d, spans, blank, bound, dot,
    show step = [] ∧ (if step = [] then [] else [(1, step)]) = [] ∨ String.ofList step ∈ stepSigns ∧
      (if step = [] then [] else [(1, step)]) = [(1, step)] from by
        by_cases none : step = []
        · exact .inl ⟨none, if_pos none⟩
        · exact .inr ⟨stepped.resolve_left none, if_neg none⟩⟩
  have last : (Pattern.group 2 .name).Takes (d.advance instanceDot.length)
      (if step = [] then [] else [(1, step)]) _ _ :=
    ⟨_, ⟨⟨[a], name, by simpa using letter, Nat.le_refl _⟩, rfl⟩, rfl⟩
  exact Pattern.matchAt?_isSome steady ⟨_, _, _, _, front, last⟩

/-! ### What follows a member -/

theorem assignmentSign_takes {g h : Captures} :
    assignmentSign.Takes c g d h ↔
      (∃ sign ∈ Script.assignmentOperators, c.Spans sign.toList d ∧ NotNext (· == '=') d.after) ∧ h = g := by
  have marks (a : Char) : ("-+*/%".toList.contains a = true) ↔ a ∈ ['-', '+', '*', '/', '%'] := by
    rw [List.contains_iff_mem]
    exact Iff.rfl
  simp only [assignmentSign, Pattern.seq_takes, Pattern.alt_takes, Pattern.oneOf_takes, Pattern.opt_takes,
    Pattern.text_takes, Pattern.notFollowed_takes (show "=".toList = ['='] from rfl), Pattern.one_takes,
    marks]
  constructor
  · rintro ⟨e, i, sign, rfl, rfl, alone⟩
    obtain ⟨⟨s, mem, spans⟩, rfl⟩ | ⟨f, j, (⟨⟨a, mark, first⟩, rfl⟩ | ⟨rfl, rfl⟩), last, rfl⟩ := sign
    · refine ⟨⟨s, ?_, spans, alone⟩, rfl⟩
      revert mem
      simp only [Script.assignmentOperators, List.mem_cons, List.not_mem_nil, or_false]
      rintro (rfl | rfl | rfl) <;> simp
    · refine ⟨⟨String.ofList [a, '='], ?_, by simpa using first.trans last, alone⟩, rfl⟩
      simp only [List.mem_cons, List.not_mem_nil, or_false] at mark
      obtain rfl | rfl | rfl | rfl | rfl := mark <;> decide
    · exact ⟨⟨"=", by decide, last, alone⟩, rfl⟩
  · rintro ⟨⟨sign, mem, spans, alone⟩, rfl⟩
    refine ⟨d, h, ?_, rfl, rfl, alone⟩
    have compound {a : Char} (mark : a ∈ ['-', '+', '*', '/', '%']) (spans : c.Spans [a, '='] d) :
        ∃ e i, ((∃ a, a ∈ ['-', '+', '*', '/', '%'] ∧ c.Spans [a] e) ∧ i = h ∨ e = c ∧ i = h) ∧
          e.Spans "=".toList d ∧ h = i := by
      have first : c.Spans [a] c.next := Cursor.spans_next spans.after
      have last : c.next.Spans ['='] c.next.next := Cursor.spans_next (first.remaining spans.after)
      rw [(first.trans last).unique spans] at last
      exact ⟨c.next, h, .inl ⟨⟨a, mark, first⟩, rfl⟩, last, rfl⟩
    simp only [Script.assignmentOperators, List.mem_cons, List.not_mem_nil, or_false] at mem
    obtain rfl | rfl | rfl | rfl | rfl | rfl | rfl | rfl | rfl := mem
    · exact .inr ⟨c, h, .inr ⟨rfl, rfl⟩, spans, rfl⟩
    · exact .inr (compound (by decide) spans)
    · exact .inr (compound (by decide) spans)
    · exact .inr (compound (by decide) spans)
    · exact .inr (compound (by decide) spans)
    · exact .inr (compound (by decide) spans)
    · exact .inl ⟨⟨_, by decide, spans⟩, rfl⟩
    · exact .inl ⟨⟨_, by decide, spans⟩, rfl⟩
    · exact .inl ⟨⟨_, by decide, spans⟩, rfl⟩

/-- A member or an index of an access path. -/
inductive IsAccess : List Char → Prop
  | key {name : List Char} (named : name ≠ []) (letters : ∀ a ∈ name, isName a = true) :
      IsAccess ('.' :: name)
  | index {inner : List Char} (filled : inner ≠ []) (open_ : ']' ∉ inner) :
      IsAccess ('[' :: (inner ++ [']']))

theorem accessStep_takes {g h : Captures} :
    accessStep.Takes c g d h ↔ (∃ x, c.Spans x d ∧ IsAccess x) ∧ h = g := by
  simp only [accessStep, Pattern.seq_takes, Pattern.alt_takes, Pattern.text_takes, Pattern.name,
    Pattern.many_takes]
  constructor
  · rintro (⟨e, i, ⟨dot, rfl⟩, ⟨x, name, letters, long⟩, rfl⟩ |
      ⟨e, i, ⟨f, j, ⟨opening, rfl⟩, ⟨x, inner, open_, long⟩, rfl⟩, closing, rfl⟩)
    · exact ⟨⟨_, dot.trans name, .key (List.length_pos_iff.mp long) letters⟩, rfl⟩
    · refine ⟨⟨_, opening.trans (inner.trans closing), .index (List.length_pos_iff.mp long) ?_⟩, rfl⟩
      exact fun mem => by simpa using open_ _ mem
  · rintro ⟨⟨x, spans, access⟩, rfl⟩
    cases access with
    | @key name named letters =>
        have dot : c.Spans ".".toList c.next := Cursor.spans_next spans.after
        have rest := Cursor.spans_advance (dot.remaining spans.after)
        rw [(dot.trans rest).unique spans] at rest
        exact .inl ⟨c.next, h, ⟨dot, rfl⟩, ⟨name, rest, letters, List.length_pos_iff.mpr named⟩, rfl⟩
    | @index inner filled open_ =>
        have opening : c.Spans "[".toList c.next := Cursor.spans_next spans.after
        have after : c.next.after = inner ++ (']' :: d.after) :=
          opening.remaining (by simpa using spans.after)
        have middle := Cursor.spans_advance after
        have closing : (c.next.advance inner.length).Spans "]".toList (c.next.advance inner.length).next :=
          Cursor.spans_next (middle.remaining after)
        rw [(opening.trans (middle.trans closing)).unique spans] at closing
        refine .inr ⟨_, h, ⟨c.next, h, ⟨opening, rfl⟩, ⟨inner, middle, ?_, ?_⟩, rfl⟩, closing, rfl⟩
        · intro a mem
          rw [bne_iff_ne]
          rintro rfl
          exact open_ mem
        · exact List.length_pos_iff.mpr filled

theorem accessSteps_takes {g h : Captures} :
    (Pattern.star accessStep).Takes c g d h ↔
      (∃ steps : List (List Char), c.Spans steps.flatten d ∧ ∀ x ∈ steps, IsAccess x) ∧ h = g := by
  constructor
  · intro taken
    have rounds : ∀ s t : Cursor × Captures,
        Relation.ReflTransGen (fun s t : Cursor × Captures => accessStep.Takes s.1 s.2 t.1 t.2) s t →
          (∃ steps : List (List Char), s.1.Spans steps.flatten t.1 ∧ ∀ x ∈ steps, IsAccess x) ∧
            t.2 = s.2 := by
      intro s t reached
      induction reached using Relation.ReflTransGen.head_induction_on with
      | refl => exact ⟨⟨[], .refl _, by simp⟩, rfl⟩
      | head first _ ih =>
          obtain ⟨⟨x, spans, access⟩, same⟩ := accessStep_takes.mp first
          obtain ⟨⟨steps, rest, accesses⟩, same'⟩ := ih
          exact ⟨⟨x :: steps, spans.trans rest, by simpa [access] using accesses⟩, same'.trans same⟩
    exact rounds _ _ taken
  · rintro ⟨⟨steps, spans, accesses⟩, rfl⟩
    induction steps generalizing c with
    | nil =>
        obtain rfl := spans.unique (.refl c)
        exact .refl
    | cons x steps ih =>
        have after : c.after = x ++ (steps.flatten ++ d.after) := by
          simpa using spans.after
        have first := Cursor.spans_advance after
        have rest := Cursor.spans_advance (first.remaining after)
        rw [(first.trans rest).unique spans] at rest
        have access := accessStep_takes.mpr ⟨⟨x, first, accesses x List.mem_cons_self⟩, Eq.refl h⟩
        exact .head access (ih rest fun y mem => accesses y (List.mem_cons_of_mem x mem))

/-- Blank space and a sign that changes the member before it, `rest` being the text behind. -/
def ChangesBy (tail rest : List Char) : Prop :=
  ∃ blanks sign, tail = blanks ++ String.toList sign ∧ (∀ b ∈ blanks, isBlank b = true) ∧
    (sign ∈ stepSigns ∨ sign ∈ Script.assignmentOperators ∧ NotNext (· == '=') rest)

theorem ChangesBy.behind {tail rest rest' : List Char} (changes : ChangesBy tail rest)
    (alone : NotNext (· == '=') rest → NotNext (· == '=') rest') : ChangesBy tail rest' := by
  obtain ⟨blanks, sign, rfl, blank, kind⟩ := changes
  exact ⟨blanks, sign, rfl, blank, kind.imp_right fun ⟨operator, ends⟩ => ⟨operator, alone ends⟩⟩

theorem IsAccess.visible {x : List Char} (access : IsAccess x) : x ≠ [] := by
  cases access <;> simp

theorem accessSteps_steady : (Pattern.star accessStep).Steady := by
  refine ⟨by simp [accessStep, Pattern.Steady, Pattern.name], ?_⟩
  intro c g d h taken
  obtain ⟨⟨x, spans, access⟩, -⟩ := accessStep_takes.mp taken
  exact spans.shorter access.visible

theorem trailingStep_isSome {blanks rest : List Char} {sign : String}
    (after : c.after = blanks ++ (sign.toList ++ rest)) (blank : ∀ b ∈ blanks, isBlank b = true)
    (step : sign ∈ stepSigns) : (trailingStep.matchAt? c).isSome := by
  have space := Cursor.spans_advance after
  have steady : trailingStep.Steady := by simp [trailingStep, Pattern.Steady, Pattern.blanks]
  have signs := Cursor.spans_advance (space.remaining after)
  exact Pattern.matchAt?_isSome steady ⟨_, _, _, [], ⟨⟨blanks, space, blank, Nat.zero_le _⟩, rfl⟩,
    _, Pattern.oneOf_takes.mpr ⟨⟨sign, step, signs⟩, rfl⟩, rfl⟩

theorem assignment_steady : assignment.Steady := by
  have signs : assignmentSign.Steady := by
    simp [assignmentSign, Pattern.Steady]
  exact ⟨⟨accessSteps_steady, trivial⟩, signs⟩

theorem assignment_isSome {blanks rest : List Char} {steps : List (List Char)} {sign : String}
    (after : c.after = steps.flatten ++ (blanks ++ (sign.toList ++ rest)))
    (accesses : ∀ x ∈ steps, IsAccess x) (blank : ∀ b ∈ blanks, isBlank b = true)
    (operator : sign ∈ Script.assignmentOperators) (alone : NotNext (· == '=') rest) :
    (assignment.matchAt? c).isSome := by
  have path := Cursor.spans_advance after
  have space := Cursor.spans_advance (path.remaining after)
  have signs := Cursor.spans_advance (space.remaining (path.remaining after))
  have ends : NotNext (· == '=') ((((c.advance steps.flatten.length).advance blanks.length).advance
      sign.toList.length)).after := by
    rwa [signs.remaining (space.remaining (path.remaining after))]
  exact Pattern.matchAt?_isSome assignment_steady ⟨_, _, _, _, ⟨_, _, ⟨[], accessSteps_takes.mpr
    ⟨⟨steps, path, accesses⟩, rfl⟩, rfl⟩, ⟨blanks, space, blank, Nat.zero_le _⟩, rfl⟩,
    _, assignmentSign_takes.mpr ⟨⟨sign, operator, signs, ends⟩, rfl⟩, rfl⟩

/-- The parts of an assignment. -/
theorem assignment_matchAt (found : assignment.matchAt? c = some m) :
    ∃ (steps : List (List Char)) (blanks : List Char) (sign : String),
      c.Spans (steps.flatten ++ (blanks ++ sign.toList)) m.rest ∧ (∀ x ∈ steps, IsAccess x) ∧
        (∀ b ∈ blanks, isBlank b = true) ∧ sign ∈ Script.assignmentOperators ∧
        NotNext (· == '=') m.rest.after ∧ m.group 1 = String.ofList steps.flatten ∧ m.group 2 = sign := by
  obtain ⟨taken, -⟩ := Pattern.matchAt?_eq_some found
  obtain ⟨e, i, ⟨f, j, ⟨g, taken, rfl⟩, ⟨blanks, space, blank, -⟩, rfl⟩, g', taken', groups⟩ := taken
  obtain ⟨⟨steps, path, accesses⟩, rfl⟩ := accessSteps_takes.mp taken
  obtain ⟨⟨sign, operator, signs, alone⟩, rfl⟩ := assignmentSign_takes.mp taken'
  refine ⟨steps, blanks, sign, path.trans (space.trans signs), accesses, blank, operator, alone, ?_, ?_⟩
  · simp [Match.group, Match.group?, groups, path.after, path.offset]
  · simp [Match.group, Match.group?, groups, signs.after, signs.offset]

theorem methodCall_matchAt (found : methodCall.matchAt? c = some m) :
    ∃ method, c.Spans ('.' :: (method ++ ['('])) m.rest ∧ m.group 1 = String.ofList method := by
  obtain ⟨taken, -⟩ := Pattern.matchAt?_eq_some found
  obtain ⟨e, i, ⟨f, j, taken, g, ⟨⟨method, name, -⟩, rfl⟩, rfl⟩, taken'⟩ := taken
  obtain ⟨dot, rfl⟩ := Pattern.text_takes.mp taken
  obtain ⟨opening, groups⟩ := Pattern.text_takes.mp taken'
  refine ⟨method, dot.trans (name.trans opening), ?_⟩
  simp [Match.group, Match.group?, groups, name.after, name.offset]

/-! ### Updates -/

/-- A call that changes an array in place. -/
def arrayCall? (c : Cursor) : Option Match :=
  (methodCall.matchAt? c).bind fun m =>
    if m.group 1 == "push" || m.group 1 == "unshift" || arrayMutators.contains (m.group 1) then some m
    else none

/-- The update at a member that has a setter. -/
def update? (setter name : String) (c : Cursor) : Option Update :=
  match trailingStep.matchAt? c with
  | some m => some (stepUpdate setter name (m.group 1) m.rest.after)
  | none =>
      match arrayCall? c with
      | some m =>
          (enclosed? '(' m.rest.after).bind fun (inner, after) =>
            (arrayUpdate? name (m.group 1) (trim (String.ofList inner))).map fun update =>
              (s!"{setter}({update})".toList, after)
      | none =>
          (assignment.matchAt? c).map fun m => assignUpdate setter name (m.group 1) (m.group 2) m.rest

theorem memberUpdate_some (setter name : String) (c : Cursor) (n : RecastNotes) :
    ((memberUpdate (some setter) name c).run n).1 = update? setter name c := by
  unfold memberUpdate update? arrayCall?
  cases trailingStep.matchAt? c with
  | some m => rfl
  | none =>
      cases methodCall.matchAt? c with
      | none => cases assignment.matchAt? c <;> rfl
      | some m =>
          simp only [Option.bind_some]
          by_cases mutates : (m.group 1 == "push" || m.group 1 == "unshift" ||
              arrayMutators.contains (m.group 1)) = true
          · simp only [mutates, if_true]
            cases enclosed? '(' m.rest.after with
            | none => rfl
            | some parts =>
                change (arrayUpdate? name (m.group 1) (trim (String.ofList parts.1))).bind _ = _
                simp only [Option.bind_some]
                cases arrayUpdate? name (m.group 1) (trim (String.ofList parts.1)) <;> rfl
          · simp only [mutates]
            cases assignment.matchAt? c <;> rfl

theorem memberUpdate_none (name : String) (c : Cursor) (n : RecastNotes) :
    ((memberUpdate none name c).run n).1 = none := by
  unfold memberUpdate
  split
  · rfl
  · simp only [Option.bind_none]
    split
    · rfl
    · rfl

theorem enclosed?_suffix {opener : Char} {rest inner after : List Char}
    (found : enclosed? opener rest = some (inner, after)) : ∃ y, rest = y ++ after := by
  unfold enclosed? at found
  obtain ⟨j, -, same⟩ := Option.map_eq_some_iff.mp found
  cases same
  exact ⟨rest.take j, (List.take_append_drop j rest).symm⟩

/-- A write is replaced by a call of the setter, and the text behind it stays. -/
theorem update?_eq_some {setter name : String} {replacement after : List Char}
    (found : update? setter name c = some (replacement, after)) :
    (∃ inner, replacement = setter.toList ++ '(' :: (inner ++ [')'])) ∧ ∃ y, c.after = y ++ after := by
  have call (inner : String) :
      ∃ cs, s!"{setter}({inner})".toList = setter.toList ++ '(' :: (cs ++ [')']) :=
    ⟨inner.toList, by simp [toString]⟩
  have behind {x y : List Char} {d : Cursor} (spans : c.Spans x d) (rest : d.after = y ++ after) :
      ∃ y, c.after = y ++ after :=
    ⟨x ++ y, by rw [spans.after, rest, List.append_assoc]⟩
  unfold update? at found
  split at found
  · rename_i m step
    cases found
    obtain ⟨-, spans, -⟩ := Pattern.matchAt?_eq_some step
    refine ⟨?_, behind spans (y := []) rfl⟩
    exact ⟨(name ++ " " ++ stepSign (m.group 1) ++ " 1").toList, by simp [toString]⟩
  · split at found
    · rename_i m called
      obtain ⟨⟨inner, rest⟩, closed, found⟩ := Option.bind_eq_some_iff.mp found
      obtain ⟨update, -, same⟩ := Option.map_eq_some_iff.mp found
      cases same
      obtain ⟨y, rest⟩ := enclosed?_suffix closed
      obtain ⟨m', matched, same⟩ := Option.bind_eq_some_iff.mp called
      split at same
      · cases same
        obtain ⟨-, spans, -⟩ := Pattern.matchAt?_eq_some matched
        exact ⟨call update, behind spans rest⟩
      · cases same
    · obtain ⟨m, matched, same⟩ := Option.map_eq_some_iff.mp found
      cases same
      obtain ⟨-, spans, -⟩ := Pattern.matchAt?_eq_some matched
      have indent := Cursor.spans_while isIndent m.rest
      refine ⟨call _, behind (spans.trans indent) (List.take_append_drop _ _).symm⟩

/-- What is not replaced is not followed by a sign that changes it. -/
theorem not_changesBy_of_update? {setter name : String} {tail rest : List Char}
    (stays : update? setter name c = none) (after : c.after = tail ++ rest) : ¬ ChangesBy tail rest := by
  rintro ⟨blanks, sign, rfl, blank, kind⟩
  rw [List.append_assoc] at after
  unfold update? at stays
  split at stays
  · cases stays
  · rename_i still
    obtain step | ⟨operator, alone⟩ := kind
    · have := trailingStep_isSome after blank step
      simp [still] at this
    · split at stays
      · rename_i m called
        -- a call starts with a dot, which is neither blank nor part of an operator
        obtain ⟨m', matched, -⟩ := Option.bind_eq_some_iff.mp called
        obtain ⟨method, spans, -⟩ := methodCall_matchAt matched
        have dotted : c.after.head? = some '.' := by rw [spans.after]; rfl
        rw [after] at dotted
        cases blanks with
        | nil =>
            simp only [Script.assignmentOperators, List.mem_cons, List.not_mem_nil, or_false] at operator
            obtain rfl | rfl | rfl | rfl | rfl | rfl | rfl | rfl | rfl := operator <;> simp at dotted
        | cons b blanks =>
            obtain rfl : b = '.' := by simpa using dotted
            have := blank '.' List.mem_cons_self
            revert this
            decide
      · have unparted : c.after = ([] : List (List Char)).flatten ++ (blanks ++ (sign.toList ++ rest)) := after
        have assigned := assignment_isSome unparted (by simp) blank operator alone
        obtain ⟨m, matched⟩ := Option.isSome_iff_exists.mp assigned
        rw [matched] at stays
        cases stays

end ReactMigration.Recast
