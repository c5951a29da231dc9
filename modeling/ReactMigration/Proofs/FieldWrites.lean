import ReactMigration.Model.Fields
import ReactMigration.Proofs.StateWrites

/-!
Which writes of a field make it state.

Two readers decide what a write of a field is: one turns writes of state into setter calls, the other
finds the fields that are to be state.  They agree on most forms of a write; a few forms that the first
replaces are overlooked by the second.
-/

namespace ReactMigration.Recast

open ReactMigration.Text
open ReactMigration.Text.Pattern (Captures isName atBoundary)
open ReactMigration.Model (mutationPattern mutatingMethods assigns)

variable {state : Table String} {c d : Cursor} {m : Match}

/-! ### The forms of a write -/

/-- How a member is written. -/
inductive WriteForm where
  | stepBefore
  | stepBehind
  | call (method : String)
  | assign (path sign : String)
  deriving Repr, DecidableEq

/-- How a member that was found is written, if it is. -/
def writeForm? (m : Match) : Option WriteForm :=
  if (m.group? 1).isSome then some .stepBefore
  else if (trailingStep.matchAt? m.rest).isSome then some .stepBehind
  else
    match arrayCall? m.rest with
    | some call => (enclosed? '(' call.rest.after).map fun _ => .call (call.group 1)
    | none => (assignment.matchAt? m.rest).map fun a => .assign (a.group 1) (a.group 2)

theorem arrayUpdate?_isSome {call : Match} (found : arrayCall? c = some call) (name args : String) :
    (arrayUpdate? name (call.group 1) args).isSome = true := by
  obtain ⟨m, -, kept⟩ := Option.bind_eq_some_iff.mp found
  split at kept
  · rename_i mutates
    cases kept
    unfold arrayUpdate?
    split
    · rfl
    · split
      · rfl
      · rename_i push unshift
        simp only [push, unshift, Bool.false_or] at mutates
        rw [if_pos mutates]
        rfl
  · cases kept

/-- The writes that are replaced are those of state cells that have a form. -/
theorem writeOf?_isSome : (writeOf? state m).isSome = (state.has (m.group 2) && (writeForm? m).isSome) := by
  unfold writeOf? writeForm?
  cases cell : state.get? (m.group 2) with
  | none => simp [(Table.get?_eq_none_iff _ _).mp cell]
  | some setter =>
      have known : state.has (m.group 2) = true := by
        rw [← Bool.not_eq_false, ← Table.get?_eq_none_iff, cell]
        exact Option.some_ne_none setter
      rw [known, Bool.true_and, Option.bind_some]
      cases m.group? 1 with
      | some step => rfl
      | none =>
          simp only [Option.isSome_map, update?, Option.isSome_none, Bool.false_eq_true, if_false]
          cases trailingStep.matchAt? m.rest with
          | some step => rfl
          | none =>
              simp only [Option.isSome_none, Bool.false_eq_true, if_false]
              cases called : arrayCall? m.rest with
              | none => simp
              | some call =>
                  dsimp only
                  cases enclosed? '(' call.rest.after with
                  | none => rfl
                  | some parts =>
                      simpa using arrayUpdate?_isSome called (m.group 2) (trim (String.ofList parts.1))

/-- Whether a write of this form makes the field that it writes state. -/
def WriteForm.noticed (field : String) : WriteForm → Bool
  | .stepBefore => (field.toList.getLast?.map isWord).getD false
  | .stepBehind => true
  | .call method => mutatingMethods.contains method
  | .assign path sign => path == "" || sign == "="

/-- At the match the text writes the field, and with the field as a state cell the write becomes a call of
the setter. -/
structure Replaced (setter field text : String) (m : Match) : Prop where
  place : ∃ front c, (Cursor.start text.toList).Spans front c ∧ memberAccess.matchAt? c = some m
  member : m.group 2 = field
  written : (writeOf? [(field, setter)] m).isSome = true

theorem Replaced.form {setter field text : String} (replaced : Replaced setter field text m) :
    ∃ form, writeForm? m = some form := by
  have written := replaced.written
  rw [writeOf?_isSome, Bool.and_eq_true] at written
  exact Option.isSome_iff_exists.mp written.2

/-! ### Noticed writes -/

theorem assigns_takes {g h : Captures} :
    assigns.Takes c g d h ↔ (c.Spans ['='] d ∧ NotNext (· == '=') d.after) ∧ h = g := by
  simp only [assigns, Pattern.seq_takes, Pattern.text_takes,
    Pattern.notFollowed_takes (show "=".toList = ['='] from rfl)]
  constructor
  · rintro ⟨e, i, ⟨sign, rfl⟩, rfl, rfl, alone⟩
    exact ⟨⟨sign, alone⟩, rfl⟩
  · rintro ⟨⟨sign, alone⟩, rfl⟩
    exact ⟨d, h, ⟨sign, rfl⟩, rfl, rfl, alone⟩

/-- A part of a field, as the classification reads it: an index may be empty. -/
def fieldPart : Pattern :=
  (.text "." ++ .name) <|> (.text "[" ++ .many (· != ']') 0 true ++ .text "]")

theorem fieldPart_takes {x : List Char} {g : Captures} (spans : c.Spans x d) (access : IsAccess x) :
    fieldPart.Takes c g d g := by
  obtain taken | ⟨e, i, ⟨f, j, opening, ⟨y, inner, open_, -⟩, same⟩, closing⟩ :=
    accessStep_takes.mpr ⟨⟨x, spans, access⟩, Eq.refl g⟩
  · exact .inl taken
  · exact .inr ⟨e, i, ⟨f, j, opening, ⟨y, inner, open_, Nat.zero_le _⟩, same⟩, closing⟩

theorem fieldParts_takes {steps : List (List Char)} {g : Captures} (spans : c.Spans steps.flatten d)
    (accesses : ∀ x ∈ steps, IsAccess x) : (Pattern.star fieldPart).Takes c g d g := by
  induction steps generalizing c with
  | nil =>
      obtain rfl := spans.unique (.refl c)
      exact .refl
  | cons x steps ih =>
      have after : c.after = x ++ (steps.flatten ++ d.after) := by
        simpa using spans.after
      have first := Cursor.spans_advance after
      have rest := Cursor.spans_advance (first.remaining after)
      rw [(first.trans rest).unique spans] at rest
      have taken := fieldPart_takes (g := g) first (accesses x List.mem_cons_self)
      exact .head (b := (_, g)) taken (ih rest fun y mem => accesses y (List.mem_cons_of_mem x mem))

theorem fieldPart_shorter {g h : Captures} (taken : fieldPart.Takes c g d h) :
    d.after.length < c.after.length := by
  obtain ⟨e, i, opening, rest⟩ | ⟨e, i, ⟨f, j, opening, inner⟩, closing⟩ := taken
  · obtain ⟨x, spans⟩ := rest.spans
    exact ((Pattern.text_takes.mp opening).1.trans spans).shorter (by simp)
  · obtain ⟨x, spans⟩ := inner.spans
    obtain ⟨y, spans'⟩ := closing.spans
    exact ((Pattern.text_takes.mp opening).1.trans (spans.trans spans')).shorter (by simp)

/-- The forms that the classification looks for. -/
theorem mutationPattern_eq (field : String) : mutationPattern field =
    ((.text ("this." ++ field) ++ .blanks ++
        .opt (.one (fun c => "-+*/%".toList.contains c) <|> .oneOf ["??", "||", "&&"]) ++ assigns) <|>
      (.text ("this." ++ field) ++ .blanks ++ .oneOf ["++", "--"]) <|>
      (.oneOf ["++", "--"] ++ .blanks ++ .text ("this." ++ field) ++ .boundary) <|>
      (.text ("this." ++ field) ++ fieldPart ++ .star fieldPart ++ .blanks ++ assigns) <|>
      (.text ("this." ++ field) ++ .text "." ++ .oneOf mutatingMethods ++ .text "(")) := rfl

theorem mutationPattern_steady (field : String) : (mutationPattern field).Steady := by
  have part : fieldPart.Steady := by simp [fieldPart, Pattern.Steady, Pattern.name]
  have parts : (Pattern.star fieldPart).Steady :=
    ⟨part, fun _ _ _ _ taken => fieldPart_shorter taken⟩
  have member : (Pattern.text ("this." ++ field)).Steady := Pattern.text_steady _
  have signs : assigns.Steady := by simp [assigns, Pattern.Steady]
  rw [mutationPattern_eq]
  refine ⟨?_, ?_, ?_, ⟨⟨⟨⟨member, part⟩, parts⟩, trivial⟩, signs⟩, ?_⟩
  · simp [Pattern.Steady, Pattern.blanks, signs]
  · simp [Pattern.Steady, Pattern.blanks]
  · simp [Pattern.Steady, Pattern.blanks]
  · simp

/-- A pattern that can take something at a place of a text occurs in it. -/
theorem occurs_of_takes {p : Pattern} {text : String} {x : List Char} {h : Captures} (steady : p.Steady)
    (place : (Cursor.start text.toList).Spans x c) (taken : p.Takes c [] d h) : p.occurs text = true := by
  unfold Pattern.occurs Pattern.find?
  cases search : p.searchAt? (.start text.toList) with
  | some m => rfl
  | none =>
      have found := Pattern.matchAt?_isSome steady ⟨d, h, taken⟩
      rw [Pattern.matchAt?_of_searchAt? search place] at found
      cases found

theorem memberText (name : List Char) :
    ("this." ++ String.ofList name).toList = instanceDot ++ name := by
  simp [instanceDot]

/-- What the classification finds behind a member. -/
theorem mutation_behind {name : List Char} {k e : Cursor}
    (member : k.Spans (instanceDot ++ name) e)
    (behind :
      (.blanks ++ .opt (.one (fun c => "-+*/%".toList.contains c) <|> .oneOf ["??", "||", "&&"]) ++ assigns :
        Pattern).Takes e [] d [] ∨
      (.blanks ++ .oneOf ["++", "--"] : Pattern).Takes e [] d [] ∨
      (fieldPart ++ .star fieldPart ++ .blanks ++ assigns : Pattern).Takes e [] d [] ∨
      (.text "." ++ .oneOf mutatingMethods ++ .text "(" : Pattern).Takes e [] d []) :
    (mutationPattern (String.ofList name)).Takes k [] d [] := by
  have named : (Pattern.text ("this." ++ String.ofList name)).Takes k [] e [] :=
    Pattern.text_takes.mpr ⟨memberText name ▸ member, rfl⟩
  rw [mutationPattern_eq]
  obtain ⟨x, i, ⟨y, j, first, second⟩, third⟩ | ⟨x, i, first, second⟩ |
    ⟨x, i, ⟨y, j, ⟨z, l, first, second⟩, third⟩, fourth⟩ | ⟨x, i, ⟨y, j, first, second⟩, third⟩ := behind
  · exact .inl ⟨x, i, ⟨y, j, ⟨e, [], named, first⟩, second⟩, third⟩
  · exact .inr (.inl ⟨x, i, ⟨e, [], named, first⟩, second⟩)
  · exact .inr (.inr (.inr (.inl ⟨x, i, ⟨y, j, ⟨z, l, ⟨e, [], named, first⟩, second⟩, third⟩, fourth⟩)))
  · exact .inr (.inr (.inr (.inr ⟨x, i, ⟨y, j, ⟨e, [], named, first⟩, second⟩, third⟩)))

/-- A step in front of a field is noticed if a word ends behind the field. -/
theorem mutation_stepBefore {step blanks name : List Char} (member : MemberAt c m step blanks name)
    (sign : String.ofList step ∈ stepSigns) (word : (name.getLast?.map isWord).getD false = true) :
    (mutationPattern (String.ofList name)).Takes c [] m.rest [] := by
  have after : c.after = step ++ (blanks ++ (instanceDot ++ name ++ m.rest.after)) := by
    rw [member.spans.after, member.chars]
    simp
  have first := Cursor.spans_advance after
  have space := Cursor.spans_advance (first.remaining after)
  have named := Cursor.spans_advance (space.remaining (first.remaining after))
  rw [(first.trans (space.trans named)).unique (member.chars ▸ member.spans)] at named
  have bound : atBoundary m.rest = true := by
    have left : m.rest.before.head? = name.getLast? := by
      obtain rfl | ⟨name, last, rfl⟩ := List.eq_nil_or_concat name
      · exact absurd rfl member.named
      · rw [named.before]
        simp
    have right : (m.rest.after.head?.map isWord).getD false = false := by
      cases rest : m.rest.after with
      | nil => rfl
      | cons b _ =>
          have := member.whole b (by rw [rest]; rfl)
          simp only [isName, Bool.or_eq_false_iff] at this
          exact this.1
    rw [atBoundary, left, word, right]
    rfl
  rw [mutationPattern_eq]
  refine .inr (.inr (.inl ⟨_, [], ⟨_, [], ⟨_, [], Pattern.oneOf_takes.mpr ⟨⟨_, sign, ?_⟩, rfl⟩,
    ⟨blanks, space, member.blank, Nat.zero_le _⟩, rfl⟩, Pattern.text_takes.mpr ⟨memberText name ▸ named, rfl⟩⟩,
    rfl, rfl, bound⟩))
  rwa [String.toList_ofList]

/-- A step behind a field is noticed. -/
theorem mutation_stepBehind (step : (trailingStep.matchAt? c).isSome = true) :
    ∃ d, (.blanks ++ .oneOf ["++", "--"] : Pattern).Takes c [] d [] := by
  obtain ⟨m, found⟩ := Option.isSome_iff_exists.mp step
  obtain ⟨⟨e, i, space, g, sign, -⟩, -⟩ := Pattern.matchAt?_eq_some found
  obtain ⟨spaces, rfl⟩ := Pattern.many_takes.mp space
  obtain ⟨signs, rfl⟩ := Pattern.oneOf_takes.mp sign
  exact ⟨_, e, [], ⟨spaces, rfl⟩, Pattern.oneOf_takes.mpr ⟨signs, rfl⟩⟩

/-- A call is noticed if its method is one of those looked for. -/
theorem mutation_call {call : Match} (found : arrayCall? c = some call)
    (known : mutatingMethods.contains (call.group 1) = true) :
    ∃ d, (.text "." ++ .oneOf mutatingMethods ++ .text "(" : Pattern).Takes c [] d [] := by
  obtain ⟨m, matched, kept⟩ := Option.bind_eq_some_iff.mp found
  split at kept
  · cases kept
    obtain ⟨method, spans, named⟩ := methodCall_matchAt matched
    have after : c.after = ['.'] ++ (method ++ (['('] ++ call.rest.after)) := by
      rw [spans.after]
      simp
    have dot := Cursor.spans_advance after
    have name := Cursor.spans_advance (dot.remaining after)
    have opening := Cursor.spans_advance (name.remaining (dot.remaining after))
    refine ⟨_, _, [], ⟨_, [], Pattern.text_takes.mpr ⟨dot, rfl⟩, Pattern.oneOf_takes.mpr
      ⟨⟨call.group 1, by simpa using known, ?_⟩, rfl⟩⟩, Pattern.text_takes.mpr ⟨opening, rfl⟩⟩
    rwa [named, String.toList_ofList]
  · cases kept

/-- Every operator that assigns is noticed behind the field itself. -/
theorem compound_takes {sign : String} (operator : sign ∈ Script.assignmentOperators)
    (spans : c.Spans sign.toList d) (alone : NotNext (· == '=') d.after) :
    (.opt (.one (fun c => "-+*/%".toList.contains c) <|> .oneOf ["??", "||", "&&"]) ++ assigns :
      Pattern).Takes c [] d [] := by
  obtain ⟨mark, same, kind⟩ : ∃ mark, sign.toList = mark ++ ['='] ∧
      (mark = [] ∨ (∃ a, mark = [a] ∧ "-+*/%".toList.contains a = true) ∨
        String.ofList mark ∈ ["??", "||", "&&"]) := by
    simp only [Script.assignmentOperators, List.mem_cons, List.not_mem_nil, or_false] at operator
    obtain rfl | rfl | rfl | rfl | rfl | rfl | rfl | rfl | rfl := operator
    · exact ⟨[], rfl, .inl rfl⟩
    · exact ⟨['+'], rfl, .inr (.inl ⟨'+', rfl, by decide⟩)⟩
    · exact ⟨['-'], rfl, .inr (.inl ⟨'-', rfl, by decide⟩)⟩
    · exact ⟨['*'], rfl, .inr (.inl ⟨'*', rfl, by decide⟩)⟩
    · exact ⟨['/'], rfl, .inr (.inl ⟨'/', rfl, by decide⟩)⟩
    · exact ⟨['%'], rfl, .inr (.inl ⟨'%', rfl, by decide⟩)⟩
    · exact ⟨['|', '|'], rfl, .inr (.inr (by decide))⟩
    · exact ⟨['&', '&'], rfl, .inr (.inr (by decide))⟩
    · exact ⟨['?', '?'], rfl, .inr (.inr (by decide))⟩
  have after : c.after = mark ++ (['='] ++ d.after) := by
    rw [spans.after, same, List.append_assoc]
  have first := Cursor.spans_advance after
  have last := Cursor.spans_advance (first.remaining after)
  rw [(first.trans last).unique (same ▸ spans)] at last
  refine ⟨_, [], ?_, assigns_takes.mpr ⟨⟨last, alone⟩, rfl⟩⟩
  obtain rfl | ⟨a, rfl, known⟩ | known := kind
  · exact .inr ⟨first.unique (.refl c), rfl⟩
  · exact .inl (.inl ⟨⟨a, known, first⟩, rfl⟩)
  · exact .inl (.inr (Pattern.oneOf_takes.mpr ⟨⟨_, known, by rwa [String.toList_ofList]⟩, rfl⟩))

/-- An assignment is noticed if it is to the field itself or plain. -/
theorem mutation_assign {a : Match} (found : assignment.matchAt? c = some a)
    (noticed : (a.group 1 == "" || a.group 2 == "=") = true) :
    (∃ d, (.blanks ++ .opt (.one (fun c => "-+*/%".toList.contains c) <|> .oneOf ["??", "||", "&&"]) ++
        assigns : Pattern).Takes c [] d []) ∨
      ∃ d, (fieldPart ++ .star fieldPart ++ .blanks ++ assigns : Pattern).Takes c [] d [] := by
  obtain ⟨steps, blanks, sign, spans, accesses, blank, operator, alone, path, same⟩ := assignment_matchAt found
  have after : c.after = steps.flatten ++ (blanks ++ (sign.toList ++ a.rest.after)) := by
    rw [spans.after]
    simp
  have toSign := Cursor.spans_advance after
  have space := Cursor.spans_advance (toSign.remaining after)
  have signs := Cursor.spans_advance (space.remaining (toSign.remaining after))
  rw [(toSign.trans (space.trans signs)).unique spans] at signs
  have ends (plain : sign = "=") : assigns.Takes ((c.advance steps.flatten.length).advance blanks.length) []
      a.rest [] := by
    subst plain
    exact assigns_takes.mpr ⟨⟨signs, alone⟩, rfl⟩
  cases steps with
  | nil =>
      refine .inl ⟨a.rest, ?_⟩
      obtain ⟨e, i, first, last⟩ := compound_takes operator signs alone
      exact ⟨e, i, ⟨_, [], ⟨⟨blanks, space, blank, Nat.zero_le _⟩, rfl⟩, first⟩, last⟩
  | cons x steps =>
      have plain : sign = "=" := by
        have filled : (a.group 1 == "") = false := by
          obtain ⟨b, y, visible⟩ := List.exists_cons_of_ne_nil (accesses x List.mem_cons_self).visible
          rw [path, visible]
          simp
        rw [filled, Bool.false_or, beq_iff_eq] at noticed
        exact same.symm.trans noticed
      have parts : c.after = x ++ (steps.flatten ++ (blanks ++ (sign.toList ++ a.rest.after))) := by
        rw [after]
        simp
      have first := Cursor.spans_advance parts
      have rest := Cursor.spans_advance (first.remaining parts)
      rw [(first.trans rest).unique (show c.Spans (x ++ steps.flatten) _ from toSign)] at rest
      refine .inr ⟨a.rest, _, [], ⟨_, [], ⟨_, [], fieldPart_takes first (accesses x List.mem_cons_self),
        fieldParts_takes rest fun y mem => accesses y (List.mem_cons_of_mem x mem)⟩,
        ⟨blanks, space, blank, Nat.zero_le _⟩, rfl⟩, ends plain⟩

/-- A write that is replaced, in a form that is noticed, makes the classification find a change. -/
theorem Replaced.occurs {setter field text : String} {form : WriteForm}
    (replaced : Replaced setter field text m) (written : writeForm? m = some form)
    (noticed : form.noticed field = true) : (mutationPattern field).occurs text = true := by
  obtain ⟨⟨front, c, place, found⟩, rfl, -⟩ := replaced
  obtain ⟨step, blanks, name, member⟩ := memberAccess_matchAt found
  rw [member.member] at noticed ⊢
  unfold writeForm? at written
  obtain ⟨rfl, unstepped⟩ | ⟨sign, stepped⟩ := member.stepped
  · have after : c.after = blanks ++ (instanceDot ++ name ++ m.rest.after) := by
      rw [member.spans.after, member.chars]
      simp
    have space := Cursor.spans_advance after
    have named := Cursor.spans_advance (space.remaining after)
    rw [(space.trans named).unique (by simpa [member.chars] using member.spans)] at named
    have behind {d : Cursor} := mutation_behind (d := d) named
    suffices ∃ d, (mutationPattern (String.ofList name)).Takes (c.advance blanks.length) [] d [] by
      obtain ⟨d, taken⟩ := this
      exact occurs_of_takes (mutationPattern_steady _) (place.trans space) taken
    rw [unstepped, if_neg (by simp)] at written
    split at written
    · rename_i stepBehind
      obtain ⟨d, taken⟩ := mutation_stepBehind stepBehind
      exact ⟨d, behind (.inr (.inl taken))⟩
    · split at written
      · rename_i call called
        obtain ⟨parts, -, rfl⟩ := Option.map_eq_some_iff.mp written
        obtain ⟨d, taken⟩ := mutation_call called noticed
        exact ⟨d, behind (.inr (.inr (.inr taken)))⟩
      · obtain ⟨a, matched, rfl⟩ := Option.map_eq_some_iff.mp written
        obtain ⟨d, taken⟩ | ⟨d, taken⟩ := mutation_assign matched noticed
        · exact ⟨d, behind (.inl taken)⟩
        · exact ⟨d, behind (.inr (.inr (.inl taken)))⟩
  · rw [stepped] at written
    cases written
    refine occurs_of_takes (mutationPattern_steady _) place (mutation_stepBefore member sign ?_)
    simpa [WriteForm.noticed] using noticed

end ReactMigration.Recast
