import Mathlib.Data.List.Induction
import ReactMigration.Proofs.Substitution
import ReactMigration.Proofs.TemplateWrites

/-!
What becomes of the statements of a constructor.

The first assignment of each field gives the field its initial value, calls of the parent constructor are left out,
and all other statements run on mount, in their order.
-/

namespace ReactMigration.Model

open ReactMigration.Text
open ReactMigration.Recast (assigns_takes instanceDot)

/-! ### Assignments to members -/

/-- What may close an assignment behind its value. -/
def assignmentEnds : List (List Char) :=
  [[], [';'], ['\n'], [';', '\n']]

/-- The value of an assignment, without what closes it. -/
def assignedValue : List Char → List Char
  | [] => []
  | a :: cs => if a :: cs ∈ assignmentEnds then [] else a :: assignedValue cs

/-- The member of the instance that a statement assigns to, and the value. -/
def assignment? (s : String) : Option (String × String) :=
  (dropLead? instanceDot s.toList).bind fun behind =>
    match (behind.dropWhile Pattern.isName).dropWhile isBlank with
    | '=' :: value =>
        let member := behind.takeWhile Pattern.isName
        if member.isEmpty || value.head? == some '=' then none
        else some (String.ofList member, trim (String.ofList (assignedValue value)))
    | _ => none

variable {c d : Cursor} {x : List Char}

theorem trim_assignedValue {gap : List Char} (blank : gap.all isBlank = true) (value : List Char) :
    trim (String.ofList (assignedValue (gap ++ value))) = trim (String.ofList (assignedValue value)) := by
  induction gap with
  | nil => rfl
  | cons a gap ih =>
      obtain ⟨first, others⟩ : isBlank a = true ∧ gap.all isBlank = true := by simpa using blank
      have notSemicolon : a ≠ ';' := by
        rintro rfl
        cases first
      rw [List.cons_append, assignedValue]
      split
      · rename_i closes
        obtain ⟨rfl, rfl, rfl⟩ : a = '\n' ∧ gap = [] ∧ value = [] := by
          simpa [assignmentEnds, notSemicolon] using closes
        rfl
      · rw [← ih others, trim, trim, String.toList_ofList, String.toList_ofList, stripWith, List.dropWhile_cons,
          if_pos first, stripWith]

theorem isName_of_blank {a : Char} (blank : isBlank a = true) : Pattern.isName a = false := by
  by_contra letter
  have := Pattern.not_isBlank_of_isName (by simpa using letter)
  simp [this] at blank

/-- The statement assigns to a member of the instance: its name, white space, one equals sign, and the value. -/
theorem assignment?_eq_some {s name v : String} : assignment? s = some (name, v) ↔
    ∃ gap value, s.toList = instanceDot ++ (name.toList ++ (gap ++ '=' :: value)) ∧ name.toList ≠ [] ∧
      (∀ a ∈ name.toList, Pattern.isName a = true) ∧ gap.all isBlank = true ∧ NotNext (· == '=') value ∧
      v = trim (String.ofList (assignedValue value)) := by
  constructor
  · intro found
    obtain ⟨behind, leads, kept⟩ := Option.bind_eq_some_iff.mp found
    have whole := dropLead?_eq_some_iff.mp leads
    split at kept
    · rename_i value rest
      dsimp only at kept
      split at kept
      · cases kept
      · rename_i proper
        have parts : behind = behind.takeWhile Pattern.isName ++
            ((behind.dropWhile Pattern.isName).takeWhile isBlank ++ '=' :: value) := by
          rw [← rest, List.takeWhile_append_dropWhile, List.takeWhile_append_dropWhile]
        obtain ⟨named, single⟩ : behind.takeWhile Pattern.isName ≠ [] ∧ value.head? ≠ some '=' := by
          simpa using proper
        cases kept
        refine ⟨(behind.dropWhile Pattern.isName).takeWhile isBlank, value, ?_, ?_, ?_, List.all_takeWhile, ?_, rfl⟩
        · rwa [String.toList_ofList, ← parts]
        · rwa [String.toList_ofList]
        · rw [String.toList_ofList]
          exact List.all_eq_true.mp List.all_takeWhile
        · intro b next
          rw [beq_eq_false_iff_ne]
          rintro rfl
          exact single next
    · cases kept
  · rintro ⟨gap, value, whole, named, letters, blank, single, rfl⟩
    have leads := dropLead?_eq_some_iff.mpr whole
    have stops : NotNext Pattern.isName (gap ++ '=' :: value) := by
      intro b next
      cases gap with
      | nil =>
          cases next
          rfl
      | cons a gap =>
          cases next
          exact isName_of_blank (by simp_all)
    have member : (name.toList ++ (gap ++ '=' :: value)).takeWhile Pattern.isName = name.toList :=
      takeWhile_append_of_notNext (List.all_eq_true.mpr letters) stops
    have behind : (name.toList ++ (gap ++ '=' :: value)).dropWhile Pattern.isName = gap ++ '=' :: value := by
      rw [List.dropWhile_append_of_pos letters, dropWhile_of_notNext stops]
    have sign : (gap ++ '=' :: value).dropWhile isBlank = '=' :: value := by
      rw [List.dropWhile_append_of_pos (List.all_eq_true.mp blank)]
      rfl
    have proper : (name.toList.isEmpty || value.head? == some '=') = false := by
      have other : value.head? ≠ some '=' := by
        intro next
        have := single '=' next
        simp at this
      simp [named, other]
    rw [assignment?, leads, Option.bind_some, behind, sign]
    simp only [member, proper, Bool.false_eq_true, if_false, String.ofList_toList]

theorem alt_run (p q : Pattern) (c : Cursor) (g : Pattern.Captures) (k : Pattern.Continuation) :
    (p.alt q).run c g k = (p.run c g k).or (q.run c g k) := by
  rw [Pattern.run]
  cases p.run c g k <;> rfl

/-- What closes an assignment is taken by the end of its pattern. -/
theorem assignmentEnd_run (c : Cursor) (g : Pattern.Captures) :
    ((Pattern.opt (.text ";")).run c g fun c g => Pattern.last.run c g fun c g => some (c, g)).map (·.2) =
      if c.after ∈ assignmentEnds then some g else none := by
  have run : (Pattern.opt (.text ";")).run c g (fun c g => Pattern.last.run c g fun c g => some (c, g)) =
      ((Pattern.one (· == ';')).run c g fun c g => Pattern.last.run c g fun c g => some (c, g)).or
        (Pattern.last.run c g fun c g => some (c, g)) :=
    alt_run (.text ";") .empty c g _
  obtain ⟨before, after, offset⟩ := c
  rw [run]
  rcases after with _ | ⟨a, cs⟩
  · rfl
  · simp only [Pattern.run, Cursor.next, assignmentEnds]
    by_cases semicolon : a = ';'
    · by_cases last : cs = [] ∨ cs = ['\n']
      · rcases last with rfl | rfl <;> simp [semicolon]
      · obtain ⟨more, other⟩ := not_or.mp last
        simp [semicolon, more, other]
    · by_cases last : a = '\n' ∧ cs = [] <;> simp [semicolon, last]

/-- The shortest value is taken, and there is always one. -/
theorem runMany_assignedValue {k : Pattern.Continuation} {g h : Pattern.Captures} {before after : List Char} {offset : Nat}
    (closes : ∀ d, (Cursor.mk before after offset).Spans (assignedValue after) d → (k d g).map (·.2) = some h)
    (goesOn : ∀ x d, (Cursor.mk before after offset).Spans x d → d.after ∉ assignmentEnds → k d g = none) :
    (Pattern.runMany (fun _ => true) false g k 0 before after offset).map (·.2) = some h := by
  induction after generalizing before offset with
  | nil => exact closes _ (.refl _)
  | cons a cs ih =>
      rw [Pattern.runMany]
      simp only [if_true, Bool.false_eq_true, if_false]
      by_cases last : a :: cs ∈ assignmentEnds
      · rw [assignedValue, if_pos last] at closes
        obtain ⟨r, found, same⟩ := Option.map_eq_some_iff.mp (closes _ (.refl _))
        rw [found, Option.map_some, same]
      · have next : (Cursor.mk before (a :: cs) offset).Spans [a] ⟨a :: before, cs, offset + 1⟩ := Cursor.spans_next rfl
        rw [assignedValue, if_neg last] at closes
        rw [goesOn [] _ (.refl _) last]
        exact ih (fun d spans => closes d (next.trans spans)) fun x d spans => goesOn _ d (next.trans spans)

theorem assignedValue_after {d : Cursor} (spans : c.Spans (assignedValue c.after) d) : d.after ∈ assignmentEnds := by
  have ends (cs : List Char) : ∃ rest ∈ assignmentEnds, cs = assignedValue cs ++ rest := by
    induction cs with
    | nil => exact ⟨[], by simp [assignmentEnds], rfl⟩
    | cons a cs ih =>
        rw [assignedValue]
        split
        · rename_i last
          exact ⟨_, last, rfl⟩
        · obtain ⟨rest, last, same⟩ := ih
          refine ⟨rest, last, ?_⟩
          rw [List.cons_append, ← same]
  obtain ⟨rest, last, same⟩ := ends c.after
  rwa [spans.remaining same]

/-- The member, up to its value. -/
def assignmentFront : Pattern :=
  .first ++ .text "this." ++ .group 1 .name ++ .blanks ++ assigns ++ .blanks

theorem assignmentFront_steady : assignmentFront.Steady := by
  simp [assignmentFront, Pattern.Steady, Pattern.name, Pattern.blanks, assigns]

theorem assignmentFront_takes {g h : Pattern.Captures} : assignmentFront.Takes c g d h ↔
    c.before = [] ∧ ∃ name gap space, name ≠ [] ∧ (∀ a ∈ name, Pattern.isName a = true) ∧
      (∀ a ∈ gap, isBlank a = true) ∧ (∀ a ∈ space, isBlank a = true) ∧
      c.Spans (instanceDot ++ (name ++ (gap ++ (['='] ++ space)))) d ∧
      NotNext (· == '=') (space ++ d.after) ∧ h = (1, name) :: g := by
  simp only [assignmentFront, Pattern.seq_takes, Pattern.text_takes, Pattern.group_takes, Pattern.name, Pattern.blanks,
    Pattern.many_takes, assigns_takes]
  constructor
  · rintro ⟨c₅, _, ⟨c₄, _, ⟨c₃, _, ⟨c₂, _, ⟨c₁, _, ⟨rfl, rfl, start⟩, lead, rfl⟩, _, ⟨⟨name, named, letters, visible⟩,
      rfl⟩, rfl⟩, ⟨gap, first, blank, -⟩, rfl⟩, ⟨sign, alone⟩, rfl⟩, ⟨space, second, blank', -⟩, rfl⟩
    refine ⟨start, name, gap, space, List.length_pos_iff.mp visible, letters, blank, blank', ?_, ?_, ?_⟩
    · exact lead.trans (named.trans (first.trans (sign.trans second)))
    · rwa [← second.after]
    · rw [captured_eq named]
  · rintro ⟨start, name, gap, space, visible, letters, blank, blank', spans, alone, rfl⟩
    obtain ⟨c₁, lead, spans⟩ := spans_append spans
    obtain ⟨c₂, named, spans⟩ := spans_append spans
    obtain ⟨c₃, first, spans⟩ := spans_append spans
    obtain ⟨c₄, sign, second⟩ := spans_append spans
    rw [← second.after] at alone
    refine ⟨c₄, _, ⟨c₃, _, ⟨c₂, _, ⟨c₁, _, ⟨c, _, ⟨rfl, rfl, start⟩, lead, rfl⟩, _, ⟨⟨name, named, letters, ?_⟩,
      rfl⟩, rfl⟩, ⟨gap, first, blank, Nat.zero_le _⟩, rfl⟩, ⟨sign, alone⟩, rfl⟩, ⟨space, second, blank', Nat.zero_le _⟩, ?_⟩
    · exact List.length_pos_iff.mpr visible
    · rw [captured_eq named]

/-- The value of an assignment and its end. -/
def captureValue (c : Cursor) (g : Pattern.Captures) : Option (Cursor × Pattern.Captures) :=
  (Pattern.group 2 (.many (fun _ => true) 0 false)).run c g fun c g =>
    (Pattern.opt (.text ";")).run c g fun c g => Pattern.last.run c g fun c g => some (c, g)

theorem captureValue_captures (c : Cursor) (g : Pattern.Captures) :
    (captureValue c g).map (·.2) = some ((2, assignedValue c.after) :: g) := by
  refine runMany_assignedValue (h := (2, assignedValue c.after) :: g) ?_ ?_
  · intro d spans
    rw [assignmentEnd_run, if_pos (assignedValue_after spans)]
    exact congrArg (fun value => some ((2, value) :: g)) (captured_eq spans)
  · intro x d spans others
    have failed := assignmentEnd_run d ((2, c.after.take (d.offset - c.offset)) :: g)
    rw [if_neg others] at failed
    exact Option.map_eq_none_iff.mp failed

theorem thisAssign_run (c : Cursor) (g : Pattern.Captures) :
    (thisAssignPattern.run c g fun c g => some (c, g)) = assignmentFront.run c g captureValue :=
  rfl

theorem assignment?_of_lead? {s : String} {m : Match} (found : thisAssignPattern.lead? s = some m) :
    assignment? s = some (m.group 1, trim (m.group 2)) := by
  unfold Pattern.lead? Pattern.matchAt? Pattern.matchThen? at found
  simp only [if_true, thisAssign_run] at found
  split at found
  · rename_i e g ran
    cases found
    obtain ⟨d, h, taken, goesOn⟩ := Pattern.run_takes ran
    have groups := captureValue_captures d h
    rw [goesOn] at groups
    obtain ⟨-, member, gap, space, visible, letters, blank, blank', spans, alone, rfl⟩ := assignmentFront_takes.mp taken
    obtain rfl : g = (2, assignedValue d.after) :: (1, member) :: [] := Option.some.inj groups
    have whole : s.toList = instanceDot ++ (member ++ (gap ++ (['='] ++ space))) ++ d.after := spans.after
    have own : (String.ofList member).toList = member := String.toList_ofList
    refine assignment?_eq_some.mpr ⟨gap, space ++ d.after, ?_, ?_, ?_, List.all_eq_true.mpr blank, alone, ?_⟩
    · change _ = instanceDot ++ ((String.ofList member).toList ++ _)
      rw [own, whole]
      simp
    · rwa [← own] at visible
    · rwa [← own] at letters
    · rw [trim_assignedValue (List.all_eq_true.mpr blank')]
      rfl
  · cases found

theorem lead?_isSome_of_assignment? {s name v : String} (assigns : assignment? s = some (name, v)) :
    (thisAssignPattern.lead? s).isSome = true := by
  obtain ⟨gap, value, whole, visible, letters, blank, alone, rfl⟩ := assignment?_eq_some.mp assigns
  have after : (Cursor.start s.toList).after = (instanceDot ++ (name.toList ++ (gap ++ (['='] ++ [])))) ++ value := by
    rw [show (Cursor.start s.toList).after = s.toList from rfl, whole]
    simp
  have spans := Cursor.spans_advance after
  have rest := spans.remaining after
  have taken := (assignmentFront_takes (g := [])).mpr
    ⟨rfl, name.toList, gap, [], visible, letters, List.all_eq_true.mp blank, by simp, spans, by rwa [rest], rfl⟩
  have ran : (assignmentFront.run (.start s.toList) [] captureValue).isSome := by
    refine Pattern.run_isSome assignmentFront_steady taken ?_
    rw [← Option.isSome_map, captureValue_captures]
    rfl
  unfold Pattern.lead? Pattern.matchAt? Pattern.matchThen?
  simp only [if_true, thisAssign_run]
  obtain ⟨r, found⟩ := Option.isSome_iff_exists.mp ran
  rw [found]
  rfl

/-- The pattern of an assignment finds exactly the assignments to members. -/
theorem lead?_assignment (s : String) :
    (thisAssignPattern.lead? s).map (fun m => (m.group 1, trim (m.group 2))) = assignment? s := by
  cases found : thisAssignPattern.lead? s with
  | some m => rw [assignment?_of_lead? found, Option.map_some]
  | none =>
      cases assigns : assignment? s with
      | none => rfl
      | some a =>
          have := lead?_isSome_of_assignment? assigns
          simp [found] at this

/-! ### Statements that stay and statements that go -/

/-- The statements of the constructor. -/
def constructorTexts (d : DeclBase) : List String :=
  (((d.method? "constructor").map (·.statements)).getD []).map (·.text)

/-- What a statement assigns to one member. -/
def assignedTo (name s : String) : Option String :=
  ((assignment? s).filter (·.1 == name)).map (·.2)

/-- What the first assignment to a member assigns. -/
def firstAssigned (texts : List String) (name : String) : Option String :=
  texts.findSome? (assignedTo name)

/-- All statements, in order, but some of those that may go. -/
inductive Keeps (goes : String → Prop) : List String → List String → Prop
  | nil : Keeps goes [] []
  | stands {texts rest : List String} (s : String) (more : Keeps goes texts rest) : Keeps goes (s :: texts) (s :: rest)
  | leaves {texts rest : List String} {s : String} (here : goes s) (more : Keeps goes texts rest) :
      Keeps goes (s :: texts) rest

namespace Keeps

variable {goes goes' : String → Prop} {texts texts' rest rest' : List String}

theorem mono (h : Keeps goes texts rest) (imp : ∀ s ∈ texts, goes s → goes' s) : Keeps goes' texts rest := by
  induction h with
  | nil => exact .nil
  | stands s more ih => exact .stands s (ih fun t mem => imp t (List.mem_cons_of_mem s mem))
  | leaves here more ih => exact .leaves (imp _ List.mem_cons_self here) (ih fun t mem => imp t (List.mem_cons_of_mem _ mem))

theorem append (h : Keeps goes texts rest) (h' : Keeps goes texts' rest') : Keeps goes (texts ++ texts') (rest ++ rest') := by
  induction h with
  | nil => exact h'
  | stands s more ih => exact .stands s ih
  | leaves here more ih => exact .leaves here ih

end Keeps

/-- A statement goes as a call of the parent constructor, or as the first assignment to a field. -/
def Goes (d : DeclBase) (texts : List String) (s : String) : Prop :=
  s.startsWith "super(" = true ∨
    ∃ name v, assignment? s = some (name, v) ∧ d.fields.any (·.name == name) = true ∧ firstAssigned texts name = some v

/-- One round over the statements of a constructor. -/
def splitStatement (d : DeclBase) (parts : Table String × List String) (s : String) : Table String × List String :=
  match (assignment? s).filter fun a => d.fields.any (·.name == a.1) && !Table.has parts.1 a.1 with
  | some a => (parts.1 ++ [a], parts.2)
  | none => if s.startsWith "super(" then parts else (parts.1, parts.2 ++ [s])

theorem constructorParts_eq (d : DeclBase) :
    constructorParts d = (constructorTexts d).foldl (splitStatement d) ([], []) := by
  unfold constructorParts constructorTexts
  split
  · rename_i missing
    rw [missing]
    rfl
  · rename_i c found
    rw [found, Option.map_some, Option.getD_some, List.foldl_map]
    refine List.foldl_ext _ _ _ fun parts s _ => ?_
    obtain ⟨assigned, rest⟩ := parts
    rw [splitStatement, ← lead?_assignment]
    dsimp only
    cases thisAssignPattern.lead? s.text with
    | none => rfl
    | some m =>
        by_cases fills : (d.fields.any (·.name == m.group 1) && !Table.has assigned (m.group 1)) = true <;>
          simp only [Option.map_some, Option.filter_some, fills, if_true, if_false, Bool.false_eq_true]

theorem firstAssigned_concat (texts : List String) (s name : String) :
    firstAssigned (texts ++ [s]) name = (firstAssigned texts name).or (assignedTo name s) := by
  rw [firstAssigned, List.findSome?_append, List.findSome?_singleton, firstAssigned]

theorem assignedTo_eq_some {name s v : String} : assignedTo name s = some v ↔ assignment? s = some (name, v) := by
  unfold assignedTo
  cases assignment? s with
  | none => simp
  | some a =>
      obtain ⟨name', v'⟩ := a
      by_cases same : name' = name <;> simp [Option.filter, same]

theorem Goes.concat {d : DeclBase} {texts : List String} {s : String} (h : Goes d texts s) (t : String) :
    Goes d (texts ++ [t]) s := by
  refine h.imp_right ?_
  rintro ⟨name, v, assigns, field, first⟩
  refine ⟨name, v, assigns, field, ?_⟩
  rw [firstAssigned_concat, first, Option.some_or]

/-- The parts of the constructor read so far: the first value of each field, and the statements that stay. -/
structure Parted (d : DeclBase) (texts : List String) (parts : Table String × List String) : Prop where
  fields : ∀ name, d.fields.any (·.name == name) = true → parts.1.get? name = firstAssigned texts name
  keeps : Keeps (Goes d texts) texts parts.2

theorem splitStatement_parted {d : DeclBase} {texts : List String} {parts : Table String × List String}
    (h : Parted d texts parts) (s : String) : Parted d (texts ++ [s]) (splitStatement d parts s) := by
  have kept := h.keeps.mono fun s' _ goes => goes.concat s
  unfold splitStatement
  split
  · rename_i a first
    obtain ⟨assigns, fills⟩ := Option.filter_eq_some_iff.mp first
    obtain ⟨name, v⟩ := a
    obtain ⟨field, new⟩ : d.fields.any (·.name == name) = true ∧ Table.has parts.1 name = false := by
      simpa using fills
    have unassigned : firstAssigned texts name = none := by
      rw [← h.fields name field]
      exact (Table.get?_eq_none_iff _ _).mpr new
    have own : assignedTo name s = some v := assignedTo_eq_some.mpr assigns
    refine ⟨?_, ?_⟩
    · intro name' field'
      rw [Table.get?_append, h.fields name' field', firstAssigned_concat, Table.get?_cons]
      refine congrArg _ ?_
      split
      · rename_i same
        rw [same, own]
      · rename_i other
        refine (Option.eq_none_iff_forall_ne_some.mpr ?_).symm
        intro v' assigned
        cases assigns.symm.trans (assignedTo_eq_some.mp assigned)
        exact other rfl
    · have goes : Goes d (texts ++ [s]) s := by
        refine .inr ⟨name, v, assigns, field, ?_⟩
        rw [firstAssigned_concat, unassigned, own, Option.none_or]
      simpa using kept.append (.leaves goes .nil)
  · rename_i other
    have same : ∀ name, d.fields.any (·.name == name) = true → parts.1.get? name = firstAssigned (texts ++ [s]) name := by
      intro name field
      rw [firstAssigned_concat, ← h.fields name field]
      cases found : parts.1.get? name with
      | some v => rfl
      | none =>
          rw [Option.none_or]
          refine (Option.eq_none_iff_forall_ne_some.mpr ?_).symm
          intro v assigned
          have new := (Table.get?_eq_none_iff _ _).mp found
          rw [assignedTo_eq_some.mp assigned] at other
          simp [Option.filter, field, new] at other
    split
    · rename_i parent
      refine ⟨same, ?_⟩
      simpa using kept.append (.leaves (.inl parent) .nil)
    · exact ⟨same, kept.append (.stands s .nil)⟩

/-- Each field is given what is first assigned to it, and the other statements stay. -/
theorem constructorParts_parted (d : DeclBase) : Parted d (constructorTexts d) (constructorParts d) := by
  rw [constructorParts_eq]
  generalize constructorTexts d = texts
  induction texts using List.reverseRecOn with
  | nil => exact ⟨fun _ _ => rfl, .nil⟩
  | append_singleton texts s ih =>
      rw [List.foldl_append]
      exact splitStatement_parted ih s

/-! ### Initial values -/

/-- Every angle bracket is closed, arrows apart. -/
def anglesLevel : Nat → List Char → Bool
  | n, '=' :: '>' :: cs => anglesLevel n cs
  | n, '<' :: cs => anglesLevel (n + 1) cs
  | 0, '>' :: _ => false
  | n + 1, '>' :: cs => anglesLevel n cs
  | n, _ :: cs => anglesLevel n cs
  | n, [] => n == 0

/-- The text has all its brackets and quotes closed. -/
def IsLevel (s : String) : Prop :=
  (Script.findUnbalanced s).isNone = true

instance : DecidablePred IsLevel :=
  fun s => inferInstanceAs (Decidable ((Script.findUnbalanced s).isNone = true))

/-- Type arguments, or none. -/
inductive IsTypeArguments : List Char → Prop
  | none : IsTypeArguments []
  | some {types : String} (level : IsLevel types) (angles : anglesLevel 0 types.toList = true) :
      IsTypeArguments ('<' :: (types.toList ++ ['>']))

/-- The text creates a subject from constructor arguments. -/
structure CreatesSubject (v args : String) : Prop where
  text : ∃ gap space space' tail types : List Char, ∃ subject ∈ ["BehaviorSubject", "ReplaySubject", "Subject"],
    v.toList = "new".toList ++ (gap ++ (subject.toList ++ (space ++ (types ++ (space' ++
      '(' :: (args.toList ++ ')' :: tail)))))) ∧ gap ≠ [] ∧ IsTypeArguments types ∧
    ∀ blanks ∈ [gap, space, space', tail], blanks.all isBlank = true
  level : IsLevel args

/-- A call of the parent constructor and nothing more. -/
def IsSuperCall (s : String) : Prop :=
  ∃ args, (s = "super(" ++ args ++ ")" ∨ s = "super(" ++ args ++ ");") ∧ IsLevel args

/-- The value is the initial one; a subject starts with its constructor argument. -/
def FieldRole.StartsWith (v : String) : FieldRole → Prop
  | .state c =>
      if c.origin = .subject then
        ∃ args, CreatesSubject v args ∧ c.initial = if trim args = "" then none else some (trim args)
      else c.initial = some v
  | .ref c => c.initial = some v
  | .constant c => c.value = some v

/-- The field has no other initial value, no query fills it, and its value is read right if it creates a subject. -/
structure Receives (f : FieldDecl) (v : String) : Prop where
  free : f.initializer = none ∨ f.initializer = some v
  unqueried : f.static = true ∨ viewQuery? f = none
  subject : f.static = true ∨ ∀ m ∈ subjectPattern.lead? v, IsLevel (m.group 3) ∧
    ∀ types ∈ m.group? 2, IsLevel types ∧ anglesLevel 0 types.toList = true

theorem lead?_subject {v : String} {m : Match} (found : subjectPattern.lead? v = some m) (level : IsLevel (m.group 3))
    (types : ∀ types ∈ m.group? 2, IsLevel types ∧ anglesLevel 0 types.toList = true) :
    CreatesSubject v (m.group 3) := by
  obtain ⟨taken, -⟩ := Pattern.matchAt?_eq_some found
  simp only [subjectPattern, Pattern.seq_takes, Pattern.text_takes, Pattern.group_takes, Pattern.oneOf_takes,
    Pattern.opt_takes, Pattern.blanks, Pattern.blanks1, Pattern.anything, Pattern.many_takes] at taken
  obtain ⟨c₁₀, _, ⟨c₉, _, ⟨c₈, _, ⟨c₇, _, ⟨c₆, _, ⟨c₅, _, ⟨c₄, _, ⟨c₃, _, ⟨c₂, _, ⟨c₁, _, ⟨rfl, rfl, -⟩, new, rfl⟩,
    ⟨gap, first, blank, visible⟩, rfl⟩, _, ⟨⟨subject, listed, named⟩, rfl⟩, rfl⟩, ⟨space, second, blank', -⟩, rfl⟩,
    typed⟩, ⟨space', third, blank'', -⟩, same⟩, opening, rfl⟩, _, ⟨⟨args, inside, -, -⟩, rfl⟩, same'⟩, closing, rfl⟩,
    rfl, same'', last⟩ := taken
  subst same
  rw [captured_eq inside] at same'
  have groups : m.groups = (3, args) :: _ := same''.trans same'
  have argument : (m.group 3).toList = args := by
    simp [Match.group, Match.group?, groups]
  have blanks : m.rest.after.all isBlank = true := by
    rcases last with ends | ends
    · rw [ends]
      rfl
    · rw [ends]
      decide
  obtain ⟨written, typed', between⟩ : ∃ written, IsTypeArguments written ∧ c₅.Spans written c₆ := by
    rcases typed with ⟨c₇', _, ⟨_, _, ⟨less, rfl⟩, _, ⟨⟨inner, within, -, -⟩, rfl⟩, rfl⟩, greater, rfl⟩ | ⟨rfl, rfl⟩
    · rw [captured_eq within] at groups
      have captured : String.ofList inner ∈ m.group? 2 := by
        simp [Match.group?, groups]
      obtain ⟨level, angles⟩ := types _ captured
      have written := IsTypeArguments.some level angles
      rw [String.toList_ofList] at written
      exact ⟨_, written, less.trans (within.trans greater)⟩
    · exact ⟨[], .none, .refl _⟩
  have spans := new.trans (first.trans (named.trans (second.trans (between.trans (third.trans
    (opening.trans (inside.trans closing)))))))
  have whole : v.toList = _ := spans.after
  refine ⟨⟨gap, space, space', m.rest.after, written, subject, listed, ?_, ?_, typed', ?_⟩, level⟩
  · rw [argument]
    simpa using whole
  · exact List.length_pos_iff.mp visible
  · intro b mem
    simp only [List.mem_cons, List.not_mem_nil, or_false] at mem
    obtain rfl | rfl | rfl | rfl := mem
    · exact List.all_eq_true.mpr blank
    · exact List.all_eq_true.mpr blank'
    · exact List.all_eq_true.mpr blank''
    · exact blanks

theorem fieldRole_startsWith {d : DeclBase} {f : FieldDecl} {assigned : Table String} {v : String}
    (first : assigned.get? f.name = some v) (receives : Receives f v) (mutated : List String) :
    (fieldRole d assigned mutated f).StartsWith v := by
  have initial : (f.initializer.orElse fun _ => assigned.get? f.name) = some v := by
    rcases receives.free with free | same
    · rw [free, first]
      rfl
    · rw [same]
      rfl
  unfold fieldRole
  rw [initial]
  dsimp only
  split
  · rfl
  · rename_i ofInstance
    have unqueried := receives.unqueried.resolve_left ofInstance
    have subject := receives.subject.resolve_left ofInstance
    rw [unqueried, Option.isSome_none, if_neg Bool.false_ne_true]
    split
    · rename_i m found
      obtain ⟨level, types⟩ := subject m found
      rw [FieldRole.StartsWith, if_pos rfl]
      refine ⟨m.group 3, lead?_subject found level types, ?_⟩
      simp
    · split
      · rfl
      · split
        · rfl
        · split
          · rfl
          · rfl

/-! ### Models with effects -/

/-- What the fields of a class became. -/
def fieldCells (m : ModelBase) : List FieldRole :=
  m.state.map .state ++ m.refs.map .ref ++ m.constants.map .constant

/-- The common part of a model with lifecycle effects. -/
def hooked? : UnitModel → Option ModelBase
  | .component m => some m.toModelBase
  | .service m => some m.toModelBase
  | .directive m => if m.directiveKind = .structural then none else some m.toModelBase
  | _ => none

/-- The fields of the model are those of the class, and its effects start with being mounted. -/
structure Hooks (d : DeclBase) (m : ModelBase) : Prop where
  cells : ∃ mutated, ∀ f ∈ d.fields, fieldRole d (constructorParts d).1 mutated f ∈ fieldCells m
  mounts : ∃ more, m.effects = mountEffect d ++ more

theorem Hooks.of_collected {d : DeclBase} {mutated skip : List String} {m m' : ModelBase} {effects : List Effect}
    (collected : Collects skip (classifyFields d m mutated) d.methods m')
    (mounts : ∃ more, effects = mountEffect d ++ more) : Hooks d { m' with effects } := by
  obtain ⟨ms, gs, rfl, -⟩ := collected
  refine ⟨⟨mutated, ?_⟩, mounts⟩
  intro f mem
  have listed : fieldRole d (constructorParts d).1 mutated f ∈ fieldRoles d mutated := List.mem_map_of_mem mem
  simp only [fieldCells, classifyFields, List.mem_append, List.mem_map, List.mem_filterMap]
  cases role : fieldRole d (constructorParts d).1 mutated f with
  | state c => exact .inl (.inl ⟨c, ⟨_, role ▸ listed, rfl⟩, rfl⟩)
  | ref c => exact .inl (.inr ⟨c, ⟨_, role ▸ listed, rfl⟩, rfl⟩)
  | constant c => exact .inr ⟨c, ⟨_, role ▸ listed, rfl⟩, rfl⟩

variable {index : SymbolIndex}

theorem buildComponent_hooks (d : ComponentDecl) :
    (buildComponent index d).Ensures fun u => ∀ m, hooked? u = some m → Hooks d.toDeclBase m := by
  unfold buildComponent
  refine (Noting.Ensures.forM fun path _ => .warn _ _).bind fun _ _ => ?_
  split
  · exact (Noting.Ensures.warn _ _).bind fun _ _ => .pure fun _ isStub => by cases isStub
  · extract_lets start rest
    have built (nodes : List Template.Node) (scope : TemplateScope) :
        (rest (nodes, scope)).Ensures fun u => ∀ m, hooked? u = some m → Hooks d.toDeclBase m := by
      refine (resolveDependencies_notes index d.toDeclBase).bind fun deps _ => ?_
      refine (collectMethods_ensures _ _ _).bind fun base collected => ?_
      refine (lifecycleEffects_mounts _ _).bind fun effects mounts => .pure fun m same => ?_
      cases same
      exact .of_collected collected mounts
    split
    · refine Noting.Ensures.bind (.modify ?_) fun _ _ => ?_
      · exact fun s => s.continues_record _
      · exact built [] {}
    · refine Noting.Ensures.bind (linkNodes_marks d.templateNodes {}) fun r _ => ?_
      exact built r.1 r.2

theorem buildService_hooks (d : ServiceDecl) :
    (buildService index d).Ensures fun u => ∀ m, hooked? u = some m → Hooks d.toDeclBase m := by
  refine (resolveDependencies_notes index d.toDeclBase).bind fun deps _ => ?_
  refine (collectMethods_ensures _ _ _).bind fun base collected => ?_
  refine (lifecycleEffects_mounts _ _).bind fun effects mounts => .pure fun m same => ?_
  cases same
  exact .of_collected collected mounts

theorem buildDirective_hooks (d : DirectiveDecl) :
    (buildDirective index d).Ensures fun u => ∀ m, hooked? u = some m → Hooks d.toDeclBase m := by
  unfold buildDirective
  split
  · exact (Noting.Ensures.warn _ _).bind fun _ _ => .pure fun _ isStub => by cases isStub
  · extract_lets attr start finish condition rest
    have built : (rest ()).Ensures fun u => ∀ m, hooked? u = some m → Hooks d.toDeclBase m := by
      refine (resolveDependencies_notes index d.toDeclBase).bind fun deps _ => ?_
      extract_lets
      split
      · rename_i structural
        have aside (base : ModelBase) (condition : Option String) (m : ModelBase) :
            hooked? (finish base condition) ≠ some m := by
          simp_all [hooked?, finish]
        split
        · exact (Noting.Ensures.warn _ _).bind fun _ _ => .pure fun m same => absurd same (aside _ _ m)
        · exact .pure fun m same => absurd same (aside _ _ m)
      · refine (collectMethods_ensures _ _ _).bind fun base collected => ?_
        refine (lifecycleEffects_mounts _ _).bind fun effects mounts => .pure fun m same => ?_
        obtain ⟨-, rfl⟩ : d.directiveKind ≠ .structural ∧ { base with effects } = m := by
          simpa [hooked?, finish] using same
        exact .of_collected collected mounts
    split
    · exact (Noting.Ensures.warn _ _).bind fun _ _ => built
    · exact built

theorem build_hooks (ds : List Declaration) (units : List String) (d : Declaration) :
    (build (SymbolIndex.build ds units) d).Ensures fun u => ∀ m, hooked? u = some m → Hooks d.base m := by
  have kinds := build_ensures (SymbolIndex.build_sound ds units).1 d
  cases d with
  | component d => exact buildComponent_hooks d
  | service d => exact buildService_hooks d
  | directive d => exact buildDirective_hooks d
  | _ => exact kinds.mono fun u built m hooked => by cases built <;> cases hooked

/-! ### Constructors -/

/-- Every statement of the constructor stands in order where the effect of being mounted begins, unless it calls the
parent constructor or assigns a field its initial value. -/
def ConstructorKept (d : DeclBase) (m : ModelBase) : Prop :=
  ∃ rest, Keeps (fun s => IsSuperCall s ∨ ∃ name v, assignment? s = some (name, v) ∧
      ∃ cell ∈ fieldCells m, cell.name = name ∧ cell.StartsWith v) (constructorTexts d) rest ∧
    (rest ≠ [] → ∃ e ∈ m.effects.head?, e.trigger = .mount ∧ ∃ more, e.body = unlines (rest ++ more))

theorem mountEffect_head (d : DeclBase) (visible : (constructorParts d).2 ≠ []) :
    ∃ e ∈ (mountEffect d).head?, e.trigger = .mount ∧ ∃ more, e.body = unlines ((constructorParts d).2 ++ more) := by
  have shown : (constructorParts d).2.isEmpty = false := by simpa using visible
  unfold mountEffect
  dsimp only
  rw [shown, Bool.and_false, if_neg Bool.false_ne_true]
  exact ⟨_, rfl, rfl, _, rfl⟩

/-- The statements of a constructor are kept, if what starts like a call of the parent constructor is one, and every
field that is assigned can receive the value. -/
theorem constructor_kept (ds : List Declaration) (units : List String) {d : Declaration} {u : UnitModel} {m : ModelBase}
    {s s' : Sink} (built : (build (SymbolIndex.build ds units) d).run.run s = (.ok u, s')) (hooked : hooked? u = some m)
    (parents : ∀ t ∈ constructorTexts d.base, t.startsWith "super(" = true → IsSuperCall t)
    (receives : ∀ f ∈ d.base.fields, ∀ v ∈ firstAssigned (constructorTexts d.base) f.name, Receives f v) :
    ConstructorKept d.base m := by
  obtain ⟨⟨mutated, cells⟩, more, effects⟩ := (build_hooks ds units d s).2 u (by rw [built]) m hooked
  obtain ⟨fields, keeps⟩ := constructorParts_parted d.base
  refine ⟨(constructorParts d.base).2, keeps.mono ?_, ?_⟩
  · rintro t mem (parent | ⟨name, v, assigns, field, first⟩)
    · exact .inl (parents t mem parent)
    · obtain ⟨f, listed, named⟩ := List.any_eq_true.mp field
      obtain rfl : f.name = name := by simpa using named
      have given := (fields f.name field).trans first
      have starts : (fieldRole d.base _ mutated f).StartsWith v :=
        fieldRole_startsWith given (receives f listed v first) mutated
      exact .inr ⟨f.name, v, assigns, _, cells f listed, fieldRole_name _ _ _ _, starts⟩
  · intro visible
    obtain ⟨e, first, mount, more', body⟩ := mountEffect_head d.base visible
    refine ⟨e, ?_, mount, more', body⟩
    rw [effects, List.head?_append, Option.mem_def.mp first]
    rfl

theorem ended_of_bind {x : Noting UnitModel} {f : UnitModel → Option ModelBase} {m : ModelBase} {s : Sink}
    (found : ((x.run.run s).1.toOption.bind f) = some m) : ∃ u s', x.run.run s = (.ok u, s') ∧ f u = some m := by
  obtain ⟨u, ended, given⟩ := Option.bind_eq_some_iff.mp found
  cases result : (x.run.run s).1 with
  | error e =>
      rw [result] at ended
      cases ended
  | ok u' =>
      rw [result] at ended
      cases ended
      exact ⟨u, (x.run.run s).2, Prod.ext result rfl, given⟩

/-- A class whose constructor calls its parent, fills two fields, and does more. -/
def panelUnit : ComponentDecl :=
  { name := "Panel", sourcePath := "panel.ts"
    fields := [{ name := "size" }, { name := "open", type := some "Subject<boolean>" }]
    methods := [{ name := "constructor", statements := [⟨"expression_statement", "super(host);"⟩,
      ⟨"expression_statement", "this.size = 2;"⟩,
      ⟨"expression_statement", "this.open = new BehaviorSubject<boolean>(false);"⟩,
      ⟨"expression_statement", "this.size = 3;"⟩] }] }

theorem constructor_kept_panel : ∃ u m s', (build (SymbolIndex.build [] []) (.component panelUnit)).run.run
      { unit := "panel.ts" } = (.ok u, s') ∧ hooked? u = some m ∧ ConstructorKept panelUnit.toDeclBase m := by
  have builds : (((build (SymbolIndex.build [] []) (.component panelUnit)).run.run
      { unit := "panel.ts" }).1.toOption.bind hooked?).isSome = true := by decide +kernel
  obtain ⟨m, found⟩ := Option.isSome_iff_exists.mp builds
  obtain ⟨u, s', built, hooked⟩ := ended_of_bind found
  refine ⟨u, m, s', built, hooked, constructor_kept [] [] built hooked ?_ ?_⟩
  · intro t mem parent
    have listed : t ∈ ["super(host);", "this.size = 2;", "this.open = new BehaviorSubject<boolean>(false);",
      "this.size = 3;"] := mem
    simp only [List.mem_cons, List.not_mem_nil, or_false] at listed
    obtain rfl | rfl | rfl | rfl := listed
    · exact ⟨"host", .inr rfl, by decide +kernel⟩
    · exact absurd parent (by decide +kernel)
    · exact absurd parent (by decide +kernel)
    · exact absurd parent (by decide +kernel)
  · intro f mem v first
    have listed : f ∈ panelUnit.fields := mem
    simp only [panelUnit, List.mem_cons, List.not_mem_nil, or_false] at listed
    obtain rfl | rfl := listed
    · have value : firstAssigned (constructorTexts panelUnit.toDeclBase) "size" = some "2" := by decide +kernel
      cases value.symm.trans first
      exact ⟨.inl rfl, .inr rfl, .inr (by decide +kernel)⟩
    · have value : firstAssigned (constructorTexts panelUnit.toDeclBase) "open" =
        some "new BehaviorSubject<boolean>(false)" := by decide +kernel
      cases value.symm.trans first
      exact ⟨.inl rfl, .inr rfl, .inr (by decide +kernel)⟩

/-- A class whose constructor assigns a field that has an initial value of its own. -/
def presetUnit : ComponentDecl :=
  { name := "A", sourcePath := "a.ts", template := some ""
    fields := [{ name := "x", initializer := some "1" }]
    methods := [{ name := "constructor", statements := [⟨"expression_statement", "this.x = 2;"⟩] }] }

theorem constructor_lost_preset : ∃ u m s', (build (SymbolIndex.build [] []) (.component presetUnit)).run.run
      { unit := "a.ts" } = (.ok u, s') ∧ hooked? u = some m ∧ ¬ ConstructorKept presetUnit.toDeclBase m := by
  have builds : (((build (SymbolIndex.build [] []) (.component presetUnit)).run.run
      { unit := "a.ts" }).1.toOption.bind hooked?).any (fun m => decide (m.effects = [] ∧ m.state = [] ∧
        m.refs = [] ∧ m.constants = [{ name := "x", value := some "1" }])) = true := by decide +kernel
  obtain ⟨m, found, facts⟩ := (Option.any_eq_true _ _).mp builds
  obtain ⟨u, s', built, hooked⟩ := ended_of_bind found
  obtain ⟨effects, state, refs, constants⟩ := of_decide_eq_true facts
  refine ⟨u, m, s', built, hooked, ?_⟩
  rintro ⟨rest, keeps, shown⟩
  have assigns : assignment? "this.x = 2;" = some ("x", "2") := by decide +kernel
  cases keeps with
  | stands s more =>
      obtain ⟨e, first, -⟩ := shown (List.cons_ne_nil _ _)
      simp [effects] at first
  | leaves goes more =>
      obtain ⟨args, same, -⟩ | ⟨name, v, assigned, cell, mem, -, starts⟩ := goes
      · have texts := same.imp (congrArg String.toList) (congrArg String.toList)
        simp at texts
      · cases assigns.symm.trans assigned
        simp only [fieldCells, state, refs, constants] at mem
        obtain rfl : cell = .constant { name := "x", value := some "1" } := by simpa using mem
        simp [FieldRole.StartsWith] at starts

end ReactMigration.Model
