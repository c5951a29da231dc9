import ReactMigration.Proofs.IdlePasses
import ReactMigration.Proofs.LoopClauses
import ReactMigration.Proofs.NoteLines
import ReactMigration.Proofs.PathTokens

/-!
A path of state, read and written.

Recasting leaves a path that starts at the instance as the path itself, and makes the assignment of a value to it a
call of the setter.  Every pass in between finds nothing, unless a key within the path is the keyword: the keyword
and its dot are then taken for the instance.
-/

namespace ReactMigration.Recast

open ReactMigration.Text
open ReactMigration.Text.Pattern (isName isPath atBoundary)
open ReactMigration.Script (IsIdentifier isIdentifierChar pathText)
open Recasting (Gives)

variable {base : List Char} {keys : List (List Char)} {rest tail x : List Char} {word : Bool} {c : Cursor}
  {m : Match} {ctx : RecastContext}

/-! ### Calm paths -/

theorem CalmFrom.calm (calm : CalmFrom false x) : Calm x := by
  intro y z split
  have inner := calm y z split
  cases last : y.getLast? with
  | none => simp [last] at inner
  | some a => exact ⟨a, rfl, by simpa [last] using inner⟩

theorem calmFrom_of_absent (absent : ¬ instanceDot <:+: x) (word : Bool) : CalmFrom word x :=
  fun y z split => absurd ⟨y, z, by rw [split, List.append_assoc]⟩ absent

/-- A character that is no part of the keyword separates calm texts. -/
theorem CalmFrom.mark {a : Char} (other : a ∉ instanceDot) (front : CalmFrom word x) (back : CalmFrom (isWord a) rest) :
    CalmFrom word (x ++ a :: rest) := by
  intro y z split
  obtain ⟨w, rfl, inner⟩ | ⟨w, rfl, inner⟩ := List.append_eq_append_iff.mp split
  · cases w with
    | nil =>
        obtain ⟨rfl, -⟩ := List.cons.inj (inner.trans (List.nil_append _))
        exact absurd (by decide) other
    | cons b w =>
        obtain ⟨rfl, more⟩ := List.cons.inj (show a :: rest = b :: (w ++ (instanceDot ++ z)) from inner)
        have behind := back w z more
        cases w with
        | nil => simpa using behind
        | cons b w =>
            rw [getLast?_append_visible (List.cons_ne_nil _ _), ← List.singleton_append,
              getLast?_append_visible (List.cons_ne_nil b w)]
            obtain ⟨last, same⟩ := Option.isSome_iff_exists.mp (List.getLast?_isSome.mpr (List.cons_ne_nil b w))
            rw [same] at behind ⊢
            exact behind
  · obtain ⟨u, rfl, -⟩ | ⟨u, same, inner⟩ := List.append_eq_append_iff.mp inner
    · exact front y u rfl
    · cases u with
      | nil => exact front y [] (by rw [same, List.append_nil, List.append_nil])
      | cons b u =>
          obtain ⟨rfl, -⟩ := List.cons.inj inner
          exact absurd (by rw [same]; simp) other

/-- An identifier is calm, and with what stands behind it as well, unless it is the keyword before a dot. -/
theorem calmFrom_identifier (identifier : IsIdentifier base) (ends : NotNext isName rest)
    (keyword : rest.head? = some '.' → base ≠ "this".toList) (calm : CalmFrom true rest) :
    CalmFrom false (base ++ rest) := by
  intro y z split
  obtain ⟨w, rfl, inner⟩ | ⟨w, rfl, inner⟩ := List.append_eq_append_iff.mp split
  · have behind := calm w z inner
    obtain ⟨last, same⟩ := Option.isSome_iff_exists.mp (List.getLast?_isSome.mpr identifier.visible)
    cases w with
    | nil =>
        rw [List.append_nil, same]
        exact identifier.word (List.mem_of_getLast? same)
    | cons b w =>
        rw [getLast?_append_visible (List.cons_ne_nil b w)]
        obtain ⟨last, same⟩ := Option.isSome_iff_exists.mp (List.getLast?_isSome.mpr (List.cons_ne_nil b w))
        rw [same] at behind ⊢
        exact behind
  · cases y with
    | nil =>
        -- the identifier itself would be the keyword
        exfalso
        have whole : w ++ rest = "this".toList ++ '.' :: z := inner.symm
        have word : ∀ a ∈ "this".toList, isName a = true := List.all_eq_true.mp (by decide)
        have read := takeWhile_append_of_notNext (List.all_eq_true.mpr fun a mem => identifier.named mem) ends
        have read' : ("this".toList ++ '.' :: z).takeWhile isName = "this".toList :=
          takeWhile_append_of_notNext (List.all_eq_true.mpr word)
            (Template.notNext_cons (by decide))
        have same : w = "this".toList := (read.symm.trans (congrArg _ whole)).trans read'
        subst same
        exact keyword (by rw [List.append_cancel_left whole]; rfl) rfl
    | cons b y =>
        obtain ⟨last, same⟩ := Option.isSome_iff_exists.mp (List.getLast?_isSome.mpr (List.cons_ne_nil b y))
        rw [same]
        exact identifier.word (List.mem_append_left w (List.mem_of_getLast? same))

/-- Only the last key of the path may be the keyword. -/
def KeywordLast (base : List Char) (keys : List (List Char)) : Prop :=
  ∀ key ∈ (base :: keys).dropLast, key ≠ "this".toList

theorem calmFrom_path (identifier : IsIdentifier base) (identifiers : ∀ key ∈ keys, IsIdentifier key)
    (last : KeywordLast base keys) (ends : NotNext isName rest) (noDot : rest.head? ≠ some '.')
    (calm : CalmFrom true rest) : CalmFrom false (base ++ (pathText keys ++ rest)) := by
  induction keys generalizing base with
  | nil => exact calmFrom_identifier identifier ends (fun dot => absurd dot noDot) calm
  | cons key keys ih =>
      obtain ⟨identifier', identifiers⟩ := List.forall_mem_cons.mp identifiers
      have inner := ih identifier' identifiers fun k mem => last k (List.mem_cons_of_mem base mem)
      rw [Script.pathText_cons, List.cons_append, List.append_assoc]
      refine calmFrom_identifier identifier (Template.notNext_cons (by decide)) (fun _ => ?_)
        (.cons (by decide) inner)
      exact last base (List.mem_cons_self ..)

theorem calm_path (identifier : IsIdentifier base) (identifiers : ∀ key ∈ keys, IsIdentifier key)
    (last : KeywordLast base keys) : Calm (base ++ pathText keys) := by
  have ends : NotNext isName [] := by simp [NotNext]
  have calm := calmFrom_path identifier identifiers last ends (by simp) (calmFrom_of_absent (by decide) true)
  rw [List.append_nil] at calm
  exact calm.calm

/-! ### Members beside the path -/

/-- Another member than the base, and no path from it. -/
structure Foreign (base : List Char) (name : String) : Prop where
  other : name.toList ≠ base
  visible : name ≠ ""
  single : ∀ c rest, name.toList = base ++ c :: rest → c ≠ '.' ∧ c ≠ ' '

/-- A text that addresses one member at its front names no other. -/
theorem silent_of_foreign (identifier : IsIdentifier base) (calm : Calm (base ++ tail))
    (parts : ∀ a ∈ tail.head?, a = '.' ∨ a = ' ') {name : String} (foreign : Foreign base name) :
    Silent (instanceDot ++ (base ++ tail)) name := by
  intro x c spans here
  obtain rfl := eq_nil_of_atInstance calm spans here.atInstance
  obtain rfl := spans.unique (.refl _)
  obtain ⟨-, rest, after, apart⟩ := here
  have split : base ++ tail = name.toList ++ rest := List.append_cancel_left after
  obtain ⟨z, same, more⟩ | ⟨z, same, more⟩ := List.append_eq_append_iff.mp split
  · -- the other name would go on where the path does
    cases z with
    | nil => exact foreign.other (by simpa using same)
    | cons a z =>
        have single := foreign.single a z same
        obtain rfl | rfl := parts a (by rw [more]; rfl)
        · exact single.1 rfl
        · exact single.2 rfl
  · -- the base would run over the end of the other name
    cases z with
    | nil => exact foreign.other (by simpa using same.symm)
    | cons a z =>
        have visible : name.toList ≠ [] := by simpa using foreign.visible
        obtain ⟨b, last⟩ := Option.isSome_iff_exists.mp (List.getLast?_isSome.mpr visible)
        have word : isWord b = true := identifier.word (by rw [same]; simp [List.mem_of_getLast? last])
        have ends := apart ⟨b, last, word⟩ a (by rw [more]; rfl)
        rw [identifier.word (by rw [same]; simp)] at ends
        cases ends

/-! ### The keys of a path -/

/-- One key or index of an access path. -/
def keyPattern : Pattern :=
  (.text "." ++ .group 1 .name) <|> (.text "[" ++ .group 2 (.many (· != ']') 1 true) ++ .text "]")

/-- A key as it can be read off a path. -/
structure IsKey (key : List Char) : Prop where
  visible : key ≠ []
  named : ∀ a ∈ key, isName a = true

theorem isKey_of_isIdentifier (identifiers : ∀ key ∈ keys, IsIdentifier key) : ∀ key ∈ keys, IsKey key :=
  fun key mem => ⟨(identifiers key mem).visible, fun _ => (identifiers key mem).named⟩

theorem keyPattern_matchAt? {key : List Char} (isKey : IsKey key) (after : c.after = '.' :: (key ++ rest))
    (ends : NotNext isName rest) :
    ∃ m, keyPattern.matchAt? c = some m ∧ m.group? 1 = some (String.ofList key) ∧ c.Spans ('.' :: key) m.rest := by
  have dot : c.Spans ['.'] c.next := Cursor.spans_next after
  have behind : c.next.after = key ++ rest := dot.remaining after
  have whole : c.next.after.takeWhile isName = key := by
    rw [behind]
    exact takeWhile_append_of_notNext (List.all_eq_true.mpr isKey.named) ends
  have name := Cursor.spans_while isName c.next
  have taken : c.next.after.take ((c.next.advance (c.next.after.takeWhile isName).length).offset - c.next.offset) =
      key := by
    rw [name.offset, Nat.add_sub_cancel_left, whole, behind, List.take_left]
  have enough : 1 ≤ (c.next.after.takeWhile isName).length := by
    rw [whole]
    exact List.length_pos_iff.mpr isKey.visible
  have longest := Pattern.runMany_longest (g := []) name enough
    (k := fun d g => some (d, (1, c.next.after.take (d.offset - c.next.offset)) :: g)) rfl
  rw [taken, whole] at longest
  have first : (Pattern.text "." ++ .group 1 .name).run c [] (fun c g => some (c, g)) =
      some (c.next.advance key.length, [(1, key)]) := by
    change (Pattern.one (· == '.')).run c [] (fun c g => (Pattern.group 1 .name).run c g fun c g => some (c, g)) = _
    simp only [Pattern.run, after, beq_self_eq_true, if_true, Pattern.name]
    rw [longest]
  have ran : keyPattern.run c [] (fun c g => some (c, g)) = some (c.next.advance key.length, [(1, key)]) := by
    change (Pattern.alt _ _).run c [] _ = _
    rw [Pattern.run, first]
  obtain ⟨m, found, groups, here⟩ := Pattern.matchAt?_of_run ran
  refine ⟨m, found, by simp [Match.group?, groups], ?_⟩
  rw [whole] at name
  rw [here]
  exact dot.trans name

/-- The key or the index that was matched. -/
def keyOf (m : Match) : String ⊕ String :=
  match m.group? 1 with
  | some key => .inl key
  | none => .inr (m.group 2)

theorem accessKeys_eq (path : String) : accessKeys path = (keyPattern.findAll path).map keyOf := rfl

theorem matchesWithin_path (isKeys : ∀ key ∈ keys, IsKey key) (after : c.after = pathText keys) {n : Nat}
    (enough : c.after.length < n) :
    (keyPattern.matchesWithin n c).map keyOf = keys.map (.inl ∘ String.ofList) := by
  obtain ⟨n, rfl⟩ := Nat.exists_eq_succ_of_ne_zero (Nat.ne_of_gt (Nat.zero_lt_of_lt enough))
  induction keys generalizing c n with
  | nil =>
      have unmatched : keyPattern.searchAt? c = none := by
        obtain ⟨before, _, offset⟩ := c
        subst after
        rfl
      rw [Pattern.matchesWithin_unmatched unmatched]
      rfl
  | cons key keys ih =>
      obtain ⟨isKey, isKeys⟩ := List.forall_mem_cons.mp isKeys
      have ends : NotNext isName (pathText keys ++ []) :=
        Script.pathText_ends _ (by decide) (by simp [NotNext])
      rw [List.append_nil] at ends
      obtain ⟨m, found, group, toward⟩ := keyPattern_matchAt? isKey after ends
      have taken := (Pattern.matchAt?_eq_some found).2.1
      have visible : m.chars ≠ [] := by
        rw [List.append_cancel_right (taken.after.symm.trans toward.after)]
        exact List.cons_ne_nil _ _
      have shorter := toward.shorter (List.cons_ne_nil _ _)
      obtain ⟨n, rfl⟩ := Nat.exists_eq_succ_of_ne_zero (show n ≠ 0 by omega)
      have others := ih isKeys (toward.remaining after) n (by omega)
      rw [Pattern.matchesWithin_matched found visible, List.map_cons, others, keyOf, group]
      rfl

theorem accessKeys_path (isKeys : ∀ key ∈ keys, IsKey key) :
    accessKeys (String.ofList (pathText keys)) = keys.map (.inl ∘ String.ofList) := by
  rw [accessKeys_eq, Pattern.findAll, String.toList_ofList]
  exact matchesWithin_path isKeys rfl (Nat.lt_succ_self _)

/-! ### The member at the front -/

theorem isBlank_of_isPath {a : Char} (path : isPath a = true) : isBlank a = false := by
  rw [isPath, Bool.or_eq_true, beq_iff_eq] at path
  obtain name | rfl := path
  · exact Pattern.not_isBlank_of_isName name
  · decide

/-- Addressed through the keyword at the front, the base is the member that is found there. -/
theorem memberAccess_front (identifier : IsIdentifier base) (ends : NotNext isName tail) :
    ∃ m, memberAccess.matchAt? (.start (instanceDot ++ (base ++ tail))) = some m ∧
      MemberAt (.start (instanceDot ++ (base ++ tail))) m [] [] base ∧ m.rest.after = tail := by
  obtain ⟨a, base', same, starts⟩ := identifier.cons
  have letter : isName a = true := identifier.named (by rw [same]; exact List.mem_cons_self)
  have after : (Cursor.start (instanceDot ++ (base ++ tail))).after = instanceDot ++ a :: (base' ++ tail) := by
    rw [same]
    rfl
  have bound : atBoundary (.start (instanceDot ++ (base ++ tail))) = true :=
    atBoundary_of_keyword (by simp [NotNext, Cursor.start]) after
  obtain ⟨m, found⟩ := Option.isSome_iff_exists.mp
    (@memberAccess_isSome _ _ [] [] _ _ (.refl _) (.inl rfl) (by simp) bound after letter)
  obtain ⟨step, blanks, name, member⟩ := memberAccess_matchAt found
  have split : instanceDot ++ (base ++ tail) = step ++ (blanks ++ (instanceDot ++ (name ++ m.rest.after))) := by
    have := member.spans.after
    rw [member.chars] at this
    simpa [Cursor.start] using this
  -- neither a step nor white space starts like the keyword
  obtain rfl : step = [] := by
    obtain ⟨rfl, -⟩ | ⟨sign, -⟩ := member.stepped
    · rfl
    · obtain rfl | rfl := eq_of_mem_stepSigns sign <;> cases (List.cons.inj split).1
  obtain rfl : blanks = [] := by
    cases blanks with
    | nil => rfl
    | cons b blanks =>
        obtain rfl := (List.cons.inj split).1
        exact absurd (member.blank _ List.mem_cons_self) (by decide)
  have whole : base ++ tail = name ++ m.rest.after := List.append_cancel_left split
  have read := takeWhile_append_of_notNext (List.all_eq_true.mpr fun a mem => identifier.named mem) ends
  rw [whole, takeWhile_append_of_notNext (List.all_eq_true.mpr member.letters) member.whole] at read
  subst read
  exact ⟨m, found, member, (List.append_cancel_left whole).symm⟩

/-- The pieces of a text that addresses one member at its front. -/
theorem statePieces_front {state : Table String} (identifier : IsIdentifier base) (ends : NotNext isName tail) :
    ∃ m n, MemberAt (.start (instanceDot ++ (base ++ tail))) m [] [] base ∧ m.rest.after = tail ∧
      statePieces state (String.ofList (instanceDot ++ (base ++ tail))) =
        match writeOf? state m with
        | none => .kept m.chars :: piecesWithin state n m.rest
        | some (front, replacement, after) =>
            .kept front :: .call (m.chars.drop front.length ++ tail.take (tail.length - after.length)) replacement ::
              piecesWithin state n
                (writeAt (.start (instanceDot ++ (base ++ tail))) (front ++ replacement) after) := by
  obtain ⟨m, found, member, rest⟩ := memberAccess_front identifier ends
  refine ⟨m, (instanceDot ++ (base ++ tail)).length, member, rest, ?_⟩
  have here := startOf_eq (Cursor.Spans.refl (.start (instanceDot ++ (base ++ tail)))) member.start
  have gap := gap_eq (Cursor.Spans.refl (.start (instanceDot ++ (base ++ tail)))) member.start
  rw [statePieces, String.toList_ofList, piecesWithin, Pattern.searchAt?_of_matchAt? found]
  cases written : writeOf? state m <;> simp only [written, gap, here, rest, List.nil_append]

theorem piecesWithin_unmatched {state : Table String} (unmatched : memberAccess.searchAt? c = none) (n : Nat) :
    piecesWithin state n c = [.kept c.after] := by
  cases n with
  | zero => rfl
  | succ n => rw [piecesWithin, unmatched]

/-- A text that a member may not be written in: it has neither steps nor calls. -/
structure Stepless (cs : List Char) : Prop where
  plus : '+' ∉ cs
  minus : '-' ∉ cs
  call : '(' ∉ cs

theorem Stepless.trailingStep (stepless : Stepless c.after) : trailingStep.matchAt? c = none := by
  cases found : Recast.trailingStep.matchAt? c with
  | none => rfl
  | some m =>
      obtain ⟨e, i, ⟨⟨x, blanks, -⟩, -⟩, i', second, -⟩ := (Pattern.matchAt?_eq_some found).1
      obtain ⟨⟨sign, mem, spans⟩, -⟩ := Pattern.oneOf_takes.mp second
      have after : c.after = x ++ (sign.toList ++ m.rest.after) := by rw [blanks.after, spans.after]
      simp only [List.mem_cons, List.not_mem_nil, or_false] at mem
      obtain rfl | rfl := mem
      · exact absurd (by rw [after]; simp) stepless.plus
      · exact absurd (by rw [after]; simp) stepless.minus

theorem Stepless.arrayCall (stepless : Stepless c.after) : arrayCall? c = none := by
  cases found : arrayCall? c with
  | none => rfl
  | some m =>
      obtain ⟨m', matched, -⟩ := Option.bind_eq_some_iff.mp found
      obtain ⟨method, spans, -⟩ := methodCall_matchAt matched
      exact absurd (by rw [spans.after]; simp) stepless.call

theorem Stepless.update? (stepless : Stepless c.after) (setter name : String) :
    update? setter name c =
      (assignment.matchAt? c).map fun m => assignUpdate setter name (m.group 1) (m.group 2) m.rest := by
  rw [Recast.update?, stepless.trailingStep, stepless.arrayCall]

theorem assignment_matchAt?_eq_none (absent : '=' ∉ c.after) : assignment.matchAt? c = none := by
  cases found : assignment.matchAt? c with
  | none => rfl
  | some m =>
      obtain ⟨steps, blanks, sign, spans, -, -, operator, -⟩ := assignment_matchAt found
      have equals : ∀ s ∈ Script.assignmentOperators, '=' ∈ s.toList := by decide
      exact absurd (by rw [spans.after]; simp [equals sign operator]) absent

/-! ### Reading -/

theorem pathText_letters (identifiers : ∀ key ∈ keys, IsIdentifier key) {a : Char} (mem : a ∈ pathText keys) :
    isIdentifierChar a = true ∨ a = '.' := by
  obtain ⟨key, known, mem⟩ := List.mem_flatMap.mp mem
  obtain rfl | mem := List.mem_cons.mp mem
  · exact .inr rfl
  · exact .inl ((identifiers key known).letter mem)

theorem notMem_pathText (identifiers : ∀ key ∈ keys, IsIdentifier key) {a : Char} (other : isIdentifierChar a = false)
    (noDot : a ≠ '.') : a ∉ pathText keys := by
  intro mem
  obtain letter | rfl := pathText_letters identifiers mem
  · rw [letter] at other
    cases other
  · exact noDot rfl

theorem pathText_notNext (keys : List (List Char)) (p : Char → Bool) (dot : p '.' = false) :
    NotNext p (pathText keys) := by
  have := Script.pathText_ends keys dot (show NotNext p [] by simp [NotNext])
  rwa [List.append_nil] at this

/-- A path of state that is read is copied. -/
theorem recastState_read (state : Table String) (props : List String) (identifier : IsIdentifier base)
    (identifiers : ∀ key ∈ keys, IsIdentifier key) (last : KeywordLast base keys) :
    Gives (· = String.ofList (instanceDot ++ (base ++ pathText keys)))
      (recastState state props (String.ofList (instanceDot ++ (base ++ pathText keys)))) := by
  intro notes
  have calm := calm_path identifier identifiers last
  obtain ⟨m, n, member, rest, pieces⟩ := @statePieces_front base _ state identifier
    (pathText_notNext keys isName (by decide))
  have stepless : Stepless m.rest.after := by
    rw [rest]
    exact ⟨notMem_pathText identifiers (by decide) (by decide), notMem_pathText identifiers (by decide) (by decide),
      notMem_pathText identifiers (by decide) (by decide)⟩
  have unassigned : '=' ∉ m.rest.after := by
    rw [rest]
    exact notMem_pathText identifiers (by decide) (by decide)
  have reads : writeOf? state m = none := by
    obtain ⟨-, unstepped⟩ | ⟨sign, -⟩ := member.stepped
    · rw [writeOf?, unstepped]
      simp [stepless.update?, assignment_matchAt?_eq_none unassigned]
    · exact absurd sign (by decide)
  have unaddressed : memberAccess.searchAt? m.rest = none := by
    cases search : memberAccess.searchAt? m.rest with
    | none => rfl
    | some m' =>
        obtain ⟨x, d, spans, found, -⟩ := Pattern.searchAt?_eq_some search
        obtain ⟨step, blanks, name, member'⟩ := memberAccess_matchAt found
        have after : d.after = (step ++ blanks) ++ (instanceDot ++ (name ++ m'.rest.after)) := by
          rw [member'.spans.after, member'.chars]
          simp
        have toward := Cursor.spans_advance after
        have here : AtInstance (d.advance (step ++ blanks).length) :=
          ⟨member'.bound _ toward, _, (toward.remaining after).symm⟩
        have none := eq_nil_of_atInstance calm (member.spans.trans (spans.trans toward)) here
        rw [member.chars] at none
        cases none
  rw [reads, piecesWithin_unmatched unaddressed] at pieces
  have whole := recastState_toList state props (String.ofList (instanceDot ++ (base ++ pathText keys))) notes
  rw [pieces, joined_kept, joined_kept, member.chars, rest] at whole
  apply String.toList_inj.mp
  rw [whole]
  simp [joined]

/-! ### Writing -/

/-- What can be assigned: a path of its own, without the keyword. -/
structure IsValue (value : List Char) : Prop where
  letters : ∀ a ∈ value, isIdentifierChar a = true ∨ a = '.'
  visible : value ≠ []
  calm : ¬ instanceDot <:+: value

theorem isPath_of_letter {a : Char} (letter : isIdentifierChar a = true ∨ a = '.') : isPath a = true := by
  obtain letter | rfl := letter
  · rw [isPath, isName, (Script.isIdentifierChar_ascii letter).2.1, Bool.true_or, Bool.true_or]
  · decide

theorem IsValue.notMem {value : List Char} (h : IsValue value) {a : Char} (other : isPath a = false) : a ∉ value := by
  intro mem
  rw [isPath_of_letter (h.letters a mem)] at other
  cases other

/-- What stands behind the base of an assignment. -/
def assignmentTail (keys : List (List Char)) (value : List Char) : List Char :=
  pathText keys ++ (" = ".toList ++ value)

theorem notMem_assignmentTail (identifiers : ∀ key ∈ keys, IsIdentifier key) {value : List Char}
    (plain : IsValue value) {a : Char} (other : isPath a = false) (mark : a ∉ [' ', '=']) : a ∉ assignmentTail keys value := by
  intro mem
  obtain mem | mem := List.mem_append.mp mem
  · rw [isPath_of_letter (pathText_letters identifiers mem)] at other
    cases other
  · obtain mem | mem := List.mem_append.mp mem
    · exact mark ((by decide : " = ".toList ⊆ [' ', '=']) mem)
    · exact plain.notMem other mem

/-- An access without an index is a stretch of a path. -/
theorem IsAccess.isPath {x : List Char} (access : IsAccess x) (unindexed : '[' ∉ x) {a : Char} (mem : a ∈ x) :
    Pattern.isPath a = true := by
  cases access with
  | key _ letters =>
      obtain rfl | mem := List.mem_cons.mp mem
      · decide
      · rw [Pattern.isPath, letters a mem, Bool.true_or]
  | index => exact absurd List.mem_cons_self unindexed

/-- The sign and the path of an assignment are read off. -/
theorem assignment_path (identifiers : ∀ key ∈ keys, IsIdentifier key) {value : List Char} (plain : IsValue value)
    (after : c.after = assignmentTail keys value) :
    ∃ m, assignment.matchAt? c = some m ∧ m.group 1 = String.ofList (pathText keys) ∧ m.group 2 = "=" ∧
      m.rest.after = ' ' :: value := by
  have split : c.after = (keys.map ('.' :: ·)).flatten ++ ([' '] ++ ("=".toList ++ (' ' :: value))) := by
    rw [after, ← List.flatMap_def]
    rfl
  have accesses : ∀ x ∈ keys.map ('.' :: ·), IsAccess x := by
    intro x mem
    obtain ⟨key, known, rfl⟩ := List.mem_map.mp mem
    exact .key (identifiers key known).visible fun a => (identifiers key known).named
  have alone : NotNext (· == '=') (' ' :: value) := by simp [NotNext]
  obtain ⟨m, found⟩ := Option.isSome_iff_exists.mp
    (assignment_isSome split accesses (by simp [isBlank]) (by decide) alone)
  obtain ⟨steps, blanks, sign, spans, accesses', blank, operator, -, first, second⟩ := assignment_matchAt found
  have whole : pathText keys ++ (' ' :: '=' :: ' ' :: value) =
      steps.flatten ++ (blanks ++ (sign.toList ++ m.rest.after)) := by
    have := spans.after
    rw [after] at this
    simpa [assignmentTail] using this
  have starts : ∀ s ∈ Script.assignmentOperators, s.toList.head?.any (fun a => !isPath a && !isBlank a) = true ∧
      (s.toList.head? = some '=' → s = "=") := by decide
  obtain ⟨starts, lone⟩ := starts sign operator
  obtain ⟨a, more, same⟩ : ∃ a more, sign.toList = a :: more := by
    cases same : sign.toList with
    | nil => simp [same] at starts
    | cons a more => exact ⟨a, more, rfl⟩
  simp only [same, List.head?_cons, Option.any_some, Bool.and_eq_true, Bool.not_eq_true'] at starts
  have path : steps.flatten = pathText keys := by
    have letters : steps.flatten.all isPath = true := by
      refine List.all_eq_true.mpr fun b mem => ?_
      obtain ⟨x, known, mem⟩ := List.mem_flatten.mp mem
      refine (accesses' x known).isPath (fun index => ?_) mem
      refine notMem_assignmentTail identifiers plain (by decide : isPath '[' = false) (by decide) ?_
      rw [← after, spans.after]
      exact List.mem_append_left _ (List.mem_append_left _ (List.mem_flatten.mpr ⟨x, known, index⟩))
    have ends : NotNext isPath (blanks ++ (sign.toList ++ m.rest.after)) := by
      cases blanks with
      | nil => simpa [NotNext, same] using starts.1
      | cons b blanks =>
          intro b' first
          obtain rfl := Option.some.inj first
          refine Bool.eq_false_iff.mpr fun path => ?_
          have visible := isBlank_of_isPath path
          rw [blank b List.mem_cons_self] at visible
          cases visible
    have read := takeWhile_append_of_notNext letters ends
    rw [← whole, takeWhile_append_of_notNext (List.all_eq_true.mpr fun b mem =>
      isPath_of_letter (pathText_letters identifiers mem))
      (Template.notNext_cons (by decide))] at read
    exact read.symm
  rw [path] at whole
  have rest := List.append_cancel_left whole
  obtain rfl : blanks = [' '] := by
    have read := takeWhile_append_of_notNext (List.all_eq_true.mpr blank)
      (show NotNext isBlank (sign.toList ++ m.rest.after) by simpa [NotNext, same] using starts.2)
    rw [← rest] at read
    exact read.symm.trans (by simp [isBlank])
  have value' : '=' :: ' ' :: value = sign.toList ++ m.rest.after := (List.cons.inj rest).2
  obtain rfl : sign = "=" := lone (by rw [same] at value' ⊢; rw [(List.cons.inj value').1]; rfl)
  exact ⟨m, found, by rw [first, path], second, (List.cons.inj value').2.symm⟩

theorem expressionEndFrom_plain {x : List Char} (letters : ∀ a ∈ x, isPath a = true) (before : List Char) (index : Nat) :
    Script.expressionEndFrom none 0 before index x = index + x.length := by
  induction x generalizing before index with
  | nil => rfl
  | cons a x ih =>
      obtain ⟨letter, letters⟩ := List.forall_mem_cons.mp letters
      have other (b : Char) (mark : isPath b = false) : (a == b) = false := by
        rw [beq_eq_false_iff_ne]
        rintro rfl
        rw [letter] at mark
        cases mark
      have opener : Script.isOpener a = false := by
        unfold Script.isOpener Script.closer?
        split
        · exact absurd (other '(' (by decide)) (by simp)
        · exact absurd (other '[' (by decide)) (by simp)
        · exact absurd (other '\x7b' (by decide)) (by simp)
        · rfl
      have plain : Script.isQuote a = false ∧ Script.isOpener a = false ∧ Script.isCloser a = false := by
        refine ⟨?_, opener, ?_⟩
        · simp [Script.isQuote, other '\'' (by decide), other '"' (by decide), other '\x60' (by decide)]
        · simp [Script.isCloser, other ')' (by decide), other ']' (by decide), other '\x7d' (by decide)]
      rw [Script.expressionEndFrom, plain.1, plain.2.1, plain.2.2, other ';' (by decide), other ',' (by decide),
        other '\n' (by decide)]
      simp only [Bool.false_eq_true, if_false, Bool.or_self, Bool.and_false, Bool.false_and]
      rw [ih letters, List.length_cons, Nat.add_right_comm, Nat.add_assoc]

theorem trimmed_of_isPath (letters : ∀ a ∈ x, isPath a = true) : Template.Trimmed x :=
  ⟨fun a first => isBlank_of_isPath (letters a (List.mem_of_head? first)),
    fun a last => isBlank_of_isPath (letters a (List.mem_reverse.mp (List.mem_of_head? last)))⟩

/-- The setter call that an assignment becomes. -/
def setterCall (setter : String) (base : List Char) (keys : List (List Char)) (value : List Char) : String :=
  setter ++ "(" ++ spreadInto (String.ofList base) (keys.map String.ofList) (String.ofList value) ++ ")"

/-- A path without an index is updated by spreads. -/
theorem spreadUpdate_path (isKeys : ∀ key ∈ keys, IsKey key) (name value : String) :
    spreadUpdate name (String.ofList (pathText keys)) value = spreadInto name (keys.map String.ofList) value := by
  have unindexed : (keys.map ((.inl : String → String ⊕ String) ∘ String.ofList)).any (·.isRight) = false := by
    simp
  have names : (keys.map ((.inl : String → String ⊕ String) ∘ String.ofList)).filterMap (·.getLeft?) =
      keys.map String.ofList := by
    simp [List.filterMap_map, Function.comp_def]
  rw [spreadUpdate, accessKeys_path isKeys]
  simp only [unindexed, names, Bool.false_eq_true, if_false]

theorem spreadUpdate_written (isKeys : ∀ key ∈ keys, IsKey key) (name value : String) :
    (if String.ofList (pathText keys) == "" then value else spreadUpdate name (String.ofList (pathText keys)) value) =
      spreadInto name (keys.map String.ofList) value := by
  rw [spreadUpdate_path isKeys]
  cases keys with
  | nil => rfl
  | cons key keys =>
      have visible : (String.ofList (pathText (key :: keys)) == "") = false := by
        rw [beq_eq_false_iff_ne]
        intro same
        simpa [Script.pathText_cons] using congrArg String.toList same
      rw [visible]
      rfl

theorem assignUpdate_path (identifiers : ∀ key ∈ keys, IsIdentifier key) {value : List Char} (plain : IsValue value)
    (after : c.after = ' ' :: value) (setter : String) :
    assignUpdate setter (String.ofList base) (String.ofList (pathText keys)) "=" c =
      ((setterCall setter base keys value).toList, []) := by
  have letters : ∀ a ∈ value, isPath a = true := fun a mem => isPath_of_letter (plain.letters a mem)
  have indent : c.after.takeWhile isIndent = [' '] := by
    have ends : NotNext isIndent value := by
      intro a first
      refine Bool.eq_false_iff.mpr fun indent => ?_
      have visible := letters a (List.mem_of_head? first)
      rw [isIndent, Bool.or_eq_true, beq_iff_eq, beq_iff_eq] at indent
      obtain rfl | rfl := indent <;> exact absurd visible (by decide)
    rw [after]
    exact takeWhile_append_of_notNext (show [' '].all isIndent = true by decide) ends
  have behind : (c.advance 1).after = value := (Cursor.spans_advance (x := [' ']) after).remaining after
  have trimmed : trim (String.ofList value) = String.ofList value := by
    rw [trim, String.toList_ofList, (trimmed_of_isPath letters).strip]
  unfold assignUpdate
  simp only [indent, List.length_singleton, behind, expressionEndFrom_plain letters, Nat.add_sub_cancel_left,
    List.take_length, List.drop_length, trimmed, beq_self_eq_true, if_true,
    spreadUpdate_written (isKey_of_isIdentifier identifiers)]
  rfl

/-- The assignment of a value to a path of state becomes a call of the setter. -/
theorem recastState_write {state : Table String} (props : List String) {setter : String}
    (cell : state.get? (String.ofList base) = some setter) (identifier : IsIdentifier base)
    (identifiers : ∀ key ∈ keys, IsIdentifier key) {value : List Char} (plain : IsValue value) :
    Gives (· = setterCall setter base keys value)
      (recastState state props (String.ofList (instanceDot ++ (base ++ assignmentTail keys value)))) := by
  intro notes
  have ends : NotNext isName (assignmentTail keys value) :=
    Script.pathText_ends _ (by decide) (Template.notNext_cons (by decide))
  obtain ⟨m, n, member, rest, pieces⟩ := @statePieces_front base _ state identifier ends
  have stepless : Stepless m.rest.after := by
    rw [rest]
    exact ⟨notMem_assignmentTail identifiers plain (by decide) (by decide),
      notMem_assignmentTail identifiers plain (by decide) (by decide),
      notMem_assignmentTail identifiers plain (by decide) (by decide)⟩
  obtain ⟨m', found, path, sign, behind⟩ := assignment_path identifiers plain rest
  have writes : writeOf? state m = some ([], (setterCall setter base keys value).toList, []) := by
    obtain ⟨-, unstepped⟩ | ⟨signed, -⟩ := member.stepped
    · have kept : keptBefore m = [] := by
        have dotted : instanceDot.length = "this.".length := by decide
        rw [keptBefore, member.chars, member.member]
        simp [dotted]
      rw [writeOf?, unstepped, member.member, cell, kept]
      simp only [Option.bind_some, stepless.update?, found, Option.map_some, path, sign,
        assignUpdate_path identifiers plain behind]
    · exact absurd signed (by decide)
  rw [writes] at pieces
  have whole := recastState_toList state props (String.ofList (instanceDot ++ (base ++ assignmentTail keys value))) notes
  have done : piecesWithin state n (writeAt (.start (instanceDot ++ (base ++ assignmentTail keys value)))
      ([] ++ (setterCall setter base keys value).toList) []) = [.kept []] := by
    refine piecesWithin_unmatched (Demands.unmatched (a := '.') ?_ (by simp [writeAt])) n
    exact ((demands_text (by decide)).behind _).before _
  rw [pieces] at whole
  dsimp only at whole
  rw [done] at whole
  apply String.toList_inj.mp
  rw [whole]
  simp [joined, Piece.chars]

/-! ### The setter call is calm -/

theorem calmFrom_name {name : List Char} (identifier : IsIdentifier name) (word : Bool) : CalmFrom word name := by
  refine calmFrom_of_absent (fun within => ?_) word
  exact identifier.notMem (by decide : isIdentifierChar '.' = false) (within.subset (by decide))

/-- The front of a path is as calm as the path. -/
theorem KeywordLast.front {front : List (List Char)} (last : KeywordLast base (front ++ keys)) (more : keys ≠ []) :
    ∀ key ∈ base :: front, key ≠ "this".toList := by
  obtain ⟨keys, key, rfl⟩ := List.eq_nil_or_concat keys |>.resolve_left more
  intro k mem
  refine last k ?_
  rw [List.concat_eq_append, ← List.append_assoc, ← List.cons_append, List.dropLast_concat]
  exact List.mem_append_left keys mem

theorem spreadInto_cons (path key value : String) (keys : List String) :
    (spreadInto path (key :: keys) value).toList =
      '\x7b' :: ([] ++ ' ' :: ('.' :: '.' :: '.' :: path.toList ++ ',' :: ([] ++ ' ' :: (key.toList ++ ':' :: ([] ++ ' ' ::
        ((spreadInto (path ++ "." ++ key) keys value).toList ++ ' ' :: ['\x7d'])))))) := by
  simp [spreadInto]

theorem notMem_spreadInto {a : Char} (mark : a ∉ "\x7b ., :\x7d".toList) {path value : String} {keys : List String}
    (inPath : a ∉ path.toList) (inKeys : ∀ key ∈ keys, a ∉ key.toList) (inValue : a ∉ value.toList) :
    a ∉ (spreadInto path keys value).toList := by
  induction keys generalizing path with
  | nil => exact inValue
  | cons key keys ih =>
      obtain ⟨inKey, inKeys⟩ := List.forall_mem_cons.mp inKeys
      have marks : a ≠ '\x7b' ∧ a ≠ ' ' ∧ a ≠ '.' ∧ a ≠ ',' ∧ a ≠ ':' ∧ a ≠ '\x7d' := by
        refine ⟨?_, ?_, ?_, ?_, ?_, ?_⟩ <;> rintro rfl <;> exact mark (by decide)
      have inner := @ih (path ++ "." ++ key) (by simp [inPath, inKey, marks]) inKeys
      simp [spreadInto_cons, marks, inPath, inKey, inner]

theorem calmFrom_spreadInto {front : List (List Char)} (identifier : IsIdentifier base)
    (identifiers : ∀ key ∈ front ++ keys, IsIdentifier key) (last : KeywordLast base (front ++ keys))
    {value : List Char} (plain : IsValue value) :
    CalmFrom false (spreadInto (String.ofList (base ++ pathText front)) (keys.map String.ofList)
      (String.ofList value)).toList := by
  induction keys generalizing front with
  | nil => simpa [spreadInto] using calmFrom_of_absent plain.calm false
  | cons key keys ih =>
      have inner := @ih (front ++ [key]) (by simpa using identifiers) (by simpa using last)
      have path : CalmFrom false (base ++ pathText front) := by
        refine (calm_path identifier (fun k mem => identifiers k (List.mem_append_left _ mem)) fun k mem => ?_).from
        exact last.front (List.cons_ne_nil key keys) k (List.dropLast_subset _ mem)
      have name : CalmFrom false key := calmFrom_name (identifiers key (by simp)) false
      have step : String.ofList (base ++ pathText front) ++ "." ++ String.ofList key =
          String.ofList (base ++ pathText (front ++ [key])) := by
        apply String.toList_inj.mp
        simp [pathText]
      rw [List.map_cons, spreadInto_cons, step, String.toList_ofList, String.toList_ofList]
      have empty : CalmFrom false [] := calmFrom_of_absent (by decide) false
      have closing := inner.mark (by decide : ' ' ∉ instanceDot)
        (calmFrom_of_absent (by decide : ¬ instanceDot <:+: ['\x7d']) _)
      have named := name.mark (by decide : ':' ∉ instanceDot) (empty.mark (by decide : ' ' ∉ instanceDot) closing)
      have spread : CalmFrom false ('.' :: '.' :: '.' :: (base ++ pathText front)) :=
        .cons (by decide) (.cons (by decide) (.cons (by decide) path))
      exact .cons (by decide) (empty.mark (by decide : ' ' ∉ instanceDot)
        (spread.mark (by decide : ',' ∉ instanceDot) (empty.mark (by decide : ' ' ∉ instanceDot) named)))

theorem setterCall_toList (setter : String) (base : List Char) (keys : List (List Char)) (value : List Char) :
    (setterCall setter base keys value).toList = setter.toList ++ '(' ::
      ((spreadInto (String.ofList base) (keys.map String.ofList) (String.ofList value)).toList ++ [')']) := by
  simp [setterCall]

theorem calm_setterCall {setter : String} (named : IsIdentifier setter.toList) (identifier : IsIdentifier base)
    (identifiers : ∀ key ∈ keys, IsIdentifier key) (last : KeywordLast base keys) {value : List Char}
    (plain : IsValue value) : Calm (setterCall setter base keys value).toList := by
  have spread := @calmFrom_spreadInto base keys [] identifier identifiers last value plain
  rw [pathText, List.flatMap_nil, List.append_nil] at spread
  have inside := spread.mark (by decide : ')' ∉ instanceDot) (calmFrom_of_absent (by decide : ¬ instanceDot <:+: []) _)
  have whole := (calmFrom_name named false).mark (by decide : '(' ∉ instanceDot) inside
  rw [setterCall_toList]
  exact whole.calm

/-! ### What is done at the end -/

/-- One line without white space at its ends. -/
structure SingleLine (s : String) : Prop where
  unbroken : '\n' ∉ s.toList
  trimmed : Template.Trimmed s.toList
  visible : s.toList ≠ []

theorem singleLine_of_isPath (letters : ∀ a ∈ x, isPath a = true) (visible : x ≠ []) :
    SingleLine (String.ofList x) := by
  refine ⟨?_, ?_, ?_⟩ <;> rw [String.toList_ofList]
  · exact fun feed => absurd (letters _ feed) (by decide)
  · exact trimmed_of_isPath letters
  · exact visible

theorem SingleLine.lines {s : String} (h : SingleLine s) :
    trimNewlines (unlines (dropBlankRuns false (splitAt '\n' s))) = s := by
  obtain ⟨a, rest, whole⟩ := List.exists_cons_of_ne_nil h.visible
  have shown : isBlankText s = false := by
    have first := h.trimmed.front a (by rw [whole]; rfl)
    rw [isBlankText, whole, List.all_cons, first, Bool.false_and]
  have ends : trimEnd s = s := by
    rw [trimEnd, dropTrailing, dropWhile_of_notNext h.trimmed.back, List.reverse_reverse, String.ofList_toList]
  have feeds : stripWith (· == '\n') s.toList = s.toList := by
    have other : ∀ a ∈ s.toList, (a == '\n') = false := by
      intro a mem
      rw [beq_eq_false_iff_ne]
      rintro rfl
      exact h.unbroken mem
    rw [stripWith, dropWhile_of_notNext fun a first => other a (List.mem_of_mem_head? first), dropTrailing,
      dropWhile_of_notNext fun a first => other a (List.mem_reverse.mp (List.mem_of_mem_head? first)),
      List.reverse_reverse]
  rw [splitAt_single h.unbroken, dropBlankRuns, shown, ends]
  simp [dropBlankRuns, unlines, trimNewlines, feeds]

/-- The keyword in front of a name, which is left out at the end. -/
def leftInstance : Pattern :=
  .boundary ++ .text "this." ++ .ahead true (.one isName)

theorem leftInstance_takes {d : Cursor} {g h : Pattern.Captures} (taken : leftInstance.Takes c g d h) :
    AtInstance c ∧ c.Spans instanceDot d := by
  obtain ⟨e, i, ⟨f, j, ⟨rfl, rfl, bound⟩, text⟩, ⟨rfl, -⟩⟩ := taken
  have spans := (Pattern.text_takes.mp text).1
  exact ⟨⟨bound, _, spans.after.symm⟩, spans⟩

theorem finished_calm {text : String} (calm : Calm text.toList) (unbound : ¬ ".bind(this)".toList <:+: text.toList)
    (line : SingleLine text) : finished text = text := by
  have left : leftInstance.replace "" text = text := by
    have names : Names leftInstance "" := fun c g d h taken =>
      ⟨(leftInstance_takes taken).1.1, d.after, (leftInstance_takes taken).2.after, by simp⟩
    exact names.replace_idle (silent_of_calm calm "") ""
  rw [finished_eq, beforeLines, replaceAll_idle unbound (by decide)]
  exact (congrArg _ (congrArg unlines (congrArg _ (congrArg _ left)))).trans line.lines

theorem leftInstance_visible {m : Match} (found : leftInstance.matchAt? c = some m) : m.chars ≠ [] := by
  obtain ⟨taken, spans, -⟩ := Pattern.matchAt?_eq_some found
  rw [spans_chars spans (leftInstance_takes taken).2]
  exact List.cons_ne_nil _ _

/-- The keyword at the front is left out. -/
theorem leftInstance_front (calm : Calm rest) (starts : ∃ a ∈ rest.head?, isName a = true) :
    leftInstance.replace "" (String.ofList (instanceDot ++ rest)) = String.ofList rest := by
  obtain ⟨a, first, letter⟩ := starts
  obtain ⟨rest', rfl⟩ := List.head?_eq_some_iff.mp first
  obtain ⟨d, toward, behind⟩ : ∃ d, (Cursor.start (instanceDot ++ a :: rest')).Spans instanceDot d ∧
      d.after = a :: rest' :=
    have toward := Cursor.spans_advance (c := .start (instanceDot ++ a :: rest')) rfl
    ⟨_, toward, toward.remaining rfl⟩
  obtain ⟨m, found⟩ : ∃ m, leftInstance.matchAt? (.start (instanceDot ++ a :: rest')) = some m := by
    refine Option.isSome_iff_exists.mp (Pattern.matchAt?_isSome (by simp [leftInstance, Pattern.Steady]) ?_)
    have bound : atBoundary (.start (instanceDot ++ a :: rest')) = true :=
      atBoundary_of_keyword (by simp [NotNext, Cursor.start]) rfl
    refine ⟨d, [], d, [], ⟨_, [], ⟨rfl, rfl, bound⟩, Pattern.text_takes.mpr ⟨toward, rfl⟩⟩, rfl, d.next, ?_⟩
    rw [Pattern.run, behind]
    simp only [letter, if_true]
  obtain rfl : m.rest = d := (leftInstance_takes (Pattern.matchAt?_eq_some found).1).2.unique toward
  have unmatched {y : List Char} {e : Cursor} (reached : m.rest.Spans y e) : leftInstance.matchAt? e = none := by
    cases again : leftInstance.matchAt? e with
    | none => rfl
    | some m' =>
        have inside := (leftInstance_takes (Pattern.matchAt?_eq_some again).1).1
        cases eq_nil_of_atInstance calm (toward.trans reached) inside
  have whole : m.rest.after = (a :: rest') ++ [] := by rw [behind, List.append_nil]
  have further := Cursor.spans_advance whole
  have copied := Pattern.Sweeps.skip (f := fun _ => []) further (fun y e reached _ => unmatched reached)
    (.done (further.remaining whole) (unmatched further))
  have walk := Pattern.replaceWith_sweeps (fun _ _ => leftInstance_visible) (fun _ => "")
    (String.ofList (instanceDot ++ a :: rest'))
  rw [String.toList_ofList (l := instanceDot ++ a :: rest')] at walk
  apply String.toList_inj.mp
  rw [String.toList_ofList, Pattern.replace]
  exact (walk.unique (.put found copied)).trans (by simp)

theorem finished_front (calm : Calm rest) (starts : ∃ a ∈ rest.head?, isName a = true)
    (noCall : '(' ∉ rest) (line : SingleLine (String.ofList rest)) :
    finished (String.ofList (instanceDot ++ rest)) = String.ofList rest := by
  have unbound : ¬ ".bind(this)".toList <:+: (String.ofList (instanceDot ++ rest)).toList := by
    intro within
    have mem := within.subset (by decide : '(' ∈ ".bind(this)".toList)
    rw [String.toList_ofList] at mem
    obtain mem | mem := List.mem_append.mp mem
    · exact absurd mem (by decide)
    · exact noCall mem
  rw [finished_eq, beforeLines, replaceAll_idle unbound (by decide)]
  exact (congrArg _ (congrArg unlines (congrArg _ (congrArg _ (leftInstance_front calm starts))))).trans line.lines

/-! ### Paths of state -/

/-- The base is no member that the passes for framework classes, subjects and refs look for. -/
structure Unclaimed (ctx : RecastContext) (base : List Char) : Prop where
  dependencies : ∀ d ∈ ctx.dependencies, Foreign base d.1
  subjects : ∀ name ∈ ctx.subjects, Foreign base name
  refs : ∀ name ∈ ctx.refs, Foreign base name

/-- The passes before the writes of state find nothing where one path is addressed. -/
theorem beforeState_path (unclaimed : Unclaimed ctx base) (identifier : IsIdentifier base) (calm : Calm (base ++ tail))
    (parts : ∀ a ∈ tail.head?, a = '.' ∨ a = ' ') (noCall : '(' ∉ tail) :
    Gives (· = String.ofList (instanceDot ++ (base ++ tail)))
      (beforeState ctx (String.ofList (instanceDot ++ (base ++ tail)))) := by
  have quiet {name : String} (foreign : Foreign base name) :
      Silent (String.ofList (instanceDot ++ (base ++ tail))).toList name := by
    rw [String.toList_ofList]
    exact silent_of_foreign identifier calm parts foreign
  refine beforeState_idle ?_ (fun d mem => quiet (unclaimed.dependencies d mem))
    fun name mem => quiet (unclaimed.subjects name mem)
  rw [String.toList_ofList]
  intro mem
  obtain mem | mem := List.mem_append.mp mem
  · exact absurd mem (by decide)
  · obtain mem | mem := List.mem_append.mp mem
    · exact identifier.notMem (by decide) mem
    · exact noCall mem

theorem instancePath_visible : String.ofList (instanceDot ++ (base ++ tail)) ≠ "" := by
  intro none
  have none := congrArg String.toList none
  rw [String.toList_ofList] at none
  cases none

theorem calm_assignmentTail (identifier : IsIdentifier base) (identifiers : ∀ key ∈ keys, IsIdentifier key)
    (last : KeywordLast base keys) {value : List Char} (plain : IsValue value) :
    Calm (base ++ assignmentTail keys value) := by
  have spaced : CalmFrom true (" = ".toList ++ value) :=
    .cons (by decide) (.cons (by decide) (.cons (by decide) (calmFrom_of_absent plain.calm _)))
  have ends : NotNext isName (" = ".toList ++ value) := Template.notNext_cons (by decide)
  exact (calmFrom_path identifier identifiers last ends (by simp) spaced).calm

theorem notMem_spread {a : Char} (other : isIdentifierChar a = false) (mark : a ∉ "\x7b ., :\x7d".toList)
    (identifier : IsIdentifier base) (identifiers : ∀ key ∈ keys, IsIdentifier key) {value : List Char}
    (plain : IsValue value) :
    a ∉ (spreadInto (String.ofList base) (keys.map String.ofList) (String.ofList value)).toList := by
  refine notMem_spreadInto mark ?_ ?_ ?_
  · rw [String.toList_ofList]
    exact identifier.notMem other
  · intro key mem
    obtain ⟨key, known, rfl⟩ := List.mem_map.mp mem
    rw [String.toList_ofList]
    exact (identifiers key known).notMem other
  · rw [String.toList_ofList]
    intro mem
    obtain letter | rfl := plain.letters a mem
    · rw [letter] at other
      cases other
    · exact mark (by decide)

/-- Only the name of the setter stands before the bracket, so nothing is bound. -/
theorem unbound_setterCall {setter : String} (named : IsIdentifier setter.toList) (identifier : IsIdentifier base)
    (identifiers : ∀ key ∈ keys, IsIdentifier key) {value : List Char} (plain : IsValue value) :
    ¬ ".bind(this)".toList <:+: (setterCall setter base keys value).toList := by
  rintro ⟨y, z, whole⟩
  have inside := notMem_spread (by decide : isIdentifierChar '(' = false) (by decide) identifier identifiers plain
  have split : setter.toList ++ '(' :: ((spreadInto (String.ofList base) (keys.map String.ofList)
      (String.ofList value)).toList ++ [')']) = (y ++ ".bind".toList) ++ '(' :: ("this)".toList ++ z) := by
    rw [← setterCall_toList, ← whole]
    simp
  obtain ⟨same, -⟩ := (List.append_cons_inj_of_notMem (named.notMem (by decide)) (by simpa using inside)).mp split
  exact named.notMem (by decide : isIdentifierChar '.' = false) (by rw [same]; simp)

theorem singleLine_setterCall {setter : String} (named : IsIdentifier setter.toList) (identifier : IsIdentifier base)
    (identifiers : ∀ key ∈ keys, IsIdentifier key) {value : List Char} (plain : IsValue value) :
    SingleLine (setterCall setter base keys value) := by
  have inside := notMem_spread (by decide : isIdentifierChar '\n' = false) (by decide) identifier identifiers plain
  have named' : Template.Trimmed setter.toList := trimmed_of_isPath fun a mem => isPath_of_letter (.inl (named.letter mem))
  refine ⟨?_, ?_, ?_⟩ <;> rw [setterCall_toList]
  · have outside := named.notMem (by decide : isIdentifierChar '\n' = false)
    simp [inside, outside]
  · rw [← List.cons_append]
    exact named'.around named.visible ⟨by decide, by decide⟩ (List.cons_ne_nil _ _) _
  · simp

/-- A path of state that is read is the path itself. -/
theorem text_read (unclaimed : Unclaimed ctx base) (identifier : IsIdentifier base)
    (identifiers : ∀ key ∈ keys, IsIdentifier key) (last : KeywordLast base keys) :
    Recast.text ctx (String.ofList (instanceDot ++ (base ++ pathText keys))) = String.ofList (base ++ pathText keys) := by
  have calm := calm_path identifier identifiers last
  have noCall : '(' ∉ pathText keys := notMem_pathText identifiers (by decide) (by decide)
  have parts : ∀ a ∈ (pathText keys).head?, a = '.' ∨ a = ' ' := by
    cases keys with
    | nil => simp [pathText]
    | cons key keys => simp [Script.pathText_cons]
  have letters : ∀ a ∈ base ++ pathText keys, isPath a = true := by
    intro a mem
    obtain mem | mem := List.mem_append.mp mem
    · exact isPath_of_letter (.inl (identifier.letter mem))
    · exact isPath_of_letter (pathText_letters identifiers mem)
  have starts : ∃ a ∈ (base ++ pathText keys).head?, isName a = true := by
    obtain ⟨a, base', same, -⟩ := identifier.cons
    exact ⟨a, by rw [same]; rfl, identifier.named (by rw [same]; exact List.mem_cons_self)⟩
  have line := singleLine_of_isPath letters (by simp [identifier.visible])
  obtain ⟨n, whole⟩ := @text_eq ctx _ instancePath_visible
  have before := beforeState_path unclaimed identifier calm parts noCall {}
  rw [before, recastState_read ctx.state ctx.props identifier identifiers last n] at whole
  rw [whole, refs_idle fun name mem => by
    rw [String.toList_ofList]
    exact silent_of_foreign identifier calm parts (unclaimed.refs name mem)]
  refine finished_front calm starts ?_ line
  intro mem
  exact absurd (letters _ mem) (by decide)

/-- The assignment of a value to a path of state is a call of the setter with the spread update. -/
theorem text_write (unclaimed : Unclaimed ctx base) {setter : String}
    (cell : ctx.state.get? (String.ofList base) = some setter) (named : IsIdentifier setter.toList)
    (identifier : IsIdentifier base) (identifiers : ∀ key ∈ keys, IsIdentifier key) (last : KeywordLast base keys)
    {value : List Char} (plain : IsValue value) :
    Recast.text ctx (String.ofList (instanceDot ++ (base ++ assignmentTail keys value))) =
      setterCall setter base keys value := by
  have calm := calm_assignmentTail identifier identifiers last plain
  have noCall : '(' ∉ assignmentTail keys value := notMem_assignmentTail identifiers plain (by decide) (by decide)
  have parts : ∀ a ∈ (assignmentTail keys value).head?, a = '.' ∨ a = ' ' := by
    cases keys with
    | nil => simp [assignmentTail, pathText]
    | cons key keys => simp [assignmentTail, Script.pathText_cons]
  have calm' := calm_setterCall named identifier identifiers last plain
  obtain ⟨n, whole⟩ := @text_eq ctx _ instancePath_visible
  have before := beforeState_path unclaimed identifier calm parts noCall {}
  rw [before, recastState_write ctx.props cell identifier identifiers plain n] at whole
  rw [whole, refs_idle fun name mem => silent_of_calm calm' name]
  exact finished_calm calm' (unbound_setterCall named identifier identifiers plain)
    (singleLine_setterCall named identifier identifiers plain)

end ReactMigration.Recast
