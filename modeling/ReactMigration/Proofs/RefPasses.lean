import ReactMigration.Proofs.MemberRules

/-!
The passes for refs.

A ref is a member whose value is read and written through `current`.  Its five patterns are rules, and the
rules of two refs change places if neither ref can be taken for the start of the other.
-/

namespace ReactMigration.Recast

open ReactMigration.Text
open ReactMigration.Text.Pattern (Captures isName isPath atBoundary)

variable {c d : Cursor} {name : String}

/-! ### Refs -/

/-- Whether what starts here is assigned to. -/
def assigned (x : List Char) : Bool :=
  (assignmentTarget.matchAt? (.start x)).isSome

/-- A path and an operator that assigns to it. -/
def IsAssigned (x : List Char) : Prop :=
  ∃ (name : List Char) (steps : List (List Char)) (blanks : List Char) (sign : String) (rest : List Char),
    x = name ++ (steps.flatten ++ (blanks ++ (sign.toList ++ rest))) ∧ name ≠ [] ∧
      (∀ a ∈ name, isName a = true) ∧ (∀ y ∈ steps, IsAccess y) ∧ (∀ b ∈ blanks, isBlank b = true) ∧
      sign ∈ Script.assignmentOperators ∧ NotNext (· == '=') rest

theorem assignmentTarget_isSome (c : Cursor) :
    (assignmentTarget.matchAt? c).isSome = true ↔ IsAssigned c.after := by
  have steady : assignmentTarget.Steady := by
    have signs : assignmentSign.Steady := by simp [assignmentSign, Pattern.Steady]
    exact ⟨⟨⟨trivial, accessSteps_steady⟩, trivial⟩, signs⟩
  constructor
  · intro found
    obtain ⟨m, found⟩ := Option.isSome_iff_exists.mp found
    obtain ⟨⟨_, _, ⟨_, _, ⟨_, _, ⟨⟨name, first, letters, long⟩, rfl⟩, path⟩, ⟨blanks, space, blank, -⟩, rfl⟩, last⟩,
      -⟩ := Pattern.matchAt?_eq_some found
    obtain ⟨⟨steps, path, accesses⟩, -⟩ := accessSteps_takes.mp path
    obtain ⟨⟨sign, operator, signs, alone⟩, -⟩ := assignmentSign_takes.mp last
    refine ⟨name, steps, blanks, sign, m.rest.after, ?_, List.length_pos_iff.mp long, letters, accesses, blank,
      operator, alone⟩
    rw [first.after, path.after, space.after, signs.after]
  · rintro ⟨name, steps, blanks, sign, rest, after, named, letters, accesses, blank, operator, alone⟩
    have first := Cursor.spans_advance after
    have path := Cursor.spans_advance (first.remaining after)
    have space := Cursor.spans_advance (path.remaining (first.remaining after))
    have signs := Cursor.spans_advance (space.remaining (path.remaining (first.remaining after)))
    have ends := signs.remaining (space.remaining (path.remaining (first.remaining after)))
    exact Pattern.matchAt?_isSome steady ⟨_, _, _, [], ⟨_, [], ⟨_, [],
      ⟨⟨name, first, letters, List.length_pos_iff.mpr named⟩, rfl⟩,
      accessSteps_takes.mpr ⟨⟨steps, path, accesses⟩, rfl⟩⟩, ⟨⟨blanks, space, blank, Nat.zero_le _⟩, rfl⟩⟩,
      assignmentSign_takes.mpr ⟨⟨sign, operator, signs, by rwa [ends]⟩, rfl⟩⟩

theorem assigned_iff {x : List Char} : assigned x = true ↔ IsAssigned x :=
  assignmentTarget_isSome _

theorem assigned_eq (c : Cursor) : (assignmentTarget.matchAt? c).isSome = assigned c.after :=
  Bool.eq_iff_iff.mpr ((assignmentTarget_isSome c).trans assigned_iff.symm)

/-- Whether a single equals sign follows. -/
def equalsFollows (x : List Char) : Bool :=
  ((Pattern.blanks ++ loneEquals).matchAt? (.start x)).isSome

/-- Blank space and a single equals sign. -/
def IsEquated (x : List Char) : Prop :=
  ∃ blanks rest, x = blanks ++ '=' :: rest ∧ (∀ b ∈ blanks, isBlank b = true) ∧ NotNext (· == '=') rest

theorem equals_steady : (Pattern.blanks ++ loneEquals).Steady := by
  simp [loneEquals, Pattern.Steady, Pattern.blanks]

theorem equals_takes {g : Captures} :
    (∃ d h, (Pattern.blanks ++ loneEquals).Takes c g d h) ↔ IsEquated c.after := by
  simp only [loneEquals, Pattern.seq_takes, Pattern.blanks, Pattern.many_takes, Pattern.text_takes,
    Pattern.notFollowed_takes (show "=".toList = ['='] from rfl)]
  constructor
  · rintro ⟨d, h, _, _, ⟨⟨blanks, space, blank, -⟩, -⟩, _, _, ⟨sign, -⟩, rfl, -, alone⟩
    exact ⟨blanks, _, by rw [space.after, sign.after]; rfl, blank, alone⟩
  · rintro ⟨blanks, rest, after, blank, alone⟩
    have space := Cursor.spans_advance after
    have sign : (c.advance blanks.length).Spans "=".toList (c.advance blanks.length).next :=
      Cursor.spans_next (space.remaining after)
    refine ⟨_, g, _, g, ⟨⟨blanks, space, blank, Nat.zero_le _⟩, rfl⟩, _, g, ⟨sign, rfl⟩, rfl, rfl, ?_⟩
    have equated : (c.advance blanks.length).after = "=".toList ++ rest := space.remaining after
    rwa [sign.remaining equated]

theorem equals_captures {g h : Captures} (taken : (Pattern.blanks ++ loneEquals).Takes c g d h) : h = g := by
  simp only [loneEquals, Pattern.seq_takes, Pattern.blanks, Pattern.many_takes, Pattern.text_takes,
    Pattern.notFollowed_takes (show "=".toList = ['='] from rfl)] at taken
  obtain ⟨_, _, ⟨-, rfl⟩, _, _, ⟨-, rfl⟩, -, rfl, -⟩ := taken
  rfl

theorem equalsFollows_iff {x : List Char} : equalsFollows x = true ↔ IsEquated x := by
  change _ ↔ IsEquated (Cursor.start x).after
  rw [← equals_takes (c := .start x) (g := [])]
  constructor
  · intro found
    obtain ⟨m, found⟩ := Option.isSome_iff_exists.mp found
    exact ⟨_, _, (Pattern.matchAt?_eq_some found).1⟩
  · exact Pattern.matchAt?_isSome equals_steady

theorem aheadEquals_takes {g h : Captures} :
    (Pattern.ahead true (.blanks ++ loneEquals)).Takes c g d h ↔
      d = c ∧ h = g ∧ equalsFollows c.after = true := by
  rw [equalsFollows_iff, ← equals_takes (g := g)]
  refine and_congr_right fun _ => ?_
  constructor
  · rintro ⟨e, ran⟩
    obtain ⟨_, _, taken, same⟩ := Pattern.run_takes ran
    obtain ⟨rfl, rfl⟩ := Prod.mk.inj (Option.some.inj same)
    exact ⟨equals_captures taken, _, _, taken⟩
  · rintro ⟨rfl, e, i, taken⟩
    obtain ⟨⟨e', i'⟩, ran⟩ := Option.isSome_iff_exists.mp
      (Pattern.run_isSome (k := fun c g => some (c, g)) equals_steady taken rfl)
    obtain ⟨_, _, taken', same⟩ := Pattern.run_takes ran
    obtain ⟨rfl, rfl⟩ := Prod.mk.inj (Option.some.inj same)
    rw [equals_captures taken'] at ran
    exact ⟨_, ran⟩

/-! ### Rewritten members behind a place -/

/-- The text ends with a character that is part of no member path, if it is not empty. -/
def Loose (x : List Char) : Prop :=
  ∀ a ∈ x.getLast?, isPath a = false

theorem EndsFresh.loose {x : List Char} (fresh : EndsFresh x) : Loose x := by
  obtain ⟨a, last, notPath⟩ := fresh
  intro b last'
  obtain rfl := Option.some.inj (last.symm.trans last')
  exact notPath

theorem Loose.of_append {x y : List Char} (loose : Loose (x ++ y)) : Loose y := by
  cases y with
  | nil => intro a last; cases last
  | cons b y =>
      intro a last
      exact loose a (by rwa [getLast?_append_visible (List.cons_ne_nil b y)])

theorem Unbroken.cons {w : List Char} (unbroken : Unbroken w) : ∃ a w', w = a :: w' ∧ isName a = true := by
  obtain ⟨⟨a, head, letter⟩, -⟩ := unbroken
  cases w with
  | nil => cases head
  | cons b w =>
      cases head
      exact ⟨a, w, rfl, letter⟩

/-- A loose text that is followed by a name cannot be cut within a stretch of other characters. -/
theorem split_of_unnamed {x w y u v : List Char} (unbroken : Unbroken w) (unnamed : ∀ a ∈ u, isName a = false)
    (same : x ++ (w ++ y) = u ++ v) : ∃ x', x = u ++ x' ∧ v = x' ++ (w ++ y) := by
  obtain ⟨a, w, rfl, letter⟩ := unbroken.cons
  obtain ⟨z, hu, rest⟩ | ⟨z, hx, rest⟩ := List.append_eq_append_iff.mp same
  · cases z with
    | nil => exact ⟨[], by simpa using hu.symm, by simpa using rest.symm⟩
    | cons b z =>
        obtain ⟨rfl, -⟩ := List.cons.inj rest
        have := unnamed a (by rw [hu]; simp)
        rw [letter] at this
        cases this
  · exact ⟨z, hx, rest⟩

theorem notNext_swap {p : Char → Bool} {x w w' y : List Char} (unbroken : Unbroken w')
    (unnamed : ∀ a, isName a = true → p a = false) (ends : NotNext p (x ++ (w ++ y))) :
    NotNext p (x ++ (w' ++ y)) := by
  obtain ⟨a, w', rfl, letter⟩ := unbroken.cons
  cases x with
  | nil =>
      rintro b head
      cases head
      exact unnamed a letter
  | cons b x => exact ends

/-- An access path that runs over the place takes in what is written there. -/
theorem accessSteps_swap {x w w' y v : List Char} {steps : List (List Char)} (loose : Loose x)
    (old : Unbroken w) (new : Unbroken w') (accesses : ∀ s ∈ steps, IsAccess s)
    (same : x ++ (w ++ y) = steps.flatten ++ v) :
    (∃ x', x = steps.flatten ++ x' ∧ v = x' ++ (w ++ y)) ∨
      ∃ steps' : List (List Char), x ++ (w' ++ y) = steps'.flatten ++ v ∧ ∀ s ∈ steps', IsAccess s := by
  induction steps generalizing x with
  | nil => exact .inl ⟨x, rfl, same.symm⟩
  | cons s steps ih =>
      rw [List.flatten_cons, List.append_assoc] at same
      have access := accesses s List.mem_cons_self
      have further {x' : List Char} (hx : x = s ++ x') (rest : x' ++ (w ++ y) = steps.flatten ++ v) :
          (∃ x', x = (s :: steps).flatten ++ x' ∧ v = x' ++ (w ++ y)) ∨
            ∃ steps' : List (List Char), x ++ (w' ++ y) = steps'.flatten ++ v ∧ ∀ s ∈ steps', IsAccess s := by
        obtain ⟨x'', rfl, behind⟩ | ⟨steps', inside, accesses'⟩ :=
          ih (Loose.of_append (hx ▸ loose)) (fun s' mem => accesses s' (List.mem_cons_of_mem s mem)) rest
        · exact .inl ⟨x'', by rw [hx]; simp, behind⟩
        · exact .inr ⟨s :: steps', by rw [hx, List.append_assoc, inside]; simp, by simpa [access] using accesses'⟩
      obtain ⟨z, hs, rest⟩ | ⟨z, hx, rest⟩ := List.append_eq_append_iff.mp same
      · obtain ⟨a, w₁, hw, letter⟩ := old.cons
        cases z with
        | nil => exact further (show x = s ++ [] by simpa using hs.symm) (by simpa using rest)
        | cons b z =>
            obtain rfl : a = b := by
              rw [hw] at rest
              exact (List.cons.inj rest).1
            cases access with
            | @key name named letters =>
                -- the place would stand within a name
                exfalso
                cases x with
                | nil =>
                    obtain ⟨rfl, -⟩ := List.cons.inj hs
                    exact absurd letter (by decide)
                | cons d x =>
                    obtain ⟨rfl, hname⟩ := List.cons.inj hs
                    obtain ⟨e, last⟩ := Option.isSome_iff_exists.mp
                      (List.getLast?_isSome.mpr (List.cons_ne_nil '.' x))
                    have path : isPath e = true := by
                      obtain rfl | mem := List.mem_cons.mp (List.mem_of_getLast? last)
                      · decide
                      · rw [isPath, letters e (by rw [hname]; simp [mem]), Bool.true_or]
                    rw [loose e last] at path
                    cases path
            | @index inner filled open_ =>
                cases x with
                | nil =>
                    obtain ⟨rfl, -⟩ := List.cons.inj hs
                    exact absurd letter (by decide)
                | cons d x =>
                    obtain ⟨rfl, hinner⟩ := List.cons.inj hs
                    -- the place stands within the index, which goes on behind it
                    obtain ⟨i, hi, hz⟩ : ∃ i, inner = x ++ i ∧ a :: z = i ++ [']'] := by
                      obtain ⟨i, hx, hi⟩ | ⟨i, hx, hi⟩ := List.append_eq_append_iff.mp hinner
                      · cases i with
                        | nil => exact ⟨[], by simpa using hx.symm, by simpa using hi.symm⟩
                        | cons e i => simp at hi
                      · exact ⟨i, hx, hi⟩
                    rw [hz, List.append_assoc] at rest
                    obtain ⟨j, hj, hy⟩ : ∃ j, i = w ++ j ∧ y = j ++ ([']'] ++ (steps.flatten ++ v)) := by
                      obtain ⟨j, hj, hy⟩ | ⟨j, hj, hy⟩ := List.append_eq_append_iff.mp rest
                      · exact ⟨j, hj, hy⟩
                      · cases j with
                        | nil => exact ⟨[], by simpa using hj.symm, by simpa using hy.symm⟩
                        | cons e j =>
                            obtain ⟨rfl, -⟩ := List.cons.inj hy
                            exact absurd (by rw [hj]; simp) old.2
                    have fits : IsAccess ('[' :: (x ++ (w' ++ j) ++ [']'])) := by
                      obtain ⟨e, w₂, rfl, -⟩ := new.cons
                      refine .index (by simp) ?_
                      rw [hi, hj] at open_
                      have closed := new.2
                      simp only [List.mem_append, not_or] at open_ closed ⊢
                      exact ⟨open_.1, closed, open_.2.2⟩
                    refine .inr ⟨('[' :: (x ++ (w' ++ j) ++ [']'])) :: steps, by simp [hy], ?_⟩
                    intro s' mem
                    obtain rfl | mem := List.mem_cons.mp mem
                    · exact fits
                    · exact accesses s' (List.mem_cons_of_mem _ mem)
      · exact further hx rest.symm

theorem IsAssigned.swap {x w w' y : List Char} (fresh : EndsFresh x) (old : Unbroken w) (new : Unbroken w')
    (assigned : IsAssigned (x ++ (w ++ y))) : IsAssigned (x ++ (w' ++ y)) := by
  obtain ⟨name, steps, blanks, sign, rest, same, named, letters, accesses, blank, operator, alone⟩ := assigned
  have signs : ∀ a ∈ sign.toList, isName a = false := by
    have all : Script.assignmentOperators.all (fun s => s.toList.all (!isName ·)) = true := by decide +kernel
    simpa using List.all_eq_true.mp all sign operator
  have spaces : ∀ a ∈ blanks, isName a = false := by
    intro a mem
    rw [← Bool.not_eq_true]
    intro letter
    have := Pattern.not_isBlank_of_isName letter
    rw [blank a mem] at this
    cases this
  obtain ⟨z, hname, -⟩ | ⟨x₁, rfl, path⟩ := List.append_eq_append_iff.mp same
  · -- the place would stand within the name
    obtain ⟨a, last, notPath⟩ := fresh
    rw [isPath, letters a (by rw [hname]; exact List.mem_append_left _ (List.mem_of_getLast? last))] at notPath
    cases notPath
  · obtain ⟨x₂, rfl, behind⟩ | ⟨steps', inside, accesses'⟩ :=
      accessSteps_swap fresh.loose.of_append old new accesses path.symm
    · obtain ⟨x₃, rfl, further⟩ := split_of_unnamed old spaces behind.symm
      obtain ⟨x₄, rfl, rfl⟩ := split_of_unnamed old signs further.symm
      refine ⟨name, steps, blanks, sign, x₄ ++ (w' ++ y), by simp, named, letters, accesses, blank, operator, ?_⟩
      refine notNext_swap new (fun a letter => ?_) alone
      rw [← Bool.not_eq_true, beq_iff_eq]
      rintro rfl
      revert letter
      decide
    · exact ⟨name, steps', blanks, sign, rest, by rw [List.append_assoc, inside], named, letters, accesses', blank,
        operator, alone⟩

theorem IsEquated.swap {x w w' y : List Char} (old : Unbroken w) (new : Unbroken w')
    (equated : IsEquated (x ++ (w ++ y))) : IsEquated (x ++ (w' ++ y)) := by
  obtain ⟨blanks, rest, same, blank, alone⟩ := equated
  have unnamed : ∀ a ∈ blanks ++ ['='], isName a = false := by
    intro a mem
    rw [← Bool.not_eq_true]
    intro letter
    obtain mem | mem := List.mem_append.mp mem
    · have := Pattern.not_isBlank_of_isName letter
      rw [blank a mem] at this
      cases this
    · obtain rfl := List.mem_singleton.mp mem
      revert letter
      decide
  obtain ⟨x', rfl, rfl⟩ := split_of_unnamed old unnamed (v := rest) (by rw [same]; simp)
  refine ⟨blanks, x' ++ (w' ++ y), by simp, blank, notNext_swap new (fun a letter => ?_) alone⟩
  rw [← Bool.not_eq_true, beq_iff_eq]
  rintro rfl
  revert letter
  decide

/-! ### The rules of a ref -/

/-- The value of a ref. -/
def currentOf (name : List Char) : List Char :=
  name ++ ".current".toList

/-- The access through a ref to what follows. -/
def accessOf (name behind : List Char) : List Char :=
  name ++ (if assigned behind then ".current!." else ".current?.").toList

/-- The rules for a ref, in their order. -/
def refRules (name : List Char) : List Rule :=
  [.single name ".nativeElement.".toList (fun _ => true) false (accessOf name),
    .single name ".nativeElement".toList (meetsWord (instanceDot ++ (name ++ ".nativeElement".toList))) false
      (fun _ => currentOf name),
    .single name [] equalsFollows false (fun _ => currentOf name),
    .single name ".".toList (fun _ => true) false (accessOf name),
    .single name [] (meetsWord (instanceDot ++ name)) false (fun _ => currentOf name)]

/-- The name of a ref: one that is not empty and does not end with the keyword. -/
structure IsRefName (name : List Char) : Prop where
  visible : name ≠ []
  letters : ∀ a ∈ name, isName a = true
  keyword : ¬ "this".toList <:+ name

theorem dereference_reads {path : String} (letters : ∀ a ∈ name.toList, isName a = true)
    (inPath : ∀ a ∈ path.toList, isPath a = true) :
    (Rule.single name.toList path.toList (fun _ => true) false (accessOf name.toList)).Reads
      (member name ++ .text path)
      (fun m => (if (assignmentTarget.matchAt? m.rest).isSome then name ++ ".current!." else
        name ++ ".current?.").toList) := by
  have reads := Rule.single_reads (p := member name ++ .text path)
    (f := fun m => (if (assignmentTarget.matchAt? m.rest).isSome then name ++ ".current!." else
        name ++ ".current?.").toList)
    path.toList [] (fun _ => true) false (accessOf name.toList) (by simp) letters inPath (by simp) (fun c d h => by
      rw [member_text_takes]
      simp) (fun c m found => by
      rw [assigned_eq, accessOf]
      split <;> simp)
  simpa using reads

/-- A member to which something is assigned. -/
theorem equated_reads (letters : ∀ a ∈ name.toList, isName a = true) :
    (Rule.single name.toList [] equalsFollows false (fun _ => currentOf name.toList)).Reads
      (member name ++ .ahead true (.blanks ++ loneEquals)) (fun _ => (name ++ ".current").toList) := by
  have reads := Rule.single_reads (p := member name ++ .ahead true (.blanks ++ loneEquals))
    (f := fun _ => (name ++ ".current").toList) [] [] equalsFollows false (fun _ => currentOf name.toList)
    ?steady letters (by simp) (by simp) ?takes (fun _ _ _ => by simp [currentOf])
  case steady =>
    rw [Pattern.seq_steady]
    exact ⟨member_steady, trivial⟩
  case takes =>
    intro c d h
    simp only [Pattern.seq_takes, member_takes, aheadEquals_takes, List.append_nil]
    constructor
    · rintro ⟨e, _, ⟨⟨bound, spans⟩, rfl⟩, rfl, rfl, equals⟩
      exact ⟨⟨bound, spans⟩, equals, rfl⟩
    · rintro ⟨⟨bound, spans⟩, equals, rfl⟩
      exact ⟨d, [], ⟨⟨bound, spans⟩, rfl⟩, rfl, rfl, equals⟩
  exact reads

/-! ### A pass keeps blocks settled -/

/-- What all rules of a ref have in common. -/
structure RefRule (name : List Char) (r : Rule) : Prop where
  member : r.member = name
  dead : r.live = false
  path : ∀ tail ∈ r.tails, ∀ a ∈ tail, isPath a = true
  result : ∀ rest, r.result rest = currentOf name ∨ (∀ tail ∈ r.tails, tail.getLast? = some '.') ∧
    ∃ mark ∈ ['!', '?'], r.result rest = currentOf name ++ [mark, '.']

theorem accessOf_eq (name behind : List Char) : ∃ mark ∈ ['!', '?'], accessOf name behind =
    currentOf name ++ [mark, '.'] := by
  unfold accessOf currentOf
  split
  · exact ⟨'!', by simp, by simp⟩
  · exact ⟨'?', by simp, by simp⟩

theorem refRule_of_mem {name : List Char} {r : Rule} (mem : r ∈ refRules name) : RefRule name r := by
  simp only [refRules, List.mem_cons, List.not_mem_nil, or_false] at mem
  obtain rfl | rfl | rfl | rfl | rfl := mem
  · exact ⟨rfl, rfl, by simp only [Rule.single, List.mem_singleton, forall_eq]; exact List.all_eq_true.mp (by decide),
      fun rest => .inr ⟨by simp [Rule.single], accessOf_eq name rest⟩⟩
  · exact ⟨rfl, rfl, by simp only [Rule.single, List.mem_singleton, forall_eq]; exact List.all_eq_true.mp (by decide),
      fun rest => .inl rfl⟩
  · exact ⟨rfl, rfl, by simp [Rule.single], fun rest => .inl rfl⟩
  · exact ⟨rfl, rfl, by simp only [Rule.single, List.mem_singleton, forall_eq]; exact List.all_eq_true.mp (by decide),
      fun rest => .inr ⟨by simp [Rule.single], accessOf_eq name rest⟩⟩
  · exact ⟨rfl, rfl, by simp [Rule.single], fun rest => .inl rfl⟩

theorem RefRule.front_path {name : List Char} {r : Rule} (rule : RefRule name r) (named : IsRefName name) :
    ∀ tail ∈ r.tails, ∀ a ∈ r.member ++ tail, isPath a = true := by
  intro tail mem a inside
  rw [rule.member] at inside
  obtain inside | inside := List.mem_append.mp inside
  · rw [isPath, named.letters a inside, Bool.true_or]
  · exact rule.path tail mem a inside

/-- What is written for a ref is calm if the text behind it is. -/
theorem calm_currentOf {name behind : List Char} (named : IsRefName name) (calm : CalmFrom true behind) :
    Calm (currentOf name ++ behind) := by
  rw [currentOf, List.append_assoc]
  refine calm_name named.letters (fun a head => ?_) (fun _ => named.keyword) ?_
  · cases head
    decide
  · change CalmFrom true ('.' :: 'c' :: 'u' :: 'r' :: 'r' :: 'e' :: 'n' :: 't' :: behind)
    exact .cons (by decide) <| .cons (by decide) <| .cons (by decide) <| .cons (by decide) <| .cons (by decide) <|
      .cons (by decide) <| .cons (by decide) <| .cons (by decide) calm.mono

theorem RefRule.pass_settled {name : List Char} {r : Rule} (rule : RefRule name r) (named : IsRefName name)
    {bs : List Block} (settled : Settled bs) : Settled (r.pass bs) := by
  refine Rule.pass_settled settled fun b bs' b' suffix live applied => ?_
  obtain ⟨before, split⟩ := suffix
  obtain ⟨calm, ends, -, -⟩ := (split ▸ settled : Settled (before ++ b :: bs')).drop
  obtain ⟨tail, mem, behind, text, -, rfl⟩ := Rule.recast?_eq_some applied
  rw [text, ← List.append_assoc] at calm ends
  have rest := (calm.from).behind (by simp [rule.member, named.visible])
  refine ⟨?_, fun more => ((ends more).behind_path (rule.front_path named tail mem)).append _, .inr ?_⟩
  · obtain same | ⟨dotted, mark, marks, same⟩ := rule.result (behind ++ printed bs')
    · simp only [same]
      exact calm_currentOf named rest.mono
    · have dot : tail ≠ [] := by
        rintro rfl
        cases dotted [] mem
      rw [getLast?_append_visible dot, dotted tail mem] at rest
      simp only [same, List.append_assoc]
      refine calm_currentOf named (.cons (fun _ => rfl) (.cons (fun same => absurd same (by decide)) rest))
  · obtain ⟨a, name', rfl⟩ := List.exists_cons_of_ne_nil named.visible
    refine ⟨a, ?_, named.letters a List.mem_cons_self⟩
    obtain same | ⟨-, mark, -, same⟩ := rule.result (behind ++ printed bs')
    · simp only [same]
      rfl
    · simp only [same]
      rfl

/-! ### The text of a ref -/

/-- Recasting a ref is the passes of its rules. -/
theorem recastRef_printed {bs : List Block} {text : String} (named : IsRefName name.toList) (settled : Settled bs)
    (blocks : text.toList = printed bs) :
    (recastRef text name).toList = printed (Rule.passes (refRules name.toList) bs) := by
  have letters := named.letters
  have plain : '\\' ∉ (name ++ ".current").toList := by simpa using unescaped_of_isName letters
  have kept {r : Rule} (mem : r ∈ refRules name.toList) {bs : List Block} (settled : Settled bs) :
      Settled (r.pass bs) :=
    (refRule_of_mem mem).pass_settled named settled
  have first := (@dereference_reads name ".nativeElement." letters (List.all_eq_true.mp (by decide))).replaceWith settled blocks
  have settled := kept (.head _) settled
  have native {c d : Cursor} {g h : Captures} := @member_text_takes c d name ".nativeElement" g h
  have second := (bounded_reads false (currentOf name.toList) (name ++ ".current") (by simp) letters
    (List.all_eq_true.mp (by decide)) (fun _ _ _ _ => native) (by simp [currentOf])).replaceWith settled first
  have settled := kept (.tail _ (.head _)) settled
  have third := (equated_reads letters).replaceWith settled second
  have settled := kept (.tail _ (.tail _ (.head _))) settled
  have fourth := (@dereference_reads name "." letters (List.all_eq_true.mp (by decide))).replaceWith settled third
  have settled := kept (.tail _ (.tail _ (.tail _ (.head _)))) settled
  have alone (c : Cursor) (g : Captures) (d : Cursor) (h : Captures) : (member name).Takes c g d h ↔
      (atBoundary c = true ∧ c.Spans (instanceDot ++ (name.toList ++ [])) d) ∧ h = g := by
    rw [List.append_nil]
    exact member_takes
  have fifth := (bounded_reads false (currentOf name.toList) (name ++ ".current") (by simp) letters (by simp) alone
    (by simp [currentOf])).replaceWith settled fourth
  rw [List.append_nil] at fifth
  simp only [recastRef, Pattern.substitute_plain _ plain]
  exact fifth

/-! ### Two refs -/

/-- The first ref cannot be taken for the start of the second one. -/
def Apart (name name' : List Char) : Prop :=
  name <+: name' ∧ name ≠ name' → meetsWord (instanceDot ++ name) (name'.drop name.length) = false

instance (name name' : List Char) : Decidable (Apart name name') :=
  inferInstanceAs (Decidable (name <+: name' ∧ name ≠ name' →
    meetsWord (instanceDot ++ name) (name'.drop name.length) = false))

/-- A ref is not found where a longer one stands. -/
theorem refRules_spare {name x rest more : List Char} {r : Rule} (mem : r ∈ refRules name) (longer : x ≠ [])
    (letters : ∀ a ∈ x, isName a = true) (apart : Apart name (name ++ x)) :
    r.recast? (name ++ x ++ more) rest = none := by
  cases applied : r.recast? (name ++ x ++ more) rest with
  | none => rfl
  | some b =>
      exfalso
      obtain ⟨tail, tails, behind, text, test, -⟩ := Rule.recast?_eq_some applied
      rw [(refRule_of_mem mem).member, List.append_assoc] at text
      have text := List.append_cancel_left text
      obtain ⟨a, x, rfl⟩ := List.exists_cons_of_ne_nil longer
      have letter := letters a List.mem_cons_self
      have undotted {rest : List Char} (same : a :: x ++ more = '.' :: rest) : False := by
        obtain ⟨rfl, -⟩ := List.cons.inj same
        exact absurd letter (by decide)
      simp only [refRules, List.mem_cons, List.not_mem_nil, or_false] at mem
      obtain rfl | rfl | rfl | rfl | rfl := mem
      · obtain rfl := List.mem_singleton.mp tails
        exact undotted text
      · obtain rfl := List.mem_singleton.mp tails
        exact undotted text
      · obtain rfl := List.mem_singleton.mp tails
        rw [List.nil_append] at text
        obtain ⟨blanks, rest', same, blank, -⟩ := equalsFollows_iff.mp test
        rw [← text] at same
        cases blanks with
        | nil =>
            obtain ⟨rfl, -⟩ := List.cons.inj same
            exact absurd letter (by decide)
        | cons b blanks =>
            obtain ⟨rfl, -⟩ := List.cons.inj same
            have := Pattern.not_isBlank_of_isName letter
            rw [blank a List.mem_cons_self] at this
            cases this
      · obtain rfl := List.mem_singleton.mp tails
        exact undotted text
      · obtain rfl := List.mem_singleton.mp tails
        rw [List.nil_append] at text
        rw [← text] at test
        have whole := apart ⟨List.prefix_append _ _, by simp⟩
        rw [List.drop_left] at whole
        exact absurd test (Bool.eq_false_iff.mp whole)

theorem refRules_spares {name name' : List Char} (named : IsRefName name) (named' : IsRefName name')
    (different : name ≠ name') (apart : Apart name name') (apart' : Apart name' name) {r r' : Rule}
    (mem : r ∈ refRules name) (mem' : r' ∈ refRules name') : r.Spares (fun _ => True) r' where
  front {text rest rest' b} _ applied := by
    obtain ⟨tail, -, behind, rfl, -, -⟩ := Rule.recast?_eq_some applied
    rw [(refRule_of_mem mem).member] at applied ⊢
    cases applied' : r'.recast? (name ++ (tail ++ behind)) rest' with
    | none => rfl
    | some b' =>
        exfalso
        obtain ⟨tail', -, behind', text, -, -⟩ := Rule.recast?_eq_some applied'
        rw [(refRule_of_mem mem').member] at text
        -- one name is the start of the other
        obtain ⟨x, rfl, more⟩ | ⟨x, rfl, more⟩ := List.append_eq_append_iff.mp text
        · have longer : x ≠ [] := by
            rintro rfl
            simp at different
          rw [more, ← List.append_assoc, refRules_spare mem longer
            (fun a inside => named'.letters a (List.mem_append_right _ inside)) apart] at applied
          cases applied
        · have longer : x ≠ [] := by
            rintro rfl
            simp at different
          rw [refRules_spare mem' longer
            (fun a inside => named.letters a (List.mem_append_right _ inside)) apart'] at applied'
          cases applied'
  result {text rest rest' b} _ applied live := by
    obtain ⟨_, _, _, _, _, rfl⟩ := Rule.recast?_eq_some applied
    rw [(refRule_of_mem mem).dead] at live
    cases live

theorem unbroken_of_path {x : List Char} (starts : ∃ a ∈ x.head?, isName a = true)
    (path : ∀ a ∈ x, isPath a = true) : Unbroken x := by
  refine ⟨starts, fun mem => ?_⟩
  exact absurd (path ']' mem) (by decide)

theorem RefRule.unbroken {name : List Char} {r : Rule} (rule : RefRule name r) (named : IsRefName name) :
    (∀ tail ∈ r.tails, Unbroken (instanceDot ++ (r.member ++ tail))) ∧
      ∀ rest, Unbroken ((if r.live then instanceDot else []) ++ r.result rest) := by
  constructor
  · intro tail mem
    refine unbroken_of_path ⟨'t', rfl, by decide⟩ fun a inside => ?_
    obtain inside | inside := List.mem_append.mp inside
    · exact isPath_of_mem_instanceDot inside
    · exact rule.front_path named tail mem a inside
  · intro rest
    have current : Unbroken (currentOf name) := by
      obtain ⟨a, name', rfl⟩ := List.exists_cons_of_ne_nil named.visible
      refine unbroken_of_path ⟨a, rfl, named.letters a List.mem_cons_self⟩ fun b inside => ?_
      obtain inside | inside := List.mem_append.mp inside
      · rw [isPath, named.letters b inside, Bool.true_or]
      · exact List.all_eq_true.mp (by decide : ".current".toList.all isPath = true) b inside
    rw [rule.dead]
    obtain same | ⟨-, mark, marks, same⟩ := rule.result rest
    · simpa [same] using current
    · rw [same]
      obtain ⟨⟨a, head, letter⟩, closed⟩ := current
      have marked : mark ≠ ']' := by
        rintro rfl
        simp at marks
      refine ⟨⟨a, ?_, letter⟩, ?_⟩
      · simp only [Bool.false_eq_true, if_false, List.nil_append, List.head?_append, Option.mem_def.mp head]
        rfl
      · simpa [closed] using marked.symm

theorem refRules_overlook {name name' : List Char} (named : IsRefName name) (named' : IsRefName name') {r r' : Rule}
    (mem : r ∈ refRules name) (mem' : r' ∈ refRules name') : r.Overlooks r' := by
  obtain ⟨fronts, results⟩ := (refRule_of_mem mem').unbroken named'
  refine Rule.overlooks_of_path ((refRule_of_mem mem).front_path named) ?_ ?_ fronts results
  · intro tail tails x w w' y fresh old new
    simp only [refRules, List.mem_cons, List.not_mem_nil, or_false] at mem
    obtain rfl | rfl | rfl | rfl | rfl := mem
    · exact fun _ => rfl
    · exact meetsWord_swap fresh
    · exact fun equals => equalsFollows_iff.mpr ((equalsFollows_iff.mp equals).swap old new)
    · exact fun _ => rfl
    · exact meetsWord_swap fresh
  · intro v x w w' y fresh old new
    have same : assigned (x ++ (w' ++ y)) = assigned (x ++ (w ++ y)) := by
      refine Bool.eq_iff_iff.mpr ?_
      rw [assigned_iff, assigned_iff]
      exact ⟨fun is => is.swap fresh new old, fun is => is.swap fresh old new⟩
    simp only [refRules, List.mem_cons, List.not_mem_nil, or_false] at mem
    obtain rfl | rfl | rfl | rfl | rfl := mem
    · simp only [Rule.single, accessOf, same]
      exact id
    · exact id
    · exact id
    · simp only [Rule.single, accessOf, same]
      exact id
    · exact id

/-! ### All refs -/

/-- The names of refs: none can be taken for the start of another one. -/
structure RefNames (refs : List String) : Prop where
  named : ∀ ref ∈ refs, IsRefName ref.toList
  apart : ∀ ref ∈ refs, ∀ ref' ∈ refs, Apart ref.toList ref'.toList

theorem foldl_recastRef_printed {refs : List String} (names : ∀ ref ∈ refs, IsRefName ref.toList) {bs : List Block}
    {text : String} (settled : Settled bs) (blocks : text.toList = printed bs) :
    (refs.foldl recastRef text).toList =
      printed (refs.foldl (fun bs ref => Rule.passes (refRules ref.toList) bs) bs) := by
  induction refs generalizing bs text with
  | nil => exact blocks
  | cons ref refs ih =>
      have named := names ref List.mem_cons_self
      rw [List.foldl_cons, List.foldl_cons]
      refine ih (fun ref' mem => names ref' (List.mem_cons_of_mem ref mem)) ?_
        (recastRef_printed named settled blocks)
      exact Rule.passes_keep (fun r mem _ settled => (refRule_of_mem mem).pass_settled named settled) settled

/-- On a clean text the refs can be enumerated in any order. -/
theorem foldl_recastRef_perm {refs refs' : List String} (perm : refs.Perm refs') (names : RefNames refs)
    {text : String} (clean : Clean text.toList) : refs.foldl recastRef text = refs'.foldl recastRef text := by
  obtain ⟨bs, settled, blocks⟩ := exists_blocks clean
  refine String.toList_inj.mp ?_
  rw [foldl_recastRef_printed names.named settled blocks.symm,
    foldl_recastRef_printed (fun ref mem => names.named ref (perm.mem_iff.mpr mem)) settled blocks.symm]
  refine congrArg printed (@Rule.passes_perm Settled _ _ _ _ _ perm ?_ ?_ settled)
  · exact fun ref mem r mem' _ settled => (refRule_of_mem mem').pass_settled (names.named ref mem) settled
  · intro ref mem ref' mem' different r rule r' rule' bs settled
    have named := names.named ref mem
    have named' := names.named ref' mem'
    have chars : ref.toList ≠ ref'.toList := fun same => different (String.toList_inj.mp same)
    exact @Rule.pass_comm (fun _ => True) _ _
      (refRules_spares named named' chars (names.apart _ mem _ mem') (names.apart _ mem' _ mem) rule rule')
      (refRules_spares named' named chars.symm (names.apart _ mem' _ mem) (names.apart _ mem _ mem') rule' rule)
      (refRules_overlook named named' rule rule') (refRules_overlook named' named rule' rule) _ settled
      (fun _ _ _ => trivial)

end ReactMigration.Recast
