import ReactMigration.Model.Effects
import ReactMigration.Proofs.References

/-!
What becomes of the parameter of a method that is turned into an effect.

An effect has no parameters: the parameter of a setter of an input becomes the input itself, and the
parameter of the method that hears of changed inputs is replaced where it is read for the record of an
input.  The effect of a setter refers to the parameter exactly where the setter spreads it.  The effect
of a change refers to it only if the method does other than read the record of an input, and it does so
if the method uses the parameter for itself.
-/

namespace ReactMigration.Model

open ReactMigration.Text
open ReactMigration.Text.Pattern (Captures isName isPath Sweeps atBoundary)

/-! ### What is put in place -/

section Put

variable {name input : List Char} {before rest x : List Char}

/-- Behind one dot no name starts for itself. -/
theorem not_opens_dot {a : Char} (other : a ≠ '.') : ¬ Opens ('.' :: a :: before) := fun opens => by
  have := opens.free
  rw [dots_cons, dots_cons, if_pos rfl, if_neg other] at this
  omega

theorem ne_dot_of_isName {a : Char} (letter : isName a = true) : a ≠ '.' := by
  rintro rfl
  revert letter
  decide

/-- The member of the instance that an input is. -/
theorem freeNames_thisMember (letters : ∀ a ∈ input, isName a = true) :
    freeNames rest [] ("this.".toList ++ input) = ["this".toList] := by
  have self : freeNames (input ++ rest) [] "this.".toList = ["this".toList] := rfl
  have member : freeNames rest ("this.".toList.reverse ++ []) input = [] :=
    freeNames_goesOn (not_opens_dot (by decide)) letters
  rw [freeNames_append, self, member]
  rfl

/-- The question whether an input is there. -/
theorem freeNames_present (letters : ∀ a ∈ input, isName a = true) :
    freeNames rest [] ("(this.".toList ++ (input ++ " !== undefined)".toList)) ⊆
      ["this".toList, "undefined".toList] := by
  have self (rest : List Char) : freeNames rest [] "(this.".toList = ["this".toList] := rfl
  have member (rest : List Char) : freeNames rest ("(this.".toList.reverse ++ []) input = [] :=
    freeNames_goesOn (not_opens_dot (by decide)) letters
  have question (before rest : List Char) :
      freeNames rest before " !== undefined)".toList ⊆ ["undefined".toList] := by
    have split : " !== undefined)".toList = " !== ".toList ++ ("undefined".toList ++ [')']) := rfl
    have bracket (before : List Char) : freeNames rest before [')'] = [] := freeNames_marks (by decide)
    rw [split, freeNames_append, freeNames_append, freeNames_marks (by decide), List.nil_append, bracket,
      List.append_nil]
    exact freeNames_letters (List.all_eq_true.mp (by decide)) (by simp [NotNext]; decide)
  rw [freeNames_append, freeNames_append, self, member, List.nil_append]
  exact List.cons_subset_cons _ (question _ _)

theorem thisMember_silent (visible : input ≠ []) (letters : ∀ a ∈ input, isName a = true)
    (word : IsWord name) (other : name ≠ "this".toList) : Silent name ("this.".toList ++ input) where
  visible := by simp
  starts := by
    intro a mem
    obtain rfl : 't' = a := by simpa using mem
    decide
  ends := by
    obtain ⟨front, a, rfl⟩ := List.eq_nil_or_concat input |>.resolve_left visible
    intro b mem
    obtain rfl : a = b := by simpa using mem
    simpa using ne_dot_of_isName (letters a (by simp))
  silent refers := by
    have listed := refers.mem_freeNames word
    rw [freeNames_thisMember letters, List.mem_singleton] at listed
    exact other listed

theorem present_silent (letters : ∀ a ∈ input, isName a = true) (word : IsWord name)
    (this : name ≠ "this".toList) (undefined : name ≠ "undefined".toList) :
    Silent name ("(this.".toList ++ (input ++ " !== undefined)".toList)) where
  visible := by simp
  starts := by
    intro a mem
    obtain rfl : '(' = a := by simpa using mem
    decide
  ends := by
    intro a mem
    obtain rfl : ')' = a := by simpa using mem
    decide
  silent refers := by
    have listed := freeNames_present letters (refers.mem_freeNames word)
    simp only [List.mem_cons, List.not_mem_nil, or_false] at listed
    exact listed.elim this undefined

theorem false_silent (word : IsWord name) (other : name ≠ "false".toList) : Silent name "false".toList where
  visible := by decide
  starts := by decide
  ends := by decide
  silent refers := by
    have listed := refers.mem_freeNames word
    have single : freeNames [] [] "false".toList = ["false".toList] := rfl
    rw [single, List.mem_singleton] at listed
    exact other listed

end Put

/-! ### Setters -/

section Setters

variable {name input : String} {c d : Cursor} {m : Match}

/-- The parameter of a setter where it stands for itself. -/
def parameterUse (name : String) : Pattern :=
  .notAfter isPath ++ .text name ++ .boundary

theorem parameterUse_takes (word : IsWord name.toList) {g h : Captures} :
    (parameterUse name).Takes c g d h ↔
      NotNext isPath c.before ∧ c.Spans name.toList d ∧ NotNext isWord d.after ∧ h = g := by
  constructor
  · rintro ⟨e, i, ⟨f, j, ⟨rfl, rfl, fresh⟩, spelled⟩, rfl, rfl, ends⟩
    replace ⟨spelled, same⟩ := Pattern.text_takes.mp spelled
    subst same
    exact ⟨fresh, spelled, (atBoundary_of_inside (word.inside spelled)).mp ends, rfl⟩
  · rintro ⟨fresh, spelled, ends, rfl⟩
    exact ⟨d, h, ⟨c, h, ⟨rfl, rfl, fresh⟩, Pattern.text_takes.mpr ⟨spelled, rfl⟩⟩, rfl, rfl,
      (atBoundary_of_inside (word.inside spelled)).mpr ends⟩

theorem parameterUse_matches (word : IsWord name.toList) (found : (parameterUse name).matchAt? c = some m) :
    m.chars = name.toList ∧ NotNext isPath c.before ∧ NotNext isWord m.rest.after := by
  obtain ⟨taken, spans, -⟩ := Pattern.matchAt?_eq_some found
  obtain ⟨fresh, spelled, ends, -⟩ := (parameterUse_takes word).mp taken
  refine ⟨?_, fresh, ends⟩
  exact List.append_cancel_right (spans.after.symm.trans spelled.after)

theorem parameterUse_isSome (word : IsWord name.toList) (stands : Stands name.toList c d) :
    ((parameterUse name).matchAt? c).isSome ↔ dots c.before = 0 := by
  constructor
  · intro found
    obtain ⟨m, found⟩ := Option.isSome_iff_exists.mp found
    refine dots_of_notNext (notNext_mono (parameterUse_matches word found).2.1 fun a dot => ?_)
    rw [isPath, dot, Bool.or_true]
  · intro none
    have steady : (parameterUse name).Steady := by simp [parameterUse, Pattern.Steady]
    refine Pattern.matchAt?_isSome steady ⟨d, [], (parameterUse_takes word).mpr ⟨?_, stands.spelled,
      notNext_mono stands.ends fun a => isName_of_isWord, rfl⟩⟩
    intro a mem
    have name := stands.opens.fresh a mem
    have dot : a ≠ '.' := by
      rintro rfl
      obtain ⟨rest, before⟩ := List.head?_eq_some_iff.mp mem
      rw [before, dots_cons, if_pos rfl] at none
      cases none
    rw [isPath, name, Bool.false_or, beq_eq_false_iff_ne]
    exact dot

theorem parameterUse_removes (word : IsWord name.toList) (other : name ≠ "this") (visible : input ≠ "")
    (letters : ∀ a ∈ input.toList, isName a = true) :
    Removes (parameterUse name) name.toList ("this." ++ input).toList where
  silent := by
    rw [String.toList_append]
    exact thisMember_silent (by simpa using visible) letters word (by simpa [← String.toList_inj] using other)
  starts c m found := by
    exact (parameterUse_matches word found).1 ▸ List.prefix_rfl
  ends c m found := by
    obtain ⟨front, a, concat⟩ := List.eq_nil_or_concat name.toList |>.resolve_left word.visible
    rw [(parameterUse_matches word found).1]
    intro b mem
    obtain rfl : a = b := by simpa [concat] using mem
    simpa using ne_dot_of_isName (isName_of_isWord (word.letters a (by simp [concat])))
  apart c m found :=
    notNext_mono (parameterUse_matches word found).2.1 fun a letter => by simp [isPath, isName, letter]
  closed c m found := .inr (parameterUse_matches word found).2.2

theorem parameterUse_apart (word : IsWord name.toList) {x : List Char} {e : Cursor}
    (found : (parameterUse name).matchAt? c = some m) (spans : c.Spans x e) (visible : x ≠ [])
    (short : x.length < m.chars.length) : ¬ Stands name.toList e d := fun stands => by
  obtain ⟨a, tail, chars, listed⟩ := stands.mem_freeNames_within word found spans visible short
  have letters : ∀ b ∈ a :: tail, isName b = true := by
    rw [← chars, (parameterUse_matches word found).1]
    exact fun b mem => isName_of_isWord (word.letters b mem)
  obtain ⟨letter, letters⟩ := List.forall_mem_cons.mp letters
  rw [freeNames_goesOn (not_opens_of_isName letter) letters] at listed
  cases listed

/-- The effect of a setter refers to its parameter exactly where the setter spreads it. -/
theorem setterEffect_refers {setter : MethodDecl} {param : Param} {others : List Param}
    (params : setter.params = param :: others) (word : IsWord param.name.toList)
    (self : param.name ≠ "this") (other : param.name ≠ input) (visible : input ≠ "")
    (letters : ∀ a ∈ input.toList, isName a = true) :
    Refers param.name.toList (setterEffect setter input).body.toList ↔
      ∃ place, RefersAt param.name.toList setter.body.toList place ∧
        3 ≤ dots (setter.body.toList.take place).reverse := by
  have body : (setterEffect setter input).body =
      (parameterUse param.name).replace ("this." ++ input) setter.body := by
    have param? : setterParam? setter input = some param.name := by simp [setterParam?, params, other]
    have unescaped : '\\' ∉ ("this." ++ input).toList := by simpa using unescaped_of_isName letters
    rw [setterEffect, param?]
    exact Pattern.substitute_plain _ unescaped _
  have removes := parameterUse_removes word self visible letters
  rw [body]
  constructor
  · intro refers
    obtain ⟨x, c, d, reached, stands⟩ := refers_iff.mp refers
    obtain ⟨x, c, d, reached, none, stands, -⟩ := removes.of_replace word reached stands
    have front : setter.body.toList.take x.length = x := by
      have split : setter.body.toList = x ++ c.after := reached.after
      rw [split, List.take_left]
    refine ⟨x.length, refersAt_iff.mpr ⟨c, d, by rwa [front], stands⟩, ?_⟩
    have before : c.before = x.reverse := reached.before.trans (List.append_nil _)
    have unmatched : dots c.before ≠ 0 := fun zero => by
      have found := (parameterUse_isSome word stands).mpr zero
      rw [none] at found
      cases found
    rw [front, ← before]
    exact stands.opens.free.resolve_left unmatched
  · rintro ⟨place, refers, spread⟩
    obtain ⟨c, d, reached, stands⟩ := refersAt_iff.mp refers
    have before : c.before = (setter.body.toList.take place).reverse :=
      reached.before.trans (List.append_nil _)
    have none : (parameterUse param.name).matchAt? c = none := by
      rw [← Option.not_isSome_iff_eq_none, parameterUse_isSome word stands, before]
      omega
    obtain ⟨y, e, g, reached, stands, -⟩ := removes.replace_of word
      (fun _ _ _ _ _ => parameterUse_apart word) reached none stands
    exact refers_iff.mpr ⟨y, e, g, reached, stands⟩

end Setters

/-! ### Records of changes -/

/-- Opens a key in brackets. -/
def IsOpening (x : List Char) : Prop :=
  ∃ gap mark, x = '[' :: (gap ++ [mark]) ∧ (∀ a ∈ gap, isBlank a = true) ∧ (mark = '\'' ∨ mark = '"')

/-- Closes a key in brackets. -/
def IsClosing (x : List Char) : Prop :=
  ∃ mark gap, x = mark :: (gap ++ [']']) ∧ (∀ a ∈ gap, isBlank a = true) ∧ (mark = '\'' ∨ mark = '"')

/-- The access by a key in brackets. -/
def Keyed (input access : List Char) : Prop :=
  ∃ x y, IsOpening x ∧ IsClosing y ∧ access = x ++ (input ++ y)

/-- Reading the record of an input, by a key in brackets or as a member; `after` is what follows. -/
def Reads (input access after : List Char) : Prop :=
  Keyed input access ∨ access = '.' :: input ∧ NotNext isName after

section Records

variable {param : String} {byKey byDot : Pattern} {c d : Cursor} {g h : Captures}

/-- A quotation mark. -/
def quoteMark : Pattern :=
  .one fun a => a == '\'' || a == '"'

theorem opening_takes :
    (.text "[" ++ .blanks ++ quoteMark : Pattern).Takes c g d h ↔
      (∃ x, IsOpening x ∧ c.Spans x d) ∧ h = g := by
  constructor
  · rintro ⟨e, i, ⟨f, j, bracket, ⟨gap, gapped, blank, -⟩, rfl⟩, ⟨mark, quote, marked⟩, rfl⟩
    obtain ⟨opens, rfl⟩ := Pattern.text_takes.mp bracket
    exact ⟨⟨_, ⟨gap, mark, rfl, blank, by simpa using quote⟩, opens.trans (gapped.trans marked)⟩, rfl⟩
  · rintro ⟨⟨x, ⟨gap, mark, rfl, blank, quote⟩, spans⟩, rfl⟩
    have bracket : c.Spans ['['] c.next := Cursor.spans_next spans.after
    have rest := Cursor.Spans.behind (x := ['[']) spans bracket
    have gapped := Cursor.spans_advance (rest.after.trans (List.append_assoc gap [mark] d.after))
    have marked := rest.behind gapped
    exact ⟨_, h, ⟨_, h, Pattern.text_takes.mpr ⟨bracket, rfl⟩, ⟨gap, gapped, blank, Nat.zero_le _⟩, rfl⟩,
      ⟨mark, by simpa using quote, marked⟩, rfl⟩

theorem closing_takes {p : Pattern} :
    (p ++ quoteMark ++ .blanks ++ .text "]" : Pattern).Takes c g d h ↔
      ∃ e, p.Takes c g e h ∧ ∃ x, IsClosing x ∧ e.Spans x d := by
  constructor
  · rintro ⟨e, i, ⟨f, j, ⟨e', k, taken, ⟨mark, quote, marked⟩, rfl⟩, ⟨gap, gapped, blank, -⟩, rfl⟩, bracket⟩
    obtain ⟨closes, rfl⟩ := Pattern.text_takes.mp bracket
    exact ⟨e', taken, _, ⟨mark, gap, rfl, blank, by simpa using quote⟩, marked.trans (gapped.trans closes)⟩
  · rintro ⟨e, taken, x, ⟨mark, gap, rfl, blank, quote⟩, spans⟩
    have marked : e.Spans [mark] e.next := Cursor.spans_next spans.after
    have rest := Cursor.Spans.behind (x := [mark]) spans marked
    have gapped := Cursor.spans_advance (rest.after.trans (List.append_assoc gap [']'] d.after))
    have bracket := rest.behind gapped
    exact ⟨_, h, ⟨_, h, ⟨e, h, taken, ⟨mark, by simpa using quote, marked⟩, rfl⟩,
      ⟨gap, gapped, blank, Nat.zero_le _⟩, rfl⟩, Pattern.text_takes.mpr ⟨bracket, rfl⟩⟩

theorem changeAccess_takes :
    (changeAccess param byKey byDot).Takes c g d h ↔
      atBoundary c = true ∧ ∃ e, c.Spans param.toList e ∧
        ((∃ f f', (∃ x, IsOpening x ∧ e.Spans x f) ∧ byKey.Takes f g f' h ∧ ∃ y, IsClosing y ∧ f'.Spans y d) ∨
          ∃ f, e.Spans ['.'] f ∧ byDot.Takes f g d h) := by
  have key {e : Cursor} :
      (.text "[" ++ .blanks ++ quoteMark ++ byKey ++ quoteMark ++ .blanks ++ .text "]" : Pattern).Takes e g d h ↔
        ∃ f f', (∃ x, IsOpening x ∧ e.Spans x f) ∧ byKey.Takes f g f' h ∧ ∃ y, IsClosing y ∧ f'.Spans y d := by
    rw [closing_takes]
    constructor
    · rintro ⟨f', ⟨f, i, opening, taken⟩, closed⟩
      obtain ⟨opened, rfl⟩ := opening_takes.mp opening
      exact ⟨f, f', opened, taken, closed⟩
    · rintro ⟨f, f', opened, taken, closed⟩
      exact ⟨f', ⟨f, g, opening_takes.mpr ⟨opened, rfl⟩, taken⟩, closed⟩
  have dot {e : Cursor} :
      (.text "." ++ byDot : Pattern).Takes e g d h ↔ ∃ f, e.Spans ['.'] f ∧ byDot.Takes f g d h := by
    constructor
    · rintro ⟨f, i, dot, taken⟩
      obtain ⟨dotted, rfl⟩ := Pattern.text_takes.mp dot
      exact ⟨f, dotted, taken⟩
    · rintro ⟨f, dotted, taken⟩
      exact ⟨f, g, Pattern.text_takes.mpr ⟨dotted, rfl⟩, taken⟩
  constructor
  · rintro ⟨e, i, ⟨f, j, ⟨rfl, rfl, bound⟩, name⟩, read⟩
    obtain ⟨named, rfl⟩ := Pattern.text_takes.mp name
    exact ⟨bound, e, named, Or.imp key.mp dot.mp read⟩
  · rintro ⟨bound, e, named, read⟩
    exact ⟨e, g, ⟨c, g, ⟨rfl, rfl, bound⟩, Pattern.text_takes.mpr ⟨named, rfl⟩⟩, Or.imp key.mpr dot.mpr read⟩

/-- The access to the record of one input. -/
def inputAccess (param input : String) : Pattern :=
  changeAccess param (.text input) (.text input ++ .boundary)

variable {input : String} {access after tail before rest : List Char} {p : Pattern} {m : Match}

theorem inputAccess_takes (word : IsWord input.toList) :
    (inputAccess param input).Takes c g d h ↔
      atBoundary c = true ∧ (∃ e access, c.Spans param.toList e ∧ e.Spans access d ∧
        (Keyed input.toList access ∨ access = '.' :: input.toList ∧ NotNext isWord d.after)) ∧ h = g := by
  rw [inputAccess, changeAccess_takes]
  refine and_congr_right fun _ => ?_
  constructor
  · rintro ⟨e, named, ⟨f, f', ⟨x, opening, opens⟩, key, y, closing, closes⟩ | ⟨f, dot, f', i, key, rfl, rfl, ends⟩⟩
    · obtain ⟨member, rfl⟩ := Pattern.text_takes.mp key
      exact ⟨⟨e, _, named, opens.trans (member.trans closes), .inl ⟨x, y, opening, closing, rfl⟩⟩, rfl⟩
    · obtain ⟨member, rfl⟩ := Pattern.text_takes.mp key
      exact ⟨⟨e, _, named, dot.trans member, .inr ⟨rfl, (atBoundary_of_inside (word.inside member)).mp ends⟩⟩,
        rfl⟩
  · rintro ⟨⟨e, _, named, spans, ⟨x, y, opening, closing, rfl⟩ | ⟨rfl, ends⟩⟩, rfl⟩
    · have opens := Cursor.spans_advance (spans.after.trans (List.append_assoc x _ _))
      have key := Cursor.spans_advance ((spans.behind opens).after.trans (List.append_assoc _ y _))
      exact ⟨e, named, .inl ⟨_, _, ⟨x, opening, opens⟩, Pattern.text_takes.mpr ⟨key, rfl⟩, y, closing,
        (spans.behind opens).behind key⟩⟩
    · have dot : e.Spans ['.'] e.next := Cursor.spans_next spans.after
      have member := Cursor.Spans.behind (x := ['.']) spans dot
      exact ⟨e, named, .inr ⟨_, dot, d, h, Pattern.text_takes.mpr ⟨member, rfl⟩, rfl, rfl,
        (atBoundary_of_inside (word.inside member)).mpr ends⟩⟩

/-- What is read of a record: nothing, or a member of it that may be missing. -/
def IsTail (tail : List Char) : Prop :=
  tail = [] ∨ ∃ field, (tail = '.' :: field ∨ tail = '?' :: '.' :: field) ∧ field ≠ [] ∧
    ∀ a ∈ field, isName a = true

/-- The pattern matches where the record of the input is read. -/
structure RecordMatch (param input : List Char) (c : Cursor) (m : Match) (access tail : List Char) : Prop where
  bound : atBoundary c = true
  chars : m.chars = param ++ (access ++ tail)
  read : Keyed input access ∨ access = '.' :: input
  further : IsTail tail
  closed : NotNext isWord m.rest.after ∨ Keyed input access ∧ tail = []

/-- All matches of the pattern read the record of the input. -/
def MatchesRecord (p : Pattern) (param input : List Char) : Prop :=
  ∀ c m, p.matchAt? c = some m → ∃ access tail, RecordMatch param input c m access tail

end Records

section RecordMatches

variable {param input access tail before rest put : List Char} {c d e : Cursor} {m : Match} {p : Pattern}

theorem Keyed.ends (keyed : Keyed input access) : ∃ front, access = front ++ [']'] := by
  obtain ⟨x, y, -, ⟨mark, gap, rfl, -⟩, rfl⟩ := keyed
  exact ⟨x ++ (input ++ mark :: gap), by simp⟩

/-- What reads a record ends in a bracket or in the name of the input. -/
theorem access_ends (word : IsWord input) (read : Keyed input access ∨ access = '.' :: input) :
    ∃ front a, access = front ++ [a] ∧ a ≠ '.' := by
  rcases read with keyed | rfl
  · obtain ⟨front, rfl⟩ := keyed.ends
    exact ⟨front, ']', rfl, by decide⟩
  · obtain ⟨front, a, concat⟩ := List.eq_nil_or_concat input |>.resolve_left word.visible
    rw [List.concat_eq_append] at concat
    refine ⟨'.' :: front, a, by simp [concat], ne_dot_of_isName (isName_of_isWord (word.letters a ?_))⟩
    simp [concat]

theorem RecordMatch.ends (word : IsWord input) (found : RecordMatch param input c m access tail) :
    NotNext (· == '.') m.chars.reverse := by
  obtain ⟨front, a, split, other⟩ := access_ends word found.read
  rw [found.chars]
  rcases found.further with rfl | ⟨field, starts, visible, letters⟩
  · simpa [split, NotNext] using other
  · obtain ⟨front', b, concat⟩ := List.eq_nil_or_concat field |>.resolve_left visible
    have last := ne_dot_of_isName (letters b (by simp [concat]))
    rcases starts with rfl | rfl <;> simpa [concat, NotNext] using last

theorem isName_of_mark {a : Char} (mark : a = '\'' ∨ a = '"') : isName a = false := by
  rcases mark with rfl | rfl <;> decide

theorem IsOpening.other {x : List Char} (opens : IsOpening x) : ∀ a ∈ x, isName a = false := by
  obtain ⟨gap, mark, rfl, blank, quote⟩ := opens
  intro a mem
  rcases List.mem_cons.mp mem with rfl | mem
  · decide
  · rcases List.mem_append.mp mem with mem | mem
    · rw [← Bool.not_eq_true]
      intro letter
      have := Pattern.not_isBlank_of_isName letter
      rw [blank a mem] at this
      cases this
    · rw [List.mem_singleton.mp mem]
      exact isName_of_mark quote

theorem IsClosing.other {x : List Char} (closes : IsClosing x) : ∀ a ∈ x, isName a = false := by
  obtain ⟨mark, gap, rfl, blank, quote⟩ := closes
  have turned := (IsOpening.other ⟨gap, mark, rfl, blank, quote⟩)
  intro a mem
  simp only [List.mem_cons, List.mem_append] at mem turned
  rcases mem with rfl | mem | rfl | mem
  · exact turned _ (by simp)
  · exact turned a (by simp [mem])
  · decide
  · cases mem

theorem IsClosing.notNext {x : List Char} (closes : IsClosing x) (rest : List Char) :
    NotNext isName (x ++ rest) := by
  obtain ⟨mark, gap, rfl, -, quote⟩ := closes
  simpa [NotNext] using isName_of_mark quote

/-- The only name that stands for itself in the access is the one in the brackets. -/
theorem freeNames_access (word : IsWord input) (read : Keyed input access ∨ access = '.' :: input)
    (inside : ∃ a cs, before = a :: cs ∧ a ≠ '.') : freeNames rest before access ⊆ [input] := by
  have letters : ∀ a ∈ input, isName a = true := fun a mem => isName_of_isWord (word.letters a mem)
  rcases read with ⟨x, y, opens, closes, rfl⟩ | rfl
  · rw [freeNames_append, freeNames_append, freeNames_other opens.other, freeNames_other closes.other,
      List.nil_append, List.append_nil]
    exact freeNames_letters letters (closes.notNext rest)
  · obtain ⟨a, cs, rfl, other⟩ := inside
    have split : '.' :: input = ['.'] ++ input := rfl
    rw [split, freeNames_append, freeNames_marks (by decide), List.nil_append]
    refine (freeNames_goesOn ?_ letters).symm ▸ List.nil_subset _
    exact not_opens_dot other

theorem freeNames_tail (further : IsTail tail) (inside : ∃ a cs, before = a :: cs ∧ a ≠ '.') :
    freeNames rest before tail = [] := by
  obtain ⟨a, cs, rfl, other⟩ := inside
  rcases further with rfl | ⟨field, rfl | rfl, -, letters⟩
  · rfl
  · have split : '.' :: field = ['.'] ++ field := rfl
    rw [split, freeNames_append, freeNames_marks (by decide), List.nil_append]
    exact freeNames_goesOn (not_opens_dot other) letters
  · have split : '?' :: '.' :: field = ['?', '.'] ++ field := rfl
    rw [split, freeNames_append, freeNames_marks (by decide), List.nil_append]
    exact freeNames_goesOn (not_opens_dot (by decide)) letters

/-- Inside of what reads a record no other name stands for itself. -/
theorem MatchesRecord.apart (matched : MatchesRecord p param input) (wordParam : IsWord param)
    (word : IsWord input) (other : param ≠ input) {x : List Char} (found : p.matchAt? c = some m)
    (spans : c.Spans x e) (visible : x ≠ []) (short : x.length < m.chars.length) :
    ¬ Stands param e d := fun stands => by
  obtain ⟨a, cs, chars, listed⟩ := stands.mem_freeNames_within wordParam found spans visible short
  obtain ⟨access, tail, record⟩ := matched c m found
  obtain ⟨b, rest, rfl, -⟩ := wordParam.head
  have letters : ∀ a ∈ b :: rest, isName a = true := fun a mem => isName_of_isWord (wordParam.letters a mem)
  obtain ⟨letter, letters'⟩ := List.forall_mem_cons.mp letters
  obtain ⟨rfl, rfl⟩ : a = b ∧ cs = rest ++ (access ++ tail) := List.cons.inj (chars.symm.trans record.chars)
  have lastParam : ∃ a' cs, rest.reverse ++ a :: c.before = a' :: cs ∧ a' ≠ '.' := by
    rcases List.eq_nil_or_concat rest with rfl | ⟨front, last, rfl⟩
    · exact ⟨a, _, rfl, ne_dot_of_isName letter⟩
    · exact ⟨last, front.reverse ++ a :: c.before, by simp, ne_dot_of_isName (letters' last (by simp))⟩
  have lastAccess : ∃ a' cs, access.reverse ++ (rest.reverse ++ a :: c.before) = a' :: cs ∧ a' ≠ '.' := by
    obtain ⟨front, last, rfl, dot⟩ := access_ends word record.read
    exact ⟨last, front.reverse ++ (rest.reverse ++ a :: c.before), by simp, dot⟩
  rw [freeNames_append, freeNames_append, freeNames_goesOn (not_opens_of_isName letter) letters',
    freeNames_tail record.further lastAccess, List.nil_append, List.append_nil] at listed
  exact other (List.mem_singleton.mp (freeNames_access word record.read lastParam listed))

/-- Replacing what reads the record of an input. -/
theorem MatchesRecord.removes (matched : MatchesRecord p param input) (wordParam : IsWord param)
    (word : IsWord input) (silent : Silent param put)
    (closed : NotNext isName put.reverse ∨ ∀ c m, p.matchAt? c = some m → NotNext isWord m.rest.after) :
    Removes p param put where
  silent := silent
  starts c m found := by
    obtain ⟨access, tail, record⟩ := matched c m found
    exact ⟨access ++ tail, record.chars.symm⟩
  ends c m found := by
    obtain ⟨access, tail, record⟩ := matched c m found
    exact record.ends word
  apart c m found := by
    obtain ⟨access, tail, record⟩ := matched c m found
    obtain ⟨-, spans, -⟩ := Pattern.matchAt?_eq_some found
    have split : c.after = param ++ (access ++ tail ++ m.rest.after) := by
      rw [spans.after, record.chars, List.append_assoc]
    have named := Cursor.spans_advance split
    exact (atBoundary_of_word wordParam named).mp record.bound
  closed c m found := by
    obtain ⟨access, tail, record⟩ := matched c m found
    rcases record.closed with settled | ⟨keyed, rfl⟩
    · exact .inr settled
    · refine closed.elim (fun last => .inl ⟨?_, last⟩) fun settled => .inr (settled c m found)
      obtain ⟨front, rfl⟩ := keyed.ends
      rw [record.chars]
      simp [NotNext]
      decide

end RecordMatches

/-! ### The passes for one input -/

/-- Reading one field of the record of an input. -/
def fieldRead (param input field : String) : Pattern :=
  inputAccess param input ++ .opt (.text "?") ++ .text ("." ++ field) ++ .boundary

/-- Reading the record of an input, but not what the input was before. -/
def recordRead (param input : String) : Pattern :=
  inputAccess param input ++ .ahead false (.opt (.text "?") ++ .text ".previousValue")

/-- The question whether an input is there. -/
def presence (input : String) : String :=
  "(this." ++ input ++ " !== undefined)"

theorem presence_toList (input : String) :
    (presence input).toList = "(this.".toList ++ (input.toList ++ " !== undefined)".toList) := by
  rw [presence, String.toList_append, String.toList_append, List.append_assoc]

theorem replaceChange_eq (param body input : String) :
    replaceChange param body input =
      (recordRead param input).replace (presence input)
        ((fieldRead param input "firstChange").replace "false"
          ((fieldRead param input "currentValue").replace ("this." ++ input) body)) :=
  rfl

/-- What the input was before is read here. -/
def Previous (rest : List Char) : Prop :=
  ".previousValue".toList <+: rest ∨ "?.previousValue".toList <+: rest

section Passes

variable {param input field : String} {c d e : Cursor} {g h : Captures} {m : Match} {access : List Char}

theorem fieldRead_matches (word : IsWord input.toList) (name : IsWord field.toList) :
    MatchesRecord (fieldRead param input field) param.toList input.toList ∧
      ∀ c m, (fieldRead param input field).matchAt? c = some m → NotNext isWord m.rest.after := by
  have each (c : Cursor) (m : Match) (found : (fieldRead param input field).matchAt? c = some m) :
      (∃ access tail, RecordMatch param.toList input.toList c m access tail) ∧ NotNext isWord m.rest.after := by
    obtain ⟨⟨e, i, ⟨f, j, ⟨f', k, read, mark⟩, member⟩, same, -, ends⟩, whole, -⟩ :=
      Pattern.matchAt?_eq_some found
    obtain ⟨bound, ⟨b, access, named, spans, kind⟩, -⟩ := (inputAccess_takes word).mp read
    obtain ⟨dotted, -⟩ := Pattern.text_takes.mp member
    rw [← same] at ends dotted
    have letters : f.Spans ('.' :: field.toList) m.rest := by simpa using dotted
    have toField : f.Spans ['.'] f.next := Cursor.spans_next letters.after
    have settled := (atBoundary_of_inside
      (name.inside (Cursor.Spans.behind (x := ['.']) letters toField))).mp ends
    have read : ∃ tail, IsTail tail ∧ f'.Spans tail m.rest := by
      have isName : ∀ a ∈ field.toList, isName a = true := fun a mem => isName_of_isWord (name.letters a mem)
      rcases Pattern.opt_takes.mp mark with mark | ⟨rfl, -⟩
      · obtain ⟨mark, -⟩ := Pattern.text_takes.mp mark
        exact ⟨_, .inr ⟨field.toList, .inr rfl, name.visible, isName⟩, mark.trans letters⟩
      · exact ⟨_, .inr ⟨field.toList, .inl rfl, name.visible, isName⟩, letters⟩
    obtain ⟨tail, further, behind⟩ := read
    refine ⟨⟨access, tail, bound, ?_, kind.imp_right And.left, further, .inl settled⟩, settled⟩
    exact List.append_cancel_right (whole.after.symm.trans (named.trans (spans.trans behind)).after)
  exact ⟨fun c m found => (each c m found).1, fun c m found => (each c m found).2⟩

theorem recordRead_matches (word : IsWord input.toList) :
    MatchesRecord (recordRead param input) param.toList input.toList := by
  intro c m found
  obtain ⟨⟨e, i, read, ahead⟩, whole, -⟩ := Pattern.matchAt?_eq_some found
  obtain ⟨bound, ⟨b, access, named, spans, kind⟩, rfl⟩ := (inputAccess_takes word).mp read
  obtain rfl : m.rest = e := ahead.1
  have far := named.trans spans
  refine ⟨access, [], bound, ?_, kind.imp_right And.left, .inl rfl, ?_⟩
  · rw [List.append_nil]
    exact List.append_cancel_right (whole.after.symm.trans far.after)
  · exact kind.elim (fun keyed => .inr ⟨keyed, rfl⟩) fun dot => .inl dot.2

theorem previous_of_takes (taken : (.opt (.text "?") ++ .text ".previousValue" : Pattern).Takes c g d h) :
    Previous c.after := by
  obtain ⟨e, i, mark, member⟩ := taken
  obtain ⟨member, -⟩ := Pattern.text_takes.mp member
  rcases Pattern.opt_takes.mp mark with mark | ⟨rfl, -⟩
  · obtain ⟨mark, -⟩ := Pattern.text_takes.mp mark
    exact .inr ⟨d.after, (mark.trans member).after.symm⟩
  · exact .inl ⟨d.after, member.after.symm⟩

/-- The record of an input that is read is matched, unless the input before the change is. -/
theorem recordRead_isSome (wordParam : IsWord param.toList) (word : IsWord input.toList)
    (stands : Stands param.toList c e) (spans : e.Spans access d) (reads : Reads input.toList access d.after)
    (now : ¬ Previous d.after) : ((recordRead param input).matchAt? c).isSome := by
  have bound : atBoundary c = true :=
    (atBoundary_of_word wordParam stands.spelled).mpr
      (notNext_mono stands.opens.fresh fun a => isName_of_isWord)
  have steady : (recordRead param input).Steady := by
    simp [recordRead, inputAccess, changeAccess, Pattern.Steady, Pattern.blanks]
  refine Pattern.matchAt?_isSome steady ⟨d, [], d, [], (inputAccess_takes word).mpr ⟨bound, ⟨e, access,
    stands.spelled, spans, reads.imp_right fun dot => ⟨dot.1, notNext_mono dot.2 fun a => isName_of_isWord⟩⟩,
    rfl⟩, ?_⟩
  refine (Pattern.notAhead_takes (by simp)).mpr ⟨rfl, rfl, fun f i taken => now (previous_of_takes taken)⟩

end Passes

/-! ### All inputs that are read -/

/-- Every reference to the parameter reads the record of one of the inputs, as it is now. -/
def OnlyReads (param : List Char) (inputs : List String) (text : List Char) : Prop :=
  ∀ x c d, (Cursor.start text).Spans x c → Stands param c d →
    ∃ input ∈ inputs, ∃ access e, d.Spans access e ∧ Reads input.toList access e.after ∧ ¬ Previous e.after

/-- A member or a key starts here. -/
def isStep (a : Char) : Bool :=
  a == '.' || a == '['

/-- Nothing is read of what stands here. -/
def Bare (rest : List Char) : Prop :=
  NotNext isStep rest

/-- The parameter is used for itself. -/
def UsesBare (param text : List Char) : Prop :=
  ∃ x c d, (Cursor.start text).Spans x c ∧ Stands param c d ∧ Bare d.after

section Passes

variable {param input : List Char} {put w z out : List Char} {c d e : Cursor} {p : Pattern}
  {access : List Char}

/-- Text of the result with no character that starts what is put in place is text of the source. -/
theorem uncopied_of_notMem (visible : put ≠ []) (none : ∀ a ∈ put.head?, a ∉ w)
    (walk : Sweeps p (fun _ => put) c (w ++ z)) : ∃ d, c.Spans w d := by
  induction w generalizing c with
  | nil => exact ⟨c, .refl c⟩
  | cons a w ih =>
      generalize result : a :: w ++ z = out at walk
      cases walk with
      | done => cases result
      | @copy _ e _ _ next _ rest =>
          obtain ⟨rfl, rfl⟩ := List.cons.inj result
          obtain ⟨d, spans⟩ := ih (fun b mem here => none b mem (List.mem_cons_of_mem a here)) rest
          exact ⟨d, next.trans spans⟩
      | put found rest =>
          obtain ⟨b, put, rfl⟩ := List.exists_cons_of_ne_nil visible
          obtain ⟨rfl, -⟩ := List.cons.inj result
          exact absurd List.mem_cons_self (none a rfl)

theorem Keyed.steps (letters : ∀ a ∈ input, isName a = true) (keyed : Keyed input access) :
    ∃ rest, access = '[' :: rest ∧ ∀ a ∈ rest, isStep a = false := by
  obtain ⟨x, y, ⟨gap, mark, rfl, blank, quote⟩, ⟨mark', gap', rfl, blank', quote'⟩, rfl⟩ := keyed
  have blanks {gap : List Char} (blank : ∀ a ∈ gap, isBlank a = true) : ∀ a ∈ gap, isStep a = false := by
    intro a mem
    rw [← Bool.not_eq_true]
    intro step
    have := blank a mem
    rcases (by simpa [isStep] using step : a = '.' ∨ a = '[') with rfl | rfl <;> revert this <;> decide
  have marks {mark : Char} (quote : mark = '\'' ∨ mark = '"') : isStep mark = false := by
    rcases quote with rfl | rfl <;> decide
  have names : ∀ a ∈ input, isStep a = false := by
    intro a mem
    rw [← Bool.not_eq_true]
    intro step
    have := letters a mem
    rcases (by simpa [isStep] using step : a = '.' ∨ a = '[') with rfl | rfl <;> revert this <;> decide
  refine ⟨gap ++ mark :: (input ++ mark' :: (gap' ++ [']'])), by simp, fun a mem => ?_⟩
  simp only [List.mem_append, List.mem_cons, List.not_mem_nil, or_false] at mem
  rcases mem with mem | rfl | mem | rfl | mem | rfl
  · exact blanks blank a mem
  · exact marks quote
  · exact names a mem
  · exact marks quote'
  · exact blanks blank' a mem
  · decide

/-- What a match reads starts with a dot or a bracket. -/
theorem MatchesRecord.steps {m : Match} (matched : MatchesRecord p param input) (found : p.matchAt? c = some m) :
    ∃ s rest, c.after = param ++ s :: rest ∧ isStep s = true := by
  obtain ⟨access, tail, record⟩ := matched c m found
  obtain ⟨-, spans, -⟩ := Pattern.matchAt?_eq_some found
  have after : c.after = param ++ (access ++ (tail ++ m.rest.after)) := by
    rw [spans.after, record.chars, List.append_assoc, List.append_assoc]
  rcases record.read with ⟨x, y, ⟨gap, mark, rfl, -⟩, -, rfl⟩ | rfl
  · exact ⟨'[', _, after, by decide⟩
  · exact ⟨'.', _, after, by decide⟩

theorem isName_of_step {a : Char} (step : isStep a = true) : isName a = false := by
  rcases (by simpa [isStep] using step : a = '.' ∨ a = '[') with rfl | rfl <;> decide

/-- No parameter stands in front of a step inside of a key in brackets. -/
theorem Keyed.apart {u y rest after : List Char} {s : Char} (keyed : Keyed input (y ++ u))
    (letters : ∀ a ∈ input, isName a = true) (wordParam : IsWord param) (visible : u ≠ []) (split : param ++ s :: rest = u ++ after)
    (step : isStep s = true) : False := by
  obtain ⟨tail, first, steps⟩ := keyed.steps letters
  obtain ⟨front, ends⟩ := keyed.ends
  have bracket : ']' ∈ u := by
    obtain ⟨front', a, rfl⟩ := List.eq_nil_or_concat u |>.resolve_left visible
    rw [List.concat_eq_append, ← List.append_assoc] at ends
    obtain ⟨-, same⟩ := List.append_inj' ends rfl
    obtain rfl : a = ']' := List.singleton_inj.mp same
    simp
  have closing : ']' ∉ param := fun mem => by
    have := wordParam.letters _ mem
    revert this
    decide
  rcases List.append_eq_append_iff.mp split with ⟨v, rfl, behind⟩ | ⟨v, rfl, -⟩
  · cases v with
    | nil => exact closing (by simpa using bracket)
    | cons s' v =>
        obtain ⟨rfl, -⟩ := List.cons.inj behind
        have mem : s ∈ tail := by
          have visible : y ++ param ≠ [] := by simp [wordParam.visible]
          obtain ⟨b, front, same⟩ := List.exists_cons_of_ne_nil visible
          rw [← List.append_assoc, same] at first
          rw [← (List.cons.inj first).2]
          simp
        rw [steps s mem] at step
        cases step
  · exact closing (List.mem_append_left _ bracket)

/-- What is put in place does not make up a read of what the input was before. -/
theorem previous_of_walk (visible : put ≠ []) (past : ∀ a ∈ put.head?, a ∉ "?.previousValue".toList)
    (walk : Sweeps p (fun _ => put) c out) (previous : Previous out) : Previous c.after := by
  have copied {w : List Char} (part : w ⊆ "?.previousValue".toList) (starts : w <+: out) : w <+: c.after := by
    obtain ⟨z, rfl⟩ := starts
    obtain ⟨d, here⟩ := uncopied_of_notMem visible (fun a mem listed => past a mem (part listed)) walk
    exact ⟨d.after, here.after.symm⟩
  exact previous.imp (copied (by decide)) (copied (List.Subset.refl _))

/-- No match starts inside of what reads the record of an input. -/
theorem MatchesRecord.unmatched_inside {other : List Char} (matched : MatchesRecord p param other)
    (removes : Removes p param put) (wordParam : IsWord param) (word : IsWord input)
    (distinct : param ≠ input) (inside : ¬ NotNext isWord c.before) (spans : c.Spans access d)
    (reads : Reads input access d.after) {y : List Char} (reached : c.Spans y e)
    (short : y.length < access.length) : p.matchAt? e = none := by
  cases found : p.matchAt? e with
  | none => rfl
  | some m =>
      exfalso
      obtain ⟨s, rest, after, step⟩ := matched.steps found
      have apart := removes.apart e m found
      have split : y ++ (param ++ s :: rest) = access ++ d.after := by
        rw [← after, ← reached.after, spans.after]
      obtain ⟨u, rfl⟩ : y <+: access :=
        List.prefix_of_prefix_length_le ⟨_, split⟩ ⟨_, rfl⟩ (Nat.le_of_lt short)
      have visible : u ≠ [] := by
        rintro rfl
        simp at short
      rw [List.append_assoc] at split
      replace split := List.append_cancel_left split
      rcases reads with keyed | ⟨dot, ends⟩
      · exact keyed.apart (fun a mem => isName_of_isWord (word.letters a mem)) wordParam visible split step
      · cases y with
        | nil =>
            obtain rfl := reached.unique (.refl c)
            exact inside apart
        | cons b y =>
            obtain ⟨rfl, same⟩ := List.cons.inj dot
            rcases List.eq_nil_or_concat y with rfl | ⟨front, a, rfl⟩
            · obtain rfl : u = input := same
              have read : (param ++ s :: rest).takeWhile isName = param :=
                takeWhile_append_of_notNext
                  (List.all_eq_true.mpr fun a mem => isName_of_isWord (wordParam.letters a mem))
                  (by simpa [NotNext] using isName_of_step step)
              have read' : (u ++ d.after).takeWhile isName = u :=
                takeWhile_append_of_notNext
                  (List.all_eq_true.mpr fun a mem => isName_of_isWord (word.letters a mem)) ends
              exact distinct (read.symm.trans (split ▸ read'))
            · have letter := word.letters a (by rw [← same]; simp)
              have := apart a (by rw [reached.before]; simp)
              rw [letter] at this
              cases this

variable {inputs inputs' : List String} {s text : String}

/-- One pass keeps it so that only records of inputs are read, and it does away with the input whose
records it matches. -/
theorem OnlyReads.replace {other : List Char} (matched : MatchesRecord p param other)
    (removes : Removes p param text.toList) (wordParam : IsWord param)
    (words : ∀ input ∈ inputs, IsWord input.toList ∧ param ≠ input.toList)
    (past : ∀ a ∈ text.toList.head?, a ∉ "?.previousValue".toList)
    (takes : ∀ input ∈ inputs, input ∈ inputs' ∨ ∀ c e access d, Stands param c e → e.Spans access d →
      Reads input.toList access d.after → ¬ Previous d.after → (p.matchAt? c).isSome)
    (only : OnlyReads param inputs s.toList) : OnlyReads param inputs' (p.replace text s).toList := by
  intro x' c' d' reached' stands'
  obtain ⟨x, c, d, reached, none, stands, walk⟩ := removes.of_replace wordParam reached' stands'
  obtain ⟨input, mem, access, e, spans, reads, now⟩ := only x c d reached stands
  obtain ⟨word, distinct⟩ := words input mem
  have kept : input ∈ inputs' := by
    refine (takes input mem).resolve_right fun all => ?_
    have found := all c d access e stands spans reads now
    rw [none] at found
    cases found
  obtain ⟨z, after, walk⟩ := walk.unskip spans fun y g far short =>
    matched.unmatched_inside removes wordParam word distinct (wordParam.inside stands.spelled) spans reads far
      short
  have spans' := Cursor.spans_advance after
  rw [← spans'.remaining after] at walk
  refine ⟨input, kept, access, _, spans', ?_, fun before => now ?_⟩
  · rcases reads with keyed | ⟨rfl, ends⟩
    · exact .inl keyed
    · have toName : d.Spans ['.'] d.next := Cursor.spans_next spans.after
      have named := Cursor.Spans.behind (x := ['.']) spans toName
      have head := removes.head (word.inside named) walk
      exact .inr ⟨rfl, by rwa [NotNext, head]⟩
  · exact previous_of_walk removes.silent.visible past walk before

/-- One pass keeps what is used for itself. -/
theorem UsesBare.replace {other : List Char} (matched : MatchesRecord p param other)
    (removes : Removes p param text.toList) (wordParam : IsWord param) (word : IsWord other)
    (distinct : param ≠ other) (uses : UsesBare param s.toList) : UsesBare param (p.replace text s).toList := by
  obtain ⟨x, c, d, reached, stands, bare⟩ := uses
  have none : p.matchAt? c = none := by
    cases found : p.matchAt? c with
    | none => rfl
    | some m =>
        obtain ⟨a, rest, after, step⟩ := matched.steps found
        have := bare a (by rw [stands.spelled.remaining after]; rfl)
        rw [step] at this
        cases this
  obtain ⟨y, e, g, reached', stands', walk⟩ := removes.replace_of wordParam
    (fun _ _ _ _ _ => matched.apart wordParam word distinct) reached none stands
  refine ⟨y, e, g, reached', stands', ?_⟩
  rw [Bare, NotNext, removes.head (wordParam.inside stands.spelled) walk]
  exact bare

end Passes

section Inputs

variable {param : String} {inputs : List String} {input body : String}

/-- The three passes for an input, in order. -/
theorem replaceChange_passes (wordParam : IsWord param.toList) (word : IsWord input.toList)
    (reserved : param ∉ ["this", "false", "undefined"]) :
    (MatchesRecord (fieldRead param input "currentValue") param.toList input.toList ∧
        Removes (fieldRead param input "currentValue") param.toList ("this." ++ input).toList) ∧
      (MatchesRecord (fieldRead param input "firstChange") param.toList input.toList ∧
        Removes (fieldRead param input "firstChange") param.toList "false".toList) ∧
      MatchesRecord (recordRead param input) param.toList input.toList ∧
        Removes (recordRead param input) param.toList (presence input).toList := by
  simp only [List.mem_cons, List.not_mem_nil, or_false, not_or, ← String.toList_inj] at reserved
  obtain ⟨this, no, undefined⟩ := reserved
  have letters : ∀ a ∈ input.toList, isName a = true := fun a mem => isName_of_isWord (word.letters a mem)
  have currentValue : IsWord "currentValue".toList := .ofAll (by decide) (by decide)
  have firstChange : IsWord "firstChange".toList := .ofAll (by decide) (by decide)
  obtain ⟨current, settled⟩ := fieldRead_matches word currentValue
  obtain ⟨first, settled'⟩ := fieldRead_matches word firstChange
  refine ⟨⟨current, current.removes wordParam word ?_ (.inr settled)⟩,
    ⟨first, first.removes wordParam word (false_silent wordParam no) (.inr settled')⟩,
    recordRead_matches word, (recordRead_matches word).removes wordParam word ?_ (.inl ?_)⟩
  · rw [String.toList_append]
    exact thisMember_silent word.visible letters wordParam this
  · rw [presence_toList]
    exact present_silent letters wordParam this undefined
  · rw [presence_toList]
    simp [NotNext]
    decide

theorem OnlyReads.replaceChange (wordParam : IsWord param.toList)
    (reserved : param ∉ ["this", "false", "undefined"])
    (words : ∀ i ∈ input :: inputs, IsWord i.toList ∧ param.toList ≠ i.toList)
    (only : OnlyReads param.toList (input :: inputs) body.toList) :
    OnlyReads param.toList inputs (replaceChange param body input).toList := by
  have word := (words input List.mem_cons_self).1
  obtain ⟨⟨current, puts⟩, ⟨first, puts'⟩, present, puts''⟩ := replaceChange_passes wordParam word reserved
  rw [replaceChange_eq]
  have afterCurrent := only.replace current puts wordParam words (by simp) fun i mem => .inl mem
  have past : ∀ a ∈ "false".toList.head?, a ∉ "?.previousValue".toList := by
    rintro a ⟨⟩
    decide
  have afterFirst := afterCurrent.replace first puts' wordParam words past fun i mem => .inl mem
  refine afterFirst.replace present puts'' wordParam words (by simp [presence_toList]) fun i mem => ?_
  rcases List.mem_cons.mp mem with rfl | mem
  · exact .inr fun c e access d => recordRead_isSome wordParam word
  · exact .inl mem

theorem UsesBare.replaceChange (wordParam : IsWord param.toList)
    (reserved : param ∉ ["this", "false", "undefined"]) (word : IsWord input.toList)
    (distinct : param.toList ≠ input.toList) (uses : UsesBare param.toList body.toList) :
    UsesBare param.toList (replaceChange param body input).toList := by
  obtain ⟨⟨current, puts⟩, ⟨first, puts'⟩, present, puts''⟩ := replaceChange_passes wordParam word reserved
  rw [replaceChange_eq]
  exact ((uses.replace current puts wordParam word distinct).replace first puts' wordParam word distinct).replace
    present puts'' wordParam word distinct

end Inputs

/-! ### The inputs that are read -/

/-- The access to the record of any input. -/
def anyAccess (param : String) : Pattern :=
  changeAccess param (.group 1 .name) (.group 2 .name)

/-- The input whose record is read. -/
def accessName (m : Match) : String :=
  match m.group? 1 with
  | some n => n
  | none => m.group 2

section Reads

variable {param : String} {c d e : Cursor} {m : Match} {input access x : List Char}

theorem anyAccess_steady : (anyAccess param).Steady := by
  simp [anyAccess, changeAccess, Pattern.Steady, Pattern.blanks, Pattern.name]

/-- What the pattern matches is an access to a record, of some name. -/
theorem anyAccess_matches (found : (anyAccess param).matchAt? c = some m) :
    ∃ name access, m.chars = param.toList ++ access ∧ (∀ a ∈ name, isName a = true) ∧
      (Keyed name access ∨ access = '.' :: name) := by
  obtain ⟨taken, whole, -⟩ := Pattern.matchAt?_eq_some found
  obtain ⟨-, e, named, ⟨f, f', ⟨x, opening, opens⟩, ⟨g, ⟨⟨name, key, letters, -⟩, -⟩, -⟩, y, closing, closes⟩ |
    ⟨f, dot, g, ⟨⟨name, member, letters, -⟩, -⟩, -⟩⟩ := changeAccess_takes.mp taken
  · refine ⟨name, x ++ (name ++ y), ?_, letters, .inl ⟨x, y, opening, closing, rfl⟩⟩
    exact List.append_cancel_right
      (whole.after.symm.trans (named.trans (opens.trans (key.trans closes))).after)
  · refine ⟨name, '.' :: name, ?_, letters, .inr rfl⟩
    exact List.append_cancel_right (whole.after.symm.trans (named.trans (dot.trans member)).after)

/-- A reference to the parameter of which something is read is in no earlier match. -/
theorem anyAccess_apart (word : IsWord param.toList) (found : (anyAccess param).matchAt? c = some m)
    (spans : c.Spans x e) (visible : x ≠ []) (short : x.length < m.chars.length)
    (stands : Stands param.toList e d) (read : ¬ Bare d.after) : False := by
  obtain ⟨name, access, chars, letters, kind⟩ := anyAccess_matches found
  obtain ⟨-, whole, -⟩ := Pattern.matchAt?_eq_some found
  have ofParam : ∀ a ∈ param.toList, isName a = true := fun a mem => isName_of_isWord (word.letters a mem)
  -- the character before the place is no part of a name
  have fresh (front : List Char) (a : Char) (ends : x = front ++ [a]) : isName a = false :=
    stands.opens.fresh a (by rw [spans.before, ends]; simp)
  have split : x ++ e.after = param.toList ++ access ++ m.rest.after := by
    rw [← spans.after, whole.after, chars]
  have long : param.toList.length ≤ x.length := Nat.le_of_not_lt fun before => by
    have part : x <+: param.toList :=
      List.prefix_of_prefix_length_le ⟨_, split⟩ ⟨_, (List.append_assoc ..).symm⟩ (Nat.le_of_lt before)
    obtain ⟨front, a, rfl⟩ := List.eq_nil_or_concat x |>.resolve_left visible
    have := fresh front a (List.concat_eq_append ..)
    rw [ofParam a (part.subset (by simp))] at this
    cases this
  obtain ⟨y, rfl⟩ : param.toList <+: x := by
    rw [List.append_assoc] at split
    exact List.prefix_of_prefix_length_le ⟨_, split.symm⟩ ⟨_, rfl⟩ long
  rw [chars, List.length_append, List.length_append] at short
  rw [List.append_assoc, List.append_assoc] at split
  replace split := List.append_cancel_left split
  obtain ⟨u, rfl⟩ : y <+: access :=
    List.prefix_of_prefix_length_le ⟨_, split⟩ ⟨_, rfl⟩ (by omega)
  obtain ⟨s, rest, starts, step⟩ : ∃ s rest, d.after = s :: rest ∧ isStep s = true := by
    cases after : d.after with
    | nil => simp [Bare, NotNext, after] at read
    | cons s rest => exact ⟨s, rest, rfl, by simpa [Bare, NotNext, after] using read⟩
  have inside : param.toList ++ s :: rest = u ++ m.rest.after := by
    rw [← starts, ← stands.spelled.after]
    rw [List.append_assoc] at split
    exact List.append_cancel_left split
  rcases kind with keyed | dot
  · refine keyed.apart letters word ?_ inside step
    rintro rfl
    simp at short
  · rcases List.eq_nil_or_concat y with rfl | ⟨front, a, rfl⟩
    · obtain ⟨b, tail, head, letter⟩ := word.head
      obtain rfl : u = '.' :: name := dot
      rw [head] at inside
      obtain ⟨rfl, -⟩ := List.cons.inj inside
      revert letter
      decide
    · rw [List.concat_eq_append] at dot
      cases front with
      | nil =>
          obtain ⟨rfl, -⟩ := List.cons.inj dot
          obtain ⟨tail, last, concat⟩ := List.eq_nil_or_concat param.toList |>.resolve_left word.visible
          have closed : ¬ Opens ('.' :: last :: (tail.reverse ++ c.before)) :=
            not_opens_dot (ne_dot_of_isName (ofParam last (by simp [concat])))
          have opens := stands.opens
          rw [spans.before, concat] at opens
          exact closed (by simpa using opens)
      | cons b front =>
          obtain ⟨-, same⟩ := List.cons.inj dot
          have other : isName a = false := fresh (param.toList ++ b :: front) a (by simp)
          rw [letters a (by rw [← same]; simp)] at other
          cases other

theorem IsOpening.unique {x x' r r' : List Char} (opens : IsOpening x) (opens' : IsOpening x')
    (same : x ++ r = x' ++ r') : x = x' := by
  obtain ⟨gap, mark, rfl, blank, quote⟩ := opens
  obtain ⟨gap', mark', rfl, blank', quote'⟩ := opens'
  have ends {mark : Char} {r : List Char} (quote : mark = '\'' ∨ mark = '"') : NotNext isBlank (mark :: r) := by
    rcases quote with rfl | rfl <;> simp [NotNext] <;> decide
  have inner : gap ++ (mark :: r) = gap' ++ (mark' :: r') := by simpa using same
  have read := takeWhile_append_of_notNext (List.all_eq_true.mpr blank) (ends quote (r := r))
  have read' := takeWhile_append_of_notNext (List.all_eq_true.mpr blank') (ends quote' (r := r'))
  obtain rfl : gap = gap' := read.symm.trans (inner ▸ read')
  obtain ⟨rfl, -⟩ := List.cons.inj (List.append_cancel_left inner)
  rfl

theorem run_orElse (p q : Pattern) (c : Cursor) (g : Pattern.Captures)
    (k : Cursor → Pattern.Captures → Option (Cursor × Pattern.Captures)) :
    (p <|> q).run c g k = (p.run c g k).or (q.run c g k) := by
  change (Pattern.alt p q).run c g k = _
  rw [Pattern.run]
  cases p.run c g k <;> rfl

/-- A member is read as far as its name goes. -/
theorem anyAccess_member (dot : ∃ rest, e.after = '.' :: (input ++ rest) ∧ NotNext isName rest)
    (letters : ∀ a ∈ input, isName a = true) (named : c.Spans param.toList e)
    (found : (anyAccess param).matchAt? c = some m) : m.groups = [(2, input)] := by
  obtain ⟨rest, starts, ends⟩ := dot
  unfold Pattern.matchAt? Pattern.matchThen? at found
  split at found
  · rename_i d groups ran
    cases found
    obtain ⟨e', h, front, ran⟩ := Pattern.run_takes (show Pattern.run _ _ _ (fun c g =>
      (.text "[" ++ .blanks ++ quoteMark ++ .group 1 .name ++ quoteMark ++ .blanks ++ .text "]" <|>
        .text "." ++ .group 2 .name : Pattern).run c g fun c g => some (c, g)) = _ from ran)
    obtain ⟨f, j, ⟨rfl, rfl, -⟩, name⟩ := front
    obtain ⟨named', rfl⟩ := Pattern.text_takes.mp name
    obtain rfl := named.unique named'
    rcases Option.or_eq_some_iff.mp ((run_orElse _ _ _ _ _).symm.trans ran) with key | ⟨-, ran⟩
    · obtain ⟨g, i, taken, -⟩ := Pattern.run_takes key
      obtain ⟨f', ⟨f, j, opening, -⟩, -⟩ := closing_takes.mp taken
      obtain ⟨⟨x, ⟨gap, mark, rfl, -⟩, opens⟩, -⟩ := opening_takes.mp opening
      have := starts.symm.trans opens.after
      simp at this
    · obtain ⟨f, i, dotted, ran⟩ := Pattern.run_takes (show Pattern.run _ _ _ (fun c g =>
        (Pattern.group 2 .name).run c g fun c g => some (c, g)) = _ from ran)
      obtain ⟨dot, rfl⟩ := Pattern.text_takes.mp dotted
      have after : f.after = input ++ rest := dot.remaining starts
      have whole : f.after.takeWhile isName = input := by
        rw [after, takeWhile_append_of_notNext (List.all_eq_true.mpr letters) ends]
      have member := Cursor.spans_while isName f
      have nonempty : 1 ≤ (f.after.takeWhile isName).length := by
        obtain ⟨f', x, span, named, enough, -⟩ := Pattern.runMany_eq_some
          (show Pattern.runMany _ _ _ _ _ f.before f.after f.offset = _ from ran)
        refine Nat.le_trans enough ?_
        rw [span.after, List.takeWhile_append_of_pos named]
        simp
      have longest := Pattern.runMany_longest member nonempty
        (k := fun c' g' => some (c', (2, f.after.take (c'.offset - f.offset)) :: g')) (g := []) rfl
      obtain ⟨-, rfl⟩ := Prod.mk.inj (Option.some.inj (longest.symm.trans ran))
      rw [member.offset, Nat.add_sub_cancel_left, whole, after, List.take_left]
  · cases found

/-- What is read of the parameter is found, with the name of the input. -/
theorem anyAccess_reads (word : IsWord param.toList) (visible : input ≠ [])
    (letters : ∀ a ∈ input, isName a = true) (stands : Stands param.toList c e) (spans : e.Spans access d)
    (reads : Reads input access d.after) :
    ∃ m, (anyAccess param).matchAt? c = some m ∧ accessName m = String.ofList input := by
  have bound : atBoundary c = true :=
    (atBoundary_of_word word stands.spelled).mpr (notNext_mono stands.opens.fresh fun a => isName_of_isWord)
  have long : 1 ≤ input.length := List.length_pos_iff.mpr visible
  rcases reads with ⟨x, y, opening, closing, rfl⟩ | ⟨rfl, ends⟩
  · have opens := Cursor.spans_advance (spans.after.trans (List.append_assoc x _ _))
    have key := Cursor.spans_advance ((spans.behind opens).after.trans (List.append_assoc _ y _))
    have found : ((anyAccess param).matchAt? c).isSome :=
      Pattern.matchAt?_isSome anyAccess_steady ⟨d, _, changeAccess_takes.mpr ⟨bound, e, stands.spelled, .inl
        ⟨_, _, ⟨x, opening, opens⟩, ⟨_, ⟨⟨input, key, letters, long⟩, rfl⟩, rfl⟩, y, closing,
          (spans.behind opens).behind key⟩⟩⟩
    obtain ⟨m, found⟩ := Option.isSome_iff_exists.mp found
    refine ⟨m, found, ?_⟩
    obtain ⟨taken, -⟩ := Pattern.matchAt?_eq_some found
    obtain ⟨-, e', named, ⟨f, f', ⟨x', opening', opens'⟩, ⟨g, ⟨⟨name, key', letters', -⟩, -⟩, groups⟩, y',
      closing', closes'⟩ | ⟨f, dot, -⟩⟩ := changeAccess_takes.mp taken
    · obtain rfl := stands.spelled.unique named
      obtain rfl := opening.unique opening' (opens.after.symm.trans opens'.after)
      obtain rfl := opens.unique opens'
      have same := key.after.symm.trans key'.after
      rw [key.remaining ((spans.behind opens).after.trans (List.append_assoc _ y _)), closes'.after] at same
      have read := takeWhile_append_of_notNext (List.all_eq_true.mpr letters) (closing.notNext d.after)
      have read' := takeWhile_append_of_notNext (List.all_eq_true.mpr letters') (closing'.notNext m.rest.after)
      obtain rfl : input = name := read.symm.trans (same ▸ read')
      have taken : (e.advance x.length).after.take (f'.offset - (e.advance x.length).offset) = input := by
        rw [key'.offset, Nat.add_sub_cancel_left, key'.after, List.take_left]
      simp [accessName, Match.group?, groups, taken]
    · obtain rfl := stands.spelled.unique named
      obtain ⟨gap, mark, rfl, -⟩ := opening
      have := dot.after.symm.trans spans.after
      simp at this
  · have dot : e.Spans ['.'] e.next := Cursor.spans_next spans.after
    have member := Cursor.Spans.behind (x := ['.']) spans dot
    have found : ((anyAccess param).matchAt? c).isSome :=
      Pattern.matchAt?_isSome anyAccess_steady ⟨d, _, changeAccess_takes.mpr ⟨bound, e, stands.spelled, .inr
        ⟨_, dot, _, ⟨⟨input, member, letters, long⟩, rfl⟩, rfl⟩⟩⟩
    obtain ⟨m, found⟩ := Option.isSome_iff_exists.mp found
    have groups := anyAccess_member ⟨d.after, spans.after, ends⟩ letters stands.spelled found
    exact ⟨m, found, by simp [accessName, Match.group?, Match.group, groups]⟩

end Reads

/-! ### The two kinds of effects -/

/-- Who does not mention what an input was before does not read it. -/
theorem not_previous {x access : List Char} {body : String} {c d : Cursor}
    (silent : occursIn "previousValue" body = false) (reached : (Cursor.start body.toList).Spans x c)
    (spans : c.Spans access d) : ¬ Previous d.after := by
  have split : body.toList = x ++ (access ++ d.after) := by
    rw [← spans.after]
    exact reached.after
  have mentioned (front : List Char) {rest : List Char}
      (same : d.after = front ++ ("previousValue".toList ++ rest)) : False := by
    have visible : "previousValue".toList ≠ [] := by decide
    have found := breakOn?_isSome visible (x ++ (access ++ front)) rest
    have whole : body.toList = x ++ (access ++ front) ++ ("previousValue".toList ++ rest) := by
      rw [split, same]
      simp only [List.append_assoc]
    rw [← whole] at found
    rw [occursIn, found] at silent
    cases silent
  rintro (⟨rest, same⟩ | ⟨rest, same⟩)
  · exact mentioned ['.'] same.symm
  · exact mentioned ['?', '.'] same.symm

section Changes

variable {method : MethodDecl} {param : Param} {others : List Param} {inputs : List InputProp}

/-- What follows reads the record of one of the inputs. -/
def ReadsInput (inputs : List InputProp) (rest : List Char) : Prop :=
  ∃ input ∈ inputs, ∃ access after, rest = access ++ after ∧ Reads input.name.toList access after

/-- The inputs whose records the method reads. -/
def inputsRead (param body : String) (inputs : List InputProp) : List String :=
  ((((anyAccess param).findAll body).map accessName).filter (inputs.map (·.name)).contains).eraseDups

theorem mem_inputsRead {body : String} (word : IsWord param.name.toList) {input : InputProp}
    (mem : input ∈ inputs) (visible : input.name ≠ "") (letters : ∀ a ∈ input.name.toList, isName a = true)
    {x access : List Char} {c d e : Cursor} (reached : (Cursor.start body.toList).Spans x c)
    (stands : Stands param.name.toList c d) (spans : d.Spans access e)
    (reads : Reads input.name.toList access e.after) : input.name ∈ inputsRead param.name body inputs := by
  have spelled : input.name.toList ≠ [] := by simpa using visible
  obtain ⟨m, found, named⟩ := anyAccess_reads word spelled letters stands spans reads
  have nonempty (c : Cursor) (m : Match) (found : (anyAccess param.name).matchAt? c = some m) : m.chars ≠ [] := by
    obtain ⟨name, access, chars, -⟩ := anyAccess_matches found
    simp [chars, word.visible]
  have read : ¬ Bare d.after := by
    rw [spans.after]
    rcases reads with ⟨x, y, ⟨gap, mark, rfl, -⟩, -, rfl⟩ | ⟨rfl, -⟩ <;> simp [Bare, NotNext, isStep]
  have listed : m ∈ (anyAccess param.name).findAll body := by
    refine (Pattern.findAll_covers nonempty reached found).resolve_right ?_
    rintro ⟨y, g, m', z, -, found', toPlace, behind, short⟩
    exact anyAccess_apart word found' toPlace behind short stands read
  rw [String.ofList_toList] at named
  rw [inputsRead, List.mem_eraseDups, List.mem_filter, List.mem_map]
  refine ⟨⟨m, listed, named⟩, ?_⟩
  rw [List.contains_iff_mem]
  exact List.mem_map_of_mem mem

/-- The effect of a change, and what is noted about the method. -/
theorem changesEffect_run (inputs : List InputProp) (params : method.params = param :: others) (s : Sink) :
    ∃ e, (changesEffect method inputs).run.run s =
        (.ok e, if occursIn "previousValue" method.body then
          s.add .warning .unsupportedConstruct
            "ngOnChanges reads previousValue, which has no counterpart in an effect" (some method.line) none
          else s) ∧
      e.body = (inputsRead param.name method.body inputs).foldl (replaceChange param.name) method.body := by
  have named : (method.params.head?.map (·.name)).getD "changes" = param.name := by rw [params]; rfl
  refine ⟨{
    trigger := .changes
    body := (inputsRead param.name method.body inputs).foldl (replaceChange param.name) method.body
    deps := if (inputsRead param.name method.body inputs).isEmpty then inputs.map (·.name)
      else inputsRead param.name method.body inputs
    origin := ["ngOnChanges"] }, ?_, rfl⟩
  unfold changesEffect
  rw [named]
  cases mentioned : occursIn "previousValue" method.body <;> rfl

theorem OnlyReads.foldl (wordParam : IsWord param.name.toList)
    (reserved : param.name ∉ ["this", "false", "undefined"]) {read : List String} {body : String}
    (words : ∀ i ∈ read, IsWord i.toList ∧ param.name.toList ≠ i.toList)
    (only : OnlyReads param.name.toList read body.toList) :
    ¬ Refers param.name.toList (read.foldl (Model.replaceChange param.name) body).toList := by
  induction read generalizing body with
  | nil =>
      intro refers
      obtain ⟨x, c, d, reached, stands⟩ := refers_iff.mp refers
      obtain ⟨i, mem, -⟩ := only x c d reached stands
      cases mem
  | cons i read ih =>
      have further := only.replaceChange wordParam reserved words
      rw [List.foldl_cons]
      exact ih (fun j mem => words j (List.mem_cons_of_mem i mem)) further

theorem UsesBare.foldl (wordParam : IsWord param.name.toList)
    (reserved : param.name ∉ ["this", "false", "undefined"]) {read : List String} {body : String}
    (words : ∀ i ∈ read, IsWord i.toList ∧ param.name.toList ≠ i.toList)
    (uses : UsesBare param.name.toList body.toList) :
    Refers param.name.toList (read.foldl (Model.replaceChange param.name) body).toList := by
  induction read generalizing body with
  | nil =>
      obtain ⟨x, c, d, reached, stands, -⟩ := uses
      exact refers_iff.mpr ⟨x, c, d, reached, stands⟩
  | cons i read ih =>
      obtain ⟨word, distinct⟩ := words i List.mem_cons_self
      have further := uses.replaceChange wordParam reserved word distinct
      rw [List.foldl_cons]
      exact ih (fun j mem => words j (List.mem_cons_of_mem i mem)) further

theorem word_of_mem_inputsRead {body : String}
    (words : ∀ i ∈ inputs, IsWord i.name.toList ∧ param.name ≠ i.name) {i : String}
    (mem : i ∈ inputsRead param.name body inputs) : IsWord i.toList ∧ param.name.toList ≠ i.toList := by
  rw [inputsRead, List.mem_eraseDups, List.mem_filter, List.contains_iff_mem] at mem
  obtain ⟨input, listed, rfl⟩ := List.mem_map.mp mem.2
  obtain ⟨word, distinct⟩ := words input listed
  exact ⟨word, fun same => distinct (String.toList_inj.mp same)⟩

/-- A method that only reads the records of inputs, as they are now, leaves no reference to its
parameter. -/
theorem onlyReads_of_readsInput {body : String} (wordParam : IsWord param.name.toList)
    (words : ∀ i ∈ inputs, IsWord i.name.toList ∧ param.name ≠ i.name)
    (now : occursIn "previousValue" body = false)
    (all : ∀ place, RefersAt param.name.toList body.toList place →
      ReadsInput inputs (body.toList.drop (place + param.name.toList.length))) :
    OnlyReads param.name.toList (inputsRead param.name body inputs) body.toList := by
  intro x c d reached stands
  have front : body.toList.take x.length = x := by
    have split : body.toList = x ++ c.after := reached.after
    rw [split, List.take_left]
  have place : body.toList.drop (x.length + param.name.toList.length) = d.after := by
    have split : body.toList = x ++ (param.name.toList ++ d.after) := by
      rw [← stands.spelled.after]
      exact reached.after
    rw [← List.drop_drop, split, List.drop_left, List.drop_left]
  obtain ⟨input, mem, access, after, rest, reads⟩ :=
    all x.length (refersAt_iff.mpr ⟨c, d, by rwa [front], stands⟩)
  rw [place] at rest
  have spans := Cursor.spans_advance rest
  rw [← spans.remaining rest] at reads
  have word := (words input mem).1
  refine ⟨input.name, ?_, access, _, spans, reads, ?_⟩
  · exact mem_inputsRead wordParam mem (by simpa using word.visible)
      (fun a mem => isName_of_isWord (word.letters a mem)) reached stands spans reads
  · exact not_previous now (reached.trans stands.spelled) spans

/-- What is left of the parameter of a method that becomes an effect.  The effect of a setter refers to it
exactly where the setter spreads it.  About a method that hears of changed inputs a warning is noted if it
mentions what an input was before; if not, and if it only reads the records of inputs, the effect does not
refer to its parameter.  Where the method uses the parameter for itself, the effect does. -/
theorem changeParameter_left (params : method.params = param :: others) (word : IsWord param.name.toList)
    (reserved : param.name ∉ ["this", "false", "undefined"]) :
    (∀ input, input ≠ "" → (∀ a ∈ input.toList, isName a = true) → param.name ≠ input →
      (Refers param.name.toList (setterEffect method input).body.toList ↔
        ∃ place, RefersAt param.name.toList method.body.toList place ∧
          3 ≤ dots (method.body.toList.take place).reverse)) ∧
    ∀ inputs : List InputProp, (∀ i ∈ inputs, IsWord i.name.toList ∧ param.name ≠ i.name) → ∀ s : Sink,
      ∃ e s', (changesEffect method inputs).run.run s = (.ok e, s') ∧
        (occursIn "previousValue" method.body = true ∧
            s' = s.add .warning .unsupportedConstruct
              "ngOnChanges reads previousValue, which has no counterpart in an effect" (some method.line) none ∨
          s' = s ∧ (Refers param.name.toList e.body.toList →
            ∃ place, RefersAt param.name.toList method.body.toList place ∧
              ¬ ReadsInput inputs (method.body.toList.drop (place + param.name.toList.length)))) ∧
        ((∃ place, RefersAt param.name.toList method.body.toList place ∧
            Bare (method.body.toList.drop (place + param.name.toList.length))) →
          Refers param.name.toList e.body.toList) := by
  constructor
  · intro input visible letters other
    exact setterEffect_refers params word (by simp_all) other visible letters
  · intro inputs words s
    have ofRead {i : String} (mem : i ∈ inputsRead param.name method.body inputs) :=
      word_of_mem_inputsRead words mem
    obtain ⟨e, run, body⟩ := changesEffect_run inputs params s
    refine ⟨e, _, run, ?_, ?_⟩
    · cases mentioned : occursIn "previousValue" method.body with
      | true => exact .inl ⟨rfl, rfl⟩
      | false =>
          refine .inr ⟨rfl, fun refers => ?_⟩
          refine Classical.byContradiction fun none => ?_
          have all : ∀ place, RefersAt param.name.toList method.body.toList place →
              ReadsInput inputs (method.body.toList.drop (place + param.name.toList.length)) :=
            fun place here => Classical.not_not.mp fun other => none ⟨place, here, other⟩
          rw [body] at refers
          exact (onlyReads_of_readsInput word words mentioned all).foldl word reserved (fun i => ofRead) refers
    · rintro ⟨place, here, bare⟩
      obtain ⟨c, d, reached, stands⟩ := refersAt_iff.mp here
      have rest : method.body.toList.drop (place + param.name.toList.length) = d.after := by
        have front : method.body.toList = method.body.toList.take place ++ method.body.toList.drop place :=
          (List.take_append_drop ..).symm
        rw [← List.drop_drop, ← reached.remaining front, stands.spelled.after, List.drop_left]
      rw [rest] at bare
      rw [body]
      exact UsesBare.foldl word reserved (fun i => ofRead) ⟨_, c, d, reached, stands, bare⟩

/-- A setter that does not spread its value, and a method that reads the records of two inputs: nothing
is left of their parameters. -/
theorem changeParameter_left_items :
    let setter : MethodDecl := { name := "items", params := [{ name := "value" }], body := "this.all = sort(value);" }
    let hook : MethodDecl :=
      { name := "ngOnChanges", params := [{ name := "changes" }]
        body := "if (changes['items'] || changes.count?.currentValue > 1) sum();" }
    let inputs : List InputProp := [{ name := "items", isSetter := true }, { name := "count" }]
    (IsWord "value".toList ∧ IsWord "changes".toList ∧
      ∀ i ∈ inputs, IsWord i.name.toList ∧ "changes" ≠ i.name) ∧
      ¬ Refers "value".toList (setterEffect setter "items").body.toList ∧
      ∀ s : Sink, ∃ e, (changesEffect hook inputs).run.run s = (.ok e, s) ∧
        ¬ Refers "changes".toList e.body.toList := by
  intro setter hook inputs
  have value : IsWord "value".toList := .ofAll (by decide) (by decide)
  have changes : IsWord "changes".toList := .ofAll (by decide) (by decide)
  have words : ∀ i ∈ inputs, IsWord i.name.toList ∧ "changes" ≠ i.name := by
    intro i mem
    rcases List.mem_cons.mp mem with rfl | mem
    · exact ⟨.ofAll (by decide) (by decide), by decide⟩
    · obtain rfl := List.mem_singleton.mp mem
      exact ⟨.ofAll (by decide) (by decide), by decide⟩
  have ofSetter : setter.params = [{ name := "value" }] := rfl
  have ofHook : hook.params = [{ name := "changes" }] := rfl
  refine ⟨⟨value, changes, words⟩, ?_, fun s => ?_⟩
  · intro refers
    obtain ⟨all, -⟩ := changeParameter_left ofSetter value (by decide)
    obtain ⟨place, here, spread⟩ := (all "items" (by decide) (List.all_eq_true.mp (by decide)) (by decide)).mp
      refers
    have none : ∀ place < setter.body.toList.length, RefersAt "value".toList setter.body.toList place →
        ¬ 3 ≤ dots (setter.body.toList.take place).reverse := by decide +kernel
    exact none place (here.lt_length (by decide)) here spread
  · obtain ⟨-, all⟩ := changeParameter_left ofHook changes (by decide)
    obtain ⟨e, s', run, noted, -⟩ := all inputs words s
    have unmentioned : occursIn "previousValue" hook.body = false := by decide +kernel
    obtain ⟨rfl, left⟩ := noted.resolve_left fun warned => by simp [unmentioned] at warned
    refine ⟨e, run, fun refers => ?_⟩
    obtain ⟨place, here, other⟩ := left refers
    have places : ∀ place < hook.body.toList.length, RefersAt "changes".toList hook.body.toList place →
        place = 4 ∨ place = 24 := by decide +kernel
    rcases places place (here.lt_length (by decide)) here with rfl | rfl
    · exact other ⟨{ name := "items", isSetter := true }, List.mem_cons_self, "['items']".toList,
        " || changes.count?.currentValue > 1) sum();".toList, by decide +kernel,
        .inl ⟨"['".toList, "']".toList, ⟨[], '\'', rfl, by simp, .inl rfl⟩, ⟨'\'', [], rfl, by simp, .inl rfl⟩,
          rfl⟩⟩
    · exact other ⟨{ name := "count" }, by simp [inputs], ".count".toList,
        "?.currentValue > 1) sum();".toList, by decide +kernel, .inr ⟨rfl, by decide⟩⟩

/-- A parameter that a setter spreads stays where it was, and nothing is noted about it. -/
theorem setterParameter_unbound_spread :
    let setter : MethodDecl :=
      { name := "items", params := [{ name := "value" }], body := "this.all = [...value];", accessor := some .set }
    let d : DeclBase := { name := "List", sourcePath := "list.ts", methods := [setter] }
    let inputs : List InputProp := [{ name := "items", isSetter := true }]
    ∃ e, (lifecycleEffects d inputs).run.run { unit := "list.ts" } = (.ok [e], { unit := "list.ts" }) ∧
      e.trigger = .changes ∧ Refers "value".toList e.body.toList := by
  refine ⟨{ trigger := .changes, body := "this.all = [...value];", deps := ["items"], origin := ["set items"] },
    ?_, rfl, 15, by decide +kernel⟩
  rfl

end Changes

end ReactMigration.Model
