import ReactMigration.Proofs.Index
import ReactMigration.Proofs.MemberWrites
import ReactMigration.Proofs.Quoting

/-!
What writes of state are left when writes are replaced by setter calls.

The scan copies the text and puts setter calls in, and goes on behind each call.  So what it copies holds
no direct write of state, and a direct write that is left meets a call that was put in: it stands in the
value, the arguments or the index of another write.
-/

namespace ReactMigration.Recast

open ReactMigration.Text
open ReactMigration.Text.Pattern (isName isPath atBoundary)
open ReactMigration.Script (Mode modeAfter)

variable {state : Table String} {props : List String} {c d e : Cursor} {m : Match} {n : Nat}

/-! ### Direct writes -/

/-- The member that is named at the cursor is written directly: a step stands right before it, or `tail`
is a sign that changes it.  The keyword is not itself part of a path. -/
structure DirectWrite (c : Cursor) (name tail : List Char) : Prop where
  keyword : NotNext isPath c.before
  named : name ≠ []
  letters : ∀ a ∈ name, isName a = true
  written : ∃ rest, c.after = instanceDot ++ (name ++ (tail ++ rest)) ∧ NotNext isName (tail ++ rest) ∧
    (ChangesBy tail rest ∨
      tail = [] ∧ ∃ sign ∈ stepSigns, sign.toList <+: c.before)

/-- The text writes a state cell directly, outside strings, behind `front`. -/
structure LeavesWrite (state : Table String) (text : String) (front name tail : List Char) : Prop where
  outside : modeAfter front = .code
  cell : state.has (String.ofList name) = true
  direct : ∃ c, (Cursor.start text.toList).Spans front c ∧ DirectWrite c name tail

/-! ### Pieces -/

/-- A piece of the recast text: copied, or a setter call in the place of a write. -/
inductive Piece where
  | kept (cs : List Char)
  | call (write replacement : List Char)
  deriving Repr, DecidableEq

/-- What the piece stands for in the source. -/
def Piece.source : Piece → List Char
  | .kept cs => cs
  | .call write _ => write

/-- What the piece is in the recast text. -/
def Piece.chars : Piece → List Char
  | .kept cs => cs
  | .call _ replacement => replacement

/-- The recast text of pieces. -/
def joined (pieces : List Piece) : List Char :=
  pieces.flatMap Piece.chars

theorem joined_kept (cs : List Char) (pieces : List Piece) :
    joined (.kept cs :: pieces) = cs ++ joined pieces := rfl

theorem joined_call (write replacement : List Char) (pieces : List Piece) :
    joined (.call write replacement :: pieces) = replacement ++ joined pieces := rfl

/-- The stretch from `i` to `j` of the recast text meets a call. -/
def MeetsCall (pieces : List Piece) (i j : Nat) : Prop :=
  ∃ before write replacement after, pieces = before ++ .call write replacement :: after ∧
    i < (joined before).length + replacement.length ∧ (joined before).length < j

/-- What a member that was found is replaced by: the characters of the match that stay, and the
update. -/
def writeOf? (state : Table String) (m : Match) : Option (List Char × Update) :=
  (state.get? (m.group 2)).bind fun setter =>
    match m.group? 1 with
    | some step => some ([], stepUpdate setter (m.group 2) step m.rest.after)
    | none => (update? setter (m.group 2) m.rest).map (keptBefore m, ·)

/-- The pieces of the text from a cursor on. -/
def piecesWithin (state : Table String) : Nat → Cursor → List Piece
  | 0, c => [.kept c.after]
  | n + 1, c =>
      match memberAccess.searchAt? c with
      | none => [.kept c.after]
      | some m =>
          let gap := c.after.take (m.start - c.offset)
          match writeOf? state m with
          | none => .kept (gap ++ m.chars) :: piecesWithin state n m.rest
          | some (front, replacement, after) =>
              .kept (gap ++ front) ::
                .call (m.chars.drop front.length ++
                  m.rest.after.take (m.rest.after.length - after.length)) replacement ::
                piecesWithin state n (writeAt (startOf c m) (front ++ replacement) after)

/-- The pieces of a text. -/
def statePieces (state : Table String) (text : String) : List Piece :=
  piecesWithin state (text.toList.length + 1) (.start text.toList)

theorem startOf_eq {x : List Char} (spans : c.Spans x d) (start : m.start = d.offset) :
    startOf c m = d := by
  unfold startOf
  rw [start, spans.offset, Nat.add_sub_cancel_left]
  exact (Cursor.spans_advance spans.after).unique spans

theorem gap_eq {x : List Char} (spans : c.Spans x d) (start : m.start = d.offset) :
    c.after.take (m.start - c.offset) = x := by
  rw [start, spans.offset, Nat.add_sub_cancel_left, spans.after, List.take_left]

/-- One step of the scan, without its notes. -/
theorem stateWritesWithin_succ (notes : RecastNotes) :
    ∃ notes', ((stateWritesWithin state props (n + 1) c).run notes).1 =
      match memberAccess.searchAt? c with
      | none => c
      | some m =>
          match writeOf? state m with
          | none => ((stateWritesWithin state props n m.rest).run notes').1
          | some (front, replacement, after) =>
              ((stateWritesWithin state props n
                (writeAt (startOf c m) (front ++ replacement) after)).run notes').1 := by
  rw [stateWritesWithin]
  cases memberAccess.searchAt? c with
  | none => exact ⟨notes, rfl⟩
  | some m =>
      dsimp only
      unfold writeOf?
      cases cell : state.get? (m.group 2) with
      | none =>
          rw [(Table.get?_eq_none_iff _ _).mp cell]
          simp only [Bool.false_or]
          split
          · exact ⟨notes, rfl⟩
          · cases m.group? 1 with
            | some step => exact ⟨notes, rfl⟩
            | none =>
                have value := memberUpdate_none (m.group 2) m.rest notes
                rw [StateT.run_bind]
                generalize (memberUpdate none (m.group 2) m.rest).run notes = result at value
                obtain ⟨update, notes'⟩ := result
                cases value
                exact ⟨notes', rfl⟩
      | some setter =>
          have known : state.has (m.group 2) = true := by
            rw [← Bool.not_eq_false, ← Table.get?_eq_none_iff, cell]
            exact Option.some_ne_none setter
          simp only [known, Bool.true_or, Bool.not_true, Bool.false_eq_true, if_false, Option.bind_some]
          cases m.group? 1 with
          | some step => exact ⟨notes, rfl⟩
          | none =>
              have value := memberUpdate_some setter (m.group 2) m.rest notes
              rw [StateT.run_bind]
              generalize (memberUpdate (some setter) (m.group 2) m.rest).run notes = result at value
              obtain ⟨update, notes'⟩ := result
              refine ⟨notes', ?_⟩
              rw [← value]
              cases update <;> rfl

/-- The recast text is put together from the pieces. -/
theorem stateWritesWithin_joined (notes : RecastNotes) :
    let r := ((stateWritesWithin state props n c).run notes).1
    r.before.reverse ++ r.after = c.before.reverse ++ joined (piecesWithin state n c) := by
  induction n generalizing c notes with
  | zero =>
      change c.before.reverse ++ c.after = _
      simp [piecesWithin, joined, Piece.chars]
  | succ n ih =>
      obtain ⟨notes', value⟩ := @stateWritesWithin_succ state props c n notes
      dsimp only
      rw [value, piecesWithin]
      cases search : memberAccess.searchAt? c with
      | none => simp [joined, Piece.chars]
      | some m =>
          obtain ⟨gap, d, toMatch, found, -⟩ := Pattern.searchAt?_eq_some search
          obtain ⟨-, spans, start, -⟩ := Pattern.matchAt?_eq_some found
          dsimp only
          rw [gap_eq toMatch start, startOf_eq toMatch start]
          cases writeOf? state m with
          | none =>
              dsimp only
              rw [ih, (toMatch.trans spans).before]
              simp [joined, Piece.chars]
          | some write =>
              obtain ⟨front, replacement, after⟩ := write
              dsimp only
              rw [ih]
              simp [writeAt, toMatch.before, joined, Piece.chars]

/-- A write is replaced by a call of its setter; blank space before the member stays. -/
theorem writeOf?_eq_some {step blanks name front replacement after : List Char}
    (member : MemberAt c m step blanks name)
    (found : writeOf? state m = some (front, replacement, after)) :
    (∃ setter inner, state.get? (m.group 2) = some setter ∧
        replacement = setter.toList ++ '(' :: (inner ++ [')'])) ∧
      (∃ y, m.rest.after = y ++ after) ∧ (∀ b ∈ front, isBlank b = true) ∧
      ∃ a z, m.chars = front ++ a :: z ∧ a ≠ '=' := by
  obtain ⟨setter, cell, found⟩ := Option.bind_eq_some_iff.mp found
  obtain ⟨rfl, unstepped⟩ | ⟨sign, stepped⟩ := member.stepped
  · rw [unstepped] at found
    obtain ⟨⟨replacement', after'⟩, updated, same⟩ := Option.map_eq_some_iff.mp found
    cases same
    obtain ⟨⟨inner, call⟩, behind⟩ := update?_eq_some updated
    have kept : keptBefore m = blanks := by
      have length : m.chars.length - ("this." ++ m.group 2).length = blanks.length := by
        rw [member.chars, member.member]
        simp only [List.nil_append, List.length_append, String.length_append, String.length_ofList]
        have : instanceDot.length = "this.".length := by decide
        omega
      rw [keptBefore, length, member.chars, List.nil_append, List.take_left]
    rw [kept]
    refine ⟨⟨setter, inner, cell, call⟩, behind, member.blank, 't', "his.".toList ++ name, ?_, by decide⟩
    rw [member.chars]
    rfl
  · rw [stepped] at found
    cases found
    refine ⟨⟨setter, (m.group 2 ++ " " ++ stepSign (String.ofList step) ++ " 1").toList, cell, ?_⟩,
      ⟨[], rfl⟩, by simp, ?_⟩
    · simp [toString]
    · rw [member.chars]
      obtain rfl | rfl := eq_of_mem_stepSigns sign
      · exact ⟨'+', _, rfl, by decide⟩
      · exact ⟨'-', _, rfl, by decide⟩

theorem MemberAt.shorter {step blanks name gap : List Char} (member : MemberAt d m step blanks name)
    (toMatch : c.Spans gap d) : m.rest.after.length < c.after.length := by
  refine (toMatch.trans member.spans).shorter ?_
  rw [member.chars]
  simp [instanceDot]

/-- What one step of the scan does: it finds no member and copies the rest, or it copies the text up to
the leftmost member, and then that member too or a call in its place. -/
theorem piecesWithin_cases (state : Table String) (n : Nat) (c : Cursor) :
    memberAccess.searchAt? c = none ∧ piecesWithin state (n + 1) c = [.kept c.after] ∨
    ∃ m gap d step blanks name, c.Spans gap d ∧ MemberAt d m step blanks name ∧
      (∀ y e, c.Spans y e → y.length < gap.length → memberAccess.matchAt? e = none) ∧
      (writeOf? state m = none ∧
          piecesWithin state (n + 1) c = .kept (gap ++ m.chars) :: piecesWithin state n m.rest ∨
        ∃ front replacement after y, writeOf? state m = some (front, replacement, after) ∧
          m.rest.after = y ++ after ∧
          piecesWithin state (n + 1) c =
            .kept (gap ++ front) :: .call (m.chars.drop front.length ++ y) replacement ::
              piecesWithin state n (writeAt d (front ++ replacement) after)) := by
  rw [piecesWithin]
  cases search : memberAccess.searchAt? c with
  | none => exact .inl ⟨rfl, rfl⟩
  | some m =>
      obtain ⟨gap, d, toMatch, found, leftmost⟩ := Pattern.searchAt?_eq_some search
      obtain ⟨step, blanks, name, member⟩ := memberAccess_matchAt found
      refine .inr ⟨m, gap, d, step, blanks, name, toMatch, member, leftmost, ?_⟩
      dsimp only
      rw [gap_eq toMatch member.start, startOf_eq toMatch member.start]
      cases write : writeOf? state m with
      | none => exact .inl ⟨rfl, rfl⟩
      | some update =>
          obtain ⟨front, replacement, after⟩ := update
          obtain ⟨-, ⟨y, rest⟩, -⟩ := writeOf?_eq_some member write
          refine .inr ⟨front, replacement, after, y, rfl, rest, ?_⟩
          rw [rest]
          simp

/-- The pieces stand for the whole text. -/
theorem piecesWithin_source : (piecesWithin state n c).flatMap Piece.source = c.after := by
  induction n generalizing c with
  | zero => simp [piecesWithin, Piece.source]
  | succ n ih =>
      obtain ⟨-, pieces⟩ | ⟨m, gap, d, step, blanks, name, toMatch, member, -,
        ⟨-, pieces⟩ | ⟨front, replacement, after, y, write, rest, pieces⟩⟩ := piecesWithin_cases state n c
      · simp [pieces, Piece.source]
      · rw [pieces, (toMatch.trans member.spans).after]
        simp [Piece.source, ih]
      · obtain ⟨-, -, -, a, z, chars, -⟩ := writeOf?_eq_some member write
        rw [pieces, (toMatch.trans member.spans).after, rest]
        simp only [List.flatMap_cons, Piece.source, ih, writeAt, chars, List.drop_left]
        simp

theorem MeetsCall.cons {p : Piece} {pieces : List Piece} {i j : Nat}
    (meets : MeetsCall pieces (i - p.chars.length) (j - p.chars.length)) :
    MeetsCall (p :: pieces) i j := by
  obtain ⟨before, write, replacement, after, rfl, starts, ends⟩ := meets
  refine ⟨p :: before, write, replacement, after, rfl, ?_, ?_⟩
  · simp only [joined, List.flatMap_cons, List.length_append] at starts ⊢
    omega
  · simp only [joined, List.flatMap_cons, List.length_append] at ends ⊢
    omega

theorem MeetsCall.head {cs write replacement : List Char} {pieces : List Piece} {i j : Nat}
    (starts : i < cs.length + replacement.length) (ends : cs.length < j) :
    MeetsCall (.kept cs :: .call write replacement :: pieces) i j :=
  ⟨[.kept cs], write, replacement, pieces, rfl, by simpa [joined, Piece.chars] using starts,
    by simpa [joined, Piece.chars] using ends⟩

theorem MeetsCall.kept {cs : List Char} {pieces : List Piece} {i j k l : Nat} (meets : MeetsCall pieces k l)
    (starts : i = cs.length + k) (ends : j = cs.length + l) : MeetsCall (.kept cs :: pieces) i j := by
  subst starts ends
  refine .cons ?_
  simpa [Piece.chars] using meets

theorem MeetsCall.call {write replacement : List Char} {pieces : List Piece} {k l : Nat}
    (meets : MeetsCall pieces k l) :
    MeetsCall (.call write replacement :: pieces) (replacement.length + k) (replacement.length + l) := by
  refine .cons ?_
  simpa [Piece.chars] using meets

/-- Up to the first call the recast text is the source. -/
theorem piecesWithin_lead (fuel : c.after.length < n) :
    ∃ lead s o, c.after = lead ++ s ∧ joined (piecesWithin state n c) = lead ++ o ∧
      (s = [] ∧ o = [] ∨ NotNext (· == '=') s ∧
        ∀ i j, i ≤ lead.length → lead.length < j → MeetsCall (piecesWithin state n c) i j) := by
  induction n generalizing c with
  | zero => omega
  | succ n ih =>
      obtain ⟨-, pieces⟩ | ⟨m, gap, d, step, blanks, name, toMatch, member, -,
        ⟨-, pieces⟩ | ⟨front, replacement, after, y, write, -, pieces⟩⟩ := piecesWithin_cases state n c
      · exact ⟨c.after, [], [], by simp, by simp [pieces, joined, Piece.chars], .inl ⟨rfl, rfl⟩⟩
      · have shorter := member.shorter toMatch
        obtain ⟨lead, s, o, source, recast, ends⟩ := ih (c := m.rest) (by omega)
        refine ⟨gap ++ m.chars ++ lead, s, o, ?_, ?_, ?_⟩
        · rw [(toMatch.trans member.spans).after, source]
          simp
        · simp only [pieces, joined, List.flatMap_cons] at recast ⊢
          rw [recast]
          simp [Piece.chars]
        · refine ends.imp_right fun ⟨alone, meets⟩ => ⟨alone, fun i j below above => ?_⟩
          rw [List.length_append] at below above
          rw [pieces]
          refine .cons (meets _ _ ?_ ?_)
          · simp only [Piece.chars]
            omega
          · simp only [Piece.chars]
            omega
      · obtain ⟨⟨setter, inner, -, call⟩, -, -, a, z, chars, alone⟩ := writeOf?_eq_some member write
        refine ⟨gap ++ front, a :: (z ++ m.rest.after),
          replacement ++ joined (piecesWithin state n (writeAt d (front ++ replacement) after)),
          ?_, ?_, .inr ⟨?_, ?_⟩⟩
        · rw [(toMatch.trans member.spans).after, chars]
          simp
        · simp only [pieces, joined, List.flatMap_cons, Piece.chars]
        · simpa [NotNext] using alone
        · intro i j below above
          rw [pieces]
          refine .head ?_ above
          rw [call]
          simp only [List.length_append, List.length_cons] at below ⊢
          omega

/-! ### Where a direct write can stand -/

/-- A place that names a member in the source is found. -/
theorem DirectWrite.matches {name tail : List Char} (write : DirectWrite e name tail)
    (before : c.before = e.before) {a : Char} {rest : List Char} (after : c.after = instanceDot ++ a :: rest)
    (letter : isName a = true) : (memberAccess.matchAt? c).isSome :=
  memberAccess_isSome (show c.Spans ([] ++ []) c from .refl c) (.inl rfl) (by simp)
    (atBoundary_of_keyword (before ▸ write.keyword) after) after letter

/-- The first letters of a direct write. -/
theorem DirectWrite.starts {name tail : List Char} (write : DirectWrite e name tail) :
    ∃ a, isName a = true ∧ instanceDot ++ [a] <+: e.after := by
  obtain ⟨rest, after, -⟩ := write.written
  cases name with
  | nil => exact absurd rfl write.named
  | cons a name =>
      refine ⟨a, write.letters a List.mem_cons_self, name ++ (tail ++ rest), ?_⟩
      rw [after]
      simp

/-- Before the leftmost member no direct write starts within what is copied. -/
theorem not_in_gap {gap u v o x name tail : List Char}
    (leftmost : ∀ y e, c.Spans y e → y.length < gap.length → memberAccess.matchAt? e = none)
    (source : c.after = gap ++ (u ++ v)) (recast : gap ++ (u ++ o) = x ++ e.after)
    (before : e.before = x.reverse ++ c.before) (early : x.length < gap.length)
    (inside : x.length + 6 ≤ gap.length + u.length) : ¬ DirectWrite e name tail := by
  intro write
  obtain ⟨gap', rfl, rest⟩ : ∃ gap', gap = x ++ gap' ∧ e.after = gap' ++ (u ++ o) := by
    obtain ⟨y, rfl, same⟩ | ⟨y, rfl, same⟩ := List.append_eq_append_iff.mp recast
    · simp only [List.length_append] at early
      omega
    · exact ⟨y, rfl, same⟩
  rw [List.append_assoc] at source
  have spans := Cursor.spans_advance source
  obtain ⟨a, letter, starts⟩ := write.starts
  obtain ⟨z, starts⟩ : instanceDot ++ [a] <+: gap' ++ u := by
    refine List.prefix_of_prefix_length_le starts ⟨o, by rw [rest, List.append_assoc]⟩ ?_
    simp only [List.length_append] at inside early ⊢
    have : instanceDot.length = 5 := rfl
    simp only [List.length_singleton]
    omega
  have after : (c.advance x.length).after = instanceDot ++ a :: (z ++ v) := by
    rw [spans.remaining source, ← List.append_assoc, ← starts]
    simp
  have found := write.matches (spans.before.trans before.symm) after letter
  rw [leftmost _ _ spans early] at found
  cases found

/-- Within a match only the keyword of the member itself can start a direct write. -/
theorem MemberAt.keyword_eq {step blanks name x z before : List Char} (member : MemberAt c m step blanks name)
    (chars : m.chars = x ++ z) (starts : z.head? = some 't')
    (keyword : NotNext isPath (x.reverse ++ before)) : x = step ++ blanks := by
  have split : step ++ blanks ++ (instanceDot ++ name) = x ++ z := by
    rw [← chars, member.chars, List.append_assoc]
  have dotted : ∀ a ∈ instanceDot, isPath a = true := List.all_eq_true.mp (by decide)
  have path : ∀ a ∈ instanceDot ++ name, isPath a = true := by
    intro a mem
    obtain mem | mem := List.mem_append.mp mem
    · exact dotted a mem
    · rw [isPath, member.letters a mem, Bool.true_or]
  obtain ⟨y, hx, hz⟩ | ⟨y, hx, hz⟩ := List.append_eq_append_iff.mp split
  · -- what is named stands in a row of path characters
    obtain rfl | ⟨y, last, rfl⟩ := List.eq_nil_or_concat y
    · simpa using hx
    · exfalso
      have inPath := path last (by rw [hz]; simp)
      rw [keyword last (by rw [hx]; simp)] at inPath
      cases inPath
  · cases y with
    | nil => simpa using hx.symm
    | cons b y =>
        exfalso
        obtain rfl : b = 't' := by simpa [hz] using starts
        have mem : 't' ∈ step ++ blanks := by rw [hx]; simp
        obtain mem | mem := List.mem_append.mp mem
        · obtain ⟨rfl, -⟩ | ⟨sign, -⟩ := member.stepped
          · cases mem
          · obtain rfl | rfl := eq_of_mem_stepSigns sign <;> simp at mem
        · have blank := member.blank _ mem
          revert blank
          decide

/-- A step right before a member that was found without one would have been found with it. -/
theorem MemberAt.not_stepped {gap blanks name : List Char} {sign : String}
    (member : MemberAt d m [] blanks name) (toMatch : c.Spans gap d)
    (leftmost : ∀ y e, c.Spans y e → y.length < gap.length → memberAccess.matchAt? e = none)
    (settled : NotNext (fun a => a == '+' || a == '-') c.before) (step : sign ∈ stepSigns) :
    ¬ sign.toList <+: blanks.reverse ++ (gap.reverse ++ c.before) := by
  intro stepped
  obtain ⟨a, mark, pair⟩ : ∃ a, (a == '+' || a == '-') = true ∧ sign.toList = [a, a] := by
    simp only [stepSigns, List.mem_cons, List.not_mem_nil, or_false] at step
    obtain rfl | rfl := step
    · exact ⟨'+', rfl, rfl⟩
    · exact ⟨'-', rfl, rfl⟩
  rw [pair] at stepped
  obtain ⟨rest, stepped⟩ := stepped
  have notBlank : isBlank a = false := by
    simp only [Bool.or_eq_true, beq_iff_eq] at mark
    obtain rfl | rfl := mark <;> decide
  have outside {l : List Char} (same : a :: l = c.before) : False := by
    cases mark.symm.trans (settled a (by rw [← same]; rfl))
  obtain rfl | ⟨blanks, b, rfl⟩ := List.eq_nil_or_concat blanks
  · obtain rfl | ⟨gap, b, rfl⟩ := List.eq_nil_or_concat gap
    · exact outside stepped
    · obtain rfl | ⟨gap, b', rfl⟩ := List.eq_nil_or_concat gap
      · exact outside (List.cons.inj stepped).2
      · simp only [List.concat_eq_append, List.reverse_append, List.reverse_nil, List.nil_append,
          List.reverse_cons, List.cons_append, List.cons.injEq] at stepped
        obtain ⟨rfl, rfl, -⟩ := stepped
        have after : c.after = gap ++ ([a, a] ++ d.after) := by
          rw [toMatch.after]
          simp
        have toStep : c.Spans gap (c.advance gap.length) := Cursor.spans_advance after
        have toKeyword : (c.advance gap.length).Spans ([a, a] ++ []) d := by
          have steps := Cursor.spans_advance (toStep.remaining after)
          rwa [(toStep.trans steps).unique (by simpa using toMatch)] at steps
        obtain ⟨b, name, rfl⟩ := List.exists_cons_of_ne_nil member.named
        have keyword : d.after = instanceDot ++ b :: (name ++ m.rest.after) := by
          rw [member.spans.after, member.chars]
          simp
        have found := memberAccess_isSome toKeyword (.inr (by rwa [← pair, String.ofList_toList]))
          (by simp) (member.bound d (.refl d)) keyword (member.letters b List.mem_cons_self)
        rw [leftmost gap _ toStep (by simp)] at found
        cases found
  · have := member.blank b (by simp)
    have same : b = a := by simpa using (congrArg List.head? stepped).symm
    rw [same, notBlank] at this
    cases this

/-- A state cell that is copied is not stepped, and nothing behind it makes an update. -/
theorem MemberAt.of_reads {step blanks name : List Char} (member : MemberAt d m step blanks name)
    (reads : writeOf? state m = none) (cell : state.has (m.group 2) = true) :
    step = [] ∧ ∃ setter, update? setter (m.group 2) m.rest = none := by
  obtain ⟨setter, found⟩ : ∃ setter, state.get? (m.group 2) = some setter := by
    rw [← Option.ne_none_iff_exists', ne_eq, Table.get?_eq_none_iff, cell]
    exact Bool.noConfusion
  rw [writeOf?, found, Option.bind_some] at reads
  obtain ⟨rfl, unstepped⟩ | ⟨-, stepped⟩ := member.stepped
  · rw [unstepped] at reads
    exact ⟨rfl, setter, Option.map_eq_none_iff.mp reads⟩
  · rw [stepped] at reads
    cases reads

/-- A member that is copied is not written directly, unless what follows it in the recast text is a
call. -/
theorem MemberAt.meets {gap step blanks name₀ name tail o : List Char}
    (member : MemberAt d m step blanks name₀) (toMatch : c.Spans gap d)
    (leftmost : ∀ y e, c.Spans y e → y.length < gap.length → memberAccess.matchAt? e = none)
    (settled : NotNext (fun a => a == '+' || a == '-') c.before) (reads : writeOf? state m = none)
    (fuel : m.rest.after.length < n) (recast : o = joined (piecesWithin state n m.rest))
    (before : e.before = (gap ++ (step ++ blanks)).reverse ++ c.before)
    (after : e.after = instanceDot ++ (name₀ ++ o)) (cell : state.has (String.ofList name) = true)
    (write : DirectWrite e name tail) :
    ∃ more, name = name₀ ++ more ∧ MeetsCall (piecesWithin state n m.rest) 0 (more ++ tail).length := by
  obtain ⟨rest, named, ends, kind⟩ := write.written
  have same : name₀ ++ o = name ++ (tail ++ rest) := List.append_cancel_left (after.symm.trans named)
  -- the name goes on with what follows, or it is the one that was found
  obtain ⟨more, rfl, rfl⟩ : ∃ more, name = name₀ ++ more ∧ o = more ++ (tail ++ rest) := by
    obtain ⟨y, rfl, hy⟩ | ⟨y, rfl, hy⟩ := List.append_eq_append_iff.mp same
    · exact ⟨y, rfl, hy⟩
    · cases y with
      | nil => exact ⟨[], by simp, by simpa using hy.symm⟩
      | cons b y =>
          have := ends b (by rw [hy]; rfl)
          rw [member.letters b (by simp)] at this
          cases this
  refine ⟨more, rfl, ?_⟩
  obtain ⟨lead, s, o', source, joins, calls⟩ := @piecesWithin_lead state _ _ fuel
  by_cases short : (more ++ tail).length ≤ lead.length
  · exfalso
    obtain ⟨lead', rfl, rfl⟩ : ∃ lead', lead = more ++ tail ++ lead' ∧ rest = lead' ++ o' := by
      have split : more ++ tail ++ rest = lead ++ o' := by rw [List.append_assoc, recast, joins]
      obtain ⟨y, rfl, hy⟩ | ⟨y, hx, rfl⟩ := List.append_eq_append_iff.mp split
      · exact ⟨y, rfl, hy⟩
      · have := congrArg List.length hx
        simp only [List.length_append] at this short
        obtain rfl := List.length_eq_zero_iff.mp (show y.length = 0 by omega)
        exact ⟨[], by simpa using hx.symm, by simp⟩
    obtain rfl : more = [] := by
      cases more with
      | nil => rfl
      | cons b more =>
          have := member.whole b (by rw [source]; rfl)
          rw [write.letters b (by simp)] at this
          cases this
    obtain ⟨rfl, setter, stays⟩ := member.of_reads reads (by simpa [member.member] using cell)
    obtain changes | ⟨-, sign, signed, stepped⟩ := kind
    · have after : m.rest.after = tail ++ (lead' ++ s) := by simpa using source
      refine not_changesBy_of_update? stays after ?_
      refine changes.behind fun alone => ?_
      cases lead' with
      | nil =>
          obtain ⟨rfl, -⟩ | ⟨alone, -⟩ := calls
          · simp [NotNext]
          · exact alone
      | cons b lead' => exact alone
    · rw [before] at stepped
      exact member.not_stepped toMatch leftmost settled signed (by simpa using stepped)
  · obtain ⟨rfl, rfl⟩ | ⟨-, meets⟩ := calls
    · exfalso
      rw [← recast, List.append_nil] at joins
      rw [← joins] at short
      simp only [List.length_append] at short
      omega
    · exact meets _ _ (Nat.zero_le _) (by omega)

/-- The length of the text of a direct write from its keyword on. -/
def writeLength (name tail : List Char) : Nat :=
  (instanceDot ++ (name ++ tail)).length

theorem six_le_writeLength {name tail : List Char} (write : DirectWrite e name tail) :
    6 ≤ writeLength name tail := by
  have := List.length_pos_iff.mpr write.named
  simp only [writeLength, List.length_append]
  have : instanceDot.length = 5 := rfl
  omega

theorem DirectWrite.head {name tail : List Char} (write : DirectWrite e name tail) :
    e.after.head? = some 't' := by
  obtain ⟨a, -, z, starts⟩ := write.starts
  rw [← starts]
  rfl

theorem MemberAt.six_le {step blanks name : List Char} (member : MemberAt c m step blanks name) :
    6 ≤ m.chars.length := by
  have := List.length_pos_iff.mpr member.named
  simp only [member.chars, List.length_append]
  have : instanceDot.length = 5 := rfl
  omega

/-- The name of a member settles the text behind it. -/
theorem MemberAt.settled {step blanks name gap : List Char} (member : MemberAt d m step blanks name)
    (toMatch : c.Spans gap d) : NotNext (fun a => a == '+' || a == '-') m.rest.before := by
  obtain rfl | ⟨name, last, rfl⟩ := List.eq_nil_or_concat name
  · exact absurd rfl member.named
  · intro a head
    rw [(toMatch.trans member.spans).before, member.chars] at head
    obtain rfl : last = a := by simpa using head
    have letter := member.letters last (by simp)
    simp only [Bool.or_eq_false_iff, beq_eq_false_iff_ne]
    constructor
    · rintro rfl
      revert letter
      decide
    · rintro rfl
      revert letter
      decide

/-- Every direct write of a state cell that is left meets a call. -/
theorem DirectWrite.meetsCall {x name tail : List Char} (fuel : c.after.length < n)
    (settled : NotNext (fun a => a == '+' || a == '-') c.before)
    (before : e.before = x.reverse ++ c.before)
    (recast : joined (piecesWithin state n c) = x ++ e.after)
    (cell : state.has (String.ofList name) = true) (write : DirectWrite e name tail) :
    MeetsCall (piecesWithin state n c) x.length (x.length + writeLength name tail) := by
  have long := six_le_writeLength write
  induction n generalizing c x with
  | zero => omega
  | succ n ih =>
      obtain ⟨none, pieces⟩ | ⟨m, gap, d, step, blanks, name₀, toMatch, member, leftmost, copied⟩ :=
        piecesWithin_cases state n c
      · -- without a member there is no write
        rw [pieces] at recast
        have source : c.after = x ++ e.after := by simpa [joined, Piece.chars] using recast
        have spans := Cursor.spans_advance source
        obtain ⟨a, letter, z, starts⟩ := write.starts
        have keyword : (c.advance x.length).after = instanceDot ++ a :: z := by
          rw [spans.remaining source, ← starts]
          simp
        have found := write.matches (spans.before.trans before.symm) keyword letter
        rw [Pattern.matchAt?_of_searchAt? none spans] at found
        cases found
      have shorter := member.shorter toMatch
      have whole := (toMatch.trans member.spans).after
      obtain ⟨reads, pieces⟩ | ⟨front, replacement, after, y, updates, rest, pieces⟩ := copied
      · rw [pieces] at recast ⊢
        rw [joined_kept, List.append_assoc] at recast
        by_cases early : x.length < gap.length
        · have six := member.six_le
          exact absurd write (not_in_gap leftmost (by rw [whole, List.append_assoc]) recast before early
            (by omega))
        obtain ⟨x₁, rfl, recast₁⟩ := exists_append_of_le recast (by omega)
        by_cases inside : x₁.length < m.chars.length
        · -- within the match the write is that of the member itself
          obtain ⟨z, chars, after⟩ := exists_append_of_le recast₁.symm (by omega)
          have starts : z.head? = some 't' := by
            have head := write.head
            rw [after] at head
            cases z with
            | nil => simp [chars] at inside
            | cons b z => exact head
          have keyword : NotNext isPath (x₁.reverse ++ (gap.reverse ++ c.before)) := by
            have := write.keyword
            rwa [before, List.reverse_append, List.append_assoc] at this
          obtain rfl := member.keyword_eq chars starts keyword
          have named : z = instanceDot ++ name₀ := by
            have := member.chars.symm.trans chars
            rw [← List.append_assoc] at this
            exact (List.append_cancel_left this).symm
          obtain ⟨more, rfl, meets⟩ := member.meets toMatch leftmost settled reads
            (show m.rest.after.length < n by omega) rfl before
            (by rw [after, named, List.append_assoc]) cell write
          refine .cons ?_
          simp only [Piece.chars, chars, named, writeLength, List.length_append] at meets ⊢
          rwa [Nat.sub_eq_zero_of_le (by omega), show
            gap.length + (step.length + blanks.length) +
              (instanceDot.length + (name₀.length + more.length + tail.length)) -
              (gap.length + (step.length + blanks.length + (instanceDot.length + name₀.length))) =
              more.length + tail.length by omega]
        · obtain ⟨x₂, rfl, recast₂⟩ := exists_append_of_le recast₁ (by omega)
          have further := ih (c := m.rest) (x := x₂) (by omega) (member.settled toMatch)
            (by rw [before, (toMatch.trans member.spans).before]; simp) recast₂
          refine .kept further ?_ ?_
          · simp only [List.length_append]
            omega
          · simp only [List.length_append]
            omega
      · obtain ⟨⟨setter, inner, -, call⟩, -, blank, a, z, chars, -⟩ := writeOf?_eq_some member updates
        rw [pieces] at recast ⊢
        rw [joined_kept, joined_call] at recast
        by_cases late : (gap ++ front).length < x.length + writeLength name tail
        · by_cases inside : x.length < (gap ++ front).length + replacement.length
          · exact .head inside late
          · -- the scan goes on behind the call
            rw [← List.append_assoc] at recast
            obtain ⟨x₁, rfl, recast₁⟩ := exists_append_of_le recast
              (by rw [List.length_append]; omega)
            have further := ih (c := writeAt d (front ++ replacement) after) (x := x₁) ?_ ?_ ?_ recast₁
            · refine .kept (.call further) ?_ ?_
              · simp only [List.length_append]
                omega
              · simp only [List.length_append]
                omega
            · have := congrArg List.length rest
              rw [List.length_append] at this
              change after.length < n
              omega
            · intro b head
              obtain rfl : ')' = b := by simpa [writeAt, call] using head
              rfl
            · rw [before]
              simp [writeAt, toMatch.before]
        · exfalso
          by_cases early : x.length < gap.length
          · rw [List.append_assoc] at recast
            refine not_in_gap leftmost (v := a :: z ++ m.rest.after) ?_ recast before early ?_ write
            · rw [whole, chars]
              simp
            · rw [List.length_append] at late
              omega
          · -- blank space starts no write
            rw [List.append_assoc] at recast
            obtain ⟨x₁, rfl, recast₁⟩ := exists_append_of_le recast (by omega)
            obtain ⟨z, rfl, after⟩ := exists_append_of_le recast₁.symm
              (by simp only [List.length_append] at late; omega)
            have head := write.head
            cases z with
            | nil =>
                simp only [List.length_append, List.length_nil] at late
                omega
            | cons b z =>
                rw [after] at head
                obtain rfl : b = 't' := by simpa using head
                have := blank 't' (by simp)
                revert this
                decide

/-! ### Whole texts -/

/-- Every call that is put in is a call of the setter of a state cell. -/
theorem piecesWithin_call {write replacement : List Char}
    (mem : Piece.call write replacement ∈ piecesWithin state n c) :
    ∃ name setter inner, state.get? name = some setter ∧
      replacement = setter.toList ++ '(' :: (inner ++ [')']) := by
  induction n generalizing c with
  | zero => simp [piecesWithin] at mem
  | succ n ih =>
      obtain ⟨-, pieces⟩ | ⟨m, gap, d, step, blanks, name, -, member, -,
        ⟨-, pieces⟩ | ⟨front, replacement', after, y, updates, -, pieces⟩⟩ := piecesWithin_cases state n c
      · simp [pieces] at mem
      · rw [pieces, List.mem_cons] at mem
        exact ih (mem.resolve_left Piece.noConfusion)
      · rw [pieces, List.mem_cons, List.mem_cons] at mem
        obtain mem | same | mem := mem
        · cases mem
        · cases same
          obtain ⟨⟨setter, inner, cell, call⟩, -⟩ := writeOf?_eq_some member updates
          exact ⟨_, setter, inner, cell, call⟩
        · exact ih mem

/-- Pieces without a call are the source. -/
theorem joined_eq_source {pieces : List Piece} (copied : ∀ p ∈ pieces, p.chars = p.source) :
    joined pieces = pieces.flatMap Piece.source := by
  induction pieces with
  | nil => rfl
  | cons p pieces ih =>
      rw [joined, List.flatMap_cons, List.flatMap_cons, copied p List.mem_cons_self]
      exact congrArg _ (ih fun q mem => copied q (List.mem_cons_of_mem p mem))

/-- The recast text is put together from the pieces. -/
theorem recastState_toList (state : Table String) (props : List String) (text : String)
    (notes : RecastNotes) :
    ((recastState state props text).run notes).1.toList = joined (statePieces state text) := by
  unfold recastState
  split
  · rename_i empty
    obtain ⟨rfl, -⟩ : state = [] ∧ props = [] := by simpa using empty
    rw [joined_eq_source, statePieces, piecesWithin_source]
    · rfl
    · intro p mem
      cases p with
      | kept => rfl
      | call write replacement =>
          obtain ⟨name, setter, -, found, -⟩ := piecesWithin_call mem
          cases found
  · have joins := @stateWritesWithin_joined state props (.start text.toList) (text.toList.length + 1) notes
    exact (String.toList_ofList).trans joins

/-- Recasting splits a text into what it copies and the writes in whose place it puts calls of their
setters; every direct write of state that is left, wherever it stands, meets one of those calls. -/
theorem recastState_leaves_nested (state : Table String) (props : List String) (text : String)
    (notes : RecastNotes) :
    let recast := ((recastState state props text).run notes).1
    let pieces := statePieces state text
    pieces.flatMap Piece.source = text.toList ∧ joined pieces = recast.toList ∧
      (∀ write replacement, Piece.call write replacement ∈ pieces →
        ∃ name setter inner, state.get? name = some setter ∧
          replacement = setter.toList ++ '(' :: (inner ++ [')'])) ∧
      ∀ front name tail, LeavesWrite state recast front name tail →
        MeetsCall pieces front.length (front.length + writeLength name tail) := by
  dsimp only
  have joins := (recastState_toList state props text notes).symm
  refine ⟨piecesWithin_source, joins, fun write replacement => piecesWithin_call, ?_⟩
  intro front name tail leaves
  obtain ⟨e, spans, write⟩ := leaves.direct
  refine write.meetsCall (Nat.lt_succ_self _) ?_ spans.before (joins.trans spans.after) leaves.cell
  simp [NotNext, Cursor.start]

/-- The write in the value of another write is left. -/
theorem recastState_leaves_chained :
    let state := [("a", "setA"), ("b", "setB")]
    let recast := ((recastState state [] "this.a = this.b = 0;").run {}).1
    recast = "setA(this.b = 0);" ∧ LeavesWrite state recast "setA(".toList ['b'] [' ', '='] := by
  have value : ((recastState [("a", "setA"), ("b", "setB")] [] "this.a = this.b = 0;").run {}).1 =
      "setA(this.b = 0);" := by decide +kernel
  dsimp only
  rw [value]
  refine ⟨rfl, by decide, by decide, (Cursor.start "setA(this.b = 0);".toList).advance 5, ?_, ?_⟩
  · have split : "setA(this.b = 0);".toList = "setA(".toList ++ "this.b = 0);".toList := rfl
    exact Cursor.spans_advance split
  · refine ⟨fun a head => ?_, by decide, List.all_eq_true.mp (by decide), " 0);".toList, rfl, fun a head => ?_, .inl ?_⟩
    · cases head
      decide
    · cases head
      decide
    · exact ⟨[' '], "=", rfl, List.all_eq_true.mp (by decide), .inr ⟨by decide, fun a head => by cases head; decide⟩⟩

end ReactMigration.Recast
