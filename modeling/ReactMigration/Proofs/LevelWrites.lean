import ReactMigration.Proofs.Cutting

/-!
What is written in the place of a write of state is level.

The value of an assignment is cut where its expression ends, and the arguments of a call where its bracket is
closed, so both are level in a balanced text.  The update puts brackets in pairs around them.
-/

namespace ReactMigration.Recast

open ReactMigration.Text
open ReactMigration.Text.Pattern (Captures isName)
open ReactMigration.Script

variable {c d : Cursor} {m : Match} {state : Table String} {setter name path value : String}

/-- A text of plain characters. -/
def IsPlain (s : String) : Prop :=
  ∀ a ∈ s.toList, isPlain a = true

instance (s : String) : Decidable (IsPlain s) :=
  decidable_of_iff (s.toList.all isPlain = true) List.all_eq_true

theorem IsPlain.level (plain : IsPlain name) : Level name.toList :=
  Level.plain plain

theorem isPlain_ofName {cs : List Char} (letters : ∀ a ∈ cs, isName a = true) : IsPlain (String.ofList cs) := by
  intro a mem
  rw [String.toList_ofList] at mem
  exact isPlain_of_isName (letters a mem)

/-- A path with one more key. -/
theorem IsPlain.key {base key : String} (plain : IsPlain base) (plain' : IsPlain key) :
    IsPlain (base ++ "." ++ key) := by
  intro a mem
  simp only [String.toList_append, List.mem_append] at mem
  obtain (mem | mem) | mem := mem
  · exact plain a mem
  · exact List.all_eq_true.mp (by decide : ".".toList.all isPlain = true) a mem
  · exact plain' a mem

/-! ### Records -/

theorem spreadInto_level {keys : List String} (base : IsPlain name) (plain : ∀ key ∈ keys, IsPlain key)
    (level : Level value.toList) : Level (spreadInto name keys value).toList := by
  induction keys generalizing name with
  | nil => exact level
  | cons key keys ih =>
      have key_plain := plain key List.mem_cons_self
      have inner := ih (IsPlain.key base key_plain) fun k mem => plain k (List.mem_cons_of_mem key mem)
      have front : Turns [] "\x7b ...".toList ['\x7d'] := turns_of (by decide)
      have comma : Turns ['\x7d'] ", ".toList ['\x7d'] := turns_of (by decide)
      have colon : Turns ['\x7d'] ": ".toList ['\x7d'] := turns_of (by decide)
      have back : Turns ['\x7d'] " \x7d".toList [] := turns_of (by decide)
      rw [spreadInto]
      simp only [String.toList_append]
      exact (((((front.append (base.level.turns _)).append comma).append (key_plain.level.turns _)).append colon).append
        (inner.turns _)).append back

theorem mem_matchesWithin {p : Pattern} {n : Nat} (mem : m ∈ p.matchesWithin n c) : ∃ d, p.matchAt? d = some m := by
  induction n generalizing c with
  | zero => cases mem
  | succ n ih =>
      rw [Pattern.matchesWithin] at mem
      cases search : p.searchAt? c with
      | none =>
          rw [search] at mem
          cases mem
      | some m' =>
          rw [search] at mem
          obtain rfl | mem := List.mem_cons.mp mem
          · obtain ⟨-, d, -, found, -⟩ := Pattern.searchAt?_eq_some search
            exact ⟨d, found⟩
          · split at mem
            · split at mem
              · cases mem
              · exact ih mem
            · exact ih mem

/-- The keys of a path are names. -/
theorem accessKeys_plain {key : String} (mem : .inl key ∈ accessKeys path) : IsPlain key := by
  unfold accessKeys at mem
  obtain ⟨m, found, same⟩ := List.mem_map.mp mem
  obtain ⟨d, found⟩ := mem_matchesWithin found
  obtain ⟨taken, -⟩ := Pattern.matchAt?_eq_some found
  obtain ⟨e, i, dot, g, name, groups⟩ | ⟨e, i, ⟨f, j, opening, g, inner, groups⟩, closing⟩ := taken
  · obtain ⟨-, rfl⟩ := Pattern.text_takes.mp dot
    obtain ⟨⟨x, spans, letters, -⟩, rfl⟩ := name
    have group : m.group? 1 = some (String.ofList x) := by
      simp [Match.group?, groups, spans.after, spans.offset]
    rw [group] at same
    cases same
    exact isPlain_ofName letters
  · obtain ⟨-, rfl⟩ := Pattern.text_takes.mp opening
    obtain ⟨-, rfl⟩ := inner
    obtain ⟨-, closed⟩ := Pattern.text_takes.mp closing
    have group : m.group? 1 = none := by
      simp [Match.group?, closed, groups]
    rw [group] at same
    cases same

theorem spreadUpdate_level (plain : IsPlain name) (whole : Level path.toList) (level : Level value.toList) :
    Level (spreadUpdate name path value).toList := by
  unfold spreadUpdate
  dsimp only
  split
  · have front : Turns [] "(() => \x7b const next = structuredClone(".toList [')', '\x7d', ')'] := turns_of (by decide)
    have next : Turns [')', '\x7d', ')'] "); next".toList ['\x7d', ')'] := turns_of (by decide)
    have sign : Turns ['\x7d', ')'] " = ".toList ['\x7d', ')'] := turns_of (by decide)
    have back : Turns ['\x7d', ')'] "; return next; \x7d)()".toList [] := turns_of (by decide)
    simp only [String.toList_append]
    exact (((((front.append (plain.level.turns _)).append next).append (whole.turns _)).append sign).append
      (level.turns _)).append back
  · refine spreadInto_level plain (fun key mem => ?_) level
    obtain ⟨entry, listed, same⟩ := List.mem_filterMap.mp mem
    cases entry with
    | inl k =>
        cases same
        exact accessKeys_plain listed
    | inr k => cases same

/-! ### Calls -/

/-- A call of a plain function. -/
theorem call_level (plain : IsPlain setter) (level : Level value.toList) :
    Level (setter ++ "(" ++ value ++ ")").toList := by
  have front : Turns [] "(".toList [')'] := turns_of (by decide)
  have back : Turns [')'] ")".toList [] := turns_of (by decide)
  simp only [String.toList_append]
  exact (((plain.level.turns _).append front).append (level.turns _)).append back

theorem arrayUpdate?_level {method args update : String} (plain : IsPlain name) (level : Level args.toList)
    (found : arrayUpdate? name method args = some update) : Level update.toList := by
  unfold arrayUpdate? at found
  split at found
  · cases found
    have front : Turns [] "[...".toList [']'] := turns_of (by decide)
    have comma : Turns [']'] ", ".toList [']'] := turns_of (by decide)
    have back : Turns [']'] "]".toList [] := turns_of (by decide)
    rw [show s!"[...{name}, {args}]" = "[..." ++ name ++ ", " ++ args ++ "]" from rfl]
    simp only [String.toList_append]
    exact (((front.append (plain.level.turns _)).append comma).append (level.turns _)).append back
  · split at found
    · cases found
      have front : Turns [] "[".toList [']'] := turns_of (by decide)
      have comma : Turns [']'] ", ...".toList [']'] := turns_of (by decide)
      have back : Turns [']'] "]".toList [] := turns_of (by decide)
      rw [show s!"[{args}, ...{name}]" = "[" ++ args ++ ", ..." ++ name ++ "]" from rfl]
      simp only [String.toList_append]
      exact (((front.append (level.turns _)).append comma).append (plain.level.turns _)).append back
    · split at found
      · rename_i mutator
        cases found
        have word : Level method.toList := by
          have all : arrayMutators.all (fun method => method.toList.all isPlain) = true := by decide
          exact Level.ofAll (List.all_eq_true.mp all method (List.contains_iff_mem.mp mutator))
        have front : Turns [] "(prev) => \x7b const next = [...".toList [']', '\x7d'] := turns_of (by decide)
        have next : Turns [']', '\x7d'] "prev]; next.".toList ['\x7d'] := turns_of (by decide)
        have call : Turns ['\x7d'] "(".toList [')', '\x7d'] := turns_of (by decide)
        have back : Turns [')', '\x7d'] "); return next; \x7d".toList [] := turns_of (by decide)
        rw [show "(prev) => \x7b const next = [...prev]; next." = "(prev) => \x7b const next = [..." ++ "prev]; next."
          from rfl]
        simp only [String.toList_append]
        exact (((((front.append next).append (word.turns _)).append call).append (level.turns _))).append back
      · cases found

/-! ### Updates -/

theorem stepUpdate_level {step : String} (after : List Char) (plain : IsPlain setter) (plain' : IsPlain name) :
    Level (stepUpdate setter name step after).1 := by
  have inner : Level (name ++ " " ++ stepSign step ++ " 1").toList := by
    have space : Level " ".toList := Level.ofAll (by decide)
    have sign : Level (stepSign step).toList := by
      unfold stepSign
      split
      · exact Level.ofAll (by decide)
      · exact Level.ofAll (by decide)
    have one : Level " 1".toList := Level.ofAll (by decide)
    simp only [String.toList_append]
    exact ((plain'.level.append space).append sign).append one
  have call := call_level plain inner
  simpa [stepUpdate, toString] using call

/-- An assignment takes a level expression, and what replaces it is level. -/
theorem assignUpdate_level {sign : String} {o : List Char} (plain : IsPlain setter) (plain' : IsPlain name)
    (whole : Level path.toList) (operator : sign ∈ assignmentOperators)
    (read : scan (.code, o) c.after = some (.code, [])) :
    (∃ y, c.after = y ++ (assignUpdate setter name path sign c).2 ∧ Level y) ∧
      Level (assignUpdate setter name path sign c).1 := by
  have indent : Level (c.after.takeWhile isIndent) := by
    refine Level.plain fun a mem => ?_
    have blank := List.all_eq_true.mp List.all_takeWhile a mem
    simp only [isIndent, Bool.or_eq_true, beq_iff_eq] at blank
    obtain rfl | rfl := blank <;> decide
  have spans : c.Spans (c.after.takeWhile isIndent) (c.advance (c.after.takeWhile isIndent).length) :=
    Cursor.spans_while isIndent c
  unfold assignUpdate
  generalize c.after.takeWhile isIndent = gap at spans indent
  generalize c.advance gap.length = e at spans
  rw [spans.after, scan_append, indent, Option.bind_some] at read
  obtain ⟨x, y, rest, stop, level⟩ := @expressionEndFrom_level none 0 e.offset e.before [] _ _ read rfl
  dsimp only
  rw [stop, Nat.add_sub_cancel_left, rest, List.take_left, List.drop_left]
  refine ⟨⟨gap ++ x, by rw [spans.after, rest, List.append_assoc], indent.append level⟩, ?_⟩
  have value : Level (trim (String.ofList x)).toList := Level.trim (by rwa [String.toList_ofList])
  generalize trim (String.ofList x) = value_ at value
  have operand : Level (if isSimple value_ then value_ else s!"({value_})").toList := by
    split
    · exact value
    · have front : Turns [] "(".toList [')'] := turns_of (by decide)
      have back : Turns [')'] ")".toList [] := turns_of (by decide)
      rw [show s!"({value_})" = "(" ++ value_ ++ ")" from rfl]
      simp only [String.toList_append]
      exact (front.append (value.turns _)).append back
  generalize (if isSimple value_ then value_ else s!"({value_})") = operand_ at operand
  have result : Level (if sign == "=" then value_ else
      s!"{name}{path} {(sign.dropEnd 1).toString} {operand_}").toList := by
    split
    · exact value
    · have sign_plain : Level (sign.dropEnd 1).toString.toList := by
        have all : assignmentOperators.all (fun sign => (sign.dropEnd 1).toString.toList.all isPlain) = true := by
          decide +kernel
        exact Level.ofAll (List.all_eq_true.mp all sign operator)
      have space : Level " ".toList := Level.ofAll (by decide)
      rw [show s!"{name}{path} {(sign.dropEnd 1).toString} {operand_}" =
        name ++ path ++ " " ++ (sign.dropEnd 1).toString ++ " " ++ operand_ from rfl]
      simp only [String.toList_append]
      exact ((((plain'.level.append whole).append space).append sign_plain).append space).append operand
  generalize (if sign == "=" then value_ else
    s!"{name}{path} {(sign.dropEnd 1).toString} {operand_}") = result_ at result
  have update : Level (if path == "" then result_ else spreadUpdate name path result_).toList := by
    split
    · exact result
    · exact spreadUpdate_level plain' whole result
  exact call_level plain update

/-- The path of an assignment that starts at the cursor is level. -/
def WholePath (c : Cursor) : Prop :=
  ∀ m ∈ assignment.matchAt? c, Level (m.group 1).toList

/-- A write in balanced text takes a level stretch, and what replaces it is level. -/
theorem update?_level {replacement after o : List Char} (plain : IsPlain setter) (plain' : IsPlain name)
    (whole : WholePath c) (read : scan (.code, o) c.after = some (.code, []))
    (found : update? setter name c = some (replacement, after)) :
    (∃ y, c.after = y ++ after ∧ Level y) ∧ Level replacement := by
  have blanks_level {blanks : List Char} (blank : ∀ b ∈ blanks, isBlank b = true) : Level blanks :=
    Level.plain fun b mem => isPlain_of_isBlank (blank b mem)
  unfold update? at found
  split at found
  · rename_i m step
    cases found
    obtain ⟨⟨e, i, ⟨⟨blanks, space, blank, -⟩, rfl⟩, g, sign, -⟩, -⟩ := Pattern.matchAt?_eq_some step
    obtain ⟨⟨mark, marks, spans⟩, -⟩ := Pattern.oneOf_takes.mp sign
    refine ⟨⟨blanks ++ mark.toList, (space.trans spans).after, (blanks_level blank).append ?_⟩,
      stepUpdate_level m.rest.after plain plain'⟩
    have all : ["++", "--"].all (fun mark => mark.toList.all isPlain) = true := by decide
    exact Level.ofAll (List.all_eq_true.mp all mark marks)
  · split at found
    · rename_i m called
      obtain ⟨⟨inner, rest⟩, closed, found⟩ := Option.bind_eq_some_iff.mp found
      obtain ⟨update, written, same⟩ := Option.map_eq_some_iff.mp found
      cases same
      obtain ⟨behind, level⟩ := enclosed?_eq_some closed
      obtain ⟨m', matched, same⟩ := Option.bind_eq_some_iff.mp called
      obtain rfl : m' = m := by
        split at same
        · exact Option.some.inj same
        · cases same
      obtain ⟨⟨e, i, ⟨f, j, dot, g, ⟨⟨method, name_, letters, -⟩, rfl⟩, -⟩, opening⟩, -⟩ :=
        Pattern.matchAt?_eq_some matched
      have spans := (Pattern.text_takes.mp dot).1.trans (name_.trans (Pattern.text_takes.mp opening).1)
      refine ⟨⟨'.' :: (method ++ '(' :: (inner ++ [')'])), by rw [spans.after, behind]; simp, ?_⟩, ?_⟩
      · refine .cons (by decide) (by decide) (by decide) ((Level.plain fun a mem => ?_).append
          (.bracketed rfl level .nil))
        exact isPlain_of_isName (letters a mem)
      · refine call_level plain (arrayUpdate?_level plain' (Level.trim ?_) written)
        rwa [String.toList_ofList]
    · obtain ⟨m, matched, same⟩ := Option.map_eq_some_iff.mp found
      have path := whole m matched
      obtain ⟨steps, blanks, sign, spans, -, blank, operator, -, group, group'⟩ := assignment_matchAt matched
      rw [group, String.toList_ofList] at path
      have signs : Level sign.toList := by
        have all : assignmentOperators.all (fun sign => sign.toList.all isPlain) = true := by decide
        exact Level.ofAll (List.all_eq_true.mp all sign operator)
      have front : Level (steps.flatten ++ (blanks ++ sign.toList)) := path.append ((blanks_level blank).append signs)
      rw [spans.after, scan_append, front, Option.bind_some] at read
      obtain ⟨⟨y, behind, level⟩, level'⟩ := @assignUpdate_level _ _ _ (m.group 1) (m.group 2) _ plain plain'
        (by rwa [group, String.toList_ofList]) (by rwa [group']) read
      rw [same] at behind level'
      exact ⟨⟨_, by rw [spans.after, behind, ← List.append_assoc], front.append level⟩, level'⟩

/-! ### Rounds -/

/-- A write that is replaced stands in code, and takes a level path. -/
def WritesWhole (state : Table String) (c : Cursor) : Prop :=
  ∀ m ∈ memberAccess.searchAt? c, (writeOf? state m).isSome = true →
    modeAt (startOf c m) = .code ∧ WholePath m.rest

theorem MemberAt.level {step blanks member : List Char} (found : MemberAt c m step blanks member) :
    Level m.chars ∧ Level step ∧ Level blanks := by
  have stepped : Level step := by
    obtain ⟨rfl, -⟩ | ⟨sign, -⟩ := found.stepped
    · exact .nil
    · obtain rfl | rfl := eq_of_mem_stepSigns sign
      · exact Level.ofAll (by decide)
      · exact Level.ofAll (by decide)
  have blank : Level blanks := Level.plain fun b mem => isPlain_of_isBlank (found.blank b mem)
  have dot : Level instanceDot := Level.ofAll (by decide)
  have word : Level member := Level.plain fun a mem => isPlain_of_isName (found.letters a mem)
  rw [found.chars]
  exact ⟨stepped.append (blank.append (dot.append word)), stepped, blank⟩

theorem writeStep_balanced (setters : ∀ name setter, state.get? name = some setter → IsPlain setter)
    (fair : WritesWhole state c) (stepped : writeStep state c = some d) (balanced : Balanced (around c)) :
    Balanced (around d) := by
  obtain ⟨m, found, same⟩ := Option.map_eq_some_iff.mp stepped
  have fair := fair m found
  cases write : writeOf? state m with
  | none =>
      rw [write] at same
      rw [← same, around_rest found]
      exact balanced
  | some update =>
      obtain ⟨front, replacement, after⟩ := update
      rw [write] at same fair
      obtain ⟨inCode, whole⟩ := fair rfl
      obtain ⟨gap, e, toMatch, matched, -⟩ := Pattern.searchAt?_eq_some found
      obtain ⟨step, blanks, name, member⟩ := memberAccess_matchAt matched
      rw [startOf_eq toMatch member.start] at inCode same
      obtain ⟨level, -, blank⟩ := member.level
      rw [← same, around_writeAt]
      rw [← around_spans toMatch, around, member.spans.after] at balanced
      have named : IsPlain (m.group 2) := by
        rw [member.member]
        exact isPlain_ofName member.letters
      obtain ⟨⟨y, rest, level'⟩, fronted, level''⟩ :
          (∃ y, m.rest.after = y ++ after ∧ Level y) ∧ Level front ∧ Level replacement := by
        obtain ⟨setter, cell, found⟩ := Option.bind_eq_some_iff.mp write
        have plain := setters (m.group 2) setter cell
        cases sign : m.group? 1 with
        | some s =>
            rw [sign] at found
            cases found
            exact ⟨⟨[], rfl, .nil⟩, .nil, stepUpdate_level m.rest.after plain named⟩
        | none =>
            rw [sign] at found
            obtain ⟨⟨replacement', after'⟩, updated, same⟩ := Option.map_eq_some_iff.mp found
            cases same
            obtain ⟨-, -, frontBlank, -⟩ := writeOf?_eq_some member write
            have read := balanced
            -- where the member ends, the text goes on from what is awaited there
            obtain ⟨o, read⟩ : ∃ o, scan (.code, o) m.rest.after = some (.code, []) := by
              unfold Script.Balanced at read
              rw [scan_append] at read
              obtain ⟨⟨mode, o⟩, first, read⟩ := Option.bind_eq_some_iff.mp read
              obtain rfl : mode = .code := (scan_mode first).trans inCode
              rw [scan_append, level, Option.bind_some] at read
              exact ⟨o, read⟩
            obtain ⟨behind, level'⟩ := update?_level plain named whole read updated
            exact ⟨behind, Level.plain fun b mem => isPlain_of_isBlank (frontBlank b mem), level'⟩
      rw [rest, ← List.append_assoc m.chars] at balanced
      exact exchange_balanced inCode (level.append level') (fronted.append level'') balanced

end ReactMigration.Recast
