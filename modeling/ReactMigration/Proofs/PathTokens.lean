import ReactMigration.Proofs.Substitution
import ReactMigration.Proofs.TemplateWrites

/-!
Paths of identifiers, read as tokens.

Of a path only the identifier at its front is a reference, whatever words stand behind its dots, and an
assignment of an identifier to a path refers to that identifier as well.
-/

namespace ReactMigration.Script

open ReactMigration.Text
open ReactMigration.Text.Pattern (isName isNameStart)

/-! ### Identifiers -/

/-- The characters that an identifier is written with, in ASCII and without the dollar sign. -/
def isIdentifierChar (c : Char) : Bool :=
  isAsciiLetter c || c.isDigit || c == '_'

structure IsIdentifier (name : List Char) : Prop where
  starts : name.head?.any (fun c => isAsciiLetter c || c == '_') = true
  letters : name.all isIdentifierChar = true

theorem isIdentifierChar_ascii {a : Char} (letter : isIdentifierChar a = true) :
    a.toNat < 128 ∧ isWord a = true ∧ isIdentifierPart a = true ∧ isBlank a = false := by
  have ascii : a.toNat < 128 := by
    simp only [isIdentifierChar, isAsciiLetter, Char.isDigit, Bool.or_eq_true, Bool.and_eq_true,
      decide_eq_true_eq, beq_iff_eq] at letter
    obtain ((⟨-, le⟩ | ⟨-, le⟩) | ⟨-, le⟩) | rfl := letter
    · exact Nat.lt_of_le_of_lt (show a.toNat ≤ 'z'.toNat from le) (by decide)
    · exact Nat.lt_of_le_of_lt (show a.toNat ≤ 'Z'.toNat from le) (by decide)
    · exact Nat.lt_of_le_of_lt (show a.toNat ≤ 57 from le) (by decide)
    · decide
  exact ⟨ascii, forall_ascii (P := fun a => isIdentifierChar a = true →
    isWord a = true ∧ isIdentifierPart a = true ∧ isBlank a = false) (by decide +kernel) ascii letter⟩

namespace IsIdentifier

variable {name : List Char} (h : IsIdentifier name)
include h

theorem letter {a : Char} (mem : a ∈ name) : isIdentifierChar a = true :=
  List.all_eq_true.mp h.letters a mem

theorem word {a : Char} (mem : a ∈ name) : isWord a = true :=
  (isIdentifierChar_ascii (h.letter mem)).2.1

theorem named {a : Char} (mem : a ∈ name) : isName a = true := by
  rw [isName, h.word mem, Bool.true_or]

theorem notMem {c : Char} (other : isIdentifierChar c = false) : c ∉ name := by
  intro mem
  rw [h.letter mem] at other
  cases other

/-- The first character and the others. -/
theorem cons : ∃ a tail, name = a :: tail ∧ isNameStart a = true := by
  cases name with
  | nil => exact absurd h.starts (by decide)
  | cons a tail =>
      have starts := h.starts
      refine ⟨a, tail, rfl, ?_⟩
      simp only [List.head?_cons, Option.any_some] at starts
      rw [isNameStart, starts, Bool.true_or]

theorem visible : name ≠ [] := by
  obtain ⟨a, tail, rfl, -⟩ := h.cons
  exact List.cons_ne_nil a tail

end IsIdentifier

/-- What stands behind the base of a path. -/
def pathText (keys : List (List Char)) : List Char :=
  keys.flatMap ('.' :: ·)

theorem pathText_cons (key : List Char) (keys : List (List Char)) :
    pathText (key :: keys) = '.' :: (key ++ pathText keys) := rfl

theorem pathText_ends (keys : List (List Char)) {rest : List Char} {p : Char → Bool} (dot : p '.' = false)
    (ends : NotNext p rest) : NotNext p (pathText keys ++ rest) := by
  cases keys with
  | nil => exact ends
  | cons key keys => simpa [NotNext, pathText_cons] using dot

/-! ### Tokens -/

/-- The character ends an identifier. -/
def endsIdentifier (c : Char) : Bool :=
  isIdentifierPart c || c == '\\'

theorem identifierRest?_whole {x rest : List Char} (letters : ∀ a ∈ x, isIdentifierChar a = true)
    (ends : NotNext endsIdentifier rest) {fuel : Nat} (enough : x.length < fuel) (name : List Char) (n : Nat) :
    identifierRest? fuel name n (x ++ rest) = some (x.reverse ++ name, n + x.length, rest) := by
  induction x generalizing fuel name n with
  | nil =>
      obtain ⟨fuel, rfl⟩ := Nat.exists_eq_add_of_lt enough
      cases rest with
      | nil => rfl
      | cons c rest =>
          have other := ends c rfl
          simp only [endsIdentifier, Bool.or_eq_false_iff] at other
          simp [identifierRest?, other]
  | cons a x ih =>
      obtain ⟨letter, letters⟩ := List.forall_mem_cons.mp letters
      have plain : (a == '\\') = false := by
        rw [beq_eq_false_iff_ne]
        rintro rfl
        exact absurd letter (by decide)
      cases fuel with
      | zero => cases enough
      | succ fuel =>
          rw [List.cons_append, identifierRest?, plain, (isIdentifierChar_ascii letter).2.2.1]
          simp only [Bool.false_eq_true, if_false, if_true]
          rw [ih letters (Nat.lt_of_succ_lt_succ enough)]
          simp only [List.reverse_cons, List.append_assoc, List.singleton_append, List.length_cons]
          rw [Nat.add_right_comm, Nat.add_assoc]

theorem readToken?_word {name rest : List Char} (identifier : IsIdentifier name)
    (ends : NotNext endsIdentifier rest) (braces : List Bool) :
    readToken? braces (name ++ rest) =
      some (wordKind (String.ofList name), (name.length, rest), braces) := by
  obtain ⟨a, tail, rfl, starts⟩ := identifier.cons
  obtain ⟨-, start, -, -, -, escape, -⟩ := isNameStart_ascii starts
  have read : readWord? (a :: (tail ++ rest)) =
      some (wordKind (String.ofList (a :: tail)), (a :: tail).length, rest) := by
    unfold readWord?
    split
    · rename_i same
      exact absurd (List.cons.inj same).1 escape
    · rename_i same
      obtain ⟨rfl, rfl⟩ := List.cons.inj same
      dsimp only
      rw [identifierRest?_whole (fun b mem => identifier.letter (List.mem_cons_of_mem a mem)) ends
        (by rw [List.length_append]; omega)]
      simp [Nat.add_comm]
    · rename_i same
      cases same
  rw [List.cons_append, readToken?]
  simp only [start, if_true]
  rw [read]
  rfl

theorem readToken?_dot {name rest : List Char} (identifier : IsIdentifier name) (braces : List Bool) :
    readToken? braces ('.' :: (name ++ rest)) = some (.punctuator, (1, name ++ rest), braces) := by
  obtain ⟨a, tail, rfl, starts⟩ := identifier.cons
  have digit : a.isDigit = false :=
    forall_ascii (P := fun a => isNameStart a = true → a.isDigit = false) (by decide +kernel)
      (isNameStart_ascii starts).1 starts
  have dot : isIdentifierStart '.' = false ∧ Char.isDigit '.' = false := by decide
  have single : punctuator? ('.' :: a :: (tail ++ rest)) = some (1, a :: (tail ++ rest)) := by
    have other : a ≠ '.' := by
      rintro rfl
      exact absurd starts (by decide)
    simp [punctuator?, other]
  rw [List.cons_append, readToken?]
  simp [dot, digit, single]

/-- A character that starts neither white space nor a comment is no gap. -/
theorem skipGaps?_mark {c : Char} (mark : c ∈ ['.', '=']) (fuel n : Nat) (fresh : Bool) (cs : List Char) :
    skipGaps? (fuel + 1) fresh n (c :: cs) = some (n, c :: cs) := by
  have all : ['.', '='].all (fun c => !isGap c && !isLineEnd c && !(['/', '-', '<'].contains c)) = true := by
    decide
  have shown := List.all_eq_true.mp all c mark
  simp only [Bool.and_eq_true, Bool.not_eq_true', List.contains_eq_mem, decide_eq_false_iff_not, List.mem_cons,
    List.not_mem_nil, or_false, not_or] at shown
  obtain ⟨⟨gap, lineEnd⟩, slash, minus, less⟩ := shown
  unfold skipGaps?
  rw [if_neg (by simp [gap]), if_neg (by simp [lineEnd])]
  split
  · exact absurd rfl slash
  · exact absurd rfl slash
  · exact absurd rfl minus
  · exact absurd rfl less
  · rfl

/-- One token after white space. -/
theorem lexFrom_token {fuel start start' n : Nat} {state : LexState} {fresh : Bool} {done : List Token}
    {cs cs' rest : List Char} {kind : TokenKind} {braces : List Bool}
    (skipped : skipGaps? (cs.length + 1) fresh start cs = some (start', cs'))
    (noSlash : cs'.head? ≠ some '/') (read : readToken? state.braces cs' = some (kind, (n, rest), braces)) :
    ∃ state', state'.braces = braces ∧ lexFrom (fuel + 1) state fresh start done cs =
      lexFrom fuel state' false (start' + n)
        (⟨kind, String.ofList (cs'.take n), start', start' + n⟩ :: done) rest := by
  cases cs' with
  | nil => simp [readToken?] at read
  | cons c cs' =>
      refine ⟨⟨state.history.push kind (String.ofList ((c :: cs').take n)), braces⟩, rfl, ?_⟩
      have division : ((c :: cs').head? == some '/') = false := by simpa using noSlash
      rw [lexFrom, skipped]
      simp only [division, Bool.false_eq_true, if_false, read]

/-- The token of an identifier or a keyword. -/
def wordToken (start : Nat) (name : List Char) : Token :=
  ⟨wordKind (String.ofList name), String.ofList name, start, start + name.length⟩

/-- The tokens of what stands behind the base of a path. -/
def pathTokens : Nat → List (List Char) → List Token
  | _, [] => []
  | start, key :: keys =>
      ⟨.punctuator, ".", start, start + 1⟩ :: wordToken (start + 1) key ::
        pathTokens (start + 1 + key.length) keys

theorem lexFrom_word {fuel start : Nat} {state : LexState} {fresh : Bool} {done : List Token}
    {name rest : List Char} (identifier : IsIdentifier name) (ends : NotNext endsIdentifier rest) :
    ∃ state', state'.braces = state.braces ∧ lexFrom (fuel + 1) state fresh start done (name ++ rest) =
      lexFrom fuel state' false (start + name.length) (wordToken start name :: done) rest := by
  obtain ⟨a, tail, rfl, starts⟩ := identifier.cons
  have slash : a ≠ '/' := (isNameStart_ascii starts).2.2.2.2.2.2.1
  have skipped (n : Nat) : skipGaps? (n + 1) fresh start ((a :: tail) ++ rest) = some (start, (a :: tail) ++ rest) :=
    skipGaps?_name starts n start fresh _
  have step := @lexFrom_token fuel start start _ state fresh done _ _ _ _ _
    (skipped _) (by simpa using slash) (readToken?_word identifier ends state.braces)
  rw [List.take_left] at step
  exact step

theorem lexFrom_path {keys : List (List Char)} (identifiers : ∀ key ∈ keys, IsIdentifier key)
    {rest : List Char} (ends : NotNext endsIdentifier rest) {fuel start : Nat} {state : LexState} {fresh : Bool}
    {done : List Token} :
    ∃ state' fresh', state'.braces = state.braces ∧
      lexFrom (fuel + 2 * keys.length) state fresh start done (pathText keys ++ rest) =
        lexFrom fuel state' fresh' (start + (pathText keys).length)
          ((pathTokens start keys).reverse ++ done) rest := by
  induction keys generalizing state fresh start done with
  | nil => exact ⟨state, fresh, rfl, rfl⟩
  | cons key keys ih =>
      obtain ⟨identifier, identifiers⟩ := List.forall_mem_cons.mp identifiers
      have split : pathText (key :: keys) ++ rest = '.' :: (key ++ (pathText keys ++ rest)) := by simp [pathText_cons]
      have skipped (n : Nat) := skipGaps?_mark (c := '.') (by decide) n start fresh (key ++ (pathText keys ++ rest))
      obtain ⟨state₁, same₁, first⟩ := @lexFrom_token (fuel + 2 * keys.length + 1) _ _ _ state _ done _ _ _ _ _
        (skipped _) (by simp) (readToken?_dot identifier state.braces)
      obtain ⟨state₂, same₂, second⟩ := @lexFrom_word (fuel + 2 * keys.length) (start + 1) state₁ false
        (⟨.punctuator, ".", start, start + 1⟩ :: done) key _ identifier
        (pathText_ends _ (show endsIdentifier '.' = false by decide +kernel) ends)
      obtain ⟨state₃, fresh', same₃, others⟩ := @ih identifiers (start + 1 + key.length) state₂ false
        (wordToken (start + 1) key :: ⟨.punctuator, ".", start, start + 1⟩ :: done)
      refine ⟨state₃, fresh', same₃.trans (same₂.trans same₁), ?_⟩
      rw [split, List.length_cons, show fuel + 2 * (keys.length + 1) = fuel + 2 * keys.length + 1 + 1 by omega]
      refine first.trans (second.trans (others.trans ?_))
      have length : start + 1 + key.length + (pathText keys).length = start + (pathText (key :: keys)).length := by
        simp only [pathText_cons, List.length_cons, List.length_append]
        omega
      simp [length, pathTokens]

variable {base : List Char} {keys : List (List Char)}

theorem lexFrom_end {fuel start : Nat} {state : LexState} {fresh : Bool} {done : List Token} :
    lexFrom fuel state fresh start done [] = .ok done.reverse := by
  cases fuel with
  | zero => rfl
  | succ fuel => rfl

/-- The tokens of a path with its base in front. -/
def baseTokens (base : List Char) (keys : List (List Char)) : List Token :=
  wordToken 0 base :: pathTokens base.length keys

theorem lexFrom_base (identifier : IsIdentifier base) (identifiers : ∀ key ∈ keys, IsIdentifier key)
    {rest : List Char} (ends : NotNext endsIdentifier rest) (fuel : Nat) :
    ∃ state fresh, state.braces = [] ∧
      lexFrom (fuel + 2 * keys.length + 1) {} true 0 [] (base ++ (pathText keys ++ rest)) =
        lexFrom fuel state fresh (base ++ pathText keys).length (baseTokens base keys).reverse rest := by
  obtain ⟨state₁, same₁, first⟩ := @lexFrom_word (fuel + 2 * keys.length) 0 {} true [] base _ identifier
    (pathText_ends keys (show endsIdentifier '.' = false by decide +kernel) ends)
  obtain ⟨state₂, fresh, same₂, others⟩ := @lexFrom_path keys identifiers rest ends fuel (0 + base.length) state₁
    false [wordToken 0 base]
  refine ⟨state₂, fresh, same₂.trans same₁, first.trans (others.trans ?_)⟩
  simp [baseTokens]

theorem length_pathText (identifiers : ∀ key ∈ keys, IsIdentifier key) : 2 * keys.length ≤ (pathText keys).length := by
  induction keys with
  | nil => exact Nat.le_refl _
  | cons key keys ih =>
      obtain ⟨identifier, identifiers⟩ := List.forall_mem_cons.mp identifiers
      have := List.length_pos_iff.mpr identifier.visible
      have := ih identifiers
      simp only [pathText_cons, List.length_cons, List.length_append]
      omega

theorem tokenize_path (identifier : IsIdentifier base) (identifiers : ∀ key ∈ keys, IsIdentifier key) :
    tokenize (String.ofList (base ++ pathText keys)) = .ok (baseTokens base keys) := by
  have long := length_pathText identifiers
  obtain ⟨state, fresh, -, lexed⟩ := lexFrom_base identifier identifiers
    (show NotNext endsIdentifier [] by simp [NotNext])
    ((base ++ pathText keys).length - 2 * keys.length)
  rw [List.append_nil, Nat.sub_add_cancel (by rw [List.length_append]; omega), lexFrom_end,
    List.reverse_reverse] at lexed
  rw [tokenize, String.toList_ofList, lexed]

/-- What assigns the event to the path in front. -/
def eventAssigned : List Char := " = $event".toList

/-- The tokens of an assignment of the event, `start` being the place where the path ends. -/
def assignmentTokens (start : Nat) : List Token :=
  [⟨.punctuator, "=", start + 1, start + 2⟩, ⟨.identifier, "$event", start + 3, start + 9⟩]

theorem lexFrom_eventAssigned {fuel start : Nat} (enough : 2 ≤ fuel) {state : LexState} {fresh : Bool}
    {done : List Token} : lexFrom fuel state fresh start done eventAssigned =
      .ok (done.reverse ++ assignmentTokens start) := by
  obtain ⟨fuel, rfl⟩ := Nat.exists_eq_add_of_le enough
  have sign : ∀ braces, readToken? braces ('=' :: " $event".toList) =
      some (.punctuator, (1, " $event".toList), braces) := fun _ => rfl
  have word : ∀ braces, readToken? braces "$event".toList = some (.identifier, (6, []), braces) := by
    have read : readWord? ('$' :: "event".toList) = some (.identifier, 6, []) := by decide +kernel
    have dollar : isIdentifierStart '$' = true := by decide +kernel
    intro braces
    change readToken? braces ('$' :: "event".toList) = _
    rw [readToken?]
    simp only [dollar, if_true, read, Option.map_some]
  have skippedSign : skipGaps? (eventAssigned.length + 1) fresh start eventAssigned =
      some (start + 1, '=' :: " $event".toList) :=
    skipGaps?_mark (c := '=') (by decide) 8 (start + 1) fresh _
  have skippedWord (n : Nat) : skipGaps? (" $event".toList.length + 1) false n " $event".toList =
      some (n + 1, "$event".toList) :=
    skipGaps?_name (a := '$') (by decide) 6 (n + 1) false _
  obtain ⟨state₁, -, first⟩ := @lexFrom_token (fuel + 1) _ _ _ state _ done _ _ _ _ _ skippedSign (by decide)
    (sign state.braces)
  obtain ⟨state₂, -, second⟩ := @lexFrom_token fuel _ _ _ state₁ _
    (⟨.punctuator, "=", start + 1, start + 2⟩ :: done) _ _ _ _ _ (skippedWord (start + 2)) (by decide)
    (word state₁.braces)
  rw [Nat.add_comm 2 fuel]
  refine first.trans (second.trans (lexFrom_end.trans ?_))
  simp [assignmentTokens]

theorem eventAssigned_ends : NotNext endsIdentifier eventAssigned := by
  intro c first
  obtain rfl : ' ' = c := Option.some.inj first
  decide +kernel

theorem tokenize_assignment (identifier : IsIdentifier base) (identifiers : ∀ key ∈ keys, IsIdentifier key) :
    tokenize (String.ofList (base ++ (pathText keys ++ eventAssigned))) =
      .ok (baseTokens base keys ++ assignmentTokens (base ++ pathText keys).length) := by
  have long := length_pathText identifiers
  have length : (base ++ (pathText keys ++ eventAssigned)).length = (base ++ pathText keys).length + 9 := by
    have : eventAssigned.length = 9 := by decide
    simp [this, Nat.add_assoc]
  obtain ⟨state, fresh, -, lexed⟩ := lexFrom_base identifier identifiers eventAssigned_ends
    ((base ++ (pathText keys ++ eventAssigned)).length - 2 * keys.length)
  have whole := @List.length_append _ base (pathText keys)
  rw [Nat.sub_add_cancel (by omega), lexFrom_eventAssigned (by omega), List.reverse_reverse] at lexed
  rw [tokenize, String.toList_ofList, lexed]

/-! ### References -/

/-- What stands behind the dots of a path refers to nothing. -/
theorem references_pathTokens (keys : List (List Char)) (start : Nat) (previous : Option Token) (more : List Token) :
    ∃ previous', references previous (pathTokens start keys ++ more) = references previous' more := by
  induction keys generalizing start previous with
  | nil => exact ⟨previous, rfl⟩
  | cons key keys ih =>
      obtain ⟨previous', rest⟩ := ih (start + 1 + key.length) (some (wordToken (start + 1) key))
      refine ⟨previous', ?_⟩
      rw [← rest]
      simp [pathTokens, references, isReference, Token.isPunctuator]

theorem references_baseTokens (keys : List (List Char)) (refers : wordKind (String.ofList base) = .identifier)
    (more : List Token) :
    ∃ previous, references none (baseTokens base keys ++ more) = wordToken 0 base :: references previous more := by
  obtain ⟨previous, rest⟩ := references_pathTokens keys base.length (some (wordToken 0 base)) more
  refine ⟨previous, ?_⟩
  rw [← rest, baseTokens, List.cons_append, references]
  simp [isReference, wordToken, refers]

theorem references_assignmentTokens (previous : Option Token) (start : Nat) :
    references previous (assignmentTokens start) = [⟨.identifier, "$event", start + 3, start + 9⟩] := by
  simp [assignmentTokens, references, isReference, Token.isPunctuator]

/-! ### Renaming -/

theorem applyEdits_front (image : String) (edits : List (Nat × Nat × String)) (rest : List Char) :
    applyEdits ((0, base.length, image) :: edits) 0 (base ++ rest) =
      image.toList ++ applyEdits edits base.length rest := by
  rw [applyEdits, Nat.sub_zero, List.take_zero, List.nil_append, Nat.sub_zero, List.drop_left]

theorem applyEdits_event (done : Nat) (path : List Char) (value : String) :
    applyEdits [(done + path.length + 3, done + path.length + 9, value)] done (path ++ eventAssigned) =
      path ++ (" = ".toList ++ value.toList) := by
  have front : done + path.length + 3 - done = path.length + 3 := by omega
  have back : done + path.length + 9 - done = path.length + 9 := by omega
  have sign : (path ++ eventAssigned).take (path.length + 3) = path ++ " = ".toList := List.take_length_add_append 3
  have rest : (path ++ eventAssigned).drop (path.length + 9) = [] := List.drop_length_add_append 9
  rw [applyEdits, applyEdits, front, back, sign, rest, List.append_nil, List.append_assoc]

/-- Of a path the base is renamed. -/
theorem renameIdentifiers_path (identifier : IsIdentifier base) (identifiers : ∀ key ∈ keys, IsIdentifier key)
    (refers : wordKind (String.ofList base) = .identifier) {mapping : List (String × String)} {image : String}
    (found : mapping.lookup (String.ofList base) = some image) :
    renameIdentifiers (String.ofList (base ++ pathText keys)) mapping =
      .ok (String.ofList (image.toList ++ pathText keys)) := by
  have mapped : mapping.isEmpty = false := by
    cases mapping with
    | nil => cases found
    | cons => rfl
  obtain ⟨previous, read⟩ := references_baseTokens keys refers []
  rw [List.append_nil] at read
  unfold renameIdentifiers
  rw [mapped, tokenize_path identifier identifiers]
  simp only [Bool.false_eq_true, if_false]
  change Except.ok (String.ofList (applyEdits ((references none (baseTokens base keys)).filterMap _) 0 _)) = _
  rw [read]
  simp only [references, List.filterMap_cons, wordToken, found, Option.map_some, List.filterMap_nil, Nat.zero_add]
  rw [String.toList_ofList, applyEdits_front, applyEdits]

/-- Of an assignment of the event to a path the base and the event are renamed. -/
theorem renameIdentifiers_assignment (identifier : IsIdentifier base) (identifiers : ∀ key ∈ keys, IsIdentifier key)
    (refers : wordKind (String.ofList base) = .identifier) {mapping : List (String × String)}
    {image value : String} (found : mapping.lookup (String.ofList base) = some image)
    (found' : mapping.lookup "$event" = some value) :
    renameIdentifiers (String.ofList (base ++ (pathText keys ++ eventAssigned))) mapping =
      .ok (String.ofList (image.toList ++ (pathText keys ++ (" = ".toList ++ value.toList)))) := by
  have mapped : mapping.isEmpty = false := by
    cases mapping with
    | nil => cases found
    | cons => rfl
  obtain ⟨previous, read⟩ := references_baseTokens keys refers
    (assignmentTokens (base ++ pathText keys).length)
  unfold renameIdentifiers
  rw [mapped, tokenize_assignment identifier identifiers]
  simp only [Bool.false_eq_true, if_false]
  change Except.ok (String.ofList (applyEdits ((references none (_ ++ _)).filterMap _) 0 _)) = _
  rw [read, references_assignmentTokens]
  simp only [List.filterMap_cons, wordToken, found, found', Option.map_some, List.filterMap_nil, Nat.zero_add]
  rw [String.toList_ofList, applyEdits_front, List.length_append, applyEdits_event]

end ReactMigration.Script

namespace ReactMigration

open ReactMigration.Text

/-- An entry that a name finds is still found if entries are left out, but not it. -/
theorem Table.get?_filter_of_kept {α : Type} {t : Table α} {p : String × α → Bool} {name : String} {value : α}
    (given : t.get? name = some value) (kept : p (name, value) = true) : Table.get? (t.filter p) name = some value := by
  induction t with
  | nil => cases given
  | cons entry t ih =>
      obtain ⟨k, v⟩ := entry
      rw [get?_cons] at given
      split at given
      · rename_i same
        cases given
        subst same
        rw [List.filter_cons_of_pos kept, get?_cons, if_pos rfl]
      · rename_i elsewhere
        rw [List.filter_cons]
        split
        · rw [get?_cons, if_neg elsewhere, ih given]
        · exact ih given

namespace Recast

variable {ctx : RecastContext} {locals : Table String}

/-- A member that no local hides is addressed through the instance. -/
theorem expressionNames_member {name : String} (listed : name ∈ ctx.members) (free : locals.get? name = none)
    (other : name ≠ "$event") : (expressionNames ctx locals).lookup name = some ("this." ++ name) := by
  have free' : (locals.setNew "$event" "event").has name = false := by
    rw [← Table.get?_eq_none_iff, Table.setNew]
    split
    · exact free
    · rw [Table.get?_append, free, Table.get?_cons, if_neg other]
      rfl
  have own (l : List String) (mem : name ∈ l) :
      Table.get? (l.map fun m => (m, "this." ++ m)) name = some ("this." ++ name) := by
    induction l with
    | nil => cases mem
    | cons m l ih =>
        rw [List.map_cons, Table.get?_cons]
        split
        · rename_i same
          rw [same]
        · rename_i other
          exact ih ((List.mem_cons.mp mem).resolve_left other)
  rw [Table.lookup_eq_get?, expressionNames, Table.get?_append, own _ (List.mem_filter.mpr ⟨listed, by simp [free']⟩)]
  rfl

/-- The event stands for what the table of locals gives. -/
theorem expressionNames_event {value : String} (given : locals.get? "$event" = some value) (other : value ≠ "$event") :
    (expressionNames ctx locals).lookup "$event" = some value := by
  have taken : locals.has "$event" = true := by
    rw [← Bool.not_eq_false, ← Table.get?_eq_none_iff, given]
    exact Option.some_ne_none value
  have whole : locals.setNew "$event" "event" = locals := by
    rw [Table.setNew, if_pos taken]
  have own (l : List String) (free : "$event" ∉ l) : Table.get? (l.map fun m => (m, "this." ++ m)) "$event" = none := by
    rw [Table.get?_eq_none_iff_notMem, Table.keys]
    simpa using free
  rw [Table.lookup_eq_get?, expressionNames, whole, Table.get?_append,
    own _ (by simp [taken]), Table.get?_filter_of_kept given (by simpa using Ne.symm other)]
  rfl

end Recast

end ReactMigration
