import Mathlib.Data.List.Basic
import ReactMigration.Text.Character

/-!
Expressions as their operators group them.

Every operator stands on a level and takes its operands from certain levels on, the later the tighter:
`0` comma, `1` assignments, functions and `?:`, `2` `||` and `??`, `3` `&&`, `4` to `6` bits, `7`
equality, `8` comparison, `9` shifts, `10` sums, `11` products, `12` powers, `13` signs in front, `14`
steps, `15` operands.  An operand is whatever no operator outside of its brackets divides: a name, a
literal, a call, a group, markup.

The main statement is `Groups.unique`: the words of a text determine how its operators group.
-/

namespace ReactMigration.Script

open ReactMigration.Text

/-! ### Levels -/

/-- The signs between two operands, by level. -/
def infixSigns : List (Nat × List String) :=
  [(0, [","]),
   (1, ["=", "+=", "-=", "*=", "/=", "%=", "**=", "<<=", ">>=", ">>>=", "&=", "|=", "^=", "&&=", "||=",
     "??=", "=>"]),
   (2, ["||", "??"]), (3, ["&&"]), (4, ["|"]), (5, ["^"]), (6, ["&"]),
   (7, ["==", "!=", "===", "!=="]), (8, ["<", ">", "<=", ">=", "in", "instanceof"]),
   (9, ["<<", ">>", ">>>"]), (10, ["+", "-"]), (11, ["*", "/", "%"]), (12, ["**"])]

/-- The level of a sign between two operands. -/
def infixLevel? (sign : String) : Option Nat :=
  (infixSigns.find? (·.2.contains sign)).map (·.1)

/-- The level from which the left operand of an operator is taken: what is assigned to and what a
function takes are operands, and a power is not taken of a sign. -/
def leftLevel (level : Nat) : Nat :=
  if level = 1 then 15 else if level = 12 then 14 else level

/-- The level from which the right operand is taken: assignments and powers group to the right. -/
def rightLevel (level : Nat) : Nat :=
  if level = 1 then 1 else if level = 12 then 12 else level + 1

/-- The level of a sign in front of an operand, and the level from which it takes the operand. -/
def prefixLevels? (sign : String) : Option (Nat × Nat) :=
  if sign = "yield" then some (1, 1)
  else if ["++", "--"].contains sign then some (14, 15)
  else if ["!", "~", "+", "-", "typeof", "void", "delete", "await"].contains sign then some (13, 13)
  else none

/-- The signs behind an operand. -/
def postfixSigns : List String :=
  ["++", "--"]

theorem infixLevel?_le {sign : String} {level : Nat} (found : infixLevel? sign = some level) :
    level ≤ 12 := by
  obtain ⟨row, first, rfl⟩ := Option.map_eq_some_iff.mp found
  have all : ∀ row ∈ infixSigns, row.1 ≤ 12 := by decide
  exact all row (List.mem_of_find?_eq_some first)

/-- Behind an operand no sign has two meanings. -/
theorem postfixSigns_infixLevel? {sign : String} (mem : sign ∈ postfixSigns) : infixLevel? sign = none := by
  have all : ∀ sign ∈ postfixSigns, infixLevel? sign = none := by decide
  exact all sign mem

theorem infixLevel?_choice : infixLevel? "?" = none ∧ infixLevel? ":" = none := by decide

theorem prefixLevels?_cases {sign : String} {own inner : Nat}
    (found : prefixLevels? sign = some (own, inner)) :
    own = 1 ∧ inner = 1 ∨ own = 14 ∧ inner = 15 ∨ own = 13 ∧ inner = 13 := by
  unfold prefixLevels? at found
  split at found
  · cases found
    exact .inl ⟨rfl, rfl⟩
  · split at found
    · cases found
      exact .inr (.inl ⟨rfl, rfl⟩)
    · split at found
      · cases found
        exact .inr (.inr ⟨rfl, rfl⟩)
      · cases found

theorem le_leftLevel (level : Nat) : level ≤ leftLevel level := by
  unfold leftLevel
  split
  · omega
  · split <;> omega

theorem le_rightLevel (level : Nat) : level ≤ rightLevel level := by
  unfold rightLevel
  split
  · omega
  · split <;> omega

/-- Every level groups to one side. -/
theorem lt_leftLevel_or_lt_rightLevel (level : Nat) :
    level < leftLevel level ∨ level < rightLevel level := by
  unfold leftLevel rightLevel
  split
  · omega
  · split <;> omega

/-! ### Expressions -/

/-- An expression by its operators. -/
inductive Expression where
  | operand (text : String)
  | prefixed (sign : String) (e : Expression)
  | postfixed (e : Expression) (sign : String)
  | infixed (sign : String) (left right : Expression)
  | conditional (test shown otherwise : Expression)
  deriving Repr, DecidableEq

/-- A word of an expression: an operand, or the sign of an operator. -/
inductive Word where
  | operand (text : String)
  | sign (text : String)
  deriving Repr, DecidableEq

/-- The characters of a word. -/
def Word.chars : Word → List Char
  | .operand text => text.toList
  | .sign text => text.toList

/-- A word with the place of its sign: before, behind or between operands. -/
inductive Part where
  | operand (text : String)
  | before (sign : String)
  | behind (sign : String)
  | between (sign : String)
  | question
  | colon
  deriving Repr, DecidableEq

/-- The word of a part. -/
def Part.word : Part → Word
  | .operand text => .operand text
  | .before sign => .sign sign
  | .behind sign => .sign sign
  | .between sign => .sign sign
  | .question => .sign "?"
  | .colon => .sign ":"

namespace Expression

/-- How tightly an expression holds together. -/
def level : Expression → Nat
  | .operand _ => 15
  | .prefixed sign _ => ((prefixLevels? sign).map (·.1)).getD 0
  | .postfixed _ _ => 14
  | .infixed sign _ _ => (infixLevel? sign).getD 0
  | .conditional .. => 1

/-- Every operator is one, and has operands from the levels it takes them from. -/
def grammatical : Expression → Bool
  | .operand _ => true
  | .prefixed sign e =>
      match prefixLevels? sign with
      | some (_, inner) => decide (inner ≤ e.level) && e.grammatical
      | none => false
  | .postfixed e sign => postfixSigns.contains sign && decide (15 ≤ e.level) && e.grammatical
  | .infixed sign l r =>
      match infixLevel? sign with
      | some level => decide (leftLevel level ≤ l.level) && decide (rightLevel level ≤ r.level) &&
          l.grammatical && r.grammatical
      | none => false
  | .conditional t a b => decide (2 ≤ t.level) && decide (1 ≤ a.level) && decide (1 ≤ b.level) &&
      t.grammatical && a.grammatical && b.grammatical

/-- The parts of an expression in the order in which it is written. -/
def parts : Expression → List Part
  | .operand text => [.operand text]
  | .prefixed sign e => .before sign :: e.parts
  | .postfixed e sign => e.parts ++ [.behind sign]
  | .infixed sign l r => l.parts ++ .between sign :: r.parts
  | .conditional t a b => t.parts ++ .question :: (a.parts ++ .colon :: b.parts)

/-- The words of an expression. -/
def words (e : Expression) : List Word :=
  e.parts.map Part.word

end Expression

/-- The words are those of a grammatical expression. -/
structure Groups (ws : List Word) (e : Expression) : Prop where
  grammatical : e.grammatical = true
  words : e.words = ws

/-- A text is made of words, with white space around them. -/
inductive Spells : List Char → List Word → Prop
  | done {gap : List Char} (blank : ∀ c ∈ gap, isBlank c = true) : Spells gap []
  | word {gap rest : List Char} {w : Word} {ws : List Word} (blank : ∀ c ∈ gap, isBlank c = true)
      (more : Spells rest ws) : Spells (gap ++ w.chars ++ rest) (w :: ws)

namespace Expression

variable {e e' t a b l r : Expression} {sign : String}

attribute [local grind =] grammatical level parts

theorem grammatical_prefixed : (prefixed sign e).grammatical = true ↔
    ∃ own inner, prefixLevels? sign = some (own, inner) ∧ inner ≤ e.level ∧ e.grammatical = true := by
  rw [grammatical]
  split
  · rename_i own inner found
    simp [found]
  · rename_i none
    simp [none]

theorem grammatical_postfixed : (postfixed e sign).grammatical = true ↔
    sign ∈ postfixSigns ∧ 15 ≤ e.level ∧ e.grammatical = true := by
  simp [grammatical, and_assoc]

theorem grammatical_infixed : (infixed sign l r).grammatical = true ↔
    ∃ level, infixLevel? sign = some level ∧ leftLevel level ≤ l.level ∧ rightLevel level ≤ r.level ∧
      l.grammatical = true ∧ r.grammatical = true := by
  rw [grammatical]
  split
  · rename_i level found
    simp [found, and_assoc]
  · rename_i none
    simp [none]

theorem grammatical_conditional : (conditional t a b).grammatical = true ↔
    2 ≤ t.level ∧ 1 ≤ a.level ∧ 1 ≤ b.level ∧ t.grammatical = true ∧ a.grammatical = true ∧
      b.grammatical = true := by
  simp [grammatical, and_assoc]

theorem level_prefixed {own inner : Nat} (found : prefixLevels? sign = some (own, inner)) :
    (prefixed sign e).level = own := by
  simp [level, found]

theorem level_infixed {n : Nat} (found : infixLevel? sign = some n) : (infixed sign l r).level = n := by
  simp [level, found]

end Expression

/-! ### The level of an expression is that of its loosest part -/

/-- The level of a part. -/
def Part.level : Part → Nat
  | .operand _ => 15
  | .before sign => ((prefixLevels? sign).map (·.1)).getD 0
  | .behind _ => 14
  | .between sign => (infixLevel? sign).getD 0
  | .question => 1
  | .colon => 1

namespace Expression

theorem level_le {e : Expression} (grammatical : e.grammatical = true) :
    ∀ p ∈ e.parts, e.level ≤ p.level := by
  induction e with
  | operand text => simp [parts, level, Part.level]
  | prefixed sign e ih =>
      obtain ⟨own, inner, found, le, inside⟩ := grammatical_prefixed.mp grammatical
      have order := prefixLevels?_cases found
      rw [level_prefixed found]
      refine List.forall_mem_cons.mpr ⟨by simp [Part.level, found], fun p mem => ?_⟩
      have := ih inside p mem
      omega
  | postfixed e sign ih =>
      obtain ⟨-, le, inside⟩ := grammatical_postfixed.mp grammatical
      refine List.forall_mem_append.mpr ⟨fun p mem => ?_, by simp [level, Part.level]⟩
      have := ih inside p mem
      simp only [level]
      omega
  | infixed sign l r ihl ihr =>
      obtain ⟨n, found, left, right, gl, gr⟩ := grammatical_infixed.mp grammatical
      have toLeft := le_leftLevel n
      have toRight := le_rightLevel n
      rw [level_infixed found]
      refine List.forall_mem_append.mpr ⟨fun p mem => ?_, List.forall_mem_cons.mpr
        ⟨by simp [Part.level, found], fun p mem => ?_⟩⟩
      · have := ihl gl p mem
        omega
      · have := ihr gr p mem
        omega
  | conditional t a b iht iha ihb =>
      obtain ⟨lt, la, lb, gt, ga, gb⟩ := grammatical_conditional.mp grammatical
      refine List.forall_mem_append.mpr ⟨fun p mem => ?_, List.forall_mem_cons.mpr
        ⟨Nat.le_refl 1, List.forall_mem_append.mpr ⟨fun p mem => ?_, List.forall_mem_cons.mpr
          ⟨Nat.le_refl 1, fun p mem => ?_⟩⟩⟩⟩
      · exact Nat.le_trans (Nat.le_of_succ_le lt) (iht gt p mem)
      · exact Nat.le_trans la (iha ga p mem)
      · exact Nat.le_trans lb (ihb gb p mem)

/-- The operator at the root is a part of its own level. -/
theorem exists_level (e : Expression) : ∃ p ∈ e.parts, p.level = e.level := by
  cases e with
  | operand text => exact ⟨.operand text, by simp [parts], rfl⟩
  | prefixed sign e => exact ⟨.before sign, by simp [parts], rfl⟩
  | postfixed e sign => exact ⟨.behind sign, by simp [parts], rfl⟩
  | infixed sign l r => exact ⟨.between sign, by simp [parts], rfl⟩
  | conditional t a b => exact ⟨.question, by simp [parts], rfl⟩

theorem level_eq {e e' : Expression} (ge : e.grammatical = true) (ge' : e'.grammatical = true)
    (same : e.parts = e'.parts) : e.level = e'.level := by
  obtain ⟨p, mem, eq⟩ := exists_level e
  obtain ⟨p', mem', eq'⟩ := exists_level e'
  have := level_le ge' p (same ▸ mem)
  have := level_le ge p' (same ▸ mem')
  omega

end Expression

/-! ### Choices nest -/

/-- Reads question marks and colons from `n` open choices on; a colon that closes none is refused. -/
def choices? : Nat → List Part → Option Nat
  | n, [] => some n
  | n, .question :: ps => choices? (n + 1) ps
  | 0, .colon :: _ => none
  | n + 1, .colon :: ps => choices? n ps
  | n, _ :: ps => choices? n ps

theorem choices?_parts (e : Expression) : ∀ n rest, choices? n (e.parts ++ rest) = choices? n rest := by
  induction e with
  | operand text => simp [Expression.parts, choices?]
  | prefixed sign e ih => simp [Expression.parts, choices?, ih]
  | postfixed e sign ih => simp [Expression.parts, choices?, ih]
  | infixed sign l r ihl ihr => simp [Expression.parts, choices?, ihl, ihr]
  | conditional t a b iht iha ihb => simp [Expression.parts, choices?, iht, iha, ihb]

/-- What follows the first expression up to a colon is no part of a longer one. -/
theorem not_parts_append_colon {e e' : Expression} {rest : List Part} :
    e'.parts ≠ e.parts ++ .colon :: rest := by
  intro same
  have whole := choices?_parts e' 0 []
  rw [List.append_nil, same, choices?_parts] at whole
  cases whole

/-! ### Lists with one marked element -/

section Marked

variable {α : Type} {P : α → Prop} {l l' r r' : List α} {x x' : α}

/-- Two lists that agree have their first marked element at the same place. -/
theorem eq_of_first (same : l ++ x :: r = l' ++ x' :: r') (hx : P x) (hx' : P x')
    (hl : ∀ y ∈ l, ¬ P y) (hl' : ∀ y ∈ l', ¬ P y) : l = l' ∧ x = x' ∧ r = r' := by
  induction l generalizing l' with
  | nil =>
      cases l' with
      | nil => simpa using same
      | cons y l' =>
          obtain ⟨rfl, -⟩ := List.cons.inj same
          exact absurd hx (hl' x List.mem_cons_self)
  | cons y l ih =>
      cases l' with
      | nil =>
          obtain ⟨rfl, -⟩ := List.cons.inj same
          exact absurd hx' (hl y List.mem_cons_self)
      | cons y' l' =>
          obtain ⟨rfl, more⟩ := List.cons.inj same
          obtain ⟨rfl, rfl, rfl⟩ := ih more (fun z mem => hl z (List.mem_cons_of_mem y mem))
            (fun z mem => hl' z (List.mem_cons_of_mem y mem))
          exact ⟨rfl, rfl, rfl⟩

/-- Two lists that agree have their last marked element at the same place. -/
theorem eq_of_last (same : l ++ x :: r = l' ++ x' :: r') (hx : P x) (hx' : P x')
    (hr : ∀ y ∈ r, ¬ P y) (hr' : ∀ y ∈ r', ¬ P y) : l = l' ∧ x = x' ∧ r = r' := by
  have reversed : r.reverse ++ x :: l.reverse = r'.reverse ++ x' :: l'.reverse := by
    simpa using congrArg List.reverse same
  obtain ⟨rr, rfl, ll⟩ := eq_of_first reversed hx hx' (by simpa using hr) (by simpa using hr')
  exact ⟨List.reverse_injective ll, rfl, List.reverse_injective rr⟩

end Marked

/-! ### Parts determine the expression -/

namespace Expression

theorem parts_ne_nil (e : Expression) : e.parts ≠ [] := by
  cases e <;> simp [parts]

theorem eq_operand_of_level {e : Expression} (grammatical : e.grammatical = true) (high : 15 ≤ e.level) :
    ∃ text, e = .operand text := by
  cases e with
  | operand text => exact ⟨text, rfl⟩
  | prefixed sign e =>
      obtain ⟨own, inner, found, -⟩ := grammatical_prefixed.mp grammatical
      have := prefixLevels?_cases found
      rw [level_prefixed found] at high
      omega
  | postfixed e sign => simp [level] at high
  | infixed sign l r =>
      obtain ⟨n, found, -⟩ := grammatical_infixed.mp grammatical
      have := infixLevel?_le found
      rw [level_infixed found] at high
      omega
  | conditional t a b => simp [level] at high

/-- Above the level of all its parts an expression has none of that level. -/
theorem ne_level {e : Expression} {n : Nat} (grammatical : e.grammatical = true) (above : n < e.level) :
    ∀ p ∈ e.parts, p.level ≠ n := by
  intro p mem same
  have := level_le grammatical p mem
  omega

/-- An assignment does not read as a choice: the sign at its root is its first part on their level. -/
theorem parts_infixed_ne_conditional {sign : String} {l r t a b : Expression}
    (ge : (infixed sign l r).grammatical = true) (ge' : (conditional t a b).grammatical = true) :
    (infixed sign l r).parts ≠ (conditional t a b).parts := by
  intro same
  have levels := level_eq ge ge' same
  obtain ⟨n, found, left, -, gl, -⟩ := grammatical_infixed.mp ge
  obtain ⟨lt, -, -, gt, -⟩ := grammatical_conditional.mp ge'
  obtain rfl : n = 1 := (level_infixed found).symm.trans levels
  obtain ⟨-, root, -⟩ := eq_of_first (P := fun p : Part => p.level = 1) same (by simp [Part.level, found]) rfl
    (ne_level gl (Nat.lt_of_lt_of_le (by decide) left)) (ne_level gt lt)
  cases root

/-- A sign in front is the first part of its expression alone. -/
theorem head_ne_before {e : Expression} {sign : String} {rest : List Part} (ge : e.grammatical = true)
    (front : e.parts = .before sign :: rest) {own inner : Nat}
    (found : prefixLevels? sign = some (own, inner)) (same : e.level = own) : ∃ e', e = .prefixed sign e' := by
  have order := prefixLevels?_cases found
  cases e with
  | operand text => cases front
  | prefixed sign' e' =>
      cases front
      exact ⟨e', rfl⟩
  | postfixed e' sign' =>
      obtain ⟨-, high, ge⟩ := grammatical_postfixed.mp ge
      obtain ⟨text, rfl⟩ := eq_operand_of_level ge high
      cases front
  | infixed sign' l r =>
      obtain ⟨n, isSign, left, -, gl, -⟩ := grammatical_infixed.mp ge
      have small := infixLevel?_le isSign
      rw [level_infixed isSign] at same
      obtain rfl : n = 1 := by omega
      obtain ⟨text, rfl⟩ := eq_operand_of_level gl left
      cases front
  | conditional t a b =>
      obtain ⟨lt, -, -, gt, -⟩ := grammatical_conditional.mp ge
      have mem : Part.before sign ∈ t.parts := by
        cases shown : t.parts with
        | nil => exact absurd shown (parts_ne_nil t)
        | cons p ps =>
            rw [parts, shown] at front
            cases front
            exact List.mem_cons_self
      have low := level_le gt _ mem
      simp only [Part.level, found, Option.map_some, Option.getD_some] at low
      simp only [level] at same
      omega

/-- The parts of a grammatical expression determine it. -/
theorem eq_of_parts {e e' : Expression} (ge : e.grammatical = true) (ge' : e'.grammatical = true)
    (same : e.parts = e'.parts) : e = e' := by
  have levels := level_eq ge ge' same
  induction e generalizing e' with
  | operand text =>
      obtain ⟨text', rfl⟩ := eq_operand_of_level ge' (Nat.le_of_eq levels)
      cases same
      rfl
  | prefixed sign e ih =>
      obtain ⟨own, inner, found, -, ge⟩ := grammatical_prefixed.mp ge
      rw [level_prefixed found] at levels
      obtain ⟨e', rfl⟩ := head_ne_before ge' same.symm found levels.symm
      obtain ⟨_, _, -, -, ge'⟩ := grammatical_prefixed.mp ge'
      have inside : e.parts = e'.parts := (List.cons.inj same).2
      rw [ih ge ge' inside (level_eq ge ge' inside)]
  | postfixed e sign ih =>
      obtain ⟨-, high, ge⟩ := grammatical_postfixed.mp ge
      obtain ⟨text, rfl⟩ := eq_operand_of_level ge high
      cases e' with
      | postfixed e' sign' =>
          obtain ⟨-, high, ge'⟩ := grammatical_postfixed.mp ge'
          obtain ⟨text', rfl⟩ := eq_operand_of_level ge' high
          cases same
          rfl
      | operand text' => cases same
      | prefixed sign' e' => cases same
      | infixed sign' l r =>
          obtain ⟨n, found, -⟩ := grammatical_infixed.mp ge'
          have := infixLevel?_le found
          rw [level_infixed found, level] at levels
          omega
      | conditional t a b => simp [level] at levels
  | infixed sign l r ihl ihr =>
      obtain ⟨n, found, left, right, gl, gr⟩ := grammatical_infixed.mp ge
      have small := infixLevel?_le found
      rw [level_infixed found] at levels
      cases e' with
      | infixed sign' l' r' =>
          obtain ⟨n', found', left', right', gl', gr'⟩ := grammatical_infixed.mp ge'
          rw [level_infixed found'] at levels
          subst levels
          have root : (Part.between sign).level = n := by simp [Part.level, found]
          have root' : (Part.between sign').level = n := by simp [Part.level, found']
          -- the level groups to one side, so that the other operand has no part on it
          have split : l.parts = l'.parts ∧ Part.between sign = .between sign' ∧ r.parts = r'.parts := by
            obtain toLeft | toRight := lt_leftLevel_or_lt_rightLevel n
            · exact eq_of_first (P := fun p : Part => p.level = n) same root root'
                (ne_level gl (Nat.lt_of_lt_of_le toLeft left)) (ne_level gl' (Nat.lt_of_lt_of_le toLeft left'))
            · exact eq_of_last (P := fun p : Part => p.level = n) same root root'
                (ne_level gr (Nat.lt_of_lt_of_le toRight right))
                (ne_level gr' (Nat.lt_of_lt_of_le toRight right'))
          obtain ⟨ll, signs, rr⟩ := split
          cases signs
          rw [ihl gl gl' ll (level_eq gl gl' ll), ihr gr gr' rr (level_eq gr gr' rr)]
      | conditional t a b => exact absurd same (parts_infixed_ne_conditional ge ge')
      | operand text => 
          rw [level] at levels
          omega
      | prefixed sign' e' =>
          obtain ⟨own, inner, before, -⟩ := grammatical_prefixed.mp ge'
          rw [level_prefixed before] at levels
          obtain ⟨_, eq⟩ := head_ne_before ge same before (by rw [level_infixed found, levels])
          cases eq
      | postfixed e' sign' =>
          rw [level] at levels
          omega
  | conditional t a b iht iha ihb =>
      obtain ⟨lt, -, -, gt, ga, gb⟩ := grammatical_conditional.mp ge
      cases e' with
      | conditional t' a' b' =>
          obtain ⟨lt', -, -, gt', ga', gb'⟩ := grammatical_conditional.mp ge'
          obtain ⟨tt, -, rest⟩ := eq_of_first (P := fun p : Part => p.level = 1) same rfl rfl
            (ne_level gt lt) (ne_level gt' lt')
          -- one of the first branches would otherwise go on behind its colon
          have branches : a.parts = a'.parts ∧ b.parts = b'.parts := by
            obtain ⟨more, longer, eq⟩ | ⟨more, longer, eq⟩ := List.append_eq_append_iff.mp rest
            · cases more with
              | nil => exact ⟨by simpa using longer.symm, by simpa using eq⟩
              | cons p more =>
                  obtain ⟨rfl, -⟩ := List.cons.inj eq
                  exact absurd longer not_parts_append_colon
            · cases more with
              | nil => exact ⟨by simpa using longer, by simpa using eq.symm⟩
              | cons p more =>
                  obtain ⟨rfl, -⟩ := List.cons.inj eq
                  exact absurd longer not_parts_append_colon
          rw [iht gt gt' tt (level_eq gt gt' tt), iha ga ga' branches.1 (level_eq ga ga' branches.1),
            ihb gb gb' branches.2 (level_eq gb gb' branches.2)]
      | infixed sign l r => exact absurd same.symm (parts_infixed_ne_conditional ge' ge)
      | operand text => simp [level] at levels
      | prefixed sign e' =>
          obtain ⟨own, inner, before, -⟩ := grammatical_prefixed.mp ge'
          rw [level_prefixed before] at levels
          obtain ⟨_, eq⟩ := head_ne_before ge same before levels
          cases eq
      | postfixed e' sign => simp [level] at levels

end Expression

/-! ### Words determine the parts -/

/-- What is awaited behind a part, when it may stand where an operand is awaited or has been read. -/
def Part.next? : Bool → Part → Option Bool
  | true, .operand _ => some false
  | true, .before sign => if (prefixLevels? sign).isSome then some true else none
  | false, .behind sign => if postfixSigns.contains sign then some false else none
  | false, .between sign => if (infixLevel? sign).isSome then some true else none
  | false, .question => some true
  | false, .colon => some true
  | _, _ => none

/-- Whether parts may follow one another, from a place where an operand is awaited or has been read. -/
def fits : Bool → List Part → Bool
  | _, [] => true
  | awaited, p :: ps =>
      match p.next? awaited with
      | some next => fits next ps
      | none => false

theorem fits_parts {e : Expression} (ge : e.grammatical = true) :
    ∀ rest, fits true (e.parts ++ rest) = fits false rest := by
  induction e with
  | operand text => simp [Expression.parts, fits, Part.next?]
  | prefixed sign e ih =>
      obtain ⟨own, inner, found, -, ge⟩ := Expression.grammatical_prefixed.mp ge
      simp [Expression.parts, fits, Part.next?, found, ih ge]
  | postfixed e sign ih =>
      obtain ⟨mem, -, ge⟩ := Expression.grammatical_postfixed.mp ge
      simp [Expression.parts, fits, Part.next?, ih ge, mem]
  | infixed sign l r ihl ihr =>
      obtain ⟨n, found, -, -, gl, gr⟩ := Expression.grammatical_infixed.mp ge
      simp [Expression.parts, fits, Part.next?, found, ihl gl, ihr gr]
  | conditional t a b iht iha ihb =>
      obtain ⟨-, -, -, gt, ga, gb⟩ := Expression.grammatical_conditional.mp ge
      simp [Expression.parts, fits, Part.next?, iht gt, iha ga, ihb gb]

/-- Where it may stand, a word is one part. -/
theorem Part.eq_of_word {awaited : Bool} {p p' : Part} (hp : (p.next? awaited).isSome = true)
    (hp' : (p'.next? awaited).isSome = true) (same : p.word = p'.word) : p = p' := by
  have choice := infixLevel?_choice
  have steps (sign : String) := @postfixSigns_infixLevel? sign
  have plain : "?" ∉ postfixSigns ∧ ":" ∉ postfixSigns := by decide
  cases awaited <;> cases p <;> cases p' <;> simp_all [Part.next?, Part.word]

theorem eq_of_fits {ps ps' : List Part} :
    ∀ {awaited : Bool}, fits awaited ps = true → fits awaited ps' = true →
    ps.map Part.word = ps'.map Part.word → ps = ps' := by
  induction ps generalizing ps' with
  | nil =>
      intro _ _ _ same
      exact (List.map_eq_nil_iff.mp same.symm).symm
  | cons p ps ih =>
      intro awaited h h' same
      cases ps' with
      | nil => cases same
      | cons p' ps' =>
          obtain ⟨first, rest⟩ := List.cons.inj same
          unfold fits at h h'
          split at h
          · rename_i next goes
            split at h'
            · rename_i next' goes'
              obtain rfl : p = p' :=
                Part.eq_of_word (p := p) (by rw [goes]; rfl) (by rw [goes']; rfl) first
              obtain rfl : next = next' := Option.some.inj (goes.symm.trans goes')
              rw [ih h h' rest]
            · cases h'
          · cases h

/-- Words are read in one way at most. -/
theorem Groups.unique {ws : List Word} {e e' : Expression} (h : Groups ws e) (h' : Groups ws e') :
    e = e' := by
  refine Expression.eq_of_parts h.grammatical h'.grammatical ?_
  have whole {e : Expression} (ge : e.grammatical = true) : fits true e.parts = true := by
    simpa [fits] using fits_parts ge []
  exact eq_of_fits (whole h.grammatical) (whole h'.grammatical) (h.words.trans h'.words.symm)

end ReactMigration.Script
