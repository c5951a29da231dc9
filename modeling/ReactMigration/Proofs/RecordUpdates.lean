import ReactMigration.Proofs.BoundPaths

/-!
What an update by spreads means.

A write below a path of keys becomes an object literal that takes over the record and defines one member anew, with
the same literal one key further down as its value.  Evaluated where the path leads through records, it gives the
record with the new value at the path and everything beside the path as it was, whatever the names, the keys and the
value are.  The one exception is the key `__proto__`, which defines no member in an object literal.
-/

namespace ReactMigration.Recast

open ReactMigration.Script (pathText)
open ReactMigration.Text.Pattern (isName)

/-! ### Values -/

/-- A value, as far as keys lead into it. -/
inductive Value (α : Type) where
  | plain (a : α)
  | record (members : String → Option (Value α))

namespace Value

variable {α : Type}

def member? : Value α → String → Option (Value α)
  | .plain _, _ => none
  | .record members, key => members key

/-- The value that a path of keys leads to. -/
def at? (v : Value α) : List String → Option (Value α)
  | [] => some v
  | key :: path => (v.member? key).bind (·.at? path)

theorem at?_plain {a : α} {path : List String} (visible : path ≠ []) : (plain a).at? path = none := by
  cases path with
  | nil => exact absurd rfl visible
  | cons key path => rfl

/-- Nothing but records is found in it. -/
def Bare (v : Value α) : Prop :=
  ∀ path a, v.at? path ≠ some (.plain a)

/-- No plain value is found through the key. -/
def Hides (key : String) (v : Value α) : Prop :=
  ∀ path, key ∈ path → ∀ a, v.at? path ≠ some (.plain a)

theorem Bare.hides {v : Value α} (bare : v.Bare) (key : String) : v.Hides key :=
  fun path _ => bare path

theorem hides_plain (key : String) (a : α) : (plain a).Hides key := by
  intro path mem b found
  rw [at?_plain (List.ne_nil_of_mem mem)] at found
  cases found

theorem hides_record {hidden : String} {members : String → Option (Value α)} :
    (record members).Hides hidden ↔
      ∀ key v, members key = some v → v.Hides hidden ∧ (key = hidden → v.Bare) := by
  constructor
  · intro hides key v known
    have inner (path : List String) : (record members).at? (key :: path) = v.at? path := by
      rw [at?, member?, known, Option.bind_some]
    refine ⟨fun path mem a => ?_, fun same path a => ?_⟩
    · rw [← inner]
      exact hides _ (List.mem_cons_of_mem _ mem) a
    · rw [← inner]
      exact hides _ (same ▸ List.mem_cons_self) a
  · intro inner path mem a found
    cases path with
    | nil => cases mem
    | cons key path =>
        rw [at?, member?] at found
        obtain ⟨v, known, found⟩ := Option.bind_eq_some_iff.mp found
        obtain ⟨hides, bare⟩ := inner key v known
        obtain same | mem := List.mem_cons.mp mem
        · exact bare same.symm path a found
        · exact hides path mem a found

/-- Records in records, to the given depth. -/
def nested : Nat → Value α
  | 0 => .record fun _ => none
  | depth + 1 => .record fun _ => some (nested depth)

theorem nested_record (depth : Nat) : ∃ members, (nested depth : Value α) = .record members := by
  cases depth with
  | zero => exact ⟨_, rfl⟩
  | succ depth => exact ⟨_, rfl⟩

theorem nested_at? {depth : Nat} {path : List String} (reached : path.length ≤ depth) :
    (nested depth : Value α).at? path = some (nested (depth - path.length)) := by
  induction path generalizing depth with
  | nil => rfl
  | cons key path ih =>
      obtain ⟨depth, rfl⟩ := Nat.exists_eq_succ_of_ne_zero (Nat.ne_of_gt (Nat.zero_lt_of_lt reached))
      rw [List.length_cons, Nat.succ_sub_succ, ← ih (Nat.le_of_succ_le_succ reached)]
      rfl

theorem nested_bare (depth : Nat) : (nested depth : Value α).Bare := by
  intro path
  induction path generalizing depth with
  | nil =>
      intro a found
      obtain ⟨members, same⟩ := @nested_record α depth
      rw [at?, same] at found
      cases found
  | cons key path ih =>
      intro a found
      cases depth with
      | zero => cases found
      | succ depth => exact ih depth a found

end Value

/-- The value `after` is what was `before`, but for a value that is placed at the path. -/
structure Places {α : Type} (before : List String → Option (Value α)) (path : List String) (value after : Value α) :
    Prop where
  placed : ∀ rest, after.at? (path ++ rest) = value.at? rest
  kept : ∀ other, ¬ path <+: other → ¬ other <+: path → after.at? other = before other
  records : ∀ i < path.length, ∃ members, after.at? (path.take i) = some (.record members)

/-! ### Object literals -/

mutual

/-- The code an update is written in; other code has a value of its own. -/
inductive Expression where
  | name (name : String)
  | code (text : String)
  | member (object : Expression) (key : String)
  | literal (parts : Parts)

/-- What stands in an object literal. -/
inductive Parts where
  | done
  | spread (source : Expression) (more : Parts)
  | define (key : String) (value : Expression) (more : Parts)

end

mutual

def Expression.text : Expression → String
  | .name name => name
  | .code text => text
  | .member object key => object.text ++ "." ++ key
  | .literal parts => "\x7b " ++ ", ".intercalate parts.texts ++ " \x7d"

def Parts.texts : Parts → List String
  | .done => []
  | .spread source more => ("..." ++ source.text) :: more.texts
  | .define key value more => (key ++ ": " ++ value.text) :: more.texts

end

structure Environment (α : Type) where
  bound? : String → Option (Value α)
  code? : String → Option (Value α)

/-- What a variable has at a path of keys. -/
def Environment.at? {α : Type} (env : Environment α) (name : String) (path : List String) : Option (Value α) :=
  (env.bound? name).bind (·.at? path)

section Evaluation

variable {α : Type}

mutual

/-- The value of an expression.  Only records are spread, and a later part of a literal hides an earlier one. -/
def Expression.eval (env : Environment α) : Expression → Option (Value α)
  | .name name => env.bound? name
  | .code text => env.code? text
  | .member object key => (object.eval env).bind (·.member? key)
  | .literal parts => (parts.eval env fun _ => none).map .record

def Parts.eval (env : Environment α) : Parts → (String → Option (Value α)) → Option (String → Option (Value α))
  | .done, members => some members
  | .spread source more, members =>
      match source.eval env with
      | some (.record spread) => more.eval env fun key => (spread key).or (members key)
      | _ => none
  | .define key value more, members =>
      match value.eval env with
      -- this key sets the prototype of the record
      | some v => more.eval env (if key = "__proto__" then members else Function.update members key (some v))
      | none => none

end

end Evaluation

/-- Whatever the code `value` stands for, the expression gives the record of that name with it at the path of keys. -/
def Expression.Updates (e : Expression) (name : String) (keys : List String) (value : String) : Prop :=
  ∀ (α : Type) (env : Environment α) (v : Value α), env.code? value = some v →
    (∀ i < keys.length, ∃ members, env.at? name (keys.take i) = some (.record members)) →
    ∃ after, e.eval env = some after ∧ Places (env.at? name) keys v after

/-- A text is the update of a record, written as an expression. -/
def WritesUpdate (name : String) (keys : List String) (value text : String) : Prop :=
  ∃ e : Expression, e.text = text ∧ e.Updates name keys value

/-! ### A chain of spreads -/

/-- The record `base` with the value at the path of keys. -/
def spreadChain (base value : Expression) : List String → Expression
  | [] => value
  | key :: keys => .literal (.spread base (.define key (spreadChain (.member base key) value keys) .done))

theorem spreadChain_text (base value : Expression) (keys : List String) :
    (spreadChain base value keys).text = spreadInto base.text keys value.text := by
  induction keys generalizing base with
  | nil => rfl
  | cons key keys ih =>
      rw [spreadChain, Expression.text, Parts.texts, Parts.texts, Parts.texts, ih, Expression.text, spreadInto]
      apply String.toList_inj.mp
      simp only [String.toList_append, String.toList_intercalate, List.map_cons, List.map_nil,
        List.intercalate_cons_cons, List.intercalate_singleton, List.append_assoc]
      rfl

/-- Each literal holds what its base has, with the chain from the next key on in place of one member. -/
theorem spreadChain_places {α : Type} {env : Environment α} {base value : Expression} {v : Value α} {keys : List String}
    (plain : "__proto__" ∉ keys) (known : value.eval env = some v)
    (records : ∀ i < keys.length, ∃ members, (base.eval env).bind (·.at? (keys.take i)) = some (.record members)) :
    ∃ after, (spreadChain base value keys).eval env = some after ∧
      Places (fun path => (base.eval env).bind (·.at? path)) keys v after := by
  induction keys generalizing base with
  | nil =>
      refine ⟨v, known, fun rest => rfl, fun other outside => ?_, fun i less => ?_⟩
      · exact absurd List.nil_prefix outside
      · exact absurd less (Nat.not_lt_zero i)
  | cons key keys ih =>
      obtain ⟨other, plain⟩ := List.ne_and_not_mem_of_not_mem_cons plain
      obtain ⟨members, found⟩ := records 0 (Nat.succ_pos _)
      have found : base.eval env = some (.record members) := by simpa [Value.at?] using found
      have below (path : List String) :
          ((Expression.member base key).eval env).bind (·.at? path) = (members key).bind (·.at? path) := by
        rw [Expression.eval, found]
        rfl
      obtain ⟨inner, chain, places⟩ := @ih (.member base key) plain fun i less => by
        obtain ⟨inside, found'⟩ := records (i + 1) (Nat.succ_lt_succ less)
        rw [found, List.take_succ_cons] at found'
        exact ⟨inside, (below _).trans found'⟩
      refine ⟨.record (Function.update members key (some inner)), ?_, ?_, ?_, ?_⟩
      · simp [spreadChain, Expression.eval, Parts.eval, found, chain, Ne.symm other]
      · intro rest
        rw [List.cons_append, Value.at?, Value.member?, Function.update_self, Option.bind_some, places.placed]
      · intro path outside inside
        cases path with
        | nil => exact absurd List.nil_prefix inside
        | cons key' path =>
            rw [Value.at?, Value.member?, found, Option.bind_some, Value.at?, Value.member?]
            by_cases same : key' = key
            · subst same
              rw [Function.update_self, Option.bind_some, ← below]
              refine places.kept path (fun front => outside ?_) fun front => inside ?_
              · exact List.cons_prefix_cons.mpr ⟨rfl, front⟩
              · exact List.cons_prefix_cons.mpr ⟨rfl, front⟩
            · rw [Function.update_of_ne same]
      · intro i less
        cases i with
        | zero => exact ⟨_, rfl⟩
        | succ i =>
            obtain ⟨inside, found'⟩ := places.records i (Nat.lt_of_succ_lt_succ less)
            refine ⟨inside, ?_⟩
            rw [List.take_succ_cons, Value.at?, Value.member?, Function.update_self, Option.bind_some, found']

theorem spreadChain_updates {keys : List String} (plain : "__proto__" ∉ keys) (name value : String) :
    (spreadChain (.name name) (.code value) keys).Updates name keys value :=
  fun _ env _ known records => @spreadChain_places _ env (.name name) (.code value) _ _ plain known records

/-! ### Members no literal defines -/

mutual

/-- The keys that literals of the expression name. -/
def Expression.keys : Expression → List String
  | .name _ | .code _ => []
  | .member object _ => object.keys
  | .literal parts => parts.keys

def Parts.keys : Parts → List String
  | .done => []
  | .spread source more => source.keys ++ more.keys
  | .define key value more => key :: (value.keys ++ more.keys)

end

section Hidden

variable {α : Type} {env : Environment α} {hidden : String}

mutual

theorem Expression.eval_hides (bound : ∀ name v, env.bound? name = some v → v.Hides hidden)
    (codes : ∀ text v, env.code? text = some v → v.Hides hidden) :
    (e : Expression) → (hidden ∈ e.keys → hidden = "__proto__") → ∀ v, e.eval env = some v → v.Hides hidden
  | .name name, _, v, value => bound name v value
  | .code text, _, v, value => codes text v value
  | .member object key, undefined, v, value => by
      rw [Expression.eval] at value
      obtain ⟨w, found, value⟩ := Option.bind_eq_some_iff.mp value
      have hides := Expression.eval_hides bound codes object undefined w found
      intro path mem a
      have step : w.at? (key :: path) = v.at? path := by rw [Value.at?, value, Option.bind_some]
      rw [← step]
      exact hides _ (List.mem_cons_of_mem _ mem) a
  | .literal parts, undefined, v, value => by
      rw [Expression.eval] at value
      obtain ⟨members, found, rfl⟩ := Option.map_eq_some_iff.mp value
      refine Parts.eval_hides bound codes parts undefined ?_ found
      exact Value.hides_record.mpr fun _ _ none => nomatch none

theorem Parts.eval_hides (bound : ∀ name v, env.bound? name = some v → v.Hides hidden)
    (codes : ∀ text v, env.code? text = some v → v.Hides hidden) :
    (parts : Parts) → (hidden ∈ parts.keys → hidden = "__proto__") →
      ∀ {members out}, (Value.record members).Hides hidden → parts.eval env members = some out →
        (Value.record out).Hides hidden
  | .done, _, members, out, hides, value => by
      obtain rfl : members = out := Option.some.inj value
      exact hides
  | .spread source more, undefined, members, out, hides, value => by
      rw [Parts.keys, List.mem_append] at undefined
      rw [Parts.eval] at value
      split at value
      · rename_i spread found
        refine Parts.eval_hides bound codes more (undefined ∘ .inr) (Value.hides_record.mpr ?_) value
        have source' := Expression.eval_hides bound codes source (undefined ∘ .inl) _ found
        intro key v known
        obtain known | ⟨-, known⟩ := Option.or_eq_some_iff.mp known
        · exact Value.hides_record.mp source' key v known
        · exact Value.hides_record.mp hides key v known
      · cases value
  | .define key value more, undefined, members, out, hides, result => by
      rw [Parts.keys, List.mem_cons, List.mem_append] at undefined
      rw [Parts.eval] at result
      split at result
      · rename_i w found
        refine Parts.eval_hides bound codes more (undefined ∘ .inr ∘ .inr) ?_ result
        split
        · exact hides
        · rename_i ordinary
          have value' := Expression.eval_hides bound codes value (undefined ∘ .inr ∘ .inl) w found
          refine Value.hides_record.mpr fun key' v known => ?_
          by_cases same : key' = key
          · subst same
            rw [Function.update_self] at known
            obtain rfl := Option.some.inj known
            refine ⟨value', fun same => absurd ?_ ordinary⟩
            rw [same]
            exact undefined (.inl same.symm)
          · rw [Function.update_of_ne same] at known
            exact Value.hides_record.mp hides key' v known
      · cases result

end

end Hidden

/-- An expression that does not define a member places nothing below it. -/
theorem not_updates {e : Expression} {name hidden value : String} {keys : List String} (mem : hidden ∈ keys)
    (undefined : hidden ∈ e.keys → hidden = "__proto__") : ¬ e.Updates name keys value := by
  intro updates
  let env : Environment Unit := ⟨fun _ => some (.nested keys.length), fun _ => some (.plain ())⟩
  have records : ∀ i < keys.length, ∃ members, env.at? name (keys.take i) = some (.record members) := by
    intro i less
    obtain ⟨members, same⟩ := @Value.nested_record Unit (keys.length - (keys.take i).length)
    have reached := @Value.nested_at? Unit keys.length (keys.take i) (List.length_take_le' i keys)
    exact ⟨members, reached.trans (congrArg some same)⟩
  obtain ⟨after, evaluated, places⟩ := updates Unit env (.plain ()) rfl records
  have hides : after.Hides hidden := by
    refine Expression.eval_hides ?_ ?_ e undefined after evaluated
    · rintro name v ⟨⟩
      exact (Value.nested_bare _).hides hidden
    · rintro text v ⟨⟩
      exact Value.hides_plain hidden ()
  have placed := places.placed []
  rw [List.append_nil] at placed
  exact hides keys mem () placed

theorem mem_intercalate {sep x : List Char} {parts : List (List Char)} {a : Char} (known : x ∈ parts) (mem : a ∈ x) :
    a ∈ sep.intercalate parts := by
  induction parts with
  | nil => cases known
  | cons part parts ih =>
      cases parts with
      | nil =>
          obtain rfl := List.mem_singleton.mp known
          rwa [List.intercalate_singleton]
      | cons next parts =>
          rw [List.intercalate_cons_cons, List.mem_append, List.mem_append]
          obtain rfl | known := List.mem_cons.mp known
          · exact .inl (.inl mem)
          · exact .inr (ih known)

mutual

/-- A key that is named in a literal is written there. -/
theorem Expression.mem_text {key : String} {a : Char} (letter : a ∈ key.toList) :
    (e : Expression) → key ∈ e.keys → a ∈ e.text.toList
  | .name _, mem => nomatch mem
  | .code _, mem => nomatch mem
  | .member object _, mem => by
      have inner := Expression.mem_text letter object mem
      simp [Expression.text, inner]
  | .literal parts, mem => by
      obtain ⟨text, known, inner⟩ := Parts.mem_texts letter parts mem
      have inside := @mem_intercalate ", ".toList _ _ a (List.mem_map_of_mem known) inner
      rw [Expression.text, String.toList_append, String.toList_append, String.toList_intercalate]
      exact List.mem_append_left _ (List.mem_append_right _ inside)

theorem Parts.mem_texts {key : String} {a : Char} (letter : a ∈ key.toList) :
    (parts : Parts) → key ∈ parts.keys → ∃ text ∈ parts.texts, a ∈ text.toList
  | .done, mem => nomatch mem
  | .spread source more, mem => by
      obtain mem | mem := List.mem_append.mp mem
      · have inner := Expression.mem_text letter source mem
        exact ⟨_, List.mem_cons_self, by simp [inner]⟩
      · obtain ⟨text, known, inner⟩ := Parts.mem_texts letter more mem
        exact ⟨text, List.mem_cons_of_mem _ known, inner⟩
  | .define key' value more, mem => by
      obtain rfl | mem := List.mem_cons.mp mem
      · exact ⟨_, List.mem_cons_self, by simp [letter]⟩
      obtain mem | mem := List.mem_append.mp mem
      · have inner := Expression.mem_text letter value mem
        exact ⟨_, List.mem_cons_self, by simp [inner]⟩
      · obtain ⟨text, known, inner⟩ := Parts.mem_texts letter more mem
        exact ⟨text, List.mem_cons_of_mem _ known, inner⟩

end

/-! ### The update that is written -/

/-- With keys of name characters the text is an update of the record exactly if no key is `__proto__`. -/
theorem spreadUpdate_writes_iff (name : String) {keys : List String}
    (named : ∀ key ∈ keys, key ≠ "" ∧ key.toList.all isName = true) (value : String) :
    WritesUpdate name keys value (spreadUpdate name (String.ofList (pathText (keys.map String.toList))) value) ↔
      "__proto__" ∉ keys := by
  have isKeys : ∀ key ∈ keys.map String.toList, IsKey key := by
    intro key mem
    obtain ⟨key, known, rfl⟩ := List.mem_map.mp mem
    obtain ⟨visible, letters⟩ := named key known
    exact ⟨fun empty => visible (String.toList_inj.mp empty), List.all_eq_true.mp letters⟩
  have written : spreadUpdate name (String.ofList (pathText (keys.map String.toList))) value =
      spreadInto name keys value := by
    rw [spreadUpdate_path isKeys, List.map_map]
    congr 1
    exact (List.map_congr_left fun key _ => String.ofList_toList).trans (List.map_id keys)
  constructor
  · rintro ⟨e, -, updates⟩ mem
    exact not_updates mem (fun _ => rfl) updates
  · intro plain
    rw [written]
    exact ⟨_, spreadChain_text (.name name) (.code value) keys, spreadChain_updates plain name value⟩

theorem spreadUpdate_writes_city :
    (∀ key ∈ ["address", "city"], key ≠ "" ∧ key.toList.all isName = true) ∧
      spreadUpdate "user" ".address.city" "v" = "\x7b ...user, address: \x7b ...user.address, city: v \x7d \x7d" ∧
      WritesUpdate "user" ["address", "city"] "v" (spreadUpdate "user" ".address.city" "v") := by
  have named : ∀ key ∈ ["address", "city"], key ≠ "" ∧ key.toList.all isName = true := by decide +kernel
  exact ⟨named, by decide +kernel, (spreadUpdate_writes_iff "user" named "v").mpr (by decide)⟩

/-- The prototype is no member, and of a key with a combining mark only the front is written. -/
theorem spreadUpdate_loses_keys :
    ¬ WritesUpdate "user" ["__proto__"] "v" (spreadUpdate "user" ".__proto__" "v") ∧
      ¬ WritesUpdate "user" ["नाम"] "v" (spreadUpdate "user" ".नाम" "v") := by
  constructor
  · rintro ⟨e, -, updates⟩
    exact not_updates List.mem_cons_self (fun _ => rfl) updates
  · rintro ⟨e, text, updates⟩
    have cut : spreadUpdate "user" ".नाम" "v" = "\x7b ...user, न: v \x7d" := by decide +kernel
    have unwritten : 'ा' ∉ e.text.toList := by
      rw [text, cut]
      simp
    exact not_updates List.mem_cons_self
      (fun mem => absurd (Expression.mem_text (by decide) e mem) unwritten) updates

end ReactMigration.Recast
