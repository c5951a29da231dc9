import ReactMigration.Proofs.FieldWrites
import ReactMigration.Proofs.Models
import ReactMigration.Proofs.TokenSpans

/-!
Which writes in a template make a field state.

A two-way binding changes what its expression starts with, a statement of a handler what the target of
its assignment starts with.  Linking gathers exactly these names.
-/

namespace ReactMigration.Script

open ReactMigration.Text
open ReactMigration.Text.Pattern (isName isNameStart)

/-! ### Statements that start with a name -/

/-- The text starts with the name, as a whole word. -/
structure Leads (name rest : List Char) : Prop where
  starts : ∃ a ∈ name.head?, isNameStart a = true
  letters : ∀ a ∈ name, isName a = true ∧ isIdentifierPart a = true
  ends : NotNext isName rest

theorem Leads.cons {name rest : List Char} (leads : Leads name rest) :
    ∃ a tail, name = a :: tail ∧ isNameStart a = true := by
  obtain ⟨a, head, starts⟩ := leads.starts
  cases name with
  | nil => cases head
  | cons b tail =>
      cases head
      exact ⟨a, tail, rfl, starts⟩

/-- Tokens are read from left to right. -/
theorem lexFrom_start_le {fuel start : Nat} {state : LexState} {fresh : Bool} {done tokens : List Token}
    {cs : List Char} (read : lexFrom fuel state fresh start done cs = .ok tokens) {t : Token}
    (mem : t ∈ tokens) : t ∈ done ∨ start ≤ t.start := by
  -- whatever stands in front of the text, only its length is counted
  obtain ⟨more, rfl, laid⟩ := @lexFrom_laid cs (List.replicate start ' ' ++ cs) fuel start state fresh done tokens
    (by simp) (by simp) read
  obtain old | new := List.mem_append.mp mem
  · exact .inl (List.mem_reverse.mp old)
  · exact .inr (laid.le new)

theorem identifierRest?_le {fuel n : Nat} {name x rest : List Char} {r : List Char × Taken}
    (letters : ∀ a ∈ x, isName a = true ∧ isIdentifierPart a = true) (enough : x.length ≤ fuel)
    (found : identifierRest? fuel name n (x ++ rest) = some r) : n + x.length ≤ r.2.1 := by
  induction x generalizing fuel n name with
  | nil => exact (identifierRest?_advances found).le
  | cons a x ih =>
      obtain ⟨letter, part⟩ := letters a List.mem_cons_self
      have plain : (a == '\\') = false := by
        rw [beq_eq_false_iff_ne]
        rintro rfl
        revert letter
        decide
      cases fuel with
      | zero => cases enough
      | succ fuel =>
          rw [List.cons_append, identifierRest?, plain, part] at found
          have := ih (fun b mem => letters b (List.mem_cons_of_mem a mem)) (Nat.le_of_succ_le_succ enough) found
          rw [List.length_cons]
          omega

theorem wordKind_ne (word : String) : wordKind word ≠ .punctuator := by
  unfold wordKind
  split
  · exact TokenKind.noConfusion
  · split
    · exact TokenKind.noConfusion
    · split
      · exact TokenKind.noConfusion
      · exact TokenKind.noConfusion

theorem isNameStart_ascii {a : Char} (starts : isNameStart a = true) : a.toNat < 128 ∧
    isIdentifierStart a = true ∧ isBlank a = false ∧ isGap a = false ∧ isLineEnd a = false ∧
    a ≠ '\\' ∧ a ≠ '/' ∧ a ≠ '-' ∧ a ≠ '<' := by
  have ascii : a.toNat < 128 := by
    simp only [isNameStart, isAsciiLetter, Bool.or_eq_true, Bool.and_eq_true, decide_eq_true_eq,
      beq_iff_eq] at starts
    obtain ((⟨-, le⟩ | ⟨-, le⟩) | rfl) | rfl := starts
    · exact Nat.lt_of_le_of_lt (show a.toNat ≤ 'z'.toNat from le) (by decide)
    · exact Nat.lt_of_le_of_lt (show a.toNat ≤ 'Z'.toNat from le) (by decide)
    · decide
    · decide
  exact ⟨ascii, forall_ascii (P := fun a => isNameStart a = true → isIdentifierStart a = true ∧ isBlank a = false ∧
    isGap a = false ∧ isLineEnd a = false ∧ a ≠ '\\' ∧ a ≠ '/' ∧ a ≠ '-' ∧ a ≠ '<') (by decide +kernel) ascii starts⟩

/-- A name is no gap. -/
theorem skipGaps?_name {a : Char} (starts : isNameStart a = true) (fuel n : Nat) (fresh : Bool)
    (cs : List Char) : skipGaps? (fuel + 1) fresh n (a :: cs) = some (n, a :: cs) := by
  obtain ⟨-, -, -, gap, lineEnd, -, slash, minus, less⟩ := isNameStart_ascii starts
  unfold skipGaps?
  rw [if_neg (by simp [gap]), if_neg (by simp [lineEnd])]
  split
  · exact absurd rfl slash
  · exact absurd rfl slash
  · exact absurd rfl minus
  · exact absurd rfl less
  · rfl

/-- The word at the front of a text covers the name that the text starts with. -/
theorem readWord?_name {a : Char} {name rest rest' : List Char} {kind : TokenKind} {n : Nat}
    (starts : isNameStart a = true) (letters : ∀ b ∈ name, isName b = true ∧ isIdentifierPart b = true)
    (found : readWord? (a :: (name ++ rest)) = some (kind, n, rest')) :
    (a :: name).length ≤ n ∧ kind ≠ .punctuator := by
  obtain ⟨-, -, -, -, -, escape, -⟩ := isNameStart_ascii starts
  unfold readWord? at found
  split at found
  · rename_i same
    exact absurd (List.cons.inj same).1 escape
  · rename_i same
    cases same
    dsimp only at found
    split at found
    · cases found
    · rename_i spelled m after goesOn
      have long : 1 + name.length ≤ m := identifierRest?_le letters (by simp; omega) goesOn
      split at found
      · cases found
      · cases found
        refine ⟨?_, wordKind_ne _⟩
        rw [List.length_cons]
        omega
  · rename_i same
    cases same

/-- No punctuator stands within the name that a text starts with. -/
theorem tokenize_leads {name rest : List Char} {tokens : List Token} (leads : Leads name rest)
    (read : tokenize (String.ofList (name ++ rest)) = .ok tokens) {t : Token} (mem : t ∈ tokens)
    (kind : t.kind = .punctuator) : name.length ≤ t.start := by
  obtain ⟨a, name, rfl, starts⟩ := leads.cons
  obtain ⟨-, start, -, gap, lineEnd, escape, slash, minus, less⟩ := isNameStart_ascii starts
  unfold tokenize at read
  rw [String.toList_ofList, List.cons_append] at read
  dsimp only at read
  split at read
  · rename_i tokens' lexed
    cases read
    rw [lexFrom] at lexed
    have noRegex : ((a :: (name ++ rest)).head? == some '/') = false := by simpa using slash
    rw [skipGaps?_name starts] at lexed
    simp only [noRegex, Bool.false_eq_true, if_false] at lexed
    have word : readToken? [] (a :: (name ++ rest)) =
        (readWord? (a :: (name ++ rest))).map fun r => (r.1, r.2, []) := by
      rw [readToken?]
      simp only [start, if_true]
    rw [word] at lexed
    cases found : readWord? (a :: (name ++ rest)) with
    | none =>
        rw [found] at lexed
        cases lexed
    | some r =>
        obtain ⟨kind', n, rest'⟩ := r
        rw [found] at lexed
        obtain ⟨long, notPunctuator⟩ := readWord?_name starts
          (fun b mem => leads.letters b (List.mem_cons_of_mem a mem)) found
        obtain first | late := lexFrom_start_le lexed mem
        · rw [List.mem_singleton.mp first] at kind
          exact absurd kind notPunctuator
        · exact Nat.le_trans long (by omega)
  · cases read
    cases mem
  · cases read

/-- The target of an assignment ends where a punctuator starts. -/
theorem assignmentIn_target {cs : List Char} {depth : Int} {tokens : List Token} {a : Assignment}
    (found : assignmentIn cs depth tokens = some a) :
    ∃ t ∈ tokens, t.kind = .punctuator ∧ a.target = String.ofList (stripWith isBlank (cs.take t.start)) := by
  induction tokens generalizing depth with
  | nil => cases found
  | cons t ts ih =>
      have later {depth : Int} (found : assignmentIn cs depth ts = some a) :
          ∃ u ∈ t :: ts, u.kind = .punctuator ∧
            a.target = String.ofList (stripWith isBlank (cs.take u.start)) := by
        obtain ⟨u, mem, rest⟩ := ih found
        exact ⟨u, List.mem_cons_of_mem t mem, rest⟩
      unfold assignmentIn at found
      dsimp only at found
      split at found
      · exact later found
      · rename_i kind
        have kind : t.kind = .punctuator := by simpa using kind
        split at found
        · exact later found
        · split at found
          · exact later found
          · split at found
            · cases found
              exact ⟨t, List.mem_cons_self, kind, rfl⟩
            · split at found
              · cases found
                exact ⟨t, List.mem_cons_self, kind, rfl⟩
              · exact later found

end ReactMigration.Script

namespace ReactMigration.Model

open ReactMigration.Template
open ReactMigration.Text
open ReactMigration.Text.Pattern (isName isNameStart)
open ReactMigration.Script (Leads)

variable {α β : Type} {index : SymbolIndex}

/-! ### What a template changes -/

/-- The name that a statement is taken to change. -/
def statementChange? (statement : String) : Option String :=
  match Script.splitAssignment statement with
  | .ok (some a) => baseIdentifier? a.target
  | _ => none

/-- The names that an attribute is taken to change. -/
def attributeChanges : Attribute → List String
  | .twoWay _ expression _ => (baseIdentifier? expression).toList
  | .event _ handler _ _ => (Script.statements handler).filterMap statementChange?
  | _ => []

mutual

/-- The attributes of a node and of what it holds. -/
def attributesOf : Node → List Attribute
  | .element _ attributes children _ _ _ => attributes ++ attributesOfAll children
  | .container _ attributes children _ => attributes ++ attributesOfAll children
  | .structural _ _ _ child _ _ => attributesOf child
  | .interpolation .. => []
  | .text .. => []

/-- The attributes of nodes and of what they hold. -/
def attributesOfAll : List Node → List Attribute
  | [] => []
  | n :: ns => attributesOf n ++ attributesOfAll ns

end

/-- The work remembers exactly these names as changed, besides those remembered before. -/
def Marks (names : List String) (m : Linking α) : Prop :=
  ∀ s, Runs m s fun _ s' => ∀ name, name ∈ s'.mutated ↔ name ∈ s.mutated ∨ name ∈ names

namespace Marks

variable {names names' : List String} {m : Linking α}

theorem pure (a : α) : Marks [] (Pure.pure a : Linking α) :=
  fun _ => .pure fun _ => by simp

theorem bind {f : α → Linking β} (hm : Marks names m) (hf : ∀ a, Marks names' (f a)) :
    Marks (names ++ names') (m >>= f) := by
  intro s
  refine (hm s).bind fun a s₁ first => (hf a s₁).mono fun _ s₂ second name => ?_
  rw [second, first, List.mem_append, or_assoc]

theorem bind_pure {f : α → β} (hm : Marks names m) : Marks names (m >>= fun a => Pure.pure (f a)) := by
  simpa using hm.bind fun a => pure (f a)

theorem lifted {x : Noting α} (h : x.Ensures fun _ => True) : Marks [] (liftM x : Linking α) :=
  fun _ => .lifted (h.mono fun _ _ _ => by simp)

theorem modify {f : TemplateScope → TemplateScope} (kept : ∀ s, (f s).mutated = s.mutated) :
    Marks [] (modify f : Linking PUnit) :=
  fun s => .modify fun _ => by simp [kept s]

theorem mapM {f : α → Linking β} {changes : α → List String} :
    ∀ {l : List α}, (∀ a, Marks (changes a) (f a)) → Marks (l.flatMap changes) (l.mapM f)
  | [], _ => by
      simp only [List.mapM_nil]
      exact pure []
  | a :: l, h => by
      simp only [List.mapM_cons, List.flatMap_cons]
      exact (h a).bind fun b => (mapM h).bind_pure

theorem forM {f : α → Linking PUnit} :
    ∀ {l : List α}, (∀ a, Marks [] (f a)) → Marks [] (l.forM f)
  | [], _ => pure PUnit.unit
  | a :: _, h => (h a).bind fun _ => forM h

theorem forIn {f : α → PUnit → Linking (ForInStep PUnit)} {change : α → Option String}
    (h : ∀ a u s, Runs (f a u) s fun next s' => next = .yield ⟨⟩ ∧
      ∀ name, name ∈ s'.mutated ↔ name ∈ s.mutated ∨ name ∈ (change a).toList) :
    ∀ {l : List α}, Marks (l.filterMap change) (forIn l ⟨⟩ f)
  | [] => by
      simp only [List.forIn_nil]
      exact pure _
  | a :: l => by
      intro s
      simp only [List.forIn_cons]
      refine (h a ⟨⟩ s).bind fun next s₁ ⟨goesOn, first⟩ => ?_
      subst goesOn
      refine (forIn h (l := l) s₁).mono fun _ s₂ second name => ?_
      rw [second, first, or_assoc]
      cases found : change a <;> simp [found]

end Marks

theorem noteMutation_marks (expression : String) :
    Marks (baseIdentifier? expression).toList (noteMutation expression) := by
  unfold noteMutation
  split
  · rename_i base found
    intro s
    refine .modify fun name => ?_
    rw [found]
    split
    · rename_i known
      have known : base ∈ s.mutated := by simpa using known
      simp only [Option.toList_some, List.mem_singleton]
      exact ⟨.inl, fun h => h.elim id fun same => same ▸ known⟩
    · simp
  · rename_i none
    rw [none]
    exact .pure _

theorem linkAttribute_marks (a : Attribute) : Marks (attributeChanges a) (linkAttribute index a) := by
  unfold linkAttribute
  cases a with
  | twoWay name expression p => exact (noteMutation_marks expression).bind_pure
  | static name value p =>
      dsimp only
      split <;> exact .pure _
  | property name expression value p twoWay =>
      dsimp only
      split
      · exact .pure _
      · exact (Marks.lifted (checkPipes_ensures value p)).bind fun _ => .pure _
  | event name handler p twoWay =>
      refine Marks.bind_pure (.forIn fun statement _ s => ?_)
      refine .lifted_bind (.lift fun _ given => given) fun found given => ?_
      unfold statementChange?
      rw [given]
      split
      · exact (noteMutation_marks _ s).bind fun _ _ marks => .pure ⟨rfl, marks⟩
      · exact .pure ⟨rfl, by simp⟩
  | directive name expression value p bound resolved =>
      dsimp only
      split
      · exact (Marks.lifted (checkPipes_ensures _ p)).bind fun _ => .pure _
      · exact (Marks.pure _).bind fun _ => .pure _
  | reference name value p => exact .pure _

theorem linkAttributes_marks (attributes : List Attribute) :
    Marks (attributes.flatMap attributeChanges) (linkAttributes index attributes) :=
  (Marks.mapM fun a => linkAttribute_marks a).bind_pure

theorem registerRefs_marks (node : Node) (attributes : List Attribute) (kind : ReferenceKind) :
    Marks [] (registerRefs node attributes kind) := by
  refine .forM fun a => ?_
  cases a with
  | reference name value p =>
      intro s
      refine .get_bind ?_
      dsimp only
      split
      · exact .lifted_bind (.warnAt _ _ _ _) fun _ _ => .modify fun _ => by simp
      · exact .modify fun _ => by simp
  | _ => exact .pure _

theorem componentFor_notes (tag : String) (p : Position) :
    (componentFor index tag p).Ensures fun _ => True := by
  have remark (found : Option String) (c : Prop) [Decidable c] (message : String) :
      (if c then do unresolvedAt message p; return found else return found : Noting _).Ensures
        fun _ => True := by
    split
    · exact (Noting.Ensures.warnAt _ _ _ _).bind fun _ _ => .pure trivial
    · exact .pure trivial
  exact remark _ _ _

mutual

theorem linkNode_marks : ∀ n, Marks ((attributesOf n).flatMap attributeChanges) (linkNode index n)
  | .element tag attributes children p selfClosing _ => by
      unfold linkNode
      rw [attributesOf, List.flatMap_append]
      refine (Marks.lifted (componentFor_notes tag p)).bind fun component => ?_
      refine (linkAttributes_marks attributes).bind fun attributes => ?_
      rw [← List.append_nil (List.flatMap _ _)]
      refine (linkNodes_marks children).bind fun children => ?_
      exact (registerRefs_marks _ _ _).bind_pure
  | .container kind attributes children p => by
      unfold linkNode
      rw [attributesOf, List.flatMap_append]
      have inner : Marks (attributes.flatMap attributeChanges ++
          (attributesOfAll children).flatMap attributeChanges) (do
          let attributes ← linkAttributes index attributes
          let children ← linkNodes index children
          let node := Node.container kind attributes children p
          registerRefs node attributes (if kind == "ng-template" then .template else .element)
          return node) := by
        refine (linkAttributes_marks attributes).bind fun attributes => ?_
        rw [← List.append_nil (List.flatMap _ _)]
        refine (linkNodes_marks children).bind fun children => ?_
        exact (registerRefs_marks _ _ _).bind_pure
      dsimp only
      split
      · have counted : Marks [] (modify fun s : TemplateScope => { s with projectsContent := true } : Linking PUnit) :=
          .modify fun _ => rfl
        exact counted.bind fun _ => inner
      · exact inner
  | .structural name expression clauses child p _ => by
      unfold linkNode
      rw [attributesOf]
      have inner (directive : Option String) : Marks ((attributesOf child).flatMap attributeChanges) (do
          checkPipes index (parseBoundValue clauses.expression (some p)) p
          return .structural name expression clauses (← linkNode index child) p directive : Linking Node) :=
        (Marks.lifted (checkPipes_ensures _ p)).bind fun _ => (linkNode_marks child).bind_pure
      dsimp only
      split <;> split
      · exact (Marks.lifted (.warnAt _ _ _ _)).bind fun _ => inner _
      · exact inner _
      · exact (Marks.lifted (.warnAt _ _ _ _)).bind fun _ => inner _
      · exact inner _
  | .interpolation expression value p => by
      unfold linkNode
      exact (Marks.lifted (checkPipes_ensures value p)).bind_pure
  | .text t p => by
      unfold linkNode
      exact .pure _

/-- Linking remembers exactly the names that the template is taken to change. -/
theorem linkNodes_marks : ∀ ns, Marks ((attributesOfAll ns).flatMap attributeChanges) (linkNodes index ns)
  | [] => by
      unfold linkNodes
      exact .pure _
  | n :: ns => by
      unfold linkNodes
      rw [attributesOfAll, List.flatMap_append]
      exact (linkNode_marks n).bind fun _ => (linkNodes_marks ns).bind_pure

end

/-! ### Statements that start with a field -/

/-- The name that a text starts with. -/
theorem baseIdentifier?_leads {name rest : List Char} (leads : Leads name rest) :
    baseIdentifier? (String.ofList (name ++ rest)) = some (String.ofList name) := by
  obtain ⟨a, name, rfl, starts⟩ := leads.cons
  obtain ⟨-, -, blank, -⟩ := Script.isNameStart_ascii starts
  have letters : name.all isName = true :=
    List.all_eq_true.mpr fun b mem => (leads.letters b (List.mem_cons_of_mem a mem)).1
  have whole : (name ++ rest).takeWhile isName = name := takeWhile_append_of_notNext letters leads.ends
  let c : Cursor := ⟨[a], name ++ rest, 1⟩
  have spans : c.Spans (c.after.takeWhile isName) (c.advance name.length) := by
    have := Cursor.spans_while isName c
    rwa [show (c.after.takeWhile isName).length = name.length by rw [whole]] at this
  have offset : (c.advance name.length).offset = 1 + name.length := by
    rw [spans.offset, whole]
  have ran := Pattern.runMany_longest spans (Nat.zero_le _) (g := [])
    (k := fun d g => some (d, (1, (a :: (name ++ rest)).take (d.offset - 0)) :: g)) rfl
  have taken : (a :: (name ++ rest)).take (1 + name.length - 0) = a :: name := by
    rw [Nat.sub_zero, Nat.add_comm, List.take_succ_cons, List.take_left]
  rw [offset, taken] at ran
  unfold baseIdentifier? Pattern.lead? Pattern.matchAt? Pattern.matchThen?
  have skipped : (Pattern.blanks ++ .group 1 .identifier).run (.start (a :: (name ++ rest))) []
      (fun c g => if (fun _ => true) c then some (c, g) else none) =
      some (c.advance name.length, [(1, a :: name)]) := by
    rw [show (Pattern.blanks ++ Pattern.group 1 .identifier) =
      .seq (.many isBlank 0 true) (.group 1 (.seq (.one isNameStart) (.many isName 0 true))) from rfl]
    simp only [Pattern.run, Cursor.start, Pattern.runMany, blank, Bool.false_eq_true, if_false, if_true,
      starts]
    exact ran
  rw [String.toList_ofList, List.cons_append, skipped]
  rfl

/-- Trimming keeps the name that a text starts with. -/
theorem stripWith_leads {name rest : List Char} (leads : Leads name rest) (more : List Char) :
    stripWith isBlank (name ++ more) = name ++ dropTrailing isBlank more := by
  obtain ⟨a, tail, rfl, starts⟩ := leads.cons
  obtain ⟨front, last, same⟩ : ∃ front last, a :: tail = front ++ [last] :=
    ⟨_, _, (List.dropLast_append_getLast (List.cons_ne_nil a tail)).symm⟩
  have notBlank : isBlank last = false :=
    Pattern.not_isBlank_of_isName (leads.letters last (by rw [same]; simp)).1
  have first : (a :: tail ++ more).dropWhile isBlank = a :: tail ++ more := by
    simp [(Script.isNameStart_ascii starts).2.2.1]
  have final : (a :: tail).reverse.dropWhile isBlank = (a :: tail).reverse := by
    rw [same]
    simp [notBlank]
  rw [stripWith, first, dropTrailing, dropTrailing, List.reverse_append, List.dropWhile_append, final]
  split
  · rename_i all
    rw [List.isEmpty_iff.mp all]
    simp
  · simp

theorem isPrefix_dropTrailing (p : Char → Bool) (cs : List Char) : dropTrailing p cs <+: cs := by
  rw [dropTrailing]
  simpa using List.reverse_prefix.mpr (List.dropWhile_suffix p (l := cs.reverse))

/-- A statement that starts with a name and assigns outside brackets is taken to change what is named. -/
theorem statementChange?_leads {name rest : List Char} {a : Script.Assignment} (leads : Leads name rest)
    (assigns : Script.splitAssignment (String.ofList (name ++ rest)) = .ok (some a)) :
    statementChange? (String.ofList (name ++ rest)) = some (String.ofList name) := by
  unfold statementChange?
  rw [assigns]
  unfold Script.splitAssignment at assigns
  obtain ⟨tokens, read, found⟩ := ok_of_bind assigns
  obtain ⟨t, mem, kind, target⟩ := Script.assignmentIn_target (Except.ok.inj found)
  have long := Script.tokenize_leads leads read mem kind
  have split : (name ++ rest).take t.start = name ++ rest.take (t.start - name.length) := by
    rw [List.take_append, List.take_of_length_le long]
  rw [String.toList_ofList, split, stripWith_leads leads] at target
  dsimp only
  rw [target, baseIdentifier?_leads ⟨leads.starts, leads.letters, ?_⟩]
  obtain ⟨y, rest'⟩ := (isPrefix_dropTrailing isBlank _).trans (List.take_prefix (t.start - name.length) rest)
  intro b mem
  refine leads.ends b ?_
  rw [← rest']
  cases shown : dropTrailing isBlank (rest.take (t.start - name.length)) with
  | nil =>
      rw [shown] at mem
      cases mem
  | cons b' _ =>
      rw [shown] at mem
      exact mem

/-! ### Components -/

open ReactMigration.Recast (Replaced writeForm?)

/-- A field of each instance that no query fills, that holds no subject and no subscription. -/
structure Plain (d : DeclBase) (f : FieldDecl) : Prop where
  ofInstance : f.static = false
  unqueried : (viewQuery? f).isSome = false
  noSubject : subjectPattern.lead? ((f.initializer.orElse fun _ => (constructorParts d).1.get? f.name).getD "") =
    none
  unsubscribed : holdsSubscription d f = false

/-- A plain field is state if the template or a method changes it, and a constant otherwise. -/
theorem fieldRole_plain {d : DeclBase} {f : FieldDecl} (plain : Plain d f) (mutated : List String) :
    (∃ cell, fieldRole d (constructorParts d).1 mutated f = .state cell ∧ cell.name = f.name) ∧
        (f.name ∈ mutated ∨ mutatedInMethods d f.name = true) ∨
      (∃ cell, fieldRole d (constructorParts d).1 mutated f = .constant cell ∧ cell.name = f.name) ∧
        f.name ∉ mutated ∧ mutatedInMethods d f.name = false := by
  unfold fieldRole
  dsimp only
  rw [plain.ofInstance, plain.unqueried, plain.noSubject, plain.unsubscribed]
  simp only [Bool.false_eq_true, if_false]
  split
  · rename_i changed
    exact .inl ⟨⟨_, rfl, rfl⟩, .inl (by simpa using changed)⟩
  · rename_i unchanged
    split
    · rename_i changed
      exact .inl ⟨⟨_, rfl, rfl⟩, .inr changed⟩
    · rename_i unchanged'
      exact .inr ⟨⟨_, rfl, rfl⟩, by simpa using unchanged, by simpa using unchanged'⟩

theorem resolveDependencies_notes (index : SymbolIndex) (d : DeclBase) :
    (resolveDependencies index d).Ensures fun _ => True := by
  refine (Noting.Ensures.mapM_all (R := fun _ => True) fun dep _ => ?_).mono fun _ _ => trivial
  unfold resolveDependency
  extract_lets base typeName injected
  have missing : (resolveDependency.missing d.name dep injected).Ensures fun _ => True :=
    (Noting.Ensures.warn _ _).bind fun _ _ => .pure trivial
  split
  · split
    · exact (Noting.Ensures.warn _ _).bind fun _ _ => .pure trivial
    · exact .pure trivial
  · split
    · split
      · exact .pure trivial
      · exact missing
    · exact missing

/-- The names that the template of a component is taken to change. -/
def templateChanges (d : ComponentDecl) : List String :=
  match d.templateError with
  | some _ => []
  | none => (attributesOfAll d.templateNodes).flatMap attributeChanges

/-- The fields of a component are sorted by what its template and its methods change. -/
theorem buildComponent_sorts (d : ComponentDecl) :
    (buildComponent index d).Ensures fun u => ∀ m, u = .component m → ∃ mutated,
      (∀ name, name ∈ mutated ↔ name ∈ templateChanges d) ∧
        m.state = (fieldRoles d.toDeclBase mutated).filterMap FieldRole.state? ∧
        m.constants = (fieldRoles d.toDeclBase mutated).filterMap FieldRole.constant? := by
  unfold buildComponent
  refine (Noting.Ensures.forM fun path _ => .warn _ _).bind fun _ _ => ?_
  split
  · exact (Noting.Ensures.warn _ _).bind fun _ _ => .pure fun _ isStub => by cases isStub
  · extract_lets start rest
    have built (nodes : List Node) (scope : TemplateScope)
        (marked : ∀ name, name ∈ scope.mutated ↔ name ∈ templateChanges d) :
        (rest (nodes, scope)).Ensures fun u => ∀ m, u = .component m → ∃ mutated,
          (∀ name, name ∈ mutated ↔ name ∈ templateChanges d) ∧
            m.state = (fieldRoles d.toDeclBase mutated).filterMap FieldRole.state? ∧
            m.constants = (fieldRoles d.toDeclBase mutated).filterMap FieldRole.constant? := by
      refine (resolveDependencies_notes index d.toDeclBase).bind fun deps _ => ?_
      refine (collectMethods_ensures _ _ _).bind fun base collected => ?_
      refine (lifecycleEffects_ensures _ _).bind fun effects _ => .pure fun m same => ?_
      cases same
      obtain ⟨ms, gs, rfl, -⟩ := collected
      exact ⟨scope.mutated, marked, rfl, rfl⟩
    split
    · rename_i f failed
      refine Noting.Ensures.bind (.modify ?_) fun _ _ => ?_
      · exact fun s => s.continues_record _
      · exact built [] {} (by simp [templateChanges, failed])
    · rename_i parsed
      refine Noting.Ensures.bind (linkNodes_marks d.templateNodes {}) fun r marks => ?_
      refine built r.1 r.2 fun name => ?_
      rw [marks, templateChanges, parsed]
      simp

/-- A plain field of a component becomes state, unless every write of it that would become a setter call
is overlooked: in a method by its form, and in a handler because no statement that starts with the field
assigns outside brackets. -/
theorem field_state_unless_overlooked {d : ComponentDecl} {m : ComponentModel} {s s' : Sink}
    (built : (buildComponent index d).run.run s = (.ok (.component m), s')) {f : FieldDecl}
    (mem : f ∈ d.fields) (plain : Plain d.toDeclBase f) :
    (∃ cell ∈ m.state, cell.name = f.name) ∨
      (∃ cell ∈ m.constants, cell.name = f.name) ∧ f.name ∉ templateChanges d ∧
        (∀ method ∈ d.methods, method.name ≠ "constructor" →
          ∀ setter w, Replaced setter f.name method.body w →
            ∃ form, writeForm? w = some form ∧ form.noticed f.name = false) ∧
        (d.templateError = none → ∀ name handler p twoWay,
          .event name handler p twoWay ∈ attributesOfAll d.templateNodes →
          ∀ rest, Leads f.name.toList rest →
            String.ofList (f.name.toList ++ rest) ∈ Script.statements handler →
            ∀ a, Script.splitAssignment (String.ofList (f.name.toList ++ rest)) ≠ .ok (some a)) := by
  obtain ⟨mutated, marked, state, constants⟩ :=
    (@buildComponent_sorts index d s).2 (.component m) (by rw [built]) m rfl
  have role : fieldRole d.toDeclBase (constructorParts d.toDeclBase).1 mutated f ∈
      fieldRoles d.toDeclBase mutated := List.mem_map_of_mem mem
  obtain ⟨⟨cell, same, named⟩, -⟩ | ⟨⟨cell, same, named⟩, unchanged, still⟩ := fieldRole_plain plain mutated
  · refine .inl ⟨cell, ?_, named⟩
    rw [state]
    exact List.mem_filterMap.mpr ⟨_, role, by rw [same]; rfl⟩
  · rw [marked] at unchanged
    refine .inr ⟨⟨cell, ?_, named⟩, unchanged, ?_, ?_⟩
    · rw [constants]
      exact List.mem_filterMap.mpr ⟨_, role, by rw [same]; rfl⟩
    · intro method listed other setter w replaced
      obtain ⟨form, written⟩ := replaced.form
      refine ⟨form, written, Bool.eq_false_iff.mpr fun noticed => ?_⟩
      have found := replaced.occurs written noticed
      have all := List.any_eq_false.mp still method (List.mem_filter.mpr ⟨listed, by simpa using other⟩)
      exact all found
    · intro parsed name handler p twoWay listed rest leads statement a assigns
      refine unchanged ?_
      rw [templateChanges, parsed]
      refine List.mem_flatMap.mpr ⟨_, listed, List.mem_filterMap.mpr ⟨_, statement, ?_⟩⟩
      rw [statementChange?_leads leads assigns, String.ofList_toList]

/-- A class that writes its fields in each of the forms that are overlooked. -/
def overlookedUnit : ComponentDecl :=
  { name := "A", sourcePath := "a.ts"
    fields := [{ name := "xs" }, { name := "user" }, { name := "n$" }]
    methods := [{ name := "go", body := "this.xs.fill(0); this.user.age += 1; ++this.n$;" }]
    templateNodes := [.element "b" [.event "click" "xs.push(1)" default false] [] default false none] }

/-- Every write of the class becomes a setter call, but no field becomes state. -/
theorem fields_overlooked :
    ((Recast.recastState [("xs", "setXs"), ("user", "setUser"), ("n$", "setN$")] []
        "this.xs.fill(0); this.user.age += 1; ++this.n$;").run {}).1 =
      "setXs((prev) => \x7b const next = [...prev]; next.fill(0); return next; \x7d); " ++
        "setUser(\x7b ...user, age: user.age + 1 \x7d); setN$(n$ + 1);" ∧
    ((Recast.recastState [("xs", "setXs")] [] "this.xs.push(1)").run {}).1 = "setXs([...xs, 1])" ∧
    (match (buildComponent {} overlookedUnit).run.run { unit := "a.ts" } with
      | (.ok (.component m), _) => some (m.state.map (·.name), m.constants.map (·.name))
      | _ => none) = some ([], ["xs", "user", "n$"]) := by
  decide +kernel

/-- A class that writes a field in a method and another in a handler. -/
def countedUnit : ComponentDecl :=
  { name := "A", sourcePath := "a.ts"
    fields := [{ name := "n" }, { name := "open" }]
    methods := [{ name := "go", body := "this.n += 1;" }]
    templateNodes := [.element "b" [.event "click" "open = !open" default false] [] default false none] }

theorem field_state_counted : ∃ m s', (buildComponent {} countedUnit).run.run { unit := "a.ts" } =
      (.ok (.component m), s') ∧ ∀ f ∈ countedUnit.fields, (∃ cell ∈ m.state, cell.name = f.name) := by
  have builds : (match (buildComponent {} countedUnit).run.run { unit := "a.ts" } with
      | (.ok (.component m), _) => m.constants.map (·.name) == []
      | _ => false) = true := by decide +kernel
  split at builds
  · rename_i m s' built
    refine ⟨m, s', built, fun f mem => ?_⟩
    have plain : Plain countedUnit.toDeclBase f := by
      simp only [countedUnit, List.mem_cons, List.not_mem_nil, or_false] at mem
      obtain rfl | rfl := mem
      · exact ⟨rfl, by decide, by decide +kernel, by decide +kernel⟩
      · exact ⟨rfl, by decide, by decide +kernel, by decide +kernel⟩
    obtain state | ⟨⟨cell, listed, -⟩, -⟩ := field_state_unless_overlooked built mem plain
    · exact state
    · have none : m.constants = [] := by simpa using builds
      rw [none] at listed
      cases listed
  · cases builds

end ReactMigration.Model
