import ReactMigration.Proofs.Items
import ReactMigration.Proofs.ParsedFiles

/-!
Initializers in the order in which a function runs them.

A class initializes its fields one after the other.  The function that it becomes declares them by
role, all state before all refs and all refs before all constants, so that a field which reads an
earlier one may come to stand before it.
-/

namespace ReactMigration

open ReactMigration.Text

variable {index : SymbolIndex} {order : NameOrder} {ds : List Declaration}

/-! ### Mentions -/

/-- A whole name that is not a member of something. -/
def mention (name : String) : Pattern :=
  (.notAfter Pattern.isPath <|> .text "...") ++ .text name ++ .ahead false (.one Pattern.isName)

/-- The code reads a variable of the name. -/
def ReadsName (code name : String) : Prop :=
  name ≠ "" ∧ name ∉ notNames ∧ (mention name).occurs code = true

instance (code name : String) : Decidable (ReadsName code name) :=
  inferInstanceAs (Decidable (_ ∧ _ ∧ _))

theorem Text.Pattern.chars_run {cs : List Char} {k : Pattern.Continuation}
    {r : Cursor × Pattern.Captures} :
    ∀ {c : Cursor} {g : Pattern.Captures}, (Pattern.chars cs).run c g k = some r →
      ∃ c' : Cursor, c.after = cs ++ c'.after ∧ k c' g = some r := by
  have one {x : Char} {k : Pattern.Continuation} {c : Cursor} {g : Pattern.Captures}
      (h : (Pattern.one (· == x)).run c g k = some r) :
      ∃ c' : Cursor, c.after = x :: c'.after ∧ k c' g = some r := by
    rw [Pattern.run] at h
    split at h
    · cases h
    · rename_i a rest after
      split at h
      · rename_i same
        refine ⟨c.next, ?_, h⟩
        simp [Cursor.next, after, eq_of_beq same]
      · cases h
  induction cs using Pattern.chars.induct with
  | case1 => exact fun {c g} h => ⟨c, rfl, h⟩
  | case2 x => exact fun {c g} h => one h
  | case3 x cs more ih =>
      intro c g h
      rw [Pattern.chars, Pattern.run] at h
      · obtain ⟨c₁, first, h⟩ := one h
        obtain ⟨c₂, rest, h⟩ := ih h
        exact ⟨c₂, by rw [first, rest, List.cons_append], h⟩
      · exact more

/-- Among name characters a mention takes everything up to the end, and has nothing before it. -/
theorem mention_matchAt {name : String} {c : Cursor} {m : Match}
    (letters : ∀ x ∈ c.after, Pattern.isName x = true) (h : (mention name).matchAt? c = some m) :
    (∀ b ∈ c.before.head?, Pattern.isPath b = false) ∧ c.after = name.toList := by
  unfold Pattern.matchAt? Pattern.matchThen? at h
  split at h
  · rename_i c' g run
    have named {c₁ : Cursor} {k : Pattern.Continuation} {r : Cursor × Pattern.Captures}
        (h : (Pattern.text name).run c₁ [] (fun c g =>
          (Pattern.ahead false (.one Pattern.isName)).run c g k) = some r)
        (letters : ∀ x ∈ c₁.after, Pattern.isName x = true) : c₁.after = name.toList := by
      obtain ⟨c₂, after, h⟩ := Text.Pattern.chars_run h
      simp only [Pattern.run] at h
      cases rest : c₂.after with
      | nil => rw [after, rest, List.append_nil]
      | cons x xs =>
          have letter := letters x (by simp [after, rest])
          simp [rest, letter] at h
    change ((Pattern.alt (.notAfter Pattern.isPath) (.text "...")).run c [] fun c g =>
      (Pattern.text name).run c g fun c g =>
        (Pattern.ahead false (.one Pattern.isName)).run c g _) = some (c', g) at run
    rw [Pattern.run] at run
    split at run
    · rename_i r free
      simp only [Pattern.run] at free
      split at free
      · rename_i b bs before
        split at free
        · cases free
        · rename_i apart
          exact ⟨by simpa [before] using apart, named free letters⟩
      · rename_i before
        exact ⟨by simp [before], named free letters⟩
    · obtain ⟨c₁, after, _⟩ := Text.Pattern.chars_run run
      have dot := letters '.' (by simp [after])
      cases dot
  · cases h

/-- A word mentions nothing but itself. -/
theorem mention_word {word name : String} (letters : word.toList.all Pattern.isName = true)
    (h : (mention name).occurs word = true) : name = word := by
  have inside (n : Nat) : ∀ c : Cursor, (∃ b ∈ c.before.head?, Pattern.isName b = true) →
      (∀ x ∈ c.after, Pattern.isName x = true) → (mention name).searchWithin n c = none := by
    have here (c : Cursor) (before : ∃ b ∈ c.before.head?, Pattern.isName b = true)
        (after : ∀ x ∈ c.after, Pattern.isName x = true) : (mention name).matchAt? c = none := by
      cases found : (mention name).matchAt? c with
      | none => rfl
      | some m =>
          obtain ⟨b, hb, letter⟩ := before
          have apart := (mention_matchAt after found).1 b hb
          rw [Pattern.isPath, letter] at apart
          cases apart
    induction n with
    | zero => exact here
    | succ n ih =>
        intro c before after
        rw [Pattern.searchWithin, here c before after]
        apply ih
        · cases rest : c.after with
          | nil => simpa [Cursor.next, rest] using before
          | cons x xs => exact ⟨x, by simp [Cursor.next, rest], after x (by simp [rest])⟩
        · cases rest : c.after with
          | nil => simp [Cursor.next, rest]
          | cons x xs =>
              intro y hy
              exact after y (by simp_all [Cursor.next])
  have all := List.all_eq_true.mp letters
  have start {m : Match} (found : (mention name).matchAt? (.start word.toList) = some m) :
      name = word :=
    (String.toList_inj.mp (mention_matchAt all found).2).symm
  obtain ⟨m, found⟩ := Option.isSome_iff_exists.mp h
  unfold Pattern.find? Pattern.searchAt? at found
  cases chars : word.toList with
  | nil =>
      rw [chars] at found start
      exact start found
  | cons x xs =>
      rw [chars] at found start all
      change (mention name).searchWithin (xs.length + 1) (.start (x :: xs)) = some m at found
      rw [Pattern.searchWithin] at found
      split at found
      · rename_i here
        exact start here
      · rw [inside _ _ ⟨x, rfl, all x List.mem_cons_self⟩
          fun y hy => all y (List.mem_cons_of_mem x hy)] at found
        cases found

/-- The words for values that are there from the start read no variable. -/
theorem not_readsName_of_mem {word name : String} (h : word ∈ notNames) : ¬ ReadsName word name := by
  rintro ⟨_, other, mentioned⟩
  have letters : ∀ word ∈ notNames, word.toList.all Pattern.isName = true := by
    decide +kernel
  exact other (mention_word (letters word h) mentioned ▸ h)

/-! ### Lines -/

/-- A line of a function body that declares variables: the group it stands in, and what it is
initialized with when the function runs. -/
structure Line where
  group : Nat
  names : List String
  initial : Option String := none

/-- The initializer of one line reads a variable of another. -/
def Line.Reads (a b : Line) : Prop :=
  ∃ code ∈ a.initial, ∃ name ∈ b.names, ReadsName code name

/-- No initializer reads a variable of its own line or of a later one. -/
def SafeOrder (lines : List Line) : Prop :=
  lines.Pairwise (fun a b => ¬ a.Reads b) ∧ ∀ a ∈ lines, ¬ a.Reads a

def StateDecl.line (s : StateDecl) : Line :=
  { group := 0, names := [s.name, s.setter], initial := s.initial }

def RefDecl.line (r : RefDecl) : Line :=
  { group := 1, names := [r.name], initial := r.initial }

def ConstDecl.line (c : ConstDecl) : Line :=
  { group := 2, names := [c.name], initial := some c.value }

/-- The lines after the functions, which are computed from everything before them. -/
def FunctionBody.computedLines (b : FunctionBody) : List Line :=
  b.derived.map (fun c => { group := 3, names := [c.name] }) ++
    b.memos.map (fun m => { group := 4, names := [m.name] })

/-- The lines of a function body, group by group.  Hook calls stand before them, and functions are
there from the start. -/
def FunctionBody.lines (b : FunctionBody) : List Line :=
  b.state.map (·.line) ++ b.refs.map (·.line) ++ b.constants.map (·.line) ++ b.computedLines

/-- The line that a field becomes. -/
def Model.FieldRole.line (ctx : RecastContext) : Model.FieldRole → Line
  | .state c => (c.decl ctx).line
  | .ref c => (c.decl ctx).line
  | .constant c => (c.decl ctx).line

/-- What stands among the fields of a class: further state after its own, and refs before and after
its own. -/
structure Surroundings where
  state : List StateDecl := []
  early : List RefDecl := []
  late : List RefDecl := []

def Surroundings.lines (s : Surroundings) : List Line :=
  s.state.map (·.line) ++ (s.early ++ s.late).map (·.line)

/-- The fields are laid out by role, among lines whose initializers are plain words. -/
structure Lays (roles : List Model.FieldRole) (ctx : RecastContext) (s : Surroundings)
    (b : FunctionBody) : Prop where
  state : b.state = (roles.filterMap Model.FieldRole.state?).map (·.decl ctx) ++ s.state
  refs : b.refs = s.early ++ (roles.filterMap Model.FieldRole.ref?).map (·.decl ctx) ++ s.late
  constants : b.constants = (roles.filterMap Model.FieldRole.constant?).map (·.decl ctx)
  plain : ∀ l ∈ s.lines, ∃ word ∈ notNames, l.initial = some word

/-- The initializers of fields, in the order of the class, read only what is declared before them. -/
structure InOrder (fields : List Line) (s : Surroundings) (b : FunctionBody) : Prop where
  own : ∀ f ∈ fields, ¬ f.Reads f
  order : fields.Pairwise fun f g =>
    (f.Reads g → g.group < f.group) ∧ (g.Reads f → f.group ≤ g.group)
  state : ∀ f ∈ fields, f.group = 0 → ∀ l ∈ s.lines, ¬ f.Reads l
  refs : ∀ f ∈ fields, f.group = 1 → ∀ l ∈ s.late.map (·.line), ¬ f.Reads l
  computed : ∀ f ∈ fields, ∀ l ∈ b.computedLines, ¬ f.Reads l

theorem roles_lines (ctx : RecastContext) (roles : List Model.FieldRole) :
    ((roles.filterMap Model.FieldRole.state?).map (·.decl ctx)).map (·.line) =
        (roles.map (·.line ctx)).filter (·.group == 0) ∧
      ((roles.filterMap Model.FieldRole.ref?).map (·.decl ctx)).map (·.line) =
        (roles.map (·.line ctx)).filter (·.group == 1) ∧
      ((roles.filterMap Model.FieldRole.constant?).map (·.decl ctx)).map (·.line) =
        (roles.map (·.line ctx)).filter (·.group == 2) := by
  induction roles with
  | nil => exact ⟨rfl, rfl, rfl⟩
  | cons role roles ih =>
      obtain ⟨state, refs, constants⟩ := ih
      cases role with
      | state c =>
          refine ⟨?_, refs, constants⟩
          exact congrArg ((c.decl ctx).line :: ·) state
      | ref c =>
          refine ⟨state, ?_, constants⟩
          exact congrArg ((c.decl ctx).line :: ·) refs
      | constant c =>
          refine ⟨state, refs, ?_⟩
          exact congrArg ((c.decl ctx).line :: ·) constants

/-! ### Regrouping -/

/-- The lines of fields by role, each role in the order of the class. -/
def byRole (fields : List Line) : List Line :=
  fields.filter (·.group == 0) ++ fields.filter (·.group == 1) ++ fields.filter (·.group == 2)

theorem pairwise_append_cons {α : Type} {R : α → α → Prop} {as bs : List α} {x : α} :
    (as ++ x :: bs).Pairwise R ↔
      (as ++ bs).Pairwise R ∧ (∀ a ∈ as, R a x) ∧ ∀ b ∈ bs, R x b := by
  simp only [List.pairwise_append, List.pairwise_cons, List.mem_cons, forall_eq_or_imp, forall_and]
  tauto

/-- Of two fields the one that is written first must not read the other.  That is the first of the
class unless its role comes later. -/
theorem pairwise_byRole {fields : List Line} (roles : ∀ f ∈ fields, f.group ≤ 2) :
    (byRole fields).Pairwise (fun a b => ¬ a.Reads b) ↔ fields.Pairwise fun f g =>
      (f.Reads g → g.group < f.group) ∧ (g.Reads f → f.group ≤ g.group) := by
  induction fields with
  | nil => simp [byRole]
  | cons f fields ih =>
      have rest := ih fun g hg => roles g (List.mem_cons_of_mem f hg)
      -- the field comes to stand after the roles before its own and before everything else
      have placed {before after : List Line}
          (written : byRole (f :: fields) = before ++ f :: after)
          (others : byRole fields = before ++ after)
          (first : ∀ g, g ∈ before ↔ g ∈ fields ∧ g.group < f.group)
          (second : ∀ g, g ∈ after ↔ g ∈ fields ∧ f.group ≤ g.group) :
          (byRole (f :: fields)).Pairwise (fun a b => ¬ a.Reads b) ↔
            (f :: fields).Pairwise fun f g =>
              (f.Reads g → g.group < f.group) ∧ (g.Reads f → f.group ≤ g.group) := by
        rw [written, pairwise_append_cons, ← others, rest, List.pairwise_cons, and_comm]
        refine and_congr_left fun _ => ⟨fun h g hg => ⟨fun reads => ?_, fun reads => ?_⟩, fun h => ⟨?_, ?_⟩⟩
        · by_contra later
          exact h.2 g ((second g).mpr ⟨hg, by omega⟩) reads
        · by_contra earlier
          exact h.1 g ((first g).mpr ⟨hg, by omega⟩) reads
        · intro g hg reads
          have := (h g ((first g).mp hg).1).2 reads
          have := ((first g).mp hg).2
          omega
        · intro g hg reads
          have := (h g ((second g).mp hg).1).1 reads
          have := ((second g).mp hg).2
          omega
      have known (g : Line) (hg : g ∈ fields) : g.group ≤ 2 := roles g (List.mem_cons_of_mem f hg)
      have role := roles f List.mem_cons_self
      obtain role | role | role : f.group = 0 ∨ f.group = 1 ∨ f.group = 2 := by omega
      · refine @placed [] (byRole fields) ?_ rfl ?_ ?_
        · simp [byRole, role]
        · simp [role]
        · intro g
          simp only [byRole, List.mem_append, List.mem_filter, beq_iff_eq, role]
          have := known g
          grind
      · refine @placed (fields.filter (·.group == 0))
          (fields.filter (·.group == 1) ++ fields.filter (·.group == 2)) ?_ ?_ ?_ ?_
        · simp [byRole, role]
        · simp [byRole]
        · intro g
          simp only [List.mem_filter, beq_iff_eq, role]
          grind
        · intro g
          simp only [List.mem_append, List.mem_filter, beq_iff_eq, role]
          have := known g
          grind
      · refine @placed (fields.filter (·.group == 0) ++ fields.filter (·.group == 1))
          (fields.filter (·.group == 2)) ?_ ?_ ?_ ?_
        · simp [byRole, role]
        · simp [byRole]
        · intro g
          simp only [List.mem_append, List.mem_filter, beq_iff_eq, role]
          grind
        · intro g
          simp only [List.mem_filter, beq_iff_eq, role]
          have := known g
          grind

theorem mem_byRole {fields : List Line} (roles : ∀ f ∈ fields, f.group ≤ 2) {f : Line} :
    f ∈ byRole fields ↔ f ∈ fields := by
  simp only [byRole, List.mem_append, List.mem_filter, beq_iff_eq]
  have := roles f
  grind

/-- Lines that read nothing can be left out, as long as no line before them reads them. -/
theorem pairwise_idle {as idle bs : List Line} (silent : ∀ i ∈ idle, ∀ l, ¬ Line.Reads i l) :
    (as ++ idle ++ bs).Pairwise (fun a b => ¬ a.Reads b) ↔
      (as ++ bs).Pairwise (fun a b => ¬ a.Reads b) ∧ ∀ a ∈ as, ∀ i ∈ idle, ¬ a.Reads i := by
  have among : idle.Pairwise (fun a b => ¬ a.Reads b) :=
    List.pairwise_of_forall_mem_list fun i hi l _ => silent i hi l
  have before : ∀ i ∈ idle, ∀ b ∈ bs, ¬ i.Reads b := fun i hi b _ => silent i hi b
  simp only [List.pairwise_append, List.mem_append, or_imp, forall_and]
  tauto

/-- The lines between the fields can be taken out one block after the other. -/
theorem pairwise_blocks {fields state early late computed : List Line}
    (silent : ∀ l ∈ state ++ (early ++ late) ++ computed, ∀ other, ¬ Line.Reads l other) :
    (fields.filter (·.group == 0) ++ state ++ (early ++ fields.filter (·.group == 1) ++ late) ++
        fields.filter (·.group == 2) ++ computed).Pairwise (fun a b => ¬ a.Reads b) ↔
      (byRole fields).Pairwise (fun a b => ¬ a.Reads b) ∧
      (∀ f ∈ byRole fields, ∀ l ∈ computed, ¬ f.Reads l) ∧
      (∀ f ∈ fields.filter (·.group == 0) ++ fields.filter (·.group == 1), ∀ l ∈ late,
        ¬ f.Reads l) ∧
      (∀ f ∈ fields.filter (·.group == 0), ∀ l ∈ early, ¬ f.Reads l) ∧
      ∀ f ∈ fields.filter (·.group == 0), ∀ l ∈ state, ¬ f.Reads l := by
  simp only [List.mem_append, or_imp, forall_and] at silent
  obtain ⟨⟨ofState, ofEarly, ofLate⟩, ofComputed⟩ := silent
  rw [byRole]
  generalize fields.filter (·.group == 0) = first
  generalize fields.filter (·.group == 1) = second
  generalize fields.filter (·.group == 2) = third
  have whole : first ++ state ++ (early ++ second ++ late) ++ third ++ computed =
      first ++ state ++ (early ++ (second ++ (late ++ (third ++ computed)))) := by
    simp
  have next : first ++ (early ++ (second ++ (late ++ (third ++ computed)))) =
      first ++ early ++ (second ++ (late ++ (third ++ computed))) := by
    simp
  have last : first ++ (second ++ (late ++ (third ++ computed))) =
      first ++ second ++ late ++ (third ++ computed) := by
    simp
  have rest : first ++ second ++ (third ++ computed) = first ++ second ++ third ++ computed ++ [] := by
    simp
  rw [whole, pairwise_idle ofState, next, pairwise_idle ofEarly, last, pairwise_idle ofLate, rest,
    pairwise_idle ofComputed, List.append_nil, and_assoc, and_assoc, and_assoc]

theorem Model.FieldRole.line_group (ctx : RecastContext) (role : Model.FieldRole) :
    (role.line ctx).group ≤ 2 := by
  cases role <;> simp [Model.FieldRole.line, StateDecl.line, RefDecl.line, ConstDecl.line]

theorem line_silent {l : Line} (plain : ∀ code ∈ l.initial, code ∈ notNames) (other : Line) :
    ¬ l.Reads other := by
  rintro ⟨code, written, name, _, reads⟩
  exact not_readsName_of_mem (plain code written) reads

/-- The function is safe to run exactly when its fields are in order. -/
theorem safeOrder_iff {roles : List Model.FieldRole} {ctx : RecastContext} {s : Surroundings}
    {b : FunctionBody} (h : Lays roles ctx s b) :
    SafeOrder b.lines ↔ InOrder (roles.map (·.line ctx)) s b := by
  obtain ⟨fields, eq⟩ : ∃ fields, fields = roles.map (·.line ctx) := ⟨_, rfl⟩
  obtain ⟨state, refs, constants⟩ := roles_lines ctx roles
  rw [← eq] at state refs constants ⊢
  have grouped : ∀ f ∈ fields, f.group ≤ 2 := by
    rw [eq]
    simpa using fun role _ => Model.FieldRole.line_group ctx role
  have silent : ∀ l ∈ s.lines ++ b.computedLines, ∀ other, ¬ l.Reads other := by
    intro l hl
    refine line_silent fun code written => ?_
    rcases List.mem_append.mp hl with between | computed
    · obtain ⟨word, known, initial⟩ := h.plain l between
      rw [initial] at written
      rwa [← Option.some.inj written]
    · simp only [FunctionBody.computedLines, List.mem_append, List.mem_map] at computed
      rcases computed with ⟨c, _, rfl⟩ | ⟨m, _, rfl⟩ <;> cases written
  have lines : b.lines = fields.filter (·.group == 0) ++ s.state.map (·.line) ++
      (s.early.map (·.line) ++ fields.filter (·.group == 1) ++ s.late.map (·.line)) ++
        fields.filter (·.group == 2) ++ b.computedLines := by
    simp only [FunctionBody.lines, h.state, h.refs, h.constants, List.map_append, state, refs,
      constants]
  have members (l : Line) : l ∈ b.lines ↔ l ∈ fields ∨ l ∈ s.lines ++ b.computedLines := by
    rw [← mem_byRole grouped, lines]
    simp only [byRole, Surroundings.lines, List.map_append, List.mem_append]
    tauto
  have own : (∀ l ∈ b.lines, ¬ l.Reads l) ↔ ∀ f ∈ fields, ¬ f.Reads f := by
    constructor
    · intro all f hf
      exact all f ((members f).mpr (.inl hf))
    · intro all l hl
      rcases (members l).mp hl with field | between
      · exact all l field
      · exact silent l between l
  rw [Surroundings.lines, List.map_append] at silent
  rw [SafeOrder, own, lines, pairwise_blocks silent, pairwise_byRole grouped]
  have ofGroup {f : Line} {n : Nat} (hf : f ∈ fields) (role : f.group = n) :
      f ∈ fields.filter (·.group == n) :=
    List.mem_filter.mpr ⟨hf, by simp [role]⟩
  have field {f : Line} {n : Nat} (hf : f ∈ fields.filter (·.group == n)) :
      f ∈ fields ∧ f.group = n :=
    ⟨(List.mem_filter.mp hf).1, by simpa using (List.mem_filter.mp hf).2⟩
  constructor
  · rintro ⟨⟨order, computed, late, early, state⟩, own⟩
    refine ⟨own, order, fun f hf role l hl => ?_, fun f hf role => ?_, fun f hf => ?_⟩
    · rw [Surroundings.lines, List.map_append, List.mem_append, List.mem_append] at hl
      rcases hl with hl | hl | hl
      · exact state f (ofGroup hf role) l hl
      · exact early f (ofGroup hf role) l hl
      · exact late f (List.mem_append_left _ (ofGroup hf role)) l hl
    · exact late f (List.mem_append_right _ (ofGroup hf role))
    · exact computed f ((mem_byRole grouped).mpr hf)
  · intro ordered
    have between {f l : Line} (hf : f ∈ fields.filter (·.group == 0)) (hl : l ∈ s.lines) :
        ¬ f.Reads l :=
      ordered.state f (field hf).1 (field hf).2 l hl
    simp only [Surroundings.lines, List.map_append, List.mem_append] at between
    refine ⟨⟨ordered.order, fun f hf => ?_, fun f hf l hl => ?_, fun f hf l hl => ?_,
      fun f hf l hl => ?_⟩, ordered.own⟩
    · exact ordered.computed f ((mem_byRole grouped).mp hf)
    · rcases List.mem_append.mp hf with first | second
      · exact between first (.inr (.inr hl))
      · exact ordered.refs f (field second).1 (field second).2 l hl
    · exact between hf (.inr (.inl hl))
    · exact between hf (.inl hl)

/-- The initializers of fields, in the order of the class, read only fields before them and injected
elements. -/
structure EarlierOnly (fields : List Line) (s : Surroundings) (b : FunctionBody) : Prop where
  own : ∀ f ∈ fields, ¬ f.Reads f
  order : fields.Pairwise fun f g => ¬ f.Reads g
  made : ∀ f ∈ fields, ∀ l ∈ s.state.map (·.line) ++ s.late.map (·.line) ++ b.computedLines,
    ¬ f.Reads l

/-- What is in order in the class stays so unless a field reads one with a later role, or state reads
an injected element. -/
theorem inOrder_iff_of_earlier {fields : List Line} {s : Surroundings} {b : FunctionBody}
    (h : EarlierOnly fields s b) :
    InOrder fields s b ↔ fields.Pairwise (fun f g => g.Reads f → f.group ≤ g.group) ∧
      ∀ f ∈ fields, f.group = 0 → ∀ l ∈ s.early.map (·.line), ¬ f.Reads l := by
  have made := h.made
  simp only [List.mem_append, or_imp, forall_and] at made
  obtain ⟨⟨ofState, ofLate⟩, ofComputed⟩ := made
  constructor
  · intro ordered
    refine ⟨ordered.order.imp fun both => both.2, fun f hf role l hl => ?_⟩
    apply ordered.state f hf role l
    simp only [Surroundings.lines, List.map_append, List.mem_append]
    exact .inr (.inl hl)
  · rintro ⟨order, early⟩
    refine ⟨h.own, ?_, fun f hf role l hl => ?_, fun f hf _ => ofLate f hf, ofComputed⟩
    · exact (h.order.and order).imp fun both => ⟨fun reads => absurd reads both.1, both.2⟩
    · simp only [Surroundings.lines, List.map_append, List.mem_append] at hl
      rcases hl with hl | hl | hl
      · exact ofState f hf l hl
      · exact early f hf role l hl
      · exact ofLate f hf l hl

/-! ### Classes -/

theorem found_refs_empty {elementRefs : Table String} {present : List String} {deps : List Injected}
    {found : List (List String × List RefDecl)}
    (h : List.Forall₂ (Members.Provides elementRefs present) deps found) :
    ∀ r ∈ found.flatMap (·.2), r.initial = some "null" := by
  induction h with
  | nil => simp
  | cons provides _ ih =>
      intro r hr
      rw [List.flatMap_cons, List.mem_append] at hr
      rcases hr with here | later
      · cases provides with
        | value _ _ => cases here
        | router _ _ _ => cases here
        | element _ _ _ _ =>
            rw [List.mem_singleton.mp here]
        | given _ _ _ => cases here
      · exact ih r later

theorem Lays.ofWritten {d : DeclBase} {mutated skip : List String} {m : ModelBase}
    {ctx : RecastContext} {x : Additions} {b : FunctionBody}
    {elementRefs : Table String} {present : List String}
    (models : Model.Models index d mutated skip m) (w : Written m ctx x b)
    (found : List.Forall₂ (Members.Provides elementRefs present) m.dependencies x.found)
    (tracked : ∀ c ∈ x.tracked, c.initial = some "false" ∨ c.initial = some "null")
    (held : ∀ r ∈ x.held ++ x.host, r.initial = some "null") :
    Lays (Model.fieldRoles d mutated) ctx
      { state := x.tracked, early := x.found.flatMap (·.2), late := x.held ++ x.host } b where
  state := by rw [w.state, models.state]
  refs := by rw [w.refs, models.refs, List.append_assoc, List.append_assoc]
  constants := by rw [w.constants, models.constants]
  plain l hl := by
    simp only [Surroundings.lines, List.mem_append, List.mem_map] at hl
    rcases hl with ⟨c, hc, rfl⟩ | ⟨r, hr, rfl⟩
    · rcases tracked c hc with initial | initial
      · exact ⟨"false", by decide, initial⟩
      · exact ⟨"null", by decide, initial⟩
    · refine ⟨"null", by decide, ?_⟩
      rcases hr with early | late
      · exact found_refs_empty found r early
      · exact held r (List.mem_append.mpr late)

/-- One more ref in front. -/
theorem Lays.host {roles : List Model.FieldRole} {ctx : RecastContext} {s : Surroundings}
    {b : FunctionBody} (h : Lays roles ctx s b) :
    Lays roles ctx { s with early := madeHost :: s.early } { b with refs := madeHost :: b.refs } where
  state := h.state
  refs := by rw [h.refs, List.cons_append, List.cons_append]
  constants := h.constants
  plain l hl := by
    simp only [Surroundings.lines, List.cons_append, List.map_cons, List.mem_append,
      List.mem_cons] at hl
    rcases hl with state | host | refs
    · exact h.plain l (List.mem_append_left _ state)
    · exact ⟨"null", by decide, by rw [host]; rfl⟩
    · exact h.plain l (List.mem_append_right _ refs)

/-- The body of a module that is a function. -/
def Artifact.body? : Artifact → Option FunctionBody
  | .component c => some c.body
  | .hook h => some h.body
  | _ => none

/-- The body is empty, or the fields of the class are laid out in it.  Only the template of a component
can change fields besides the methods. -/
def LaysFields (d : Declaration) (b : FunctionBody) : Prop :=
  b = {} ∨ ∃ mutated ctx s, (d.kind = .component ∨ mutated = []) ∧
    Lays (Model.fieldRoles d.base mutated) ctx s b

theorem stub_laysFields {d : Declaration} {m : StubModel} {a : Artifact}
    (made : stub index m = .ok a) : ∀ b ∈ a.body?, LaysFields d b := by
  have directive (decl : DirectiveDecl) (unit : String) :
      ∀ b ∈ (directiveStub m decl unit).body?, LaysFields d b := by
    unfold directiveStub
    extract_lets ref
    split
    · rintro b ⟨⟩
      exact .inl rfl
    · split
      · rintro b ⟨⟩
      · rintro b ⟨⟩
        exact .inl rfl
  unfold stub at made
  split at made
  · cases made
    rintro b ⟨⟩
    exact .inl rfl
  · obtain ⟨decl, _, made⟩ := ok_of_bind made
    cases made
    exact directive decl _
  · cases made
    rintro b ⟨⟩
    exact .inl rfl
  · split at made
    · cases made
      rintro b ⟨⟩
    · cases made
  · cases made
    rintro b ⟨⟩
  · cases made
    rintro b ⟨⟩

theorem component_laysFields (sound : SymbolIndex.Sound ds index) {decl : ComponentDecl}
    {m : ComponentModel} (of : Model.ComponentOf index decl m) :
    (convertComponent index order m).Ensures fun as =>
      ∀ a ∈ as, ∀ b ∈ a.body?, LaysFields (.component decl) b := by
  refine (convertComponent_ensures sound of).mono ?_
  rintro as ⟨c, rfl, writes⟩ a mem b body
  rcases List.mem_cons.mp mem with rfl | style
  · cases body
    obtain ⟨x, written, additions⟩ := writes.body
    obtain ⟨mutated, models⟩ := of.base
    have held : ∀ r ∈ x.held ++ x.host, r.initial = some "null" := by
      intro r hr
      rcases List.mem_append.mp hr with held | host
      · exact additions.empty r held
      · rcases additions.host with none | ⟨made, _⟩
        · rw [none] at host
          cases host
        · rw [made] at host
          rw [List.mem_singleton.mp host]
          rfl
    have tracked : ∀ c ∈ x.tracked, c.initial = some "false" ∨ c.initial = some "null" := by
      rw [additions.tracked]
      simp
    exact .inr ⟨mutated, _, _, .inl rfl, .ofWritten models written additions.injects.found tracked held⟩
  · unfold styleModules at style
    split at style
    · cases style
    · rw [List.mem_singleton.mp style] at body
      cases body

theorem service_laysFields (sound : SymbolIndex.Sound ds index) {decl : ServiceDecl}
    {m : ServiceModel} (of : Model.Models index decl.toDeclBase [] [] m.toModelBase) :
    (convertService index order m).Ensures fun as =>
      ∀ a ∈ as, ∀ b ∈ a.body?, LaysFields (.service decl) b := by
  refine (convertService_ensures sound of).mono ?_
  rintro as ⟨h, rfl, writes⟩ a mem b body
  rw [List.mem_singleton.mp mem] at body
  cases body
  obtain ⟨found, extra, written, injects⟩ := writes.body
  have tracked : ∀ c ∈ trackedState (m.methods.filter (·.asynchronous)),
      c.initial = some "false" ∨ c.initial = some "null" := by
    intro c hc
    obtain ⟨method, _, states⟩ := List.mem_flatMap.mp hc
    simp only [List.mem_cons, List.not_mem_nil, or_false] at states
    rcases states with rfl | rfl
    · exact .inl rfl
    · exact .inr rfl
  exact .inr ⟨[], _, _, .inr rfl, .ofWritten of written injects.found tracked (by simp)⟩

theorem directive_laysFields (sound : SymbolIndex.Sound ds index) {decl : DirectiveDecl}
    {m : DirectiveModel} (of : Model.DirectiveOf index decl m) :
    (convertDirective index order m).Ensures fun as =>
      ∀ a ∈ as, ∀ b ∈ a.body?, LaysFields (.directive decl) b := by
  have laid {b : FunctionBody} (writes : WritesDirective order m b) :
      ∃ ctx s, Lays (Model.fieldRoles decl.toDeclBase []) ctx s b := by
    obtain ⟨found, extra, written, injects⟩ := writes
    exact ⟨_, _, .ofWritten of.base written injects.found (by simp) (by simp)⟩
  unfold convertDirective
  split
  · refine .pure fun a mem b body => ?_
    rw [List.mem_singleton.mp mem] at body
    cases body
    exact .inl rfl
  · split
    · refine (directiveWrapper_ensures sound of).bind fun c writes => .pure fun a mem b body => ?_
      rw [List.mem_singleton.mp mem] at body
      cases body
      obtain ⟨_, _, _, b, written, same⟩ := writes
      obtain ⟨ctx, s, lays⟩ := laid written
      rw [same]
      exact .inr ⟨[], _, _, .inr rfl, lays.host⟩
    · refine (directiveHook_ensures sound of).bind fun h writes => .pure fun a mem b body => ?_
      rw [List.mem_singleton.mp mem] at body
      cases body
      obtain ⟨ctx, s, lays⟩ := laid writes.2.2.2.2
      exact .inr ⟨[], _, _, .inr rfl, lays⟩

theorem modules_layFields (sound : SymbolIndex.Sound ds index) {d : Declaration}
    (kind : d.kind = .component ∨ d.kind = .service ∨ d.kind = .directive) {w : Work}
    {as : List Artifact} {sink : Sink}
    (h : (WorkItem.declaration d).modules index w order = .ok (as, sink)) :
    ∀ a ∈ as, ∀ b ∈ a.body?, LaysFields d b := by
  refine WorkItem.declaration_modules sound ?_ (fun _ _ _ _ made => stub_laysFields made) ?_ h
  · intro a mem b body
    have raw : ∀ a ∈ Support.modules, ∀ b ∈ a.body?, b = {} := by
      simp [Support.modules, Artifact.body?]
    exact .inl (raw a mem b body)
  · intro m built own
    cases built with
    | review _ _ _ _ _ _ => exact absurd rfl (own _)
    | component of => exact component_laysFields sound of
    | service of => exact service_laysFields sound of
    | directive of => exact directive_laysFields sound of
    | pipe _ _ => simp [Declaration.kind] at kind
    | module _ _ _ => simp [Declaration.kind] at kind
    | routes _ => simp [Declaration.kind] at kind

/-- The function that a class becomes runs no initializer too early exactly when its fields are in
order by role.  For fields that are in order in the class this fails only if one reads a field with a
later role, or if state reads an injected element. -/
theorem initializers_safe_iff (ds : List Declaration) (units : List String) (w : Work)
    {d : Declaration} (kind : d.kind = .component ∨ d.kind = .service ∨ d.kind = .directive)
    {as : List Artifact} {sink : Sink}
    (made : (WorkItem.declaration d).modules (SymbolIndex.build ds units) w order = .ok (as, sink))
    {a : Artifact} (mem : a ∈ as) {b : FunctionBody} (body : a.body? = some b) :
    b = {} ∧ SafeOrder b.lines ∨
      ∃ mutated ctx s fields, (d.kind = .component ∨ mutated = []) ∧
        Lays (Model.fieldRoles d.base mutated) ctx s b ∧
        fields = (Model.fieldRoles d.base mutated).map (·.line ctx) ∧
        (SafeOrder b.lines ↔ InOrder fields s b) ∧
        (EarlierOnly fields s b → (SafeOrder b.lines ↔
          fields.Pairwise (fun f g => g.Reads f → f.group ≤ g.group) ∧
            ∀ f ∈ fields, f.group = 0 → ∀ l ∈ s.early.map (·.line), ¬ f.Reads l)) := by
  rcases modules_layFields (SymbolIndex.build_sound ds units).1 kind made a mem b body with
    empty | ⟨mutated, ctx, s, only, lays⟩
  · subst empty
    exact .inl ⟨rfl, .nil, by simp [FunctionBody.lines, FunctionBody.computedLines]⟩
  · refine .inr ⟨mutated, ctx, s, _, only, lays, rfl, safeOrder_iff lays, fun earlier => ?_⟩
    rw [safeOrder_iff lays, inOrder_iff_of_earlier earlier]

instance (a b : Line) : Decidable (a.Reads b) :=
  inferInstanceAs (Decidable (∃ code ∈ a.initial, ∃ name ∈ b.names, ReadsName code name))

instance (lines : List Line) : Decidable (SafeOrder lines) :=
  inferInstanceAs (Decidable (_ ∧ _))

/-- A unit with a constant that is computed from another one. -/
def steadyUnit : Work where
  path := "steady.ts"
  items := [.declaration (.component
    { name := "Steady", sourcePath := "steady.ts"
      fields := [{ name := "step", initializer := some "2" },
        { name := "twice", initializer := some "this.step * 2" }] })]

theorem initializers_safe_steadyUnit : ∃ decl c mutated ctx s, steadyUnit.Becomes decl c ∧
    Lays (Model.fieldRoles decl.toDeclBase mutated) ctx s c.body ∧ c.body.constants.length = 2 ∧
      InOrder ((Model.fieldRoles decl.toDeclBase mutated).map (·.line ctx)) s c.body := by
  have computed : (steadyUnit.component?.any fun (_, c) =>
      decide (SafeOrder c.body.lines ∧ c.body.constants.length = 2)) = true := by
    decide +kernel
  obtain ⟨⟨decl, c⟩, found, facts⟩ := (Option.any_eq_true _ _).mp computed
  obtain ⟨safe, two⟩ := of_decide_eq_true facts
  obtain ⟨items, as, sink, made, mem⟩ := Work.becomes_of_component? found
  rcases initializers_safe_iff _ _ steadyUnit (.inl rfl) made mem rfl with
    ⟨empty, _⟩ | ⟨mutated, ctx, s, fields, _, lays, rfl, order, _⟩
  · rw [empty] at two
    cases two
  · exact ⟨decl, c, mutated, ctx, s, ⟨items, as, sink, made, mem⟩, lays, two, order.mp safe⟩

/-- A unit with a changing field that starts from a constant before it. -/
def startUnit : Work :=
  Work.prepare [] "a.ts" (some ("@Component(\x7btemplate: ''\x7d) class A \x7b " ++
    "a = 5; b = this.a; go() \x7b this.b = 1; \x7d \x7d"))

theorem initializers_unsafe_startUnit : ∃ decl c, startUnit.Becomes decl c ∧
    decl.fields.map (fun f => (f.name, f.initializer)) =
      [("a", some "5"), ("b", some "this.a")] ∧ ¬ SafeOrder c.body.lines := by
  have computed : (startUnit.component?.any fun (decl, c) =>
      decide (decl.fields.map (fun f => (f.name, f.initializer)) =
        [("a", some "5"), ("b", some "this.a")] ∧ ¬ SafeOrder c.body.lines)) = true := by
    have read : startUnit = _ := Work.prepare_chars _ _ (toList_ofList_append _ _)
    rw [read]
    decide +kernel
  obtain ⟨⟨decl, c⟩, found, facts⟩ := (Option.any_eq_true _ _).mp computed
  obtain ⟨fields, broken⟩ := of_decide_eq_true facts
  exact ⟨decl, c, Work.becomes_of_component? found, fields, broken⟩

end ReactMigration
