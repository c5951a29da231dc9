import Mathlib.Data.List.TakeWhile
import ReactMigration.Printing.Declarations
import ReactMigration.Proofs.ConstructorStatements
import ReactMigration.Proofs.References
import ReactMigration.Proofs.Steps

/-!
Subscriptions that are opened on mount and released on cleanup.

Each statement that opens a subscription keeps it somewhere: in a member of the instance, in a variable
that it declares, or, if it keeps it nowhere, in a variable that is made up for it.  What is released on
cleanup is counted by these handles, and so are the declarations of the variables.  The variables can be
seen from the cleanup unless the statements run in an asynchronous function of their own.
-/

namespace ReactMigration.Model

open ReactMigration.Text
open ReactMigration.Text.Pattern (Captures isName)
open ReactMigration.Recast (assigns_takes instanceDot)

/-! ### Statements that open a subscription -/

/-- The call that opens a subscription occurs in the text. -/
def Subscribes (text : List Char) : Prop :=
  ".subscribe(".toList <:+: text

/-- The statement assigns what it subscribes to to a member of the instance. -/
def HoldsIn (member text : String) : Prop :=
  ∃ gap value, text.toList = instanceDot ++ (member.toList ++ (gap ++ '=' :: value)) ∧ member.toList ≠ [] ∧
    (∀ a ∈ member.toList, isName a = true) ∧ (∀ a ∈ gap, isBlank a = true) ∧ NotNext (· == '=') value ∧
    Subscribes value

/-- The statement declares a variable, without a type, for what it subscribes to. -/
def DeclaresIn (name text : String) : Prop :=
  ∃ keyword ∈ ["const", "let", "var"], ∃ gap gap' value,
    text.toList = keyword.toList ++ (gap ++ (name.toList ++ (gap' ++ '=' :: value))) ∧ gap ≠ [] ∧
      (∀ a ∈ gap, isBlank a = true) ∧ name.toList ≠ [] ∧ (∀ a ∈ name.toList, isName a = true) ∧
      (∀ a ∈ gap', isBlank a = true) ∧ Subscribes value

section Reading

variable {s x : String} {m : Match} {c d : Cursor} {g h : Captures}

theorem subscribes_iff {text : List Char} : Subscribes text ↔ ∃ y z, text = y ++ (".subscribe(".toList ++ z) := by
  constructor
  · rintro ⟨y, z, same⟩
    exact ⟨y, z, by rw [← same, List.append_assoc]⟩
  · rintro ⟨y, z, rfl⟩
    exact ⟨y, z, by rw [List.append_assoc]⟩

/-- Any text that ends in the call. -/
theorem toSubscribe_takes {p : Pattern} : (p ++ .anything ++ .text ".subscribe(" : Pattern).Takes c g d h ↔
    ∃ e, p.Takes c g e h ∧ ∃ y, e.Spans (y ++ ".subscribe(".toList) d := by
  simp only [Pattern.seq_takes, Pattern.text_takes, Pattern.anything, Pattern.many_takes]
  constructor
  · rintro ⟨f, _, ⟨e, _, taken, ⟨y, any, -⟩, rfl⟩, call, rfl⟩
    exact ⟨e, taken, y, any.trans call⟩
  · rintro ⟨e, taken, y, spans⟩
    obtain ⟨f, any, call⟩ := spans_append spans
    exact ⟨f, h, ⟨e, h, taken, ⟨y, any, by simp, Nat.zero_le _⟩, rfl⟩, call, rfl⟩

theorem heldSubscription_takes : heldSubscription.Takes c g d h ↔
    c.before = [] ∧ ∃ name gap y, name ≠ [] ∧ (∀ a ∈ name, isName a = true) ∧ (∀ a ∈ gap, isBlank a = true) ∧
      c.Spans (instanceDot ++ (name ++ (gap ++ ('=' :: (y ++ ".subscribe(".toList))))) d ∧
      NotNext (· == '=') (y ++ (".subscribe(".toList ++ d.after)) ∧ h = (1, name) :: g := by
  rw [heldSubscription, toSubscribe_takes]
  simp only [Pattern.seq_takes, Pattern.text_takes, Pattern.group_takes, Pattern.name, Pattern.blanks,
    Pattern.many_takes, assigns_takes]
  constructor
  · rintro ⟨c₅, ⟨c₄, _, ⟨c₃, _, ⟨c₂, _, ⟨c₁, _, ⟨rfl, rfl, start⟩, lead, rfl⟩, _, ⟨⟨name, named, letters, visible⟩,
      rfl⟩, rfl⟩, ⟨gap, first, blank, -⟩, rfl⟩, ⟨sign, alone⟩, rfl⟩, y, call⟩
    refine ⟨start, name, gap, y, List.length_pos_iff.mp visible, letters, blank, ?_, ?_, ?_⟩
    · exact lead.trans (named.trans (first.trans (Cursor.Spans.trans (x := ['=']) sign call)))
    · rwa [call.after, List.append_assoc] at alone
    · rw [captured_eq named]
  · rintro ⟨start, name, gap, y, visible, letters, blank, spans, alone, rfl⟩
    obtain ⟨c₁, lead, spans⟩ := spans_append spans
    obtain ⟨c₂, named, spans⟩ := spans_append spans
    obtain ⟨c₃, first, spans⟩ := spans_append spans
    obtain ⟨c₄, sign, call⟩ := spans_append (x := ['=']) (y := y ++ ".subscribe(".toList) spans
    refine ⟨c₄, ⟨c₃, _, ⟨c₂, _, ⟨c₁, _, ⟨c, _, ⟨rfl, rfl, start⟩, lead, rfl⟩, _, ⟨⟨name, named, letters, ?_⟩,
      rfl⟩, rfl⟩, ⟨gap, first, blank, Nat.zero_le _⟩, rfl⟩, ⟨sign, ?_⟩, ?_⟩, y, call⟩
    · exact List.length_pos_iff.mpr visible
    · rwa [call.after, List.append_assoc]
    · rw [captured_eq named]

theorem localSubscription_takes : localSubscription.Takes c g d h ↔
    c.before = [] ∧ ∃ keyword ∈ ["const", "let", "var"], ∃ gap name gap' y, gap ≠ [] ∧
      (∀ a ∈ gap, isBlank a = true) ∧ name ≠ [] ∧ (∀ a ∈ name, isName a = true) ∧ (∀ a ∈ gap', isBlank a = true) ∧
      c.Spans (keyword.toList ++ (gap ++ (name ++ (gap' ++ ('=' :: (y ++ ".subscribe(".toList)))))) d ∧
      h = (1, name) :: g := by
  rw [localSubscription, toSubscribe_takes]
  simp only [Pattern.seq_takes, Pattern.text_takes, Pattern.group_takes, Pattern.name, Pattern.blanks,
    Pattern.blanks1, Pattern.many_takes, Pattern.oneOf_takes]
  constructor
  · rintro ⟨c₆, ⟨c₅, _, ⟨c₄, _, ⟨c₃, _, ⟨c₂, _, ⟨c₁, _, ⟨rfl, rfl, start⟩, ⟨keyword, known, lead⟩, rfl⟩,
      ⟨gap, apart, blank, some⟩, rfl⟩, _, ⟨⟨name, named, letters, visible⟩, rfl⟩, rfl⟩, ⟨gap', first, blank', -⟩, rfl⟩,
      sign, rfl⟩, y, call⟩
    refine ⟨start, keyword, known, gap, name, gap', y, List.length_pos_iff.mp some, blank, List.length_pos_iff.mp visible,
      letters, blank', ?_, ?_⟩
    · exact lead.trans (apart.trans (named.trans (first.trans (Cursor.Spans.trans (x := ['=']) sign call))))
    · rw [captured_eq named]
  · rintro ⟨start, keyword, known, gap, name, gap', y, some, blank, visible, letters, blank', spans, rfl⟩
    obtain ⟨c₁, lead, spans⟩ := spans_append spans
    obtain ⟨c₂, apart, spans⟩ := spans_append spans
    obtain ⟨c₃, named, spans⟩ := spans_append spans
    obtain ⟨c₄, first, spans⟩ := spans_append spans
    obtain ⟨c₅, sign, call⟩ := spans_append (x := ['=']) spans
    refine ⟨c₅, ⟨c₄, _, ⟨c₃, _, ⟨c₂, _, ⟨c₁, _, ⟨c, _, ⟨rfl, rfl, start⟩, ⟨keyword, known, lead⟩, rfl⟩,
      ⟨gap, apart, blank, ?_⟩, rfl⟩, _, ⟨⟨name, named, letters, ?_⟩, rfl⟩, rfl⟩, ⟨gap', first, blank', Nat.zero_le _⟩,
      rfl⟩, sign, ?_⟩, y, call⟩
    · exact List.length_pos_iff.mpr some
    · exact List.length_pos_iff.mpr visible
    · rw [captured_eq named]

theorem heldSubscription_steady : heldSubscription.Steady := by
  simp [heldSubscription, Pattern.Steady, Pattern.name, Pattern.blanks, Pattern.anything, assigns]

theorem localSubscription_steady : localSubscription.Steady := by
  simp [localSubscription, Pattern.Steady, Pattern.name, Pattern.blanks, Pattern.blanks1, Pattern.anything]

theorem heldSubscription_lead? (found : heldSubscription.lead? s = some m) : HoldsIn (m.group 1) s := by
  obtain ⟨taken, -⟩ := Pattern.matchAt?_eq_some found
  obtain ⟨-, name, gap, y, visible, letters, blank, spans, alone, groups⟩ := heldSubscription_takes.mp taken
  have named : m.group 1 = String.ofList name := by
    rw [Match.group, Match.group?, groups]
    rfl
  have whole : s.toList = instanceDot ++ (name ++ (gap ++ ('=' :: (y ++ ".subscribe(".toList)))) ++ m.rest.after :=
    spans.after
  rw [named]
  refine ⟨gap, y ++ (".subscribe(".toList ++ m.rest.after), ?_, ?_, ?_, blank, alone, subscribes_iff.mpr ⟨y, _, rfl⟩⟩
  · simp only [whole, String.toList_ofList, List.append_assoc, List.cons_append]
  · rwa [String.toList_ofList]
  · rwa [String.toList_ofList]

theorem heldSubscription_isSome (holds : HoldsIn x s) : (heldSubscription.lead? s).isSome := by
  obtain ⟨gap, value, whole, visible, letters, blank, alone, subscribes⟩ := holds
  obtain ⟨y, z, rfl⟩ := subscribes_iff.mp subscribes
  have after : (Cursor.start s.toList).after =
      instanceDot ++ (x.toList ++ (gap ++ ('=' :: (y ++ ".subscribe(".toList)))) ++ z := by
    rw [show (Cursor.start s.toList).after = s.toList from rfl, whole]
    simp only [List.append_assoc, List.cons_append]
  have spans := Cursor.spans_advance after
  refine Pattern.matchAt?_isSome heldSubscription_steady ⟨_, _, heldSubscription_takes.mpr
    ⟨rfl, x.toList, gap, y, visible, letters, blank, spans, ?_, rfl⟩⟩
  rwa [spans.remaining after]

theorem localSubscription_lead? (found : localSubscription.lead? s = some m) : DeclaresIn (m.group 1) s := by
  obtain ⟨taken, -⟩ := Pattern.matchAt?_eq_some found
  obtain ⟨-, keyword, known, gap, name, gap', y, some, blank, visible, letters, blank', spans, groups⟩ :=
    localSubscription_takes.mp taken
  have named : m.group 1 = String.ofList name := by
    rw [Match.group, Match.group?, groups]
    rfl
  have whole : s.toList =
      keyword.toList ++ (gap ++ (name ++ (gap' ++ ('=' :: (y ++ ".subscribe(".toList))))) ++ m.rest.after :=
    spans.after
  rw [named]
  refine ⟨keyword, known, gap, gap', y ++ (".subscribe(".toList ++ m.rest.after), ?_, some, blank, ?_, ?_, blank',
    subscribes_iff.mpr ⟨y, _, rfl⟩⟩
  · simp only [whole, String.toList_ofList, List.append_assoc, List.cons_append]
  · rwa [String.toList_ofList]
  · rwa [String.toList_ofList]

theorem localSubscription_isSome (declares : DeclaresIn x s) : (localSubscription.lead? s).isSome := by
  obtain ⟨keyword, known, gap, gap', value, whole, some, blank, visible, letters, blank', subscribes⟩ := declares
  obtain ⟨y, z, rfl⟩ := subscribes_iff.mp subscribes
  have after : (Cursor.start s.toList).after =
      keyword.toList ++ (gap ++ (x.toList ++ (gap' ++ ('=' :: (y ++ ".subscribe(".toList))))) ++ z := by
    rw [show (Cursor.start s.toList).after = s.toList from rfl, whole]
    simp only [List.append_assoc, List.cons_append]
  exact Pattern.matchAt?_isSome localSubscription_steady ⟨_, _, localSubscription_takes.mpr
    ⟨rfl, keyword, known, gap, x.toList, gap', y, some, blank, visible, letters, blank', Cursor.spans_advance after, rfl⟩⟩

end Reading

/-! ### What keeps a subscription -/

/-- Where a statement keeps the subscription that it opens. -/
inductive Keeping where
  | member (name : String)
  | declared (name : String)
  /-- A variable is made up for it. -/
  | made (name : String)
  | nothing
  deriving DecidableEq

namespace Keeping

/-- The variable that keeps the subscription. -/
def variableName? : Keeping → Option String
  | declared x | made x => some x
  | member _ | nothing => none

/-- What the subscription is called by where it is released. -/
def handle? : Keeping → Option String
  | member x => some ("this." ++ x)
  | k => k.variableName?

/-- The body that runs on cleanup mentions the release of the member. -/
def mentioned (body : String) : Keeping → Bool
  | member x => occursIn ("this." ++ x ++ ".unsubscribe") body
  | _ => false

/-- The body that runs on cleanup releases the member. -/
def called (body : String) : Keeping → Bool
  | member x => occursIn ("this." ++ x ++ ".unsubscribe(") body
  | _ => false

end Keeping

/-- The statement that releases what the handle stands for. -/
def releaseText (handle : String) : String :=
  handle ++ ".unsubscribe();"

/-- A statement of the method that runs on mount, with what keeps its subscription. -/
structure Row where
  source : Statement
  keeping : Keeping

/-- The statement in the effect. -/
def Row.text (r : Row) : String :=
  match r.keeping with
  | .made x => "const " ++ x ++ " = " ++ r.source.text
  | _ => r.source.text

/-- The releases that are added for a statement. -/
def Row.added (body : String) (r : Row) : List String :=
  if r.keeping.mentioned body then [] else r.keeping.handle?.toList.map releaseText

/-- The statement is an expression that opens a subscription. -/
structure Starts (s : Statement) : Prop where
  expression : s.kind = "expression_statement"
  subscribes : Subscribes s.text.toList

/-- Where a statement keeps its subscription if `count` variables have been made up before it, and how many
there are behind it. -/
inductive KeptAs (count : Nat) (s : Statement) : Keeping → Nat → Prop
  | member {x} : HoldsIn x s.text → KeptAs count s (.member x) count
  | declared {x} : DeclaresIn x s.text → KeptAs count s (.declared x) count
  | made : Starts s → (∀ x, ¬ HoldsIn x s.text) → (∀ x, ¬ DeclaresIn x s.text) →
      KeptAs count s (.made (subscriptionName (count + 1))) (count + 1)
  | nothing : ¬ Starts s → (∀ x, ¬ HoldsIn x s.text) → (∀ x, ¬ DeclaresIn x s.text) → KeptAs count s .nothing count

/-- The statements in order, each with where it keeps its subscription. -/
inductive Kept : Nat → List Row → Prop
  | nil (count) : Kept count []
  | cons {count count' row rows} : KeptAs count row.source row.keeping count' → Kept count' rows →
      Kept count (row :: rows)

section Rows

variable {body : String} {count : Nat} {s : Statement} {k : Keeping} {r : Row} {rows : List Row}

theorem starts_iff (s : Statement) :
    Starts s ↔ (occursIn ".subscribe(" s.text && s.kind == "expression_statement") = true := by
  rw [Bool.and_eq_true, occursIn_iff (by decide), beq_iff_eq]
  exact ⟨fun h => ⟨h.2, h.1⟩, fun h => ⟨h.2, h.1⟩⟩

/-- Every statement has its place, and the code that is made of it is the one for this place. -/
theorem releaseStatement_row (body : String) (count : Nat) (s : Statement) :
    ∃ k count', KeptAs count s k count' ∧
      releaseStatement body count s = (Row.text ⟨s, k⟩, Row.added body ⟨s, k⟩, count') := by
  unfold releaseStatement
  cases held : heldSubscription.lead? s.text with
  | some m =>
      refine ⟨.member (m.group 1), count, .member (heldSubscription_lead? held), ?_⟩
      by_cases mentioned : occursIn ("this." ++ m.group 1 ++ ".unsubscribe") body = true
      · simp [Row.text, Row.added, Keeping.mentioned, mentioned]
      · simp [Row.text, Row.added, Keeping.mentioned, Keeping.handle?, releaseText, mentioned]
  | none =>
      have unheld (x : String) (holds : HoldsIn x s.text) : False := by
        have := heldSubscription_isSome holds
        simp [held] at this
      cases declared : localSubscription.lead? s.text with
      | some m => exact ⟨.declared (m.group 1), count, .declared (localSubscription_lead? declared), rfl⟩
      | none =>
          have undeclared (x : String) (declares : DeclaresIn x s.text) : False := by
            have := localSubscription_isSome declares
            simp [declared] at this
          dsimp only
          split
          · rename_i starts
            exact ⟨_, _, .made ((starts_iff s).mpr starts) unheld undeclared, rfl⟩
          · rename_i other
            exact ⟨_, _, .nothing (mt (starts_iff s).mp other) unheld undeclared, rfl⟩

theorem releaseSubscriptions_rows (body : String) (count : Nat) (ss : List Statement) :
    ∃ rows, rows.map Row.source = ss ∧ Kept count rows ∧
      releaseSubscriptions body count ss = (rows.map Row.text, rows.flatMap (Row.added body)) := by
  induction ss generalizing count with
  | nil => exact ⟨[], rfl, .nil count, rfl⟩
  | cons s ss ih =>
      obtain ⟨k, count', kept, first⟩ := releaseStatement_row body count s
      obtain ⟨rows, sources, others, rest⟩ := ih count'
      refine ⟨⟨s, k⟩ :: rows, by rw [List.map_cons, sources], .cons kept others, ?_⟩
      rw [releaseSubscriptions, first]
      dsimp only
      rw [rest]
      rfl

/-! ### How often a subscription is released -/

/-- The number of its releases on cleanup: those that are added, and the one that the body makes. -/
def releases (added : List String) (body : String) (k : Keeping) : Nat :=
  match k.handle? with
  | none => 0
  | some handle => added.count (releaseText handle) + (k.called body).toNat

/-- The subscription is kept by a handle that no other statement uses. -/
def KeptAlone (rows : List Row) (k : Keeping) : Prop :=
  ∃ handle ∈ k.handle?, (rows.filterMap (·.keeping.handle?)).count handle = 1

theorem KeptAs.variable_ne_member {count' : Nat} {x : String} (kept : KeptAs count s k count')
    (keeps : x ∈ k.variableName?) (y : String) : x ≠ "this." ++ y := by
  rintro rfl
  cases kept with
  | member holds => cases keeps
  | declared declares =>
      cases keeps
      obtain ⟨-, -, -, -, -, -, -, -, -, letters, -⟩ := declares
      have dot := letters '.' (by simp)
      revert dot
      decide
  | made =>
      have same : subscriptionName (count + 1) = "this." ++ y := Option.some.inj keeps
      have starts := congrArg (·.toList.head?) same
      unfold subscriptionName at starts
      split at starts
      · simp at starts
      · rw [String.toList_append, String.toList_append] at starts
        cases starts
  | nothing => cases keeps

theorem Kept.mem (kept : Kept count rows) (mem : r ∈ rows) :
    ∃ count' count'', KeptAs count' r.source r.keeping count'' := by
  induction kept with
  | nil => cases mem
  | cons first others ih =>
      cases mem with
      | head => exact ⟨_, _, first⟩
      | tail _ mem => exact ih mem

/-- Whether the body mentions a release is a matter of how the handle is spelled. -/
theorem KeptAs.mentioned_iff {count' : Nat} {handle : String} (kept : KeptAs count s k count')
    (keeps : k.handle? = some handle) : k.mentioned body = true ↔
      (∃ x, handle = "this." ++ x) ∧ occursIn (handle ++ ".unsubscribe") body = true := by
  have other (own : handle ∈ k.variableName?) : ¬ ∃ x, handle = "this." ++ x := fun ⟨x, same⟩ =>
    kept.variable_ne_member own x same
  cases k with
  | member x =>
      cases keeps
      exact ⟨fun mentions => ⟨⟨x, rfl⟩, mentions⟩, fun mentions => mentions.2⟩
  | declared x => exact ⟨fun mentions => (by cases mentions), fun mentions => absurd mentions.1 (other keeps)⟩
  | made x => exact ⟨fun mentions => (by cases mentions), fun mentions => absurd mentions.1 (other keeps)⟩
  | nothing => cases keeps

theorem Kept.mentioned_eq {r' : Row} {handle : String} (kept : Kept count rows) (mem : r ∈ rows) (mem' : r' ∈ rows)
    (keeps : r.keeping.handle? = some handle) (keeps' : r'.keeping.handle? = some handle) :
    r'.keeping.mentioned body = r.keeping.mentioned body := by
  obtain ⟨_, _, as⟩ := kept.mem mem
  obtain ⟨_, _, as'⟩ := kept.mem mem'
  rw [Bool.eq_iff_iff, as'.mentioned_iff keeps', as.mentioned_iff keeps]

theorem releaseText_inj {x y : String} : releaseText x = releaseText y ↔ x = y :=
  String.append_left_inj _

theorem count_added {handle : String} {mentioned : Bool}
    (same : ∀ r ∈ rows, r.keeping.handle? = some handle → r.keeping.mentioned body = mentioned) :
    (rows.flatMap (Row.added body)).count (releaseText handle) =
      if mentioned then 0 else (rows.filterMap (·.keeping.handle?)).count handle := by
  induction rows with
  | nil => simp
  | cons r rows ih =>
      have others := ih fun r' mem => same r' (List.mem_cons_of_mem r mem)
      have here := same r List.mem_cons_self
      rw [List.flatMap_cons, List.count_append, others, List.filterMap_cons, Row.added]
      cases keeps : r.keeping.handle? with
      | none => simp
      | some handle' =>
          by_cases equal : handle' = handle
          · subst equal
            rw [here keeps]
            cases mentioned <;> simp [Nat.add_comm]
          · cases r.keeping.mentioned body <;> simp [releaseText_inj, equal]

theorem mentioned_of_called (called : k.called body = true) : k.mentioned body = true := by
  cases k with
  | member x =>
      have visible (front : String) (rest : String) (some : rest ≠ "") : front ++ rest ≠ "" := by
        intro none
        have := congrArg String.toList none
        simp_all
      rw [Keeping.called, occursIn_iff (visible _ _ (by decide))] at called
      rw [Keeping.mentioned, occursIn_iff (visible _ _ (by decide))]
      refine List.IsInfix.trans ⟨[], ['('], ?_⟩ called
      simp
  | _ => cases called

/-- There is one release exactly if the body makes it, or nothing else is kept by the same handle and the body does
not even mention its release. -/
theorem Kept.releases_eq_one (kept : Kept count rows) (mem : r ∈ rows) (body : String) :
    releases (rows.flatMap (Row.added body)) body r.keeping = 1 ↔
      r.keeping.called body = true ∨ r.keeping.mentioned body = false ∧ KeptAlone rows r.keeping := by
  unfold releases KeptAlone
  cases keeps : r.keeping.handle? with
  | none =>
      cases found : r.keeping with
      | member x => simp [found, Keeping.handle?] at keeps
      | _ => simp [Keeping.called]
  | some handle =>
      dsimp only
      rw [count_added fun r' mem' keeps' => kept.mentioned_eq mem mem' keeps keeps']
      cases called : r.keeping.called body with
      | true => simp [mentioned_of_called called]
      | false => cases r.keeping.mentioned body <;> simp

end Rows

/-! ### How often a variable is declared -/

/-- Names that a statement declares, as they are read from its text: a variable in front of an expression is declared
with it, and the expression may bring more of them behind commas. -/
def ReadsNames (declares more : String → List String) (ss : List Statement) : Prop :=
  ∀ s ∈ ss, s.kind = "expression_statement" → ∀ i,
    declares ("const " ++ subscriptionName i ++ " = " ++ s.text) = subscriptionName i :: more s.text

/-- The names that the statements declare without the variables that are made up. -/
def ownNames (declares more : String → List String) (rest : List String) (rows : List Row) : List String :=
  rest.flatMap declares ++ rows.flatMap fun r =>
    match r.keeping with
    | .made _ => more r.source.text
    | _ => declares r.source.text

/-- The variable that is made up for a statement. -/
def Row.madeUp? (r : Row) : Option String :=
  match r.keeping with
  | .made x => some x
  | _ => none

theorem subscriptionName_inj {i j : Nat} (hi : 0 < i) (hj : 0 < j) (same : subscriptionName i = subscriptionName j) :
    i = j := by
  have long (n : Nat) : "subscription" ≠ "subscription" ++ toString n := by
    intro same
    have lengths := congrArg String.length same
    have digits : 0 < (toString n).length := by
      rw [Nat.toString_eq_ofList_toDigits, String.length_ofList]
      exact Nat.length_toDigits_pos
    rw [String.length_append] at lengths
    omega
  unfold subscriptionName at same
  split at same <;> split at same
  · omega
  · exact absurd same (long j)
  · exact absurd same.symm (long i)
  · exact Converting.eq_of_numbered_eq same

section Names

variable {declares more : String → List String} {count : Nat} {r : Row} {rows : List Row} {x : String}

theorem KeptAs.count_le {s : Statement} {k : Keeping} {count' : Nat} (kept : KeptAs count s k count') : count ≤ count' := by
  cases kept <;> omega

/-- Variables are made up with higher numbers only. -/
theorem Kept.mem_madeUp (kept : Kept count rows) (mem : x ∈ rows.filterMap Row.madeUp?) :
    ∃ i, count < i ∧ x = subscriptionName i := by
  induction kept with
  | nil => cases mem
  | @cons count count' row rows first others ih =>
      rcases List.mem_filterMap.mp mem with ⟨r, listed, made⟩
      cases listed with
      | head =>
          obtain ⟨s, k⟩ := row
          cases first <;> cases made
          exact ⟨count + 1, Nat.lt_succ_self _, rfl⟩
      | tail _ later =>
          obtain ⟨i, more, same⟩ := ih (List.mem_filterMap.mpr ⟨r, later, made⟩)
          exact ⟨i, Nat.lt_of_le_of_lt first.count_le more, same⟩

theorem Kept.nodup_madeUp (kept : Kept count rows) : (rows.filterMap Row.madeUp?).Nodup := by
  induction kept with
  | nil => exact List.nodup_nil
  | @cons count count' row rows first others ih =>
      rw [List.filterMap_cons]
      obtain ⟨s, k⟩ := row
      cases first with
      | made =>
          refine List.nodup_cons.mpr ⟨fun again => ?_, ih⟩
          obtain ⟨i, later, same⟩ := others.mem_madeUp again
          have := subscriptionName_inj (Nat.succ_pos count) (by omega) same
          omega
      | _ => exact ih

/-- The effect declares what its statements declare and the variables that are made up. -/
theorem count_declares (kept : Kept count rows) (rest : List String)
    (reads : ReadsNames declares more (rows.map Row.source)) (x : String) :
    ((rest ++ rows.map Row.text).flatMap declares).count x =
      (ownNames declares more rest rows).count x + (rows.filterMap Row.madeUp?).count x := by
  rw [ownNames, List.flatMap_append, List.count_append, List.count_append, Nat.add_assoc]
  congr 1
  induction kept with
  | nil => rfl
  | @cons count count' row rows first others ih =>
      have behind := ih fun s mem => reads s (List.mem_cons_of_mem _ mem)
      have here := reads row.source List.mem_cons_self
      rw [List.map_cons, List.flatMap_cons, List.flatMap_cons, List.count_append, List.count_append, behind,
        List.filterMap_cons]
      obtain ⟨s, k⟩ := row
      cases first with
      | made starts =>
          have declared : declares (Row.text ⟨s, .made (subscriptionName (count + 1))⟩) =
              subscriptionName (count + 1) :: more s.text := here starts.expression _
          rw [declared]
          simp only [Row.madeUp?, List.count_cons]
          omega
      | _ => simp only [Row.madeUp?, Row.text]; omega

/-- A variable is declared once exactly if the statements declare it as often as it takes. -/
theorem Kept.declared_once (kept : Kept count rows) (rest : List String)
    (reads : ReadsNames declares more (rows.map Row.source)) (x : String) :
    ((rest ++ rows.map Row.text).flatMap declares).count x = 1 ↔
      (ownNames declares more rest rows).count x = if x ∈ rows.filterMap Row.madeUp? then 0 else 1 := by
  rw [count_declares kept rest reads, kept.nodup_madeUp.count]
  split <;> omega

end Names

/-! ### The lines of an effect -/

section Lines

variable {x : List Char} {rows : List String} {last : String}

theorem lineChars_append (whole : ∀ a ∈ x, isLineBreak a = false) (line cs : List Char) :
    lineChars line (x ++ '\n' :: cs) = (line.reverse ++ x) :: lineChars [] cs := by
  induction x generalizing line with
  | nil =>
      rw [List.nil_append, List.append_nil, lineChars]
      · rfl
      · exact fun _ same => by cases same
  | cons a x ih =>
      obtain ⟨plain, others⟩ := List.forall_mem_cons.mp whole
      rw [List.cons_append, lineChars, plain, if_neg Bool.false_ne_true, ih others, List.reverse_cons, List.append_assoc]
      · rfl
      · rintro cs rfl
        cases plain

theorem lineChars_last (whole : ∀ a ∈ x, isLineBreak a = false) (line : List Char) (visible : line.reverse ++ x ≠ []) :
    lineChars line x = [line.reverse ++ x] := by
  induction x generalizing line with
  | nil =>
      rw [List.append_nil] at visible ⊢
      rw [lineChars]
      rintro rfl
      exact visible rfl
  | cons a x ih =>
      obtain ⟨plain, others⟩ := List.forall_mem_cons.mp whole
      have same : (a :: line).reverse ++ x = line.reverse ++ a :: x := by simp
      rw [lineChars, plain, if_neg Bool.false_ne_true, ih others (a :: line) (by rwa [same]), same]
      rintro cs rfl
      cases plain

theorem lines_whole (s : String) : ∀ line ∈ lines s, ∀ a ∈ line.toList, isLineBreak a = false := by
  have whole (line cs : List Char) (before : ∀ a ∈ line, isLineBreak a = false) :
      ∀ l ∈ lineChars line cs, ∀ a ∈ l, isLineBreak a = false := by
    fun_induction lineChars line cs with
    | case1 => simp
    | case2 line => simpa using before
    | case3 line cs ih => simpa using ⟨before, ih (by simp)⟩
    | case4 line c cs _ breaks ih => simpa using ⟨before, ih (by simp)⟩
    | case5 line c cs _ plain ih => exact ih (by simpa [plain] using before)
  intro line mem
  obtain ⟨l, listed, rfl⟩ := List.mem_map.mp mem
  rw [String.toList_ofList]
  exact whole [] s.toList (by simp) l listed

/-- Lines that are joined are read back. -/
theorem lines_unlines (whole : ∀ line ∈ rows, ∀ a ∈ line.toList, isLineBreak a = false)
    (wholeLast : ∀ a ∈ last.toList, isLineBreak a = false) (visible : last ≠ "") :
    lines (unlines (rows ++ [last])) = rows ++ [last] := by
  induction rows with
  | nil =>
      have some : ([] : List Char).reverse ++ last.toList ≠ [] := fun none => visible (String.toList_inj.mp none)
      rw [List.nil_append, unlines, String.intercalate_singleton, lines, lineChars_last wholeLast [] some]
      simp
  | cons row rows ih =>
      obtain ⟨here, others⟩ := List.forall_mem_cons.mp whole
      have rest : lines (unlines (rows ++ [last])) = rows ++ [last] := ih others
      have joined : (unlines (row :: rows ++ [last])).toList = row.toList ++ '\n' :: (unlines (rows ++ [last])).toList := by
        rw [unlines, List.cons_append, String.intercalate_cons_of_ne_nil (by simp), String.toList_append,
          String.toList_append, List.append_assoc]
        rfl
      rw [lines, joined, lineChars_append here, List.map_cons, ← lines, rest]
      simp

/-- The row of a line that is indented. -/
def indentedRow (level : Nat) (line : String) : String :=
  if isBlankText line then "" else spaces (2 * level) ++ line

theorem indentBy_eq (level : Nat) (text : String) :
    Printing.indentBy level text = unlines ((lines text).map (indentedRow level)) :=
  rfl

theorem indentedRow_whole {level : Nat} {line : String} (whole : ∀ a ∈ line.toList, isLineBreak a = false) :
    ∀ a ∈ (indentedRow level line).toList, isLineBreak a = false := by
  unfold indentedRow
  split
  · simp
  · intro a mem
    rw [String.toList_append, List.mem_append, spaces, String.toList_ofList] at mem
    rcases mem with lead | mem
    · rw [List.eq_of_mem_replicate lead]
      decide
    · exact whole a mem

theorem indentedRow_twice (line : String) : indentedRow 1 (indentedRow 1 line) = indentedRow 2 line := by
  by_cases blank : isBlankText line = true
  · simp only [indentedRow, blank, if_true]
    rfl
  · have visible : isBlankText (spaces (2 * 1) ++ line) = false := by
      unfold isBlankText at blank ⊢
      rw [String.toList_append, List.all_append, Bool.eq_false_iff.mpr blank, Bool.and_false]
    simp only [indentedRow, if_neg blank, visible, Bool.false_eq_true, if_false]
    rw [← String.append_assoc]
    rfl

theorem unbroken_of_any {cs : List Char} (none : cs.any isLineBreak = false) :
    ∀ a ∈ cs, isLineBreak a = false := by
  simpa using none

/-- A function in a scope is indented with what stands inside. -/
theorem indent_within {opening closing inside : String} (wholeOpening : ∀ a ∈ opening.toList, isLineBreak a = false)
    (wholeClosing : ∀ a ∈ closing.toList, isLineBreak a = false) (visibleOpening : isBlankText opening = false)
    (visibleClosing : isBlankText closing = false) (some : lines inside ≠ []) :
    Printing.indent (opening ++ "\n" ++ Printing.indent inside ++ "\n" ++ closing) =
      unlines ["  " ++ opening, Printing.indentBy 2 inside, "  " ++ closing] := by
  have rowsInside : (lines inside).map (indentedRow 1) ≠ [] := by simpa using some
  have split : opening ++ "\n" ++ Printing.indent inside ++ "\n" ++ closing =
      unlines (opening :: (lines inside).map (indentedRow 1) ++ [closing]) := by
    rw [Printing.indent, indentBy_eq, unlines, unlines, String.intercalate_append_of_ne_nil (by simp) (by simp),
      String.intercalate_singleton, String.intercalate_cons_of_ne_nil rowsInside]
  have visible : closing ≠ "" := by
    rintro rfl
    cases visibleClosing
  have whole : ∀ line ∈ opening :: (lines inside).map (indentedRow 1), ∀ a ∈ line.toList, isLineBreak a = false := by
    refine List.forall_mem_cons.mpr ⟨wholeOpening, fun line mem => ?_⟩
    obtain ⟨l, listed, rfl⟩ := List.mem_map.mp mem
    exact indentedRow_whole (lines_whole inside l listed)
  have twice : ((lines inside).map (indentedRow 1)).map (indentedRow 1) = (lines inside).map (indentedRow 2) := by
    rw [List.map_map]
    exact List.map_congr_left fun line _ => indentedRow_twice line
  have ends (text : String) (shown : isBlankText text = false) : indentedRow 1 text = "  " ++ text := by
    rw [indentedRow, shown]
    rfl
  have rowsTwice : (lines inside).map (indentedRow 2) ≠ [] := by simpa using some
  rw [split, Printing.indent, indentBy_eq, lines_unlines whole wholeClosing visible, List.map_append, List.map_cons, twice,
    List.map_singleton, ends opening visibleOpening, ends closing visibleClosing, unlines,
    String.intercalate_append_of_ne_nil (by simp) (by simp), String.intercalate_cons_of_ne_nil rowsTwice, unlines,
    String.intercalate_cons_cons, String.intercalate_cons_cons, indentBy_eq, unlines]
  simp only [String.intercalate_singleton, String.append_assoc]

theorem lines_ne_nil {s : String} (visible : s ≠ "") : lines s ≠ [] := by
  have some (line cs : List Char) (shown : line ≠ [] ∨ cs ≠ []) : lineChars line cs ≠ [] := by
    fun_induction lineChars line cs with
    | case1 => simp at shown
    | case5 line c cs _ _ ih => exact ih (.inl (by simp))
    | _ => simp
  have shown : s.toList ≠ [] := fun none => visible (String.toList_inj.mp none)
  simpa [lines] using some [] s.toList (.inr shown)

/-- Lines among lines are lines. -/
theorem unlines_nested (front back : List String) {inside : List String} (some : inside ≠ []) :
    unlines (front ++ unlines inside :: back) = unlines (front ++ (inside ++ back)) := by
  induction front with
  | nil =>
      cases back with
      | nil => simp [unlines]
      | cons next back =>
          simp only [unlines, List.nil_append]
          rw [String.intercalate_cons_cons, String.intercalate_append_of_ne_nil some (by simp)]
  | cons row front ih =>
      simp only [unlines, List.cons_append] at ih ⊢
      rw [String.intercalate_cons_of_ne_nil (by simp), String.intercalate_cons_of_ne_nil (by simp [some]), ih]

end Lines

/-! ### Which code is seen from which -/

/-- Code of one scope: statements, and functions with a scope of their own. -/
inductive Code where
  | statements (text : String)
  | function (opening : String) (inside : Code) (closing : String)

/-- The text of the code. -/
def Code.text : Code → String
  | statements text => text
  | function opening inside closing => opening ++ "\n" ++ Printing.indent inside.text ++ "\n" ++ closing

/-- The statements stand somewhere in the code. -/
def Code.Holds (place : String) : Code → Prop
  | statements text => text = place
  | function _ inside _ => inside.Holds place

/-- What the statements declare can be seen from the place: a function beside them holds it. -/
def Sees (text place : String) (code : List Code) : Prop :=
  .statements text ∈ code ∧ ∃ opening inside closing, .function opening inside closing ∈ code ∧ inside.Holds place

/-- The statements of an effect; what waits gets an asynchronous function of its own. -/
def bodyCode (body : String) : List Code :=
  if body == "" then []
  else if Printing.waits body then [.function "(async () => \x7b" (.statements body) "\x7d)();"]
  else [.statements body]

/-- The function that cleans up. -/
def cleanupCode (cleanup : String) : List Code :=
  if cleanup == "" then [] else [.function "return () => \x7b" (.statements cleanup) "\x7d;"]

/-- The code of an effect. -/
def effectCode (e : EffectDecl) : List Code :=
  bodyCode (trim e.body) ++ cleanupCode (trim e.cleanup)

/-- Code as an effect. -/
def effectAround (comment : Option String) (deps : Option (List String)) (code : List Code) : String :=
  unlines (Printing.commentLine comment ++ ["useEffect(() => \x7b"] ++ code.map (Printing.indent ·.text) ++
    [match deps with
     | none => "\x7d);"
     | some deps => "\x7d, [" ++ ", ".intercalate deps ++ "]);"])

theorem bodyCode_text (body : String) :
    (bodyCode body).map (Printing.indent ·.text) =
      let body := if Printing.waits body then "(async () => \x7b\n" ++ Printing.indent body ++ "\n\x7d)();" else body
      if body == "" then [] else [Printing.indent body] := by
  have quiet : Printing.waits "" = false := by decide +kernel
  unfold bodyCode
  by_cases none : body = ""
  · subst none
    simp [quiet]
  · have some : (body == "") = false := by simpa using none
    rw [some, if_neg Bool.false_ne_true]
    by_cases waiting : Printing.waits body = true
    · have wrapped : ("(async () => \x7b\n" ++ Printing.indent body ++ "\n\x7d)();" == "") = false := by
        rw [beq_eq_false_iff_ne]
        intro empty
        have := congrArg String.toList empty
        simp at this
      have opening : "(async () => \x7b\n" = "(async () => \x7b" ++ "\n" := rfl
      have closing : "\n\x7d)();" = "\n" ++ "\x7d)();" := rfl
      simp only [waiting, if_true, wrapped, Bool.false_eq_true, if_false, List.map_singleton, Code.text]
      simp only [opening, closing, String.append_assoc]
    · simp only [waiting, Bool.false_eq_true, if_false, some, List.map_singleton, Code.text]

theorem cleanupCode_text {cleanup : String} (some : cleanup ≠ "") :
    (cleanupCode cleanup).map (Printing.indent ·.text) =
      [unlines ["  return () => \x7b", Printing.indentBy 2 cleanup, "  \x7d;"]] := by
  have shown : (cleanup == "") = false := by simpa using some
  rw [cleanupCode, shown, if_neg Bool.false_ne_true, List.map_singleton, Code.text, Code.text,
    indent_within (unbroken_of_any (by decide)) (unbroken_of_any (by decide)) (by decide) (by decide)
      (lines_ne_nil some)]
  rfl

/-- The text of an effect is the text of its code. -/
theorem effectText_code (e : EffectDecl) : Printing.effectText e = effectAround e.comment e.deps (effectCode e) := by
  unfold Printing.effectText effectAround effectCode
  rw [List.map_append, bodyCode_text]
  dsimp only
  by_cases none : trim e.cleanup = ""
  · have same : ("" == "") = true := rfl
    cases e.deps <;>
      rw [none, same, if_pos rfl, List.append_nil, show cleanupCode "" = [] from rfl, List.map_nil, List.append_nil]
  · have shown : (trim e.cleanup == "") = false := by simpa using none
    rw [shown, if_neg Bool.false_ne_true, cleanupCode_text none, ← List.append_assoc, List.append_assoc (_ ++ _) [_] [_]]
    rw [List.singleton_append, unlines_nested _ _ (by simp)]
    cases e.deps <;> simp only [List.append_assoc]

/-- The cleanup sees what the statements declare exactly if these do not wait. -/
theorem sees_effectCode {body cleanup : String} (some : body ≠ "") (some' : cleanup ≠ "") :
    Sees body cleanup (bodyCode body ++ cleanupCode cleanup) ↔ Printing.waits body = false := by
  have shown : (body == "") = false := by simpa using some
  have shown' : (cleanup == "") = false := by simpa using some'
  unfold Sees bodyCode cleanupCode
  rw [shown, shown', if_neg Bool.false_ne_true, if_neg Bool.false_ne_true]
  cases waiting : Printing.waits body with
  | true => simp
  | false => exact ⟨fun _ => rfl, fun _ => ⟨by simp, "return () => \x7b", .statements cleanup, "\x7d;", by simp, rfl⟩⟩

/-! ### The effect of being mounted -/

theorem trim_ne_empty {s : String} {a : Char} (mem : a ∈ s.toList) (visible : isBlank a = false) : trim s ≠ "" := by
  intro none
  have empty : stripWith isBlank s.toList = [] := by
    rw [← String.toList_ofList (l := stripWith isBlank s.toList), ← trim, none]
    rfl
  rw [stripWith, dropTrailing, List.reverse_eq_nil_iff, List.dropWhile_eq_nil_iff] at empty
  have blank (mem : a ∈ s.toList.dropWhile isBlank) : False := by
    rw [empty a (List.mem_reverse.mpr mem)] at visible
    cases visible
  rw [← List.takeWhile_append_dropWhile (p := isBlank) (l := s.toList), List.mem_append] at mem
  rcases mem with front | behind
  · rw [List.all_eq_true.mp List.all_takeWhile a front] at visible
    cases visible
  · exact blank behind

theorem mem_unlines {part : String} {parts : List String} {a : Char} (listed : part ∈ parts) (mem : a ∈ part.toList) :
    a ∈ (unlines parts).toList := by
  induction parts with
  | nil => cases listed
  | cons first parts ih =>
      by_cases none : parts = []
      · subst none
        rw [unlines, String.intercalate_singleton]
        cases List.mem_singleton.mp listed
        exact mem
      · rw [unlines, String.intercalate_cons_of_ne_nil none]
        simp only [String.toList_append, List.mem_append]
        rcases List.mem_cons.mp listed with rfl | later
        · exact .inl (.inl mem)
        · exact .inr (ih later)

theorem KeptAs.visible {count count' : Nat} {r : Row} {x : String} (kept : KeptAs count r.source r.keeping count')
    (keeps : x ∈ r.keeping.variableName?) : ∃ a ∈ r.text.toList, isBlank a = false := by
  obtain ⟨s, k⟩ := r
  cases kept with
  | member holds => cases keeps
  | declared declares =>
      obtain ⟨keyword, -, gap, gap', value, whole, -, -, some, letters, -⟩ := declares
      obtain ⟨a, rest, named⟩ := List.exists_cons_of_ne_nil some
      refine ⟨a, ?_, Pattern.not_isBlank_of_isName (letters a (by simp [named]))⟩
      change a ∈ s.text.toList
      simp [whole, named]
  | made => exact ⟨'c', by simp [Row.text], by decide⟩
  | nothing => cases keeps

theorem Row.mem_added {r : Row} {x : String} (keeps : x ∈ r.keeping.variableName?) (body : String) :
    releaseText x ∈ r.added body := by
  obtain ⟨s, k⟩ := r
  cases k with
  | declared y | made y =>
      cases keeps
      exact List.mem_singleton_self _
  | _ => cases keeps

/-- The body of the method that runs on cleanup. -/
def destroyBody (d : DeclBase) : String :=
  ((d.method? "ngOnDestroy").map (·.body)).getD ""

/-- The effect of being mounted consists of the rest of the constructor and the given rows, and it is cleaned up by
their releases and the method for it. -/
structure Mounts (d : DeclBase) (rows : List Row) (e : Effect) : Prop where
  effects : mountEffect d = [e]
  body : e.body = unlines ((constructorParts d).2 ++ rows.map Row.text)
  cleanup : e.cleanup = unlines (rows.flatMap (Row.added (destroyBody d)) ++
    if destroyBody d = "" then [] else [destroyBody d])

theorem mountEffect_rows {d : DeclBase} {init : MethodDecl} (found : d.method? "ngOnInit" = some init) :
    ∃ rows e, rows.map Row.source = init.statements ∧ Kept 0 rows ∧ Mounts d rows e := by
  obtain ⟨rows, sources, kept, released⟩ := releaseSubscriptions_rows (destroyBody d) 0 init.statements
  have effects : ∃ origin, mountEffect d = [{
      trigger := .mount
      body := unlines ((constructorParts d).2 ++ rows.map Row.text)
      cleanup := unlines (rows.flatMap (Row.added (destroyBody d)) ++
        if destroyBody d = "" then [] else [destroyBody d])
      origin }] := by
    have body : ((d.method? "ngOnDestroy").map (·.body)).getD "" = destroyBody d := rfl
    unfold mountEffect
    simp only [found, Option.isNone_some, Bool.false_and, Bool.false_eq_true, if_false, Option.map_some,
      Option.getD_some, body, released, beq_iff_eq]
    exact ⟨_, rfl⟩
  obtain ⟨origin, effects⟩ := effects
  exact ⟨rows, _, sources, kept, effects, rfl, rfl⟩

/-- Each subscription that is opened on mount is kept by a member or a variable, unless its statement declares
variables in another form.  Exactly one release runs on cleanup if the method for it releases the member, or if nothing else is
kept by the same handle and that method does not mention its release.  A variable that is released is declared once exactly
if the statements themselves declare a made-up one nowhere and any other once, and the cleanup sees it unless
the statements wait. -/
theorem subscriptions_released {d : DeclBase} {init : MethodDecl} (found : d.method? "ngOnInit" = some init)
    {declares more : String → List String} (reads : ReadsNames declares more init.statements) :
    ∃ rows e, rows.map Row.source = init.statements ∧ Kept 0 rows ∧ Mounts d rows e ∧
      (∀ r ∈ rows, releases (rows.flatMap (Row.added (destroyBody d))) (destroyBody d) r.keeping = 1 ↔
        r.keeping.called (destroyBody d) = true ∨
          r.keeping.mentioned (destroyBody d) = false ∧ KeptAlone rows r.keeping) ∧
      ∀ printed : EffectDecl, printed.body = e.body → printed.cleanup = e.cleanup →
        Printing.effectText printed = effectAround printed.comment printed.deps (effectCode printed) ∧
        ∀ r ∈ rows, ∀ x ∈ r.keeping.variableName?,
          ((((constructorParts d).2 ++ rows.map Row.text).flatMap declares).count x = 1 ↔
            (ownNames declares more (constructorParts d).2 rows).count x =
              if x ∈ rows.filterMap Row.madeUp? then 0 else 1) ∧
          (Sees (trim printed.body) (trim printed.cleanup) (effectCode printed) ↔
            Printing.waits (trim printed.body) = false) := by
  obtain ⟨rows, e, sources, kept, mounts⟩ := mountEffect_rows found
  refine ⟨rows, e, sources, kept, mounts, fun r mem => kept.releases_eq_one mem _, fun printed body cleanup =>
    ⟨effectText_code printed, fun r mem x keeps => ⟨kept.declared_once _ (sources ▸ reads) x, ?_⟩⟩⟩
  obtain ⟨_, _, as⟩ := kept.mem mem
  obtain ⟨a, shown, visible⟩ := as.visible keeps
  have someBody : trim printed.body ≠ "" := by
    refine trim_ne_empty ?_ visible
    rw [body, mounts.body]
    exact mem_unlines (List.mem_append_right _ (List.mem_map_of_mem mem)) shown
  have someCleanup : trim printed.cleanup ≠ "" := by
    refine trim_ne_empty (a := ';') ?_ (by decide)
    rw [cleanup, mounts.cleanup]
    have listed := List.mem_flatMap.mpr ⟨r, mem, Row.mem_added keeps (destroyBody d)⟩
    exact mem_unlines (List.mem_append_left _ listed) (by simp [releaseText])
  exact sees_effectCode someBody someCleanup

/-- The name that a declaration of a constant starts with. -/
def constantNames (text : String) : List String :=
  (dropLead? "const ".toList text.toList).toList.map fun behind => String.ofList (behind.takeWhile (· != ' '))

theorem constantNames_made (i : Nat) (text : String) :
    constantNames ("const " ++ subscriptionName i ++ " = " ++ text) = [subscriptionName i] := by
  have plain : ∀ a ∈ (subscriptionName i).toList, (a != ' ') = true := by
    intro a mem
    unfold subscriptionName at mem
    split at mem
    · have letters : "subscription".toList.all (· != ' ') = true := by decide
      exact List.all_eq_true.mp letters a mem
    · change a ∈ ("subscription" ++ toString i).toList at mem
      rw [String.toList_append, List.mem_append, Nat.toString_eq_ofList_toDigits] at mem
      rcases mem with word | number
      · have letters : "subscription".toList.all (· != ' ') = true := by decide
        exact List.all_eq_true.mp letters a word
      · rw [String.toList_ofList] at number
        have digit := Nat.isDigit_of_mem_toDigits (b := 10) (by decide) (by decide) number
        rw [bne_iff_ne]
        rintro rfl
        cases digit
  have whole : ("const " ++ subscriptionName i ++ " = " ++ text).toList =
      "const ".toList ++ ((subscriptionName i).toList ++ ' ' :: ("= ".toList ++ text.toList)) := by
    simp [String.toList_append]
  rw [constantNames, dropLead?_eq_some_iff.mpr whole, Option.toList_some, List.map_singleton,
    List.takeWhile_append_of_pos plain, List.takeWhile_cons_of_neg (by simp), List.append_nil, String.ofList_toList]

/-- A member, a constant and a variable that is made up. -/
theorem subscriptions_released_three :
    let init : MethodDecl :=
      { name := "ngOnInit"
        statements := [⟨"expression_statement", "this.first = a.subscribe(f);"⟩,
          ⟨"lexical_declaration", "const second = b.subscribe(g);"⟩,
          ⟨"expression_statement", "c.subscribe(h);"⟩] }
    let d : DeclBase := { name := "List", sourcePath := "list.ts", methods := [init] }
    d.method? "ngOnInit" = some init ∧ ReadsNames constantNames (fun _ => []) init.statements ∧
      ∃ rows e, rows.map Row.source = init.statements ∧ Kept 0 rows ∧ Mounts d rows e ∧
        e.body = "this.first = a.subscribe(f);\nconst second = b.subscribe(g);\nconst subscription = c.subscribe(h);" ∧
        e.cleanup = "this.first.unsubscribe();\nsecond.unsubscribe();\nsubscription.unsubscribe();" ∧
        ∀ r ∈ rows, r.keeping.mentioned "" = false ∧ KeptAlone rows r.keeping →
          releases (rows.flatMap (Row.added "")) "" r.keeping = 1 := by
  intro init d
  have found : d.method? "ngOnInit" = some init := rfl
  have reads : ReadsNames constantNames (fun _ => []) init.statements := fun s _ _ i => constantNames_made i s.text
  obtain ⟨rows, e, sources, kept, mounts, once, -⟩ := subscriptions_released found reads
  have made : mountEffect d = [{
      trigger := .mount
      body := "this.first = a.subscribe(f);\nconst second = b.subscribe(g);\nconst subscription = c.subscribe(h);"
      cleanup := "this.first.unsubscribe();\nsecond.unsubscribe();\nsubscription.unsubscribe();"
      origin := ["constructor"] }] := by
    decide +kernel
  obtain rfl := List.singleton_inj.mp (mounts.effects.symm.trans made)
  exact ⟨found, reads, rows, _, sources, kept, mounts, rfl, rfl, fun r mem alone => (once r mem).mpr (.inr alone)⟩

/-- A constant that is declared with its type is not released, and the same constant without the type is. -/
theorem subscription_unreleased_typed :
    let effects (statement : String) := mountEffect
      { name := "List", sourcePath := "list.ts"
        methods := [{ name := "ngOnInit", statements := [⟨"lexical_declaration", statement⟩] }] }
    Subscribes "const s: Subscription = source.subscribe(f);".toList ∧
      (effects "const s: Subscription = source.subscribe(f);").map (·.cleanup) = [""] ∧
      (effects "const s = source.subscribe(f);").map (·.cleanup) = ["s.unsubscribe();"] := by
  refine ⟨by unfold Subscribes; decide +kernel, ?_, ?_⟩ <;> decide +kernel

end ReactMigration.Model
