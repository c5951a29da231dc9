import ReactMigration.Proofs.MemberRules
import ReactMigration.Proofs.RecastPasses

/-!
Passes that find nothing.

A pass that looks for a call finds none in a text without brackets, and a pass that looks for a member finds none
in a text that does not address that member.  Such passes leave the text as it is.
-/

namespace ReactMigration.Recast

open ReactMigration.Text
open ReactMigration.Text.Pattern (isName atBoundary)
open Recasting (Gives)

variable {p q : Pattern} {c d : Cursor} {text : String} {name : String} {cs : List Char}

/-! ### Patterns that match nowhere -/

theorem searchAt?_eq_none (unable : ∀ x d e h, c.Spans x d → ¬ p.Takes d [] e h) : p.searchAt? c = none := by
  cases search : p.searchAt? c with
  | none => rfl
  | some m =>
      obtain ⟨x, d, spans, found, -⟩ := Pattern.searchAt?_eq_some search
      exact absurd (Pattern.matchAt?_eq_some found).1 (unable x d _ _ spans)

theorem replaceWith_unmatched {g : Match → String} (none : p.searchAt? (.start text.toList) = none) :
    p.replaceWith g text = text := by
  rw [Pattern.replaceWith, Pattern.findAll, Pattern.matchesWithin_unmatched none, Pattern.weave, String.ofList_toList]

theorem substitute_unmatched {new : String} (none : p.searchAt? (.start text.toList) = none) :
    p.substitute new text = text := by
  unfold Pattern.substitute
  split
  · exact replaceWith_unmatched none
  · rfl

/-- Whatever the pattern takes contains the character. -/
def Demands (p : Pattern) (a : Char) : Prop :=
  TakesOnly p (a ∈ ·)

theorem demands_text {s : String} {a : Char} (mem : a ∈ s.toList) : Demands (.text s) a :=
  (takesOnly_text s).mono fun _ same => same ▸ mem

theorem Demands.behind {a : Char} (demands : Demands q a) (p : Pattern) : Demands (p ++ q) a := by
  rintro c g d h x ⟨e, i, first, second⟩ spans
  obtain ⟨y, toward⟩ := first.spans
  obtain ⟨z, further⟩ := second.spans
  rw [spans_chars spans (toward.trans further)]
  exact List.mem_append_right y (demands second further)

theorem Demands.before {a : Char} (demands : Demands p a) (q : Pattern) : Demands (p ++ q) a := by
  rintro c g d h x ⟨e, i, first, second⟩ spans
  obtain ⟨y, toward⟩ := first.spans
  obtain ⟨z, further⟩ := second.spans
  rw [spans_chars spans (toward.trans further)]
  exact List.mem_append_left z (demands first toward)

theorem Demands.unmatched {a : Char} (demands : Demands p a) (absent : a ∉ c.after) : p.searchAt? c = none := by
  refine searchAt?_eq_none fun x d e h spans taken => ?_
  obtain ⟨y, within⟩ := taken.spans
  refine absurd (demands taken within) fun mem => absent ?_
  rw [spans.after, within.after]
  simp [mem]

/-! ### Members that are not addressed -/

/-- The member is named at the cursor, and no word runs over its end. -/
def AtMember (c : Cursor) (name : List Char) : Prop :=
  atBoundary c = true ∧ ∃ rest, c.after = instanceDot ++ (name ++ rest) ∧
    ((∃ b ∈ name.getLast?, isWord b = true) → NotNext isWord rest)

/-- The pattern takes something only where the member is named. -/
def Names (p : Pattern) (name : String) : Prop :=
  ∀ c g d h, p.Takes c g d h → AtMember c name.toList

theorem Names.before (names : Names p name) (q : Pattern) : Names (p ++ q) name := by
  rintro c g d h ⟨e, i, first, -⟩
  exact names c g e i first

/-- What stands behind a member decides whether a word runs over its end. -/
theorem names_member (opens : ∀ c g d h, q.Takes c g d h → NotNext isWord c.after) : Names (member name ++ q) name := by
  rintro c g d h ⟨e, i, first, second⟩
  obtain ⟨⟨bound, spans⟩, -⟩ := member_takes.mp first
  exact ⟨bound, e.after, by rw [spans.after, List.append_assoc], fun _ => opens _ _ _ _ second⟩

theorem names_text {tail : String} {a : Char} {rest : List Char} (starts : tail.toList = a :: rest)
    (mark : isWord a = false) : Names (member name ++ .text tail) name := by
  refine names_member fun c g d h taken => ?_
  rw [(Pattern.text_takes.mp taken).1.after, starts]
  simpa [NotNext] using mark

theorem names_dot {tail : String} {rest : List Char} (starts : tail.toList = '.' :: rest) :
    Names (member name ++ .text tail) name :=
  names_text starts (by decide)

theorem names_boundary : Names (member name ++ .boundary) name := by
  rintro c g d h ⟨e, i, first, rfl, rfl, bound⟩
  obtain ⟨⟨here, spans⟩, -⟩ := member_takes.mp first
  refine ⟨here, d.after, by rw [spans.after, List.append_assoc], ?_⟩
  rintro ⟨b, last, word⟩ a first
  have visible : name.toList ≠ [] := by
    intro none
    rw [none] at last
    cases last
  rw [atBoundary_behind (by simp [instanceDot]) spans, meetsWord, getLast?_append_visible visible, last, first] at bound
  simpa [word] using bound

theorem not_isWord_of_isBlank {a : Char} (blank : isBlank a = true) : isWord a = false := by
  refine Bool.eq_false_iff.mpr fun word => ?_
  rw [Pattern.not_isBlank_of_isName (by rw [isName, word, Bool.true_or])] at blank
  cases blank

theorem names_assigned : Names (member name ++ .ahead true (.blanks ++ loneEquals)) name := by
  refine names_member fun c g d h taken => ?_
  obtain ⟨-, e, ran⟩ := taken
  obtain ⟨d', h', ⟨f, j, blanks, f', j', sign, -⟩, -⟩ := Pattern.run_takes ran
  obtain ⟨⟨x, spans, blank, -⟩, -⟩ := blanks
  have equals := (Pattern.text_takes.mp sign).1.after
  intro a first
  rw [spans.after, equals] at first
  cases x with
  | nil =>
      obtain rfl : '=' = a := Option.some.inj first
      decide
  | cons b x =>
      obtain rfl : b = a := Option.some.inj first
      exact not_isWord_of_isBlank (blank b List.mem_cons_self)

/-- Nowhere in the text the member is named. -/
def Silent (cs : List Char) (name : String) : Prop :=
  ∀ x c, (Cursor.start cs).Spans x c → ¬ AtMember c name.toList

theorem Names.unmatched (names : Names p name) (silent : Silent cs name) : p.searchAt? (.start cs) = none :=
  searchAt?_eq_none fun x d _ _ spans taken => silent x d spans (names _ _ _ _ taken)

theorem AtMember.atInstance {word : List Char} (here : AtMember c word) : AtInstance c := by
  obtain ⟨bound, rest, after, -⟩ := here
  exact ⟨bound, word ++ rest, after.symm⟩

/-- Calm text names no member. -/
theorem silent_of_calm (calm : Calm cs) (name : String) : Silent cs name := by
  intro x c spans here
  have settled : Settled [⟨false, cs⟩] := ⟨calm, by simp, by simp, trivial⟩
  have after : (Cursor.start cs).after = printed [⟨false, cs⟩] := (List.append_nil cs).symm
  obtain ⟨before, b, rest, split, live, -⟩ := exists_live_of_atInstance settled after spans here.atInstance
  cases before with
  | nil =>
      obtain ⟨rfl, -⟩ := List.cons.inj split
      cases live
  | cons b' before => simp at split

/-- Where the keyword stands at the front and calm text behind it, the instance is addressed at the front alone. -/
theorem eq_nil_of_atInstance {rest : List Char} (calm : Calm rest) {x : List Char}
    (spans : (Cursor.start (instanceDot ++ rest)).Spans x c) (here : AtInstance c) : x = [] := by
  have settled : Settled [⟨true, rest⟩] := ⟨calm, by simp, by simp, trivial⟩
  have after : (Cursor.start (instanceDot ++ rest)).after = printed [⟨true, rest⟩] := (List.append_nil _).symm
  obtain ⟨before, b, more, split, -, rfl⟩ := exists_live_of_atInstance settled after spans here
  cases before with
  | nil => rfl
  | cons b' before => simp at split

/-! ### The passes -/

theorem unwrapCall_idle (noCall : '(' ∉ text.toList) (name : String) : unwrapCall text name = text := by
  have demands : Demands (Pattern.notAfter Pattern.isPath ++ .text (name ++ "(")) '(' :=
    (demands_text (by simp)).behind _
  rw [unwrapCall, unwrapWithin, demands.unmatched noCall]
  exact String.ofList_toList

theorem replaceAll_idle {old : String} (absent : ¬ old.toList <:+: text.toList) (visible : old ≠ "") (new : String) :
    replaceAll old new text = text := by
  have walk := replaceWithin_sweeps (c := .start text.toList) visible new.toList (Nat.lt_succ_self _)
  have same : (Pattern.text old).Sweeps (fun _ => new.toList) (.start text.toList) (text.toList ++ []) := by
    have after : (Cursor.start text.toList).after = text.toList ++ [] := (List.append_nil _).symm
    have spans := Cursor.spans_advance after
    have unmatched {y : List Char} {e : Cursor} (toward : (Cursor.start text.toList).Spans y e) :
        (Pattern.text old).matchAt? e = none := by
      cases found : (Pattern.text old).matchAt? e with
      | none => rfl
      | some m =>
          have here := (Pattern.text_takes.mp (Pattern.matchAt?_eq_some found).1).1
          exact absurd ⟨y, m.rest.after, by rw [List.append_assoc, ← here.after, ← toward.after]; rfl⟩ absent
    exact .skip spans (fun y e toward _ => unmatched toward) (.done (spans.remaining after) (unmatched spans))
  rw [replaceAll, replaceChars]
  exact (congrArg String.ofList ((walk.unique same).trans (List.append_nil _))).trans String.ofList_toList

theorem replaceMemberCalls_idle (noCall : '(' ∉ text.toList) (name : String)
    (handler : String → List String → Recasting (Option String)) :
    Gives (· = text) (replaceMemberCalls name handler text) := by
  have demands : Demands (member name ++ .text "." ++ .group 1 .name ++ .text "(") '(' :=
    (demands_text (by simp)).behind _
  have idle : memberCallsWithin (member name ++ .text "." ++ .group 1 .name ++ .text "(") handler
      (text.toList.length + 1) (.start text.toList) = pure (.start text.toList) := by
    rw [memberCallsWithin, demands.unmatched noCall]
  unfold replaceMemberCalls
  dsimp only
  rw [idle]
  exact Gives.pure String.ofList_toList

theorem replaceGetCalls_idle (noCall : '(' ∉ text.toList) (head : Pattern) (around : String → String) :
    replaceGetCalls head around text = text := by
  have demands : Demands (head ++ .text "(") '(' := (demands_text (by simp)).behind _
  unfold replaceGetCalls
  dsimp only
  rw [getCallsWithin, demands.unmatched noCall]
  exact String.ofList_toList

theorem recastChangeDetector_idle (noCall : '(' ∉ text.toList) : recastChangeDetector text name = text := by
  unfold recastChangeDetector
  dsimp only
  have demands : Demands (.text "()") '(' := demands_text (by decide)
  exact replaceWith_unmatched ((((demands.behind _).before _).before _).unmatched noCall)

theorem recastOutputs_idle (noCall : '(' ∉ text.toList) (outputs : Table String) : recastOutputs outputs text = text := by
  unfold recastOutputs
  induction outputs with
  | nil => rfl
  | cons output outputs ih =>
      have demands : Demands (member output.1 ++ .text ".emit(") '(' := (demands_text (by decide)).behind _
      rw [List.foldl_cons]
      dsimp only
      rw [substitute_unmatched (demands.unmatched noCall)]
      exact ih

section Silence

variable (silent : Silent text.toList name)
include silent

theorem Names.idle {g : Match → String} (names : Names p name) : p.replaceWith g text = text :=
  replaceWith_unmatched (names.unmatched silent)

theorem Names.replace_idle (names : Names p name) (new : String) : p.replace new text = text :=
  names.idle silent

theorem Names.substitute_idle (names : Names p name) (new : String) : p.substitute new text = text :=
  substitute_unmatched (names.unmatched silent)

theorem dereference_idle (names : Names p name) (ref : String) : dereference p ref text = text :=
  names.idle silent

theorem recastElement_idle (ctx : RecastContext) : recastElement ctx text name = text := by
  have native : Names (member name ++ .text ".nativeElement") name := names_dot rfl
  unfold recastElement
  dsimp only
  rw [dereference_idle silent (native.before _), (native.before _).substitute_idle silent]

theorem recastRef_idle : recastRef text name = text := by
  have native : Names (member name ++ .text ".nativeElement") name := names_dot rfl
  unfold recastRef
  dsimp only
  rw [dereference_idle silent (names_dot rfl), (native.before _).substitute_idle silent,
    names_assigned.substitute_idle silent, dereference_idle silent (names_dot rfl),
    names_boundary.substitute_idle silent]

theorem recastRouter_idle (noCall : '(' ∉ text.toList) : Gives (· = text) (recastRouter text name) := by
  have url : Names (member name ++ .text ".url") name := names_dot rfl
  unfold recastRouter
  refine (replaceMemberCalls_idle noCall name _).bind fun text' same => ?_
  subst same
  dsimp only
  split
  · exact Gives.after fun _ => .pure ((url.before _).idle silent)
  · exact .pure rfl

theorem recastRoute_idle (noCall : '(' ∉ text.toList) : Gives (· = text) (recastRoute text name) := by
  have route : Names (member name ++ .text ".snapshot") name := names_dot rfl
  have stream : Names (member name ++ .text ".") name := names_dot rfl
  unfold recastRoute
  extract_lets snapshot params read queryParams indexed keyed stream ends continues
  have snapshots : Names snapshot name := names_dot rfl
  have streams : Names stream name := ((names_dot rfl).before _).before _
  have one : params = text := replaceGetCalls_idle noCall _ _
  have two : read = text := by
    unfold read
    rw [one]
    exact ((snapshots.before _).before _).replace_idle silent _
  have three : queryParams = text := by
    unfold queryParams
    rw [two]
    exact replaceGetCalls_idle noCall _ _
  have four : indexed = text := by
    unfold indexed
    rw [three]
    exact (((snapshots.before _).before _).before _).idle silent
  have five : keyed = text := by
    unfold keyed
    rw [four]
    exact ((snapshots.before _).before _).idle silent
  have ending : Gives (· = text) (ends ()) := by
    unfold ends
    rw [five]
    split
    · exact Gives.after fun _ => Gives.after fun _ => .pure ((((names_dot rfl).before _).before _).replace_idle silent _)
    · exact .pure rfl
  have continuing : Gives (· = text) (continues ()) := by
    unfold continues
    split
    · exact Gives.after fun _ => ending
    · exact ending
  split
  · exact Gives.after fun _ => continuing
  · exact continuing

theorem recastSubject_idle (noCall : '(' ∉ text.toList) (state : Table String) :
    Gives (· = text) (recastSubject state text name) := by
  have worth : Names (member name ++ .text ".value") name := names_dot rfl
  have gets : Demands (member name ++ .text "." ++ .oneOf ["getValue", "asObservable"] ++ .text "()") '(' :=
    (demands_text (by decide)).behind _
  have sets : Demands (member name ++ .text ".next(") '(' := (demands_text (by decide)).behind _
  have set : setText (state.get? name) text name = text := by
    unfold setText
    split
    · split
      · rfl
      · exact substitute_unmatched (sets.unmatched noCall)
    · rfl
  have got : (member name ++ .text "." ++ .oneOf ["getValue", "asObservable"] ++ .text "()" : Pattern).substitute
      ("this." ++ name) text = text := substitute_unmatched (gets.unmatched noCall)
  intro n
  rw [recastSubject_run, set, readText, got]
  exact (worth.before _).substitute_idle silent _

/-- The pass of a framework class finds nothing where the member that holds it is not named and nothing is called. -/
theorem recastDependency_idle (noCall : '(' ∉ text.toList) (ctx : RecastContext) (injected : Injected) :
    Gives (· = text) (recastDependency ctx text (name, injected)) := by
  unfold recastDependency
  dsimp only
  split
  · exact .pure rfl
  · split
    · exact recastRouter_idle silent noCall
    · exact recastRoute_idle silent noCall
    · exact .pure (recastElement_idle silent ctx)
    · exact replaceMemberCalls_idle noCall name _
    · exact .pure (recastChangeDetector_idle noCall)
    · exact .pure rfl

end Silence

/-- Up to the writes of state nothing changes in a text without brackets that names neither a dependency nor a
subject. -/
theorem beforeState_idle {ctx : RecastContext} (noCall : '(' ∉ text.toList)
    (dependencies : ∀ d ∈ ctx.dependencies, Silent text.toList d.1)
    (subjects : ∀ name ∈ ctx.subjects, Silent text.toList name) : Gives (· = text) (beforeState ctx text) := by
  have unwrapped : ["firstValueFrom", "lastValueFrom", "$any"].foldl unwrapCall text = text := by
    simp only [List.foldl_cons, List.foldl_nil, unwrapCall_idle noCall]
  have awaited : replaceAll ".toPromise()" "" text = text := by
    refine replaceAll_idle (fun within => noCall (within.subset ?_)) (by decide) ""
    decide
  have services : Gives (· = text) (ctx.dependencies.foldlM (recastDependency ctx) text) := by
    refine .foldlM (fun t same d mem => ?_) rfl
    subst same
    exact recastDependency_idle (dependencies d mem) noCall ctx d.2
  have before : Gives (· = text) (beforeSubjects ctx text) := by
    unfold beforeSubjects
    dsimp only
    rw [unwrapped, awaited]
    exact services.bind fun t same => .pure (same ▸ recastOutputs_idle (same ▸ noCall) ctx.outputs)
  exact before.bind fun t same => .foldlM (fun t same name mem => by
    subst same
    exact recastSubject_idle (subjects name mem) noCall ctx.state) same

theorem refs_idle {names : List String} (silent : ∀ name ∈ names, Silent text.toList name) :
    names.foldl recastRef text = text := by
  induction names with
  | nil => rfl
  | cons name names ih =>
      rw [List.foldl_cons, recastRef_idle (silent name List.mem_cons_self)]
      exact ih fun other mem => silent other (List.mem_cons_of_mem name mem)

end ReactMigration.Recast
