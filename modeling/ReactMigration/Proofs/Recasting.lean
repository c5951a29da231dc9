import ReactMigration.Conversion.Recast
import ReactMigration.Proofs.Index

/-!
Recasting a text gives the same text whatever has been noted before: the hooks and the warnings that
it collects are written and never read.
-/

namespace ReactMigration

open ReactMigration.Text

variable {α β : Type}

/-- The value does not depend on the notes so far. -/
def Recasting.Blind (r : Recasting α) : Prop :=
  ∀ n n' : RecastNotes, (r.run n).1 = (r.run n').1

namespace Recasting.Blind

theorem pure (a : α) : Blind (Pure.pure a : Recasting α) :=
  fun _ _ => rfl

theorem bind {x : Recasting α} {f : α → Recasting β} (hx : Blind x) (hf : ∀ a, Blind (f a)) :
    Blind (x >>= f) := by
  intro n n'
  change ((f (x.run n).1).run (x.run n).2).1 = ((f (x.run n').1).run (x.run n').2).1
  rw [hx n n']
  exact hf _ _ _

theorem warn (message : String) : Blind (Recasting.warn message) :=
  fun _ _ => rfl

theorem uses (hook : String) : Blind (Recasting.uses hook) :=
  fun _ _ => rfl

theorem foldlM {f : β → α → Recasting β} (h : ∀ b a, Blind (f b a)) :
    ∀ (l : List α) (b : β), Blind (l.foldlM f b)
  | [], b => pure b
  | a :: l, b => by
      rw [List.foldlM_cons]
      exact (h b a).bind fun b => foldlM h l b

end Recasting.Blind

/-- The value has the property, whatever has been noted. -/
def Recasting.Gives (H : α → Prop) (r : Recasting α) : Prop :=
  ∀ n, H (r.run n).1

namespace Recasting.Gives

variable {H : α → Prop} {H' : β → Prop}

theorem pure {a : α} (h : H a) : Gives H (Pure.pure a : Recasting α) :=
  fun _ => h

theorem bind {x : Recasting α} {f : α → Recasting β} (hx : Gives H x) (hf : ∀ a, H a → Gives H' (f a)) :
    Gives H' (x >>= f) :=
  fun n => hf _ (hx n) _

theorem after {x : Recasting α} {f : α → Recasting β} (hf : ∀ a, Gives H' (f a)) : Gives H' (x >>= f) :=
  fun _ => hf _ _

theorem foldlM {f : α → β → Recasting α} {l : List β} (h : ∀ a, H a → ∀ b ∈ l, Gives H (f a b)) {a : α} (start : H a) :
    Gives H (l.foldlM f a) := by
  induction l generalizing a with
  | nil => exact pure start
  | cons b l ih =>
      rw [List.foldlM_cons]
      exact (h a start b List.mem_cons_self).bind fun a' held =>
        ih (fun a held b mem => h a held b (List.mem_cons_of_mem _ mem)) held

end Recasting.Gives

namespace Recast

open Recasting (Blind)

theorem memberCallsWithin_blind (p : Pattern) {handler : String → List String → Recasting (Option String)}
    (h : ∀ method args, Blind (handler method args)) :
    ∀ n c, Blind (memberCallsWithin p handler n c)
  | 0, c => .pure c
  | n + 1, c => by
      unfold memberCallsWithin
      split
      · exact .pure _
      · split
        · exact .pure _
        · refine (h _ _).bind fun replaced => ?_
          split
          · exact memberCallsWithin_blind p h n _
          · exact memberCallsWithin_blind p h n _

theorem replaceMemberCalls_blind (name text : String)
    {handler : String → List String → Recasting (Option String)}
    (h : ∀ method args, Blind (handler method args)) :
    Blind (replaceMemberCalls name handler text) :=
  (memberCallsWithin_blind _ h _ _).bind fun _ => .pure _

theorem recastRouter_blind (text name : String) : Blind (recastRouter text name) := by
  unfold recastRouter
  refine .bind (replaceMemberCalls_blind name text fun method args => ?_) fun text => ?_
  · split
    · exact (Blind.uses _).bind fun _ => .pure _
    · exact (Blind.uses _).bind fun _ => .pure _
    · exact (Blind.warn _).bind fun _ => .pure _
  · dsimp only
    split
    · exact (Blind.uses _).bind fun _ => .pure _
    · exact .pure _

theorem recastRoute_blind (text name : String) : Blind (recastRoute text name) := by
  unfold recastRoute
  extract_lets _ _ _ _ _ _ _ streams queries
  have ends : Blind (streams ()) := by
    unfold streams
    split
    · exact (Blind.warn _).bind fun _ => (Blind.uses _).bind fun _ => .pure _
    · exact .pure _
  have continues : Blind (queries ()) := by
    unfold queries
    split
    · exact (Blind.uses _).bind fun _ => ends
    · exact ends
  split
  · exact (Blind.uses _).bind fun _ => continues
  · exact continues

theorem recastDependency_blind (ctx : RecastContext) (text : String) (dep : String × Injected) :
    Blind (recastDependency ctx text dep) := by
  unfold recastDependency
  dsimp only
  split
  · exact .pure _
  · split
    · exact recastRouter_blind text _
    · exact recastRoute_blind text _
    · exact .pure _
    · refine replaceMemberCalls_blind _ text fun method args => ?_
      split
      · exact .pure _
      · exact (Blind.warn _).bind fun _ => .pure _
    · exact .pure _
    · exact .pure _

theorem recastSubject_blind (state : Table String) (text name : String) :
    Blind (recastSubject state text name) := by
  unfold recastSubject
  extract_lets
  split
  · exact (Blind.warn _).bind fun _ => .pure _
  · exact .pure _

theorem memberUpdate_blind (setter : Option String) (name : String) (c : Cursor) :
    Blind (memberUpdate setter name c) := by
  unfold memberUpdate
  split
  · split
    · exact .pure _
    · exact (Blind.warn _).bind fun _ => .pure _
  · extract_lets call
    clear_value call
    cases call with
    | some found => exact .pure _
    | none =>
        dsimp only
        split
        · exact .pure _
        · split
          · exact .pure _
          · exact (Blind.warn _).bind fun _ => .pure _

theorem stateWritesWithin_blind (state : Table String) (props : List String) :
    ∀ n c, Blind (stateWritesWithin state props n c)
  | 0, c => .pure c
  | n + 1, c => by
      have rest (c : Cursor) := stateWritesWithin_blind state props n c
      unfold stateWritesWithin
      split
      · exact .pure _
      · extract_lets
        split
        · exact rest _
        · split
          · split
            · exact rest _
            · exact rest _
          · refine (memberUpdate_blind _ _ _).bind fun update => ?_
            split
            · exact rest _
            · exact rest _

theorem recastState_blind (state : Table String) (props : List String) (text : String) :
    Blind (recastState state props text) := by
  unfold recastState
  split
  · exact .pure _
  · exact (stateWritesWithin_blind _ _ _ _).bind fun _ => .pure _

/-- The notes do not influence the recast text. -/
theorem body_blind (ctx : RecastContext) (source : String) : Blind (body ctx source) := by
  unfold body
  split
  · exact .pure _
  · extract_lets
    refine (Blind.foldlM (recastDependency_blind ctx) _ _).bind fun text => ?_
    extract_lets
    refine (Blind.foldlM (recastSubject_blind ctx.state) _ _).bind fun text => ?_
    exact (recastState_blind ctx.state ctx.props text).bind fun text => .pure _

/-- What a text is recast into. -/
def text (ctx : RecastContext) (source : String) : String :=
  ((body ctx source).run {}).1

theorem body_run (ctx : RecastContext) (source : String) (n : RecastNotes) :
    ((body ctx source).run n).1 = text ctx source :=
  body_blind ctx source n {}

/-! ### The stages of recasting -/

/-- Recasting up to the subjects. -/
def beforeSubjects (ctx : RecastContext) (source : String) : Recasting String := do
  let text := ["firstValueFrom", "lastValueFrom", "$any"].foldl unwrapCall source
  let text ← ctx.dependencies.foldlM (recastDependency ctx) (replaceAll ".toPromise()" "" text)
  return recastOutputs ctx.outputs text

/-- Recasting up to the refs. -/
def beforeRefs (ctx : RecastContext) (source : String) : Recasting String := do
  let text ← beforeSubjects ctx source
  recastState ctx.state ctx.props (← ctx.subjects.foldlM (recastSubject ctx.state) text)

/-- What is left to do once the refs are recast. -/
def finished (text : String) : String :=
  let text := replaceAll ".bind(this)" "" text
  let text := (.boundary ++ .text "this." ++ .ahead true (.one Pattern.isName) : Pattern).replace "" text
  trimNewlines (unlines (dropBlankRuns false (splitAt '\n' text)))

theorem body_eq {ctx : RecastContext} {source : String} (visible : source ≠ "") :
    body ctx source = (do return finished (ctx.refs.foldl recastRef (← beforeRefs ctx source))) := by
  unfold body beforeRefs beforeSubjects
  simp [visible, finished]

/-! ### Replacements -/

theorem refusal?_eq_some {ctx before : RecastContext} {source : String} {fault : Fault}
    (refused : refusal? ctx source = some (before, fault)) : ∃ refusal, fault = .unreadReplacement refusal := by
  unfold refusal? at refused
  split at refused
  · cases refused
  · obtain ⟨r, -, found⟩ := List.exists_of_findSome?_eq_some refused
    dsimp only at found
    split at found
    · cases found
    · exact ⟨_, (congrArg Prod.snd (Option.some.inj found)).symm⟩

/-! ### Stages and notes -/

theorem beforeSubjects_blind (ctx : RecastContext) (source : String) : Blind (beforeSubjects ctx source) :=
  (Blind.foldlM (recastDependency_blind ctx) _ _).bind fun _ => .pure _

theorem beforeRefs_blind (ctx : RecastContext) (source : String) : Blind (beforeRefs ctx source) := by
  refine (beforeSubjects_blind ctx source).bind fun text => ?_
  exact (Blind.foldlM (recastSubject_blind ctx.state) _ _).bind fun text => recastState_blind _ _ _

end Recast

/-- No name that recasting writes has a backslash, which would begin an escape there. -/
structure RecastContext.Unescaped (ctx : RecastContext) : Prop where
  callbacks : ∀ o ∈ ctx.outputs, '\\' ∉ o.2.toList
  setters : ∀ s ∈ ctx.state, '\\' ∉ s.2.toList
  subjects : ∀ name ∈ ctx.subjects, '\\' ∉ name.toList
  refs : ∀ name ∈ ctx.refs, '\\' ∉ name.toList
  hosts : ∀ r ∈ ctx.elementRefs, '\\' ∉ r.2.toList
  dependencies : ∀ dep ∈ ctx.dependencies, '\\' ∉ dep.1.toList

namespace RecastContext.Unescaped

variable {ctx : RecastContext}

theorem hostRef (unescaped : ctx.Unescaped) {name : String} (plain : '\\' ∉ name.toList) :
    '\\' ∉ (Recast.hostRef ctx name).toList := by
  unfold Recast.hostRef
  cases found : ctx.elementRefs.get? name with
  | none => exact plain
  | some ref => exact unescaped.hosts _ (Table.mem_of_get? found)

theorem replacements (unescaped : ctx.Unescaped) :
    ∀ r ∈ Recast.replacements ctx, '\\' ∉ r.2.toList := by
  intro r mem
  simp only [Recast.replacements, List.mem_append, List.mem_filterMap, List.mem_flatMap, List.mem_map] at mem
  obtain ((⟨⟨⟨name, injected⟩, i⟩, dep, host⟩ | ⟨o, output, rfl⟩) | ⟨⟨name, i⟩, subject, written⟩) |
    ⟨name, ref, rfl⟩ := mem
  · have plain := unescaped.hostRef (unescaped.dependencies _ (List.fst_mem_of_mem_zipIdx dep))
    dsimp only at host
    split at host
    · cases host
      simpa using plain
    · cases host
  · simpa using unescaped.callbacks o output
  · have plain := unescaped.subjects name (List.fst_mem_of_mem_zipIdx subject)
    dsimp only at written
    obtain ⟨setter, held, rfl⟩ | last := written
    · have found := (Option.filter_eq_some_iff.mp (Option.mem_toList.mp held)).1
      simpa using unescaped.setters _ (Table.mem_of_get? found)
    · obtain rfl := List.mem_singleton.mp last
      simpa using plain
  · simpa using unescaped.refs name ref

/-- Then every replacement can be read. -/
theorem refusal?_eq_none (unescaped : ctx.Unescaped) (source : String) : Recast.refusal? ctx source = none := by
  unfold Recast.refusal?
  split
  · rfl
  · refine List.findSome?_eq_none_iff.mpr fun ⟨before, replacement⟩ mem => ?_
    dsimp only
    rw [Replacement.read_plain (unescaped.replacements _ mem)]

end RecastContext.Unescaped

end ReactMigration
