import ReactMigration.Proofs.RefPasses
import ReactMigration.Proofs.SubjectPasses

/-!
The order in which subjects and refs are enumerated.

On a text in which the keyword never stands behind a dollar sign or a dot, the passes for two subjects, or
for two refs of which neither can be taken for the start of the other, change places.  So the text and the
hooks do not depend on the order, and the warnings about streams follow that of the subjects.
-/

namespace ReactMigration

variable {α β : Type}

/-- Warnings are put behind those that have been noted before. -/
def Recasting.Adds (r : Recasting α) : Prop :=
  ∀ hooks, ∃ a hooks' added, ∀ warnings, r.run ⟨hooks, warnings⟩ = (a, ⟨hooks', warnings ++ added⟩)

namespace Recasting.Adds

theorem pure (a : α) : Adds (Pure.pure a : Recasting α) :=
  fun hooks => ⟨a, hooks, [], fun warnings => by simp; rfl⟩

theorem bind {x : Recasting α} {f : α → Recasting β} (hx : Adds x) (hf : ∀ a, Adds (f a)) : Adds (x >>= f) := by
  intro hooks
  obtain ⟨a, hooks₁, added, first⟩ := hx hooks
  obtain ⟨b, hooks₂, added', second⟩ := hf a hooks₁
  refine ⟨b, hooks₂, added ++ added', fun warnings => ?_⟩
  rw [StateT.run_bind, first, ← List.append_assoc]
  exact second _

theorem warn (message : String) : Adds (Recasting.warn message) :=
  fun hooks => ⟨(), hooks, [message], fun _ => rfl⟩

end Recasting.Adds

namespace Recast

open ReactMigration.Text
open Recasting (Adds Blind)

theorem memberUpdate_adds (setter : Option String) (name : String) (c : Cursor) :
    Adds (memberUpdate setter name c) := by
  unfold memberUpdate
  split
  · split
    · exact .pure _
    · exact (Adds.warn _).bind fun _ => .pure _
  · extract_lets call
    clear_value call
    cases call with
    | some found => exact .pure _
    | none =>
        dsimp only
        split
        · exact .pure _
        · split
          · exact .pure _
          · exact (Adds.warn _).bind fun _ => .pure _

theorem stateWritesWithin_adds (state : Table String) (props : List String) :
    ∀ n c, Adds (stateWritesWithin state props n c)
  | 0, c => .pure c
  | n + 1, c => by
      have rest (c : Cursor) := stateWritesWithin_adds state props n c
      unfold stateWritesWithin
      split
      · exact .pure _
      · extract_lets
        split
        · exact rest _
        · split
          · split
            · exact rest _
            · exact rest _
          · refine (memberUpdate_adds _ _ _).bind fun update => ?_
            split
            · exact rest _
            · exact rest _

theorem recastState_adds (state : Table String) (props : List String) (text : String) :
    Adds (recastState state props text) := by
  unfold recastState
  split
  · exact .pure _
  · exact (stateWritesWithin_adds _ _ _ _).bind fun _ => .pure _

/-! ### Any order -/

/-- The names and the texts that the subjects and the refs are looked for in leave no choice. -/
structure Enumerable (ctx : RecastContext) (source : String) : Prop where
  subjects : SubjectNames ctx.state ctx.subjects
  refs : RefNames ctx.refs
  clean : Clean ((beforeSubjects ctx source).run {}).1.toList
  tidy : Tidy ((beforeSubjects ctx source).run {}).1.toList
  settled : Clean ((beforeRefs ctx source).run {}).1.toList

/-- The order of subjects and refs does not change the text and the hooks, and the warnings about streams
follow that of the subjects. -/
theorem body_enumerated {ctx : RecastContext} {source : String} (enumerable : Enumerable ctx source)
    (n : RecastNotes) : ∃ text hooks before after, ∃ streamed : String → Bool,
      ∀ subjects refs : List String, subjects.Perm ctx.subjects → refs.Perm ctx.refs →
        (body { ctx with subjects := subjects, refs := refs } source).run n =
          (text, ⟨hooks, before ++ (subjects.filter streamed).map streamWarning ++ after⟩) := by
  by_cases visible : source = ""
  · refine ⟨"", n.uses, n.warnings, [], fun _ => false, fun subjects refs _ _ => ?_⟩
    subst visible
    simp [body]
    rfl
  · obtain ⟨text₁, n₁, ran₁⟩ : ∃ text₁ n₁, (beforeSubjects ctx source).run n = (text₁, n₁) := ⟨_, _, rfl⟩
    have same₁ : ((beforeSubjects ctx source).run {}).1 = text₁ := by
      rw [beforeSubjects_blind ctx source {} n, ran₁]
    have clean := enumerable.clean
    have tidy := enumerable.tidy
    rw [same₁] at clean tidy
    obtain ⟨text₂, streamed, ran₂⟩ := foldlM_recastSubject_perm enumerable.subjects clean tidy n₁
    obtain ⟨text₃, hooks, added, ran₃⟩ := recastState_adds ctx.state ctx.props text₂ n₁.uses
    have ran (subjects refs : List String) (perm : subjects.Perm ctx.subjects) :
        (beforeRefs { ctx with subjects := subjects, refs := refs } source).run n =
          (text₃, ⟨hooks, n₁.warnings ++ (subjects.filter streamed).map streamWarning ++ added⟩) := by
      have start : beforeSubjects { ctx with subjects := subjects, refs := refs } source =
          beforeSubjects ctx source := rfl
      unfold beforeRefs
      rw [start, StateT.run_bind, ran₁]
      change (subjects.foldlM (recastSubject ctx.state) text₁ >>= fun text =>
        recastState ctx.state ctx.props text).run n₁ = _
      rw [StateT.run_bind, ran₂ subjects perm]
      exact ran₃ _
    have same₃ : ((beforeRefs ctx source).run {}).1 = text₃ := by
      rw [beforeRefs_blind ctx source {} n]
      exact congrArg Prod.fst (ran ctx.subjects ctx.refs (.refl _))
    have settled := enumerable.settled
    rw [same₃] at settled
    refine ⟨finished (ctx.refs.foldl recastRef text₃), hooks, n₁.warnings, added, streamed,
      fun subjects refs perm perm' => ?_⟩
    rw [body_eq visible, StateT.run_bind, ran subjects refs perm,
      foldl_recastRef_perm perm'.symm enumerable.refs settled]
    rfl

/-- A component with two subjects, of which one is used as a stream, and two refs. -/
def panel : RecastContext :=
  { state := [("a$", "setA")], subjects := ["a$", "b"], refs := ["x", "y"] }

def panelSource : String :=
  "this.b.pipe(this.a$.next(this.x = this.y))"

theorem beforeSubjects_panel : ((beforeSubjects panel panelSource).run {}).1 = panelSource := by decide +kernel

theorem beforeRefs_panel : ((beforeRefs panel panelSource).run {}).1 = "this.b.pipe(setA(this.x = this.y))" := by
  decide +kernel

theorem panel_enumerable : Enumerable panel panelSource where
  subjects := by
    refine ⟨by decide, ?_, ?_⟩
    · intro name mem
      obtain rfl | rfl : name = "a$" ∨ name = "b" := by simpa [panel] using mem
      · exact ⟨List.all_eq_true.mp (by decide), by decide⟩
      · exact ⟨List.all_eq_true.mp (by decide), by decide⟩
    · intro name mem setter known
      obtain rfl | rfl : name = "a$" ∨ name = "b" := by simpa [panel] using mem
      · obtain rfl : "setA" = setter :=
          Option.some.inj ((by decide : some "setA" = panel.state.get? "a$").trans known)
        exact List.all_eq_true.mp (by decide)
      · exact absurd known (by decide +revert)
  refs := by
    refine ⟨?_, by decide⟩
    intro ref mem
    obtain rfl | rfl : ref = "x" ∨ ref = "y" := by simpa [panel] using mem
    · exact ⟨by decide, List.all_eq_true.mp (by decide), by decide⟩
    · exact ⟨by decide, List.all_eq_true.mp (by decide), by decide⟩
  clean := by
    rw [beforeSubjects_panel]
    decide +kernel
  tidy := by
    rw [beforeSubjects_panel]
    decide +kernel
  settled := by
    rw [beforeRefs_panel]
    decide +kernel

theorem panel_enumerated : ∃ text hooks before after, ∃ streamed : String → Bool,
    ∀ subjects refs : List String, subjects.Perm panel.subjects → refs.Perm panel.refs →
      (body { panel with subjects := subjects, refs := refs } panelSource).run {} =
        (text, ⟨hooks, before ++ (subjects.filter streamed).map streamWarning ++ after⟩) :=
  body_enumerated panel_enumerable {}

/-- Of two refs the shorter one is found in the longer one if it comes first, and two streams are warned about
in the order of the subjects. -/
theorem orders_differ :
    ((body { refs := ["el", "el$"] } "this.el$.x").run {}).1 ≠ ((body { refs := ["el$", "el"] } "this.el$.x").run {}).1 ∧
      ((body { subjects := ["a", "b"] } "this.a.pipe(this.b.pipe(1))").run {}).2 ≠
        ((body { subjects := ["b", "a"] } "this.a.pipe(this.b.pipe(1))").run {}).2 := by
  decide +kernel

end Recast

end ReactMigration
