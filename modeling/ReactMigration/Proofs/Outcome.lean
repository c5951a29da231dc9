import Mathlib.Data.List.Forall2
import Mathlib.Logic.Relation
import ReactMigration.Conversion.Draft
import ReactMigration.Model.TemplateScope

/-!
Reasoning about work that notes diagnostics and may break off.

`Ensures` speaks about every outcome at once: whether the work ends or breaks off, its remarks stay
with the unit it was started for, and a value that it gives has the stated property.  `Runs` is the
same for work with a state, and `Moves` says how such work can change its state.
-/

namespace ReactMigration

variable {α β σ ε : Type}

theorem ok_of_bind {x : Except ε α} {f : α → Except ε β} {b : β} (h : x >>= f = .ok b) :
    ∃ a, x = .ok a ∧ f a = .ok b := by
  cases x with
  | error e => cases h
  | ok a => exact ⟨a, rfl, h⟩

theorem mapM_eq_ok {f : α → Except ε β} :
    ∀ {l : List α} {bs : List β}, l.mapM f = .ok bs → List.Forall₂ (fun a b => f a = .ok b) l bs
  | [], bs, h => by
      rw [List.mapM_nil] at h
      cases h
      exact .nil
  | a :: l, bs, h => by
      rw [List.mapM_cons] at h
      obtain ⟨b, first, h⟩ := ok_of_bind h
      obtain ⟨bs', rest, h⟩ := ok_of_bind h
      cases h
      exact .cons first (mapM_eq_ok rest)

theorem mapM_ok {f : α → Except ε β} :
    ∀ {l : List α}, (∀ a ∈ l, ∃ b, f a = .ok b) → ∃ bs, l.mapM f = .ok bs
  | [], _ => ⟨[], rfl⟩
  | a :: l, h => by
      obtain ⟨b, first⟩ := h a List.mem_cons_self
      obtain ⟨bs, rest⟩ := mapM_ok fun a' ha' => h a' (List.mem_cons_of_mem a ha')
      refine ⟨b :: bs, ?_⟩
      rw [List.mapM_cons, first, rest]
      rfl

theorem mem_right_of_forall₂ {R : α → β → Prop} {l : List α} {bs : List β} (h : List.Forall₂ R l bs)
    {a : α} (ha : a ∈ l) : ∃ b ∈ bs, R a b := by
  induction h with
  | nil => cases ha
  | cons here _ ih =>
      rcases List.mem_cons.mp ha with rfl | later
      · exact ⟨_, List.mem_cons_self, here⟩
      · obtain ⟨b, hb, hr⟩ := ih later
        exact ⟨b, List.mem_cons_of_mem _ hb, hr⟩

/-! ### Remarks about one unit -/

namespace Sink

/-- All remarks are about the unit. -/
def Own (s : Sink) : Prop :=
  ∀ d ∈ s.items, d.unit = s.unit

/-- The second sink stands for the same unit, and only remarks about that unit were added. -/
structure Continues (s s' : Sink) : Prop where
  unit : s'.unit = s.unit
  own : s.Own → s'.Own

theorem Continues.refl (s : Sink) : s.Continues s :=
  ⟨rfl, id⟩

theorem Continues.trans {s s' s'' : Sink} (h : s.Continues s') (h' : s'.Continues s'') :
    s.Continues s'' :=
  ⟨h'.unit.trans h.unit, fun own => h'.own (h.own own)⟩

theorem Own.concat {s : Sink} (own : s.Own) {d : Diagnostic} (here : d.unit = s.unit) :
    Sink.Own { s with items := s.items ++ [d] } := by
  intro d' mem
  rcases List.mem_append.mp mem with old | last
  · exact own d' old
  · rw [List.mem_singleton.mp last]
    exact here

theorem continues_add (s : Sink) (severity : Severity) (code : DiagnosticCode) (message : String)
    (line column : Option Int) : s.Continues (s.add severity code message line column) :=
  ⟨rfl, fun own => own.concat rfl⟩

theorem continues_record (s : Sink) (f : Finding) : s.Continues (s.record f) :=
  ⟨rfl, fun own => own.concat rfl⟩

end Sink

/-! ### Work that notes diagnostics -/

/-- The work keeps to its unit, and a value that it gives has the property. -/
def Noting.Ensures (x : Noting α) (P : α → Prop) : Prop :=
  ∀ s : Sink, s.Continues (x.run.run s).2 ∧ ∀ a, (x.run.run s).1 = .ok a → P a

namespace Noting.Ensures

variable {P Q : α → Prop} {x : Noting α}

theorem mono (h : x.Ensures P) (imp : ∀ a, P a → Q a) : x.Ensures Q := by
  intro s
  exact ⟨(h s).1, fun a ha => imp a ((h s).2 a ha)⟩

theorem and (hp : x.Ensures P) (hq : x.Ensures Q) : x.Ensures fun a => P a ∧ Q a :=
  fun s => ⟨(hp s).1, fun a run => ⟨(hp s).2 a run, (hq s).2 a run⟩⟩

theorem pure {a : α} (h : P a) : (Pure.pure a : Noting α).Ensures P := by
  intro s
  refine ⟨.refl s, fun b hb => ?_⟩
  cases hb
  exact h

theorem throw (f : Fault) : (MonadExcept.throw f : Noting α).Ensures P := by
  intro s
  refine ⟨.refl s, fun b hb => ?_⟩
  cases hb

/-- What follows runs from a value with the first property. -/
theorem bind {f : α → Noting β} {R : β → Prop} (hx : x.Ensures P)
    (hf : ∀ a, P a → (f a).Ensures R) : (x >>= f).Ensures R := by
  intro s
  obtain ⟨unit, value⟩ := hx s
  simp only [ExceptT.run_bind, StateT.run_bind]
  rcases hr : x.run.run s with ⟨r, s'⟩
  rw [hr] at unit value
  cases r with
  | error f =>
      refine ⟨unit, fun b hb => ?_⟩
      cases hb
  | ok a =>
      have next := hf a (value a rfl) s'
      exact ⟨unit.trans next.1, next.2⟩

theorem lift {r : Except Fault α} (h : ∀ a, r = .ok a → P a) : (Noting.lift r).Ensures P := by
  cases r with
  | error f => exact throw f
  | ok a => exact pure (h a rfl)

theorem modify {f : Sink → Sink} (continues : ∀ s : Sink, s.Continues (f s)) :
    (modify f : Noting PUnit).Ensures fun _ => True := by
  intro s
  exact ⟨continues s, fun _ _ => trivial⟩

theorem warnAt (code : DiagnosticCode) (message : String) (line column : Option Int) :
    (Noting.warnAt code message line column).Ensures fun _ => True :=
  modify fun s => s.continues_add _ _ _ _ _

theorem warn (code : DiagnosticCode) (message : String) :
    (Noting.warn code message).Ensures fun _ => True :=
  warnAt code message none none

/-- Work on each entry gives one value for it. -/
theorem mapM {f : α → Noting β} {R : α → β → Prop} :
    ∀ {l : List α}, (∀ a ∈ l, (f a).Ensures (R a)) →
      (l.mapM f).Ensures fun bs => List.Forall₂ R l bs
  | [], _ => by
      simp only [List.mapM_nil]
      exact pure .nil
  | a :: l, h => by
      simp only [List.mapM_cons]
      refine (h a List.mem_cons_self).bind fun b hb => ?_
      refine (mapM fun a' ha' => h a' (List.mem_cons_of_mem a ha')).bind fun bs hbs => ?_
      exact pure (.cons hb hbs)

theorem mapM_all {f : α → Noting β} {R : β → Prop} {l : List α} (h : ∀ a ∈ l, (f a).Ensures R) :
    (l.mapM f).Ensures fun bs => ∀ b ∈ bs, R b := by
  refine (mapM (R := fun _ b => R b ∧ True) fun a ha => (h a ha).mono fun _ hb => ⟨hb, trivial⟩).mono ?_
  exact fun bs hbs => ((List.forall₂_and_left bs l).mp hbs.flip).1

theorem forM {f : α → Noting PUnit} :
    ∀ {l : List α}, (∀ a ∈ l, (f a).Ensures fun _ => True) → (l.forM f).Ensures fun _ => True
  | [], _ => pure trivial
  | a :: _, h =>
      (h a List.mem_cons_self).bind fun _ _ =>
        forM fun a' ha' => h a' (List.mem_cons_of_mem a ha')

/-- What each turn keeps, about the entries that have had their turn, holds at the end for all. -/
theorem foldlM {f : β → α → Noting β} {I : List α → β → Prop}
    (step : ∀ done b a, I done b → (f b a).Ensures (I (done ++ [a]))) :
    ∀ (l done : List α) {b : β}, I done b → (l.foldlM f b).Ensures (I (done ++ l))
  | [], done, _, hb => by
      simp only [List.foldlM_nil, List.append_nil]
      exact pure hb
  | a :: l, done, b, hb => by
      simp only [List.foldlM_cons]
      refine (step done b a hb).bind fun b' hb' => ?_
      simpa using foldlM step l (done ++ [a]) hb'

end Noting.Ensures

/-! ### Work with a state -/

/-- From the state, the work keeps to its unit, and what it gives and leaves has the property. -/
def Runs (m : StateT σ Noting α) (s : σ) (Q : α → σ → Prop) : Prop :=
  (m.run s).Ensures fun r => Q r.1 r.2

namespace Runs

variable {m : StateT σ Noting α} {s : σ} {Q Q' : α → σ → Prop}

theorem mono (h : Runs m s Q) (imp : ∀ a s', Q a s' → Q' a s') : Runs m s Q' :=
  Noting.Ensures.mono h fun r => imp r.1 r.2

theorem pure {a : α} (h : Q a s) : Runs (Pure.pure a) s Q :=
  Noting.Ensures.pure h

theorem bind {f : α → StateT σ Noting β} {R : β → σ → Prop} (hm : Runs m s Q)
    (hf : ∀ a s', Q a s' → Runs (f a) s' R) : Runs (m >>= f) s R := by
  simp only [Runs, StateT.run_bind]
  exact Noting.Ensures.bind hm fun r hr => hf r.1 r.2 hr

theorem get_bind {f : σ → StateT σ Noting β} {R : β → σ → Prop} (h : Runs (f s) s R) :
    Runs (MonadState.get >>= f) s R :=
  Noting.Ensures.bind (P := fun r => r = (s, s)) (.pure rfl) fun _ same => same ▸ h

theorem modify_bind {g : σ → σ} {f : PUnit → StateT σ Noting β} {R : β → σ → Prop}
    (h : Runs (f ⟨⟩) (g s) R) : Runs (modify g >>= f) s R :=
  Noting.Ensures.bind (P := fun r => r = (⟨⟩, g s)) (.pure rfl) fun _ same => same ▸ h

theorem get {Q : σ → σ → Prop} (h : Q s s) : Runs (MonadState.get : StateT σ Noting σ) s Q :=
  Noting.Ensures.pure h

theorem modify {f : σ → σ} {Q : PUnit → σ → Prop} (h : Q ⟨⟩ (f s)) :
    Runs (modify f : StateT σ Noting PUnit) s Q :=
  Noting.Ensures.pure h

theorem throw (f : Fault) : Runs (MonadExcept.throw f : StateT σ Noting α) s Q := by
  intro t
  refine ⟨.refl t, fun r hr => ?_⟩
  cases hr

theorem lifted {x : Noting α} (h : x.Ensures fun a => Q a s) :
    Runs (liftM x : StateT σ Noting α) s Q :=
  Noting.Ensures.bind h fun _ ha => Noting.Ensures.pure ha

theorem lifted_bind {x : Noting α} {P : α → Prop} {f : α → StateT σ Noting β} {R : β → σ → Prop}
    (hx : x.Ensures P) (hf : ∀ a, P a → Runs (f a) s R) : Runs (liftM x >>= f) s R := by
  refine (lifted (Q := fun a s' => P a ∧ s' = s) (hx.mono fun a ha => ⟨ha, rfl⟩)).bind ?_
  rintro a s' ⟨ha, rfl⟩
  exact hf a ha

theorem mapM {f : α → StateT σ Noting β} {I : σ → Prop} {R : α → β → Prop} :
    ∀ {l : List α} {s : σ}, I s → (∀ a ∈ l, ∀ s, I s → Runs (f a) s fun b s' => I s' ∧ R a b) →
      Runs (l.mapM f) s fun bs s' => I s' ∧ List.Forall₂ R l bs
  | [], _, hs, _ => by
      simp only [List.mapM_nil]
      exact pure ⟨hs, .nil⟩
  | a :: l, s, hs, h => by
      simp only [List.mapM_cons]
      refine (h a List.mem_cons_self s hs).bind fun b s₁ hb => ?_
      refine (mapM hb.1 fun a' ha' => h a' (List.mem_cons_of_mem a ha')).bind fun bs s₂ hbs => ?_
      exact pure ⟨hbs.1, .cons hb.2 hbs.2⟩

theorem forM {f : α → StateT σ Noting PUnit} {I : σ → Prop} :
    ∀ {l : List α} {s : σ}, I s → (∀ a ∈ l, ∀ s, I s → Runs (f a) s fun _ s' => I s') →
      Runs (l.forM f) s fun _ s' => I s'
  | [], _, hs, _ => pure hs
  | a :: _, s, hs, h =>
      (h a List.mem_cons_self s hs).bind fun _ _ hs' =>
        forM hs' fun a' ha' => h a' (List.mem_cons_of_mem a ha')

end Runs

/-! ### Steps of the state -/

/-- The work changes its state by steps of the relation alone. -/
def Moves (R : σ → σ → Prop) (m : StateT σ Noting α) : Prop :=
  ∀ s, Runs m s fun _ s' => Relation.ReflTransGen R s s'

namespace Moves

open Relation (ReflTransGen)

variable {R : σ → σ → Prop} {m : StateT σ Noting α}

theorem pure (a : α) : Moves R (Pure.pure a : StateT σ Noting α) :=
  fun _ => .pure .refl

/-- What follows may rely on a property of the value. -/
theorem bindOf {f : α → StateT σ Noting β} {P : α → Prop}
    (hm : ∀ s, Runs m s fun a s' => ReflTransGen R s s' ∧ P a) (hf : ∀ a, P a → Moves R (f a)) :
    Moves R (m >>= f) :=
  fun s => (hm s).bind fun a s' h => (hf a h.2 s').mono fun _ _ more => h.1.trans more

theorem bind {f : α → StateT σ Noting β} (hm : Moves R m) (hf : ∀ a, Moves R (f a)) :
    Moves R (m >>= f) :=
  fun s => (hm s).bind fun a s' h => (hf a s').mono fun _ _ more => h.trans more

/-- Work that moves the state does so from a state that a step has led to. -/
theorem after {s s' : σ} (hm : Moves R m) (step : R s s') :
    Runs m s' fun _ s'' => ReflTransGen R s s'' :=
  (hm s').mono fun _ _ more => .head step more

theorem throw (f : Fault) : Moves R (MonadExcept.throw f : StateT σ Noting α) :=
  fun _ => .throw f

theorem get : Moves R (MonadState.get : StateT σ Noting σ) :=
  fun _ => .get .refl

theorem modify {f : σ → σ} (h : ∀ s, ReflTransGen R s (f s)) :
    Moves R (modify f : StateT σ Noting PUnit) :=
  fun s => .modify (h s)

theorem lifted {x : Noting α} (h : x.Ensures fun _ => True) :
    Moves R (liftM x : StateT σ Noting α) :=
  fun _ => .lifted (h.mono fun _ _ => .refl)

/-- The value of work that notes nothing is known to be its result. -/
theorem lift_bind {r : Except Fault α} {f : α → StateT σ Noting β}
    (hf : ∀ a, r = .ok a → Moves R (f a)) : Moves R (liftM (Noting.lift r) >>= f) :=
  bindOf (fun _ => .lifted (.lift fun _ ha => ⟨.refl, ha⟩)) hf

theorem mapM {f : α → StateT σ Noting β} :
    ∀ {l : List α}, (∀ a ∈ l, Moves R (f a)) → Moves R (l.mapM f)
  | [], _ => by
      simp only [List.mapM_nil]
      exact pure []
  | a :: l, h => by
      simp only [List.mapM_cons]
      refine (h a List.mem_cons_self).bind fun b => ?_
      refine (mapM fun a' ha' => h a' (List.mem_cons_of_mem a ha')).bind fun bs => ?_
      exact pure (b :: bs)

theorem forM {f : α → StateT σ Noting PUnit} :
    ∀ {l : List α}, (∀ a ∈ l, Moves R (f a)) → Moves R (l.forM f)
  | [], _ => pure PUnit.unit
  | a :: _, h =>
      (h a List.mem_cons_self).bind fun _ => forM fun a' ha' => h a' (List.mem_cons_of_mem a ha')

theorem foldlM {f : β → α → StateT σ Noting β} :
    ∀ {l : List α} {b : β}, (∀ b, ∀ a ∈ l, Moves R (f b a)) → Moves R (l.foldlM f b)
  | [], b, _ => pure b
  | a :: l, b, h => by
      simp only [List.foldlM_cons]
      exact (h b a List.mem_cons_self).bind fun _ =>
        foldlM fun b a' ha' => h b a' (List.mem_cons_of_mem a ha')

theorem forIn {f : α → β → StateT σ Noting (ForInStep β)} :
    ∀ {l : List α} {b : β}, (∀ a ∈ l, ∀ b, Moves R (f a b)) → Moves R (forIn l b f)
  | [], b, _ => by
      simp only [List.forIn_nil]
      exact pure b
  | a :: l, b, h => by
      simp only [List.forIn_cons]
      refine (h a List.mem_cons_self b).bind fun next => ?_
      cases next with
      | done b => exact pure b
      | yield b => exact forIn fun a' ha' => h a' (List.mem_cons_of_mem a ha')

end Moves

end ReactMigration
