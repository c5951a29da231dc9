import Mathlib.Data.List.Nodup
import Mathlib.Data.List.Perm.Basic
import Mathlib.Logic.Relation

/-!
A pool of workers.

Jobs are handed out in order of submission, never more at a time than there are workers, and finish in
any order.  The results are read in order of submission once all jobs have finished; no schedule shows
in them.
-/

namespace ReactMigration

open Relation (ReflTransGen)

variable {α β : Type}

/-- Jobs by position: those that wait, those being worked on, and the results in order of finishing. -/
structure Pool (β : Type) where
  waiting : List Nat
  running : List Nat := []
  finished : List (Nat × β) := []

namespace Pool

def start (jobs : List α) : Pool β :=
  { waiting := List.range jobs.length }

/-- A worker that is free takes the next job, or a job that is being worked on finishes. -/
inductive Step (workers : Nat) (jobs : List α) (task : α → β) : Pool β → Pool β → Prop
  | take {i : Nat} {waiting running : List Nat} {finished : List (Nat × β)}
      (free : running.length < workers) :
      Step workers jobs task ⟨i :: waiting, running, finished⟩ ⟨waiting, running ++ [i], finished⟩
  | finish {i : Nat} {waiting before after : List Nat} {finished : List (Nat × β)} {job : α}
      (given : jobs[i]? = some job) :
      Step workers jobs task ⟨waiting, before ++ i :: after, finished⟩
        ⟨waiting, before ++ after, finished ++ [(i, task job)]⟩

/-- Some schedule finishes all jobs, and these are the results in order of submission. -/
def Delivers (workers : Nat) (jobs : List α) (task : α → β) (results : List β) : Prop :=
  ∃ pool : Pool β, ReflTransGen (Step workers jobs task) (start jobs) pool ∧
    pool.waiting = [] ∧ pool.running = [] ∧
    (List.range jobs.length).map (fun i => pool.finished.lookup i) = results.map some

/-! ### What every schedule keeps -/

/-- Each job is in one place, and each result is that of its job. -/
structure Keeps (jobs : List α) (task : α → β) (pool : Pool β) : Prop where
  positions : (pool.waiting ++ pool.running ++ pool.finished.map Prod.fst).Perm
    (List.range jobs.length)
  results : ∀ entry ∈ pool.finished, ∃ job, jobs[entry.1]? = some job ∧ entry.2 = task job

variable {workers : Nat} {jobs : List α} {task : α → β}

theorem Keeps.start (jobs : List α) (task : α → β) : Keeps jobs task (Pool.start jobs) := by
  refine ⟨?_, fun _ mem => by cases mem⟩
  simp [Pool.start]

theorem Keeps.step {pool pool' : Pool β} (h : pool.Keeps jobs task)
    (step : Step workers jobs task pool pool') : pool'.Keeps jobs task := by
  cases step with
  | @take i waiting running finished free =>
      refine ⟨List.Perm.trans ?_ h.positions, h.results⟩
      apply List.perm_iff_count.mpr
      intro j
      simp only [List.count_append, List.count_cons, List.count_nil]
      omega
  | @finish i waiting before after finished job given =>
      refine ⟨List.Perm.trans ?_ h.positions, ?_⟩
      · apply List.perm_iff_count.mpr
        intro j
        simp only [List.map_append, List.map_cons, List.map_nil, List.count_append, List.count_cons,
          List.count_nil]
        omega
      · intro entry mem
        rcases List.mem_append.mp mem with old | last
        · exact h.results entry old
        · rw [List.mem_singleton.mp last]
          exact ⟨job, given, rfl⟩

theorem Keeps.run {pool pool' : Pool β} (h : pool.Keeps jobs task)
    (run : ReflTransGen (Step workers jobs task) pool pool') : pool'.Keeps jobs task := by
  induction run with
  | refl => exact h
  | tail _ step ih => exact ih.step step

theorem Keeps.given {pool : Pool β} (h : pool.Keeps jobs task) {i : Nat}
    (mem : i ∈ pool.waiting ++ pool.running ++ pool.finished.map Prod.fst) :
    ∃ job, jobs[i]? = some job := by
  have bound := List.mem_range.mp (h.positions.mem_iff.mp mem)
  exact ⟨jobs[i], List.getElem?_eq_getElem bound⟩

theorem Keeps.lookup {pool : Pool β} (h : pool.Keeps jobs task) (waiting : pool.waiting = [])
    (running : pool.running = []) {i : Nat} {job : α} (given : jobs[i]? = some job) :
    pool.finished.lookup i = some (task job) := by
  have bound : i < jobs.length := (List.getElem?_eq_some_iff.mp given).1
  have done : i ∈ pool.finished.map Prod.fst := by
    have mem := h.positions.mem_iff.mpr (List.mem_range.mpr bound)
    simpa [waiting, running] using mem
  cases found : pool.finished.lookup i with
  | none =>
      obtain ⟨entry, mem, same⟩ := List.mem_map.mp done
      have other := List.lookup_eq_none_iff.mp found entry mem
      simp [same] at other
  | some b =>
      obtain ⟨before, after, split, _⟩ := List.lookup_eq_some_iff.mp found
      have mem : (i, b) ∈ pool.finished := by simp [split]
      obtain ⟨job', given', value⟩ := h.results _ mem
      rw [given] at given'
      cases given'
      exact congrArg some value

theorem Keeps.read {pool : Pool β} (h : pool.Keeps jobs task) (waiting : pool.waiting = [])
    (running : pool.running = []) :
    (List.range jobs.length).map (fun i => pool.finished.lookup i) = (jobs.map task).map some := by
  apply List.ext_getElem
  · simp
  · intro i bound _
    have bound : i < jobs.length := by simpa using bound
    simpa using h.lookup waiting running (List.getElem?_eq_getElem bound)

/-- The results do not depend on the schedule. -/
theorem Delivers.eq {results : List β} (h : Delivers workers jobs task results) :
    results = jobs.map task := by
  obtain ⟨pool, run, waiting, running, read⟩ := h
  have each := ((Keeps.start jobs task).run run).read waiting running
  exact List.map_injective_iff.mpr (fun _ _ => Option.some.inj) (read.symm.trans each)

/-! ### Every schedule comes to an end -/

/-- How many steps are left. -/
def left (pool : Pool β) : Nat :=
  2 * pool.waiting.length + pool.running.length

theorem Step.shortens {pool pool' : Pool β} (step : Step workers jobs task pool pool') :
    pool'.left < pool.left := by
  cases step with
  | take free =>
      simp only [left, List.length_cons, List.length_append, List.length_nil]
      omega
  | finish given =>
      simp only [left, List.length_cons, List.length_append]
      omega

/-- While jobs are left, a pool with a worker can go on. -/
theorem Keeps.progress {pool : Pool β} (h : pool.Keeps jobs task) (manned : 0 < workers)
    (more : ¬(pool.waiting = [] ∧ pool.running = [])) :
    ∃ pool', Step workers jobs task pool pool' := by
  obtain ⟨waiting, running, finished⟩ := pool
  cases running with
  | cons i running =>
      obtain ⟨job, given⟩ := h.given (i := i) (by simp)
      have step : Step workers jobs task ⟨waiting, [] ++ i :: running, finished⟩
          ⟨waiting, [] ++ running, finished ++ [(i, task job)]⟩ := .finish given
      exact ⟨_, step⟩
  | nil =>
      cases waiting with
      | nil => exact absurd ⟨rfl, rfl⟩ more
      | cons i waiting => exact ⟨_, .take manned⟩

theorem Keeps.ends {pool : Pool β} (h : pool.Keeps jobs task) (manned : 0 < workers) :
    ∃ pool', ReflTransGen (Step workers jobs task) pool pool' ∧ pool'.waiting = [] ∧
      pool'.running = [] := by
  -- by induction on the steps that are left, which every step shortens
  induction measure : pool.left using Nat.strongRecOn generalizing pool with
  | _ n ih =>
      by_cases done : pool.waiting = [] ∧ pool.running = []
      · exact ⟨pool, .refl, done⟩
      · obtain ⟨next, step⟩ := h.progress manned done
        have shorter : next.left < n := measure ▸ step.shortens
        obtain ⟨last, rest, empty⟩ := ih next.left shorter (h.step step) rfl
        exact ⟨last, rest.head step, empty⟩

theorem delivers_iff (manned : 0 < workers) {results : List β} :
    Delivers workers jobs task results ↔ results = jobs.map task := by
  refine ⟨Delivers.eq, ?_⟩
  rintro rfl
  obtain ⟨pool, run, waiting, running⟩ := (Keeps.start jobs task).ends manned
  exact ⟨pool, run, waiting, running, ((Keeps.start jobs task).run run).read waiting running⟩

end Pool

end ReactMigration
