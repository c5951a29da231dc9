import ReactMigration.Proofs.ConstructorStatements
import ReactMigration.Proofs.ParsedFiles
import ReactMigration.Proofs.ReportOrder
import ReactMigration.Proofs.Workers

/-!
Runs on several workers.

A run hands its work to pools twice: the units to be read, in order of their paths, and then the items
to be converted against the index of what was read.  The outputs are put back to their units by
position and merged.  What a dry run gives is the same for every number of workers, every schedule and
every order in which the sources are given.  It is the same for two orders of names if they list the
subjects and refs of every class alike.
-/

namespace ReactMigration

variable {settings : RunSettings} {index : SymbolIndex} {order order' : NameOrder}

/-! ### Jobs -/

/-- An item to be converted, with its unit and the position of the unit. -/
abbrev Job := Nat × Work × WorkItem

namespace Work

def jobsFrom (first : Nat) (works : List Work) : List Job :=
  (works.zipIdx first).flatMap fun (w, position) => w.items.map fun item => (position, w, item)

/-- All items of a run in order of units. -/
def jobs (works : List Work) : List Job :=
  jobsFrom 0 works

/-- The outputs of the jobs at a position. -/
def outputsAt (position : Nat) (done : List (Job × UnitOutput)) : List UnitOutput :=
  done.filterMap fun (job, o) => if job.1 = position then some o else none

/-- The outputs of all jobs, put back to their units. -/
def regroup (works : List Work) (outputs : List UnitOutput) : List (Work × List UnitOutput) :=
  works.zipIdx.map fun (w, position) => (w, outputsAt position ((jobs works).zip outputs))

theorem jobsFrom_cons (first : Nat) (w : Work) (works : List Work) :
    jobsFrom first (w :: works) =
      w.items.map (fun item => (first, w, item)) ++ jobsFrom (first + 1) works := by
  simp [jobsFrom]

theorem outputsAt_append (position : Nat) (done done' : List (Job × UnitOutput)) :
    outputsAt position (done ++ done') = outputsAt position done ++ outputsAt position done' :=
  List.filterMap_append

theorem outputsAt_own (position : Nat) (w : Work) {items : List WorkItem} {outputs : List UnitOutput}
    (full : outputs.length = items.length) :
    outputsAt position ((items.map fun item => (position, w, item)).zip outputs) = outputs := by
  induction items generalizing outputs with
  | nil => simp_all [outputsAt]
  | cons item items ih =>
      cases outputs with
      | nil => simp at full
      | cons o outputs =>
          have rest : outputsAt position
              ((items.map fun item => (position, w, item)).zip outputs) = outputs :=
            ih (by simpa using full)
          simpa [outputsAt] using rest

theorem outputsAt_none {position : Nat} {done : List (Job × UnitOutput)}
    (other : ∀ entry ∈ done, entry.1.1 ≠ position) : outputsAt position done = [] := by
  apply List.filterMap_eq_nil_iff.mpr
  intro entry mem
  exact if_neg (other entry mem)

theorem jobsFrom_position {first : Nat} {works : List Work} {job : Job}
    (mem : job ∈ jobsFrom first works) : first ≤ job.1 := by
  obtain ⟨⟨w, position⟩, listed, mem⟩ := List.mem_flatMap.mp mem
  obtain ⟨item, _, rfl⟩ := List.mem_map.mp mem
  exact (List.mem_zipIdx listed).1

/-- Putting outputs back to their units undoes taking the units apart. -/
theorem outputsAt_jobsFrom {entries : List (Work × List UnitOutput)}
    (full : ∀ entry ∈ entries, entry.2.length = entry.1.items.length) (first : Nat) :
    (entries.zipIdx first).map (fun pair => (pair.1.1, outputsAt pair.2
      ((jobsFrom first (entries.map Prod.fst)).zip (entries.flatMap Prod.snd)))) = entries := by
  induction entries generalizing first with
  | nil => rfl
  | cons entry entries ih =>
      -- the jobs of the first unit come first, and no other unit has their position
      have here := full entry List.mem_cons_self
      have later := ih (fun e mem => full e (List.mem_cons_of_mem entry mem)) (first + 1)
      have split : (jobsFrom first ((entry :: entries).map Prod.fst)).zip
            ((entry :: entries).flatMap Prod.snd) =
          (entry.1.items.map fun item => (first, entry.1, item)).zip entry.2 ++
            (jobsFrom (first + 1) (entries.map Prod.fst)).zip (entries.flatMap Prod.snd) := by
        rw [List.map_cons, jobsFrom_cons, List.flatMap_cons, List.zip_append (by simp [here])]
      rw [split, List.zipIdx_cons, List.map_cons]
      congr 1
      · have none : outputsAt first ((jobsFrom (first + 1) (entries.map Prod.fst)).zip
            (entries.flatMap Prod.snd)) = [] := by
          refine outputsAt_none fun pair mem same => ?_
          have bound := jobsFrom_position (List.of_mem_zip mem).1
          omega
        rw [outputsAt_append, outputsAt_own first entry.1 here, none, List.append_nil]
      · refine Eq.trans (List.map_congr_left fun pair mem => ?_) later
        have bound := (List.mem_zipIdx mem).1
        have none : outputsAt pair.2 ((entry.1.items.map fun item => (first, entry.1, item)).zip
            entry.2) = [] := by
          refine outputsAt_none fun done mem same => ?_
          obtain ⟨item, _, made⟩ := List.mem_map.mp (List.of_mem_zip mem).1
          have position : first = pair.2 := by rw [← same, ← made]
          omega
        rw [outputsAt_append, none, List.nil_append]

theorem regroup_flatMap {entries : List (Work × List UnitOutput)}
    (full : ∀ entry ∈ entries, entry.2.length = entry.1.items.length) :
    regroup (entries.map Prod.fst) (entries.flatMap Prod.snd) = entries := by
  have positions : (entries.map Prod.fst).zipIdx =
      entries.zipIdx.map fun pair => (pair.1.1, pair.2) := by
    simp [List.zipIdx_map, Prod.map]
  unfold regroup
  rw [positions, List.map_map]
  exact outputsAt_jobsFrom full 0

end Work

def convertJob (settings : RunSettings) (index : SymbolIndex) (job : Job) :
    Except Fault UnitOutput :=
  convertItem settings index job.2.1 job.2.2

theorem jobsFrom_convert (works : List Work) (first : Nat) :
    (Work.jobsFrom first works).map (convertJob settings index) =
      works.flatMap fun w => w.items.map (convertItem settings index w) := by
  induction works generalizing first with
  | nil => rfl
  | cons w works ih =>
      rw [Work.jobsFrom_cons, List.map_append, List.map_map, ih, List.flatMap_cons]
      rfl

theorem convertAll_full {works : List Work} {entries : List (Work × List UnitOutput)}
    (converted : convertAll settings index works = .ok entries) :
    ∀ entry ∈ entries, entry.2.length = entry.1.items.length := by
  intro entry mem
  obtain ⟨w, _, made⟩ := mem_right_of_forall₂ (mapM_eq_ok converted).flip mem
  obtain ⟨outputs, each, made⟩ := ok_of_bind made
  cases made
  exact (mapM_eq_ok each).length_eq.symm

/-- Units that can all be converted give their outputs job by job. -/
theorem convertAll_jobs {works : List Work} {entries : List (Work × List UnitOutput)}
    (converted : convertAll settings index works = .ok entries) :
    (Work.jobs works).map (convertJob settings index) = (entries.flatMap Prod.snd).map .ok := by
  have outputs {w : Work} {items : List WorkItem} {os : List UnitOutput}
      (each : List.Forall₂ (fun item o => convertItem settings index w item = .ok o) items os) :
      items.map (convertItem settings index w) = os.map .ok := by
    induction each with
    | nil => rfl
    | cons here _ ih => rw [List.map_cons, List.map_cons, here, ih]
  rw [Work.jobs, jobsFrom_convert]
  have units := mapM_eq_ok converted
  clear converted
  induction units with
  | nil => rfl
  | cons made _ ih =>
      obtain ⟨os, each, made⟩ := ok_of_bind made
      cases made
      rw [List.flatMap_cons, List.flatMap_cons, List.map_append, ih, outputs (mapM_eq_ok each)]

/-- Jobs that all succeed are the conversion of their units. -/
theorem convertAll_regroup {works : List Work} {outputs : List UnitOutput}
    (done : (Work.jobs works).map (convertJob settings index) = outputs.map .ok) :
    convertAll settings index works = .ok (Work.regroup works outputs) := by
  have all : ∀ w ∈ works, ∀ item ∈ w.items, ∃ o, convertItem settings index w item = .ok o := by
    intro w hw item hi
    have made : convertItem settings index w item ∈ outputs.map .ok := by
      rw [← done, Work.jobs, jobsFrom_convert]
      exact List.mem_flatMap.mpr ⟨w, hw, List.mem_map_of_mem hi⟩
    obtain ⟨o, _, same⟩ := List.mem_map.mp made
    exact ⟨o, same.symm⟩
  obtain ⟨entries, converted⟩ := convertAll_ok all
  have flat : outputs = entries.flatMap Prod.snd := by
    have same := done.symm.trans (convertAll_jobs converted)
    exact List.map_injective_iff.mpr (fun _ _ => Except.ok.inj) same
  have back := Work.regroup_flatMap (convertAll_full converted)
  rw [convertAll_works converted, ← flat] at back
  rw [converted, back]

/-- Jobs that are done alike under two settings give the same outputs. -/
theorem convertAll_alike {settings' : RunSettings} {works : List Work} {entries : List (Work × List UnitOutput)}
    (converted : convertAll settings index works = .ok entries)
    (alike : ∀ w ∈ works, ∀ item ∈ w.items,
      convertItem settings' index w item = convertItem settings index w item) :
    convertAll settings' index works = .ok entries := by
  have jobs : (Work.jobs works).map (convertJob settings' index) =
      (Work.jobs works).map (convertJob settings index) := by
    refine List.map_congr_left fun job mem => ?_
    obtain ⟨⟨w, position⟩, listed, mem⟩ := List.mem_flatMap.mp mem
    obtain ⟨item, held, rfl⟩ := List.mem_map.mp mem
    exact alike w (List.fst_mem_of_mem_zipIdx listed) item held
  rw [convertAll_regroup (jobs.trans (convertAll_jobs converted)), ← convertAll_works converted,
    Work.regroup_flatMap (convertAll_full converted)]

/-! ### The order of names -/

/-- Two orders go alike through the subjects and the refs of a class. -/
def NameOrder.Alike (order order' : NameOrder) (m : ModelBase) : Prop :=
  order.list m.subjects = order'.list m.subjects ∧
    order.list (m.refs.map (·.name)) = order'.list (m.refs.map (·.name))

namespace NameOrder

/-- There is one order of a set of at most one name. -/
theorem list_eq_of_single (order order' : NameOrder) {names : List String} (single : names.eraseDups.length ≤ 1) :
    order.list names = order'.list names := by
  have listed := order.perm names
  have listed' := order'.perm names
  match same : names.eraseDups with
  | [] =>
      rw [same] at listed listed'
      rw [listed.eq_nil, listed'.eq_nil]
  | [name] =>
      rw [same] at listed listed'
      rw [List.perm_singleton.mp listed, List.perm_singleton.mp listed']
  | _ :: _ :: _ =>
      rw [same] at single
      simp at single

theorem alike_of_single (order order' : NameOrder) {m : ModelBase} (subjects : m.subjects.eraseDups.length ≤ 1)
    (refs : (m.refs.map (·.name)).eraseDups.length ≤ 1) : order.Alike order' m :=
  ⟨order.list_eq_of_single order' subjects, order.list_eq_of_single order' refs⟩

theorem Alike.context {m : ModelBase} (alike : order.Alike order' m) (props : List String)
    (outputs elementRefs : Table String) :
    Members.context order m props outputs elementRefs = Members.context order' m props outputs elementRefs := by
  simp only [Members.context, alike.1, alike.2]

end NameOrder

theorem convertOwn_alike {u : UnitModel} (alike : ∀ m, Model.hooked? u = some m → order.Alike order' m) :
    convertOwn index order u = convertOwn index order' u := by
  cases u with
  | component m =>
      have same := (alike _ rfl).context
      simp only [convertOwn, convertComponent, draftComponent, same]
  | service m =>
      have same := (alike _ rfl).context
      simp only [convertOwn, convertService, same]
  | directive m =>
      by_cases structural : m.directiveKind = .structural
      · simp [convertOwn, convertDirective, structural]
      · have same := (alike _ (if_neg structural)).context
        simp only [convertOwn, convertDirective, directiveWrapper, directiveHook, draftDirective, same]
  | _ => rfl

/-- An item is converted alike if the names of the class it is modelled as are listed alike. -/
theorem WorkItem.artifacts_alike {item : WorkItem} {s : Sink}
    (alike : ∀ u noted, (item.model index).run.run s = (.ok u, noted) →
      ∀ m, Model.hooked? u = some m → order.Alike order' m) :
    (item.artifacts index order).run.run s = (item.artifacts index order').run.run s := by
  simp only [artifacts, ExceptT.run_bind, StateT.run_bind]
  rcases built : (item.model index).run.run s with ⟨_ | u, noted⟩
  · rfl
  · have same : convertUnit index order u = convertUnit index order' u := by
      unfold convertUnit
      rw [convertOwn_alike (alike u noted built)]
    change (convertUnit index order u).run.run noted = (convertUnit index order' u).run.run noted
    rw [same]

theorem filesOfAll_order (settings : RunSettings) (order : NameOrder) (sink : Sink) (as : List Artifact) :
    filesOfAll { settings with order := order } sink as = filesOfAll settings sink as := by
  induction as generalizing sink with
  | nil => rfl
  | cons a as ih =>
      have same : filesOf { settings with order := order } sink.unit a = filesOf settings sink.unit a := rfl
      simp only [filesOfAll, same, ih]

/-- The unit models a class: one of its items becomes a model whose members are recast. -/
def Work.Models (index : SymbolIndex) (w : Work) (m : ModelBase) : Prop :=
  ∃ item ∈ w.items, ∃ u noted, (item.model index).run.run { unit := w.path } = (.ok u, noted) ∧
    Model.hooked? u = some m

/-- The unit's classes have at most one subject and one ref each. -/
def Work.leavesNoChoice (index : SymbolIndex) (w : Work) : Bool :=
  w.items.all fun item =>
    match (item.model index).run.run { unit := w.path } with
    | (.ok u, _) => (Model.hooked? u).all fun m =>
        decide (m.subjects.eraseDups.length ≤ 1 ∧ (m.refs.map (·.name)).eraseDups.length ≤ 1)
    | (.error _, _) => true

theorem Work.alike_of_leavesNoChoice {w : Work} (few : w.leavesNoChoice index = true) {m : ModelBase}
    (models : w.Models index m) : order.Alike order' m := by
  obtain ⟨item, mem, u, noted, built, hooked⟩ := models
  have single := List.all_eq_true.mp few item mem
  rw [built] at single
  dsimp only at single
  rw [hooked] at single
  obtain ⟨subjects, refs⟩ := of_decide_eq_true single
  exact order.alike_of_single order' subjects refs

theorem convertItem_alike {w : Work} (alike : ∀ m, w.Models index m → order.Alike settings.order m)
    {item : WorkItem} (mem : item ∈ w.items) :
    convertItem { settings with order := order } index w item = convertItem settings index w item := by
  have artifacts : (item.artifacts index order).run.run { unit := w.path } =
      (item.artifacts index settings.order).run.run { unit := w.path } :=
    WorkItem.artifacts_alike fun u noted built m hooked => alike m ⟨item, mem, u, noted, built, hooked⟩
  have modules : item.modules index w order = item.modules index w settings.order := by
    unfold WorkItem.modules
    rw [artifacts]
  simp only [WorkItem.convertItem_eq, modules, filesOfAll_order]

/-! ### Runs -/

/-- The configuration allows the number of workers; without a number of its own it allows any. -/
def Config.Allows (c : Config) (workers : Nat) : Prop :=
  0 < workers ∧
    match c.maxWorkers with
    | .null => True
    | .int n => n = workers
    | .bool b => b = true ∧ workers = 1
    | _ => False

/-- What a dry run comes to: the merged outputs, with every file counted as written. -/
def dryResult (entries : List (Work × List UnitOutput)) : RunResult where
  files := (mergeOutputs entries).1
  report := (mergeOutputs entries).2
  written := (mergeOutputs entries).1.keys

/-- A dry run that completes: valid options and a readable unit, a pool that reads the units in order
of their paths, a pool that converts the items, all with one order of names, and the merge of the
outputs. -/
inductive ScheduledRun (c : Config) (order : NameOrder) (sources : Sources) : RunResult → Prop
  | dry {workers : Nat} {works : List Work} {outputs : List UnitOutput} {path text : String}
      (valid : c.validate none = .ok ()) (isDry : c.dryRun.isSet = true)
      (readable : (path, some text) ∈ sources) (unit : isSourceUnit path = true)
      (allowed : c.Allows workers)
      (reading : Pool.Delivers workers ((Work.unitsOf sources).mergeSort fun a b => a.1 ≤ b.1)
        (fun entry => Work.prepare (Work.resourcesOf sources) entry.1 entry.2) works)
      (converting : Pool.Delivers workers (Work.jobs works)
        (convertJob (c.runSettings order) (Work.index works)) (outputs.map .ok)) :
      ScheduledRun c order sources (dryResult (Work.regroup works outputs))

theorem ScheduledRun.eq {c : Config} {sources : Sources} {r : RunResult}
    (run : ScheduledRun c order sources r) :
    c.dryRun.isSet = true ∧ ∃ entries, convertAll (c.runSettings order)
        (Work.index (Work.ofSources sources)) (Work.ofSources sources) = .ok entries ∧
      migrate c sources order = .ok (mergeOutputs entries) ∧ r = dryResult entries := by
  -- neither pool shows its schedule, so that both phases are those of the run without pools
  cases run with
  | @dry workers works outputs path text valid isDry readable unit allowed reading converting =>
      have read : works = Work.ofSources sources := by
        rw [reading.eq, Work.ofSources_units]
      subst read
      have converted := convertAll_regroup converting.eq.symm
      refine ⟨isDry, _, converted, ?_, rfl⟩
      rw [migrate_readable valid readable unit, convertWorks, converted]
      rfl

/-- Every number of workers that is allowed can do a dry run that completes. -/
theorem ScheduledRun.ofMigrate {c : Config} {sources : Sources} {files : Table String}
    {report : Report} (completed : migrate c sources order = .ok (files, report))
    (isDry : c.dryRun.isSet = true) {workers : Nat} (allowed : c.Allows workers) :
    ScheduledRun c order sources { files, report, written := files.keys } := by
  obtain ⟨valid, path, text, readable, unit⟩ := migrate_started completed
  obtain ⟨_, entries, converted, merged⟩ := migrate_yields c sources order _ completed
  have reading : Pool.Delivers workers ((Work.unitsOf sources).mergeSort fun a b => a.1 ≤ b.1)
      (fun entry => Work.prepare (Work.resourcesOf sources) entry.1 entry.2)
      (Work.ofSources sources) :=
    (Pool.delivers_iff allowed.1).mpr (Work.ofSources_units sources)
  have converting : Pool.Delivers workers (Work.jobs (Work.ofSources sources))
      (convertJob (c.runSettings order) (Work.index (Work.ofSources sources)))
      ((entries.flatMap Prod.snd).map .ok) :=
    (Pool.delivers_iff allowed.1).mpr (convertAll_jobs converted).symm
  have back := Work.regroup_flatMap (convertAll_full converted)
  rw [convertAll_works converted] at back
  have run := ScheduledRun.dry valid isDry readable unit allowed reading converting
  rw [back, dryResult, ← merged] at run
  exact run

theorem Config.runSettings_maxWorkers (c : Config) (n : Json) (order : NameOrder) :
    { c with maxWorkers := n }.runSettings order = c.runSettings order := by
  unfold runSettings reactMajor
  dsimp only

theorem Config.runSettings_with_order (c : Config) (order order' : NameOrder) :
    { c.runSettings order' with order := order } = c.runSettings order := by
  unfold runSettings
  dsimp only

/-- The sources hold no class whose subjects or refs the two orders list differently. -/
def Sources.ListsAlike (sources : Sources) (order order' : NameOrder) : Prop :=
  ∀ w ∈ Work.ofSources sources, ∀ m, w.Models (Work.index (Work.ofSources sources)) m →
    order.Alike order' m

/-- Dry runs that differ in the number of workers, in their schedules and in the order of the sources,
come to the same result, the one that `migrateSources` gives, if they list the names of every class
alike.  Files are strictly ordered by path, and remarks are ordered by unit. -/
theorem scheduledRun_deterministic {c : Config} {n n' : Json} {sources sources' : Sources}
    (distinct : sources.keys.Nodup) (same : sources.Perm sources') {r r' : RunResult}
    (run : ScheduledRun { c with maxWorkers := n } order sources r)
    (run' : ScheduledRun { c with maxWorkers := n' } order' sources' r') :
    (sources.ListsAlike order order' → r = r') ∧
    (∀ {m : Type → Type} [Monad m] (fs : FileSystem m),
      migrateSources fs { c with maxWorkers := n } sources order = pure (.ok r)) ∧
    r.files.Pairwise (fun a b => a.1 < b.1) ∧
    r.report.diagnostics.Pairwise fun d d' => d.unit ≤ d'.unit := by
  obtain ⟨isDry, entries, converted, completed, rfl⟩ := run.eq
  obtain ⟨_, entries', converted', _, rfl⟩ := run'.eq
  refine ⟨fun alike => ?_, fun fs => ?_, mergeOutputs_files_strict entries,
    mergeOutputs_report_sorted distinct converted⟩
  · rw [c.runSettings_maxWorkers] at converted converted'
    rw [← Work.ofSources_perm same distinct] at converted'
    have other := convertAll_alike converted' fun w hw item mem =>
      @convertItem_alike (c.runSettings order') _ order w (alike w hw) item mem
    rw [c.runSettings_with_order] at other
    cases converted.symm.trans other
    rfl
  · unfold migrateSources
    rw [completed]
    dsimp only
    rw [if_pos isDry]
    rfl

/-- The order against the one in which the names are written. -/
def NameOrder.backwards : NameOrder where
  list names := names.eraseDups.reverse
  perm names := List.reverse_perm names.eraseDups

/-- Two units with a service of one name, so that the first of them takes the path. -/
def rivalServices : Sources :=
  [("a.ts", some "@Injectable() class A \x7b\x7d"), ("b.ts", some "@Injectable() class A \x7b\x7d")]

theorem scheduledRun_deterministic_rivalServices :
    ∃ r, ScheduledRun { dryRun := .bool true, maxWorkers := .int 1 } .written rivalServices r ∧
      ScheduledRun { dryRun := .bool true, maxWorkers := .int 4 } .backwards rivalServices.reverse r ∧
      r.files.Pairwise fun a b => a.1 < b.1 := by
  have distinct : rivalServices.keys.Nodup := by decide
  have same : rivalServices.Perm rivalServices.reverse := (List.reverse_perm _).symm
  have works : Work.ofSources rivalServices =
      rivalServices.map fun entry => Work.prepare [] entry.1 entry.2 :=
    Work.ofSources_sorted (by simp [rivalServices, isSourceUnit_iff]) (by simp [rivalServices])
  obtain ⟨ws, read⟩ : ∃ ws, ws = rivalServices.map fun entry => Work.prepare [] entry.1 entry.2 := ⟨_, rfl⟩
  obtain ⟨few, converts, converts'⟩ : (ws.all (Work.leavesNoChoice (Work.index ws))) = true ∧
      (convertWorks ({ dryRun := .bool true : Config }.runSettings .written) ws).isOk = true ∧
      (convertWorks ({ dryRun := .bool true : Config }.runSettings .backwards) ws).isOk = true := by
    rw [read.trans (Work.map_prepare_chars [] "a.ts" "b.ts" String.toList_ofList String.toList_ofList)]
    decide +kernel
  rw [← read] at works
  have alike : rivalServices.ListsAlike .written .backwards := fun w hw m models => by
    rw [works] at hw models
    exact Work.alike_of_leavesNoChoice (List.all_eq_true.mp few w hw) models
  have unit : isSourceUnit "a.ts" = true := isSourceUnit_iff.mpr (by decide)
  have listed : ("a.ts", some "@Injectable() class A \x7b\x7d") ∈ rivalServices := List.mem_cons_self
  have settings (n : Json) (order : NameOrder) : { dryRun := .bool true, maxWorkers := n : Config }.runSettings order =
      { dryRun := .bool true : Config }.runSettings order :=
    Config.runSettings_maxWorkers { dryRun := .bool true } n order
  have one : ∃ files report, migrate { dryRun := .bool true, maxWorkers := .int 1 } rivalServices .written =
      .ok (files, report) :=
    migrate_completes (by decide +kernel) listed unit works ((settings _ _).symm ▸ converts)
  have four : ∃ files report, migrate { dryRun := .bool true, maxWorkers := .int 4 }
      rivalServices.reverse .backwards = .ok (files, report) :=
    migrate_completes (by decide +kernel) (List.mem_reverse.mpr listed) unit
      ((Work.ofSources_perm same distinct).symm.trans works) ((settings _ _).symm ▸ converts')
  obtain ⟨files, report, completed⟩ := one
  obtain ⟨files', report', completed'⟩ := four
  have alone : Config.Allows { dryRun := .bool true, maxWorkers := .int 1 } 1 := ⟨by decide, rfl⟩
  have crowd : Config.Allows { dryRun := .bool true, maxWorkers := .int 4 } 4 := ⟨by decide, rfl⟩
  have run := ScheduledRun.ofMigrate completed rfl alone
  have run' := ScheduledRun.ofMigrate completed' rfl crowd
  obtain ⟨equal, _, sorted, _⟩ :=
    scheduledRun_deterministic (c := { dryRun := .bool true }) distinct same run run'
  exact ⟨_, run, equal alike ▸ run', sorted⟩

/-- Both works come to an end, with different reports. -/
def reportsDiffer (x y : Except Fault (Table String × Report)) : Bool :=
  match x, y with
  | .ok r, .ok r' => decide (r.2.diagnostics ≠ r'.2.diagnostics)
  | _, _ => false

theorem exists_of_reportsDiffer {x y : Except Fault (Table String × Report)} (differ : reportsDiffer x y = true) :
    ∃ r r', x = .ok r ∧ y = .ok r' ∧ r.2.diagnostics ≠ r'.2.diagnostics := by
  unfold reportsDiffer at differ
  split at differ
  · exact ⟨_, _, rfl, rfl, of_decide_eq_true differ⟩
  · cases differ

/-- A service with two subjects that are used as streams. -/
def streamService : String × Option String :=
  ("a.ts", some
    "@Injectable() class A \x7ba=new Subject();b=new Subject();m()\x7bthis.a.pipe(this.b.pipe())\x7d\x7d")

/-- The streams are remarked upon in the order of their names. -/
theorem streamService_reports {w : Work} (read : w = Work.prepare [] streamService.1 streamService.2) :
    reportsDiffer (convertWorks ({ dryRun := .bool true : Config }.runSettings .written) [w])
      (convertWorks ({ dryRun := .bool true : Config }.runSettings .backwards) [w]) = true := by
  rw [read.trans (Work.prepare_chars [] "a.ts" String.toList_ofList)]
  decide +kernel

/-- Two runs that differ in nothing but the order of names come to different reports. -/
theorem scheduledRun_follows_names : ∃ r r',
    ScheduledRun { dryRun := .bool true } .written [streamService] r ∧
      ScheduledRun { dryRun := .bool true } .backwards [streamService] r' ∧
      r.report.diagnostics ≠ r'.report.diagnostics := by
  have unit : isSourceUnit streamService.1 = true := isSourceUnit_iff.mpr (by decide)
  have listed : (streamService.1, streamService.2) ∈ [streamService] := List.mem_singleton.mpr rfl
  have anyone : Config.Allows { dryRun := .bool true } 1 := ⟨by decide, trivial⟩
  obtain ⟨w, read⟩ : ∃ w, w = Work.prepare [] streamService.1 streamService.2 := ⟨_, rfl⟩
  have works : Work.ofSources [streamService] = [w] := by
    rw [read]
    exact Work.ofSources_single unit
  have runs {order : NameOrder} {r : Table String × Report}
      (converted : convertWorks ({ dryRun := .bool true : Config }.runSettings order) [w] = .ok r) :
      ScheduledRun { dryRun := .bool true } order [streamService] ⟨r.1, r.2, r.1.keys⟩ := by
    refine ScheduledRun.ofMigrate ?_ rfl anyone
    rw [migrate_readable validate_dryRun listed unit, works, converted]
    rfl
  obtain ⟨r, r', converted, converted', reports⟩ := exists_of_reportsDiffer (streamService_reports read)
  exact ⟨_, _, runs converted, runs converted', reports⟩

end ReactMigration
