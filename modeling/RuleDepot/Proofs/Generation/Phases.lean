import RuleDepot.Proofs.Collector.Faults
import RuleDepot.Proofs.Generation.Sources
/-!
The order of calls.  A driver may call a pass in any order, and the files may change between two
calls.  Each call is taken in one phase only; in any other it is refused and changes nothing.  So the
phases are gone through in order, and the collectors are finalized by one call at most, each of them
once, whatever the others do.
-/

namespace RuleDepot

/-- The order in which phases are gone through. -/
def Phase.rank : Phase → Nat
  | uninitialized => 0
  | accumulating => 1
  | finalized => 2

namespace Generation

open Running

/-- A call to a pass. -/
inductive Call where
  | start
  | visit (id : ModuleId)
  | finish (now : Instant)

namespace Call

/-- The phase in which a call is taken. -/
def phase : Call → Phase
  | start => .uninitialized
  | visit _ => .accumulating
  | finish _ => .accumulating

/-- What a call does; only the end of a pass has something to report. -/
def make : Call → Step Generation (Option GenerationReport)
  | start => do
    Generation.start
    return none
  | visit id => do
    Generation.visit id
    return none
  | finish now => do
    return some (← Generation.finish now)

end Call

/-- The runs of `Collector.finalize` that the end of a pass makes: each collector in order, with the
files as it finds them. -/
def finalizations (t : Tree) : List Station → List (Collector × Tree)
  | [] => []
  | s :: rest => (s.collector, t) :: finalizations (finalizeStation s t).2.2 rest

/-- What came of finalizing a collector. -/
def cameOf (run : Collector × Tree) : Except BuildError CollectorReport :=
  outcome (Collector.finalize run)

/-- What a collector that was finalized leaves at its station. -/
def retired (run : Collector × Tree) : Station :=
  ⟨(left (Collector.finalize run)).1, if (cameOf run).isOk then .finalized else .failed⟩

/-- A call that was made: which one, and the pass and the files at that time. -/
structure Made where
  call : Call
  pass : Generation
  files : Tree

namespace Made

variable (m : Made)

def result : EStateM.Result BuildError (Generation × Tree) (Option GenerationReport) :=
  m.call.make (m.pass, m.files)

/-- The pass after the call. -/
def after : Generation :=
  (left m.result).1

/-- The files after the call. -/
def filesAfter : Tree :=
  (left m.result).2

/-- The driver is told that the call was out of order. -/
def IsRejected : Prop :=
  ∃ e, outcome m.result = .error e ∧ e.isDriverFault = true

/-- The collectors that the call finalizes. -/
def runs : List (Collector × Tree) :=
  match m.call, m.pass.phase with
  | .finish _, .accumulating => finalizations m.files m.pass.stations
  | _, _ => []

/-- What the end of a pass does that is taken. -/
structure Ends : Prop where
  phase : m.after.phase = .finalized
  /-- Every collector was finalized, and is marked by what came of it. -/
  stations : m.after.stations = m.runs.map retired
  /-- The first failure of a collector is that of the pass. -/
  failed : ∀ (reports : List CollectorReport) e rest,
    m.runs.map cameOf = reports.map .ok ++ .error e :: rest → outcome m.result = .error e
  /-- Without one the pass is reported on, unless that cannot be noted. -/
  succeeded : ∀ reports : List CollectorReport, m.runs.map cameOf = reports.map .ok →
    (∃ report, outcome m.result = .ok (some report) ∧ report.reports = reports) ∨
      ∃ cause, outcome m.result = .error (StateFile.writeFailure m.pass.stateFile cause)

/-- What every call keeps to. -/
structure Orderly : Prop where
  /-- The phase stays as it is, or the next one is reached. -/
  forward : m.after.phase = m.pass.phase ∨ m.after.phase.rank = m.pass.phase.rank + 1
  rejected : m.IsRejected ↔ m.pass.phase ≠ m.call.phase
  unchanged : m.IsRejected → m.after = m.pass ∧ m.filesAfter = m.files
  /-- A pass that could not begin for the files has not begun. -/
  unbegun : ∀ context cause, m.call = .start → outcome m.result = .error (.io context cause) →
    m.after = m.pass ∧ m.after.phase = .uninitialized
  /-- Collectors that are not finalized are shown some scopes at most. -/
  attended : m.runs = [] → ∃ scopes, m.after.stations = m.pass.stations.map (·.shown scopes)
  ends : ∀ now, m.call = .finish now → m.pass.phase = .accumulating → m.Ends

end Made

/-- The calls of a driver to a pass, one after another, each on the files as they are by then. -/
def history (g : Generation) : List (Call × Tree) → List Made
  | [] => []
  | (call, t) :: rest => ⟨call, g, t⟩ :: history (Made.after ⟨call, g, t⟩) rest

variable {config : Config} {home workspace : Path} {project : Project} {g : Generation} {t : Tree}

/-- What the end of a pass comes to is what came of finalizing its collectors. -/
theorem finalizeAll_eq (t : Tree) (stations : List Station) :
    (finalizeAll t stations).1 = (finalizations t stations).map cameOf ∧
      (finalizeAll t stations).2.1 = (finalizations t stations).map retired := by
  induction stations generalizing t with
  | nil => exact ⟨rfl, rfl⟩
  | cons s rest ih =>
    have first : (finalizeStation s t).1 = cameOf (s.collector, t) ∧
        (finalizeStation s t).2.1 = retired (s.collector, t) := by
      unfold finalizeStation retired cameOf
      cases Collector.finalize (s.collector, t) <;> exact ⟨rfl, rfl⟩
    obtain ⟨results, left⟩ := ih (finalizeStation s t).2.2
    simp only [finalizeAll, finalizations, List.map_cons, first, results, left, and_self]

private theorem finalizations_collectors (t : Tree) (stations : List Station) :
    (finalizations t stations).map Prod.fst = stations.map (·.collector) := by
  induction stations generalizing t with
  | nil => rfl
  | cons s rest ih => simp only [finalizations, List.map_cons, ih]

theorem collect_map_ok (reports : List CollectorReport) : collect (reports.map .ok) = .ok reports := by
  induction reports with
  | nil => rfl
  | cons report rest ih =>
    unfold collect at ih ⊢
    rw [List.map_cons, List.mapM_cons, ih]
    rfl

private theorem collect_append_error (reports : List CollectorReport) (e : BuildError)
    (rest : List (Except BuildError CollectorReport)) :
    collect (reports.map .ok ++ .error e :: rest) = .error e := by
  induction reports with
  | nil => rfl
  | cons report others ih =>
    unfold collect at ih ⊢
    rw [List.map_cons, List.cons_append, List.mapM_cons, ih]
    rfl

private theorem reports_or_failure (results : List (Except BuildError CollectorReport)) :
    (∃ reports : List CollectorReport, results = reports.map .ok) ∨
      ∃ (reports : List CollectorReport) (e : BuildError)
        (rest : List (Except BuildError CollectorReport)),
        results = reports.map .ok ++ .error e :: rest := by
  induction results with
  | nil => exact Or.inl ⟨[], rfl⟩
  | cons result others ih =>
    cases result with
    | error e => exact Or.inr ⟨[], e, others, rfl⟩
    | ok report =>
      rcases ih with ⟨reports, rfl⟩ | ⟨reports, e, rest, rfl⟩
      · exact Or.inl ⟨report :: reports, rfl⟩
      · exact Or.inr ⟨report :: reports, e, rest, rfl⟩

/-- What holds of a pass between two calls: it is over, or its collectors are new ones that were
shown some scopes. -/
def Attended (config : Config) (home workspace : Path) (project : Project) (g : Generation) : Prop :=
  g.phase = .finalized ∨
    ∃ log, g.stations = config.shelves.map (stationOf config home workspace project log)

private theorem attended_new (config : Config) (home workspace : Path) (project : Project) :
    Attended config home workspace project (new config home workspace project) := by
  refine Or.inr ⟨[], List.map_congr_left fun shelf _ => ?_⟩
  rw [stationOf, Collector.shown_nil]

private theorem shown_stationOf (log scopes : List Scope) (shelf : Shelf) :
    (stationOf config home workspace project log shelf).shown scopes =
      stationOf config home workspace project (log ++ scopes) shelf := by
  simp only [Station.shown, stationOf, Collector.shown_append]

private theorem Attended.shown {g' : Generation} {scopes : List Scope}
    (attended : Attended config home workspace project g) (ongoing : g.phase ≠ .finalized)
    (stations : g'.stations = g.stations.map (·.shown scopes)) :
    Attended config home workspace project g' := by
  obtain ⟨log, held⟩ := attended.resolve_left ongoing
  refine Or.inr ⟨log ++ scopes, ?_⟩
  rw [stations, held, List.map_map]
  exact List.map_congr_left fun shelf _ => shown_stationOf log scopes shelf

theorem pending_stationOf (log : List Scope) (shelf : Shelf) :
    (stationOf config home workspace project log shelf).collector.ledger.pending =
      some ((config.duty shelf).demands log) := rfl

private theorem Attended.accumulates (attended : Attended config home workspace project g)
    (phase : g.phase = .accumulating) : Accumulates g := by
  refine ⟨phase, fun s member => ?_⟩
  obtain ⟨log, held⟩ := attended.resolve_left (by simp [phase])
  rw [held] at member
  obtain ⟨shelf, -, rfl⟩ := List.mem_map.mp member
  rfl

/-- The collectors that the end of a pass finalizes are those that were shown scopes, so it is not
the driver's fault if they fail. -/
theorem excuses_of_cameOf {log : List Scope} {run : Collector × Tree} {e : BuildError}
    (member : run ∈ finalizations t (config.shelves.map (stationOf config home workspace project log)))
    (failed : cameOf run = .error e) : e.Excuses := by
  have inside : run.1 ∈ (config.shelves.map
      (stationOf config home workspace project log)).map (·.collector) := by
    rw [← finalizations_collectors t]
    exact List.mem_map_of_mem member
  obtain ⟨s, held, same⟩ := List.mem_map.mp inside
  obtain ⟨shelf, -, rfl⟩ := List.mem_map.mp held
  obtain ⟨c, u⟩ := run
  obtain rfl : _ = c := same
  unfold cameOf at failed
  cases ran : Collector.finalize ((stationOf config home workspace project log shelf).collector, u) with
  | ok report after =>
    rw [ran] at failed
    cases failed
  | error e' after =>
    obtain ⟨c', t'⟩ := after
    rw [ran] at failed
    cases failed
    exact Collector.excuses_of_finalize (pending_stationOf log shelf) rfl
      (Requirements.asked_addAll _) ran

/-- How a pass begins that has not begun. -/
theorem start_opened (fresh : g.phase = .uninitialized) (t : Tree) :
    start (g, t) = (do
        Step.files (.io s!"resetting {g.scratchDir.text}") do
          FileM.removeDirs g.scratchDir
          FileM.ensureDir g.scratchDir
        Step.files (.io s!"creating cache root {g.cacheRoot.text}") (FileM.ensureDir g.cacheRoot)
        Step.change fun g => { g with phase := .accumulating } : Step Generation Unit) (g, t) := by
  rw [start, Step.part_bind, if_neg (not_not.mpr fresh)]

/-- A pass begins only once, and if it cannot begin for the files, it has not. -/
theorem start_cases (g : Generation) (t : Tree) :
    (g.phase ≠ .uninitialized ∧ ∃ reason, start (g, t) = .error (refusal reason) (g, t)) ∨
    (g.phase = .uninitialized ∧
      ((∃ context cause t', start (g, t) = .error (.io context cause) (g, t')) ∨
        ∃ t', start (g, t) = .ok () ({ g with phase := .accumulating }, t'))) := by
  by_cases fresh : g.phase = .uninitialized
  · refine Or.inr ⟨fresh, ?_⟩
    rw [start_opened fresh, bind_run, Step.files_run]
    cases (do FileM.removeDirs g.scratchDir; FileM.ensureDir g.scratchDir : FileM Unit) t with
    | error cause t' => exact Or.inl ⟨_, cause, t', rfl⟩
    | ok _ t' =>
      simp only [bind_run, Step.files_run]
      cases FileM.ensureDir g.cacheRoot t' with
      | error cause t'' => exact Or.inl ⟨_, cause, t'', rfl⟩
      | ok _ t'' => exact Or.inr ⟨t'', rfl⟩
  · refine Or.inl ⟨fresh, s!"begin_generation called while {g.phase.text}", ?_⟩
    rw [start, Step.part_bind, if_pos fresh]
    rfl

private theorem visit_refused (late : g.phase ≠ .accumulating) (id : ModuleId) (t : Tree) :
    visit id (g, t) =
      .error (refusal s!"module {id.text} visited while {g.phase.text}") (g, t) := by
  rw [visit, Step.part_bind, if_pos late]
  rfl

private theorem finish_refused (late : g.phase ≠ .accumulating) (now : Instant) (t : Tree) :
    ∃ reason, finish now (g, t) = .error (refusal reason) (g, t) := by
  rw [finish, Step.part_bind]
  cases phase : g.phase with
  | uninitialized => exact ⟨_, rfl⟩
  | accumulating => exact absurd phase late
  | finalized => exact ⟨_, rfl⟩

/-- The end of a pass that is taken closes it, and fails with what was collected or for want of a
state file. -/
theorem finish_cases (accumulating : g.phase = .accumulating) (now : Instant) (t : Tree) :
    (left (finish now (g, t))).1 =
        { g with stations := (finalizeAll t g.stations).2.1, phase := .finalized } ∧
      (∀ e, collect (finalizeAll t g.stations).1 = .error e →
        outcome (finish now (g, t)) = .error e) ∧
      ∀ reports, collect (finalizeAll t g.stations).1 = .ok reports →
        (∃ report, outcome (finish now (g, t)) = .ok report ∧ report.reports = reports) ∨
          ∃ cause, outcome (finish now (g, t)) = .error (StateFile.writeFailure g.stateFile cause) := by
  rw [finish_run accumulating, close]
  simp only
  cases collect (finalizeAll t g.stations).1 with
  | error e => exact ⟨rfl, fun e' same => same ▸ rfl, fun reports all => (by cases all)⟩
  | ok reports =>
    simp only [bind_run, Step.files_run]
    refine ⟨?_, fun e failed => (by cases failed), fun reports' same => ?_⟩
    · split
      · rename_i noted
        split at noted <;> cases noted
        rfl
      · rename_i noted
        split at noted <;> cases noted
        rfl
    · obtain rfl := Except.ok.inj same
      split
      · exact Or.inl ⟨_, rfl, rfl⟩
      · rename_i noted
        split at noted <;> cases noted
        exact Or.inr ⟨_, rfl⟩

namespace Made

variable {m : Made}

theorem result_start (g : Generation) (t : Tree) :
    result ⟨.start, g, t⟩ = match start (g, t) with
      | .ok _ s => .ok none s
      | .error e s => .error e s := by
  rw [result, Call.make, bind_run]
  cases start (g, t) <;> rfl

theorem result_visit (id : ModuleId) (g : Generation) (t : Tree) :
    result ⟨.visit id, g, t⟩ = match visit id (g, t) with
      | .ok _ s => .ok none s
      | .error e s => .error e s := by
  rw [result, Call.make, bind_run]
  cases visit id (g, t) <;> rfl

theorem result_finish (now : Instant) (g : Generation) (t : Tree) :
    result ⟨.finish now, g, t⟩ = match finish now (g, t) with
      | .ok report s => .ok (some report) s
      | .error e s => .error e s := by
  rw [result, Call.make, bind_run]
  cases finish now (g, t) <;> rfl

/-- A call in the wrong phase is refused without any effect. -/
theorem refused (late : m.pass.phase ≠ m.call.phase) :
    ∃ reason, m.result = .error (refusal reason) (m.pass, m.files) := by
  obtain ⟨call, g, t⟩ := m
  cases call with
  | start =>
    rcases start_cases g t with ⟨-, reason, ran⟩ | ⟨fresh, -⟩
    · exact ⟨reason, by rw [result_start, ran]⟩
    · exact absurd fresh late
  | visit id => exact ⟨_, by rw [result_visit, visit_refused late]⟩
  | finish now =>
    obtain ⟨reason, ran⟩ := finish_refused late now t
    exact ⟨reason, by rw [result_finish, ran]⟩

private theorem runs_of_finish (accumulating : g.phase = .accumulating) (now : Instant) (t : Tree) :
    runs ⟨.finish now, g, t⟩ = finalizations t g.stations := by
  simp only [runs, accumulating]

private theorem runs_of_late (late : m.pass.phase ≠ m.call.phase) : m.runs = [] := by
  obtain ⟨call, g, t⟩ := m
  unfold runs
  split
  · rename_i own accumulating
    obtain rfl : call = _ := own
    exact absurd accumulating late
  · rfl

private theorem orderly_of_late (late : m.pass.phase ≠ m.call.phase) : m.Orderly := by
  obtain ⟨reason, ran⟩ := refused late
  have same : m.after = m.pass := by rw [after, ran]; rfl
  have files : m.filesAfter = m.files := by rw [filesAfter, ran]; rfl
  refine ⟨Or.inl (by rw [same]), ⟨fun _ => late, fun _ => ⟨refusal reason, by rw [ran]; rfl, rfl⟩⟩,
    fun _ => ⟨same, files⟩, fun context cause _ failed => ?_, fun _ => ⟨[], by simp [same]⟩,
    fun now own accumulating => ?_⟩
  · rw [ran] at failed
    cases failed
  · rw [own] at late
    exact absurd accumulating late

/-- A call that is taken, and fails only for what is not the driver's fault, is not rejected. -/
theorem not_isRejected (excused : ∀ e, outcome m.result = .error e → e.Excuses) : ¬ m.IsRejected := by
  rintro ⟨e, failed, blames⟩
  rw [excused e failed] at blames
  cases blames

private theorem orderly_start (fresh : g.phase = .uninitialized) : Orderly ⟨.start, g, t⟩ := by
  obtain ⟨came, kept, excused⟩ :
      (after ⟨.start, g, t⟩ = g ∨ (∃ s, result ⟨.start, g, t⟩ = .ok none s) ∧
        after ⟨.start, g, t⟩ = { g with phase := .accumulating }) ∧
      (after ⟨.start, g, t⟩).stations = g.stations ∧
      ∀ e, outcome (result ⟨.start, g, t⟩) = .error e → e.Excuses := by
    unfold after
    rw [result_start]
    rcases start_cases g t with ⟨late, -⟩ | ⟨-, ⟨context, cause, t', ran⟩ | ⟨t', ran⟩⟩
    · exact absurd fresh late
    · rw [ran]
      exact ⟨Or.inl rfl, rfl, fun e failed => Except.error.inj failed ▸ BuildError.excuses_io _ _⟩
    · rw [ran]
      exact ⟨Or.inr ⟨⟨_, rfl⟩, rfl⟩, rfl, nofun⟩
  have taken := not_isRejected excused
  refine ⟨?_, ⟨fun rejected => absurd rejected taken, fun late => absurd fresh late⟩,
    fun rejected => absurd rejected taken, fun context cause _ failed => ?_,
    fun _ => ⟨[], by simp [kept]⟩, nofun⟩
  · exact came.imp (fun same => by rw [same]) fun ⟨_, next⟩ => by rw [next, fresh]; rfl
  · rcases came with same | ⟨⟨s, ran⟩, -⟩
    · exact ⟨same, by rw [same, fresh]⟩
    · rw [ran] at failed
      cases failed

private theorem excuses_of_refuses {e : BuildError} (refuses : Refuses e) : e.Excuses := by
  rcases refuses with ⟨_, _, rfl⟩ | ⟨_, _, rfl⟩ <;> rfl

private theorem orderly_visit (accumulates : Accumulates g) (id : ModuleId) :
    Orderly ⟨.visit id, g, t⟩ := by
  have phase := accumulates.phase
  obtain ⟨still, ⟨scopes, shown⟩, excused⟩ :
      (after ⟨.visit id, g, t⟩).phase = .accumulating ∧
      (∃ scopes, (after ⟨.visit id, g, t⟩).stations = g.stations.map (·.shown scopes)) ∧
      ∀ e, outcome (result ⟨.visit id, g, t⟩) = .error e → e.Excuses := by
    unfold after
    rw [result_visit, visit_foreseen accumulates]
    cases foreseen : g.scopes.visitable t id with
    | error e =>
      refine ⟨phase, ⟨[], by simp [left]⟩, fun e' failed => ?_⟩
      obtain rfl := Except.error.inj failed
      exact excuses_of_refuses (ScopeMemo.refuses_of_visitable foreseen)
    | ok scopes => exact ⟨phase, ⟨scopes, rfl⟩, fun e failed => (by cases failed)⟩
  have taken := not_isRejected excused
  exact ⟨Or.inl (still.trans phase.symm), ⟨fun rejected => absurd rejected taken,
    fun late => absurd phase late⟩, fun rejected => absurd rejected taken,
    fun reason cause own => (by cases own), fun _ => ⟨scopes, shown⟩, fun now own => (by cases own)⟩

private theorem orderly_finish (attended : Attended config home workspace project g)
    (accumulating : g.phase = .accumulating) (now : Instant) : Orderly ⟨.finish now, g, t⟩ := by
  obtain ⟨closed, failed, succeeded⟩ := finish_cases accumulating now t
  obtain ⟨results, stations⟩ := finalizeAll_eq t g.stations
  have made : outcome (result ⟨.finish now, g, t⟩) = (outcome (finish now (g, t))).map some ∧
      after ⟨.finish now, g, t⟩ = (left (finish now (g, t))).1 := by
    unfold after
    rw [result_finish]
    cases finish now (g, t) <;> exact ⟨rfl, rfl⟩
  have runs := runs_of_finish accumulating now t
  have ends : Ends ⟨.finish now, g, t⟩ := by
    refine ⟨by rw [made.2, closed], by rw [made.2, closed, runs, ← stations],
      fun reports e rest all => ?_, fun reports all => ?_⟩
    · rw [runs, ← results] at all
      rw [made.1, failed e (by rw [all, collect_append_error])]
      rfl
    · rw [runs, ← results] at all
      rw [made.1]
      rcases succeeded reports (by rw [all, collect_map_ok]) with ⟨report, ran, same⟩ | ⟨cause, ran⟩
      · exact Or.inl ⟨report, by rw [ran]; rfl, same⟩
      · exact Or.inr ⟨cause, by rw [ran]; rfl⟩
  have excused : ∀ e, outcome (result ⟨.finish now, g, t⟩) = .error e → e.Excuses := by
    intro e ran
    obtain ⟨log, held⟩ := attended.resolve_left (by simp [accumulating])
    rcases reports_or_failure ((Made.runs ⟨.finish now, g, t⟩).map cameOf) with
      ⟨reports, all⟩ | ⟨reports, e', rest, all⟩
    · rcases ends.succeeded reports all with ⟨report, done, -⟩ | ⟨cause, done⟩
      · rw [done] at ran
        cases ran
      · rw [done] at ran
        cases ran
        exact BuildError.excuses_io _ _
    · rw [ends.failed reports e' rest all] at ran
      obtain rfl := Except.error.inj ran
      have member : .error e' ∈ (Made.runs ⟨.finish now, g, t⟩).map cameOf := by simp [all]
      obtain ⟨run, inside, came⟩ := List.mem_map.mp member
      rw [runs, held] at inside
      exact excuses_of_cameOf inside came
  have taken := not_isRejected excused
  refine ⟨Or.inr (by rw [ends.phase, accumulating]; rfl), ⟨fun rejected => absurd rejected taken,
    fun late => absurd accumulating late⟩, fun rejected => absurd rejected taken, nofun,
    fun none => ?_, fun _ _ _ => ends⟩
  refine ⟨[], ?_⟩
  have empty : g.stations = [] := by
    have same := finalizations_collectors t g.stations
    rw [← runs, none] at same
    simpa using same.symm
  rw [ends.stations, none]
  simp [empty]

/-- Whatever is called, and whenever, the order is kept. -/
theorem orderly (attended : Attended config home workspace project g) (call : Call) (t : Tree) :
    Orderly ⟨call, g, t⟩ := by
  by_cases late : g.phase ≠ call.phase
  · exact orderly_of_late late
  · have taken := not_not.mp late
    cases call with
    | start => exact orderly_start taken
    | visit id => exact orderly_visit (attended.accumulates taken) id
    | finish now => exact orderly_finish attended taken now

/-- Between calls the collectors are attended, or the pass is over. -/
theorem attended_after (attended : Attended config home workspace project g) (call : Call) (t : Tree) :
    Attended config home workspace project (after ⟨call, g, t⟩) := by
  have keeps := orderly attended call t
  by_cases ended : g.phase = .finalized
  · have late : (Made.mk call g t).pass.phase ≠ (Made.mk call g t).call.phase := by
      cases call <;> simp [Call.phase, ended]
    rw [(keeps.unchanged (keeps.rejected.mpr late)).1]
    exact attended
  · by_cases ending : ∃ now, call = .finish now ∧ g.phase = .accumulating
    · obtain ⟨now, rfl, accumulating⟩ := ending
      exact Or.inl (keeps.ends now rfl accumulating).phase
    · have idle : (Made.mk call g t).runs = [] := by
        unfold runs
        split
        · rename_i now own accumulating
          exact absurd ⟨now, own, accumulating⟩ ending
        · rfl
      obtain ⟨scopes, shown⟩ := keeps.attended idle
      exact attended.shown ended shown

/-- A call finalizes nobody, or all collectors in the order of their shelves and ends the pass. -/
theorem runs_names (attended : Attended config home workspace project g) (call : Call) (t : Tree) :
    (Made.mk call g t).runs = [] ∨
      (Made.mk call g t).runs.map (·.1.name) = config.shelves.map (fun s => (config.duty s).name) ∧
        (after ⟨call, g, t⟩).phase = .finalized := by
  by_cases ending : ∃ now, call = .finish now ∧ g.phase = .accumulating
  · obtain ⟨now, rfl, accumulating⟩ := ending
    refine Or.inr ⟨?_, ((orderly attended _ t).ends now rfl accumulating).phase⟩
    obtain ⟨log, held⟩ := attended.resolve_left (by simp [accumulating])
    have names : (finalizations t g.stations).map (·.1.name) =
        ((finalizations t g.stations).map Prod.fst).map Collector.name := by
      rw [List.map_map]
      rfl
    rw [runs_of_finish accumulating, names, finalizations_collectors, held]
    simp only [List.map_map]
    rfl
  · refine Or.inl ?_
    unfold runs
    split
    · rename_i now own accumulating
      exact absurd ⟨now, own, accumulating⟩ ending
    · rfl

end Made

/-- A pass that is over stays so, and nobody is finalized any more. -/
theorem runs_of_over (ended : g.phase = .finalized) (calls : List (Call × Tree)) :
    (history g calls).flatMap Made.runs = [] := by
  induction calls generalizing g with
  | nil => rfl
  | cons first rest ih =>
    obtain ⟨call, t⟩ := first
    have late : (Made.mk call g t).pass.phase ≠ (Made.mk call g t).call.phase := by
      cases call <;> simp [Call.phase, ended]
    obtain ⟨reason, ran⟩ := Made.refused late
    have same : Made.after ⟨call, g, t⟩ = g := by rw [Made.after, ran]; rfl
    rw [history, List.flatMap_cons, Made.runs_of_late late, same, ih ended, List.append_nil]

/-- What holds of a series of calls that begins with a pass which is attended.  The induction is on
the calls that are left, over any such pass. -/
theorem history_orderly (attended : Attended config home workspace project g)
    (calls : List (Call × Tree)) :
    (∀ m ∈ history g calls, m.Orderly) ∧
      (∀ m ∈ history g calls, g.phase.rank ≤ m.pass.phase.rank) ∧
      ((history g calls).map fun m => m.pass.phase.rank).Pairwise (· ≤ ·) ∧
      ((history g calls).flatMap Made.runs = [] ∨
        ((history g calls).flatMap Made.runs).map (·.1.name) =
          config.shelves.map fun s => (config.duty s).name) := by
  induction calls generalizing g with
  | nil => exact ⟨by simp [history], by simp [history], .nil, Or.inl rfl⟩
  | cons first rest ih =>
    obtain ⟨call, t⟩ := first
    have keeps := Made.orderly attended call t
    obtain ⟨orderly, above, sorted, once⟩ := ih (Made.attended_after attended call t)
    have forward : g.phase.rank ≤ (Made.after ⟨call, g, t⟩).phase.rank := by
      rcases keeps.forward with same | next
      · exact Nat.le_of_eq (congrArg Phase.rank same).symm
      · exact next ▸ Nat.le_succ _
    refine ⟨List.forall_mem_cons.mpr ⟨keeps, orderly⟩,
      List.forall_mem_cons.mpr ⟨Nat.le_refl _, fun m later => Nat.le_trans forward (above m later)⟩,
      List.pairwise_cons.mpr ⟨fun rank later => ?_, sorted⟩, ?_⟩
    · obtain ⟨m, member, rfl⟩ := List.mem_map.mp later
      exact Nat.le_trans forward (above m member)
    · rw [history, List.flatMap_cons]
      rcases Made.runs_names attended call t with none | ⟨all, ended⟩
      · rw [none]
        exact once
      · rw [runs_of_over ended, List.append_nil]
        exact Or.inr all

end Generation

/-- No two collectors of a pass have the same name, so what is kept by name is kept of one. -/
theorem Config.nodup_names (config : Config) :
    (config.shelves.map fun s => (config.duty s).name).Nodup := by
  have split : config.shelves.map (fun s => (config.duty s).name) =
      ["dependencies", "annotation-processors", "lint", "kotlin-runtime", "scala-runtime",
        "groovy-runtime", "transforms", "robolectric", "tools"] ++
      config.extraCaches.keys.map (s!"extra-{·}") := by
    rw [shelves, List.map_append, List.map_map]
    rfl
  have extras : (config.extraCaches.keys.map (s!"extra-{·}")).Nodup := by
    refine List.Pairwise.map _ (fun a b differ same => differ ?_) Std.ExtTreeMap.nodup_keys
    simpa [toString] using same
  rw [split]
  refine List.nodup_append.mpr ⟨by decide, extras, fun a member b member' same => ?_⟩
  obtain ⟨name, -, rfl⟩ := List.mem_map.mp member'
  have front : a.toList.take 6 = "extra-".toList := by
    rw [same]
    simp [toString]
  have other : ∀ a ∈ ["dependencies", "annotation-processors", "lint", "kotlin-runtime",
      "scala-runtime", "groovy-runtime", "transforms", "robolectric", "tools"],
      a.toList.take 6 ≠ "extra-".toList := by decide
  exact other a member front

namespace Generation

/-- **Calls keep to the order of phases.**  Whatever is called on a new pass, and whatever becomes of
the files between two calls: every call is taken in its own phase and else refused without any effect;
the phases only go forward; and all collectors together are finalized at most once each.  The end that
is taken finalizes them all, marks each by what came of it and fails with the first failure. -/
theorem calls_keep_the_order (config : Config) (home workspace : Path) (project : Project)
    (calls : List (Call × Tree)) :
    let made := history (new config home workspace project) calls
    (∀ m ∈ made, m.Orderly) ∧
      (made.map fun m => m.pass.phase.rank).Pairwise (· ≤ ·) ∧
      (made.flatMap Made.runs).map (·.1.name) <+: config.shelves.map (fun s => (config.duty s).name) ∧
      ((made.flatMap Made.runs).map (·.1.name)).Nodup := by
  obtain ⟨orderly, -, sorted, once⟩ :=
    history_orderly (attended_new config home workspace project) calls
  have inside : ((history (new config home workspace project) calls).flatMap Made.runs).map
      (·.1.name) <+: config.shelves.map (fun s => (config.duty s).name) := by
    rcases once with none | all
    · rw [none]
      exact List.nil_prefix
    · exact all ▸ List.prefix_rfl
  exact ⟨orderly, sorted, inside, config.nodup_names.sublist inside.sublist⟩

end Generation

end RuleDepot
