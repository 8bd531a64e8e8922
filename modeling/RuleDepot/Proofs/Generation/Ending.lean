import RuleDepot.Generation.Basic
import RuleDepot.Proofs.Collector.Finalizing
/-!
The end of a pass.  All collectors are finalized in order, and the pass succeeds only if all of them
do; it then reports what each of them did, in the same order.
-/

namespace RuleDepot.Generation

open Running

variable {g : Generation} {t : Tree} {after : Generation × Tree}

theorem finalizeAll_congr {f f' : Station → Station} {stations : List Station}
    (same : ∀ s ∈ stations, ∀ t, finalizeStation (f s) t = finalizeStation (f' s) t) (t : Tree) :
    finalizeAll t (stations.map f) = finalizeAll t (stations.map f') := by
  induction stations generalizing t with
  | nil => rfl
  | cons s rest ih =>
    simp only [List.map_cons, finalizeAll, same s List.mem_cons_self t,
      ih fun s member => same s (List.mem_cons_of_mem _ member)]

/-- What is kept of a collector is what came of finalizing it, whatever the files were like by
then. -/
theorem finalizeAll_getElem? {stations : List Station} {i : Nat} {s : Station}
    (held : stations[i]? = some s) (t : Tree) :
    ∃ t', (finalizeAll t stations).1[i]? = some (finalizeStation s t').1 := by
  induction stations generalizing i t with
  | nil => cases held
  | cons first rest ih =>
    cases i with
    | zero =>
      obtain rfl : first = s := by simpa using held
      exact ⟨t, rfl⟩
    | succ i =>
      have later : rest[i]? = some s := by simpa using held
      obtain ⟨t', kept⟩ := ih later (finalizeStation first t).2.2
      exact ⟨t', by simpa only [finalizeAll, List.getElem?_cons_succ] using kept⟩

/-- Reports are collected if there is nothing else. -/
theorem collect_ok {results : List (Except BuildError CollectorReport)}
    {reports : List CollectorReport} (collected : collect results = .ok reports) :
    results = reports.map .ok := by
  induction results generalizing reports with
  | nil =>
    cases collected
    rfl
  | cons result rest ih =>
    rw [collect, List.mapM_cons] at collected
    obtain ⟨report, first, collected⟩ := ok_of_bind collected
    obtain ⟨others, later, done⟩ := ok_of_bind collected
    cases done
    rw [ih later, List.map_cons]
    exact congrArg (· :: _) first

/-- A pass that accumulates ends by closing; what it did is noted in the state file. -/
theorem finish_run (phase : g.phase = .accumulating) (now : Instant) (t : Tree) :
    finish now (g, t) = match close (g, t) with
      | .ok report (g', t') => (do
          Step.files (StateFile.writeFailure g'.stateFile)
            ((g'.summary report now).write g'.stateFile)
          return report : Step Generation GenerationReport) (g', t')
      | .error e s => .error e s := by
  rw [finish, Step.part_bind]
  simp only [phase]
  rw [bind_run]
  cases close (g, t) <;> rfl

/-- Passes that differ in nothing but stations which are finalized alike end alike. -/
theorem finish_congr {stations : List Station} (phase : g.phase = .accumulating)
    (same : ∀ t, finalizeAll t stations = finalizeAll t g.stations) (now : Instant) (t : Tree) :
    finish now ({ g with stations := stations }, t) = finish now (g, t) := by
  have closed : close ({ g with stations := stations }, t) = close (g, t) := by
    simp only [close, same]
  have phase' : { g with stations := stations }.phase = .accumulating := phase
  rw [finish_run phase, finish_run phase', closed]

/-- A pass that succeeds was reported on by all collectors, and then its summary was written. -/
theorem finish_notes {now : Instant} {report : GenerationReport} (phase : g.phase = .accumulating)
    (ran : finish now (g, t) = .ok report after) :
    (finalizeAll t g.stations).1 = report.reports.map .ok ∧
      report.modulesVisited = g.visited.size ∧
      (g.summary report now).write g.stateFile (finalizeAll t g.stations).2.2 = .ok () after.2 := by
  rw [finish_run phase] at ran
  cases collected : collect (finalizeAll t g.stations).1 with
  | error e => simp [close, collected] at ran
  | ok reports =>
    simp only [close, collected] at ran
    obtain ⟨_, written, put, ran⟩ := Step.files_bind_ok ran
    cases ran
    exact ⟨collect_ok collected, rfl, put⟩

/-- The state file is written last. -/
theorem finish_ok {now : Instant} {report : GenerationReport} (phase : g.phase = .accumulating)
    (ran : finish now (g, t) = .ok report after) :
    (finalizeAll t g.stations).1 = report.reports.map .ok ∧
      ∃ bytes, FileM.publishBytes g.stateFile bytes (finalizeAll t g.stations).2.2 =
        .ok () after.2 :=
  have ⟨all, _, put⟩ := finish_notes phase ran
  ⟨all, _, put⟩

/-- A pass that fails ends with its collectors, or with a state file that cannot be written. -/
theorem finish_failed {now : Instant} {e : BuildError} (phase : g.phase = .accumulating)
    (ran : finish now (g, t) = .error e after) : after.2 = (finalizeAll t g.stations).2.2 ∨
      ∃ bytes cause, FileM.publishBytes g.stateFile bytes (finalizeAll t g.stations).2.2 =
        .error cause after.2 := by
  rw [finish_run phase] at ran
  cases collected : collect (finalizeAll t g.stations).1 with
  | error e' =>
    simp only [close, collected] at ran
    cases ran
    exact Or.inl rfl
  | ok reports =>
    simp only [close, collected, bind_run, Step.files_run] at ran
    split at ran
    · cases ran
    · rename_i noted
      cases ran
      split at noted
      · cases noted
      · rename_i put
        cases noted
        exact Or.inr ⟨_, _, put⟩

/-- A pass that succeeds reports what every collector did. -/
theorem finish_reports {now : Instant} {report : GenerationReport} (phase : g.phase = .accumulating)
    (ran : finish now (g, t) = .ok report after) {i : Nat} {s : Station}
    (held : g.stations[i]? = some s) :
    ∃ r t' left, report.reports[i]? = some r ∧ Collector.finalize (s.collector, t') = .ok r left := by
  obtain ⟨t', kept⟩ := finalizeAll_getElem? held t
  rw [(finish_ok phase ran).1, List.getElem?_map, Option.map_eq_some_iff] at kept
  obtain ⟨r, found, ended⟩ := kept
  refine ⟨r, t', ?_⟩
  unfold finalizeStation at ended
  cases finalized : Collector.finalize (s.collector, t') with
  | error e left =>
    rw [finalized] at ended
    cases ended
  | ok r' left =>
    rw [finalized] at ended
    cases ended
    exact ⟨left, found, rfl⟩

/-- The files as stations find them one after another, and as the last one leaves them. -/
def stages (t : Tree) : List Station → List Tree
  | [] => [t]
  | s :: rest => t :: stages (finalizeStation s t).2.2 rest

theorem mem_stages (t : Tree) (stations : List Station) : t ∈ stages t stations := by
  cases stations <;> simp [stages]

/-- A station that is finalized successfully leaves the rest to the others. -/
theorem finalizeAll_cons_ok {s : Station} {rest : List Station}
    {reports : List CollectorReport} (all : (finalizeAll t (s :: rest)).1 = reports.map .ok) :
    ∃ r c' u others, Collector.finalize (s.collector, t) = .ok r (c', u) ∧ reports = r :: others ∧
      (finalizeAll u rest).1 = others.map .ok ∧ stages t (s :: rest) = t :: stages u rest ∧
      (finalizeAll t (s :: rest)).2.2 = (finalizeAll u rest).2.2 := by
  cases ran : Collector.finalize (s.collector, t) with
  | error e after =>
    obtain ⟨c', u⟩ := after
    cases reports <;> simp [finalizeAll, finalizeStation, ran] at all
  | ok r after =>
    obtain ⟨c', u⟩ := after
    cases reports with
    | nil => simp [finalizeAll] at all
    | cons first others =>
      simp only [finalizeAll, finalizeStation, ran, List.map_cons, List.cons.injEq,
        Except.ok.injEq] at all
      obtain ⟨rfl, later⟩ := all
      refine ⟨r, c', u, others, rfl, rfl, later, ?_, ?_⟩
      · simp only [stages, finalizeStation, ran]
      · simp only [finalizeAll, finalizeStation, ran]

/-- What every successful station keeps is kept by all of them. -/
theorem finalizeAll_invariant (holds : Tree → Prop) {stations : List Station}
    {reports : List CollectorReport} (all : (finalizeAll t stations).1 = reports.map .ok)
    (steps : ∀ s ∈ stations, ∀ u r c' u', holds u → Collector.finalize (s.collector, u) =
      .ok r (c', u') → holds u') (begins : holds t) : holds (finalizeAll t stations).2.2 := by
  induction stations generalizing t reports with
  | nil => exact begins
  | cons s rest ih =>
    obtain ⟨r, c', u, others, ran, -, later, -, ends⟩ := finalizeAll_cons_ok all
    rw [ends]
    exact ih later (fun s member => steps s (List.mem_cons_of_mem _ member))
      (steps s List.mem_cons_self t r c' u begins ran)

/-- Every report is that of a station, which was finalized at some stage and followed by others. -/
theorem finalizeAll_report {stations : List Station} {reports : List CollectorReport}
    (all : (finalizeAll t stations).1 = reports.map .ok) {r : CollectorReport} (member : r ∈ reports) :
    ∃ before s later c' u u', ∃ others : List CollectorReport,
      stations = before ++ s :: later ∧ u ∈ stages t stations ∧
      Collector.finalize (s.collector, u) = .ok r (c', u') ∧
      (finalizeAll u' later).1 = others.map .ok ∧
      (finalizeAll u' later).2.2 = (finalizeAll t stations).2.2 := by
  induction stations generalizing t reports with
  | nil =>
    obtain rfl : reports = [] := by simpa [finalizeAll, eq_comm] using all
    cases member
  | cons first rest ih =>
    obtain ⟨r₁, c₁, u₁, others, ran, rfl, later, passed, ends⟩ := finalizeAll_cons_ok all
    rw [passed, ends]
    rcases List.mem_cons.mp member with rfl | member
    · exact ⟨[], first, rest, c₁, t, u₁, others, rfl, List.mem_cons_self, ran, later, rfl⟩
    · obtain ⟨before, s, behind, c', u, u', others, rfl, stage, found⟩ := ih later member
      exact ⟨first :: before, s, behind, c', u, u', others, rfl, List.mem_cons_of_mem _ stage, found⟩

end RuleDepot.Generation
