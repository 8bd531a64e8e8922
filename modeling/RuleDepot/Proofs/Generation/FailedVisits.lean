import RuleDepot.Proofs.Cache.Frame
import RuleDepot.Proofs.Generation.Calls
import RuleDepot.Proofs.Generation.Ending
/-!
Visits that fail.  A visit that fails may have resolved some scopes of its module before, and the
memo keeps them; but no collector was shown anything, and the memo gives what it would have given
anyway.  So a pass ends as if the visits that failed had not been made.
-/

namespace RuleDepot.Generation

open Running

variable {config : Config} {home workspace : Path} {project : Project} {g g' g'' : Generation}
  {t : Tree} {ids : List ModuleId}

/-- Two passes that differ in nothing but what their memos have kept so far. -/
structure Resembles (t : Tree) (g g' : Generation) : Prop where
  rest : g' = { g with scopes := g'.scopes }
  scopes : ScopeMemo.Agrees t g.scopes g'.scopes

theorem Resembles.refl (t : Tree) (g : Generation) : Resembles t g g :=
  ⟨rfl, .refl t g.scopes⟩

private theorem Resembles.accumulates (alike : Resembles t g g') (accumulates : Accumulates g) :
    Accumulates g' := by
  rw [alike.rest]
  exact accumulates.remembers g'.scopes

/-- The modules whose visits succeeded. -/
def accepted (ids : List ModuleId) (answers : List (Except BuildError Unit)) : List ModuleId :=
  ((ids.zip answers).filter fun visit => visit.2.isOk).map Prod.fst

private theorem accepted_eq (ids : List ModuleId) (answers : List (Except BuildError Unit)) :
    accepted ids answers =
      ((ids.zip (answers.map Except.isOk)).filter Prod.snd).map Prod.fst := by
  rw [List.zip_map_right, List.filter_map, List.map_map]
  rfl

/-- The first of several visits is answered, and the others go on from what it leaves. -/
theorem attempts_cons {answer : Except BuildError Unit} {answers : List (Except BuildError Unit)}
    {s s' s'' : Generation × Tree} {id : ModuleId} {rest : List ModuleId}
    (first : Step.attempt (visit id) s = .ok answer s')
    (others : rest.mapM (fun id => Step.attempt (visit id)) s' = .ok answers s'') :
    (id :: rest).mapM (fun id => Step.attempt (visit id)) s = .ok (answer :: answers) s'' := by
  rw [List.mapM_cons, bind_run, first]
  simp only [bind_run, others, pure_run]

/-- Visits are answered one after another; without those that fail, the others are answered alike and
lead to a pass that resembles the first.  The induction is on the visits that are left, over any two
passes that resemble each other so far. -/
theorem attempts_resemble (accumulates : Accumulates g) (alike : Resembles t g g')
    (ids : List ModuleId) :
    ∃ answers g₁ g₂,
      ids.mapM (fun id => Step.attempt (visit id)) (g', t) = .ok answers (g₁, t) ∧
      (∀ e, .error e ∈ answers → Refuses e) ∧
      (accepted ids answers).forM visit (g, t) = .ok () (g₂, t) ∧
      Accumulates g₂ ∧ Resembles t g₂ g₁ := by
  induction ids generalizing g g' with
  | nil => exact ⟨[], g', g, rfl, by simp, rfl, accumulates, alike⟩
  | cons id rest ih =>
    have ran' := visit_foreseen (alike.accumulates accumulates) id t
    have agrees' := g'.scopes.recalled_agrees t id
    generalize g'.scopes.recalled t id = m' at ran' agrees'
    rw [alike.scopes.visitable id] at ran'
    cases foreseen : g.scopes.visitable t id with
    | error e =>
      rw [foreseen] at ran'
      have alike' : Resembles t g { g' with scopes := m' } := by
        refine ⟨?_, alike.scopes.trans agrees'⟩
        rw [alike.rest]
      obtain ⟨answers, g₁, g₂, ran, refuse, again, later⟩ := ih accumulates alike'
      refine ⟨.error e :: answers, g₁, g₂, ?_, ?_, again, later⟩
      · exact attempts_cons (by simp only [Step.attempt, ran']) ran
      · intro e' member
        rcases List.mem_cons.mp member with same | member
        · cases same
          exact ScopeMemo.refuses_of_visitable foreseen
        · exact refuse e' member
    | ok scopes =>
      rw [foreseen] at ran'
      have ran := visit_foreseen accumulates id t
      have agrees := g.scopes.recalled_agrees t id
      generalize g.scopes.recalled t id = m at ran agrees
      rw [foreseen] at ran
      have alike' : Resembles t (({ g with scopes := m } : Generation).noted id scopes)
          (({ g' with scopes := m' } : Generation).noted id scopes) := by
        refine ⟨?_, agrees.symm.trans (alike.scopes.trans agrees')⟩
        rw [alike.rest]
        rfl
      have accumulates' := (accumulates.remembers m).noted id scopes
      obtain ⟨answers, g₁, g₂, ran₁, refuse, ran₂, later⟩ := ih accumulates' alike'
      refine ⟨.ok () :: answers, g₁, g₂, ?_, ?_, ?_, later⟩
      · exact attempts_cons (by simp only [Step.attempt, ran']) ran₁
      · intro e member
        exact refuse e (by simpa using member)
      · change (visit id >>= fun _ => (accepted rest answers).forM visit) (g, t) = _
        rw [bind_run, ran]
        exact ran₂

/-- What the end of a pass comes to, apart from which scopes were resolved and how many. -/
structure Aftermath where
  /-- How many modules were visited and what every collector did, or the failure. -/
  result : Except BuildError (Nat × List CollectorReport)
  /-- The collectors with their caches and with the labels that they answer. -/
  stations : List Station
  phase : Phase
  visited : Roster ModuleId
  /-- The rule files, the cached files and all others. -/
  files : Tree

/-- What came of ending a pass. -/
def aftermath (result : EStateM.Result BuildError (Generation × Tree) GenerationReport) :
    Aftermath where
  result := (outcome result).map fun report => (report.modulesVisited, report.reports)
  stations := (left result).1.stations
  phase := (left result).1.phase
  visited := (left result).1.visited
  files := (left result).2

private theorem aftermath_noted (report report' : GenerationReport)
    (modules : report'.modulesVisited = report.modulesVisited)
    (reports : report'.reports = report.reports) (m : ScopeMemo) (wrap : IoError → BuildError)
    (action : FileM Unit) :
    aftermath ((Step.files wrap action >>= fun _ => pure report' :
        Step Generation GenerationReport) ({ g with scopes := m }, t)) =
      aftermath ((Step.files wrap action >>= fun _ => pure report :
        Step Generation GenerationReport) (g, t)) := by
  simp only [bind_run, Step.files_run]
  cases action t with
  | error e t' => rfl
  | ok _ t' => simp [aftermath, outcome, left, Except.map, modules, reports]

/-- The end of a pass asks the memo for nothing but the number of attempts. -/
theorem aftermath_congr (phase : g.phase = .accumulating) (m : ScopeMemo) (now : Instant) (t : Tree) :
    aftermath (finish now ({ g with scopes := m }, t)) = aftermath (finish now (g, t)) := by
  have phase' : { g with scopes := m }.phase = .accumulating := phase
  rw [finish_run phase, finish_run phase', close, close]
  simp only
  generalize finalizeAll t g.stations = ended
  obtain ⟨results, stations, t'⟩ := ended
  cases collect results with
  | error e => rfl
  | ok reports =>
    -- What is written names the number of modules and the reports, and nothing of the memo.
    simp only [stateFile, summary, GenerationReport.ruleFiles]
    exact aftermath_noted (g := { g with stations, phase := .finalized })
      ⟨g.visited.size, g.scopes.attempts, reports⟩ ⟨g.visited.size, m.attempts, reports⟩ rfl rfl m _ _

/-- **Visits that fail leave nothing behind.**  Visits to a pass that accumulates change no file, and
fail only with unknown modules or coordinates without a file.  Whichever of them fail, the others
can be made without them, and the pass then ends with the same reports, files, answers and number of
modules. -/
theorem failed_visits_leave_nothing (underway : Underway config home workspace project g)
    (ids : List ModuleId) (t : Tree) (now : Instant) :
    ∃ answers g₁ g₂,
      ids.mapM (fun id => Step.attempt (visit id)) (g, t) = .ok answers (g₁, t) ∧
      (∀ e, .error e ∈ answers → Refuses e) ∧
      (accepted ids answers).forM visit (g, t) = .ok () (g₂, t) ∧
      aftermath (finish now (g₁, t)) = aftermath (finish now (g₂, t)) := by
  obtain ⟨answers, g₁, g₂, ran, refuse, again, accumulates, alike⟩ :=
    attempts_resemble underway.accumulates (.refl t g) ids
  refine ⟨answers, g₁, g₂, ran, refuse, again, ?_⟩
  rw [alike.rest]
  exact aftermath_congr accumulates.phase g₁.scopes now t

/-- A source set that needs one jar. -/
def needing (key : ArtifactKey) : SourceSet :=
  { SourceSet.empty with compile := [.external key] }

/-- A module whose tests need a jar that nobody has, next to one without tests. -/
def brokenProject : Project where
  modules := ((∅ : Table ModuleId ModuleSnapshot).insert ⟨":bad"⟩
      ⟨⟨":bad"⟩, ⟨"bad"⟩, ((∅ : Table ScopeKind SourceSet).insert .main
        (needing Naming.dashedVersion.key)).insert .test (needing Naming.dashedName.key)⟩).insert
    ⟨":good"⟩ ⟨⟨":good"⟩, ⟨"good"⟩, (∅ : Table ScopeKind SourceSet).insert .main
      (needing Naming.dashedVersion.key)⟩
  artifacts := (∅ : Table ArtifactKey Path).insert Naming.dashedVersion.key ⟨"/x.jar"⟩

/-- The beginning of a pass over them. -/
def brokenStart : EStateM.Result BuildError (Generation × Tree) Unit :=
  start (new .default ⟨"/home"⟩ ⟨"/w"⟩ brokenProject, Cache.jarTree)

/-- Visits to both modules and to one that nobody declared. -/
def brokenVisits :
    EStateM.Result BuildError (Generation × Tree) (List (Except BuildError Unit)) :=
  [⟨":bad"⟩, ⟨":good"⟩, ⟨":gone"⟩].mapM (fun id => Step.attempt (visit id))
    ((left brokenStart).1, (left brokenStart).2)

theorem visits_to_broken_project_leave_nothing :
    ∃ g t answers g₁ g₂, brokenStart = .ok () (g, t) ∧
      [⟨":bad"⟩, ⟨":good"⟩, ⟨":gone"⟩].mapM (fun id => Step.attempt (visit id)) (g, t) =
        .ok answers (g₁, t) ∧
      answers.map Except.isOk = [false, true, false] ∧
      [⟨":good"⟩].forM visit (g, t) = .ok () (g₂, t) ∧
      g₁.scopes.attempts = 3 ∧
      aftermath (finish .epoch (g₁, t)) = aftermath (finish .epoch (g₂, t)) := by
  obtain ⟨_, started⟩ : ∃ _, brokenStart = _ := eq_ok_of_isOk (by decide +kernel)
  obtain ⟨answers, g₁, g₂, ran, -, again, alike⟩ := failed_visits_leave_nothing (.begun started)
    [⟨":bad"⟩, ⟨":good"⟩, ⟨":gone"⟩] (left brokenStart).2 .epoch
  have answered : (outcome brokenVisits).map (List.map Except.isOk) = .ok [false, true, false] := by
    decide +kernel
  have attempts : (left brokenVisits).1.scopes.attempts = 3 := by decide +kernel
  have visited : brokenVisits = .ok answers (g₁, (left brokenStart).2) := ran
  rw [visited] at answered attempts
  have pattern : answers.map Except.isOk = [false, true, false] := Except.ok.inj answered
  rw [accepted_eq, pattern] at again
  exact ⟨_, _, answers, g₁, g₂, started, ran, pattern, again, attempts, alike⟩

end RuleDepot.Generation
