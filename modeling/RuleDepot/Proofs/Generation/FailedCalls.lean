import RuleDepot.Proofs.Generation.FinalOrder
/-!
Calls that fail.  The state file is written at the very end of a pass, so a call that fails has not come
to it: what stands at its place is left as it was.  If nothing stood there, a directory may be there
afterwards, but only if the path of the workspace or of the root of the cache leads through this place.
-/

namespace RuleDepot

open Running RuleDepot.Tree

/-- A place is left as it was, or a directory was made where nothing stood, for a reason. -/
def Tree.Spared (reason : Prop) (place : Location) (t t' : Tree) : Prop :=
  t'.node? place = t.node? place ∨
    reason ∧ t.node? place = none ∧ t'.node? place = some .directory

namespace Tree

variable {t t' t'' : Tree} {place : Location} {reason : Prop} {made put : Location → Prop}

theorem Spared.trans (first : Spared reason place t t') (second : Spared reason place t' t'') :
    Spared reason place t t'' := by
  rcases second with same | ⟨because, absent, held⟩
  · rcases first with same' | ⟨because, absent, held⟩
    · exact Or.inl (same.trans same')
    · exact Or.inr ⟨because, absent, same.trans held⟩
  · rcases first with same' | ⟨-, -, held'⟩
    · exact Or.inr ⟨because, same' ▸ absent, held⟩
    · rw [held'] at absent
      cases absent

private theorem Edited.spared (edited : Edited made put t t') (unput : ¬ put place)
    (because : made place → reason) : Spared reason place t t' :=
  (edited.elsewhere unput).imp_right (And.imp_left because)

end Tree

namespace Generation

variable {config : Config} {home workspace : Path} {project : Project} {log : List Scope}
  {shelves : List Shelf} {now : Instant} {e : BuildError} {cause : IoError} {bytes : ByteArray}
  {g g₀ : Generation} {t t' : Tree} {after : Generation × Tree}

/-- The path of the workspace or of the root of the cache leads through the place of the state file. -/
def LeadsThrough (g : Generation) (t : Tree) : Prop :=
  t.Passes g.workspace (t.lexical g.stateFile) ∨ t.Passes g.cacheRoot (t.lexical g.stateFile)

private theorem leadsThrough_congr (g : Generation) (same : t'.workingDir = t.workingDir) :
    g.LeadsThrough t' ↔ g.LeadsThrough t := by
  simp only [LeadsThrough, passes_congr same, lexical_congr same]

/-- The state file is not on the way from the workspace to a place that is not below its directory. -/
theorem passes_workspace {q : Path} {names : List String}
    (continues : Path.Continues g.workspace q names) (solid : ∀ s ∈ names, Path.IsName s)
    (aside : ¬ [".buckforge", "state", "STATE"] <+: names)
    (passes : t.Passes q (t.lexical g.stateFile)) : t.Passes g.workspace (t.lexical g.stateFile) := by
  refine (passes_of_continues continues solid passes).resolve_right ?_
  rintro ⟨front, -, within, same⟩
  rw [lexical_stateFile, List.append_assoc] at same
  obtain rfl := List.append_cancel_left same
  exact aside within

/-- The beginning of a pass takes away the directory for intermediate files at most, and makes
directories on two ways. -/
theorem start_edited (g : Generation) (rooted : t.Rooted) :
    ∃ emptied, (emptied = t ∨ emptied = t.erase (t.lexical g.scratchDir)) ∧
      Edited (fun place => t.Passes g.scratchDir place ∨ t.Passes g.cacheRoot place) (fun _ => False)
        emptied (left (start (g, t))).2 := by
  by_cases fresh : g.phase = .uninitialized
  · have named := isName_own "gen" (by decide)
    have removed := FileM.left_removeDirs (d := g.workspace / ".buckforge") named t
    rw [← scratchDir_eq] at removed
    obtain ⟨emptied, same⟩ : ∃ emptied, left (FileM.removeDirs g.scratchDir t) = emptied := ⟨_, rfl⟩
    rw [same] at removed
    have spec : emptied.Rooted ∧ emptied.workingDir = t.workingDir := by
      rcases removed with rfl | rfl
      · exact ⟨rooted, rfl⟩
      · exact ⟨Rooted.erase rooted (by simp [lexical_scratchDir]), rfl⟩
    refine ⟨emptied, removed, ?_⟩
    rw [start_opened fresh, bind_run, Step.files_run, bind_run]
    cases gone : FileM.removeDirs g.scratchDir t with
    | error cause u =>
      rw [gone] at same
      obtain rfl : u = emptied := same
      change Edited _ _ u u
      exact .refl spec.1
    | ok _ u =>
      rw [gone] at same
      obtain rfl : u = emptied := same
      have first : Edited (u.Passes g.scratchDir) (fun _ => False) u
          (left (FileM.ensureDir g.scratchDir u)) := FileM.ensureDir_edited spec.1 Or.inl
      simp only
      cases made : FileM.ensureDir g.scratchDir u with
      | error cause v =>
        rw [made] at first
        exact first.mono (fun _ passes => Or.inl ((passes_congr spec.2 _ _).mp passes)) fun _ => id
      | ok _ v =>
        rw [made] at first
        have second : Edited (v.Passes g.cacheRoot) (fun _ => False) v
            (left (FileM.ensureDir g.cacheRoot v)) := FileM.ensureDir_edited first.rooted Or.inl
        have dir : v.workingDir = t.workingDir := first.workingDir.trans spec.2
        have both := (first.mono (fun _ passes => Or.inl ((passes_congr spec.2 _ _).mp passes))
          fun _ => id).trans (second.mono (fun _ passes => Or.inr ((passes_congr dir _ _).mp passes))
          fun _ => id)
        simp only [bind_run, Step.files_run]
        cases ensured : FileM.ensureDir g.cacheRoot v with
        | error cause w | ok _ w =>
          rw [ensured] at both
          exact both
  · obtain ⟨-, reason, ran⟩ := (start_cases g t).resolve_right fun taken => fresh taken.1
    rw [ran]
    exact ⟨t, Or.inl rfl, .refl rooted⟩

/-- The beginning of a pass spares the state file, even if it fails. -/
theorem spared_of_start (g : Generation) (rooted : t.Rooted) :
    Spared (g.LeadsThrough t) (t.lexical g.stateFile) t (left (start (g, t))).2 := by
  obtain ⟨emptied, removed, edited⟩ := start_edited g rooted
  have kept : emptied.node? (t.lexical g.stateFile) = t.node? (t.lexical g.stateFile) := by
    rcases removed with rfl | rfl
    · rfl
    · refine node?_erase ?_
      rw [lexical_scratchDir, lexical_stateFile, List.append_assoc, List.prefix_append_right_inj]
      decide
  refine .trans (Or.inl kept) (edited.spared id fun passes => passes.imp_left fun passes => ?_)
  exact passes_workspace g.continues_scratchDir (fun s member => isName_own s (by revert s; decide))
    (by decide) passes

private theorem spared_of_finalizeAll (project : Project) (digested : ∀ scope ∈ log, scope.Digested)
    (rooted : t.Rooted) (named : ∀ shelf ∈ shelves, shelf.IsNamed)
    (root : g.cacheRoot = config.cacheRoot home workspace) :
    Spared (g.LeadsThrough t) (t.lexical g.stateFile) t
      (finalizeAll t (shelves.map (stationOf config home workspace project log))).2.2 := by
  have foreign {start : Location} {shelf : Shelf} (touches : shelf.Touches start
      (t.lexical g.stateFile)) : False := by
    rw [lexical_stateFile] at touches
    exact touches.ne Shelf.foreign_names.2.2 rfl
  refine (finalizeAll_edited config home workspace project digested rooted named).spared
    (fun ⟨shelf, _, holds⟩ => foreign (Or.inr holds)) ?_
  rintro (passes | ⟨shelf, -, touches⟩)
  · exact Or.inr (root ▸ passes)
  · exact (foreign touches).elim

private theorem spared_of_publish (rooted : t.Rooted)
    (failed : FileM.publishBytes g.stateFile bytes t = .error cause t') :
    Spared (g.LeadsThrough t) (t.lexical g.stateFile) t t' := by
  refine (FileM.publishBytes_failed rooted failed).spared id fun passes => Or.inl ?_
  have named := isName_own "STATE" (by decide)
  have good : ∀ s ∈ [".buckforge", "state"], Path.IsName s := fun s member =>
    isName_own s (by revert s; decide)
  have above : Path.Continues g.workspace (g.workspace / ".buckforge" / "state")
      [".buckforge", "state"] :=
    (Path.continues_join _ (good ".buckforge" (by decide))).join (by simp)
      (fun s member => good s (by simp_all)) (good "state" (by decide))
  rw [show g.stateFile.stagingDir = (g.workspace / ".buckforge" / "state" / "STATE").stagingDir from
    congrArg Path.stagingDir g.stateFile_eq] at passes
  exact passes_workspace above good (by decide) (passes_of_stagingDir_join named passes)

private theorem spared_of_finish (accepted : config.check = .ok config)
    (underway : Underway config home workspace project g) (rooted : t.Rooted)
    (failed : finish now (g, t) = .error e after) :
    Spared (g.LeadsThrough t) (t.lexical g.stateFile) t after.2 := by
  obtain ⟨log, stations, digested⟩ := underway.stations_eq
  have named := Config.isNamed_of_check accepted
  have edited := finalizeAll_edited config home workspace project digested rooted named
  have spared := spared_of_finalizeAll project digested rooted named underway.placed.2
  rcases finish_failed underway.accumulates.phase failed with same | ⟨bytes, cause, put⟩
  · rw [same, stations]
    exact spared
  · rw [stations] at put
    have last := spared_of_publish edited.rooted put
    rw [leadsThrough_congr _ edited.workingDir, edited.lexical] at last
    exact spared.trans last

/-- What holds of a pass between two calls: it has not begun, is under way, or is over, at the place where
it began. -/
structure Standing (config : Config) (home workspace : Path) (project : Project) (g : Generation) :
    Prop where
  base : g.workspace = workspace
  root : g.cacheRoot = config.cacheRoot home workspace
  stage : g = new config home workspace project ∨ Underway config home workspace project g ∨
    g.phase = .finalized

private theorem Underway.standing (underway : Underway config home workspace project g) :
    Standing config home workspace project g :=
  ⟨underway.placed.1, underway.placed.2, Or.inr (Or.inl underway)⟩

/-- A pass that accumulates is under way. -/
theorem Standing.underway (standing : Standing config home workspace project g)
    (phase : g.phase = .accumulating) : Underway config home workspace project g := by
  rcases standing.stage with rfl | underway | ended
  · cases phase
  · exact underway
  · rw [ended] at phase
    cases phase

namespace Made

/-- Calls leave behind a pass that has not begun, is under way, or is over. -/
theorem standing_after (standing : Standing config home workspace project g) (call : Call) (t : Tree) :
    Standing config home workspace project (Made.after ⟨call, g, t⟩) := by
  by_cases late : g.phase ≠ call.phase
  · obtain ⟨reason, ran⟩ := refused (m := ⟨call, g, t⟩) late
    rw [Made.after, ran]
    exact standing
  have taken := not_not.mp late
  unfold Made.after
  cases call with
  | start =>
    obtain ⟨context, cause, t', ran⟩ | ⟨t', ran⟩ :=
      ((start_cases g t).resolve_left fun late => late.1 taken).2
    · rw [result_start, ran]
      exact standing
    · have fresh : g = new config home workspace project := by
        refine standing.stage.resolve_right ?_
        rintro (underway | ended)
        · rw [underway.accumulates.phase] at taken
          cases taken
        · rw [ended] at taken
          cases taken
      rw [result_start, ran]
      rw [fresh] at ran ⊢
      exact (Underway.begun ran).standing
  | visit id =>
    have called := ((standing.underway taken).called id t).standing
    rw [result_visit]
    cases ran : visit id (g, t) <;> rwa [ran] at called
  | finish now =>
    have closed := (finish_cases taken now t).1
    rw [result_finish]
    cases ran : finish now (g, t) <;>
    · rw [ran] at closed
      exact ⟨(congrArg Generation.workspace closed).trans standing.base,
        (congrArg cacheRoot closed).trans standing.root,
        Or.inr (Or.inr (congrArg phase closed))⟩

end Made

/-- So every call of a series is made to such a pass.  The induction is on the calls that are left. -/
theorem standing_of_history (standing : Standing config home workspace project g)
    (calls : List (Call × Tree)) :
    ∀ m ∈ history g calls, Standing config home workspace project m.pass := by
  induction calls generalizing g with
  | nil => simp [history]
  | cons first rest ih =>
    obtain ⟨call, t⟩ := first
    exact List.forall_mem_cons.mpr ⟨standing, ih (Made.standing_after standing call t)⟩

/-- A call that fails spares the state file. -/
theorem spared_of_call {m : Made} (accepted : config.check = .ok config)
    (standing : Standing config home workspace project m.pass) (rooted : m.files.Rooted)
    (failed : outcome m.result = .error e) :
    Spared (m.pass.LeadsThrough m.files) (m.files.lexical m.pass.stateFile) m.files m.filesAfter := by
  by_cases late : m.pass.phase ≠ m.call.phase
  · obtain ⟨reason, ran⟩ := Made.refused late
    rw [Made.filesAfter, ran]
    exact Or.inl rfl
  obtain ⟨call, g, t⟩ := m
  have taken := not_not.mp late
  unfold Made.filesAfter
  cases call with
  | start =>
    have spared := spared_of_start g rooted
    rw [Made.result_start]
    cases ran : start (g, t) <;> rwa [ran] at spared
  | visit id =>
    rw [Made.result_visit, visit_foreseen (standing.underway taken).accumulates id t]
    cases g.scopes.visitable t id <;> exact Or.inl rfl
  | finish now =>
    rw [Made.result_finish] at failed ⊢
    cases ran : finish now (g, t) with
    | ok report after =>
      rw [ran] at failed
      cases failed
    | error e' after => exact spared_of_finish accepted (standing.underway taken) rooted ran

end Generation

end RuleDepot
