import RuleDepot.Proofs.Cache.Fetching
import RuleDepot.Proofs.Collector.Finalizing
import RuleDepot.Proofs.Collector.Planning
import RuleDepot.Proofs.Generation.Calls
/-!
Whose fault a failed end is.  A collector that is finalized once, and asked for what scopes needed,
may fail for its configuration, for missing files or for the files around it, but never by breaking
the order of calls: its ledger is open, its cache serves until the end, and every dependency that it
merges was asked for at some version.  It fails for a text that is no coordinate only if a toolchain
is to be fetched at a version that is no part of one.
-/

namespace RuleDepot

open Running

/-- A failure that is not the driver's fault. -/
def BuildError.Excuses (e : BuildError) : Prop :=
  e.isDriverFault = false

theorem BuildError.excuses_io (context : String) (cause : IoError) :
    (BuildError.io context cause).Excuses := rfl

/-- A failure that is not the driver's fault, and not about a text that is no coordinate. -/
structure BuildError.Plain (e : BuildError) : Prop where
  excuses : e.Excuses
  spelled : ∀ bad, e ≠ .invalidCoordinate bad

private theorem BuildError.plain_io (context : String) (cause : IoError) :
    (BuildError.io context cause).Plain := ⟨rfl, nofun⟩

namespace Step

variable {σ α β : Type} {kind : BuildError → Prop} {step : Step σ α} {f : α → Step σ β}

/-- Whatever a step fails with is of one kind. -/
def FailsOnly (kind : BuildError → Prop) (step : Step σ α) : Prop :=
  ∀ s e s', step s = .error e s' → kind e

private theorem failsOnly_pure (a : α) : FailsOnly kind (pure a : Step σ α) :=
  nofun

private theorem failsOnly_part : FailsOnly kind (part : Step σ σ) :=
  nofun

private theorem failsOnly_tree : FailsOnly kind (tree : Step σ Tree) :=
  nofun

private theorem failsOnly_change (g : σ → σ) : FailsOnly kind (change g) :=
  nofun

private theorem failsOnly_throw {e : BuildError} (own : kind e) : FailsOnly kind (throw e : Step σ α) := by
  intro s e' s' failed
  cases failed
  exact own

private theorem failsOnly_files {wrap : IoError → BuildError} (wrapped : ∀ cause, kind (wrap cause))
    (action : FileM α) : FailsOnly kind (files wrap action : Step σ α) := by
  intro s e s' failed
  rw [files_run] at failed
  split at failed <;> cases failed
  exact wrapped _

private theorem FailsOnly.bind (first : FailsOnly kind step) (rest : ∀ a, FailsOnly kind (f a)) :
    FailsOnly kind (step >>= f) := by
  intro s e s' failed
  rw [bind_run] at failed
  cases ran : step s with
  | error e' middle =>
    rw [ran] at failed
    cases failed
    exact first s e s' ran
  | ok a middle =>
    rw [ran] at failed
    exact rest a middle e s' failed

end Step

namespace Cache

open Step

variable {c c' : Cache} {a : Artifact} {forced : Bool} {t t' : Tree} {e : BuildError}

private theorem plain_writeFailure (c : Cache) (a : Artifact) (path : Path) (cause : IoError) :
    (c.writeFailure a path cause).Plain := ⟨rfl, nofun⟩

private theorem failsOnly_place (a : Artifact) (names : List String) :
    FailsOnly BuildError.Plain (place a names) := by
  induction names with
  | nil => exact failsOnly_part.bind fun _ => failsOnly_throw ⟨rfl, nofun⟩
  | cons name others ih =>
    refine failsOnly_part.bind fun c => failsOnly_tree.bind fun t => ?_
    simp only
    split
    · split
      · exact failsOnly_pure _
      · exact ih
    · split
      · split
        · exact failsOnly_throw ⟨rfl, nofun⟩
        · exact ih
        · exact (failsOnly_change _).bind fun _ => failsOnly_pure _
      · exact (failsOnly_files (c.plain_writeFailure a _) _).bind fun _ =>
          (failsOnly_change _).bind fun _ => failsOnly_pure _

private theorem failsOnly_publish (a : Artifact) : FailsOnly BuildError.Plain (publish a) := by
  refine failsOnly_part.bind fun c => failsOnly_tree.bind fun t => ?_
  have ensures : FailsOnly BuildError.Plain (do
      Step.files (c.writeFailure a c.root) (FileM.ensureDir c.root)
      place a (Naming.candidates a)) :=
    (failsOnly_files (c.plain_writeFailure a _) _).bind fun _ => failsOnly_place a _
  split
  · exact failsOnly_throw ⟨rfl, nofun⟩
  · exact ensures

private theorem failsOnly_lock (a : Artifact) : FailsOnly BuildError.Plain (lock a) :=
  failsOnly_part.bind fun _ =>
    (failsOnly_files (BuildError.plain_io _) _).bind fun _ =>
      failsOnly_files (BuildError.plain_io _) _

private theorem plain_of_fetch (serving : c.isSealed = false)
    (failed : fetch a forced (c, t) = .error e (c', t')) : e.Plain := by
  cases received c a forced with
  | refused shut => simp [serving] at shut
  | inPlace _ spared =>
    rw [fetch_of_spared serving spared] at failed
    cases failed
  | known _ needed held =>
    rw [fetch_of_known serving needed held] at failed
    cases failed
  | busy busy =>
    have stores : FailsOnly BuildError.Plain (do
        lock a
        let placed ← publish a
        let entry : CacheEntry := ⟨placed.1, c.root / placed.1, a, true⟩
        Step.change (record a entry placed.2)
        return entry) :=
      (failsOnly_lock a).bind fun _ => (failsOnly_publish a).bind fun _ =>
        (failsOnly_change _).bind fun _ => failsOnly_pure _
    rw [fetch_of_busy busy] at failed
    exact stores (c, t) e (c', t') failed

private theorem isSealed_fetch (c : Cache) (a : Artifact) (forced : Bool) (t : Tree) :
    (left (fetch a forced (c, t))).1.isSealed = c.isSealed := by
  have listed := fetch_cases c a forced t
  generalize fetch a forced (c, t) = result at listed ⊢
  cases listed with
  | stored _ _ _ _ _ _ _ placed => cases placed <;> rfl
  | _ => rfl

private theorem fetchAll_cons_error {request : Artifact × Bool} {rest : List (Artifact × Bool)}
    {after : Cache × Tree} (failed : fetchAll (request :: rest) (c, t) = .error e after) :
    fetch request.1 request.2 (c, t) = .error e after ∨
      ∃ entry c₁ t₁, fetch request.1 request.2 (c, t) = .ok entry (c₁, t₁) ∧
        fetchAll rest (c₁, t₁) = .error e after := by
  rw [fetchAll_cons, bind_run] at failed
  cases first : fetch request.1 request.2 (c, t) with
  | error e' middle =>
    rw [first] at failed
    cases failed
    exact Or.inl rfl
  | ok entry middle =>
    rw [first] at failed
    simp only [bind_run] at failed
    cases later : fetchAll rest middle with
    | error e' last =>
      rw [later] at failed
      exact Or.inr ⟨entry, middle.1, middle.2, rfl, later.trans failed⟩
    | ok entries last =>
      rw [later] at failed
      cases failed

private theorem plain_of_fetchAll {requests : List (Artifact × Bool)} (serving : c.isSealed = false)
    (failed : fetchAll requests (c, t) = .error e (c', t')) : e.Plain := by
  induction requests generalizing c t with
  | nil => cases failed
  | cons request rest ih =>
    have still := isSealed_fetch c request.1 request.2 t
    rcases fetchAll_cons_error failed with first | ⟨entry, c₁, t₁, first, later⟩
    · exact plain_of_fetch serving first
    · rw [first] at still
      exact ih (still.trans serving) later

end Cache

namespace VersionRequests

variable {requests : VersionRequests} {id version : String} {policy : ConflictPolicy} {e : BuildError}

/-- Merging blames nobody if some version was asked for. -/
theorem plain_of_select (asked : version ∈ requests)
    (failed : requests.select id policy = .error e) : e.Plain := by
  obtain ⟨overridden, chosen, sorted⟩ := exists_ascending asked
  rw [select_of_ascending sorted] at failed
  split at failed
  · cases failed
  · cases failed
    exact ⟨rfl, nofun⟩

end VersionRequests

namespace Requirements

variable {α : Type} {r : Requirements α} {policy : ConflictPolicy} {e : BuildError}

/-- Every dependency that is known was asked for at some version. -/
def Asked (r : Requirements α) : Prop :=
  ∀ (id : String) versions, r[id]? = some versions → ∃ version, version ∈ versions

theorem asked_addAll (requests : List (Request α)) : (addAll ∅ requests).Asked :=
  fun _ _ => exists_version

private theorem plain_of_select (asked : r.Asked) (failed : r.select policy = .error e) : e.Plain := by
  have refused := error_of_bind_first (fun _ => ⟨_, rfl⟩) failed
  obtain ⟨⟨id, versions⟩, member, refused⟩ := exists_of_mapM_eq_error refused
  obtain ⟨version, known⟩ :=
    asked id versions (Std.ExtTreeMap.mem_toList_iff_getElem?_eq_some.mp member)
  exact VersionRequests.plain_of_select (mem_versionRequests.mpr known) (selectOne_error_iff.mp refused)

end Requirements

namespace Resolver

variable {r : Resolver} {t : Tree} {keys : List ArtifactKey} {who : Option String} {e : BuildError}

private theorem plain_of_resolveAll (failed : r.resolveAll t keys who = .error e) : e.Plain := by
  rcases error_of_bind failed with first | ⟨⟨found, missing⟩, -, failed⟩
  · exact absurd first (gather_ne_error keys)
  · simp only at failed
    split at failed <;> cases failed
    exact ⟨rfl, nofun⟩

end Resolver

namespace Duty

variable {duty : Duty} {t : Tree} {r : Resolver} {demands : Demands} {e : BuildError}

/-- The modules of a toolchain and the version at which they are to be fetched for some requests. -/
inductive Fetches (demands : Demands) : Duty → List ArtifactModule → String → Prop
  | lint {config : LintConfig} {version : String} {diagnostics : List Diagnostic}
      (chosen : lintVersion config (Requirements.versionRequests (demands[lintId]?.getD ∅)) =
        .ok (version, diagnostics)) : Fetches demands (.lint config) config.artifacts version
  | runtime {language : Language} {config : RuntimeConfig} {version : String}
      {diagnostics : List Diagnostic}
      (chosen : demands.selectPinned config.conflictPolicy config.version =
        .ok (some version, diagnostics)) :
      Fetches demands (.runtime language config) config.artifacts version

/-- A toolchain is not fetched because files are missing, or because its version is no part of a
coordinate. -/
theorem planToolchain_error {name version : String} {modules : List ArtifactModule}
    {diagnostics : List Diagnostic}
    (failed : planToolchain name modules version t r diagnostics = .error e) :
    e.Plain ∨ modulesAt modules version = .error e := by
  rcases error_of_bind failed with invalid | ⟨keys, -, failed⟩
  · exact Or.inr invalid
  · have unresolved := error_of_bind_first (fun _ => ⟨_, rfl⟩) failed
    exact Or.inl (Resolver.plain_of_resolveAll unresolved)

/-- A version of lint is missing for want of a configured one, or merging is refused. -/
theorem plain_of_lintVersion {config : LintConfig} {requests : VersionRequests}
    (failed : lintVersion config requests = .error e) : e.Plain := by
  unfold lintVersion at failed
  simp only at failed
  split at failed
  · cases failed
  · split at failed
    · cases failed
      exact ⟨rfl, nofun⟩
    · rename_i filled
      rw [Std.ExtTreeMap.isEmpty_iff, Std.ExtTreeMap.eq_empty_iff_forall_not_mem] at filled
      obtain ⟨version, asked⟩ := not_forall_not.mp filled
      have refused := error_of_bind_first (fun _ => ⟨_, rfl⟩) failed
      exact VersionRequests.plain_of_select asked refused

/-- What is left when some artifacts win was asked for all the same. -/
theorem asked_pinAll (reason : String → Requested (Option Artifact) → Artifact → String)
    (artifacts : List Artifact) (asked : demands.Asked) :
    (Pinning.pinAll reason artifacts demands).open_.Asked := by
  intro id versions held
  rw [Pinning.pinAll, Pinning.open_foldl] at held
  split at held
  · cases held
  · exact asked id versions held

/-- A plan is refused for the configuration, for missing files or for versions that do not agree; or
a toolchain is to be fetched at a version that is no part of a coordinate. -/
theorem plan_error (asked : demands.Asked) (failed : duty.plan t r demands = .error e) :
    e.Plain ∨ ∃ modules version, duty.Fetches demands modules version ∧
      modulesAt modules version = .error e := by
  cases duty with
  | dependencies policy forced =>
    refine Or.inl ?_
    rcases error_of_bind failed with unresolved | ⟨pinned, -, failed⟩
    · exact Resolver.plain_of_resolveAll unresolved
    · have refused := error_of_bind_first (fun _ => ⟨_, rfl⟩) failed
      exact Requirements.plain_of_select (asked_pinAll _ pinned asked) refused
  | processors policy =>
    refine Or.inl ?_
    have refused := error_of_bind_first (fun _ => ⟨_, rfl⟩) failed
    exact Requirements.plain_of_select asked refused
  | lint config =>
    rcases error_of_bind failed with refused | ⟨⟨version, diagnostics⟩, chosen, failed⟩
    · exact Or.inl (plain_of_lintVersion refused)
    · exact (planToolchain_error failed).imp_right fun invalid => ⟨_, _, .lint chosen, invalid⟩
  | runtime language config =>
    rcases error_of_bind failed with refused | ⟨⟨version?, diagnostics⟩, chosen, failed⟩
    · refine Or.inl ?_
      unfold Requirements.selectPinned at refused
      split at refused
      · cases refused
      · have refused := error_of_bind_first (fun _ => ⟨_, rfl⟩) refused
        exact Requirements.plain_of_select asked refused
    · cases version? with
      | some version =>
        exact (planToolchain_error failed).imp_right fun invalid => ⟨_, _, .runtime chosen, invalid⟩
      | none => cases failed
  | transforms config =>
    refine Or.inl ?_
    rcases error_of_bind failed with unresolved | ⟨configured, -, failed⟩
    · exact Resolver.plain_of_resolveAll unresolved
    · have refused := error_of_bind_first (fun _ => ⟨_, rfl⟩) failed
      exact Requirements.plain_of_select (asked_pinAll _ configured asked) refused
  | robolectric config =>
    refine Or.inl ?_
    have unresolved := error_of_bind_first (fun _ => ⟨_, rfl⟩) failed
    exact Resolver.plain_of_resolveAll unresolved
  | tools config =>
    refine Or.inl ?_
    have refused := error_of_bind_first (fun _ => ⟨_, rfl⟩) failed
    exact Requirements.plain_of_select asked refused
  | extra name keys =>
    refine Or.inl ?_
    have unresolved := error_of_bind_first (fun _ => ⟨_, rfl⟩) failed
    exact Resolver.plain_of_resolveAll unresolved

/-- A version that is no part of a coordinate is met with whatever files there are. -/
theorem Fetches.plan_error {modules : List ArtifactModule} {version : String}
    (fetches : duty.Fetches demands modules version)
    (invalid : modulesAt modules version = .error e) : duty.plan t r demands = .error e := by
  cases fetches with
  | lint chosen =>
    simp only [plan, planLint, planToolchain, chosen, invalid, bind, Except.bind]
  | runtime chosen =>
    simp only [plan, planRuntime, planToolchain, chosen, invalid, bind, Except.bind]

/-- Modules cannot be named at a version only because it is no part of a coordinate. -/
theorem exists_bad_of_modulesAt {modules : List ArtifactModule} {version : String}
    (invalid : modulesAt modules version = .error e) : ∃ bad, e = .invalidCoordinate bad := by
  unfold modulesAt Except.mapError at invalid
  split at invalid <;> cases invalid
  exact ⟨_, rfl⟩

end Duty

namespace Collector

open Step

variable {c c' : Collector} {demands : Demands} {t t' : Tree} {e : BuildError}

private theorem failsOnly_removeStale : FailsOnly BuildError.Plain removeStale := by
  rintro ⟨c, t⟩ e s' failed
  rw [removeStale] at failed
  cases removed : FileM.removeFile c.cache.ruleFilePath t with
  | ok _ t' =>
    rw [removed] at failed
    cases failed
  | error cause t' =>
    simp only [removed] at failed
    split at failed <;> cases failed
    exact BuildError.plain_io _ _

private theorem failsOnly_writeRules (rules : List Rule) :
    FailsOnly BuildError.Plain (writeRules rules) := by
  refine failsOnly_part.bind fun c => ?_
  simp only
  split
  · exact failsOnly_removeStale.bind fun _ => failsOnly_pure _
  · exact (failsOnly_files (BuildError.plain_io _) _).bind fun _ => failsOnly_pure _

private theorem failsOnly_finish (rules : List Rule) (entries : List CacheEntry)
    (diagnostics : List Diagnostic) :
    FailsOnly BuildError.Plain (finish rules entries diagnostics) :=
  (failsOnly_change _).bind fun _ => failsOnly_part.bind fun _ =>
    (failsOnly_writeRules rules).bind fun _ => failsOnly_pure _

private theorem failsOnly_emit (plan : Plan) (entries : List CacheEntry) :
    FailsOnly BuildError.Plain (emit plan entries) :=
  failsOnly_part.bind fun _ => failsOnly_tree.bind fun _ => (failsOnly_change _).bind fun _ =>
    failsOnly_finish _ _ _

/-- Requests are not fulfilled because there is no plan for them, or for the files around. -/
theorem fulfil_error (serving : c.cache.isSealed = false)
    (failed : fulfil demands (c, t) = .error e (c', t')) :
    e.Plain ∨ c.duty.plan t c.cache.resolver demands = .error e := by
  cases planned : c.duty.plan t c.cache.resolver demands with
  | error e' =>
    rw [fulfil_of_plan_error planned] at failed
    cases failed
    exact Or.inr rfl
  | ok plan =>
    rw [fulfil_of_plan planned] at failed
    cases fetched : Cache.fetchAll plan.fetches (c.cache, t) with
    | error e' s =>
      rw [fetched] at failed
      cases failed
      exact Or.inl (Cache.plain_of_fetchAll serving fetched)
    | ok entries s =>
      rw [fetched] at failed
      cases failed

/-- A collector that has something to do fails because there is no plan, or for the files around. -/
theorem finalize_error (isOpen : c.ledger.pending = some demands)
    (serving : c.cache.isSealed = false) (failed : finalize (c, t) = .error e (c', t')) :
    e.Plain ∨
      c.duty.isIdle demands = false ∧ c.duty.plan t c.cache.resolver demands = .error e := by
  rw [finalize_open isOpen] at failed
  split at failed
  · exact Or.inl (failsOnly_finish [] [] [] (c.closed, t) e (c', t') failed)
  · rename_i busy
    cases fulfilled : fulfil demands (c.closed, t) with
    | error e' s =>
      obtain ⟨c'', t''⟩ := s
      rw [serve_of_failed fulfilled, abandon_run] at failed
      obtain rfl : e' = e := (EStateM.Result.error.inj failed).1
      refine (fulfil_error (c := c.closed) serving fulfilled).imp_right fun planned => ⟨?_, planned⟩
      simpa using busy
    | ok result s =>
      rw [serve_of_fulfilled fulfilled] at failed
      exact Or.inl (failsOnly_emit result.1 result.2 s e (c', t') failed)

/-- Requests that cannot be fulfilled fail the end of the pass for the same reason. -/
theorem serve_of_fulfil_error {s : Collector × Tree} (failed : fulfil demands (c, t) = .error e s) :
    ∃ after, serve demands (c, t) = .error e after :=
  ⟨_, (serve_of_failed failed).trans (abandon_run e s.1 s.2)⟩

/-- A collector that has something to do and no plan for it fails for want of one. -/
theorem finalize_of_plan_error (isOpen : c.ledger.pending = some demands)
    (busy : c.duty.isIdle demands = false)
    (planned : c.duty.plan t c.cache.resolver demands = .error e) :
    ∃ after, finalize (c, t) = .error e after := by
  rw [finalize_open isOpen, busy]
  exact serve_of_fulfil_error (fulfil_of_plan_error (c := c.closed) planned)

/-- **The end of a collector is not the driver's fault.**  If its ledger is open with requests that
all name versions, and its cache serves, whatever the collector fails with is no breach of the order
of calls. -/
theorem excuses_of_finalize (isOpen : c.ledger.pending = some demands)
    (serving : c.cache.isSealed = false) (asked : demands.Asked)
    (failed : finalize (c, t) = .error e (c', t')) : e.Excuses := by
  rcases finalize_error isOpen serving failed with plain | ⟨-, planned⟩
  · exact plain.excuses
  · rcases Duty.plan_error asked planned with plain | ⟨modules, version, -, invalid⟩
    · exact plain.excuses
    · obtain ⟨bad, rfl⟩ := Duty.exists_bad_of_modulesAt invalid
      rfl

end Collector

end RuleDepot
