import RuleDepot.Collector.Basic
import RuleDepot.Proofs.Files.Replacing
import RuleDepot.Proofs.RuleTexts
/-!
What the end of a pass depends on.  A collector asks its requests two things: whether there is
nothing to do about them, and what is to be fetched.  Collectors that agree in these end a pass in
the same way.  Every stage of the end has an equation for each way it can go, and everything else about
it is derived from these equations.
-/

namespace RuleDepot

/-- The rule file has a name of its own. -/
theorem Cache.isName_ruleFileName : Path.IsName Cache.ruleFileName :=
  ⟨by decide, by decide, by decide, by decide⟩

/-- The rules that a reader finds in the rule file which a report names, and of which the file is the
printed form; without a file there are none. -/
def CollectorReport.Emits (report : CollectorReport) (root : Path) (t : Tree) (rules : List Rule) :
    Prop :=
  match report.ruleFile with
  | none => rules = []
  | some path => path = root / Cache.ruleFileName ∧ ∃ text : String, t.read path = .ok text.toUTF8 ∧
      RuleReader.rules? text = some rules ∧ text = printRules rules

/-- Rules are found as long as the rule file stays. -/
theorem CollectorReport.Emits.stays {report : CollectorReport} {root : Path} {t t' : Tree}
    {rules : List Rule} (emits : report.Emits root t rules)
    (stays : ∀ content, t.read (root / Cache.ruleFileName) = .ok content →
      t'.read (root / Cache.ruleFileName) = .ok content) : report.Emits root t' rules := by
  unfold Emits at emits ⊢
  cases file : report.ruleFile with
  | none => simpa only [file] using emits
  | some path =>
    simp only [file] at emits ⊢
    obtain ⟨rfl, text, read, found⟩ := emits
    exact ⟨rfl, text, stays _ read, found⟩

namespace Collector

open Running

variable {c c' : Collector} {demands demands' : Demands} {t : Tree}

/-- A collector whose ledger is closed. -/
def closed (c : Collector) : Collector :=
  { c with ledger := { c.ledger with pending := none } }

/-- What is done about requests. -/
def serve (demands : Demands) : Step Collector CollectorReport := do
  match (← Step.attempt (fulfil demands)) with
  | .error e => abandon e
  | .ok (plan, entries) => emit plan entries

/-- An open collector closes its ledger and serves what was in it. -/
theorem finalize_open (isOpen : c.ledger.pending = some demands) (t : Tree) :
    finalize (c, t) =
      if c.duty.isIdle demands then finish [] [] [] (c.closed, t) else serve demands (c.closed, t) := by
  have close : c.ledger.close = .ok (demands, { c.ledger with pending := none }) := by
    simp only [Ledger.close, isOpen]
  rw [finalize, Step.part_bind, close]
  change (if c.duty.isIdle demands then finish [] [] [] else serve demands) (c.closed, t) = _
  split <;> rfl

/-- Requests that cannot be fulfilled are abandoned. -/
theorem serve_of_failed {e : BuildError} {s : Collector × Tree}
    (failed : fulfil demands (c, t) = .error e s) : serve demands (c, t) = abandon e s := by
  rw [serve, bind_run, Step.attempt, failed]

/-- Rules are made of requests that were fulfilled. -/
theorem serve_of_fulfilled {plan : Plan} {entries : List CacheEntry} {s : Collector × Tree}
    (fulfilled : fulfil demands (c, t) = .ok (plan, entries) s) :
    serve demands (c, t) = emit plan entries s := by
  rw [serve, bind_run, Step.attempt, fulfilled]

/-- To make rules and answers is to keep the answers and write the rules. -/
theorem emit_run (plan : Plan) (entries : List CacheEntry) (c : Collector) (t : Tree) :
    emit plan entries (c, t) =
      finish (Emission.of c.duty c.cache t plan entries).rules entries
        (plan.diagnostics ++ (Emission.of c.duty c.cache t plan entries).diagnostics)
        ({ c with answers := (Emission.of c.duty c.cache t plan entries).answers }, t) := by
  rw [emit, Step.part_bind, Step.tree_bind, Step.change_bind]

/-- Whatever the removal of an old rule file comes to, the first failure is the one that is told. -/
theorem abandon_run {α : Type} (e : BuildError) (c : Collector) (t : Tree) :
    (abandon e : Step Collector α) (c, t) =
      .error e (left (removeStale ({ c with cache := c.cache.sealed }, t))) := by
  rw [abandon, Step.change_bind, bind_run, Step.attempt]
  cases removeStale ({ c with cache := c.cache.sealed }, t) <;> rfl

/-- The end of a pass seals the cache and writes the rules. -/
theorem finish_run (rules : List Rule) (entries : List CacheEntry) (diagnostics : List Diagnostic)
    (c : Collector) (t : Tree) :
    finish rules entries diagnostics (c, t) =
      match writeRules rules ({ c with cache := c.cache.sealed }, t) with
      | .ok file s => .ok ⟨c.name, c.duty.shelf, file, entries, diagnostics⟩ s
      | .error e s => .error e s := by
  rw [finish, Step.change_bind, Step.part_bind, bind_run]
  cases writeRules rules ({ c with cache := c.cache.sealed }, t) <;> rfl

/-- Without rules an old rule file is taken away. -/
theorem writeRules_nil (c : Collector) (t : Tree) :
    writeRules [] (c, t) = match removeStale (c, t) with
      | .ok _ s => .ok none s
      | .error e s => .error e s := by
  change (removeStale >>= fun _ => pure none) (c, t) = _
  rw [bind_run]
  cases removeStale (c, t) <;> rfl

/-- Where there are rules, they are published. -/
theorem writeRules_filled {rules : List Rule} (filled : rules ≠ []) (c : Collector) (t : Tree) :
    writeRules rules (c, t) =
      match FileM.publishBytes c.cache.ruleFilePath (printRules rules).toUTF8 t with
      | .ok _ t' => .ok (some c.cache.ruleFilePath) (c, t')
      | .error e t' => .error (.io s!"writing rule file {c.cache.ruleFilePath.text}" e) (c, t') := by
  rw [writeRules, Step.part_bind, if_neg (by simpa using filled), bind_run, Step.files_run]
  cases FileM.publishBytes c.cache.ruleFilePath (printRules rules).toUTF8 t <;> rfl

private theorem serve_congr (plan : ∀ t r, c.duty.plan t r demands = c.duty.plan t r demands') (t : Tree) :
    serve demands (c, t) = serve demands' (c, t) := by
  have fulfilled : fulfil demands (c, t) = fulfil demands' (c, t) := by
    change (do
        let plan ← Step.ofExcept (c.duty.plan t c.cache.resolver demands)
        return (plan, ← onCache (Cache.fetchAll plan.fetches)) : Step Collector _) (c, t) = _
    rw [plan]
    rfl
  have attempted : Step.attempt (fulfil demands) (c, t) = Step.attempt (fulfil demands') (c, t) := by
    simp only [Step.attempt, fulfilled]
  simp only [serve, bind_run, attempted]

/-- Two collectors that have the same to do. -/
structure Alike (c c' : Collector) : Prop where
  closed : c'.closed = c.closed
  demands : ∃ demands demands', c.ledger.pending = some demands ∧
    c'.ledger.pending = some demands' ∧ c.duty.isIdle demands = c.duty.isIdle demands' ∧
    ∀ t r, c.duty.plan t r demands = c.duty.plan t r demands'

/-- Collectors that have the same to do end a pass in the same way. -/
theorem Alike.finalize_eq (alike : Alike c c') (t : Tree) : finalize (c, t) = finalize (c', t) := by
  obtain ⟨demands, demands', isOpen, isOpen', idle, plan⟩ := alike.demands
  have duty : c'.duty = c.duty := by
    change c'.closed.duty = c.closed.duty
    rw [alike.closed]
  rw [finalize_open isOpen, finalize_open isOpen', alike.closed, duty, idle]
  split
  · rfl
  · exact serve_congr (c := c.closed) plan t

/-- Without a plan nothing is fetched. -/
theorem fulfil_of_plan_error {e : BuildError}
    (planned : c.duty.plan t c.cache.resolver demands = .error e) :
    fulfil demands (c, t) = .error e (c, t) := by
  rw [fulfil, Step.part_bind, Step.tree_bind, planned]
  rfl

/-- What is planned is fetched, and nothing of the collector is touched but its cache. -/
theorem fulfil_of_plan {plan : Plan} (planned : c.duty.plan t c.cache.resolver demands = .ok plan) :
    fulfil demands (c, t) = match Cache.fetchAll plan.fetches (c.cache, t) with
      | .ok entries s => .ok (plan, entries) ({ c with cache := s.1 }, s.2)
      | .error e s => .error e ({ c with cache := s.1 }, s.2) := by
  rw [fulfil, Step.part_bind, Step.tree_bind, planned]
  change (onCache (Cache.fetchAll plan.fetches) >>= fun entries => pure (plan, entries)) (c, t) = _
  rw [bind_run, onCache, Step.within]
  cases Cache.fetchAll plan.fetches (c.cache, t) <;> rfl

/-- Requests are fulfilled by a plan and the artifacts that it fetches. -/
theorem fulfil_ok {plan : Plan} {entries : List CacheEntry} {after : Collector × Tree}
    (ran : fulfil demands (c, t) = .ok (plan, entries) after) :
    c.duty.plan t c.cache.resolver demands = .ok plan ∧
      ∃ cache t', Cache.fetchAll plan.fetches (c.cache, t) = .ok entries (cache, t') ∧
        after = ({ c with cache }, t') := by
  cases planned : c.duty.plan t c.cache.resolver demands with
  | error e =>
    rw [fulfil_of_plan_error planned] at ran
    cases ran
  | ok found =>
    rw [fulfil_of_plan planned] at ran
    cases fetched : Cache.fetchAll found.fetches (c.cache, t) with
    | error e s =>
      rw [fetched] at ran
      cases ran
    | ok others s =>
      rw [fetched] at ran
      cases ran
      exact ⟨rfl, s.1, s.2, fetched, rfl⟩

/-- What becomes of the rule file: without rules an old one is taken away, if there is one. -/
inductive Writes (path : Path) : List Rule → Tree → Option Path → Tree → Prop where
  | absent {t : Tree} {e : IoError} (failed : FileM.removeFile path t = .error e t)
      (missing : e.kind = .notFound) : Writes path [] t none t
  | removed {t t' : Tree} (gone : FileM.removeFile path t = .ok () t') : Writes path [] t none t'
  | published {rules : List Rule} {t t' : Tree} (filled : rules ≠ [])
      (put : FileM.publishBytes path (printRules rules).toUTF8 t = .ok () t') :
      Writes path rules t (some path) t'

theorem Writes.emits {root : Path} {rules : List Rule} {t t' : Tree} {report : CollectorReport}
    (writes : Writes (root / Cache.ruleFileName) rules t report.ruleFile t')
    (named : ∀ rule ∈ rules, rule.Named) : report.Emits root t' rules := by
  unfold CollectorReport.Emits
  cases file : report.ruleFile with
  | none =>
    rw [file] at writes
    cases writes <;> rfl
  | some path =>
    rw [file] at writes
    cases writes with
    | published filled put =>
      exact ⟨rfl, _, (FileM.read_publishBytes put).1, RuleReader.rules?_printRules named, rfl⟩

/-- What becomes of the rule file leaves all other files as they are. -/
theorem Writes.keeps {root : Path} {rules : List Rule} {t t' : Tree} {file : Option Path}
    (writes : Writes (root / Cache.ruleFileName) rules t file t') :
    t.Keeps (root / Cache.ruleFileName) t' := by
  cases writes with
  | absent => exact (Tree.Grown.refl (fun _ _ => True) t).keeps _
  | removed gone => exact FileM.keeps_removeFile Cache.isName_ruleFileName gone
  | published filled put =>
    obtain ⟨-, workingDir, others⟩ := FileM.read_publishBytes put
    exact ⟨workingDir, fun q content _ => others q content⟩

private theorem removeStale_ok {after : Collector × Tree}
    (ran : removeStale (c, t) = .ok () after) :
    ∃ t', after = (c, t') ∧ Writes c.cache.ruleFilePath [] t none t' := by
  rcases FileM.removeFile_cases c.cache.ruleFilePath t with ⟨e, failed⟩ | ⟨former, gone, -⟩
  · simp only [removeStale, failed] at ran
    split at ran
    · rename_i missing
      cases ran
      exact ⟨t, rfl, .absent failed missing⟩
    · cases ran
  · simp only [removeStale, gone] at ran
    cases ran
    exact ⟨_, rfl, .removed gone⟩

private theorem writeRules_ok {rules : List Rule} {file : Option Path} {after : Collector × Tree}
    (ran : writeRules rules (c, t) = .ok file after) :
    ∃ t', after = (c, t') ∧ Writes c.cache.ruleFilePath rules t file t' := by
  by_cases filled : rules = []
  · subst filled
    rw [writeRules_nil] at ran
    cases removed : removeStale (c, t) with
    | error e s =>
      rw [removed] at ran
      cases ran
    | ok _ s =>
      obtain ⟨t', rfl, writes⟩ := removeStale_ok removed
      rw [removed] at ran
      cases ran
      exact ⟨t', rfl, writes⟩
  · rw [writeRules_filled filled] at ran
    cases put : FileM.publishBytes c.cache.ruleFilePath (printRules rules).toUTF8 t with
    | error e t' =>
      rw [put] at ran
      cases ran
    | ok _ t' =>
      rw [put] at ran
      cases ran
      exact ⟨t', rfl, .published filled put⟩

/-- The end of a pass seals the cache, writes the rule file and reports. -/
theorem finish_ok {rules : List Rule} {entries : List CacheEntry} {diagnostics : List Diagnostic}
    {report : CollectorReport} {after : Collector × Tree}
    (ran : finish rules entries diagnostics (c, t) = .ok report after) :
    ∃ file t', report = ⟨c.name, c.duty.shelf, file, entries, diagnostics⟩ ∧
      after = ({ c with cache := c.cache.sealed }, t') ∧
      Writes c.cache.ruleFilePath rules t file t' := by
  rw [finish_run] at ran
  cases wrote : writeRules rules ({ c with cache := c.cache.sealed }, t) with
  | error e s =>
    rw [wrote] at ran
    cases ran
  | ok file s =>
    obtain ⟨t', rfl, writes⟩ := writeRules_ok wrote
    rw [wrote] at ran
    cases ran
    exact ⟨file, t', rfl, rfl, writes⟩

/-- How a collector ends a pass successfully: with nothing to do, or with a plan, the entries that it
fetches and the rules and answers that are made of them. -/
inductive Finalized (c : Collector) (demands : Demands) (t : Tree) :
    CollectorReport → Collector → Tree → Prop where
  | idle {file : Option Path} {t' : Tree} (idle : c.duty.isIdle demands = true)
      (writes : Writes c.cache.ruleFilePath [] t file t') :
      Finalized c demands t ⟨c.name, c.duty.shelf, file, [], []⟩
        { c.closed with cache := c.cache.sealed } t'
  | served {plan : Plan} {entries : List CacheEntry} {cache : Cache} {middle t' : Tree}
      {file : Option Path} (planned : c.duty.plan t c.cache.resolver demands = .ok plan)
      (fetched : Cache.fetchAll plan.fetches (c.cache, t) = .ok entries (cache, middle))
      (writes : Writes cache.ruleFilePath (Emission.of c.duty cache middle plan entries).rules
        middle file t') :
      Finalized c demands t
        ⟨c.name, c.duty.shelf, file, entries,
          plan.diagnostics ++ (Emission.of c.duty cache middle plan entries).diagnostics⟩
        { c.closed with
          cache := cache.sealed
          answers := (Emission.of c.duty cache middle plan entries).answers } t'

theorem Finalized.shelf {report : CollectorReport} {c' : Collector} {t' : Tree}
    (ended : Finalized c demands t report c' t') : report.shelf = c.duty.shelf := by
  cases ended <;> rfl

/-- If requests are served, the plan for them is fetched, and rules and answers are made of that. -/
theorem serve_ok {report : CollectorReport} {after : Collector × Tree}
    (ran : serve demands (c, t) = .ok report after) :
    ∃ plan entries cache middle file t', c.duty.plan t c.cache.resolver demands = .ok plan ∧
      Cache.fetchAll plan.fetches (c.cache, t) = .ok entries (cache, middle) ∧
      Writes cache.ruleFilePath (Emission.of c.duty cache middle plan entries).rules middle file t' ∧
      report = ⟨c.name, c.duty.shelf, file, entries,
        plan.diagnostics ++ (Emission.of c.duty cache middle plan entries).diagnostics⟩ ∧
      after = ({ c with
        cache := cache.sealed
        answers := (Emission.of c.duty cache middle plan entries).answers }, t') := by
  cases fulfilled : fulfil demands (c, t) with
  | error e s =>
    rw [serve_of_failed fulfilled, abandon_run] at ran
    cases ran
  | ok result s =>
    obtain ⟨plan, entries⟩ := result
    obtain ⟨planned, cache, middle, fetched, rfl⟩ := fulfil_ok fulfilled
    rw [serve_of_fulfilled fulfilled, emit_run] at ran
    obtain ⟨file, t', rfl, rfl, writes⟩ := finish_ok ran
    exact ⟨plan, entries, cache, middle, file, t', planned, fetched, writes, rfl, rfl⟩

/-- Whenever a collector that was open is finalized, it is in one of these ways. -/
theorem finalized_of_ok {report : CollectorReport} {c' : Collector} {t' : Tree}
    (isOpen : c.ledger.pending = some demands)
    (ran : finalize (c, t) = .ok report (c', t')) : Finalized c demands t report c' t' := by
  rw [finalize_open isOpen] at ran
  split at ran
  · rename_i idle
    obtain ⟨file, after, rfl, same, writes⟩ := finish_ok ran
    cases same
    exact .idle idle writes
  · obtain ⟨plan, entries, cache, middle, file, after, planned, fetched, writes, rfl, same⟩ :=
      serve_ok ran
    cases same
    exact .served planned fetched writes

end Collector

end RuleDepot
