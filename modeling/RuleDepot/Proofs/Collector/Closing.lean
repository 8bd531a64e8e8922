import RuleDepot.Proofs.Collector.Finalizing
import RuleDepot.Proofs.Collector.Registering
import RuleDepot.Proofs.Cache.Frame
import RuleDepot.Proofs.Files.Standing
/-!
What the end of a collector leaves behind.  Whether it succeeds or fails, the cache is sealed and the
ledger closed, and nothing is answered afterwards.  A rule file is left only with the rules of this
pass; there is one way in which that of an earlier pass stays, which is that there are rules and the
file to stage them in has a path that the file system does not admit.
-/

namespace RuleDepot

open Running FileM

namespace Cache

variable {c : Cache} {t : Tree}

private theorem fetch_sealed (shut : c.isSealed = true) (a : Artifact) (forced : Bool) (t : Tree) :
    ∃ e, fetch a forced (c, t) = .error e (c, t) ∧ e.isDriverFault = true :=
  ⟨_, fetch_of_sealed shut a forced t, rfl⟩

end Cache

namespace Collector

variable {c : Collector} {demands : Demands} {t : Tree}

/-- A collector that has ended its pass. -/
structure Over (c : Collector) : Prop where
  shut : c.cache.isSealed = true
  closed : c.ledger.pending = none

/-- Everything that is asked of a collector is the driver's fault and changes nothing. -/
structure Refuses (c : Collector) : Prop where
  register : ∀ scope, ∃ e, c.register scope = .error e ∧ e.isDriverFault = true
  finalize : ∀ t, ∃ e, Collector.finalize (c, t) = .error e (c, t) ∧ e.isDriverFault = true
  fetch : ∀ a forced t,
    ∃ e, Cache.fetch a forced (c.cache, t) = .error e (c.cache, t) ∧ e.isDriverFault = true

private theorem Over.refuses (ended : Over c) : Refuses c where
  register scope := by
    obtain ⟨e, ensured, blames⟩ : ∃ e, c.ledger.ensureOpen scope.requester = .error e ∧
        e.isDriverFault = true :=
      ⟨.protocolViolation c.ledger.component s!"register from {scope.requester} after finalize",
        by simp [Ledger.ensureOpen, ended.closed], rfl⟩
    unfold Collector.register
    simp only [ensured]
    split
    · exact ⟨e, rfl, blames⟩
    · rename_i needed
      cases needs : c.duty.needs scope with
      | nil => simp [needs] at needed
      | cons need rest =>
        refine ⟨.protocolViolation c.ledger.component
          s!"'{need.logicalId}' registered by {scope.requester} after finalize", ?_, rfl⟩
        rw [List.foldlM_cons]
        simp only [Ledger.record, ended.closed]
        rfl
  finalize t := by
    refine ⟨.protocolViolation c.ledger.component "finalize called more than once", ?_, rfl⟩
    rw [Collector.finalize, Step.part_bind]
    simp only [Ledger.close, ended.closed]
    rfl
  fetch := Cache.fetch_sealed ended.shut

/-- The rules that a collector makes of what it fetches for the requests. -/
def rulesFor (c : Collector) (demands : Demands) (t : Tree) : List Rule :=
  if c.duty.isIdle demands then []
  else
    match fulfil demands (c.closed, t) with
    | .ok (plan, entries) (c, t) => (Emission.of c.duty c.cache t plan entries).rules
    | .error _ _ => []

/-- Rules cannot be written for want of an admissible path to stage them at. -/
structure Unstaged (path : Path) (e : BuildError) (t : Tree) : Prop where
  barred : ∃ kind, Tree.admissible (stagedPath t path.stagingDir) = .error kind
  reason : ∃ cause, e = .io s!"writing rule file {path.text}" cause

/-- How a collector may end: with a file of its rules, with none, or with an old one because of a
path. -/
structure Leaves (path : Path) (rules : List Rule)
    (result : EStateM.Result BuildError (Collector × Tree) CollectorReport) : Prop where
  ended : Over (left result).1
  reported : ∀ report, outcome result = .ok report →
    report.ruleFile = none ∧ (left result).2.isFile path = false ∨
      report.ruleFile = some path ∧ (left result).2.read path = .ok (printRules rules).toUTF8
  failed : ∀ e, outcome result = .error e →
    (left result).2.isFile path = false ∨ Unstaged path e (left result).2

private theorem removeStale_spec (c : Collector) (t : Tree) :
    (left (removeStale (c, t))).1 = c ∧
      (left (removeStale (c, t))).2.isFile c.cache.ruleFilePath = false := by
  have gone := isFile_removeFile c.cache.ruleFilePath t
  rw [removeStale]
  cases removed : removeFile c.cache.ruleFilePath t with
  | ok _ t' =>
    rw [removed] at gone
    exact ⟨rfl, gone⟩
  | error e t' =>
    rw [removed] at gone
    simp only
    split <;> exact ⟨rfl, gone⟩

/-- Sealing leaves the cache where it is. -/
theorem ruleFilePath_sealed (c : Cache) : c.sealed.ruleFilePath = c.ruleFilePath := rfl

/-- Whatever is to be reported, the cache is sealed; the rules are written unless their file cannot
be staged. -/
theorem finish_leaves (closed : c.ledger.pending = none) (rules : List Rule)
    (entries : List CacheEntry) (diagnostics : List Diagnostic) (t : Tree) :
    Leaves c.cache.ruleFilePath rules (finish rules entries diagnostics (c, t)) := by
  rw [finish_run]
  by_cases filled : rules = []
  · subst filled
    obtain ⟨same, gone⟩ := removeStale_spec { c with cache := c.cache.sealed } t
    rw [writeRules_nil]
    cases removed : removeStale ({ c with cache := c.cache.sealed }, t) with
    | ok _ s =>
      rw [removed] at same gone
      obtain ⟨c', t'⟩ := s
      obtain rfl : c' = { c with cache := c.cache.sealed } := same
      exact ⟨⟨rfl, closed⟩, fun _ done => by cases done; exact .inl ⟨rfl, gone⟩,
        fun _ failed => (by cases failed)⟩
    | error e s =>
      rw [removed] at same gone
      obtain ⟨c', t'⟩ := s
      obtain rfl : c' = { c with cache := c.cache.sealed } := same
      exact ⟨⟨rfl, closed⟩, fun _ done => (by cases done), fun _ _ => .inl gone⟩
  · rw [writeRules_filled filled, ruleFilePath_sealed]
    cases put : publishBytes c.cache.ruleFilePath (printRules rules).toUTF8 t with
    | ok _ t' =>
      exact ⟨⟨rfl, closed⟩, fun _ done => by cases done; exact .inr ⟨rfl, (read_publishBytes put).1⟩,
        fun _ failed => (by cases failed)⟩
    | error e t' =>
      refine ⟨⟨rfl, closed⟩, fun _ done => (by cases done), fun e' failed => ?_⟩
      cases failed
      cases stands : t'.isFile c.cache.ruleFilePath with
      | false => exact .inl stands
      | true => exact .inr ⟨unstaged_of_publishBytes Cache.isName_ruleFileName put stands, _, rfl⟩

/-- Whatever the failure, the cache is sealed and no rule file is left. -/
theorem abandon_leaves (closed : c.ledger.pending = none) (rules : List Rule) (e : BuildError)
    (t : Tree) : Leaves c.cache.ruleFilePath rules (abandon e (c, t)) := by
  obtain ⟨same, gone⟩ := removeStale_spec { c with cache := c.cache.sealed } t
  rw [abandon_run]
  have ended : Over (left (removeStale ({ c with cache := c.cache.sealed }, t))).1 :=
    same.symm ▸ ⟨rfl, closed⟩
  exact ⟨ended, fun _ done => (by cases done), fun _ _ => .inl gone⟩

/-- Whatever comes of the requests, nothing of a collector is touched but what its cache holds. -/
theorem fulfil_left (demands : Demands) (c : Collector) (t : Tree) :
    ∃ cache, cache.root = c.cache.root ∧
      (left (fulfil demands (c, t))).1 = { c with cache } := by
  cases planned : c.duty.plan t c.cache.resolver demands with
  | error e =>
    rw [fulfil_of_plan_error planned]
    exact ⟨c.cache, rfl, rfl⟩
  | ok plan =>
    have root := Cache.fetchAll_root c.cache plan.fetches t
    rw [fulfil_of_plan planned]
    cases fetched : Cache.fetchAll plan.fetches (c.cache, t) with
    | ok _ s | error _ s =>
      rw [fetched] at root
      exact ⟨s.1, root, rfl⟩

/-- An open collector that is finalized leaves its rules or none. -/
theorem finalize_leaves (isOpen : c.ledger.pending = some demands) (t : Tree) :
    Leaves c.cache.ruleFilePath (rulesFor c demands t) (finalize (c, t)) := by
  rw [finalize_open isOpen]
  by_cases idle : c.duty.isIdle demands = true
  · simp only [idle, if_true, rulesFor]
    exact finish_leaves (c := c.closed) rfl [] [] [] t
  · simp only [idle, Bool.false_eq_true, if_false, rulesFor]
    obtain ⟨cache, root, same⟩ := fulfil_left demands c.closed t
    have path : cache.ruleFilePath = c.cache.ruleFilePath :=
      congrArg (· / Cache.ruleFileName) root
    rw [← path]
    cases fulfilled : fulfil demands (c.closed, t) with
    | error e s =>
      rw [serve_of_failed fulfilled]
      rw [fulfilled] at same
      obtain ⟨c', t'⟩ := s
      obtain rfl : c' = { c.closed with cache } := same
      exact abandon_leaves (c := { c.closed with cache }) rfl [] e t'
    | ok result s =>
      obtain ⟨plan, entries⟩ := result
      rw [serve_of_fulfilled fulfilled, emit_run]
      rw [fulfilled] at same
      obtain ⟨c', t'⟩ := s
      obtain rfl : c' = { c.closed with cache } := same
      exact finish_leaves (c := { c.closed with
        cache, answers := (Emission.of c.duty cache t' plan entries).answers }) rfl _ _ _ t'

/-- **A pass ends once, and leaves its own rules or none.**  Every collector takes down whatever
scopes it is shown.  Finalizing it over any files leaves a file with the rules of this pass, if it
reports one, and no rule file if it reports none or fails; only where the rules cannot be staged an
earlier file stays.  In each case everything that is asked afterwards is refused and changes
nothing. -/
theorem finalize_once (duty : Duty) (cacheRoot : Path) (resolver : Resolver) (log : List Scope)
    (t : Tree) :
    ∃ c demands, log.foldlM register (new duty cacheRoot resolver) = .ok c ∧
      c.ledger.pending = some demands ∧
      Leaves (cacheRoot / duty.shelf.dirName / Cache.ruleFileName) (rulesFor c demands t)
        (finalize (c, t)) ∧
      Refuses (left (finalize (c, t))).1 := by
  have isOpen : (new duty cacheRoot resolver).ledger.pending = some ∅ := rfl
  have leaves := finalize_leaves (c := (new duty cacheRoot resolver).shown log) rfl t
  exact ⟨_, _, register_foldlM isOpen log, rfl, leaves, leaves.ended.refuses⟩

end Collector

end RuleDepot
