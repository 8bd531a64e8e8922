import RuleDepot.Proofs.Cache.Matching
import RuleDepot.Proofs.Collector.Repeating
/-!
Collectors that end alike.  Whatever comes of the end of a collector, it changes files in the directory of
its shelf only, and makes directories on the way there.  What it comes to depends on the plan, on the
requests and on the rule file; over trees that these cannot tell apart, a collector ends alike.
-/

namespace RuleDepot

open Running RuleDepot.Tree

variable {t u base : Tree} {R : Tree → Tree → Prop} {path root d : Path} {home : Location}
  {inner made put : Location → Prop} {x y name : String} {names : List String}

namespace Step

variable {σ : Type}

/-- The same part twice, with files that are related. -/
def Paired (R : Tree → Tree → Prop) (s s' : σ × Tree) : Prop :=
  s'.1 = s.1 ∧ R s.2 s'.2

end Step

namespace FileM

/-- Trees that cannot be told apart by taking away the file at a path, nor by publishing one there. -/
structure Blind (R : Tree → Tree → Prop) (path : Path) : Prop where
  removes : ∀ {t u}, R t u → Matches R (removeFile path t) (removeFile path u)
  publishes : ∀ {t u}, R t u → ∀ bytes,
    Matches R (publishBytes path bytes t) (publishBytes path bytes u)

theorem blind_of_avoids (avoids : Avoids inner base path) (parent : path.parent? ≠ none) :
    Blind (fun t u => SameBut inner t u ∧ t.workingDir = base.workingDir) path where
  removes := fun ⟨same, begins⟩ => (removeFile_matches same (avoids.congr begins)).keeping
    ((workingDir_removeFile _ _).trans begins)
  publishes := fun ⟨same, begins⟩ bytes =>
    (publishBytes_matches same (avoids.congr begins) parent bytes).keeping
      ((workingDir_publishBytes _ _ _).trans begins)

theorem blind_of_shared (continues : Path.Continues d path (x :: y :: names ++ [name]))
    (solid : ∀ s ∈ x :: y :: names ++ [name], Path.IsName s ∧ s.utf8ByteSize ≤ nameLimit) :
    Blind (fun t u => u = t ∨ Shared home d x t u) path := by
  have same {α : Type} (r : EStateM.Result IoError Tree α) :
      Matches (fun t u => u = t ∨ Shared home d x t u) r r :=
    Matches.refl (fun (_ : Tree) => Or.inl rfl) r
  have two : ∀ s ∈ [x, y], Path.IsName s ∧ s.utf8ByteSize ≤ nameLimit := fun s member =>
    solid s (List.mem_append_left [name] (List.mem_append_left names member))
  refine ⟨fun {t u} related => ?_, fun {t u} related bytes => ?_⟩ <;> rcases related with rfl | shared
  · exact same _
  · have continues' : Path.Continues d path (x :: y :: (names ++ [name])) := by simpa using continues
    obtain ⟨e, here, there⟩ := removeFile_shared shared continues' two
    exact here ▸ there ▸ .error (Or.inr shared)
  · exact same _
  · rcases publishBytes_shared shared continues solid bytes with put | ⟨e, here, there⟩
    · exact put ▸ same _
    · exact here ▸ there ▸ .error (Or.inr shared)

end FileM

private theorem processorClasses_congr {jar : Path}
    (reads : ∀ bytes, u.read jar = .ok bytes ↔ t.read jar = .ok bytes) :
    processorClasses u jar = processorClasses t jar := by
  unfold processorClasses
  cases here : t.read jar with
  | ok bytes => rw [(reads bytes).mpr here]
  | error e =>
    cases there : u.read jar with
    | ok bytes =>
      rw [(reads bytes).mp there] at here
      cases here
    | error e' => rfl

/-- What is made of fetched files depends on the processors in them and on nothing else of the files. -/
theorem Emission.of_congr {duty : Duty} {cache : Cache} {plan : Plan} {entries : List CacheEntry}
    (scanned : ∀ e ∈ entries, processorClasses u e.path = processorClasses t e.path) :
    Emission.of duty cache u plan entries = Emission.of duty cache t plan entries := by
  cases duty with
  | processors policy =>
    have same : entries.map (fun e => (e, processorClasses u e.path)) =
        entries.map fun e => (e, processorClasses t e.path) :=
      List.map_congr_left fun e member => by rw [scanned e member]
    simp only [Emission.of, Emission.ofProcessors, same]
  | _ => rfl

/-- Fetched files have the same processors in them where the requests cannot tell the files apart. -/
theorem Cache.scanned_of_fetchAll {c cache : Cache} {requests : List (Artifact × Bool)}
    {entries : List CacheEntry} {middle : Tree} (fresh : c.entries = ∅) (solid : c.root.text ≠ "")
    (supplied : c.Supplied t) (digests : ∀ request ∈ requests, request.1.hash.IsDigest)
    (blind : ∀ request ∈ requests, Cache.Blind R c.root request.1)
    (fetched : fetchAll requests (c, t) = .ok entries (cache, middle)) (related : R middle u) :
    ∀ e ∈ entries, processorClasses u e.path = processorClasses middle e.path := by
  intro e member
  obtain ⟨supplied', extended, answered, artifacts, -⟩ :=
    supplied_fetchAll solid supplied digests fetched
  obtain ⟨request, asked, given⟩ := (mem_answers_iff answered).mp member
  obtain ⟨-, -, ⟨-, rfl⟩ | ⟨-, kept⟩⟩ := supplied'.answer_spec given
  · exact processorClasses_congr ((blind request asked).source related)
  · obtain ⟨request, asked, same⟩ := (artifacts e member).resolve_left fun ⟨id, held⟩ => by
      simp [fresh] at held
    have status := (blind request asked).names related e.fileName (same ▸ kept.candidate)
    rw [kept.path, extended.root]
    exact processorClasses_congr fun bytes => by rw [read_eq_ok_iff, read_eq_ok_iff, status]

namespace Collector

variable {c : Collector} {demands : Demands}

section Marks

variable (rooted : t.Rooted) (own : put (t.lexical c.cache.ruleFilePath))

include rooted own

private theorem removeStale_edited : Edited made put t (left (removeStale (c, t))).2 := by
  have removed : Edited made put t (left (FileM.removeFile c.cache.ruleFilePath t)) :=
    FileM.removeFile_edited rooted own
  rw [removeStale]
  cases ran : FileM.removeFile c.cache.ruleFilePath t with
  | ok _ s =>
    rw [ran] at removed
    exact removed
  | error e s =>
    rw [ran] at removed
    simp only
    split <;> exact removed

private theorem abandon_edited {α : Type} (e : BuildError) :
    Edited made put t (left (abandon (α := α) e (c, t))).2 := by
  have removed : Edited made put t (left (removeStale ({ c with cache := c.cache.sealed }, t))).2 :=
    removeStale_edited rooted own
  rw [abandon_run]
  exact removed

private theorem finish_edited
    (allowed : ∀ {place}, t.Passes c.cache.root place → made place ∨ t.node? place = some .directory)
    (own' : made (t.lexical c.cache.ruleFilePath)) (rules : List Rule) (entries : List CacheEntry)
    (diagnostics : List Diagnostic) :
    Edited made put t (left (finish rules entries diagnostics (c, t))).2 := by
  have removed : Edited made put t (left (removeStale ({ c with cache := c.cache.sealed }, t))).2 :=
    removeStale_edited rooted own
  have parent : c.cache.ruleFilePath.parent? ≠ none := by
    obtain ⟨q, known, -⟩ := parent?_join (d := c.cache.root) t Cache.isName_ruleFileName
    simp [Cache.ruleFilePath, known]
  have published (bytes : ByteArray) :
      Edited made put t (left (FileM.publishBytes c.cache.ruleFilePath bytes t)) := by
    refine FileM.publishBytes_edited rooted parent (fun passes => ?_) own
    rcases passes_join Cache.isName_ruleFileName passes with passes | rfl
    · exact allowed passes
    · rw [← lexical_join t Cache.isName_ruleFileName]
      exact Or.inl own'
  rw [finish_run]
  by_cases filled : rules = []
  · subst filled
    rw [writeRules_nil]
    cases ran : removeStale ({ c with cache := c.cache.sealed }, t) with
    | ok _ s | error _ s =>
      rw [ran] at removed
      exact removed
  · have put := published (printRules rules).toUTF8
    rw [writeRules_filled filled, ruleFilePath_sealed]
    cases ran : FileM.publishBytes c.cache.ruleFilePath (printRules rules).toUTF8 t with
    | ok _ s | error _ s =>
      rw [ran] at put
      exact put

end Marks

/-- What is planned and fetched is done to the files by the requests. -/
theorem fulfil_edited (rooted : t.Rooted) (solid : c.cache.root.text ≠ "")
    (allowed : ∀ {place}, t.Passes c.cache.root place → made place ∨ t.node? place = some .directory)
    (digests : ∀ plan, c.duty.plan t c.cache.resolver demands = .ok plan →
      ∀ request ∈ plan.fetches, request.1.hash.IsDigest) :
    Cache.Marked made (t.lexical c.cache.root) t (left (fulfil demands (c, t))).2 := by
  cases planned : c.duty.plan t c.cache.resolver demands with
  | error e =>
    rw [fulfil_of_plan_error planned]
    exact .refl rooted
  | ok plan =>
    have fetched := Cache.fetchAll_edited allowed rooted solid (digests plan planned)
    rw [fulfil_of_plan planned]
    cases ran : Cache.fetchAll plan.fetches (c.cache, t) with
    | ok _ s | error _ s =>
      rw [ran] at fetched
      exact fetched

/-- **A collector keeps to its shelf.**  Whatever comes of it, the end of a collector makes directories on
the way to the directory of its shelf, and changes files in there only. -/
theorem finalize_edited (isOpen : c.ledger.pending = some demands) (rooted : t.Rooted)
    (solid : c.cache.root.text ≠ "")
    (allowed : ∀ {place}, t.Passes c.cache.root place → made place ∨ t.node? place = some .directory)
    (digests : ∀ plan, c.duty.plan t c.cache.resolver demands = .ok plan →
      ∀ request ∈ plan.fetches, request.1.hash.IsDigest) :
    Cache.Marked made (t.lexical c.cache.root) t (left (finalize (c, t))).2 := by
  have holds (t : Tree) (cache : Cache) :
      Cache.Holds (t.lexical cache.root) (t.lexical cache.ruleFilePath) :=
    Or.inl ⟨_, Or.inl rfl, lexical_join t Cache.isName_ruleFileName⟩
  rw [finalize_open isOpen]
  split
  · exact finish_edited (c := c.closed) rooted (holds t c.cache)
      (fun passes => (allowed passes).imp_left Or.inl) (Or.inr (holds t c.cache)) [] [] []
  · have edited : Cache.Marked made (t.lexical c.cache.root) t
        (left (fulfil demands (c.closed, t))).2 :=
      fulfil_edited (c := c.closed) rooted solid allowed digests
    obtain ⟨cache, root, same⟩ := fulfil_left demands c.closed t
    cases fulfilled : fulfil demands (c.closed, t) with
    | error e s =>
      rw [serve_of_failed fulfilled]
      rw [fulfilled] at same edited
      obtain ⟨c', t'⟩ := s
      obtain rfl : c' = { c.closed with cache } := same
      replace edited : Cache.Marked made (t.lexical c.cache.root) t t' := edited
      have own := holds t' cache
      rw [root, edited.lexical] at own
      exact edited.trans (abandon_edited (c := { c.closed with cache }) edited.rooted own e)
    | ok result s =>
      obtain ⟨plan, entries⟩ := result
      rw [serve_of_fulfilled fulfilled, emit_run]
      rw [fulfilled] at same edited
      obtain ⟨c', t'⟩ := s
      obtain rfl : c' = { c.closed with cache } := same
      replace edited : Cache.Marked made (t.lexical c.cache.root) t t' := edited
      have own := holds t' cache
      rw [root, edited.lexical] at own
      refine edited.trans (finish_edited (c := { c.closed with
          cache, answers := (Emission.of c.duty cache t' plan entries).answers }) edited.rooted own
        (fun passes => ?_) (Or.inr own) _ _ _)
      have passes' := (passes_congr edited.workingDir _ _).mp (root ▸ passes)
      exact ((allowed passes').imp_left Or.inl).imp_right edited.directory

section Congruence

variable (related : R t u)

include related

private theorem removeStale_matches (blind : FileM.Blind R c.cache.ruleFilePath) :
    Matches (Step.Paired R) (removeStale (c, t)) (removeStale (c, u)) := by
  have removed := blind.removes related
  rw [removeStale, removeStale]
  generalize FileM.removeFile c.cache.ruleFilePath t = x at removed ⊢
  generalize FileM.removeFile c.cache.ruleFilePath u = y at removed ⊢
  cases removed with
  | ok related => exact .ok ⟨rfl, related⟩
  | error related =>
    simp only
    split
    · exact .ok ⟨rfl, related⟩
    · exact .error ⟨rfl, related⟩

private theorem abandon_matches {α : Type} (blind : FileM.Blind R c.cache.ruleFilePath) (e : BuildError) :
    Matches (Step.Paired R) (abandon (α := α) e (c, t)) (abandon (α := α) e (c, u)) := by
  have removed := removeStale_matches (c := { c with cache := c.cache.sealed }) related blind
  rw [abandon_run, abandon_run]
  exact .error removed.related

private theorem finish_matches (blind : FileM.Blind R c.cache.ruleFilePath) (rules : List Rule)
    (entries : List CacheEntry) (diagnostics : List Diagnostic) :
    Matches (Step.Paired R) (finish rules entries diagnostics (c, t))
      (finish rules entries diagnostics (c, u)) := by
  have wrote : Matches (Step.Paired R) (writeRules rules ({ c with cache := c.cache.sealed }, t))
      (writeRules rules ({ c with cache := c.cache.sealed }, u)) := by
    by_cases filled : rules = []
    · have removed := removeStale_matches (c := { c with cache := c.cache.sealed }) related blind
      rw [filled, writeRules_nil, writeRules_nil]
      generalize removeStale ({ c with cache := c.cache.sealed }, t) = x at removed ⊢
      generalize removeStale ({ c with cache := c.cache.sealed }, u) = y at removed ⊢
      cases removed with
      | ok beside => exact .ok beside
      | error beside => exact .error beside
    · have put := blind.publishes related (printRules rules).toUTF8
      rw [writeRules_filled filled, writeRules_filled filled, ruleFilePath_sealed]
      generalize FileM.publishBytes c.cache.ruleFilePath (printRules rules).toUTF8 t = x at put ⊢
      generalize FileM.publishBytes c.cache.ruleFilePath (printRules rules).toUTF8 u = y at put ⊢
      cases put with
      | ok related' => exact .ok ⟨rfl, related'⟩
      | error related' => exact .error ⟨rfl, related'⟩
  rw [finish_run, finish_run]
  generalize writeRules rules ({ c with cache := c.cache.sealed }, t) = x at wrote ⊢
  generalize writeRules rules ({ c with cache := c.cache.sealed }, u) = y at wrote ⊢
  cases wrote with
  | ok beside => exact .ok beside
  | error beside => exact .error beside

private theorem fulfil_matches (solid : c.cache.root.text ≠ "")
    (replanned : c.duty.plan u c.cache.resolver demands = c.duty.plan t c.cache.resolver demands)
    (blind : ∀ plan, c.duty.plan t c.cache.resolver demands = .ok plan →
      ∀ request ∈ plan.fetches, Cache.Blind R c.cache.root request.1) :
    Matches (Step.Paired R) (fulfil demands (c, t)) (fulfil demands (c, u)) := by
  cases planned : c.duty.plan t c.cache.resolver demands with
  | error e =>
    rw [fulfil_of_plan_error planned, fulfil_of_plan_error (replanned.trans planned)]
    exact .error ⟨rfl, related⟩
  | ok plan =>
    have fetched : Matches (Step.Paired R) (Cache.fetchAll plan.fetches (c.cache, t))
        (Cache.fetchAll plan.fetches (c.cache, u)) :=
      Cache.fetchAll_matches solid (blind plan planned) related
    rw [fulfil_of_plan planned, fulfil_of_plan (replanned.trans planned)]
    generalize Cache.fetchAll plan.fetches (c.cache, t) = x at fetched ⊢
    generalize Cache.fetchAll plan.fetches (c.cache, u) = y at fetched ⊢
    cases fetched with
    | ok beside => exact .ok ⟨by rw [beside.1], beside.2⟩
    | error beside => exact .error ⟨by rw [beside.1], beside.2⟩

private theorem serve_matches (fresh : c.cache.entries = ∅) (supplied : c.cache.Supplied t)
    (solid : c.cache.root.text ≠ "")
    (replanned : c.duty.plan u c.cache.resolver demands = c.duty.plan t c.cache.resolver demands)
    (digests : ∀ plan, c.duty.plan t c.cache.resolver demands = .ok plan →
      ∀ request ∈ plan.fetches, request.1.hash.IsDigest)
    (blind : ∀ plan, c.duty.plan t c.cache.resolver demands = .ok plan →
      ∀ request ∈ plan.fetches, Cache.Blind R c.cache.root request.1)
    (blind' : FileM.Blind R c.cache.ruleFilePath) :
    Matches (Step.Paired R) (serve demands (c, t)) (serve demands (c, u)) := by
  have fulfils := fulfil_matches related solid replanned blind
  obtain ⟨cache, root, same⟩ := fulfil_left demands c t
  have path : cache.ruleFilePath = c.cache.ruleFilePath := congrArg (· / Cache.ruleFileName) root
  cases fulfilled : fulfil demands (c, t) with
  | error e s =>
    rw [serve_of_failed fulfilled]
    rw [fulfilled] at fulfils same
    generalize fulfilled' : fulfil demands (c, u) = y at fulfils
    cases fulfils with
    | @error _ _ s' beside =>
      rw [serve_of_failed fulfilled']
      obtain ⟨c₁, t₁⟩ := s
      obtain ⟨c₂, u₁⟩ := s'
      obtain ⟨rfl, related'⟩ := beside
      obtain rfl : c₂ = { c with cache } := same
      exact abandon_matches (c := { c with cache }) related' (path ▸ blind') e
  | ok result s =>
    obtain ⟨plan, entries⟩ := result
    obtain ⟨planned, cache', middle, fetched, after⟩ := fulfil_ok fulfilled
    rw [serve_of_fulfilled fulfilled]
    rw [fulfilled] at fulfils same
    generalize fulfilled' : fulfil demands (c, u) = y at fulfils
    cases fulfils with
    | @ok _ _ s' beside =>
      rw [serve_of_fulfilled fulfilled']
      obtain ⟨c₁, t₁⟩ := s
      obtain ⟨c₂, u₁⟩ := s'
      obtain ⟨rfl, related'⟩ := beside
      obtain rfl : c₂ = { c with cache } := same
      obtain ⟨rfl, rfl⟩ : cache = cache' ∧ t₁ = middle := by
        cases after
        exact ⟨rfl, rfl⟩
      have emitted : Emission.of c.duty cache u₁ plan entries =
          Emission.of c.duty cache t₁ plan entries :=
        Emission.of_congr (Cache.scanned_of_fetchAll fresh solid supplied (digests plan planned)
          (blind plan planned) fetched related')
      rw [emit_run, emit_run, emitted]
      exact finish_matches (c := { c with
        cache, answers := (Emission.of c.duty cache t₁ plan entries).answers }) related'
        (path ▸ blind') _ _ _

/-- **A collector ends alike where it cannot tell the files apart.**  If the plan is the same, and the
requests and the rule file come to the same over related trees, then so does the end of the collector, and
it leaves related trees behind. -/
theorem finalize_matches (isOpen : c.ledger.pending = some demands) (fresh : c.cache.entries = ∅)
    (supplied : c.cache.Supplied t) (solid : c.cache.root.text ≠ "")
    (replanned : c.duty.plan u c.cache.resolver demands = c.duty.plan t c.cache.resolver demands)
    (digests : ∀ plan, c.duty.plan t c.cache.resolver demands = .ok plan →
      ∀ request ∈ plan.fetches, request.1.hash.IsDigest)
    (blind : ∀ plan, c.duty.plan t c.cache.resolver demands = .ok plan →
      ∀ request ∈ plan.fetches, Cache.Blind R c.cache.root request.1)
    (blind' : FileM.Blind R c.cache.ruleFilePath) :
    Matches (Step.Paired R) (finalize (c, t)) (finalize (c, u)) := by
  rw [finalize_open isOpen, finalize_open isOpen]
  split
  · exact finish_matches (c := c.closed) related blind' [] [] []
  · exact serve_matches (c := c.closed) related fresh supplied solid replanned digests blind blind'

end Congruence

end Collector

end RuleDepot
