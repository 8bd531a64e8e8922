import RuleDepot.Proofs.Collector.References
import RuleDepot.Proofs.Collector.Targets
/-!
Annotation processors.  However many scopes run a processor, and at whatever versions, its jar is
copied once, at the version that the requests come to, and there is one rule for the processor in it.
All coordinates of the processor that scopes name lead to that rule.
-/

namespace RuleDepot

open Running

variable {entries : List CacheEntry} {e : CacheEntry} {rule : Rule}

namespace Rule

/-- Whether a rule is for an annotation processor. -/
def isProcessor (rule : Rule) : Bool :=
  rule.ruleType = "java_annotation_processor"

/-- A rule for the processor in the jar of an entry, which needs the rule for that jar and no other. -/
structure RunsFrom (rule : Rule) (e : CacheEntry) : Prop where
  name : rule.name = Emission.processorName e
  deps : rule.attrs["deps"]? = some (.list [(prebuilt e).localTarget])

private theorem prebuilt_not_isProcessor (e : CacheEntry) : (prebuilt e).isProcessor = false := by
  unfold prebuilt
  split <;> rfl

end Rule

namespace Emission

/-- Of the rules for some jars those for processors are one for each jar, in order. -/
theorem runs_processorRules (entries : List CacheEntry) (classes : CacheEntry → List String) :
    List.Forall₂ Rule.RunsFrom
      ((entries.flatMap fun e => processorRules e (classes e)).filter Rule.isProcessor) entries := by
  induction entries with
  | nil => exact .nil
  | cons e rest ih =>
    rw [List.flatMap_cons, List.filter_append]
    have own : (processorRules e (classes e)).filter Rule.isProcessor =
        [(((Rule.of "java_annotation_processor" (processorName e)).withList
          "deps" [(Rule.prebuilt e).localTarget]).withList "processor_classes" (classes e)).withFlag
          "does_not_affect_abi" false] := by
      rw [processorRules, List.filter_cons_of_neg (by simp [Rule.prebuilt_not_isProcessor])]
      rfl
    rw [own]
    refine .cons ⟨rfl, ?_⟩ ih
    simp only [Rule.withFlag, Rule.withList, Rule.withAttr, Table.getElem?_insert]
    rw [if_neg (by decide), if_neg (by decide), if_pos trivial]

private theorem processorLabel_eq (c : Cache) (stored : e.materialized = true)
    (colonless : ':' ∉ e.ruleName.toList) : processorLabel c e =
      Cache.labelDir c.root c.resolver.workspace ++ ":" ++ processorName e := by
  simp only [processorLabel, c.cutLast_label stored colonless, String.ofList_toList]

end Emission

/-- A processor that one of some scopes runs. -/
def Processing (shown : Scope → Prop) (a : Artifact) : Prop :=
  ∃ scope, shown scope ∧ a ∈ scope.annotationProcessors

/-- The file of an entry is in a directory and holds what its source held before, unless the two are a
collision.  Two coordinates that collide may have to share a file. -/
def CacheEntry.CopiedTo (e : CacheEntry) (root : Path) (entries : List CacheEntry) (t t' : Tree) :
    Prop :=
  e.materialized = true ∧ ∃ bytes, t'.status (root / e.fileName) = .ok (.file bytes) ∧
    (Apart entries → ∀ content, t.read e.artifact.source = .ok content →
      bytes = content ∨ Digest.Collision bytes content)

/-- Rules for wanted processors.  Of each identity that is wanted there is one entry, at the version
that wins, and one rule for the processor in its jar.  All coordinates of that identity lead to that
rule. -/
structure Processes (policy : ConflictPolicy) (wanted : Artifact → Prop) (labelDir : String)
    (c : Collector) (rules : List Rule) (entries : List CacheEntry) : Prop where
  single : (entries.map (·.key.logicalId)).Nodup
  present : ∀ a, wanted a → ∃ e ∈ entries, e.key.logicalId = a.key.logicalId ∧
    c.processorTarget? a.key = some (labelDir ++ ":" ++ Emission.processorName e)
  chosen : ∀ e ∈ entries, wanted e.artifact ∧ Chosen policy [] wanted e.key
  processors : List.Forall₂ Rule.RunsFrom (rules.filter Rule.isProcessor) entries
  jars : ∀ e ∈ entries, Rule.prebuilt e ∈ rules
  /-- A reference by name means one rule, as long as coordinates can be told apart. -/
  names : CacheEntry.Apart entries → (rules.map Rule.name).Nodup

section

variable {policy : ConflictPolicy} {scopes : List Scope} {r : Resolver} {t t' middle : Tree}
  {plan : Plan} {cache : Cache} {a : Artifact} {duty : Duty} {root : Path} {rules : List Rule}
  {file : Option Path}

/-- Files that a collector copies are still there when it has written its rules. -/
theorem Served.copiedTo (served : Served duty scopes r t plan entries cache middle)
    (writes : Collector.Writes (cache.root / Cache.ruleFileName) rules middle file t')
    (member : e ∈ entries) (stored : e.materialized = true) :
    e.CopiedTo cache.root entries t t' := by
  obtain ⟨o, inside, owns⟩ := served.exists_owner member stored
  obtain ⟨bytes, held, there, source, alike⟩ := owns.backed
  rw [owns.name] at there
  have last := writes.keeps_candidate (served.tidy.digest e member)
    (served.tidy.candidate e member stored) (Tree.read_eq_ok_iff.mpr there)
  refine ⟨stored, bytes, Tree.read_eq_ok_iff.mp last, fun apart content read => ?_⟩
  obtain rfl : o = e := by
    rcases owns.key with same | collide
    · exact same
    · refine served.tidy.single o inside e member ?_
      exact Classical.byContradiction fun differ => apart o inside e member differ collide
  obtain rfl : held = content := Except.ok.inj (source.symm.trans (served.grown.read read))
  exact Digest.eq_or_collision alike.digest

private theorem asks_processors (policy : ConflictPolicy) (scopes : List Scope) :
    Asks (.processors policy) scopes (Processing (· ∈ scopes)) where
  needs scope shown need needed := by
    obtain ⟨a, member, rfl⟩ := List.mem_map.mp needed
    exact ⟨a, ⟨scope, shown, member⟩, rfl⟩
  asked a wanted := by
    obtain ⟨scope, shown, member⟩ := wanted
    exact ⟨scope, shown, List.mem_map_of_mem member⟩

private theorem planned_processors
    (planned : (Duty.processors policy).plan t r ((Duty.processors policy).demands scopes) = .ok plan) :
    (∀ f ∈ plan.fetches, Processing (· ∈ scopes) f.1 ∧
      Chosen policy [] (Processing (· ∈ scopes)) f.1.key) ∧
    ∀ a, Processing (· ∈ scopes) a → ∃ f ∈ plan.fetches, f.1.key.logicalId = a.key.logicalId := by
  have asks := asks_processors policy scopes
  have opened (id : String) : ((Duty.processors policy).demands scopes)[id]? =
      if id ∈ ([] : List ArtifactKey).map ArtifactKey.logicalId then none
      else ((Duty.processors policy).demands scopes)[id]? := by simp
  obtain ⟨⟨selected, diagnostics⟩, selects, done⟩ := ok_of_bind planned
  cases done
  constructor
  · intro f member
    obtain ⟨a, inside, rfl⟩ := List.mem_map.mp member
    exact asks.wins opened selects inside
  · intro a wanted
    obtain ⟨b, inside, ids⟩ := asks.exists_chosen opened selects wanted List.not_mem_nil
    exact ⟨(b, true), List.mem_map_of_mem inside, ids⟩

namespace Collector

variable {c c' : Collector} {cacheRoot : Path} {report : CollectorReport}

/-- **Each processor has one jar and one rule.**  Whatever scopes a collector of processors is shown,
with whatever repetitions, and whatever the policy: if it ends well, there is for each identity among
the processors exactly one rule, which needs the rule for the jar at the version that wins; the jar is
copied, also if it is the project's own; and every coordinate of a processor leads to that rule. -/
theorem processors_merge (digests : ∀ scope ∈ scopes, scope.Digested)
    (shown : scopes.foldlM register (new (.processors policy) cacheRoot r) = .ok c)
    (ran : finalize (c, t) = .ok report (c', t')) :
    ∃ rules, report.Emits (cacheRoot / "processor") t' rules ∧
      Processes policy (Processing (· ∈ scopes)) (Cache.labelDir (cacheRoot / "processor") r.workspace)
        c' rules report.entries ∧
      ∀ e ∈ report.entries, e.CopiedTo (cacheRoot / "processor") report.entries t t' := by
  rcases served_of_finalize digests shown ran with
    ⟨idle, -⟩ | ⟨plan, cache, middle, served, root, answers, writes⟩
  · cases idle
  obtain ⟨forced, ids⟩ := Duty.planProcessors_ok served.planned
  obtain ⟨wins, covers⟩ := planned_processors served.planned
  have stored := served.materialized fun f member => Or.inr (forced f member)
  have keys := served.identities
  have rules : (Emission.of (.processors policy) cache middle plan report.entries).rules =
      report.entries.flatMap fun e => Emission.processorRules e (processorClasses middle e.path) := by
    simp [Emission.of, Emission.ofProcessors, List.flatMap_map]
  refine ⟨_, writes.emits (Emission.named_rules _ _ _ _ _), ⟨keys ▸ ids, fun a wanted => ?_, fun e member => ?_, ?_, fun e member => ?_,
    fun apart => (served.wellFormed apart).names⟩, fun e member => ?_⟩
  · obtain ⟨f, asked, same⟩ := covers a wanted
    have inside : f.1.key.logicalId ∈ report.entries.map (·.key.logicalId) :=
      keys ▸ List.mem_map_of_mem asked
    obtain ⟨e, member, held⟩ := List.mem_map.mp inside
    obtain ⟨other, listed, shared, known⟩ := Table.foldl_insert_of_mem (·.key.logicalId)
      (Emission.processorLabel cache) member (∅ : Table String String)
    refine ⟨other, listed, shared.trans (held.trans same), ?_⟩
    rw [processorTarget?, answers, ← same, ← held]
    rw [Emission.processorLabel_eq cache (stored other listed)
      (served.tidy.colon_not_mem listed (stored other listed)), root, served.resolver] at known
    exact known
  · obtain ⟨f, asked, same⟩ := served.artifacts e member
    rw [CacheEntry.key, same]
    exact wins f asked
  · rw [rules]
    exact Emission.runs_processorRules _ _
  · rw [rules]
    exact List.mem_flatMap.mpr ⟨e, member, List.mem_cons_self⟩
  · exact root ▸ served.copiedTo (root ▸ writes) member (stored e member)

/-- The scope that runs one processor at two versions, with a jar of the project. -/
def ownScope : Scope :=
  { processingScope with
    annotationProcessors :=
      processingScope.annotationProcessors.map fun a => { a with origin := .project } }

/-- What becomes of the scope if it is shown twice and the greatest version wins. -/
def ownRun : EStateM.Result BuildError (Collector × Tree) CollectorReport :=
  finalize ((new (.processors .highest) ⟨"/cache"⟩ ⟨∅, [], .content, ⟨"/"⟩⟩).shown
    [ownScope, ownScope], Cache.jarTree)

theorem own_processors_merge : ∃ report c' t' rules, ownRun = .ok report (c', t') ∧
    report.entries.map (fun e => (e.fileName, e.artifact.origin)) =
      [("a.b-1-0-processor.jar", .project)] ∧
    report.Emits ((⟨"/cache"⟩ : Path) / "processor") t' rules ∧
    Processes .highest (Processing (· ∈ [ownScope, ownScope])) "//cache/processor" c' rules
      report.entries ∧
    ∀ e ∈ report.entries,
      e.CopiedTo ((⟨"/cache"⟩ : Path) / "processor") report.entries Cache.jarTree t' := by
  have entries : (outcome ownRun).map (fun report =>
      report.entries.map fun e => (e.fileName, e.artifact.origin)) =
        .ok [("a.b-1-0-processor.jar", .project)] := by decide +kernel
  obtain ⟨report, c', t', ran, entries⟩ := exists_of_outcome entries
  have digests : ∀ scope ∈ [ownScope, ownScope], scope.Digested := by
    intro scope member a inside
    obtain rfl : scope = ownScope := by simpa using member
    have hash : a.hash = Cache.jarArtifact.hash := by
      simp [Scope.artifacts, Scope.externalArtifacts, ownScope, processingScope, Scope.empty] at inside
      rcases inside with rfl | rfl <;> rfl
    rw [hash]
    exact ContentHash.isDigest_sha256 .empty
  have shown : [ownScope, ownScope].foldlM register
      (new (.processors .highest) ⟨"/cache"⟩ ⟨∅, [], .content, ⟨"/"⟩⟩) = _ := register_foldlM rfl _
  obtain ⟨rules, emits, processes, copied⟩ := processors_merge digests shown ran
  have label : Cache.labelDir ((⟨"/cache"⟩ : Path) / "processor") ⟨"/"⟩ = "//cache/processor" := by
    decide +kernel
  exact ⟨report, c', t', rules, ran, entries, emits, label ▸ processes, copied⟩

end Collector

end

end RuleDepot
