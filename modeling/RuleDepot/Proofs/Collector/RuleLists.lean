import RuleDepot.Proofs.Cache.Backing
import RuleDepot.Proofs.Collector.Emitting
import RuleDepot.Proofs.Collector.Finalizing
import RuleDepot.Proofs.Collector.Planning
/-!
The rule file of a collector.  Whatever scopes a collector is shown, the rules that it writes can be
loaded: no two have one name, each coordinate in the cache has one rule, and what a rule refers to is
there.  For bundles this follows from their names; for processors it follows from merging, because a
processor of one coordinate could only be taken for the file of another version of the same
artifact.
-/

namespace RuleDepot

open Running Requirements

variable {duty : Duty} {scopes : List Scope} {plan : Plan} {entries : List CacheEntry}
  {r : Resolver} {t t' : Tree} {cache cache' : Cache} {fetches : List (Artifact × Bool)}

/-- Whatever is planned has a digest of the right form, as long as that is so in the scopes. -/
theorem Sound.isDigest (sound : Sound r t scopes fetches)
    (digests : ∀ scope ∈ scopes, ∀ a ∈ scope.artifacts, a.hash.IsDigest) :
    ∀ f ∈ fetches, f.1.hash.IsDigest := by
  intro f member
  rcases sound.sourced f member with binds | ⟨scope, shown, inside⟩
  · exact binds.isDigest
  · exact digests scope shown f.1 inside

/-- A plan for scopes, and what a new cache answers to it. -/
structure Served (duty : Duty) (scopes : List Scope) (r : Resolver) (t : Tree) (plan : Plan)
    (entries : List CacheEntry) (cache : Cache) (t' : Tree) : Prop where
  planned : duty.plan t r (duty.demands scopes) = .ok plan
  digests : ∀ f ∈ plan.fetches, f.1.hash.IsDigest
  supplied : cache.Supplied t'
  resolver : cache.resolver = r
  fresh : ∀ (id : EntryId) (e : CacheEntry), cache.entries[id]? = some e → e ∈ entries
  answered : entries.map some = plan.fetches.map fun f => cache.answer? f.1 f.2
  artifacts : ∀ e ∈ entries, ∃ f ∈ plan.fetches, e.artifact = f.1
  grown : Tree.Grown (fun _ _ => True) t t'

namespace Served

/-- What is fetched for a plan is served. -/
theorem of_fetchAll {cacheRoot : Path} {shelf : Shelf}
    (digests : ∀ f ∈ plan.fetches, f.1.hash.IsDigest)
    (planned : duty.plan t r (duty.demands scopes) = .ok plan)
    (fetched : Cache.fetchAll plan.fetches (.new shelf cacheRoot r, t) = .ok entries (cache, t')) :
    Served duty scopes r t plan entries cache t' ∧ cache.root = cacheRoot / shelf.dirName := by
  have solid : (Cache.new shelf cacheRoot r).root.text ≠ "" :=
    Path.text_join_ne_empty _ (Cache.dirName_ne_empty shelf)
  obtain ⟨supplied, extends_, answered, artifacts, grown⟩ :=
    Cache.supplied_fetchAll solid (Cache.supplied_new shelf cacheRoot r t) digests fetched
  have blank (id : EntryId) (e : CacheEntry) : (Cache.new shelf cacheRoot r).entries[id]? ≠ some e := by
    simp [Cache.new]
  refine ⟨⟨planned, digests, supplied, extends_.resolver, fun id e held => ?_, answered,
    fun e member => ?_, grown⟩, extends_.root⟩
  · exact (extends_.fresh held).resolve_left (blank id e)
  · exact (artifacts e member).resolve_left fun found => found.elim fun id held => blank id e held

variable (served : Served duty scopes r t plan entries cache t')

include served

theorem keys : entries.map CacheEntry.key = plan.fetches.map (·.1.key) :=
  served.supplied.keys_of_answers served.answered

theorem identities : entries.map (·.key.logicalId) = plan.fetches.map (·.1.key.logicalId) := by
  have keys := congrArg (List.map ArtifactKey.logicalId) served.keys
  rwa [List.map_map, List.map_map] at keys

/-- Entries for artifacts that must be copied are in the cache. -/
theorem materialized (forced : ∀ f ∈ plan.fetches, Cache.Needed f.1 f.2) :
    ∀ e ∈ entries, e.materialized = true := by
  intro e member
  obtain ⟨f, asked, found⟩ := (Cache.mem_answers_iff served.answered).mp member
  obtain ⟨-, -, ⟨spared, -⟩ | ⟨-, kept⟩⟩ := served.supplied.answer_spec found
  · exact absurd (forced f asked) spared
  · exact kept.materialized

/-- An entry that is no file of the project is kept in the cache. -/
theorem kept {e : CacheEntry} (member : e ∈ entries) (stored : e.materialized = true) :
    ∃ id, Cache.Kept cache t' id e := by
  obtain ⟨f, -, found⟩ := (Cache.mem_answers_iff served.answered).mp member
  obtain ⟨-, -, ⟨-, rfl⟩ | ⟨-, kept⟩⟩ := served.supplied.answer_spec found
  · cases stored
  · exact ⟨_, kept⟩

/-- A file that was put into the cache is in its directory. -/
theorem path {e : CacheEntry} (member : e ∈ entries) (stored : e.materialized = true) :
    e.path = cache.root / e.fileName :=
  (served.kept member stored).elim fun _ kept => kept.path

/-- The file of an entry was put there for one of the entries. -/
theorem exists_owner {e : CacheEntry} (member : e ∈ entries) (stored : e.materialized = true) :
    ∃ o ∈ entries, cache.Owns t' o e := by
  obtain ⟨id, kept⟩ := served.kept member stored
  obtain ⟨o, owns⟩ := kept.owned
  obtain ⟨id', held⟩ := owns.stored
  exact ⟨o, served.fresh id' o held, owns⟩

/-- The entries are for the planned artifacts, in order. -/
theorem artifacts_eq : entries.map CacheEntry.artifact = plan.fetches.map Prod.fst := by
  have same (e : CacheEntry) (member : e ∈ entries) (f : Artifact × Bool)
      (asked : f ∈ plan.fetches) (keys : e.key = f.1.key) : e.artifact = f.1 := by
    obtain ⟨f', asked', artifact⟩ := served.artifacts e member
    rw [artifact, (Duty.plan_sound served.planned).single f' asked' f asked
      (congrArg Artifact.key artifact.symm ▸ keys)]
  have keys := served.keys
  have lengths : entries.length = plan.fetches.length := by simpa using congrArg List.length keys
  refine List.ext_getElem (by simpa using lengths) fun i below below' => ?_
  have key := List.getElem_of_eq keys (by simpa using below)
  simp only [List.getElem_map] at key ⊢
  exact same _ (List.getElem_mem _) _ (List.getElem_mem _) key

/-- What is served can be told by its coordinates. -/
theorem tidy : CacheEntry.Tidy entries where
  single e member e' member' same := by
    obtain ⟨f, asked, found⟩ := (Cache.mem_answers_iff served.answered).mp member
    obtain ⟨f', asked', found'⟩ := (Cache.mem_answers_iff served.answered).mp member'
    have keys : f.1.key = f'.1.key := by
      rw [← (served.supplied.answer_spec found).1, ← (served.supplied.answer_spec found').1, same]
    obtain rfl := (Duty.plan_sound served.planned).single f asked f' asked' keys
    exact Option.some.inj (found.symm.trans found')
  candidate e member stored := (served.kept member stored).elim fun _ kept => kept.candidate
  digest e member := by
    obtain ⟨f, asked, found⟩ := (Cache.mem_answers_iff served.answered).mp member
    exact (served.supplied.answer_spec found).2.1 ▸ served.digests f asked

end Served

namespace Emission

open CacheEntry Rule

private theorem ruleName_ne_processorName {e e' : CacheEntry} (tidy : Tidy entries)
    (member : e ∈ entries) (member' : e' ∈ entries) (stored : e.materialized = true)
    (stored' : e'.materialized = true) (same : processorName e = e'.ruleName) :
    e ≠ e' ∧ e.key.logicalId = e'.key.logicalId := by
  obtain ⟨mark, marked, spelled⟩ := tidy.spelled member stored
  obtain ⟨mark', marked', spelled'⟩ := tidy.spelled member' stored'
  have texts : (Naming.stem e.key).toList ++ mark ++ "-processor".toList =
      (Naming.stem e'.key).toList ++ mark' := by
    rw [← spelled, ← spelled', ← same]
    simp [processorName, toString]
  obtain ⟨differ, ids⟩ := Naming.processor_apart marked marked' texts
  exact ⟨fun equal => differ (congrArg CacheEntry.key equal), ids⟩

private theorem processorName_inj {e e' : CacheEntry} (same : processorName e = processorName e') :
    e.ruleName = e'.ruleName := by
  have texts := congrArg String.toList same
  simp only [processorName, toString, String.toList_append] at texts
  exact String.toList_inj.mp (List.append_cancel_right texts)

private theorem only_processors (stored : ∀ e ∈ entries, e.materialized = true)
    (classes : CacheEntry → List String) :
    Only entries (entries.flatMap fun e => processorRules e (classes e)) := by
  intro rule member stands
  obtain ⟨e, own, listed⟩ := List.mem_flatMap.mp member
  simp only [processorRules, List.mem_cons, List.not_mem_nil, or_false] at listed
  rcases listed with rfl | rfl
  · exact ⟨e, own, stored e own, rfl⟩
  · simp [isPrebuilt, Rule.of, withList, withAttr, withFlag] at stands

private theorem nodup_processorNames (tidy : Tidy entries) (apart : Apart entries)
    (stored : ∀ e ∈ entries, e.materialized = true)
    (ids : (entries.map (·.key.logicalId)).Nodup) :
    (entries.flatMap fun e => [e.ruleName, processorName e]).Nodup := by
  have differ {e e' : CacheEntry} (member : e ∈ entries) (member' : e' ∈ entries)
      (other : e.key.logicalId ≠ e'.key.logicalId) :
      e.ruleName ≠ e'.ruleName ∧ processorName e ≠ e'.ruleName :=
    ⟨fun same => other (congrArg (·.key.logicalId) (tidy.ruleName_inj apart member member'
      (stored e member) (stored e' member') same)),
    fun same => other (ruleName_ne_processorName tidy member member' (stored e member)
      (stored e' member') same).2⟩
  rw [List.Nodup, List.pairwise_flatMap]
  constructor
  · intro e member
    have own : e.ruleName ≠ processorName e := fun same =>
      (ruleName_ne_processorName tidy member member (stored e member) (stored e member)
        same.symm).1 rfl
    simpa using own
  · refine (List.pairwise_map.mp ids).imp_of_mem fun {e e'} member member' other => ?_
    have forth := differ member member' other
    have back := differ member' member other.symm
    intro x first y second
    simp only [List.mem_cons, List.not_mem_nil, or_false] at first second
    rcases first with rfl | rfl <;> rcases second with rfl | rfl
    · exact forth.1
    · exact back.2.symm
    · exact forth.2
    · exact fun same => forth.1 (processorName_inj same)

private theorem references_of_processorRules {e : CacheEntry} {classes : List String} {rule : Rule}
    (listed : rule ∈ processorRules e classes) {attr : String} (reference : attr ∈ references)
    {items : List String} (held : rule.attrs[attr]? = some (.list items)) :
    items = [(prebuilt e).localTarget] := by
  simp only [processorRules, List.mem_cons, List.not_mem_nil, or_false] at listed
  rcases listed with rfl | rfl
  · rw [prebuilt_refers reference] at held
    cases held
  · simp only [references, List.mem_cons, List.not_mem_nil, or_false] at reference
    simp only [Rule.of, withList, withAttr, withFlag, Table.getElem?_insert] at held
    rcases reference with rfl | rfl
    · rw [if_neg (by decide), if_neg (by decide), if_pos rfl] at held
      cases held
      rfl
    · rw [if_neg (by decide), if_neg (by decide), if_neg (by decide)] at held
      simp at held

/-- The rules for jars and processors, one version of each artifact. -/
theorem wellFormed_processors (tidy : Tidy entries) (apart : Apart entries)
    (stored : ∀ e ∈ entries, e.materialized = true)
    (ids : (entries.map (·.key.logicalId)).Nodup) (classes : CacheEntry → List String) :
    WellFormed entries (entries.flatMap fun e => processorRules e (classes e)) := by
  have inside {e : CacheEntry} (member : e ∈ entries) :
      prebuilt e ∈ entries.flatMap fun e => processorRules e (classes e) :=
    List.mem_flatMap.mpr ⟨e, member, List.mem_cons_self⟩
  refine wellFormed_of_names tidy ?_ (fun e member _ => inside member)
    (only_processors stored classes) ?_
  · have names : (entries.flatMap fun e => processorRules e (classes e)).map Rule.name =
        entries.flatMap fun e => [e.ruleName, processorName e] := by
      rw [List.map_flatMap]
      simp [processorRules, Rule.of, withList, withAttr, withFlag]
    rw [names]
    exact nodup_processorNames tidy apart stored ids
  · intro rule member attr reference items held item listed
    obtain ⟨e, own, here⟩ := List.mem_flatMap.mp member
    obtain rfl : item = (prebuilt e).localTarget := by
      simpa [references_of_processorRules here reference held] using listed
    exact ⟨prebuilt e, inside own, rfl⟩

end Emission

namespace Duty

private theorem chosen_sublist {selected : List (Selected (Option Artifact))}
    (identity : ∀ s ∈ selected, ∀ a, s.payload = some a → a.key.logicalId = s.logicalId) :
    ((chosen selected).map (·.key.logicalId)).Sublist (selected.map Selected.logicalId) := by
  induction selected with
  | nil => exact .slnil
  | cons s rest ih =>
    obtain ⟨own, others⟩ := List.forall_mem_cons.mp identity
    unfold chosen at ih ⊢
    rw [List.filterMap_cons]
    cases held : s.payload with
    | none => exact (ih others).cons _
    | some a =>
      rw [List.map_cons, List.map_cons, own a held]
      exact (ih others).cons_cons _

/-- Processors are all copied, one version of each. -/
theorem planProcessors_ok {policy : ConflictPolicy}
    (ran : (processors policy).plan t r ((processors policy).demands scopes) = .ok plan) :
    (∀ f ∈ plan.fetches, f.2 = true) ∧ (plan.fetches.map (·.1.key.logicalId)).Nodup := by
  obtain ⟨⟨selected, diagnostics⟩, selects, done⟩ := ok_of_bind ran
  cases done
  have identity : ∀ s ∈ selected, ∀ a, s.payload = some a → a.key.logicalId = s.logicalId :=
    fun s member a held => Option.some.inj (chosen_spec (.refl _) selects member held).2.1
  constructor
  · intro f member
    obtain ⟨a, -, rfl⟩ := List.mem_map.mp member
    rfl
  · have names : ((chosen selected).map (·, true)).map (·.1.key.logicalId) =
        (chosen selected).map (·.key.logicalId) := List.map_map
    change (((chosen selected).map (·, true)).map (·.1.key.logicalId)).Nodup
    rw [names]
    refine (chosen_sublist identity).nodup ?_
    rw [selected_keys selects]
    exact Std.ExtTreeMap.nodup_keys

private theorem planRuntime_unversioned {language : Language} {config : RuntimeConfig}
    {demands : Demands} (ran : planRuntime language config t r demands = .ok plan)
    (unversioned : plan.version = none) : plan.fetches = [] := by
  obtain ⟨⟨version, diagnostics⟩, -, ran⟩ := ok_of_bind ran
  cases version with
  | none =>
    cases ran
    rfl
  | some version =>
    obtain ⟨keys, -, ran⟩ := ok_of_bind ran
    obtain ⟨found, -, done⟩ := ok_of_bind ran
    cases done
    cases unversioned

end Duty

namespace Served

open Rule CacheEntry

/-- Whatever the duty, rules stand for files of the cache only. -/
theorem only (served : Served duty scopes r t plan entries cache t') :
    Only entries (Emission.of duty cache t' plan entries).rules := by
  cases duty with
  | dependencies policy forced => exact only_prebuilts entries
  | processors policy =>
    have forced := (Duty.planProcessors_ok served.planned).1
    have stored := served.materialized fun f member => Or.inr (forced f member)
    have listed := Emission.only_processors stored fun e => processorClasses t' e.path
    simpa [Emission.of, Emission.ofProcessors, List.flatMap_map] using listed
  | lint config => exact only_bundle rfl
  | runtime language config =>
    rw [Emission.of]
    cases plan.version with
    | none => exact fun rule member => absurd member List.not_mem_nil
    | some version => exact only_bundle rfl
  | transforms config =>
    cases entries with
    | nil => exact only_prebuilts []
    | cons e rest => exact only_bundle rfl
  | robolectric config => exact only_prebuilts entries
  | tools config => exact only_prebuilts entries
  | extra name keys => exact only_prebuilts entries

/-- Whatever the duty, the rules for what is served can be loaded. -/
theorem wellFormed (served : Served duty scopes r t plan entries cache t') (apart : Apart entries) :
    WellFormed entries (Emission.of duty cache t' plan entries).rules := by
  have bundled (name : String) : ∀ attr ∈ references, ∀ items,
      (bundle name entries).attrs[attr]? = some (.list items) →
        items = (prebuilts entries).map localTarget := by
    intro attr _ items held
    simp only [bundle, Rule.of, withList, withAttr, Table.getElem?_insert] at held
    split at held
    · cases held
      rfl
    · simp at held
  cases duty with
  | dependencies policy forced => exact wellFormed_prebuilts served.tidy apart
  | processors policy =>
    obtain ⟨forced, ids⟩ := Duty.planProcessors_ok served.planned
    have named : (entries.map (·.key.logicalId)).Nodup := served.identities ▸ ids
    have stored := served.materialized fun f member => Or.inr (forced f member)
    have listed := Emission.wellFormed_processors served.tidy apart stored named
      fun e => processorClasses t' e.path
    simpa [Emission.of, Emission.ofProcessors, List.flatMap_map] using listed
  | lint config =>
    have undotted : '.' ∉ Duty.lintId.toList := by decide
    refine wellFormed_bundle served.tidy apart undotted rfl rfl ?_
    intro attr reference items held
    have other : "jvm_args" ≠ attr := by
      simp only [references, List.mem_cons, List.not_mem_nil, or_false] at reference
      rcases reference with rfl | rfl <;> decide
    refine bundled Duty.lintId attr reference items ?_
    rwa [withText, withAttr, Table.getElem?_insert, if_neg other] at held
  | runtime language config =>
    cases versioned : plan.version with
    | none =>
      have none : plan.fetches = [] := Duty.planRuntime_unversioned served.planned versioned
      have keys := served.keys
      rw [none, List.map_nil, List.map_eq_nil_iff] at keys
      subst keys
      rw [Emission.of, versioned]
      exact wellFormed_prebuilts served.tidy apart
    | some version =>
      have undotted : '.' ∉ (s!"{language.text}-runtime").toList := by cases language <;> decide
      rw [Emission.of, versioned]
      exact wellFormed_bundle served.tidy apart undotted rfl rfl (bundled _)
  | transforms config =>
    have undotted : '.' ∉ "transform-classpath".toList := by decide
    cases entries with
    | nil => exact wellFormed_prebuilts served.tidy apart
    | cons e rest => exact wellFormed_bundle served.tidy apart undotted rfl rfl (bundled _)
  | robolectric config => exact wellFormed_prebuilts served.tidy apart
  | tools config => exact wellFormed_prebuilts served.tidy apart
  | extra name keys => exact wellFormed_prebuilts served.tidy apart

end Served

namespace Collector

variable {c c' : Collector} {cacheRoot : Path} {report : CollectorReport}

/-- A collector that was shown scopes ends with nothing to do or with what is served for them, and
reports that. -/
theorem reported_of_finalize (digests : ∀ scope ∈ scopes, scope.Digested)
    (shown : scopes.foldlM register (new duty cacheRoot r) = .ok c)
    (ran : finalize (c, t) = .ok report (c', t')) :
    duty.isIdle (duty.demands scopes) = true ∧ report.entries = [] ∧ report.diagnostics = [] ∧
        Writes (cacheRoot / duty.shelf.dirName / Cache.ruleFileName) [] t report.ruleFile t' ∨
      ∃ plan cache middle, Served duty scopes r t plan report.entries cache middle ∧
        cache.root = cacheRoot / duty.shelf.dirName ∧
        report.diagnostics =
          plan.diagnostics ++ (Emission.of duty cache middle plan report.entries).diagnostics ∧
        c'.answers = (Emission.of duty cache middle plan report.entries).answers ∧
        Writes (cacheRoot / duty.shelf.dirName / Cache.ruleFileName)
          (Emission.of duty cache middle plan report.entries).rules middle report.ruleFile t' := by
  obtain rfl : (new duty cacheRoot r).shown scopes = c :=
    Except.ok.inj ((register_foldlM rfl scopes).symm.trans shown)
  have pending : ((new duty cacheRoot r).shown scopes).ledger.pending = some (duty.demands scopes) :=
    rfl
  cases finalized_of_ok pending ran with
  | idle idle writes => exact Or.inl ⟨idle, rfl, rfl, writes⟩
  | served planned fetched writes =>
    obtain ⟨served, root⟩ :=
      Served.of_fetchAll ((Duty.plan_sound planned).isDigest digests) planned fetched
    rw [Cache.ruleFilePath, root] at writes
    exact Or.inr ⟨_, _, _, served, root, rfl, rfl, writes⟩

/-- A collector that was shown scopes ends with nothing to do or with what is served for them. -/
theorem served_of_finalize (digests : ∀ scope ∈ scopes, scope.Digested)
    (shown : scopes.foldlM register (new duty cacheRoot r) = .ok c)
    (ran : finalize (c, t) = .ok report (c', t')) :
    duty.isIdle (duty.demands scopes) = true ∧ report.entries = [] ∧
        Writes (cacheRoot / duty.shelf.dirName / Cache.ruleFileName) [] t report.ruleFile t' ∨
      ∃ plan cache middle, Served duty scopes r t plan report.entries cache middle ∧
        cache.root = cacheRoot / duty.shelf.dirName ∧
        c'.answers = (Emission.of duty cache middle plan report.entries).answers ∧
        Writes (cacheRoot / duty.shelf.dirName / Cache.ruleFileName)
          (Emission.of duty cache middle plan report.entries).rules middle report.ruleFile t' := by
  rcases reported_of_finalize digests shown ran with
    ⟨idle, none, -, writes⟩ | ⟨plan, cache, middle, served, root, -, rest⟩
  · exact Or.inl ⟨idle, none, writes⟩
  · exact Or.inr ⟨plan, cache, middle, served, root, rest⟩

/-- **The rules of every collector can be loaded.**  If no two coordinates in the cache collide, the
names of the rules in its file are different, every coordinate has one rule, and what a rule refers
to is in the file. -/
theorem rules_wellFormed (digests : ∀ scope ∈ scopes, scope.Digested)
    (shown : scopes.foldlM register (new duty cacheRoot r) = .ok c)
    (ran : finalize (c, t) = .ok report (c', t')) (apart : CacheEntry.Apart report.entries) :
    ∃ rules, report.Emits (cacheRoot / duty.shelf.dirName) t' rules ∧
      Rule.WellFormed report.entries rules := by
  rcases served_of_finalize digests shown ran with
    ⟨-, none, writes⟩ | ⟨plan, cache, middle, served, -, -, writes⟩
  · refine ⟨[], writes.emits (by simp), ?_⟩
    rw [none]
    exact Rule.wellFormed_prebuilts ⟨by simp, by simp, by simp⟩ (none ▸ apart)
  · exact ⟨_, writes.emits (Emission.named_rules _ _ _ _ _), served.wellFormed apart⟩

/-- A scope that asks for one processor at a version that is named like the rule for the processor in
another one. -/
def processingScope : Scope :=
  { Scope.empty ⟨⟨":app"⟩, .main⟩ ⟨"app"⟩ with
    annotationProcessors := [Cache.jarArtifact, { Cache.jarArtifact with
      key := { Naming.dashedVersion.key with version := "1-0-processor", version_ok := by decide } }] }

/-- What becomes of the scope if the greatest version wins. -/
def processingRun : EStateM.Result BuildError (Collector × Tree) CollectorReport :=
  finalize ((new (.processors .highest) ⟨"/cache"⟩ ⟨∅, [], .content, ⟨"/workspace"⟩⟩).shown
    [processingScope], Cache.jarTree)

theorem rules_of_processors_wellFormed :
    ∃ report c' t' rules, processingRun = .ok report (c', t') ∧
      report.entries.map CacheEntry.fileName = ["a.b-1-0-processor.jar"] ∧
      report.Emits ((⟨"/cache"⟩ : Path) / "processor") t' rules ∧
      Rule.WellFormed report.entries rules := by
  have files : (outcome processingRun).map (fun report => report.entries.map CacheEntry.fileName) =
      .ok ["a.b-1-0-processor.jar"] := by decide +kernel
  obtain ⟨report, c', t', ran, files⟩ := exists_of_outcome files
  have digests : ∀ scope ∈ [processingScope], scope.Digested := by
    intro scope member a inside
    obtain rfl := List.mem_singleton.mp member
    have hash : a.hash = Cache.jarArtifact.hash := by
      simp [Scope.artifacts, Scope.externalArtifacts, processingScope, Scope.empty] at inside
      rcases inside with rfl | rfl <;> rfl
    rw [hash]
    exact ContentHash.isDigest_sha256 .empty
  have shown : [processingScope].foldlM register
      (new (.processors .highest) ⟨"/cache"⟩ ⟨∅, [], .content, ⟨"/workspace"⟩⟩) = _ :=
    register_foldlM rfl _
  obtain ⟨rules, emits, wellFormed⟩ := rules_wellFormed digests shown ran (CacheEntry.apart_of_alone files)
  exact ⟨report, c', t', rules, ran, files, emits, wellFormed⟩

end Collector

end RuleDepot
