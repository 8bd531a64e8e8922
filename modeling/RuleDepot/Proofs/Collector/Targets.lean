import RuleDepot.Proofs.Collector.RuleLists
/-!
Which rule serves a coordinate.  Scopes ask for external artifacts at versions of their own; in the
end there is one rule for each identity, at the version that was forced or that the requests come to,
and it serves all coordinates of that identity.  There are no other rules.
-/

namespace RuleDepot

open Running Requirements

variable {entries : List CacheEntry} {e : CacheEntry} {key : ArtifactKey}

namespace Cache

/-- How labels spell the directory of a shelf: seen from the workspace if it is inside. -/
def labelDir (root workspace : Path) : String :=
  match root.relativeTo? workspace with
  | some dir => "//" ++ "/".intercalate (dir.components.map Component.text)
  | none => root.text

theorem label_of_materialized (c : Cache) (stored : e.materialized = true) :
    c.label e = labelDir c.root c.resolver.workspace ++ ":" ++ e.ruleName := by
  unfold label labelDir
  rw [stored]
  cases c.root.relativeTo? c.resolver.workspace <;> rfl

/-- What is behind the last colon of a label is the name of a rule. -/
theorem cutLast_label (c : Cache) (stored : e.materialized = true)
    (colonless : ':' ∉ e.ruleName.toList) : Text.cutLast ':' (c.label e).toList =
      some ((labelDir c.root c.resolver.workspace).toList, e.ruleName.toList) := by
  rw [c.label_of_materialized stored, String.toList_append, String.toList_append, List.append_assoc]
  exact Text.cutLast_append colonless

end Cache

namespace Emission

private theorem getElem?_requested (byId : Table String String) (served : List ArtifactKey)
    (table : Table ArtifactKey String) (key : ArtifactKey) :
    (served.foldl (fun table key =>
      match byId[key.logicalId]? with
      | some label => table.insert key label
      | none => table) table)[key]? =
      if key ∈ served then byId[key.logicalId]?.or table[key]? else table[key]? := by
  induction served generalizing table with
  | nil => rfl
  | cons first rest ih =>
    rw [List.foldl_cons, ih]
    by_cases same : first = key
    · subst same
      cases known : byId[first.logicalId]? <;> simp
    · cases byId[first.logicalId]? with
      | none => simp [Ne.symm same]
      | some other => simp [Table.getElem?_insert, same, Ne.symm same]

/-- The entry that serves a coordinate: the last one for it, or else the last one of its identity. -/
def server? (entries : List CacheEntry) (key : ArtifactKey) : Option CacheEntry :=
  (entries.reverse.find? fun e => e.key = key).or
    (entries.reverse.find? fun e => e.key.logicalId = key.logicalId)

/-- A coordinate that was asked for has the label of the entry that serves it. -/
theorem getElem?_targets (c : Cache) {served : List ArtifactKey} (asked : key ∈ served)
    (entries : List CacheEntry) :
    (targets c served entries)[key]? = (server? entries key).map c.label := by
  have blank {κ : Type} [Ord κ] [Std.TransOrd κ] (k : κ) : (∅ : Table κ String)[k]? = none := by simp
  have requested := getElem?_requested
    (entries.foldl (fun table e => table.insert e.key.logicalId (c.label e)) ∅) served ∅ key
  rw [if_pos asked, Table.getElem?_foldl_insert, blank, blank, Option.or_none, Option.or_none]
    at requested
  unfold targets server?
  rw [Table.getElem?_foldl_insert]
  cases entries.reverse.find? fun e => e.key = key with
  | none => exact requested
  | some own => rfl

theorem mem_of_server? (found : server? entries key = some e) :
    e ∈ entries ∧ e.key.logicalId = key.logicalId := by
  rcases Option.or_eq_some_iff.mp found with own | ⟨-, shared⟩
  · have same : e.key = key := by simpa using List.find?_some own
    exact ⟨List.mem_reverse.mp (List.mem_of_find?_eq_some own), congrArg _ same⟩
  · have same : e.key.logicalId = key.logicalId := by simpa using List.find?_some shared
    exact ⟨List.mem_reverse.mp (List.mem_of_find?_eq_some shared), same⟩

/-- Every coordinate is served of whose identity there is an entry. -/
theorem exists_server? (present : ∃ e ∈ entries, e.key.logicalId = key.logicalId) :
    ∃ e, server? entries key = some e := by
  obtain ⟨e, member, same⟩ := present
  have shared : (entries.reverse.find? fun e => e.key.logicalId = key.logicalId).isSome = true := by
    rw [List.find?_isSome]
    exact ⟨e, List.mem_reverse.mpr member, by simpa using same⟩
  apply Option.isSome_iff_exists.mp
  rw [server?, Option.isSome_or, shared, Bool.or_true]

/-- A coordinate that was asked for leads to an entry of its identity. -/
theorem targets_spec (c : Cache) {served : List ArtifactKey} (asked : key ∈ served)
    (present : ∃ e ∈ entries, e.key.logicalId = key.logicalId) :
    ∃ e ∈ entries, e.key.logicalId = key.logicalId ∧
      (targets c served entries)[key]? = some (c.label e) := by
  obtain ⟨e, found⟩ := exists_server? present
  obtain ⟨member, same⟩ := mem_of_server? found
  refine ⟨e, member, same, ?_⟩
  rw [getElem?_targets c asked, found, Option.map_some]

end Emission

/-- An artifact from outside the project on a classpath of one of some scopes. -/
def Wanted (shown : Scope → Prop) (a : Artifact) : Prop :=
  ∃ scope, shown scope ∧ a ∈ scope.externalArtifacts ∧ a.origin = .external

/-- A coordinate that wins: it is forced, or no other version of its identity is and the policy
chooses its version out of all that are wanted. -/
inductive Chosen (policy : ConflictPolicy) (forced : List ArtifactKey) (wanted : Artifact → Prop)
    (key : ArtifactKey) : Prop where
  | forced (listed : key ∈ forced)
  | selected (free : ∀ k ∈ forced, k.logicalId ≠ key.logicalId) (requests : VersionRequests)
      (exactly : ∀ version, version ∈ requests ↔
        ∃ a, wanted a ∧ a.key.logicalId = key.logicalId ∧ a.key.version = version)
      (selection : Selection) (select : requests.select key.logicalId policy = .ok selection)
      (version : key.version = selection.version)

/-- A duty asks, for some scopes, for nothing but artifacts: those that are wanted. -/
structure Asks (duty : Duty) (scopes : List Scope) (wanted : Artifact → Prop) : Prop where
  needs : ∀ scope ∈ scopes, ∀ need ∈ duty.needs scope, ∃ a, wanted a ∧ Need.ofArtifact a = need
  asked : ∀ a, wanted a → ∃ scope ∈ scopes, Need.ofArtifact a ∈ duty.needs scope

namespace Asks

variable {duty : Duty} {scopes : List Scope} {wanted : Artifact → Prop} {policy : ConflictPolicy}
  {forced : List ArtifactKey} {rest : Demands} {selected : List (Selected (Option Artifact))}
  {diagnostics : List Diagnostic} {a : Artifact} (asks : Asks duty scopes wanted)

include asks

/-- The versions of an identity that are known are those that are wanted, each with an artifact. -/
theorem wanted_of_demands {id version : String} {requested : Requested (Option Artifact)}
    (held : (versionsOf (duty.demands scopes) id)[version]? = some requested) :
    ∃ a, wanted a ∧ a.key.logicalId = id ∧ a.key.version = version ∧ requested.payload = some a := by
  obtain ⟨scope, shown, need, needed, rfl, rfl, payload⟩ := Duty.needed_of_demands held
  obtain ⟨a, wanted, rfl⟩ := asks.needs scope shown need needed
  exact ⟨a, wanted, rfl, rfl, payload.symm⟩

theorem demands_of_wanted (asked : wanted a) :
    ∃ requested, (versionsOf (duty.demands scopes) a.key.logicalId)[a.key.version]? =
      some requested := by
  obtain ⟨scope, shown, needed⟩ := asks.asked a asked
  exact Duty.demands_of_needed shown needed

/-- The versions that are known of an identity are those at which it is wanted. -/
theorem mem_versionRequests_iff {id version : String}
    {versions : Table String (Requested (Option Artifact))}
    (known : (duty.demands scopes)[id]? = some versions) :
    version ∈ versionRequests versions ↔
      ∃ a, wanted a ∧ a.key.logicalId = id ∧ a.key.version = version := by
  rw [Std.ExtTreeMap.mem_iff_isSome_getElem?, getElem?_versionRequests, Option.isSome_map,
    ← versionsOf_eq known, Option.isSome_iff_exists]
  constructor
  · rintro ⟨requested, asked⟩
    obtain ⟨a, wanted, ids, same, -⟩ := asks.wanted_of_demands asked
    exact ⟨a, wanted, ids, same⟩
  · rintro ⟨a, wanted, ids, rfl⟩
    exact ids ▸ asks.demands_of_wanted wanted

/-- What is chosen is wanted, and of an identity that is not forced; it has the version that is
selected from the requests. -/
theorem selection_of_chosen (opened : ∀ id : String, rest[id]? =
      if id ∈ forced.map ArtifactKey.logicalId then none else (duty.demands scopes)[id]?)
    (selects : rest.select policy = .ok (selected, diagnostics))
    (inside : a ∈ Duty.chosen selected) :
    wanted a ∧ a.key.logicalId ∉ forced.map ArtifactKey.logicalId ∧
      ∃ (versions : Table String (Requested (Option Artifact))) (selection : Selection),
        (duty.demands scopes)[a.key.logicalId]? = some versions ∧
        (versionRequests versions).select a.key.logicalId policy = .ok selection ∧
        a.key.version = selection.version := by
  obtain ⟨s, picked, held⟩ := Duty.mem_chosen_iff.mp inside
  obtain ⟨id, versions, selection, winner, known, select, won, rfl⟩ :=
    (mem_select_iff selects).mp picked
  have unforced : id ∉ forced.map ArtifactKey.logicalId := fun taken => by
    rw [opened, if_pos taken] at known
    cases known
  rw [opened, if_neg unforced] at known
  obtain ⟨b, winning, rfl, version, payload⟩ :=
    asks.wanted_of_demands ((versionsOf_eq known).symm ▸ won)
  obtain rfl : b = a := Option.some.inj (payload.symm.trans held)
  exact ⟨winning, unforced, versions, selection, known, select, version⟩

/-- What is chosen from the requests that are left by forced coordinates is wanted, and wins. -/
theorem wins (opened : ∀ id : String, rest[id]? =
      if id ∈ forced.map ArtifactKey.logicalId then none else (duty.demands scopes)[id]?)
    (selects : rest.select policy = .ok (selected, diagnostics))
    (inside : a ∈ Duty.chosen selected) : wanted a ∧ Chosen policy forced wanted a.key := by
  obtain ⟨winning, unforced, versions, selection, known, select, version⟩ :=
    asks.selection_of_chosen opened selects inside
  refine ⟨winning, .selected ?_ (versionRequests versions)
    (fun _ => asks.mem_versionRequests_iff known) selection select version⟩
  intro k listed same
  exact unforced (same ▸ List.mem_map_of_mem listed)

/-- Something is chosen of every identity that is wanted and not forced. -/
theorem exists_chosen (opened : ∀ id : String, rest[id]? =
      if id ∈ forced.map ArtifactKey.logicalId then none else (duty.demands scopes)[id]?)
    (selects : rest.select policy = .ok (selected, diagnostics)) (asked : wanted a)
    (free : a.key.logicalId ∉ forced.map ArtifactKey.logicalId) :
    ∃ b ∈ Duty.chosen selected, b.key.logicalId = a.key.logicalId := by
  obtain ⟨requested, held⟩ := asks.demands_of_wanted asked
  obtain ⟨versions, known, -⟩ := known_of_version held
  have whole := versionsOf_eq known
  have known := (opened a.key.logicalId).trans ((if_neg free).trans known)
  obtain ⟨selection, winner, -, won, member⟩ := exists_selected selects known
  obtain ⟨winning, -, ids, -, payload⟩ := asks.wanted_of_demands (whole.symm ▸ won)
  exact ⟨winning, Duty.mem_chosen_iff.mpr ⟨_, member, payload⟩, ids⟩

end Asks

/-- Rules that serve what is wanted.  Every coordinate has a label that leads to the rule for the
version that wins, and there is no rule for anything else. -/
structure Serves (policy : ConflictPolicy) (forced : List ArtifactKey) (wanted : Artifact → Prop)
    (c : Collector) (rules : List Rule) : Prop where
  labelled : ∀ a, wanted a → ∃ label dir rule key, c.targetFor? a.key = some label ∧
    rule ∈ rules ∧ Text.cutLast ':' label.toList = some (dir, rule.name.toList) ∧
    rule.coordinates? = some (.text key.text) ∧ key.logicalId = a.key.logicalId ∧
    Chosen policy forced wanted key
  chosen : ∀ rule ∈ rules, ∃ key, rule.coordinates? = some (.text key.text) ∧
    Chosen policy forced wanted key

section

variable {policy : ConflictPolicy} {forced : List ArtifactKey} {scopes : List Scope} {r : Resolver}
  {t t' : Tree} {plan : Plan} {cache : Cache} {a : Artifact}

theorem asks_dependencies (policy : ConflictPolicy) (forced : List ArtifactKey) (scopes : List Scope) :
    Asks (.dependencies policy forced) scopes (Wanted (· ∈ scopes)) where
  needs scope shown need needed := by
    obtain ⟨a, member, rfl⟩ := List.mem_map.mp needed
    obtain ⟨member, outside⟩ := List.mem_filter.mp member
    exact ⟨a, ⟨scope, shown, member, by simpa using outside⟩, rfl⟩
  asked a wanted := by
    obtain ⟨scope, shown, member, outside⟩ := wanted
    exact ⟨scope, shown, List.mem_map_of_mem (List.mem_filter.mpr ⟨member, by simpa using outside⟩)⟩

/-- Whatever is planned is copied and wins. -/
theorem chosen_of_planned
    (planned : (Duty.dependencies policy forced).plan t r
      ((Duty.dependencies policy forced).demands scopes) = .ok plan)
    {f : Artifact × Bool} (member : f ∈ plan.fetches) :
    Cache.Needed f.1 f.2 ∧ Chosen policy forced (Wanted (· ∈ scopes)) f.1.key := by
  obtain ⟨pinned, rest, selected, diagnostics, keys, -, opened, selects, fetches, -⟩ :=
    Duty.planDependencies_ok planned
  rw [fetches] at member
  rcases List.mem_append.mp member with first | second
  · obtain ⟨a, inside, rfl⟩ := List.mem_map.mp first
    exact ⟨Or.inr rfl, .forced (keys ▸ List.mem_map_of_mem inside)⟩
  · obtain ⟨b, inside, rfl⟩ := List.mem_map.mp second
    obtain ⟨⟨-, -, -, outside⟩, wins⟩ :=
      (asks_dependencies policy forced scopes).wins opened selects inside
    exact ⟨Or.inl outside, wins⟩

/-- Whatever is wanted is asked for, and something of its identity is planned. -/
theorem planned_of_wanted
    (planned : (Duty.dependencies policy forced).plan t r
      ((Duty.dependencies policy forced).demands scopes) = .ok plan)
    (wanted : Wanted (· ∈ scopes) a) :
    a.key ∈ plan.served ∧ ∃ f ∈ plan.fetches, f.1.key.logicalId = a.key.logicalId := by
  have asks := asks_dependencies policy forced scopes
  obtain ⟨pinned, rest, selected, diagnostics, keys, -, opened, selects, fetches, served⟩ :=
    Duty.planDependencies_ok planned
  obtain ⟨requested, held⟩ := asks.demands_of_wanted wanted
  obtain ⟨b, -, ids, version, payload⟩ := asks.wanted_of_demands held
  obtain same : b.key = a.key := ArtifactKey.eq_of_logicalId ids version
  refine ⟨same ▸ served _ _ requested b held payload, ?_⟩
  rw [fetches]
  by_cases taken : a.key.logicalId ∈ forced.map ArtifactKey.logicalId
  · rw [← keys, List.map_map] at taken
    obtain ⟨p, inside, ids⟩ := List.mem_map.mp taken
    exact ⟨(p, true), List.mem_append_left _ (List.mem_map_of_mem inside), ids⟩
  · obtain ⟨winning, inside, ids⟩ := asks.exists_chosen opened selects wanted taken
    exact ⟨(winning, false), List.mem_append_right _ (List.mem_map_of_mem inside), ids⟩

namespace Collector

variable {c c' : Collector} {cacheRoot : Path} {report : CollectorReport}

/-- The collector of external artifacts serves what the scopes want that it was shown. -/
theorem dependencies_serve (digests : ∀ scope ∈ scopes, scope.Digested)
    (shown : scopes.foldlM register (new (.dependencies policy forced) cacheRoot r) = .ok c)
    (ran : finalize (c, t) = .ok report (c', t')) (apart : CacheEntry.Apart report.entries) :
    ∃ rules, report.Emits (cacheRoot / "external") t' rules ∧
      Serves policy forced (Wanted (· ∈ scopes)) c' rules := by
  rcases served_of_finalize digests shown ran with
    ⟨idle, -⟩ | ⟨plan, cache, middle, served, -, answers, writes⟩
  · cases idle
  have stored := served.materialized fun f member => (chosen_of_planned served.planned member).1
  have chosen : ∀ e ∈ report.entries, Chosen policy forced (Wanted (· ∈ scopes)) e.key := by
    intro e member
    have inside : e.key ∈ plan.fetches.map (·.1.key) := served.keys ▸ List.mem_map_of_mem member
    obtain ⟨f, asked, same⟩ := List.mem_map.mp inside
    exact same ▸ (chosen_of_planned served.planned asked).2
  refine ⟨_, writes.emits (Emission.named_rules _ _ _ _ _), fun a wanted => ?_, fun rule member => ?_⟩
  · obtain ⟨asked, f, member, ids⟩ := planned_of_wanted served.planned wanted
    have inside : f.1.key ∈ report.entries.map CacheEntry.key := served.keys ▸ List.mem_map_of_mem member
    obtain ⟨e, held, same⟩ := List.mem_map.mp inside
    obtain ⟨e, held, ids, target⟩ := Emission.targets_spec cache asked ⟨e, held, same ▸ ids⟩
    have here := stored e held
    have label := cache.cutLast_label here (served.tidy.colon_not_mem held here)
    refine ⟨cache.label e, (Cache.labelDir cache.root cache.resolver.workspace).toList, .prebuilt e,
      e.key, ?_, ?_, ?_, Rule.prebuilt_coordinates e, ids,
      chosen e held⟩
    · rw [targetFor?, answers]
      exact target
    · exact Rule.mem_prebuilts served.tidy apart held here
    · rw [Rule.prebuilt_name]
      exact label
  · obtain ⟨e, held, -, rfl⟩ := Rule.exists_of_mem_prebuilts member
    exact ⟨e.key, Rule.prebuilt_coordinates e, chosen e held⟩

end Collector

end

end RuleDepot
