import RuleDepot.Proofs.Collector.Targets
/-!
Versions that lose, and what is said about them.  Of several forced versions of one identity the
first takes the requests, and the diagnostics name it; but the labels are made at the end, where the
last one counts, and a forced version that is asked for keeps its own rule.  Diagnostics and labels
therefore agree exactly if every coordinate that is asked for is served by the first forced version of
its identity.
-/

namespace RuleDepot

open Running Requirements

/-- What is said about two versions: one lost to the other, which is forced or was selected. -/
inductive Overrules (reason lost winner : String) : Prop where
  | forced (askers : String)
      (spelled : reason = s!"{lost} requested by {askers} replaced by forced {winner}")
  | merged (policy : ConflictPolicy) (losers : List String) (among : lost ∈ losers)
      (spelled : reason = overrideReason ⟨winner, losers⟩ policy)

/-- A diagnostic says that a coordinate lost to another version of its identity. -/
structure Diagnostic.Tells (d : Diagnostic) (lost winner : ArtifactKey) : Prop where
  identity : lost.logicalId = winner.logicalId
  differ : winner ≠ lost
  subject : d.coordinate = some winner.logicalId
  reason : Overrules d.reason lost.version winner.version

namespace Overrules

variable {reason lost lost' winner winner' : String}

private theorem toList_forced (askers : String) :
    (s!"{lost} requested by {askers} replaced by forced {winner}").toList =
      (lost.toList ++ ' ' :: ("requested".toList ++ ' ' :: ("by ".toList ++ askers.toList ++
        " replaced by forced".toList))) ++ ' ' :: winner.toList := by
  simp [toString]

private theorem toList_merged (policy : ConflictPolicy) (losers : List String) :
    (overrideReason ⟨winner, losers⟩ policy).toList =
      "selected".toList ++ ' ' :: (winner.toList ++ ' ' :: ("over ".toList ++
        (", ".intercalate losers ++ s!" (policy: {policy.text})").toList)) := by
  simp [overrideReason, toString]

/-- The winner can be read off what is said, since versions hold no blanks. -/
theorem winner_eq (said : Overrules reason lost winner) (said' : Overrules reason lost' winner')
    (lost_ok : IsSegment lost) (lost_ok' : IsSegment lost') (winner_ok : IsSegment winner)
    (winner_ok' : IsSegment winner') : winner = winner' := by
  have solid {text : String} (segment : IsSegment text) : ' ' ∉ text.toList :=
    not_mem_of_isSegment segment (by decide)
  have selected : ' ' ∉ "selected".toList := by decide
  have requested : ' ' ∉ "requested".toList := by decide
  -- The third word of one form is not that of the other.
  have apart {lost winner winner' askers : String} {policy : ConflictPolicy} {losers : List String}
      (lost_ok : IsSegment lost) (winner_ok : IsSegment winner')
      (same : s!"{lost} requested by {askers} replaced by forced {winner}" =
        overrideReason ⟨winner', losers⟩ policy) : False := by
    have texts := congrArg String.toList same
    rw [toList_forced, toList_merged, List.append_assoc] at texts
    obtain ⟨-, texts⟩ := Text.cons_append_inj (solid lost_ok) selected texts
    rw [List.append_assoc] at texts
    obtain ⟨-, texts⟩ := Text.cons_append_inj requested (solid winner_ok) texts
    simp at texts
  cases said with
  | forced askers spelled =>
    cases said' with
    | forced askers' spelled' =>
      have texts := congrArg String.toList (spelled.symm.trans spelled')
      rw [toList_forced, toList_forced] at texts
      exact String.toList_inj.mp (Text.append_cons_inj (solid winner_ok) (solid winner_ok') texts).2
    | merged policy losers among spelled' =>
      exact (apart lost_ok winner_ok' (spelled.symm.trans spelled')).elim
  | merged policy losers among spelled =>
    cases said' with
    | forced askers spelled' => exact (apart lost_ok' winner_ok (spelled'.symm.trans spelled)).elim
    | merged policy' losers' among' spelled' =>
      have texts := congrArg String.toList (spelled.symm.trans spelled')
      rw [toList_merged, toList_merged] at texts
      obtain ⟨-, texts⟩ := Text.cons_append_inj selected selected texts
      exact String.toList_inj.mp (Text.cons_append_inj (solid winner_ok) (solid winner_ok') texts).1

end Overrules

namespace Diagnostic.Tells

variable {d : Diagnostic} {lost lost' winner winner' : ArtifactKey}

private theorem of_forced (ids : lost.logicalId = winner.logicalId) (differ : lost.version ≠ winner.version)
    (askers : String) : Tells ⟨.versionConflict, some winner.logicalId,
      s!"{lost.version} requested by {askers} replaced by forced {winner.version}"⟩ lost winner :=
  ⟨ids, fun same => differ (congrArg ArtifactKey.version same.symm), rfl, .forced askers rfl⟩

private theorem of_merged {selection : Selection} (ids : lost.logicalId = winner.logicalId)
    (version : winner.version = selection.version) (differ : lost.version ≠ selection.version)
    (overridden : lost.version ∈ selection.overridden) (policy : ConflictPolicy) :
    Tells ⟨.versionConflict, some winner.logicalId, overrideReason selection policy⟩ lost winner where
  identity := ids
  differ same := differ (same ▸ version)
  subject := rfl
  reason := .merged policy selection.overridden overridden (by rw [version])

private theorem winner_eq (tells : d.Tells lost winner) (tells' : d.Tells lost' winner') :
    winner = winner' := by
  have ids : winner.logicalId = winner'.logicalId :=
    Option.some.inj (tells.subject.symm.trans tells'.subject)
  have versions : winner.version = winner'.version := tells.reason.winner_eq tells'.reason
    lost.version_ok lost'.version_ok winner.version_ok winner'.version_ok
  exact ArtifactKey.eq_of_logicalId ids versions

end Diagnostic.Tells

namespace Pinning

variable {reason : String → Requested (Option Artifact) → Artifact → String} {d : Diagnostic}

/-- An artifact is reported to win over all other versions that are left of its identity. -/
theorem mem_diagnostics_pin (p : Pinning) (a : Artifact) :
    d ∈ (pin reason p a).diagnostics ↔ d ∈ p.diagnostics ∨ ∃ version requested,
      (versionsOf p.open_ a.key.logicalId)[version]? = some requested ∧ version ≠ a.key.version ∧
      d = ⟨.versionConflict, some a.key.logicalId, reason version requested a⟩ := by
  unfold pin take
  cases known : p.open_[a.key.logicalId]? with
  | none => simp [versionsOf, known]
  | some versions =>
    rw [versionsOf_eq known]
    simp only [List.mem_append, List.mem_filterMap, Prod.exists,
      Std.ExtTreeMap.mem_toList_iff_getElem?_eq_some, Option.ite_none_left_eq_some,
      Option.some.injEq, eq_comm (a := d), ne_eq]

/-- The first artifact of an identity is reported to win over the requests for it, and later ones
find none. -/
theorem mem_diagnostics_iff (artifacts : List Artifact) (p : Pinning) :
    d ∈ (artifacts.foldl (pin reason) p).diagnostics ↔ d ∈ p.diagnostics ∨ ∃ a version requested,
      artifacts.find? (fun b => b.key.logicalId = a.key.logicalId) = some a ∧
      (versionsOf p.open_ a.key.logicalId)[version]? = some requested ∧ version ≠ a.key.version ∧
      d = ⟨.versionConflict, some a.key.logicalId, reason version requested a⟩ := by
  induction artifacts generalizing p with
  | nil => simp
  | cons first rest ih =>
    rw [List.foldl_cons, ih, mem_diagnostics_pin, or_assoc]
    refine or_congr_right ⟨?_, ?_⟩
    · rintro (⟨version, requested, held, lost, rfl⟩ | ⟨a, version, requested, found, held, lost, rfl⟩)
      · exact ⟨first, version, requested, by simp, held, lost, rfl⟩
      · rw [versionsOf, open_pin] at held
        split at held
        · simp at held
        · rename_i other
          exact ⟨a, version, requested, by simp [other, found], held, lost, rfl⟩
    · rintro ⟨a, version, requested, found, held, lost, rfl⟩
      by_cases same : first.key.logicalId = a.key.logicalId
      · obtain rfl : first = a := by simpa [same] using found
        exact Or.inl ⟨version, requested, held, lost, rfl⟩
      · refine Or.inr ⟨a, version, requested, by simpa [same] using found, ?_, lost, rfl⟩
        rw [versionsOf, open_pin, if_neg same]
        exact held

end Pinning

namespace ArtifactKey

variable {keys front back : List ArtifactKey} {key k : ArtifactKey} {id : String}

/-- The first coordinate of an identity. -/
def first? (keys : List ArtifactKey) (id : String) : Option ArtifactKey :=
  keys.find? fun k => k.logicalId = id

/-- The coordinate in a list that is taken for another one: that one itself if it is listed, else the
last of its identity. -/
def standIn? (keys : List ArtifactKey) (key : ArtifactKey) : Option ArtifactKey :=
  if key ∈ keys then some key else keys.reverse.find? fun k => k.logicalId = key.logicalId

private theorem first?_append (front back : List ArtifactKey) (id : String) :
    first? (front ++ back) id = (first? front id).or (first? back id) :=
  List.find?_append

private theorem mem_of_first? (found : first? keys id = some k) : k ∈ keys ∧ k.logicalId = id :=
  ⟨List.mem_of_find?_eq_some found, by simpa using List.find?_some found⟩

private theorem first?_eq_none_iff : first? keys id = none ↔ id ∉ keys.map logicalId := by
  simp [first?]

private theorem mem_of_standIn? (found : standIn? keys key = some k) :
    k ∈ keys ∧ k.logicalId = key.logicalId := by
  unfold standIn? at found
  split at found
  · rename_i listed
    cases found
    exact ⟨listed, rfl⟩
  · exact ⟨List.mem_reverse.mp (List.mem_of_find?_eq_some found),
      by simpa using List.find?_some found⟩

private theorem standIn?_eq_none_iff : standIn? keys key = none ↔ key.logicalId ∉ keys.map logicalId := by
  unfold standIn?
  split
  · rename_i listed
    simp [List.mem_map_of_mem (f := logicalId) listed]
  · simp

private theorem standIn?_append_of_apart (apart : key.logicalId ∉ back.map logicalId) :
    standIn? (front ++ back) key = standIn? front key := by
  have unlisted : key ∉ back := fun listed => apart (List.mem_map_of_mem listed)
  have missing : (back.reverse.find? fun k => k.logicalId = key.logicalId) = none := by
    rw [List.find?_eq_none]
    intro k listed same
    exact apart (List.mem_map.mpr ⟨k, List.mem_reverse.mp listed, by simpa using same⟩)
  unfold standIn?
  rw [List.reverse_append, List.find?_append, missing, Option.none_or]
  simp only [List.mem_append, unlisted, or_false]

end ArtifactKey

/-- The entry that serves a coordinate is the one for what stands in for it. -/
theorem Emission.map_server? (entries : List CacheEntry) (key : ArtifactKey) :
    (server? entries key).map CacheEntry.key =
      ArtifactKey.standIn? (entries.map CacheEntry.key) key := by
  have own : ((entries.map CacheEntry.key).reverse.find? fun k => k = key) =
      if key ∈ entries.map CacheEntry.key then some key else none := by
    split
    · rename_i listed
      cases found : (entries.map CacheEntry.key).reverse.find? fun k => k = key with
      | none => exact absurd (List.find?_eq_none.mp found key (List.mem_reverse.mpr listed)) (by simp)
      | some k => rw [show k = key by simpa using List.find?_some found]
    · rename_i unlisted
      rw [List.find?_eq_none]
      intro k listed same
      exact unlisted ((show k = key by simpa using same) ▸ List.mem_reverse.mp listed)
  have or_eq : ArtifactKey.standIn? (entries.map CacheEntry.key) key =
      ((entries.map CacheEntry.key).reverse.find? fun k => k = key).or
        ((entries.map CacheEntry.key).reverse.find? fun k => k.logicalId = key.logicalId) := by
    rw [own, ArtifactKey.standIn?]
    split <;> simp
  rw [or_eq, ← List.map_reverse, List.find?_map, List.find?_map, server?, Option.map_or]
  rfl

section

variable {policy : ConflictPolicy} {forced : List ArtifactKey} {scopes : List Scope} {r : Resolver}
  {t : Tree} {plan : Plan} {a : Artifact} {d : Diagnostic}

namespace Duty

/-- What is reported about planned dependencies: the first forced version of an identity wins over
the requests for others, and what is selected wins over the other requests. -/
theorem mem_planned_diagnostics_iff {demands : Demands}
    (ran : planDependencies policy forced t r demands = .ok plan) :
    d ∈ plan.diagnostics ↔
      (∃ key version requested, ArtifactKey.first? forced key.logicalId = some key ∧
        (versionsOf demands key.logicalId)[version]? = some requested ∧ version ≠ key.version ∧
        d = ⟨.versionConflict, some key.logicalId,
          s!"{version} requested by {Pinning.askers requested} replaced by forced {key.version}"⟩) ∨
      ∃ (id : String) (versions : Table String (Requested (Option Artifact))) (selection : Selection),
        id ∉ forced.map ArtifactKey.logicalId ∧ demands[id]? = some versions ∧
        (versionRequests versions).select id policy = .ok selection ∧ selection.overridden ≠ [] ∧
        d = ⟨.versionConflict, some id, overrideReason selection policy⟩ := by
  obtain ⟨pinned, resolved, ran⟩ := ok_of_bind ran
  obtain ⟨⟨selected, diagnostics⟩, selects, done⟩ := ok_of_bind ran
  cases done
  obtain ⟨keys, -⟩ := Resolver.resolveAll_ok resolved
  have first (id : String) : ArtifactKey.first? forced id =
      (pinned.find? fun b => b.key.logicalId = id).map Artifact.key := by
    rw [← keys, ArtifactKey.first?, List.find?_map]
    rfl
  have ids : pinned.map (·.key.logicalId) = forced.map ArtifactKey.logicalId := by
    rw [← keys, List.map_map]
    rfl
  rw [List.mem_append, Pinning.pinAll, Pinning.mem_diagnostics_iff, mem_diagnostics_iff selects]
  refine or_congr ⟨?_, ?_⟩ ⟨?_, ?_⟩
  · rintro (none | ⟨a, version, requested, found, held, lost, rfl⟩)
    · cases none
    · exact ⟨a.key, version, requested, by rw [first, found]; rfl, held, lost, rfl⟩
  · rintro ⟨key, version, requested, found, held, lost, rfl⟩
    rw [first] at found
    obtain ⟨a, found, rfl⟩ := Option.map_eq_some_iff.mp found
    exact Or.inr ⟨a, version, requested, found, held, lost, rfl⟩
  · rintro ⟨id, versions, selection, known, selects, others, rfl⟩
    rw [Pinning.pinAll, Pinning.open_foldl, ids] at known
    split at known
    · cases known
    · rename_i free
      exact ⟨id, versions, selection, free, known, selects, others, rfl⟩
  · rintro ⟨id, versions, selection, free, known, selects, others, rfl⟩
    refine ⟨id, versions, selection, ?_, selects, others, rfl⟩
    rw [Pinning.pinAll, Pinning.open_foldl, ids, if_neg free]
    exact known

private theorem planned_keys
    (planned : (dependencies policy forced).plan t r ((dependencies policy forced).demands scopes) =
      .ok plan) :
    ∃ (rest : Demands) (selected : List (Selected (Option Artifact))) (diagnostics : List Diagnostic),
      (∀ id : String, rest[id]? = if id ∈ forced.map ArtifactKey.logicalId then none
        else ((dependencies policy forced).demands scopes)[id]?) ∧
      rest.select policy = .ok (selected, diagnostics) ∧
      plan.fetches.map (·.1.key) = forced ++ (chosen selected).map Artifact.key := by
  obtain ⟨pinned, rest, selected, diagnostics, keys, -, opened, selects, fetches, -⟩ :=
    planDependencies_ok planned
  refine ⟨rest, selected, diagnostics, opened, selects, ?_⟩
  rw [fetches, List.map_append, List.map_map, List.map_map, ← keys]
  rfl

private theorem selection_of_planned
    (planned : (dependencies policy forced).plan t r ((dependencies policy forced).demands scopes) =
      .ok plan) {k : ArtifactKey} (member : k ∈ plan.fetches.map (·.1.key))
    (free : k.logicalId ∉ forced.map ArtifactKey.logicalId) :
    ∃ (versions : Table String (Requested (Option Artifact))) (selection : Selection),
      ((dependencies policy forced).demands scopes)[k.logicalId]? = some versions ∧
      (versionRequests versions).select k.logicalId policy = .ok selection ∧
      k.version = selection.version := by
  obtain ⟨rest, selected, diagnostics, opened, selects, keys⟩ := planned_keys planned
  rw [keys] at member
  rcases List.mem_append.mp member with listed | inside
  · exact absurd (List.mem_map_of_mem listed) free
  · obtain ⟨a, picked, rfl⟩ := List.mem_map.mp inside
    obtain ⟨-, -, selection⟩ :=
      (asks_dependencies policy forced scopes).selection_of_chosen opened selects picked
    exact selection

private theorem planned_single
    (planned : (dependencies policy forced).plan t r ((dependencies policy forced).demands scopes) =
      .ok plan) {k k' : ArtifactKey} (member : k ∈ plan.fetches.map (·.1.key))
    (member' : k' ∈ plan.fetches.map (·.1.key)) (ids : k.logicalId = k'.logicalId)
    (free : k.logicalId ∉ forced.map ArtifactKey.logicalId) : k = k' := by
  obtain ⟨versions, selection, known, select, version⟩ := selection_of_planned planned member free
  obtain ⟨versions', selection', known', select', version'⟩ :=
    selection_of_planned planned member' (ids ▸ free)
  rw [← ids] at known' select'
  obtain rfl : versions = versions' := Option.some.inj (known.symm.trans known')
  obtain rfl : selection = selection' := Except.ok.inj (select.symm.trans select')
  exact ArtifactKey.eq_of_logicalId ids (version.trans version'.symm)

private theorem first?_of_free
    (planned : (dependencies policy forced).plan t r ((dependencies policy forced).demands scopes) =
      .ok plan) {k : ArtifactKey} (member : k ∈ plan.fetches.map (·.1.key))
    (free : k.logicalId ∉ forced.map ArtifactKey.logicalId) :
    ArtifactKey.first? (plan.fetches.map (·.1.key)) k.logicalId = some k := by
  cases found : ArtifactKey.first? (plan.fetches.map (·.1.key)) k.logicalId with
  | none => exact absurd (List.mem_map_of_mem member) (ArtifactKey.first?_eq_none_iff.mp found)
  | some first =>
    obtain ⟨listed, ids⟩ := ArtifactKey.mem_of_first? found
    rw [planned_single planned listed member ids (ids ▸ free)]

/-- What the diagnostics say of a coordinate that is wanted: it lost to the first coordinate of its
identity that is planned, unless it is that one. -/
theorem tells_iff
    (planned : (dependencies policy forced).plan t r ((dependencies policy forced).demands scopes) =
      .ok plan) (asked : Wanted (· ∈ scopes) a) {winner : ArtifactKey} :
    (∃ d ∈ plan.diagnostics, d.Tells a.key winner) ↔ winner ≠ a.key ∧
      ArtifactKey.first? (plan.fetches.map (·.1.key)) a.key.logicalId = some winner := by
  have asks := asks_dependencies policy forced scopes
  obtain ⟨rest, selected, diagnostics, opened, selects, keys⟩ := planned_keys planned
  constructor
  · rintro ⟨d, member, tells⟩
    refine ⟨tells.differ, ?_⟩
    rcases (mem_planned_diagnostics_iff planned).mp member with
      ⟨key, version, requested, found, held, lost, rfl⟩ |
      ⟨id, versions, selection, free, known, select, others, rfl⟩
    · obtain ⟨b, -, ids, rfl, -⟩ := asks.wanted_of_demands held
      obtain rfl : winner = key := tells.winner_eq (.of_forced ids lost _)
      rw [keys, ArtifactKey.first?_append, tells.identity, found, Option.some_or]
    · obtain ⟨version, overridden⟩ := List.exists_mem_of_ne_nil _ others
      obtain ⟨asked, other⟩ := (VersionRequests.mem_overridden_iff select).mp overridden
      obtain ⟨b, wanted, rfl, rfl⟩ := (asks.mem_versionRequests_iff known).mp asked
      obtain ⟨f, fetched, ids⟩ := (planned_of_wanted planned wanted).2
      have inside : f.1.key ∈ plan.fetches.map (·.1.key) := List.mem_map_of_mem fetched
      obtain ⟨versions', selection', known', select', version⟩ :=
        selection_of_planned planned inside (ids ▸ free)
      rw [ids] at known' select'
      obtain rfl : versions = versions' := Option.some.inj (known.symm.trans known')
      obtain rfl : selection = selection' := Except.ok.inj (select.symm.trans select')
      rw [← ids] at tells
      obtain rfl : winner = f.1.key :=
        tells.winner_eq (.of_merged ids.symm version other overridden policy)
      rw [tells.identity]
      exact first?_of_free planned inside (ids ▸ free)
  · rintro ⟨differ, found⟩
    obtain ⟨listed, ids⟩ := ArtifactKey.mem_of_first? found
    have versions : a.key.version ≠ winner.version := fun same =>
      differ (ArtifactKey.eq_of_logicalId ids same.symm)
    by_cases free : winner.logicalId ∈ forced.map ArtifactKey.logicalId
    · obtain ⟨requested, held⟩ := asks.demands_of_wanted asked
      cases taken : ArtifactKey.first? forced a.key.logicalId with
      | none => exact absurd (ids ▸ free) (ArtifactKey.first?_eq_none_iff.mp taken)
      | some key =>
        rw [keys, ArtifactKey.first?_append, taken, Option.some_or] at found
        obtain rfl : key = winner := Option.some.inj found
        rw [← ids] at taken held
        exact ⟨_, (mem_planned_diagnostics_iff planned).mpr
          (Or.inl ⟨key, a.key.version, requested, taken, held, versions, rfl⟩),
          .of_forced ids.symm versions _⟩
    · obtain ⟨known, selection, held, select, version⟩ := selection_of_planned planned listed free
      have others : a.key.version ≠ selection.version := version ▸ versions
      have overridden : a.key.version ∈ selection.overridden :=
        (VersionRequests.mem_overridden_iff select).mpr
          ⟨(asks.mem_versionRequests_iff held).mpr ⟨a, asked, ids.symm, rfl⟩, others⟩
      exact ⟨_, (mem_planned_diagnostics_iff planned).mpr
        (Or.inr ⟨_, known, selection, free, held, select, List.ne_nil_of_mem overridden, rfl⟩),
        .of_merged ids.symm version others overridden policy⟩

end Duty

private theorem CacheEntry.Tidy.eq_of_ruleName {entries : List CacheEntry} {e e' : CacheEntry}
    (tidy : Tidy entries) (member : e ∈ entries) (member' : e' ∈ entries)
    (stored : e.materialized = true) (stored' : e'.materialized = true)
    (ids : e.key.logicalId = e'.key.logicalId) (same : e.ruleName = e'.ruleName) : e = e' := by
  apply tidy.single e member e' member'
  rcases Naming.key_of_ruleName (tidy.digest e member) (tidy.digest e' member')
    (tidy.candidate e member stored) (tidy.candidate e' member' stored') same with keys | collide
  · exact keys
  · exact Naming.eq_of_readable ids collide.2.2.1

/-- What becomes of a coordinate that is wanted: the entry that it is said to have lost to, and the
entry that serves it.  Of forced versions the first is named, and the last serves unless the
coordinate is forced itself; where none is forced, the version that is selected does both. -/
structure Overruling (policy : ConflictPolicy) (forced : List ArtifactKey) (wanted : Artifact → Prop)
    (labelDir : String) (c : Collector) (report : CollectorReport) (a : Artifact)
    (named server : CacheEntry) : Prop where
  named_first : report.entries.find? (fun e => e.key.logicalId = a.key.logicalId) = some named
  server_last : Emission.server? report.entries a.key = some server
  told : ∀ winner, (∃ d ∈ report.diagnostics, d.Tells a.key winner) ↔
    winner = named.key ∧ winner ≠ a.key
  target : c.targetFor? a.key = some (labelDir ++ ":" ++ server.ruleName)
  forcedFirst : ∀ key, ArtifactKey.first? forced a.key.logicalId = some key → named.key = key
  forcedLast : ∀ key, ArtifactKey.standIn? forced a.key = some key → server.key = key
  selected : a.key.logicalId ∉ forced.map ArtifactKey.logicalId →
    server = named ∧ Chosen policy forced wanted named.key

/-- Diagnostics and targets agree: every coordinate that is wanted has the label of the rule for one
version, the diagnostics say that it lost to that version and to no other, or nothing if it is that
version itself, and all coordinates of one identity have one label. -/
structure CollectorReport.Agrees (report : CollectorReport) (wanted : Artifact → Prop)
    (labelDir : String) (c : Collector) : Prop where
  each : ∀ a, wanted a → ∃ e ∈ report.entries, e.key.logicalId = a.key.logicalId ∧
    c.targetFor? a.key = some (labelDir ++ ":" ++ e.ruleName) ∧
    ∀ winner, (∃ d ∈ report.diagnostics, d.Tells a.key winner) ↔ winner = e.key ∧ winner ≠ a.key
  shared : ∀ a b, wanted a → wanted b → a.key.logicalId = b.key.logicalId →
    c.targetFor? a.key = c.targetFor? b.key

namespace Overruling

variable {wanted : Artifact → Prop} {labelDir : String} {c : Collector} {report : CollectorReport}
  {named server : CacheEntry}

/-- Where the version that is named also serves, that is a forced one or none is. -/
theorem named_eq_iff (tidy : CacheEntry.Tidy report.entries)
    (ruling : Overruling policy forced wanted labelDir c report a named server) :
    server = named ↔
      ArtifactKey.first? forced a.key.logicalId = ArtifactKey.standIn? forced a.key := by
  by_cases taken : a.key.logicalId ∈ forced.map ArtifactKey.logicalId
  · cases first : ArtifactKey.first? forced a.key.logicalId with
    | none => exact absurd taken (ArtifactKey.first?_eq_none_iff.mp first)
    | some key =>
      cases last : ArtifactKey.standIn? forced a.key with
      | none => exact absurd taken (ArtifactKey.standIn?_eq_none_iff.mp last)
      | some key' =>
        rw [Option.some.injEq, ← ruling.forcedFirst key first, ← ruling.forcedLast key' last]
        constructor
        · rintro rfl
          rfl
        · intro keys
          exact tidy.single server (Emission.mem_of_server? ruling.server_last).1 named
            (List.mem_of_find?_eq_some ruling.named_first) keys.symm
  · rw [ArtifactKey.first?_eq_none_iff.mpr taken, ArtifactKey.standIn?_eq_none_iff.mpr taken]
    exact iff_of_true (ruling.selected taken).1 rfl

/-- Diagnostics and targets agree exactly if the version that is named also serves, for every
coordinate. -/
theorem agrees_iff (tidy : CacheEntry.Tidy report.entries)
    (stored : ∀ e ∈ report.entries, e.materialized = true)
    (rulings : ∀ a, wanted a → ∃ named server,
      Overruling policy forced wanted labelDir c report a named server) :
    report.Agrees wanted labelDir c ↔ ∀ a, wanted a →
      ArtifactKey.first? forced a.key.logicalId = ArtifactKey.standIn? forced a.key := by
  constructor
  · intro agrees a asked
    obtain ⟨named, server, ruling⟩ := rulings a asked
    obtain ⟨e, member, ids, target, told⟩ := agrees.each a asked
    obtain ⟨inside, ids'⟩ := Emission.mem_of_server? ruling.server_last
    have labels := congrArg String.toList (Option.some.inj (target.symm.trans ruling.target))
    simp only [String.toList_append] at labels
    have names : e.ruleName = server.ruleName :=
      String.toList_inj.mp (List.append_cancel_left labels)
    obtain rfl : e = server := tidy.eq_of_ruleName member inside (stored e member)
      (stored server inside) (ids.trans ids'.symm) names
    apply (ruling.named_eq_iff tidy).mp
    apply tidy.single e member named (List.mem_of_find?_eq_some ruling.named_first)
    by_cases own : e.key = a.key
    · by_contra differ
      have lost : named.key ≠ a.key := fun same => differ (own.trans same.symm)
      obtain ⟨same, -⟩ := (told named.key).mp ((ruling.told named.key).mpr ⟨rfl, lost⟩)
      exact differ same.symm
    · exact ((ruling.told e.key).mp ((told e.key).mpr ⟨rfl, own⟩)).1
  · intro alike
    have same {a : Artifact} {named server : CacheEntry} (asked : wanted a)
        (ruling : Overruling policy forced wanted labelDir c report a named server) : server = named :=
      (ruling.named_eq_iff tidy).mpr (alike a asked)
    constructor
    · intro a asked
      obtain ⟨named, server, ruling⟩ := rulings a asked
      obtain rfl := same asked ruling
      obtain ⟨member, ids⟩ := Emission.mem_of_server? ruling.server_last
      exact ⟨server, member, ids, ruling.target, ruling.told⟩
    · intro a b asked asked' ids
      obtain ⟨named, server, ruling⟩ := rulings a asked
      obtain ⟨named', server', ruling'⟩ := rulings b asked'
      obtain rfl := same asked ruling
      obtain rfl := same asked' ruling'
      have first := ruling.named_first
      rw [ids, ruling'.named_first] at first
      obtain rfl : server' = server := Option.some.inj first
      rw [ruling.target, ruling'.target]

end Overruling

namespace Collector

variable {c c' : Collector} {cacheRoot : Path} {report : CollectorReport} {t' : Tree}

private theorem overruling_of_served {cache : Cache} {middle : Tree}
    (served : Served (.dependencies policy forced) scopes r t plan report.entries cache middle)
    (diagnostics : report.diagnostics = plan.diagnostics)
    (answers : c'.answers.targets = Emission.targets cache plan.served report.entries)
    (root : cache.root = cacheRoot / "external") (asked : Wanted (· ∈ scopes) a) :
    ∃ named server, Overruling policy forced (Wanted (· ∈ scopes))
      (Cache.labelDir (cacheRoot / "external") r.workspace) c' report a named server := by
  obtain ⟨listed, f, fetched, ids⟩ := planned_of_wanted served.planned asked
  obtain ⟨rest, selected, others, opened, selects, keys⟩ := Duty.planned_keys served.planned
  have inside : f.1.key ∈ report.entries.map CacheEntry.key :=
    served.keys ▸ List.mem_map_of_mem fetched
  obtain ⟨e, member, same⟩ := List.mem_map.mp inside
  have present : ∃ e ∈ report.entries, e.key.logicalId = a.key.logicalId := ⟨e, member, same ▸ ids⟩
  obtain ⟨server, last⟩ := Emission.exists_server? present
  obtain ⟨held, serves⟩ := Emission.mem_of_server? last
  have some_ : (report.entries.find? fun e => e.key.logicalId = a.key.logicalId).isSome = true := by
    rw [List.find?_isSome]
    exact present.imp fun e inside => ⟨inside.1, by simpa using inside.2⟩
  obtain ⟨named, first⟩ := Option.isSome_iff_exists.mp some_
  have stored := served.materialized fun f member => (chosen_of_planned served.planned member).1
  have standIn := Emission.map_server? report.entries a.key
  rw [last, served.keys, Option.map_some, eq_comm] at standIn
  have front : ArtifactKey.first? (plan.fetches.map (·.1.key)) a.key.logicalId = some named.key := by
    rw [← served.keys, ArtifactKey.first?, List.find?_map]
    exact congrArg (Option.map CacheEntry.key) first
  have planned {e : CacheEntry} (member : e ∈ report.entries) :
      e.key ∈ plan.fetches.map (·.1.key) := served.keys ▸ List.mem_map_of_mem member
  have ahead := List.mem_of_find?_eq_some first
  have ids' : named.key.logicalId = a.key.logicalId := by simpa using List.find?_some first
  refine ⟨named, server, first, last, fun winner => ?_, ?_, fun key found => ?_, fun key found => ?_,
    fun free => ⟨?_, ?_⟩⟩
  · rw [diagnostics, Duty.tells_iff served.planned asked, front, Option.some.injEq,
      eq_comm (a := named.key), and_comm]
  · rw [targetFor?, answers, Emission.getElem?_targets cache listed, last, Option.map_some,
      cache.label_of_materialized (stored server held), root, served.resolver]
  · rw [keys, ArtifactKey.first?_append, found, Option.some_or] at front
    exact (Option.some.inj front).symm
  · obtain ⟨listed, taken⟩ := ArtifactKey.mem_of_standIn? found
    have apart : a.key.logicalId ∉ ((Duty.chosen selected).map Artifact.key).map
        ArtifactKey.logicalId := by
      intro member
      obtain ⟨k, inside, same⟩ := List.mem_map.mp member
      obtain ⟨b, picked, rfl⟩ := List.mem_map.mp inside
      obtain ⟨-, unforced, -⟩ :=
        (asks_dependencies policy forced scopes).selection_of_chosen opened selects picked
      exact unforced (same ▸ taken ▸ List.mem_map_of_mem listed)
    rw [keys, ArtifactKey.standIn?_append_of_apart apart, found] at standIn
    exact (Option.some.inj standIn).symm
  · apply served.tidy.single server held named ahead
    exact Duty.planned_single served.planned (planned held) (planned ahead)
      (serves.trans ids'.symm) (serves ▸ free)
  · obtain ⟨f, asked, same⟩ := List.mem_map.mp (planned ahead)
    exact same ▸ (chosen_of_planned served.planned asked).2

/-- **Diagnostics and targets agree exactly if no forced version overrules another one.**  Whatever
scopes the collector of external artifacts is shown, with whatever forced coordinates: if it ends
well, every coordinate that is wanted is said to have lost to the first forced version of its
identity, and is served by the last one or by its own if it is forced; where none is forced, the
version that the policy selects is named and serves. -/
theorem diagnostics_agree_iff (digests : ∀ scope ∈ scopes, scope.Digested)
    (shown : scopes.foldlM register (new (.dependencies policy forced) cacheRoot r) = .ok c)
    (ran : finalize (c, t) = .ok report (c', t')) :
    let wanted := Wanted (· ∈ scopes)
    let labelDir := Cache.labelDir (cacheRoot / "external") r.workspace
    ∃ rules, report.Emits (cacheRoot / "external") t' rules ∧
      (CacheEntry.Apart report.entries → ∀ e ∈ report.entries, Rule.prebuilt e ∈ rules) ∧
      (∀ a, wanted a → ∃ named server,
        Overruling policy forced wanted labelDir c' report a named server) ∧
      (report.Agrees wanted labelDir c' ↔ ∀ a, wanted a →
        ArtifactKey.first? forced a.key.logicalId = ArtifactKey.standIn? forced a.key) := by
  intro wanted labelDir
  rcases reported_of_finalize digests shown ran with
    ⟨idle, -⟩ | ⟨plan, cache, middle, served, root, diagnostics, answers, writes⟩
  · cases idle
  have stored := served.materialized fun f member => (chosen_of_planned served.planned member).1
  have rulings : ∀ a, wanted a → ∃ named server,
      Overruling policy forced wanted labelDir c' report a named server := by
    intro a asked
    have reported : report.diagnostics = plan.diagnostics :=
      diagnostics.trans (List.append_nil _)
    exact overruling_of_served served reported (congrArg Answers.targets answers) root asked
  exact ⟨_, writes.emits (Emission.named_rules _ _ _ _ _), fun apart e member => Rule.mem_prebuilts served.tidy apart member
    (stored e member), rulings, Overruling.agrees_iff served.tidy stored rulings⟩

/-- A coordinate at some version. -/
def rivalKey (version : String) (segment : IsSegment version) : ArtifactKey :=
  { Naming.dashedVersion.key with version := version, version_ok := segment }

/-- Two versions that are forced. -/
def rivals : List ArtifactKey :=
  [rivalKey "1" (by decide), rivalKey "2" (by decide)]

/-- An artifact of a third version. -/
def rivalArtifact : Artifact :=
  ⟨rivalKey "3" (by decide), ⟨"/x.jar"⟩, .ofCoordinate (rivalKey "3" (by decide)), .external⟩

/-- A scope that needs the third version. -/
def rivalScope : Scope :=
  { Scope.empty ⟨⟨":app"⟩, .main⟩ ⟨"app"⟩ with compile := [.external rivalArtifact] }

/-- Both forced versions are found. -/
def rivalResolver : Resolver :=
  ⟨rivals.foldl (fun table key => table.insert key ⟨"/x.jar"⟩) ∅, [], .coordinate, ⟨"/"⟩⟩

/-- What becomes of the scope. -/
def rivalRun : EStateM.Result BuildError (Collector × Tree) CollectorReport :=
  finalize ((new (.dependencies .highest rivals) ⟨"/cache"⟩ rivalResolver).shown [rivalScope],
    Cache.jarTree)

/-- The third version is said to have lost to the first one, and is served by the second. -/
theorem rival_diagnostics_disagree : ∃ report c' t' rules, rivalRun = .ok report (c', t') ∧
    report.diagnostics.map Diagnostic.text =
      ["[version-conflict] a:b: 3 requested by :app (main) replaced by forced 1"] ∧
    c'.targetFor? rivalArtifact.key = some "//cache/external:a.b-2" ∧
    report.Emits ((⟨"/cache"⟩ : Path) / "external") t' rules ∧
    ¬ report.Agrees (Wanted (· ∈ [rivalScope])) "//cache/external" c' := by
  have ended : (outcome rivalRun).map (fun report => report.diagnostics.map Diagnostic.text) =
        .ok ["[version-conflict] a:b: 3 requested by :app (main) replaced by forced 1"] ∧
      (left rivalRun).1.targetFor? rivalArtifact.key = some "//cache/external:a.b-2" := by
    decide +kernel
  obtain ⟨told, answered⟩ := ended
  obtain ⟨report, c', t', ran, told⟩ := exists_of_outcome told
  rw [ran] at answered
  have digests : ∀ scope ∈ [rivalScope], scope.Digested := by
    intro scope member a inside
    obtain rfl := List.mem_singleton.mp member
    obtain rfl : a = rivalArtifact := by
      simpa [Scope.artifacts, Scope.externalArtifacts, rivalScope, Scope.empty, Edge.artifact?,
        eq_comm] using inside
    exact ContentHash.isDigest_ofCoordinate _
  have shown : [rivalScope].foldlM register
      (new (.dependencies .highest rivals) ⟨"/cache"⟩ rivalResolver) = _ := register_foldlM rfl _
  obtain ⟨rules, emits, -, -, agrees⟩ := diagnostics_agree_iff digests shown ran
  have label : Cache.labelDir ((⟨"/cache"⟩ : Path) / "external") ⟨"/"⟩ = "//cache/external" := by
    decide
  have wanted : Wanted (· ∈ [rivalScope]) rivalArtifact :=
    ⟨rivalScope, List.mem_cons_self, List.mem_cons_self, rfl⟩
  refine ⟨report, c', t', rules, ran, told, answered, emits, fun same => ?_⟩
  have alike := agrees.mp (label ▸ same) rivalArtifact wanted
  exact absurd alike (by decide)

end Collector

end

end RuleDepot
