import RuleDepot.Proofs.Collector.Distinct
import RuleDepot.Proofs.Generation.Sources
import RuleDepot.Proofs.StateFiles
/-!
The counts in the state file.  For each shelf the state file says how many entries of its report were
copied.  Reports list what was fetched, in order, and a coordinate that the configuration lists twice
is fetched twice; the rules are made by name, so there is one for it.  The count is that of the rules
exactly if no coordinate that was copied is listed twice.
-/

namespace RuleDepot

open Running

/-- The coordinates of the entries that were copied, in order. -/
def CollectorReport.copied (report : CollectorReport) : List ArtifactKey :=
  (report.entries.filter (·.materialized)).map CacheEntry.key

private theorem CollectorReport.cached_eq (report : CollectorReport) :
    report.cached = report.copied.length :=
  (List.length_map _).symm

/-- A list is as long as what is different in it exactly if nothing is listed twice. -/
theorem CollectorReport.cached_eq_iff (report : CollectorReport) :
    report.cached = report.copied.dedup.length ↔ report.copied.Nodup := by
  rw [cached_eq]
  constructor
  · intro same
    exact List.dedup_eq_self.mp ((List.dedup_sublist _).eq_of_length same.symm)
  · intro distinct
    rw [distinct.dedup]

namespace Generation

variable {config : Config} {home workspace : Path} {project : Project} {now : Instant}
  {report : GenerationReport} {g g' : Generation} {t t' : Tree} {log : List Scope}
  {r : CollectorReport} {c' : Collector} {u u' : Tree}

/-- Entries of a table that is filled from reports on different shelves. -/
theorem getElem?_counts {reports : List CollectorReport}
    (apart : (reports.map fun r => r.shelf.dirName).Nodup) (name : String) (n : Nat) :
    (reports.foldl (fun table r => table.insert r.shelf.dirName r.cached)
        (∅ : Table String Nat))[name]? = some n ↔
      ∃ r ∈ reports, r.shelf.dirName = name ∧ r.cached = n := by
  constructor
  · intro held
    exact Table.exists_of_foldl_insert held
  · rintro ⟨r, member, rfl, rfl⟩
    obtain ⟨r', member', same, held⟩ := Table.foldl_insert_of_mem
      (fun r : CollectorReport => r.shelf.dirName) CollectorReport.cached member ∅
    obtain rfl := List.inj_on_of_nodup_map apart member' member same
    exact held

/-- What a collector reports and the rules that it writes have as many coordinates. -/
theorem rules_of_left (digests : ∀ scope ∈ log, scope.Digested)
    (left : Left config home workspace project log r t' c' u u')
    (apart : CacheEntry.Apart r.entries) :
    ∃ rules, r.Emits (config.cacheRoot home workspace / r.shelf.dirName) t' rules ∧
      (rules.filter Rule.isPrebuilt).length = r.copied.dedup.length := by
  obtain ⟨rules, emits, wellFormed⟩ :=
    Collector.rules_wellFormed digests (foldlM_stationOf ..) left.ran apart
  rw [Config.shelf_duty] at emits
  refine ⟨rules, emits.stays fun content read => ?_, wellFormed.length_prebuilt⟩
  exact left.stays _ content Cache.isName_ruleFileName (by decide) read

/-- Nothing is copied twice that the configuration does not list twice. -/
theorem nodup_copied (digests : ∀ scope ∈ log, scope.Digested)
    (left : Left config home workspace project log r t' c' u u')
    (distinct : (config.duty r.shelf).Distinct) : r.copied.Nodup := by
  have keys : (r.entries.map CacheEntry.key).Nodup := by
    rcases Collector.served_of_finalize digests (foldlM_stationOf ..) left.ran with
      ⟨-, none, -⟩ | ⟨plan, cache, middle, served, -⟩
    · rw [none]
      exact .nil
    · rw [served.keys]
      exact Duty.nodup_plan distinct served.planned
  exact keys.sublist (List.filter_sublist.map _)

/-- **What is noted of a shelf is how many entries of its report were copied.**  After a pass that
succeeds, whatever was visited in it, the state file is read back with this count for each shelf of the
configuration and for nothing else.  As long as no two coordinates collide, the rule file of the shelf
has one rule for each coordinate that was copied.  So the count is that of these rules if and only if
no such coordinate is listed twice, which holds if the configuration lists none twice. -/
theorem counts_are_noted (accepted : config.check = .ok config)
    (underway : Underway config home workspace project g)
    (ran : finish now (g, t) = .ok report (g', t')) (fits : (g.summary report now).Fits) :
    ∃ s, StateFile.read t' (workspace.join StateFile.location) = .ok (some s) ∧
      report.reports.map (·.shelf) = config.shelves ∧
      (∀ name n, s.categories[name]? = some n ↔
        ∃ r ∈ report.reports, r.shelf.dirName = name ∧ r.cached = n) ∧
      ∀ r ∈ report.reports,
        ((config.duty r.shelf).Distinct → r.copied.Nodup) ∧
        (CacheEntry.Apart r.entries →
          ∃ rules, r.Emits (config.cacheRoot home workspace / r.shelf.dirName) t' rules ∧
            (rules.filter Rule.isPrebuilt).length = r.copied.dedup.length ∧
            (r.cached = (rules.filter Rule.isPrebuilt).length ↔ r.copied.Nodup)) := by
  obtain ⟨log, stations, digests⟩ := underway.stations_eq
  have phase := underway.accumulates.phase
  have shelves := shelves_of_finish phase stations ran
  have place : g.stateFile = workspace.join StateFile.location :=
    congrArg (·.join StateFile.location) underway.placed.1
  refine ⟨g.summary report now, ?_, shelves, fun name n => ?_, fun r member => ?_⟩
  · rw [← place]
    exact StateFile.read_of_write fits (finish_notes phase ran).2.2
  · refine getElem?_counts ?_ name n
    have names : report.reports.map (fun r => r.shelf.dirName) = config.shelves.map Shelf.dirName := by
      rw [← shelves, List.map_map]
      rfl
    rw [names]
    exact config.nodup_shelves.map_on fun a inside b inside' => Shelf.dirName_inj
      (Config.isNamed_of_check accepted a inside) (Config.isNamed_of_check accepted b inside')
  · obtain ⟨c', u, u', -, left⟩ := left_of_finish accepted phase stations digests ran member
    refine ⟨nodup_copied digests left, fun apart => ?_⟩
    obtain ⟨rules, emits, counted⟩ := rules_of_left digests left apart
    exact ⟨rules, emits, counted, counted ▸ r.cached_eq_iff⟩

/-- A jar that is forced twice, and listed once for a shelf that the configuration names. -/
def twiceConfig : Config :=
  { coordinateConfig with
    forced := [Naming.dashedVersion.key, Naming.dashedVersion.key]
    extraCaches := (∅ : Table String (List ArtifactKey)).insert "x" [Naming.dashedVersion.key] }

/-- What is listed for its shelves. -/
def twiceListed : Shelf → List ArtifactKey
  | .external => [Naming.dashedVersion.key, Naming.dashedVersion.key]
  | .extra _ => [Naming.dashedVersion.key]
  | _ => []

/-- The beginning of a pass with it. -/
def twiceStart : EStateM.Result BuildError (Generation × Tree) Unit :=
  Generation.start (new twiceConfig ⟨"/home"⟩ ⟨"/w"⟩ jarProject, Cache.jarTree)

/-- The pass after a visit, and the files by then. -/
def twicePass : Generation × Tree :=
  left (visit ⟨":app"⟩ ((left twiceStart).1, (left twiceStart).2))

/-- The end of that pass. -/
def twiceRun : EStateM.Result BuildError (Generation × Tree) GenerationReport :=
  finish .epoch (twicePass.1, twicePass.2)

theorem counts_of_repeated_jar :
    ∃ report g' t' s, twiceRun = .ok report (g', t') ∧
      StateFile.read t' ((⟨"/w"⟩ : Path).join StateFile.location) = .ok (some s) ∧
      s.categories["external"]? = some 2 ∧ s.categories["extra/x"]? = some 1 ∧
      ∀ r ∈ report.reports, ∃ rules,
        r.Emits (twiceConfig.cacheRoot ⟨"/home"⟩ ⟨"/w"⟩ / r.shelf.dirName) t' rules ∧
        (rules.filter Rule.isPrebuilt).length = (twiceListed r.shelf).dedup.length ∧
        (r.cached = (rules.filter Rule.isPrebuilt).length ↔ r.shelf ≠ .external) := by
  obtain ⟨_, started⟩ : ∃ _, twiceStart = _ := eq_ok_of_isOk (by decide +kernel)
  have reported : (outcome twiceRun).map (fun report =>
      (decide (twicePass.1.summary report .epoch).Fits,
        report.reports.map fun r => (r.shelf, r.entries.map CacheEntry.key, r.copied))) =
      .ok (true, twiceConfig.shelves.map fun shelf =>
        (shelf, twiceListed shelf, twiceListed shelf)) := by decide +kernel
  obtain ⟨report, g', t', ran, reported⟩ := exists_of_outcome reported
  obtain ⟨fits, listed⟩ := Prod.mk.inj reported
  have accepted : twiceConfig.check = .ok twiceConfig := rfl
  have underway : Underway twiceConfig ⟨"/home"⟩ ⟨"/w"⟩ jarProject twicePass.1 :=
    .called (.begun started) ⟨":app"⟩ (left twiceStart).2
  obtain ⟨s, read, -, counts, shelves⟩ :=
    counts_are_noted accepted underway ran (of_decide_eq_true fits)
  have own : ∀ r ∈ report.reports,
      r.entries.map CacheEntry.key = twiceListed r.shelf ∧ r.copied = twiceListed r.shelf := by
    intro r member
    have inside := List.mem_map_of_mem (f := fun r : CollectorReport =>
      (r.shelf, r.entries.map CacheEntry.key, r.copied)) member
    rw [listed] at inside
    obtain ⟨shelf, -, same⟩ := List.mem_map.mp inside
    simp only [Prod.mk.injEq] at same
    obtain ⟨rfl, keys, copied⟩ := same
    exact ⟨keys.symm, copied.symm⟩
  have noted : ∀ shelf ∈ twiceConfig.shelves,
      s.categories[shelf.dirName]? = some (twiceListed shelf).length := by
    intro shelf member
    have inside := List.mem_map_of_mem (f := fun shelf =>
      (shelf, twiceListed shelf, twiceListed shelf)) member
    rw [← listed] at inside
    obtain ⟨r, reported, same⟩ := List.mem_map.mp inside
    simp only [Prod.mk.injEq] at same
    obtain ⟨rfl, -, copied⟩ := same
    exact (counts _ _).mpr ⟨r, reported, rfl, by rw [r.cached_eq, copied]⟩
  refine ⟨report, g', t', s, ran, read, noted .external (by decide +kernel),
    noted (.extra "x") (by decide +kernel), fun r member => ?_⟩
  obtain ⟨keys, copied⟩ := own r member
  have alike : ∀ e ∈ r.entries, e.key = Naming.dashedVersion.key := by
    intro e inside
    have listed := List.mem_map_of_mem (f := CacheEntry.key) inside
    rw [keys] at listed
    cases shelf : r.shelf <;> simp_all [twiceListed]
  obtain ⟨rules, emits, counted, exactly⟩ := (shelves r member).2 fun e inside e' inside' differ =>
    absurd ((alike e inside).trans (alike e' inside').symm) differ
  refine ⟨rules, emits, copied ▸ counted, exactly.trans ?_⟩
  rw [copied]
  cases r.shelf <;> simp [twiceListed]

end Generation

end RuleDepot
