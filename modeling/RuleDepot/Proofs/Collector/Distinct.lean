import Mathlib.Data.List.Dedup
import RuleDepot.Proofs.Collector.RuleLists
/-!
Whether something is fetched twice.  What scopes ask for is merged, so of that one version of each
artifact is fetched, and none that the configuration lists.  What the configuration lists is taken as
it stands there.  So a coordinate is fetched twice only if the configuration lists it twice; in the
cache, and among the rules, it is one all the same.
-/

namespace RuleDepot

open Running Requirements

namespace Duty

variable {duty : Duty} {scopes : List Scope} {plan : Plan} {rest : Demands} {policy : ConflictPolicy}
  {selected : List (Selected (Option Artifact))} {diagnostics : List Diagnostic} {r : Resolver}
  {t : Tree}

/-- What the configuration lists for a duty is listed once. -/
def Distinct : Duty → Prop
  | dependencies _ forced => forced.Nodup
  | processors _ => True
  | lint config => config.artifacts.Nodup
  | runtime _ config => config.artifacts.Nodup
  | transforms config => config.dependencies.Nodup
  | robolectric config => config.androidAll.Nodup
  | tools _ => True
  | extra _ keys => keys.Nodup

/-- Of what scopes ask for, no coordinate is chosen twice. -/
theorem nodup_chosen (remaining : Remaining (duty.demands scopes) rest)
    (ran : rest.select policy = .ok (selected, diagnostics)) :
    ((chosen selected).map Artifact.key).Nodup := by
  have ids : (selected.map Selected.logicalId).Nodup := by
    rw [selected_keys ran]
    exact Std.ExtTreeMap.nodup_keys
  refine List.pairwise_map.mpr (List.pairwise_filterMap.mpr ?_)
  refine (List.pairwise_map.mp ids).imp_of_mem fun {s s'} member member' differ => ?_
  intro a held a' held' same
  have identity := (chosen_spec remaining ran member held).2.1
  have identity' := (chosen_spec remaining ran member' held').2.1
  exact differ (Option.some.inj (identity.symm.trans ((congrArg duty.identity same).trans identity')))

private theorem nodup_of_select (ran : (duty.demands scopes).select policy = .ok (selected, diagnostics))
    (flag : Bool) : (((chosen selected).map (·, flag)).map (·.1.key)).Nodup := by
  rw [List.map_map]
  exact nodup_chosen (.refl _) ran

private theorem nodup_of_merge {pinned : List Artifact} (listed : (pinned.map Artifact.key).Nodup)
    (remaining : Remaining (duty.demands scopes) rest)
    (taken : ∀ a ∈ pinned, ∀ id, duty.identity a.key = some id → id ∉ rest)
    (ran : rest.select policy = .ok (selected, diagnostics)) (flag : Bool) :
    ((pinned.map (·, true) ++ (chosen selected).map (·, flag)).map (·.1.key)).Nodup := by
  have keys : (pinned.map (·, true) ++ (chosen selected).map (·, flag)).map (·.1.key) =
      pinned.map Artifact.key ++ (chosen selected).map Artifact.key := by
    rw [List.map_append, List.map_map, List.map_map]
    rfl
  rw [keys, List.nodup_append]
  refine ⟨listed, nodup_chosen remaining ran, fun key member key' member' => ?_⟩
  obtain ⟨a, inside, rfl⟩ := List.mem_map.mp member
  obtain ⟨b, inside', rfl⟩ := List.mem_map.mp member'
  exact chosen_apart remaining taken ran a inside b inside'

private theorem modulesAt_ok {modules : List ArtifactModule} {version : String} {keys : List ArtifactKey}
    (named : modulesAt modules version = .ok keys) :
    keys.map (fun k => (k.group, k.name)) = modules.map fun m => (m.group, m.name) := by
  have listed := forall₂_of_modulesAt named
  clear named
  induction listed with
  | nil => rfl
  | @cons m key rest others first _ ih =>
    have own : key.group = m.group ∧ key.name = m.name := by
      obtain ⟨⟨_⟩, -, first⟩ := ok_of_bind first
      obtain ⟨⟨_⟩, -, first⟩ := ok_of_bind first
      obtain ⟨⟨_⟩, -, first⟩ := ok_of_bind first
      cases first
      exact ⟨rfl, rfl⟩
    rw [List.map_cons, List.map_cons, own.1, own.2, ih]

private theorem nodup_found {keys : List ArtifactKey} {found : List Artifact} {who : Option String}
    (resolved : r.resolveAll t keys who = .ok found) (listed : keys.Nodup) (flag : Bool) :
    ((found.map (·, flag)).map (·.1.key)).Nodup := by
  have same : (found.map (·, flag)).map (·.1.key) = keys := by
    rw [← (Resolver.resolveAll_ok resolved).1, List.map_map]
    rfl
  rwa [same]

private theorem nodup_toolchain {name version : String} {modules : List ArtifactModule}
    (listed : modules.Nodup) (ran : planToolchain name modules version t r diagnostics = .ok plan) :
    (plan.fetches.map (·.1.key)).Nodup := by
  obtain ⟨keys, named, ran⟩ := ok_of_bind ran
  obtain ⟨found, resolved, done⟩ := ok_of_bind ran
  cases done
  have names : (keys.map fun k => (k.group, k.name)).Nodup := by
    rw [modulesAt_ok named]
    refine listed.map fun m m' same => ?_
    obtain ⟨groups, names⟩ := Prod.mk.inj same
    cases m
    cases m'
    simp_all
  exact nodup_found resolved names.of_map false

/-- Nothing is fetched twice that is not listed twice. -/
theorem nodup_plan (distinct : duty.Distinct)
    (ran : duty.plan t r (duty.demands scopes) = .ok plan) : (plan.fetches.map (·.1.key)).Nodup := by
  cases duty with
  | dependencies policy forced =>
    obtain ⟨pinned, rest, selected, diagnostics, rfl, -, opened, selects, fetches, -⟩ :=
      planDependencies_ok ran
    rw [List.map_map] at opened
    obtain ⟨remaining, taken⟩ := remaining_of_taken opened
    rw [fetches]
    refine nodup_of_merge distinct remaining (fun a member id identity => ?_) selects false
    obtain rfl : a.key.logicalId = id := Option.some.inj identity
    exact taken a member
  | processors policy =>
    obtain ⟨⟨selected, diagnostics⟩, selects, done⟩ := ok_of_bind ran
    cases done
    exact nodup_of_select selects true
  | lint config =>
    obtain ⟨⟨version, diagnostics⟩, -, ran⟩ := ok_of_bind ran
    exact nodup_toolchain distinct ran
  | runtime language config =>
    obtain ⟨⟨version, diagnostics⟩, -, ran⟩ := ok_of_bind ran
    cases version with
    | some version => exact nodup_toolchain distinct ran
    | none =>
      cases ran
      exact .nil
  | transforms config =>
    obtain ⟨pinned, rest, selected, diagnostics, keys, -, opened, selects, fetches⟩ :=
      planTransforms_ok ran
    obtain ⟨remaining, taken⟩ := remaining_of_taken opened
    rw [fetches]
    refine nodup_of_merge (keys ▸ distinct) remaining (fun a member id identity => ?_) selects true
    obtain rfl : a.key.logicalId = id := Option.some.inj identity
    exact taken a member
  | robolectric config =>
    obtain ⟨found, resolved, done⟩ := ok_of_bind ran
    cases done
    exact nodup_found resolved distinct false
  | tools config =>
    obtain ⟨⟨selected, diagnostics⟩, selects, done⟩ := ok_of_bind ran
    cases done
    exact nodup_of_select selects true
  | extra name keys =>
    obtain ⟨found, resolved, done⟩ := ok_of_bind ran
    cases done
    exact nodup_found resolved distinct false

end Duty

namespace Rule

variable {entries : List CacheEntry} {rules : List Rule}

/-- In a list that can be loaded, as many rules stand for files as there are coordinates that were
copied. -/
theorem WellFormed.length_prebuilt (wellFormed : WellFormed entries rules) :
    (rules.filter isPrebuilt).length =
      ((entries.filter (·.materialized)).map CacheEntry.key).dedup.length := by
  have named : ∀ rule ∈ rules.filter isPrebuilt, ∃ e ∈ entries, e.materialized = true ∧
      rule = prebuilt e := by
    intro rule member
    obtain ⟨inside, stands⟩ := List.mem_filter.mp member
    exact wellFormed.only rule inside stands
  have found {e : CacheEntry} (member : e ∈ entries) (stored : e.materialized = true) :
      prebuilt e ∈ rules.filter isPrebuilt := by
    have alone := wellFormed.single e member stored
    have inside : prebuilt e ∈ rules.filter fun rule =>
        rule.isPrebuilt && rule.coordinates? = some (.text e.key.text) := by simp [alone]
    exact List.mem_filter.mpr ⟨(List.mem_filter.mp inside).1, prebuilt_isPrebuilt e⟩
  have different : (rules.filter isPrebuilt).Nodup :=
    ((List.pairwise_map.mp wellFormed.names).imp fun differ same =>
      differ (congrArg name same)).filter _
  -- The coordinate of a rule tells it from the others, so both lists are compared by coordinates.
  have left : ((rules.filter isPrebuilt).map coordinates?).Nodup := by
    refine different.map_on fun rule member rule' member' same => ?_
    obtain ⟨e, inside, stored, rfl⟩ := named rule member
    obtain ⟨e', inside', stored', rfl⟩ := named rule' member'
    rw [prebuilt_coordinates, prebuilt_coordinates] at same
    have own : prebuilt e' ∈ rules.filter fun rule =>
        rule.isPrebuilt && rule.coordinates? = some (.text e.key.text) := by
      refine List.mem_filter.mpr ⟨(List.mem_filter.mp member').1, ?_⟩
      simp [same]
    rw [wellFormed.single e inside stored] at own
    exact (List.mem_singleton.mp own).symm
  have right : (((entries.filter (·.materialized)).map CacheEntry.key).dedup.map
      fun key => some (AttrValue.text key.text)).Nodup :=
    (List.nodup_dedup _).map fun key key' same =>
      ArtifactKey.eq_of_text (AttrValue.text.inj (Option.some.inj same))
  have same := (List.perm_ext_iff_of_nodup left right).mpr fun coordinates => by
    simp only [List.mem_map, List.mem_dedup]
    constructor
    · rintro ⟨rule, member, rfl⟩
      obtain ⟨e, inside, stored, rfl⟩ := named rule member
      exact ⟨e.key, ⟨e, List.mem_filter.mpr ⟨inside, stored⟩, rfl⟩, (prebuilt_coordinates e).symm⟩
    · rintro ⟨key, ⟨e, listed, rfl⟩, rfl⟩
      obtain ⟨inside, stored⟩ := List.mem_filter.mp listed
      exact ⟨prebuilt e, found inside stored, prebuilt_coordinates e⟩
  simpa using same.length_eq

end Rule

end RuleDepot
