import Mathlib.Data.List.Induction
import RuleDepot.Ledger
import RuleDepot.Proofs.Running
import RuleDepot.Proofs.Version.Choosing
/-!
What a ledger holds after a list of requests.  A version of a dependency is known exactly if it was
requested; then everyone who requested it is a requester, and the payload is that of the first
request.  Lists with the same requests therefore fill a ledger alike, up to the payloads of versions
for which the requests supply several, and what is selected depends on no payload but those of the
selected versions.
-/

namespace RuleDepot

namespace Requirements

open Std

/-- A request for a version of a dependency. -/
structure Request (α : Type) where
  logicalId : String
  version : String
  requester : String
  payload : α

variable {α : Type} {requests requests' : List (Request α)} {r r' : Requirements α}
  {id version : String}

/-- Requests put into a ledger one after another. -/
def addAll (r : Requirements α) (requests : List (Request α)) : Requirements α :=
  requests.foldl (fun r q => r.add q.logicalId q.version q.requester q.payload) r

/-- The versions of a dependency; one that nobody asked for has none. -/
def versionsOf (r : Requirements α) (id : String) : Table String (Requested α) :=
  r[id]?.getD ∅

/-- The requests for one version of one dependency. -/
def about (requests : List (Request α)) (id version : String) : List (Request α) :=
  requests.filter fun q => q.logicalId = id ∧ q.version = version

/-- What requests for one version come to: everyone who asked and the payload of the first. -/
def merged : List (Request α) → Option (Requested α)
  | [] => none
  | first :: rest => some
      ⟨(first :: rest).foldl (fun names q => names.insert q.requester) ∅, first.payload⟩

private theorem merged_snoc (requests : List (Request α)) (q : Request α) :
    merged (requests ++ [q]) = some
      { (merged requests).getD ⟨∅, q.payload⟩ with
        requesters := ((merged requests).getD ⟨∅, q.payload⟩).requesters.insert q.requester } := by
  cases requests with
  | nil => rfl
  | cons first rest => simp [merged, List.foldl_append]

private theorem mem_add_iff {requester : String} {payload : α} {id' : String} :
    id' ∈ r.add id version requester payload ↔ id' ∈ r ∨ id = id' := by
  rw [ExtTreeMap.mem_iff_isSome_getElem?, ExtTreeMap.mem_iff_isSome_getElem?, add,
    Table.getElem?_alter]
  by_cases same : id = id' <;> simp [same]

private theorem versionsOf_add {requester : String} {payload : α} {id' version' : String} :
    (versionsOf (r.add id version requester payload) id')[version']? =
      if id = id' ∧ version = version' then
        some { (versionsOf r id)[version]?.getD ⟨∅, payload⟩ with
          requesters :=
            ((versionsOf r id)[version]?.getD ⟨∅, payload⟩).requesters.insert requester }
      else (versionsOf r id')[version']? := by
  unfold versionsOf add
  rw [Table.getElem?_alter]
  by_cases same : id = id'
  · subst same
    simp only [if_true, Option.getD_some, true_and, Table.getElem?_alter]
  · simp only [same, if_false, false_and]

/-- What is known after a list of requests. -/
theorem addAll_spec (requests : List (Request α)) :
    (∀ id, id ∈ addAll ∅ requests ↔ ∃ q ∈ requests, q.logicalId = id) ∧
      ∀ id version, (versionsOf (addAll ∅ requests) id)[version]? = merged (about requests id version) := by
  induction requests using List.reverseRecOn with
  | nil => simp [addAll, versionsOf, about, merged]
  | append_singleton requests q ih =>
    obtain ⟨known, summed⟩ := ih
    have last : addAll ∅ (requests ++ [q]) =
        (addAll ∅ requests).add q.logicalId q.version q.requester q.payload := by
      simp [addAll, List.foldl_append]
    rw [last]
    refine ⟨fun id => ?_, fun id version => ?_⟩
    · rw [mem_add_iff, known]
      simp [or_and_right, exists_or]
    · rw [versionsOf_add, about, List.filter_append]
      by_cases here : q.logicalId = id ∧ q.version = version
      · obtain ⟨rfl, rfl⟩ := here
        simp only [and_self, if_true, List.filter_cons, decide_true, List.filter_nil, summed]
        rw [merged_snoc]
        rfl
      · simp [here, summed, about]

theorem versionsOf_eq {versions : Table String (Requested α)} (held : r[id]? = some versions) :
    versionsOf r id = versions := by
  simp [versionsOf, held]

theorem known_of_version {requested : Requested α}
    (held : (versionsOf r id)[version]? = some requested) :
    ∃ versions : Table String (Requested α),
      r[id]? = some versions ∧ versions[version]? = some requested := by
  cases known : r[id]? with
  | none => simp [versionsOf, known] at held
  | some versions => exact ⟨versions, rfl, versionsOf_eq known ▸ held⟩

/-- Everyone who asked is named, and nobody else. -/
theorem mem_requesters_iff {requested : Requested α} (held : merged requests = some requested)
    (who : String) : who ∈ requested.requesters ↔ ∃ q ∈ requests, q.requester = who := by
  cases requests with
  | nil => cases held
  | cons first rest =>
    cases held
    simp [Roster.mem_foldl_insert]

private theorem requesters_merged (same : ∀ q, q ∈ requests ↔ q ∈ requests') :
    (merged requests).map Requested.requesters = (merged requests').map Requested.requesters := by
  cases requests with
  | nil =>
    cases requests' with
    | nil => rfl
    | cons q rest => simpa using (same q).mpr List.mem_cons_self
  | cons q rest =>
    cases requests' with
    | nil => simpa using (same q).mp List.mem_cons_self
    | cons q' rest' =>
      simp only [merged, Option.map_some, Option.some.injEq]
      apply ExtTreeSet.ext_mem
      intro who
      simp only [Roster.mem_foldl_insert, same]

/-- Two ledgers know the same versions and have the same requesters for each. -/
def Alike (r r' : Requirements α) : Prop :=
  ∀ id : String, r[id]?.map versionRequests = r'[id]?.map versionRequests

theorem getElem?_versionRequests (versions : Table String (Requested α)) (version : String) :
    (versionRequests versions)[version]? = versions[version]?.map Requested.requesters := by
  rw [versionRequests, ExtTreeMap.getElem?_map]

theorem mem_versionRequests {versions : Table String (Requested α)} :
    version ∈ versionRequests versions ↔ version ∈ versions := by
  rw [versionRequests, ExtTreeMap.mem_map]

/-- Lists with the same requests fill a ledger alike. -/
theorem alike_addAll (same : ∀ q, q ∈ requests ↔ q ∈ requests') :
    Alike (addAll ∅ requests) (addAll ∅ requests') := by
  obtain ⟨known, summed⟩ := addAll_spec requests
  obtain ⟨known', summed'⟩ := addAll_spec requests'
  intro id
  have present : id ∈ addAll ∅ requests ↔ id ∈ addAll ∅ requests' := by
    simp only [known, known', same]
  rw [ExtTreeMap.mem_iff_isSome_getElem?, ExtTreeMap.mem_iff_isSome_getElem?] at present
  cases held : (addAll ∅ requests)[id]? with
  | none =>
    cases held' : (addAll ∅ requests')[id]? with
    | none => rfl
    | some versions => simp [held, held'] at present
  | some versions =>
    obtain ⟨versions', held'⟩ := Option.isSome_iff_exists.mp (present.mp (by simp [held]))
    simp only [held', Option.map_some, Option.some.injEq]
    apply ExtTreeMap.ext_getElem?
    intro version
    rw [getElem?_versionRequests, getElem?_versionRequests, ← versionsOf_eq held,
      ← versionsOf_eq held', summed, summed']
    refine requesters_merged fun q => ?_
    simp only [about, List.mem_filter, same]

/-- The payload of a version in a list of requests is that of the first one for it. -/
theorem payload_merged (requests : List (Request α)) (id version : String) :
    (merged (about requests id version)).map Requested.payload =
      (requests.find? fun q => q.logicalId = id ∧ q.version = version).map Request.payload := by
  rw [about, ← List.head?_filter]
  cases requests.filter fun q => decide (q.logicalId = id ∧ q.version = version) <;> rfl

namespace Alike

private theorem exists_versions (alike : Alike r r') {versions : Table String (Requested α)}
    (held : r[id]? = some versions) :
    ∃ versions', r'[id]? = some versions' ∧ versionRequests versions' = versionRequests versions := by
  have same := alike id
  rw [held, Option.map_some, eq_comm, Option.map_eq_some_iff] at same
  exact same

private theorem absent (alike : Alike r r') (held : r[id]? = none) : r'[id]? = none := by
  have same := alike id
  cases held' : r'[id]? with
  | none => rfl
  | some versions => simp [held, held'] at same

private theorem eq (alike : Alike r r')
    (payloads : ∀ id version : String, (versionsOf r id)[version]?.map Requested.payload =
      (versionsOf r' id)[version]?.map Requested.payload) : r = r' := by
  apply ExtTreeMap.ext_getElem?
  intro id
  cases held : r[id]? with
  | none => rw [alike.absent held]
  | some versions =>
    obtain ⟨versions', held', requests⟩ := alike.exists_versions held
    rw [held', Option.some.injEq]
    apply ExtTreeMap.ext_getElem?
    intro version
    have payload := payloads id version
    have requesters := congrArg (fun requests : VersionRequests => requests[version]?) requests
    simp only [getElem?_versionRequests] at requesters
    rw [versionsOf_eq held, versionsOf_eq held'] at payload
    cases former : versions[version]? with
    | none =>
      cases later : versions'[version]? with
      | none => rfl
      | some requested => simp [former, later] at payload
    | some requested =>
      cases later : versions'[version]? with
      | none => simp [former, later] at payload
      | some requested' =>
        simp only [former, later, Option.map_some, Option.some.injEq] at payload requesters
        cases requested
        cases requested'
        simp_all

end Alike

/-- The order of requests is immaterial if those for one version have one payload. -/
theorem addAll_congr (same : ∀ q, q ∈ requests ↔ q ∈ requests')
    (functional : ∀ q ∈ requests, ∀ q' ∈ requests, q.logicalId = q'.logicalId →
      q.version = q'.version → q.payload = q'.payload) :
    addAll ∅ requests = addAll ∅ requests' := by
  refine (alike_addAll same).eq fun id version => ?_
  rw [(addAll_spec requests).2, (addAll_spec requests').2, payload_merged, payload_merged]
  cases found : requests.find? fun q => decide (q.logicalId = id ∧ q.version = version) with
  | none =>
    have absent : requests'.find? (fun q => decide (q.logicalId = id ∧ q.version = version)) = none := by
      rw [List.find?_eq_none] at found ⊢
      exact fun q member => found q ((same q).mpr member)
    rw [absent]
  | some q =>
    have about : q.logicalId = id ∧ q.version = version := by simpa using List.find?_some found
    have member := List.mem_of_find?_eq_some found
    cases found' : requests'.find? fun q => decide (q.logicalId = id ∧ q.version = version) with
    | none =>
      have outside := List.find?_eq_none.mp found' q ((same q).mp member)
      simp [about] at outside
    | some q' =>
      have about' : q'.logicalId = id ∧ q'.version = version := by simpa using List.find?_some found'
      have member' := (same q').mpr (List.mem_of_find?_eq_some found')
      rw [Option.map_some, Option.map_some, functional q member q' member'
        (about.1.trans about'.1.symm) (about.2.trans about'.2.symm)]

/-- Everyone who asked can be told from the requesters of each version. -/
theorem everyone_congr {versions versions' : Table String (Requested α)}
    (same : versionRequests versions = versionRequests versions') :
    everyone versions = everyone versions' := by
  have folded (versions : Table String (Requested α)) : everyone versions =
      (versionRequests versions).toList.foldl
        (fun names entry => entry.2.foldl (·.insert ·) names) ∅ := by
    rw [everyone, ExtTreeMap.foldl_eq_foldl_toList, versionRequests, ExtTreeMap.toList_map,
      List.foldl_map]
  rw [folded, folded, same]

/-- What is selected for a dependency at the version that was chosen for it. -/
theorem selectOne_of_select {policy : ConflictPolicy} {versions : Table String (Requested α)}
    {selection : Selection} (chosen : (versionRequests versions).select id policy = .ok selection) :
    selectOne policy id versions = .ok
      ((versions[selection.version]?.map fun winner =>
          ⟨id, selection.version, everyone versions, winner.payload⟩).toList,
        if selection.overridden.isEmpty then []
        else [⟨.versionConflict, some id, overrideReason selection policy⟩]) := by
  rw [selectOne, chosen]
  cases held : versions[selection.version]? <;> simp [held, bind, Except.bind, pure, Except.pure]

theorem selectOne_error_iff {policy : ConflictPolicy} {versions : Table String (Requested α)}
    {e : BuildError} : selectOne policy id versions = .error e ↔
      (versionRequests versions).select id policy = .error e := by
  cases chosen : (versionRequests versions).select id policy with
  | error e' => simp [selectOne, chosen, bind, Except.bind]
  | ok selection => simp [selectOne_of_select chosen]

/-- What is selected for a dependency depends on no payload but that of the selected version. -/
theorem selectOne_congr {policy : ConflictPolicy} {versions versions' : Table String (Requested α)}
    (same : versionRequests versions = versionRequests versions')
    (payloads : ∀ selection, (versionRequests versions).select id policy = .ok selection →
      versions[selection.version]?.map Requested.payload =
        versions'[selection.version]?.map Requested.payload) :
    selectOne policy id versions = selectOne policy id versions' := by
  cases chosen : (versionRequests versions).select id policy with
  | error e =>
    have failed' : selectOne policy id versions' = .error e :=
      selectOne_error_iff.mpr (same ▸ chosen)
    rw [selectOne_error_iff.mpr chosen, failed']
  | ok selection =>
    have payload := congrArg (Option.map fun payload : α =>
      (⟨id, selection.version, everyone versions', payload⟩ : Selected α)) (payloads selection chosen)
    rw [Option.map_map, Option.map_map] at payload
    rw [selectOne_of_select chosen, selectOne_of_select (same ▸ chosen), everyone_congr same]
    exact congrArg (fun won => Except.ok (Option.toList won, _)) payload

private theorem mapM_congr_of_map {β γ δ ε : Type} {f : β → Except ε γ} {key : β → δ}
    {l l' : List β} (same : l.map key = l'.map key)
    (agree : ∀ x ∈ l, ∀ y ∈ l', key x = key y → f x = f y) : l.mapM f = l'.mapM f := by
  induction l generalizing l' with
  | nil =>
    cases l' with
    | nil => rfl
    | cons y rest => cases same
  | cons x rest ih =>
    cases l' with
    | nil => cases same
    | cons y rest' =>
      rw [List.map_cons, List.map_cons, List.cons.injEq] at same
      have later := ih same.2 fun x member y member' =>
        agree x (List.mem_cons_of_mem _ member) y (List.mem_cons_of_mem _ member')
      rw [List.mapM_cons, List.mapM_cons, later,
        agree x List.mem_cons_self y List.mem_cons_self same.1]

private theorem mapM_error_of_map {β γ δ ε : Type} {f : β → Except ε γ} {key : β → δ}
    {l l' : List β} {e : ε} (same : l.map key = l'.map key)
    (fail : ∀ x y, key x = key y → ∀ e, f x = .error e ↔ f y = .error e)
    (ran : l.mapM f = .error e) : l'.mapM f = .error e := by
  induction l generalizing l' with
  | nil => cases ran
  | cons x rest ih =>
    cases l' with
    | nil => cases same
    | cons y rest' =>
      rw [List.map_cons, List.map_cons, List.cons.injEq] at same
      rw [List.mapM_cons] at ran ⊢
      cases first : f x with
      | error e' =>
        rw [first] at ran
        rw [(fail x y same.1 e').mp first]
        exact ran
      | ok z =>
        cases first' : f y with
        | error e' => simp [(fail x y same.1 e').mpr first'] at first
        | ok z' =>
          rw [first] at ran
          cases later : rest.mapM f with
          | error e' =>
            rw [later] at ran
            cases ran
            rw [ih same.2 later]
            rfl
          | ok zs =>
            rw [later] at ran
            cases ran

namespace Alike

private theorem toList_map (alike : Alike r r') :
    r.toList.map (fun entry => (entry.1, versionRequests entry.2)) =
      r'.toList.map fun entry => (entry.1, versionRequests entry.2) := by
  have tables : r.map (fun _ => versionRequests) = r'.map fun _ => versionRequests := by
    apply ExtTreeMap.ext_getElem?
    intro id
    rw [ExtTreeMap.getElem?_map, ExtTreeMap.getElem?_map]
    exact alike id
  have listed := congrArg (fun t : Table String VersionRequests => t.toList) tables
  simpa only [ExtTreeMap.toList_map] using listed

private theorem select_congr {policy : ConflictPolicy} (alike : Alike r r')
    (payloads : ∀ id selection,
      (versionRequests (versionsOf r id)).select id policy = .ok selection →
        (versionsOf r id)[selection.version]?.map Requested.payload =
          (versionsOf r' id)[selection.version]?.map Requested.payload) :
    r.select policy = r'.select policy := by
  unfold select
  rw [mapM_congr_of_map alike.toList_map]
  rintro ⟨id, versions⟩ member ⟨id', versions'⟩ member' same
  obtain ⟨rfl, requests⟩ := Prod.mk.inj same
  have held := ExtTreeMap.mem_toList_iff_getElem?_eq_some.mp member
  have held' := ExtTreeMap.mem_toList_iff_getElem?_eq_some.mp member'
  refine selectOne_congr requests fun selection chosen => ?_
  have payload := payloads id selection
  rw [versionsOf_eq held, versionsOf_eq held'] at payload
  exact payload chosen

end Alike

/-- A merge that succeeds chooses a version that was asked for, and reports what that overrides. -/
theorem selectOne_ok {policy : ConflictPolicy} {versions : Table String (Requested α)}
    {chosen : List (Selected α) × List Diagnostic}
    (ran : selectOne policy id versions = .ok chosen) : ∃ selection winner,
      (versionRequests versions).select id policy = .ok selection ∧
      versions[selection.version]? = some winner ∧
      chosen = ([⟨id, selection.version, everyone versions, winner.payload⟩],
        if selection.overridden.isEmpty then []
        else [⟨.versionConflict, some id, overrideReason selection policy⟩]) := by
  cases picked : (versionRequests versions).select id policy with
  | error e =>
    rw [selectOne_error_iff.mpr picked] at ran
    cases ran
  | ok selection =>
    have asked := mem_versionRequests.mp (VersionRequests.mem_of_select picked)
    rw [ExtTreeMap.mem_iff_isSome_getElem?] at asked
    obtain ⟨winner, won⟩ := Option.isSome_iff_exists.mp asked
    rw [selectOne_of_select picked, won] at ran
    cases ran
    exact ⟨selection, winner, rfl, won, rfl⟩

private theorem mem_selectOne_iff {policy : ConflictPolicy}
    {versions : Table String (Requested α)} {chosen : List (Selected α) × List Diagnostic}
    (ran : selectOne policy id versions = .ok chosen) {s : Selected α} :
    s ∈ chosen.1 ↔ ∃ selection winner,
      (versionRequests versions).select id policy = .ok selection ∧
      versions[selection.version]? = some winner ∧
      s = ⟨id, selection.version, everyone versions, winner.payload⟩ := by
  obtain ⟨selection, winner, picked, won, rfl⟩ := selectOne_ok ran
  simp [picked, won]

private theorem mem_reported_iff {policy : ConflictPolicy}
    {versions : Table String (Requested α)} {chosen : List (Selected α) × List Diagnostic}
    (ran : selectOne policy id versions = .ok chosen) {d : Diagnostic} :
    d ∈ chosen.2 ↔ ∃ selection, (versionRequests versions).select id policy = .ok selection ∧
      selection.overridden ≠ [] ∧
      d = ⟨.versionConflict, some id, overrideReason selection policy⟩ := by
  obtain ⟨selection, winner, picked, -, rfl⟩ := selectOne_ok ran
  cases lost : selection.overridden <;> simp [picked, lost]

/-- What is selected is one version of each dependency with its payload. -/
theorem mem_select_iff {policy : ConflictPolicy} {selected : List (Selected α)}
    {diagnostics : List Diagnostic} (ran : r.select policy = .ok (selected, diagnostics))
    {s : Selected α} :
    s ∈ selected ↔ ∃ id versions selection winner, r[id]? = some versions ∧
      (versionRequests versions).select id policy = .ok selection ∧
      versions[selection.version]? = some winner ∧
      s = ⟨id, selection.version, everyone versions, winner.payload⟩ := by
  obtain ⟨chosen, each, done⟩ := Running.ok_of_bind ran
  cases done
  obtain ⟨all, members⟩ := Running.of_mapM_eq_ok each
  simp only [List.mem_flatMap, members]
  constructor
  · rintro ⟨one, ⟨⟨id, versions⟩, member, picked⟩, inside⟩
    obtain ⟨selection, winner, found⟩ := (mem_selectOne_iff picked).mp inside
    exact ⟨id, versions, selection, winner, ExtTreeMap.mem_toList_iff_getElem?_eq_some.mp member,
      found⟩
  · rintro ⟨id, versions, selection, winner, held, found⟩
    have member := ExtTreeMap.mem_toList_iff_getElem?_eq_some.mpr held
    obtain ⟨one, picked⟩ := all _ member
    exact ⟨one, ⟨_, member, picked⟩, (mem_selectOne_iff picked).mpr ⟨selection, winner, found⟩⟩

/-- What is reported is one diagnostic for each dependency of which other versions are overridden. -/
theorem mem_diagnostics_iff {policy : ConflictPolicy} {selected : List (Selected α)}
    {diagnostics : List Diagnostic} (ran : r.select policy = .ok (selected, diagnostics))
    {d : Diagnostic} :
    d ∈ diagnostics ↔ ∃ (id : String) (versions : Table String (Requested α)) (selection : Selection),
      r[id]? = some versions ∧
      (versionRequests versions).select id policy = .ok selection ∧ selection.overridden ≠ [] ∧
      d = ⟨.versionConflict, some id, overrideReason selection policy⟩ := by
  obtain ⟨chosen, each, done⟩ := Running.ok_of_bind ran
  cases done
  obtain ⟨all, members⟩ := Running.of_mapM_eq_ok each
  simp only [List.mem_flatMap, members]
  constructor
  · rintro ⟨one, ⟨⟨id, versions⟩, listed, picked⟩, inside⟩
    have held := ExtTreeMap.mem_toList_iff_getElem?_eq_some.mp listed
    obtain ⟨selection, chosen, overridden, told⟩ := (mem_reported_iff picked).mp inside
    exact ⟨id, versions, selection, held, chosen, overridden, told⟩
  · rintro ⟨id, versions, selection, held, chosen, overridden, told⟩
    have listed := ExtTreeMap.mem_toList_iff_getElem?_eq_some.mpr held
    obtain ⟨one, picked⟩ := all _ listed
    exact ⟨one, ⟨_, listed, picked⟩,
      (mem_reported_iff picked).mpr ⟨selection, chosen, overridden, told⟩⟩

/-- If all merges succeed, one version of each dependency is selected. -/
theorem exists_selected {policy : ConflictPolicy} {selected : List (Selected α)}
    {diagnostics : List Diagnostic} (ran : r.select policy = .ok (selected, diagnostics))
    {versions : Table String (Requested α)} (known : r[id]? = some versions) :
    ∃ selection winner, (versionRequests versions).select id policy = .ok selection ∧
      versions[selection.version]? = some winner ∧
      (⟨id, selection.version, everyone versions, winner.payload⟩ : Selected α) ∈ selected := by
  obtain ⟨results, chosen, -⟩ := Running.ok_of_bind ran
  have listed := ExtTreeMap.mem_toList_iff_getElem?_eq_some.mpr known
  obtain ⟨one, picked⟩ := (Running.of_mapM_eq_ok chosen).1 _ listed
  obtain ⟨selection, winner, picks, won, -⟩ := selectOne_ok picked
  exact ⟨selection, winner, picks, won, (mem_select_iff ran).mpr
    ⟨id, versions, selection, winner, known, picks, won, rfl⟩⟩

/-- One version of each dependency is selected, in their order. -/
theorem selected_keys {policy : ConflictPolicy} {selected : List (Selected α)}
    {diagnostics : List Diagnostic} (ran : r.select policy = .ok (selected, diagnostics)) :
    selected.map Selected.logicalId = r.keys := by
  obtain ⟨results, chosen, done⟩ := Running.ok_of_bind ran
  cases done
  have each (entry : String × Table String (Requested α)) (one : List (Selected α) × List Diagnostic)
      (picked : selectOne policy entry.1 entry.2 = .ok one) :
      one.1.map Selected.logicalId = [entry.1] := by
    obtain ⟨_, _, -, -, rfl⟩ := selectOne_ok picked
    rfl
  rw [List.map_flatMap, Running.flatMap_of_mapM chosen each, ← List.map_eq_flatMap,
    ExtTreeMap.map_fst_toList_eq_keys]

theorem payload_of_mem_select {policy : ConflictPolicy} {selected : List (Selected α)}
    {diagnostics : List Diagnostic} (ran : r.select policy = .ok (selected, diagnostics))
    {s : Selected α} (member : s ∈ selected) :
    (versionsOf r s.logicalId)[s.version]?.map Requested.payload = some s.payload := by
  obtain ⟨id, versions, selection, winner, held, -, won, rfl⟩ := (mem_select_iff ran).mp member
  rw [versionsOf_eq held, won]
  rfl

/-- One version of a dependency is selected. -/
theorem eq_of_mem_select {policy : ConflictPolicy} {selected : List (Selected α)}
    {diagnostics : List Diagnostic} (ran : r.select policy = .ok (selected, diagnostics))
    {s s' : Selected α} (member : s ∈ selected) (member' : s' ∈ selected)
    (same : s.logicalId = s'.logicalId) : s = s' := by
  obtain ⟨id, versions, selection, winner, held, chosen, won, rfl⟩ := (mem_select_iff ran).mp member
  obtain ⟨id', versions', selection', winner', held', chosen', won', rfl⟩ :=
    (mem_select_iff ran).mp member'
  obtain rfl : id = id' := same
  obtain rfl : versions = versions' := Option.some.inj (held.symm.trans held')
  obtain rfl : selection = selection' := Except.ok.inj (chosen.symm.trans chosen')
  obtain rfl : winner = winner' := Option.some.inj (won.symm.trans won')
  rfl

/-- Ledgers that are alike select the same versions, each with its own payload. -/
theorem Alike.mem_select {policy : ConflictPolicy} (alike : Alike r r')
    {selected selected' : List (Selected α)} {diagnostics diagnostics' : List Diagnostic}
    (ran : r.select policy = .ok (selected, diagnostics))
    (ran' : r'.select policy = .ok (selected', diagnostics')) {s : Selected α} {payload : α}
    (member : s ∈ selected)
    (held : (versionsOf r' s.logicalId)[s.version]?.map Requested.payload = some payload) :
    { s with payload } ∈ selected' := by
  obtain ⟨id, versions, selection, winner, inside, chosen, -, rfl⟩ := (mem_select_iff ran).mp member
  obtain ⟨versions', inside', requests⟩ := alike.exists_versions inside
  rw [versionsOf_eq inside', Option.map_eq_some_iff] at held
  obtain ⟨winner', won, rfl⟩ := held
  rw [mem_select_iff ran']
  refine ⟨id, versions', selection, winner', inside', requests ▸ chosen, won, ?_⟩
  rw [everyone_congr requests]

/-- Ledgers that are alike give one selection, if they agree in the payloads of what the first
selects. -/
theorem Alike.select_eq {policy : ConflictPolicy} (alike : Alike r r')
    (payloads : ∀ selected diagnostics, r.select policy = .ok (selected, diagnostics) →
      ∀ s ∈ selected, (versionsOf r' s.logicalId)[s.version]?.map Requested.payload = some s.payload) :
    r.select policy = r'.select policy := by
  cases ran : r.select policy with
  | error e =>
    have parts (r : Requirements α) : r.select policy =
        (r.toList.mapM fun entry => selectOne policy entry.1 entry.2) >>= fun chosen =>
          pure (chosen.flatMap (·.1), chosen.flatMap (·.2)) := rfl
    rw [parts] at ran ⊢
    cases each : r.toList.mapM fun entry => selectOne policy entry.1 entry.2 with
    | ok chosen =>
      rw [each] at ran
      cases ran
    | error e' =>
      rw [each] at ran
      cases ran
      rw [mapM_error_of_map alike.toList_map ?_ each]
      · rfl
      · rintro ⟨id, versions⟩ ⟨id', versions'⟩ same e
        obtain ⟨rfl, requests⟩ := Prod.mk.inj same
        rw [selectOne_error_iff, selectOne_error_iff, requests]
  | ok result =>
    obtain ⟨selected, diagnostics⟩ := result
    rw [← ran]
    refine alike.select_congr fun id selection chosen => ?_
    cases held : r[id]? with
    | none => simp only [versionsOf, held, alike.absent held]
    | some versions =>
      obtain ⟨versions', held', requests⟩ := alike.exists_versions held
      rw [versionsOf_eq held] at chosen ⊢
      cases won : versions[selection.version]? with
      | none =>
        have requesters := getElem?_versionRequests versions' selection.version
        rw [requests, getElem?_versionRequests, won] at requesters
        cases lost : versions'[selection.version]? with
        | none => rw [versionsOf_eq held', lost]
        | some winner => simp [lost] at requesters
      | some winner =>
        have member := (mem_select_iff ran).mpr ⟨id, versions, selection, winner, held, chosen, won, rfl⟩
        exact (payloads selected diagnostics ran _ member).symm

end Requirements

end RuleDepot
