import RuleDepot.Proofs.Generation.FailedVisits
import RuleDepot.Proofs.Tables
/-!
What a memo does over time.  Calls come one after another, for any scopes and over files that may
have changed in any way in between.  The memo holds exactly what its calls gave: a scope that was
given once is given for good, a call that fails leaves nothing behind but its being counted, and only
calls for scopes that were never given look at the files.
-/

namespace RuleDepot

/-- A call for a scope, and the files as they are at that time. -/
structure ScopeCall where
  files : Tree
  id : ScopeId

private theorem Scope.id_of_resolve {p : Project} {r : Resolver} {t : Tree} {id : ScopeId} {scope : Scope}
    (resolved : resolve p r t id = .ok scope) : scope.id = id := by
  unfold resolve at resolved
  split at resolved
  · cases resolved
  · rename_i snapshot _
    split at resolved
    · cases resolved
      rfl
    · rename_i set _
      cases found : p.unknown? set.references with
      | some other =>
        rw [ofSourceSet_of_unknown r t id snapshot.path found] at resolved
        cases resolved
      | none =>
        obtain ⟨made, own, -, outcome⟩ := ofSourceSet_of_known r t id snapshot.path found
        rw [outcome] at resolved
        split at resolved
        · cases resolved
          exact own
        · cases resolved

namespace ScopeMemo

variable {m : ScopeMemo} {t : Tree} {calls : List ScopeCall} {call : ScopeCall} {id : ScopeId}
  {scope : Scope} {e : BuildError}

/-- The memo after a series of calls. -/
def after (m : ScopeMemo) (calls : List ScopeCall) : ScopeMemo :=
  calls.foldl (fun m call => (m.scope call.files call.id).2) m

/-- Some call of a series gave a scope. -/
def Gave (m : ScopeMemo) (calls : List ScopeCall) (id : ScopeId) (scope : Scope) : Prop :=
  ∃ before files later, calls = before ++ ⟨files, id⟩ :: later ∧
    ((m.after before).scope files id).1 = .ok scope

private theorem after_concat (m : ScopeMemo) (calls : List ScopeCall) (call : ScopeCall) :
    m.after (calls ++ [call]) = ((m.after calls).scope call.files call.id).2 := by
  simp only [after, List.foldl_append, List.foldl_cons, List.foldl_nil]

private theorem after_append (m : ScopeMemo) (calls calls' : List ScopeCall) :
    m.after (calls ++ calls') = (m.after calls).after calls' :=
  List.foldl_append

/-- One more call gives what it gives, and the others gave what they did. -/
theorem gave_concat_iff : m.Gave (calls ++ [call]) id scope ↔ m.Gave calls id scope ∨
    call.id = id ∧ ((m.after calls).scope call.files call.id).1 = .ok scope := by
  constructor
  · rintro ⟨before, files, later, split, given⟩
    rcases List.eq_nil_or_concat later with rfl | ⟨front, last, rfl⟩
    · obtain ⟨rfl, same⟩ := List.append_inj' split rfl
      cases same
      exact Or.inr ⟨rfl, given⟩
    · rw [List.concat_eq_append, ← List.cons_append, ← List.append_assoc] at split
      obtain ⟨same, -⟩ := List.append_inj' split rfl
      exact Or.inl ⟨before, files, front, same, given⟩
  · rintro (⟨before, files, later, rfl, given⟩ | ⟨rfl, given⟩)
    · exact ⟨before, files, later ++ [call], by simp, given⟩
    · exact ⟨calls, call.files, [], rfl, given⟩

/-- A scope that is kept is given without another attempt. -/
theorem scope_of_kept (kept : m.scopes[id]? = some scope) (t : Tree) : m.scope t id = (.ok scope, m) := by
  simp only [ScopeMemo.scope, kept]

/-- A scope that is not kept is resolved, and what comes of it is kept unless it failed. -/
theorem scope_of_missing (missing : m.scopes[id]? = none) (t : Tree) :
    (m.scope t id).1 = Scope.resolve m.project m.resolver t id ∧
      (m.scope t id).2.attempts = m.attempts + 1 ∧
      (m.scope t id).2.scopes = match Scope.resolve m.project m.resolver t id with
        | .ok scope => m.scopes.insert id scope
        | .error _ => m.scopes := by
  unfold ScopeMemo.scope
  rw [missing]
  cases resolved : Scope.resolve m.project m.resolver t id with
  | ok scope => simp only [and_self]
  | error e => simp only [and_self]

/-- What one call leaves in the memo: what was there, and the scope that it gave. -/
theorem kept_scope_iff (m : ScopeMemo) (t : Tree) (id id' : ScopeId) :
    (m.scope t id).2.scopes[id']? = some scope ↔
      m.scopes[id']? = some scope ∨ id = id' ∧ (m.scope t id).1 = .ok scope := by
  cases kept : m.scopes[id]? with
  | some found =>
    rw [scope_of_kept kept]
    constructor
    · exact Or.inl
    · rintro (held | ⟨rfl, same⟩)
      · exact held
      · rw [kept, Except.ok.inj same]
  | none =>
    obtain ⟨answer, -, left⟩ := scope_of_missing kept t
    rw [answer, left]
    cases Scope.resolve m.project m.resolver t id with
    | error e => simp
    | ok found =>
      simp only [Table.getElem?_insert, Except.ok.injEq]
      by_cases own : id = id'
      · subst own
        simp [kept]
      · simp [own]

private theorem scopes_of_failed (failed : (m.scope t id).1 = .error e) :
    m.scopes[id]? = none ∧ (m.scope t id).2.scopes = m.scopes := by
  cases kept : m.scopes[id]? with
  | some scope =>
    rw [scope_of_kept kept] at failed
    cases failed
  | none =>
    obtain ⟨answer, -, left⟩ := scope_of_missing kept t
    rw [left, ← answer, failed]
    exact ⟨rfl, rfl⟩

section Series

variable (p : Project) (r : Resolver) (calls : List ScopeCall)

private theorem project_after :
    ((new p r).after calls).project = p ∧ ((new p r).after calls).resolver = r := by
  induction calls using List.reverseRecOn with
  | nil => exact ⟨rfl, rfl⟩
  | append_singleton calls call ih =>
    rw [after_concat]
    obtain ⟨-, agrees⟩ := ((new p r).after calls).scope_foreseen call.files call.id
    exact ⟨agrees.project.trans ih.1, agrees.resolver.trans ih.2⟩

/-- The memo holds exactly what its calls gave. -/
theorem kept_after_iff (id : ScopeId) :
    ((new p r).after calls).scopes[id]? = some scope ↔ (new p r).Gave calls id scope := by
  induction calls using List.reverseRecOn with
  | nil =>
    constructor
    · intro held
      simp [after, new] at held
    · rintro ⟨before, files, later, split, -⟩
      simp at split
  | append_singleton calls call ih => rw [after_concat, gave_concat_iff, kept_scope_iff, ih]

variable {p r calls}

/-- A scope that was given is the one that was asked for. -/
theorem id_of_gave (gave : (new p r).Gave calls id scope) : scope.id = id := by
  induction calls using List.reverseRecOn with
  | nil =>
    obtain ⟨before, files, later, split, -⟩ := gave
    simp at split
  | append_singleton calls call ih =>
    rcases gave_concat_iff.mp gave with former | ⟨rfl, given⟩
    · exact ih former
    · cases kept : ((new p r).after calls).scopes[call.id]? with
      | some found =>
        rw [scope_of_kept kept] at given
        cases given
        exact ih ((kept_after_iff p r calls call.id).mp kept)
      | none =>
        rw [(scope_of_missing kept call.files).1] at given
        exact Scope.id_of_resolve given

private theorem mem_resolved_iff : scope ∈ ((new p r).after calls).resolved ↔
    (new p r).Gave calls scope.id scope := by
  rw [resolved, Table.mem_values_iff]
  simp only [kept_after_iff]
  constructor
  · rintro ⟨id, gave⟩
    rwa [id_of_gave gave]
  · intro gave
    exact ⟨scope.id, gave⟩

/-- Scopes are listed by what they are the scopes of, at most one for each module and purpose. -/
theorem resolved_pairwise : ((new p r).after calls).resolved.Pairwise
    fun scope scope' => compare scope.id scope'.id = .lt := by
  have own (entry : ScopeId × Scope) (member : entry ∈ ((new p r).after calls).scopes.toList) :
      entry.2.id = entry.1 :=
    id_of_gave <| (kept_after_iff p r calls entry.1).mp <|
      Std.ExtTreeMap.mem_toList_iff_getElem?_eq_some.mp member
  rw [resolved, Table.values_eq, List.pairwise_map]
  refine Std.ExtTreeMap.ordered_keys_toList.imp_of_mem fun {a b} first second before => ?_
  rwa [own a first, own b second]

/-- A call for a scope that was never given looks at the files as they are, and is counted. -/
theorem scope_of_not_gave (never : ∀ scope, ¬ (new p r).Gave calls id scope) (t : Tree) :
    (((new p r).after calls).scope t id).1 = Scope.resolve p r t id ∧
      (((new p r).after calls).scope t id).2.attempts = ((new p r).after calls).attempts + 1 := by
  have missing : ((new p r).after calls).scopes[id]? = none := by
    apply Option.eq_none_iff_forall_ne_some.mpr
    intro scope held
    exact never scope ((kept_after_iff p r calls id).mp held)
  obtain ⟨project, resolver⟩ := project_after p r calls
  obtain ⟨answer, attempts, -⟩ := scope_of_missing missing t
  rw [answer, project, resolver]
  exact ⟨rfl, attempts⟩

private theorem not_gave_of_others {between : List ScopeCall}
    (never : ∀ scope, ¬ (new p r).Gave calls id scope) (others : ∀ call ∈ between, call.id ≠ id) :
    ∀ scope, ¬ (new p r).Gave (calls ++ between) id scope := by
  induction between using List.reverseRecOn with
  | nil => simpa using never
  | append_singleton between last ih =>
    intro scope gave
    rw [← List.append_assoc, gave_concat_iff] at gave
    rcases gave with former | ⟨own, -⟩
    · exact ih (fun call member => others call (List.mem_append_left _ member)) scope former
    · exact others last (List.mem_append_right _ List.mem_cons_self) own

end Series

/-- **A scope that was given is given for good.**  Take any calls on a fresh memo, over files that
change in any way in between, and one more call.  If its scope was given before, it is given again as
it was and no attempt is counted; otherwise one is.  A call that fails leaves all scopes of the memo as
they were, and the next call for that scope, whatever was called for in between, looks at the files
anew and is counted.  The memo lists the scopes that were given and no others, in the order of their
modules and purposes, so each once. -/
theorem given_scopes_are_kept (p : Project) (r : Resolver) (calls : List ScopeCall)
    (call : ScopeCall) :
    let m := (new p r).after calls
    let answer := (m.scope call.files call.id).1
    let m' := (m.scope call.files call.id).2
    let Given := (new p r).Gave calls
    (∀ scope, Given call.id scope → answer = .ok scope ∧ m'.attempts = m.attempts) ∧
    ((∀ scope, ¬ Given call.id scope) → m'.attempts = m.attempts + 1) ∧
    (∀ e, answer = .error e → m'.scopes = m.scopes ∧
      ∀ (between : List ScopeCall) (files : Tree), (∀ other ∈ between, other.id ≠ call.id) →
        ((m'.after between).scope files call.id).1 = Scope.resolve p r files call.id ∧
        ((m'.after between).scope files call.id).2.attempts = (m'.after between).attempts + 1) ∧
    m.resolved.Pairwise (fun scope scope' => compare scope.id scope'.id = .lt) ∧
    (∀ scope, scope ∈ m.resolved ↔ Given scope.id scope) ∧
    (∀ id scope, Given id scope → scope.id = id) := by
  intro m answer m' Given
  refine ⟨fun scope given => ?_, fun never => ?_, fun e failed => ?_, resolved_pairwise,
    fun scope => mem_resolved_iff, fun id scope => id_of_gave⟩
  · have kept := (kept_after_iff p r calls call.id).mpr given
    have asked : m.scope call.files call.id = (.ok scope, m) := scope_of_kept kept call.files
    exact ⟨congrArg Prod.fst asked, congrArg (fun given => given.2.attempts) asked⟩
  · exact (scope_of_not_gave never call.files).2
  · obtain ⟨missing, left⟩ := scopes_of_failed failed
    refine ⟨left, fun between files others => ?_⟩
    have never (scope : Scope) : ¬ (new p r).Gave (calls ++ [call]) call.id scope := by
      rw [← kept_after_iff, after_concat]
      intro held
      cases (left ▸ missing).symm.trans held
    have later : m'.after between = (new p r).after (calls ++ [call] ++ between) := by
      rw [after_append, after_concat]
    rw [later]
    exact scope_of_not_gave (not_gave_of_others never others) files

/-- Calls before a jar is there and with it, and for tests that need another one. -/
def comingJar : List ScopeCall :=
  [⟨.empty, ⟨⟨":bad"⟩, .main⟩⟩, ⟨Cache.jarTree, ⟨⟨":bad"⟩, .main⟩⟩, ⟨Cache.jarTree, ⟨⟨":bad"⟩, .test⟩⟩]

/-- After the jar has gone again, its scope is given all the same. -/
theorem scope_outlives_its_jar :
    let r : Resolver := ⟨Generation.brokenProject.artifacts, [], .content, ⟨"/w"⟩⟩
    let id : ScopeId := ⟨⟨":bad"⟩, .main⟩
    let m := (new Generation.brokenProject r).after comingJar
    ∃ scope, (m.scope .empty id).1 = .ok scope ∧ (m.scope .empty id).2.attempts = 3 ∧
      m.resolved = [scope] := by
  intro r id m
  have resolves : (((new Generation.brokenProject r).after [⟨.empty, id⟩]).scope Cache.jarTree
      id).1.isOk = true := by decide +kernel
  cases given : (((new Generation.brokenProject r).after [⟨.empty, id⟩]).scope Cache.jarTree id).1 with
  | error e =>
    rw [given] at resolves
    cases resolves
  | ok scope =>
    have gave : (new Generation.brokenProject r).Gave comingJar id scope :=
      ⟨[⟨.empty, id⟩], Cache.jarTree, [⟨Cache.jarTree, ⟨⟨":bad"⟩, .test⟩⟩], rfl, given⟩
    have attempts : m.attempts = 3 := by decide +kernel
    have single : m.resolved.length = 1 := by decide +kernel
    obtain ⟨kept, -, -, -, listed, own⟩ :=
      given_scopes_are_kept Generation.brokenProject r comingJar ⟨.empty, id⟩
    obtain ⟨again, uncounted⟩ := kept scope gave
    refine ⟨scope, again, uncounted.trans attempts, ?_⟩
    obtain ⟨other, only⟩ := List.length_eq_one_iff.mp single
    have member : scope ∈ m.resolved := (listed scope).mpr ((own id scope gave).symm ▸ gave)
    rw [only, List.mem_singleton] at member
    rw [only, member]

end ScopeMemo

end RuleDepot
