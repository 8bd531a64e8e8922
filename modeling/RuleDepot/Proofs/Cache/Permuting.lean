import RuleDepot.Proofs.Cache.Adding
import RuleDepot.Proofs.Cache.Matching
import RuleDepot.Proofs.Files.Insisting
/-!
The order of requests.  Artifacts whose coordinates are told apart share no lock and no candidate name, so
all that their requests have in common is the directory of the cache.  That directory is there after the
first of them, or else cannot be made by any; hence requests can be made in any order.  Only if the path of
the cache steps back may the first of several failed attempts at that directory fail for another reason
than those after it.
-/

namespace RuleDepot.Cache

open RuleDepot.Tree Running

variable {c : Cache} {a b : Artifact} {forced forced' : Bool} {t t' u base : Tree} {root : Path}
  {place dir : Location} {f g : Cache → Cache} {e : IoError} {name name' : String}

/-- Two artifacts have different coordinates, and not by chance one stem. -/
def ToldApart (a b : Artifact) : Prop :=
  a.key ≠ b.key ∧ ¬ Naming.Collide a.key b.key

theorem ToldApart.symm (apart : ToldApart a b) : ToldApart b a :=
  ⟨apart.1.symm, fun ⟨tagged, tagged', texts, shorts⟩ =>
    apart.2 ⟨tagged', tagged, texts.symm, shorts.symm⟩⟩

/-- Artifacts that are told apart have no candidate name in common. -/
theorem ToldApart.names (apart : ToldApart a b) (digest : a.hash.IsDigest) (digest' : b.hash.IsDigest)
    (candidate : name ∈ Naming.candidates a) (candidate' : name' ∈ Naming.candidates b) :
    name ≠ name' := by
  rintro rfl
  rcases Naming.key_of_ruleName digest digest' candidate candidate' rfl with same | collide
  · exact apart.1 same
  · exact apart.2 collide

/-- Artifacts that are told apart have no place in common. -/
theorem ToldApart.marks (apart : ToldApart a b) (digest : a.hash.IsDigest) (digest' : b.hash.IsDigest)
    (own : Marks dir a place) : ¬ Marks dir b place := by
  rcases own with rfl | ⟨name, candidate, rfl⟩
  · intro marks
    have stems := stem_of_marks marks
    rcases Naming.stem_mark_inj (Or.inl rfl) (Or.inl rfl)
      (by rw [stems] : (Naming.stem a.key).toList ++ [] = (Naming.stem b.key).toList ++ []) with
      same | collide
    · exact apart.1 same
    · exact apart.2 collide
  · rintro (same | ⟨name', candidate', same⟩)
    · simp at same
    · exact apart.names digest digest' candidate candidate' (by simpa using same)

section Furnished

variable {own own' inner : Location → Prop}

/-- Two trees with new files that differ in some places at most. -/
def Furnished (base : Tree) (own own' inner : Location → Prop) (t u : Tree) : Prop :=
  SameBut inner t u ∧ Grown (Files own) base t ∧ Grown (Files own') base u

private theorem furnished_of_matches {α : Type} {x y : EStateM.Result IoError Tree α}
    (runs : Matches (SameBut inner) x y) (here : Grown (Files own) base (left x))
    (there : Grown (Files own') base (left y)) : Matches (Furnished base own own' inner) x y := by
  cases runs with
  | ok related => exact .ok ⟨related, here, there⟩
  | error related => exact .error ⟨related, here, there⟩

/-- Where the locks are, requests for an artifact cannot tell files apart that neither are its own nor
stand where its source does. -/
theorem blind_of_locks (solid : root.text ≠ "") (digest : a.hash.IsDigest)
    (locks : base.isDir (root / ".locks") = true)
    (mine : ∀ place, Marks (base.lexical root) a place → own place ∧ own' place ∧ ¬ inner place)
    (missing : ∀ place, inner place → base.node? place = none)
    (source : ¬ own (base.lexical a.source) ∧ ¬ own' (base.lexical a.source)) :
    Blind (Furnished base own own' inner) root a := by
  have directory := isDir_of_locks solid locks
  have held {p : Path} (there : base.isDir p = true) : Avoids inner base p := fun place passes inside =>
    by simpa [missing place inside] using directory_of_passes there passes
  have lock_mine := marks_lock root a base
  have lock : Avoids inner base (root / ".locks" / s!"{Naming.stem a.key}.lock") := by
    intro place passes inside
    rcases passes_join (Naming.isName_lock a.key) passes with passes | rfl
    · exact held locks place passes inside
    · rw [← lexical_join base (Naming.isName_lock a.key)] at inside
      exact (mine _ lock_mine).2.2 inside
  have names : ∀ name ∈ Naming.candidates a, Avoids inner base (root / name) := by
    intro name candidate place passes inside
    obtain ⟨named, own⟩ := marks_candidate root base digest candidate
    rcases passes_join named passes with passes | rfl
    · exact held directory place passes inside
    · rw [← lexical_join base named] at inside
      exact (mine _ own).2.2 inside
  refine ⟨fun ⟨same, here, there⟩ => ?_, fun ⟨same, here, there⟩ => ?_, fun ⟨same, here, there⟩ bytes => ?_,
    fun ⟨same, here, there⟩ => ?_, fun ⟨same, here, there⟩ name candidate => ?_,
    fun ⟨same, here, there⟩ name candidate stands file unreached => ?_⟩
  · rw [FileM.makeDirs_of_isDir (here.isDir locks), FileM.makeDirs_of_isDir (there.isDir locks)]
    exact .ok ⟨same, here, there⟩
  · exact furnished_of_matches (FileM.touch_matches same (lock.congr here.workingDir))
      (grown_touch here (mine _ lock_mine).1) (grown_touch there (mine _ lock_mine).2.1)
  · rw [there.read_iff source.2, here.read_iff source.1]
  · rw [FileM.ensureDir_of_isDir (here.isDir directory), FileM.ensureDir_of_isDir (there.isDir directory)]
    exact .ok ⟨same, here, there⟩
  · exact same.status (((names name candidate).congr here.workingDir) _)
  · obtain ⟨named, own⟩ := marks_candidate root base digest candidate
    have avoids := (names name candidate).congr here.workingDir
    have parent : (root / name).parent? ≠ none := by
      obtain ⟨q, known, -⟩ := parent?_join (d := root) base named
      simp [known]
    obtain ⟨bytes, found⟩ := isFile_iff.mp file
    have read := read_eq_ok_iff.mpr found
    have read' := (there.read_iff source.2 bytes).mpr ((here.read_iff source.1 bytes).mp read)
    refine furnished_of_matches (FileM.publishCopy_matches same avoids parent
      (isDir_stagingDir_join stands named) (read'.trans read.symm))
      (grown_copy a.source here (mine _ own).1 stands named unreached)
      (grown_copy a.source there (mine _ own).2.1 (there.isDir directory) named ?_)
    rw [same.reaches_eq avoids, unreached]

end Furnished

/-- What a request does to its cache. -/
inductive Noted (a : Artifact) : (Cache → Cache) → Prop where
  | nothing : Noted a id
  | recorded (entry : CacheEntry) (copied : Bool) : Noted a (record a entry copied)
  | claimed (entry : CacheEntry) (copied : Bool) {name : String}
      (candidate : name ∈ Naming.candidates a) : Noted a (record a entry copied ∘ claim name a.hash)

/-- A request does something to its cache that does not depend on the rest of the cache. -/
theorem fetch_noted (a : Artifact) (forced : Bool) (c : Cache) (t : Tree) :
    ∃ f, Noted a f ∧ (left (fetch a forced (c, t))).1 = f c := by
  have listed := fetch_cases c a forced t
  generalize fetch a forced (c, t) = result at listed ⊢
  cases listed with
  | refused | inPlace | known | failed => exact ⟨id, .nothing, rfl⟩
  | @stored middle t' name copied c' _ _ _ _ _ _ candidate placed =>
    cases placed with
    | claimed => exact ⟨_, .recorded _ _, rfl⟩
    | reused | copied => exact ⟨_, .claimed _ _ candidate, rfl⟩

theorem Unnoticed.comp (first : Unnoticed a f) (second : Unnoticed a g) : Unnoticed a (g ∘ f) where
  shelf c := (second.shelf _).trans (first.shelf c)
  root c := (second.root _).trans (first.root c)
  isSealed c := (second.isSealed _).trans (first.isSealed c)
  entry c := (second.entry _).trans (first.entry c)
  claims name candidate c := (second.claims name candidate _).trans (first.claims name candidate c)
  claim name candidate c := by
    simp only [Function.comp_apply, first.claim name candidate, second.claim name candidate]
  record entry copied c := by
    simp only [Function.comp_apply, first.record, second.record]

private theorem unnoticed_record (other : a.key ≠ b.key) (entry : CacheEntry) (copied : Bool) :
    Unnoticed b (record a entry copied) where
  shelf _ := rfl
  root _ := rfl
  isSealed _ := rfl
  entry c := by
    have differ : (⟨a.key, a.hash⟩ : EntryId) ≠ ⟨b.key, b.hash⟩ := fun same =>
      other (congrArg EntryId.key same)
    simp only [Cache.record, Table.getElem?_insert, if_neg differ]
  claims _ _ _ := rfl
  claim _ _ _ := rfl
  record entry' copied' c := by
    have differ : (⟨a.key, a.hash⟩ : EntryId) ≠ ⟨b.key, b.hash⟩ := fun same =>
      other (congrArg EntryId.key same)
    simp only [Cache.record, Table.insert_comm differ, Cache.mk.injEq, true_and]
    cases copied <;> cases copied' <;> simp

private theorem unnoticed_claim (other : name ∉ Naming.candidates b) (hash : ContentHash) :
    Unnoticed b (claim name hash) where
  shelf _ := rfl
  root _ := rfl
  isSealed _ := rfl
  entry _ := rfl
  claims name' candidate c := by
    have differ : name ≠ name' := fun same => other (same ▸ candidate)
    simp only [Cache.claim, Table.getElem?_insert, if_neg differ]
  claim name' candidate c := by
    have differ : name ≠ name' := fun same => other (same ▸ candidate)
    simp only [Cache.claim, Table.insert_comm differ]
  record _ _ _ := rfl

/-- What a request does to its cache goes unnoticed by requests for artifacts that are told apart. -/
theorem Noted.unnoticed (noted : Noted a f) (apart : ToldApart a b) (digest : a.hash.IsDigest)
    (digest' : b.hash.IsDigest) : Unnoticed b f := by
  cases noted with
  | nothing => exact unnoticed_id b
  | recorded entry copied => exact unnoticed_record apart.1 entry copied
  | claimed entry copied candidate =>
    have other : ∀ name ∈ Naming.candidates a, name ∉ Naming.candidates b :=
      fun name candidate candidate' => apart.names digest digest' candidate candidate' rfl
    exact (unnoticed_claim (other _ candidate) a.hash).comp (unnoticed_record apart.1 entry copied)

/-- A change that goes unnoticed can be made before or after a request. -/
theorem Noted.commutes (noted : Noted b g) (unnoticed : Unnoticed b f) (c : Cache) :
    f (g c) = g (f c) := by
  cases noted with
  | nothing => rfl
  | recorded entry copied => exact unnoticed.record entry copied c
  | claimed entry copied candidate =>
    simp only [Function.comp_apply, unnoticed.record, unnoticed.claim _ candidate]

/-- A change that a request does not notice does not make the cache do anything. -/
theorem Unnoticed.idle (unnoticed : Unnoticed a g) (idle : ¬ Busy c a forced) : ¬ Busy (g c) a forced := by
  intro busy
  refine idle ⟨?_, busy.2.1, ?_⟩
  · rw [← unnoticed.isSealed c]
    exact busy.1
  · rw [← unnoticed.entry c]
    exact busy.2.2

/-- A request that makes the cache do nothing is settled by the cache alone. -/
theorem outcome_of_idle (idle : ¬ Busy c a forced) (unnoticed : Unnoticed a g) (t u : Tree) :
    outcome (fetch a forced (g c, u)) = outcome (fetch a forced (c, t)) := by
  cases received c a forced with
  | refused shut =>
    rw [fetch_of_sealed shut, fetch_of_sealed ((unnoticed.isSealed c).trans shut), unnoticed.shelf]
    rfl
  | inPlace serving spared =>
    rw [fetch_of_spared serving spared, fetch_of_spared ((unnoticed.isSealed c).trans serving) spared]
    rfl
  | known serving needed held =>
    rw [fetch_of_known serving needed held, fetch_of_known ((unnoticed.isSealed c).trans serving) needed
      ((unnoticed.entry c).trans held)]
    rfl
  | busy busy => exact absurd busy idle

/-- The source of an artifact is not in the directory of a cache. -/
def Outside (root : Path) (t : Tree) (a : Artifact) : Prop :=
  ¬ t.lexical root <+: t.lexical a.source

theorem Outside.unmarked (outside : Outside root t a) (b : Artifact) :
    ¬ Marks (t.lexical root) b (t.lexical a.source) := by
  rintro (same | ⟨name, -, same⟩) <;> exact outside (same ▸ List.prefix_append _ _)

theorem Outside.congr (outside : Outside root t a) (same : u.workingDir = t.workingDir) :
    Outside root u a := by
  unfold Outside
  rwa [lexical_congr same, lexical_congr same]

section Open

variable (solid : c.root.text ≠ "") (locks : base.isDir c.lockDir = true)

include solid locks

/-- Where the locks are, a request comes to the same after another one for an artifact that is told
apart. -/
theorem fetch_after (apart : ToldApart a b) (digest : a.hash.IsDigest) (digest' : b.hash.IsDigest)
    (outside : Outside c.root base b) (noted : Noted a f)
    (does : (left (fetch a forced (c, base))).1 = f c) (forced' : Bool) :
    Matches (Beside f (SameBut fun place => Marks (base.lexical c.root) a place ∧
        base.node? place = none))
      (fetch b forced' (c, base)) (fetch b forced' (left (fetch a forced (c, base)))) := by
  have grown := fetch_files (s := (c, base)) solid locks digest forced
  have blind : Blind (Furnished base (Marks (base.lexical c.root) b)
      (fun place => Marks (base.lexical c.root) a place ∨ Marks (base.lexical c.root) b place)
      fun place => Marks (base.lexical c.root) a place ∧ base.node? place = none) c.root b :=
    blind_of_locks solid digest' locks
      (fun _ mine => ⟨mine, Or.inr mine, fun other => apart.marks digest digest' other.1 mine⟩)
      (fun _ => And.right)
      ⟨outside.unmarked b, fun other => other.elim (outside.unmarked a) (outside.unmarked b)⟩
  have runs := blind.fetch_matches (noted.unnoticed apart digest digest') solid
    ⟨grown.sameBut, .refl _ _, grown.mono fun _ _ ⟨own, file⟩ => ⟨Or.inl own, file⟩⟩ forced'
  rw [← does] at runs
  exact runs.mono fun _ _ ⟨same, related⟩ => ⟨same, related.1⟩

/-- Where the locks are, two requests for artifacts that are told apart leave the same behind in either
order. -/
theorem left_swap (apart : ToldApart a b) (digest : a.hash.IsDigest) (digest' : b.hash.IsDigest)
    (outside : Outside c.root base a) (outside' : Outside c.root base b) (forced forced' : Bool) :
    (left (fetch a forced (left (fetch b forced' (c, base))))).1 =
        (left (fetch b forced' (left (fetch a forced (c, base))))).1 ∧
      SameBut (fun _ => False) (left (fetch b forced' (left (fetch a forced (c, base))))).2
        (left (fetch a forced (left (fetch b forced' (c, base))))).2 := by
  obtain ⟨f, noted, does⟩ := fetch_noted a forced c base
  obtain ⟨g, noted', does'⟩ := fetch_noted b forced' c base
  obtain ⟨cache, same⟩ :=
    (fetch_after solid locks apart digest digest' outside' noted does forced').related
  obtain ⟨cache', same'⟩ := (fetch_after solid locks apart.symm digest' digest outside noted' does'
    forced).related
  have grown := fetch_files (s := (c, base)) solid locks digest forced
  have grown' := fetch_files (s := (c, base)) solid locks digest' forced'
  -- Each request, made second, adds only files of its own to what the first one left.
  have second : Grown (Files (Marks (base.lexical c.root) b)) (left (fetch a forced (c, base))).2
      (left (fetch b forced' (left (fetch a forced (c, base))))).2 := by
    have root : (left (fetch a forced (c, base))).1.root = c.root := fetch_root c a forced base
    have later := fetch_files (s := left (fetch a forced (c, base))) (root ▸ solid)
      (by rw [lockDir, root]; exact grown.isDir locks) digest' forced'
    rwa [root, grown.lexical] at later
  have second' : Grown (Files (Marks (base.lexical c.root) a)) (left (fetch b forced' (c, base))).2
      (left (fetch a forced (left (fetch b forced' (c, base))))).2 := by
    have root : (left (fetch b forced' (c, base))).1.root = c.root := fetch_root c b forced' base
    have later := fetch_files (s := left (fetch b forced' (c, base))) (root ▸ solid)
      (by rw [lockDir, root]; exact grown'.isDir locks) digest forced
    rwa [root, grown'.lexical] at later
  refine ⟨?_, ?_, fun {place} _ => ?_⟩
  · rw [cache, cache', does, does']
    exact noted'.commutes (noted.unnoticed apart digest digest') c |>.symm
  · rw [second'.workingDir, second.workingDir, grown.workingDir, grown'.workingDir]
  · by_cases own : Marks (base.lexical c.root) a place
    · have other := apart.marks digest digest' own
      rw [second.unmoved other]
      exact same'.node fun inside => other inside.1
    · rw [second'.unmoved own]
      exact (same.node fun inside => own inside.1).symm

end Open

/-- The failure of a request that cannot give the locks a directory. -/
def lockFailure (locks : Path) (e : IoError) : BuildError :=
  .io s!"creating lock directory {locks.text}" e

/-- Two outcomes of a request are the same; or both are that the locks cannot be given a directory, on a
path that steps back, maybe for different reasons. -/
inductive SameAnswer (root : Path) :
    Except BuildError CacheEntry → Except BuildError CacheEntry → Prop where
  | same (o : Except BuildError CacheEntry) : SameAnswer root o o
  | barred (winding : ".." ∈ root.pieces) (e e' : IoError) : SameAnswer root
      (.error (lockFailure (root / ".locks") e)) (.error (lockFailure (root / ".locks") e'))

namespace SameAnswer

variable {o o' o'' : Except BuildError CacheEntry}

theorem symm (same : SameAnswer root o o') : SameAnswer root o' o := by
  cases same with
  | same => exact .same _
  | barred winding => exact .barred winding _ _

theorem trans (first : SameAnswer root o o') (second : SameAnswer root o' o'') :
    SameAnswer root o o'' := by
  cases first with
  | same => exact second
  | barred winding e e' =>
    generalize told : (Except.error _ : Except BuildError CacheEntry) = middle at second
    cases second with
    | same =>
      subst told
      exact .barred winding _ _
    | barred => exact .barred winding _ _

/-- On a path that only goes down, there is nothing to tell between the two. -/
theorem eq_of_downward (same : SameAnswer root o o') (downward : ".." ∉ root.pieces) : o' = o := by
  cases same with
  | same => rfl
  | barred winding => exact absurd winding downward

end SameAnswer

/-- Two states of which the caches are the same, and the same stands everywhere in the files. -/
def Agree (s s' : Cache × Tree) : Prop :=
  s'.1 = s.1 ∧ SameBut (fun _ => False) s.2 s'.2

theorem Agree.refl (s : Cache × Tree) : Agree s s :=
  ⟨rfl, .refl _ _⟩

theorem Agree.trans {s s' s'' : Cache × Tree} (first : Agree s s') (second : Agree s' s'') :
    Agree s s'' :=
  ⟨second.1.trans first.1, first.2.trans second.2⟩

/-- A request comes to the same in states that agree. -/
theorem Agree.fetch {s s' : Cache × Tree} (agree : Agree s s') (solid : s.1.root.text ≠ "")
    (digest : a.hash.IsDigest) (forced : Bool) :
    Matches Agree (fetch a forced s) (fetch a forced s') := by
  obtain ⟨c, t⟩ := s
  obtain ⟨c', u⟩ := s'
  obtain ⟨same, files⟩ := agree
  obtain rfl : c' = c := same
  have runs := (blind_everywhere digest c'.root t).fetch_matches (unnoticed_id a) solid
    ⟨files, rfl⟩ forced
  exact runs.mono fun _ _ ⟨same, related⟩ => ⟨same, related.1⟩

/-- A request that stores nothing comes to the same after another one, and changes nothing either
time. -/
theorem fetch_after_of_idle (idle : ¬Busy c b forced') (apart : ToldApart a b)
    (digest : a.hash.IsDigest) (digest' : b.hash.IsDigest) (forced : Bool) :
    left (fetch b forced' (c, t)) = (c, t) ∧
      outcome (fetch b forced' (left (fetch a forced (c, t)))) = outcome (fetch b forced' (c, t)) ∧
      left (fetch b forced' (left (fetch a forced (c, t)))) = left (fetch a forced (c, t)) := by
  obtain ⟨f, noted, does⟩ := fetch_noted a forced c t
  have unnoticed := noted.unnoticed apart digest digest'
  have same := outcome_of_idle idle unnoticed t (left (fetch a forced (c, t))).2
  have still := left_of_idle (unnoticed.idle idle) (left (fetch a forced (c, t))).2
  rw [← does] at same still
  exact ⟨left_of_idle idle t, same, still⟩

/-- Where the locks cannot be given a directory, two requests that need one fail in either order. -/
theorem fetch_swap_of_barred (rooted : t.Rooted) (failed : FileM.makeDirs c.lockDir t = .error e barred)
    (busy : Busy c a forced) (busy' : Busy c b forced') :
    SameAnswer c.root (outcome (fetch b forced' (c, t)))
        (outcome (fetch b forced' (left (fetch a forced (c, t))))) ∧
      left (fetch b forced' (left (fetch a forced (c, t)))) = (c, barred) := by
  rw [fetch_barred failed busy, fetch_barred failed busy']
  change SameAnswer _ _ (outcome (fetch b forced' (c, barred))) ∧
    left (fetch b forced' (c, barred)) = (c, barred)
  by_cases winding : ".." ∈ c.root.pieces
  · obtain ⟨e', stuck⟩ := FileM.makeDirs_stuck failed
    rw [fetch_barred stuck busy']
    exact ⟨.barred winding _ _, rfl⟩
  · rw [fetch_barred (FileM.makeDirs_again isName_locks rooted winding failed) busy']
    exact ⟨.same _, rfl⟩

/-- Two requests for artifacts that are told apart come to the same in either order. -/
theorem fetch_swap (rooted : t.Rooted) (solid : c.root.text ≠ "") (apart : ToldApart a b) (digest : a.hash.IsDigest)
    (digest' : b.hash.IsDigest) (outside : Outside c.root t a) (outside' : Outside c.root t b)
    (forced forced' : Bool) :
    SameAnswer c.root (outcome (fetch b forced' (c, t)))
        (outcome (fetch b forced' (left (fetch a forced (c, t))))) ∧
      SameAnswer c.root (outcome (fetch a forced (c, t)))
        (outcome (fetch a forced (left (fetch b forced' (c, t))))) ∧
      Agree (left (fetch b forced' (left (fetch a forced (c, t)))))
        (left (fetch a forced (left (fetch b forced' (c, t))))) := by
  by_cases busy : Busy c a forced
  · by_cases busy' : Busy c b forced'
    · cases made : FileM.makeDirs c.lockDir t with
      | error e barred =>
        obtain ⟨same, last⟩ := fetch_swap_of_barred rooted made busy busy'
        obtain ⟨same', last'⟩ := fetch_swap_of_barred rooted made busy' busy
        rw [last, last']
        exact ⟨same, same', .refl _⟩
      | ok _ base =>
        rw [fetch_from_locks made busy, fetch_from_locks made busy']
        have locks := locks_of_made made
        have same : (left (FileM.makeDirs c.lockDir t)).workingDir = t.workingDir :=
          FileM.workingDir_makeDirs c.lockDir t
        rw [made] at same
        replace outside := outside.congr same
        replace outside' := outside'.congr same
        obtain ⟨f, noted, does⟩ := fetch_noted a forced c base
        obtain ⟨g, noted', does'⟩ := fetch_noted b forced' c base
        refine ⟨?_, ?_, left_swap solid locks apart digest digest' outside outside' forced forced'⟩
        · rw [(fetch_after solid locks apart digest digest' outside' noted does
            forced').outcome_eq]
          exact .same _
        · rw [(fetch_after solid locks apart.symm digest' digest outside noted' does'
            forced).outcome_eq]
          exact .same _
    · obtain ⟨still, same, last⟩ := fetch_after_of_idle busy' apart digest digest' forced
      rw [same, last, still]
      exact ⟨.same _, .same _, .refl _⟩
  · obtain ⟨still, same, last⟩ := fetch_after_of_idle busy apart.symm digest' digest forced'
    rw [same, last, still]
    exact ⟨.same _, .same _, .refl _⟩

/-- What requests are answered, one after another, whatever comes of each. -/
def answers : List (Artifact × Bool) → Cache × Tree →
    List ((Artifact × Bool) × Except BuildError CacheEntry)
  | [], _ => []
  | r :: rest, s => (r, outcome (fetch r.1 r.2 s)) :: answers rest (left (fetch r.1 r.2 s))

/-- What is left behind by them. -/
def afterAll (requests : List (Artifact × Bool)) (s : Cache × Tree) : Cache × Tree :=
  requests.foldl (fun s r => left (fetch r.1 r.2 s)) s

variable {requests reordered : List (Artifact × Bool)} {s s' : Cache × Tree} {r : Artifact × Bool}
  {o o' : Except BuildError CacheEntry}

/-- Every request is answered. -/
theorem map_fst_answers (requests : List (Artifact × Bool)) (s : Cache × Tree) :
    (answers requests s).map Prod.fst = requests := by
  induction requests generalizing s with
  | nil => rfl
  | cons r rest ih => rw [answers, List.map_cons, ih]

/-- Requests for artifacts that are told apart and whose sources are not in the cache. -/
structure Sound (requests : List (Artifact × Bool)) (s : Cache × Tree) : Prop where
  rooted : s.2.Rooted
  solid : s.1.root.text ≠ ""
  digests : ∀ r ∈ requests, r.1.hash.IsDigest
  outside : ∀ r ∈ requests, Outside s.1.root s.2 r.1
  apart : requests.Pairwise fun r r' => ToldApart r.1 r'.1

namespace Sound

theorem perm (sound : Sound requests s) (perm : requests.Perm reordered) : Sound reordered s where
  rooted := sound.rooted
  solid := sound.solid
  digests r member := sound.digests r (perm.mem_iff.mpr member)
  outside r member := sound.outside r (perm.mem_iff.mpr member)
  apart := (perm.pairwise_iff fun apart => apart.symm).mp sound.apart

/-- The requests behind the first one are sound still when that has been answered. -/
theorem rest (sound : Sound (r :: requests) s) : Sound requests (left (fetch r.1 r.2 s)) := by
  obtain ⟨c, t⟩ := s
  have root : (left (fetch r.1 r.2 (c, t))).1.root = c.root := fetch_root c r.1 r.2 t
  obtain ⟨rooted, same⟩ := rooted_fetch sound.rooted sound.solid
    (sound.digests r List.mem_cons_self) r.2
  refine ⟨rooted, root ▸ sound.solid, fun r' member => sound.digests r' (List.mem_cons_of_mem _ member),
    fun r' member => ?_, (List.pairwise_cons.mp sound.apart).2⟩
  rw [root]
  exact (sound.outside r' (List.mem_cons_of_mem _ member)).congr same

private theorem functional (sound : Sound requests s) {s' : Cache × Tree}
    (answered : (r, o) ∈ answers requests s') (answered' : (r, o') ∈ answers requests s') : o = o' := by
  have apart := sound.apart
  clear sound
  induction requests generalizing s' with
  | nil => cases answered
  | cons first rest ih =>
    obtain ⟨others, apart⟩ := List.pairwise_cons.mp apart
    have elsewhere {o : Except BuildError CacheEntry}
        (later : (first, o) ∈ answers rest (left (fetch first.1 first.2 s'))) : False := by
      have member := List.mem_map_of_mem (f := Prod.fst) later
      rw [map_fst_answers] at member
      exact (others first member).1 rfl
    rcases List.mem_cons.mp answered with own | later
    · rcases List.mem_cons.mp answered' with own' | later'
      · cases own
        cases own'
        rfl
      · cases own
        exact (elsewhere later').elim
    · rcases List.mem_cons.mp answered' with own' | later'
      · cases own'
        exact (elsewhere later).elim
      · exact ih later later' apart

end Sound

private theorem Agree.run (agree : Agree s s') (sound : Sound requests s) :
    answers requests s' = answers requests s ∧ Agree (afterAll requests s) (afterAll requests s') := by
  induction requests generalizing s s' with
  | nil => exact ⟨rfl, agree⟩
  | cons r rest ih =>
    have runs := agree.fetch sound.solid (sound.digests r List.mem_cons_self) r.2
    obtain ⟨answered, agrees⟩ := ih runs.related sound.rest
    exact ⟨by rw [answers, answers, runs.outcome_eq, answered], agrees⟩

/-- Requests in two orders are answered alike and leave the same behind.  The induction is on how the one
order comes from the other by exchanging neighbours. -/
theorem answers_of_perm (perm : requests.Perm reordered) (sound : Sound requests s) :
    (∀ r o, (r, o) ∈ answers requests s →
        ∃ o', (r, o') ∈ answers reordered s ∧ SameAnswer s.1.root o o') ∧
      Agree (afterAll requests s) (afterAll reordered s) := by
  induction perm generalizing s with
  | nil => exact ⟨fun _ _ answered => ⟨_, answered, .same _⟩, .refl _⟩
  | @cons first l l' _ ih =>
    obtain ⟨answered, agree⟩ := ih sound.rest
    rw [fetch_root s.1 first.1 first.2 s.2] at answered
    refine ⟨fun r o member => ?_, agree⟩
    rcases List.mem_cons.mp member with own | later
    · cases own
      exact ⟨_, List.mem_cons_self, .same _⟩
    · obtain ⟨o', member', same⟩ := answered r o later
      exact ⟨o', List.mem_cons_of_mem _ member', same⟩
  | swap first second l =>
    obtain ⟨c, t⟩ := s
    have apart := (List.pairwise_cons.mp sound.apart).1 first List.mem_cons_self
    have digest := sound.digests second List.mem_cons_self
    have digest' := sound.digests first (by simp)
    obtain ⟨same, same', agree⟩ := fetch_swap sound.rooted sound.solid apart digest digest'
      (sound.outside second List.mem_cons_self) (sound.outside first (by simp)) second.2 first.2
    obtain ⟨answered, agrees⟩ := agree.run sound.rest.rest
    refine ⟨fun r o member => ?_, agrees⟩
    rcases List.mem_cons.mp member with own | member
    · cases own
      exact ⟨_, List.mem_cons_of_mem _ List.mem_cons_self, same'⟩
    · rcases List.mem_cons.mp member with own | later
      · cases own
        exact ⟨_, List.mem_cons_self, same.symm⟩
      · refine ⟨o, List.mem_cons_of_mem _ (List.mem_cons_of_mem _ ?_), .same _⟩
        rw [answered]
        exact later
  | trans swaps _ ih ih' =>
    obtain ⟨answered, agree⟩ := ih sound
    obtain ⟨answered', agree'⟩ := ih' (sound.perm swaps)
    refine ⟨fun r o member => ?_, agree.trans agree'⟩
    obtain ⟨o', member', same⟩ := answered r o member
    obtain ⟨o'', member'', same'⟩ := answered' r o' member'
    exact ⟨o'', member'', same.trans same'⟩

/-- **Requests do not depend on their order.**  Requests for artifacts of different coordinates, which do
not collide and whose sources are not in the directory of the cache, are answered alike in any two orders,
each as if it had been made alone; so a request that fails does nothing to the others.  Afterwards the
cache is the same, with its entries and counters, and the same stands everywhere in the files.  Answers are
alike if they are the same, where the path of the cache does not step back; where it does, the reason why
the locks cannot be given a directory may be another one. -/
theorem answers_perm (perm : requests.Perm reordered) (reachable : Reachable c) (rooted : t.Rooted)
    (digests : ∀ r ∈ requests, r.1.hash.IsDigest)
    (apart : requests.Pairwise fun r r' => r.1.key ≠ r'.1.key ∧ ¬ Naming.Collide r.1.key r'.1.key)
    (outside : ∀ r ∈ requests, ¬ t.lexical c.root <+: t.lexical r.1.source) :
    (∀ r o o', (r, o) ∈ answers requests (c, t) → (r, o') ∈ answers reordered (c, t) →
        SameAnswer c.root o o') ∧
      (∀ r o, (r, o) ∈ answers requests (c, t) →
        SameAnswer c.root (outcome (fetch r.1 r.2 (c, t))) o) ∧
      (afterAll reordered (c, t)).1 = (afterAll requests (c, t)).1 ∧
      ∀ place, (afterAll reordered (c, t)).2.node? place = (afterAll requests (c, t)).2.node? place := by
  have sound : Sound requests (c, t) := ⟨rooted, reachable.root_ne_empty, digests, outside, apart⟩
  obtain ⟨answered, same, files⟩ := answers_of_perm perm sound
  refine ⟨fun r o o' member member' => ?_, fun r o member => ?_, same, fun _ => files.node id⟩
  · obtain ⟨o'', member'', same⟩ := answered r o member
    obtain rfl := (sound.perm perm).functional member' member''
    exact same
  · -- Whatever is asked for first is answered as if nothing else was asked for.
    have inside : r ∈ requests := by
      have member := List.mem_map_of_mem (f := Prod.fst) member
      rwa [map_fst_answers] at member
    obtain ⟨front, behind, rfl⟩ := List.append_of_mem inside
    have first : (front ++ r :: behind).Perm (r :: (front ++ behind)) := List.perm_middle
    obtain ⟨answered, -⟩ := answers_of_perm first sound
    obtain ⟨o', member', same⟩ := answered r o member
    have own : (r, outcome (fetch r.1 r.2 (c, t))) ∈ answers (r :: (front ++ behind)) (c, t) :=
      List.mem_cons_self
    obtain rfl := (sound.perm first).functional member' own
    exact same.symm

/-- An artifact that has lost its file. -/
def lostArtifact : Artifact :=
  { Naming.dashedName with source := ⟨"/lost.jar"⟩ }

theorem jar_answered_beside_lost :
    (outcome (fetch lostArtifact false (jarCache, jarTree))).isOk = false ∧
      (outcome (fetch jarArtifact false (jarCache, jarTree))).isOk = true ∧
      (∀ r o o', (r, o) ∈ answers [(lostArtifact, false), (jarArtifact, false)] (jarCache, jarTree) →
        (r, o') ∈ answers [(jarArtifact, false), (lostArtifact, false)] (jarCache, jarTree) →
        o' = o) ∧
      (afterAll [(jarArtifact, false), (lostArtifact, false)] (jarCache, jarTree)).1.copies =
        (afterAll [(lostArtifact, false), (jarArtifact, false)] (jarCache, jarTree)).1.copies := by
  have uncollided : ¬ Naming.Collide lostArtifact.key jarArtifact.key := fun collide =>
    absurd collide.2.1 (by decide)
  have digest : lostArtifact.hash.IsDigest := ContentHash.isDigest_sha256 _
  have digest' : jarArtifact.hash.IsDigest := ContentHash.isDigest_sha256 _
  obtain ⟨answered, -, same, -⟩ := @answers_perm jarCache jarTree
    [(lostArtifact, false), (jarArtifact, false)] [(jarArtifact, false), (lostArtifact, false)]
    (.swap _ _ _) (.new _ _ _) (by decide +kernel)
    (List.forall_mem_cons.mpr ⟨digest, List.forall_mem_cons.mpr ⟨digest', by simp⟩⟩)
    (by simpa using ⟨by decide, uncollided⟩) (by decide +kernel)
  exact ⟨by decide +kernel, by decide +kernel,
    fun r o o' member member' => (answered r o o' member member').eq_of_downward (by decide +kernel),
    by rw [same]⟩

/-- A file stands where the directory above the cache should be.  Whoever asks first makes the directory that
the path steps out of again, and then is told that the place is taken; whoever asks later is told at once
that what stands there is no directory. -/
theorem detour_answers_differ :
    let c := Cache.new .external ⟨"/a/../x.jar"⟩ jarCache.resolver
    let other : Artifact := { jarArtifact with key := lostArtifact.key }
    let requests := [(jarArtifact, false), (other, false)]
    Sound requests (c, jarTree) ∧
      ∃ r o o', (r, o) ∈ answers requests (c, jarTree) ∧
        (r, o') ∈ answers requests.reverse (c, jarTree) ∧ o' ≠ o := by
  intro c other requests
  have uncollided : ¬ Naming.Collide jarArtifact.key other.key := fun collide =>
    absurd collide.1 (by decide)
  have digest : ∀ r ∈ requests, r.1.hash.IsDigest := by
    simp only [requests, List.forall_mem_cons]
    exact ⟨ContentHash.isDigest_sha256 _, ContentHash.isDigest_sha256 _, nofun⟩
  have sound : Sound requests (c, jarTree) :=
    ⟨by decide +kernel, by decide +kernel, digest, by simp only [Outside]; decide +kernel,
      by simpa [requests] using ⟨by decide, uncollided⟩⟩
  exact ⟨sound, (jarArtifact, false), _, _, .head _, .tail _ (.head _), by decide +kernel⟩

end RuleDepot.Cache
