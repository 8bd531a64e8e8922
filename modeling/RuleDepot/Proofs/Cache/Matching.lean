import RuleDepot.Proofs.Cache.Repeating
import RuleDepot.Proofs.Files.Sharing
/-!
Requests that come to the same.  A request looks at few things: the entry of its own artifact, the claims
of its candidate names, and the files at its own paths.  Whatever is done to a cache and to the files
elsewhere, the answer is the same, and the request does the same to both.
-/

namespace RuleDepot.Cache

open RuleDepot.Tree Running

variable {c : Cache} {a : Artifact} {forced : Bool} {t u : Tree} {R : Tree → Tree → Prop} {root : Path}
  {g : Cache → Cache}

/-- A change of a cache that requests for an artifact do not notice, and that does not matter to what they
do to the cache themselves. -/
structure Unnoticed (a : Artifact) (g : Cache → Cache) : Prop where
  shelf : ∀ c, (g c).shelf = c.shelf
  root : ∀ c, (g c).root = c.root
  isSealed : ∀ c, (g c).isSealed = c.isSealed
  entry : ∀ c, (g c).entries[(⟨a.key, a.hash⟩ : EntryId)]? = c.entries[(⟨a.key, a.hash⟩ : EntryId)]?
  claims : ∀ name ∈ Naming.candidates a, ∀ c, (g c).claims[name]? = c.claims[name]?
  claim : ∀ name ∈ Naming.candidates a, ∀ c, g (claim name a.hash c) = Cache.claim name a.hash (g c)
  record : ∀ entry copied c, g (record a entry copied c) = Cache.record a entry copied (g c)

private theorem Unnoticed.writeFailure (unnoticed : Unnoticed a g) (c : Cache) (b : Artifact) :
    (g c).writeFailure b = c.writeFailure b := by
  funext path cause
  simp only [Cache.writeFailure, unnoticed.shelf]

theorem unnoticed_id (a : Artifact) : Unnoticed a id where
  shelf _ := rfl
  root _ := rfl
  isSealed _ := rfl
  entry _ := rfl
  claims _ _ _ := rfl
  claim _ _ _ := rfl
  record _ _ _ := rfl

/-- Trees that the requests for an artifact to a cache cannot tell apart: every action that a request
consists of comes to the same in both and leaves such trees behind. -/
structure Blind (R : Tree → Tree → Prop) (root : Path) (a : Artifact) : Prop where
  locks : ∀ {t u}, R t u → Matches R (FileM.makeDirs (root / ".locks") t)
    (FileM.makeDirs (root / ".locks") u)
  lock : ∀ {t u}, R t u → Matches R (FileM.touch (root / ".locks" / s!"{Naming.stem a.key}.lock") t)
    (FileM.touch (root / ".locks" / s!"{Naming.stem a.key}.lock") u)
  source : ∀ {t u}, R t u → ∀ bytes, u.read a.source = .ok bytes ↔ t.read a.source = .ok bytes
  directory : ∀ {t u}, R t u → Matches R (FileM.ensureDir root t) (FileM.ensureDir root u)
  names : ∀ {t u}, R t u → ∀ name ∈ Naming.candidates a, u.status (root / name) = t.status (root / name)
  copies : ∀ {t u}, R t u → ∀ name ∈ Naming.candidates a, t.isDir root = true →
    t.isFile a.source = true → t.reaches (root / name) = false →
    Matches R (FileM.publishCopy a.source (root / name) t)
      (FileM.publishCopy a.source (root / name) u)

/-- Two caches with their files, of which the second cache differs by a change and the files are
related. -/
def Beside (g : Cache → Cache) (R : Tree → Tree → Prop) (s s' : Cache × Tree) : Prop :=
  s'.1 = g s.1 ∧ R s.2 s'.2

private theorem files_matches {α : Type} {action : FileM α} (wrap : IoError → BuildError)
    (runs : Matches R (action t) (action u)) :
    Matches (Beside g R) (Step.files wrap action (c, t)) (Step.files wrap action (g c, u)) := by
  rw [Step.files_run, Step.files_run]
  generalize action t = x at runs
  generalize action u = y at runs
  cases runs with
  | ok related => exact .ok ⟨rfl, related⟩
  | error related => exact .error ⟨rfl, related⟩

namespace Blind

variable (blind : Blind R c.root a) (unnoticed : Unnoticed a g)

include blind

private theorem isFile_eq (related : R t u) : u.isFile a.source = t.isFile a.source := by
  have reads := blind.source related
  rw [Bool.eq_iff_iff, isFile_iff, isFile_iff]
  simp only [← read_eq_ok_iff, reads]

/-- A file that is read alike is compared alike with what stands at one of the names. -/
theorem sameContent_eq (related : R t u) (file : t.isFile a.source = true) {name : String}
    (candidate : name ∈ Naming.candidates a) :
    u.sameContent a.source (c.root / name) = t.sameContent a.source (c.root / name) := by
  obtain ⟨bytes, held⟩ := isFile_iff.mp file
  have held' : u.status a.source = .ok (.file bytes) :=
    read_eq_ok_iff.mp ((blind.source related bytes).mpr (read_eq_ok_iff.mpr held))
  simp only [sameContent, Tree.size, Tree.sha256, Tree.read, held, held',
    blind.names related name candidate]

include unnoticed

private theorem lock_matches (related : R t u) :
    Matches (Beside g R) (Cache.lock a (c, t)) (Cache.lock a (g c, u)) := by
  have locks := blind.locks related
  rw [lock_run, lock_run, lockFile, lockFile, lockDir, lockDir, unnoticed.root]
  generalize FileM.makeDirs (c.root / ".locks") t = x at locks ⊢
  generalize FileM.makeDirs (c.root / ".locks") u = y at locks ⊢
  cases locks with
  | error related' => exact .error ⟨rfl, related'⟩
  | ok related' => exact files_matches _ (blind.lock related')

/-- An artifact is placed alike.  The induction is on the names that are left to try. -/
theorem place_matches {names : List String} (inside : ∀ name ∈ names, name ∈ Naming.candidates a)
    (related : R t u) (directory : t.isDir c.root = true) (file : t.isFile a.source = true) :
    Matches (Beside g R) (place a names (c, t)) (place a names (g c, u)) := by
  induction names with
  | nil =>
    rw [place, Step.part_bind, Step.part_bind]
    simp only [unnoticed.writeFailure, unnoticed.root]
    exact .error ⟨rfl, related⟩
  | cons name others ih =>
    obtain ⟨candidate, inside⟩ := List.forall_mem_cons.mp inside
    have later := ih inside
    have status := blind.names related name candidate
    have claims := unnoticed.claims name candidate c
    have isFile : u.isFile ((g c).root / name) = t.isFile (c.root / name) := by
      simp only [Tree.isFile, unnoticed.root, status]
    have reaches : u.reaches ((g c).root / name) = t.reaches (c.root / name) := by
      simp only [Tree.reaches, unnoticed.root, status]
    have compares : u.sameContent a.source ((g c).root / name) =
        t.sameContent a.source (c.root / name) := by
      rw [unnoticed.root, blind.sameContent_eq related file candidate]
    have tried := place_tries_first a name others c t
    generalize place a (name :: others) (c, t) = result at tried ⊢
    cases tried with
    | kept held stands =>
      rw [place_of_kept others (claims.trans held) (isFile.trans stands)]
      exact .ok ⟨rfl, related⟩
    | foreign held other =>
      rw [place_of_foreign others (claims.trans held) (by rwa [isFile])]
      exact later
    | unreadable free reached compared =>
      rw [place_of_reached others (claims.trans free) (reaches.trans reached), compares, compared]
      simp only [unnoticed.writeFailure, unnoticed.root]
      exact .error ⟨rfl, related⟩
    | different free reached compared =>
      rw [place_of_reached others (claims.trans free) (reaches.trans reached), compares, compared]
      exact later
    | alike free reached compared =>
      rw [place_of_reached others (claims.trans free) (reaches.trans reached), compares, compared]
      exact .ok ⟨(unnoticed.claim name candidate c).symm, related⟩
    | failed free unreached ran =>
      have copies := blind.copies related name candidate directory file unreached
      rw [place_of_unreached others (claims.trans free) (reaches.trans unreached), unnoticed.root]
      rw [ran] at copies
      generalize FileM.publishCopy a.source (c.root / name) u = attempt at copies ⊢
      cases copies with
      | error related' =>
        simp only [unnoticed.writeFailure]
        exact .error ⟨rfl, related'⟩
    | copied free unreached ran =>
      have copies := blind.copies related name candidate directory file unreached
      rw [place_of_unreached others (claims.trans free) (reaches.trans unreached), unnoticed.root]
      rw [ran] at copies
      generalize FileM.publishCopy a.source (c.root / name) u = attempt at copies ⊢
      cases copies with
      | ok related' => exact .ok ⟨(unnoticed.claim name candidate c).symm, related'⟩

private theorem publish_matches (solid : c.root.text ≠ "") (related : R t u) :
    Matches (Beside g R) (publish a (c, t)) (publish a (g c, u)) := by
  have same := blind.isFile_eq related
  cases file : t.isFile a.source with
  | false =>
    rw [publish_of_missing file, publish_of_missing (same.trans file)]
    exact .error ⟨rfl, related⟩
  | true =>
    rw [publish_of_file file, publish_of_file (same.trans file), unnoticed.writeFailure, unnoticed.root]
    have secures := FileM.ensureDir_secures c.root t
    have directories := blind.directory related
    generalize made : FileM.ensureDir c.root t = x at directories secures ⊢
    generalize FileM.ensureDir c.root u = y at directories ⊢
    cases directories with
    | error related' => exact .error ⟨rfl, related'⟩
    | ok related' =>
      exact blind.place_matches unnoticed (fun _ => id) related'
        (FileM.isDir_of_ensured solid made) (secures.1.isFile file)

/-- A request comes to the same in trees that it cannot tell apart, on a cache with a change that it does
not notice. -/
theorem fetch_matches (solid : c.root.text ≠ "") (related : R t u) (forced : Bool) :
    Matches (Beside g R) (fetch a forced (c, t)) (fetch a forced (g c, u)) := by
  have isSealed := unnoticed.isSealed c
  have entry := unnoticed.entry c
  cases received c a forced with
  | refused shut =>
    rw [fetch_of_sealed shut, fetch_of_sealed (isSealed.trans shut), unnoticed.shelf]
    exact .error ⟨rfl, related⟩
  | inPlace serving spared =>
    rw [fetch_of_spared serving spared, fetch_of_spared (isSealed.trans serving) spared]
    exact .ok ⟨rfl, related⟩
  | known serving needed held =>
    rw [fetch_of_known serving needed held,
      fetch_of_known (isSealed.trans serving) needed (entry.trans held)]
    exact .ok ⟨rfl, related⟩
  | busy busy =>
    obtain ⟨serving, needed, new⟩ := busy
    rw [fetch_of_busy ⟨serving, needed, new⟩,
      fetch_of_busy ⟨isSealed.trans serving, needed, entry.trans new⟩, unnoticed.root]
    refine (blind.lock_matches unnoticed related).bind (fun _ s s' ran _ beside => ?_)
      fun _ _ beside => beside
    obtain ⟨c₁, t₁⟩ := s
    obtain ⟨c₂, u₁⟩ := s'
    obtain ⟨rfl, related'⟩ := beside
    obtain rfl : c₁ = c := (lock_ok ran).1
    refine (blind.publish_matches unnoticed solid related').bind
      (fun result s s' _ _ beside => ?_) fun _ _ beside => beside
    obtain ⟨c₂, t₂⟩ := s
    obtain ⟨c₃, u₂⟩ := s'
    obtain ⟨rfl, related''⟩ := beside
    exact .ok ⟨(unnoticed.record _ _ _).symm, related''⟩

end Blind

/-- Several requests come to the same in trees that none of them can tell apart. -/
theorem fetchAll_matches {requests : List (Artifact × Bool)} (solid : c.root.text ≠ "")
    (blind : ∀ request ∈ requests, Blind R c.root request.1) (related : R t u) :
    Matches (Beside id R) (fetchAll requests (c, t)) (fetchAll requests (c, u)) := by
  induction requests generalizing c t u with
  | nil => exact .ok ⟨rfl, related⟩
  | cons request rest ih =>
    obtain ⟨own, blind⟩ := List.forall_mem_cons.mp blind
    have first := own.fetch_matches (unnoticed_id request.1) solid related request.2
    have root := fetch_root c request.1 request.2 t
    rw [fetchAll_cons]
    refine first.bind (fun entry s s' ran _ beside => ?_) fun _ _ beside => beside
    obtain ⟨c₁, t₁⟩ := s
    obtain ⟨c₂, u₁⟩ := s'
    obtain ⟨same, related'⟩ := beside
    obtain rfl : c₂ = c₁ := same
    rw [ran] at root
    replace root : c₂.root = c.root := root
    refine (ih (root ▸ solid) (root ▸ blind) related').bind (fun others s s' _ _ beside => ?_)
      fun _ _ beside => beside
    exact .ok beside

section Apart

variable {inner : Location → Prop} {base : Tree}

/-- The path of a lock is the longest one that leads through the directory of the cache. -/
theorem avoids_of_lock {root : Path} {name : String}
    (avoids : Avoids inner base (root / ".locks" / name)) (named : Path.IsName name) :
    Avoids inner base (root / ".locks") ∧ Avoids inner base root := by
  have above : Avoids inner base (root / ".locks") := fun _ passes =>
    avoids _ (passes_of_continued (Path.continues_join _ named) passes)
  exact ⟨above, fun _ passes => above _ (passes_of_continued (Path.continues_join _ isName_locks) passes)⟩

/-- Requests cannot tell trees apart that differ in places which their paths keep clear of, if their
source reads alike in such trees. -/
theorem blind_of_avoids (digest : a.hash.IsDigest)
    (lock : Avoids inner base (root / ".locks" / s!"{Naming.stem a.key}.lock"))
    (names : ∀ name ∈ Naming.candidates a, Avoids inner base (root / name))
    (source : ∀ {t u}, SameBut inner t u → t.workingDir = base.workingDir →
      ∀ bytes, u.read a.source = .ok bytes ↔ t.read a.source = .ok bytes) :
    Blind (fun t u => SameBut inner t u ∧ t.workingDir = base.workingDir) root a := by
  obtain ⟨locks, directory⟩ := avoids_of_lock lock (Naming.isName_lock a.key)
  refine ⟨fun ⟨same, begins⟩ => ?_, fun ⟨same, begins⟩ => ?_, fun ⟨same, begins⟩ => source same begins,
    fun ⟨same, begins⟩ => ?_, fun ⟨same, begins⟩ name candidate => ?_,
    fun {t u} ⟨same, begins⟩ name candidate there file _ => ?_⟩
  · exact (FileM.makeDirs_matches same (locks.congr begins)).keeping
      ((FileM.workingDir_makeDirs _ _).trans begins)
  · exact (FileM.touch_matches same (lock.congr begins)).keeping ((FileM.workingDir_touch _ _).trans begins)
  · exact (FileM.ensureDir_matches same (directory.congr begins)).keeping
      ((FileM.ensureDir_secures _ _).1.workingDir.trans begins)
  · exact same.status (((names name candidate).congr begins) _)
  · have named := (Naming.isName_candidate digest candidate).1
    have staging := isDir_stagingDir_join there named
    have parent : (root / name).parent? ≠ none := by
      obtain ⟨q, known, -⟩ := parent?_join (d := root) t named
      simp [known]
    obtain ⟨bytes, held⟩ := isFile_iff.mp file
    have read : t.read a.source = .ok bytes := read_eq_ok_iff.mpr held
    have read' : u.read a.source = t.read a.source :=
      ((source same begins bytes).mpr read).trans read.symm
    refine (FileM.publishCopy_matches same ((names name candidate).congr begins) parent staging
      read').keeping ?_
    rcases FileM.publishCopy_in a.source staging with ⟨e, failed⟩ | ⟨_, _, _, -, -, -, copied⟩
    · rw [failed]
      exact begins
    · rw [copied]
      exact begins

/-- Requests cannot tell a tree from one in which a first directory on the way to the cache is there
already, if their source is found on another way. -/
theorem blind_of_shared {d : Path} {home : Location} {x y : String} {names : List String}
    (digest : a.hash.IsDigest) (continues : Path.Continues d root (x :: y :: names))
    (solid : ∀ s ∈ x :: y :: names, Path.IsName s ∧ s.utf8ByteSize ≤ nameLimit)
    (source : ∀ {t u}, Shared home d x t u → Avoids (· = t.lexical d ++ [x]) t a.source) :
    Blind (fun t u => u = t ∨ Shared home d x t u) root a := by
  have good : ∀ s ∈ x :: y :: names, Path.IsName s := fun s member => (solid s member).1
  have two : ∀ s ∈ [x, y], Path.IsName s ∧ s.utf8ByteSize ≤ nameLimit := fun s member =>
    solid s (List.mem_append_left names member)
  have locks : Path.Continues d (root / ".locks") (x :: y :: (names ++ [".locks"])) :=
    continues.join (by simp) good isName_locks
  have solid' : ∀ s ∈ x :: y :: names ++ [".locks"], Path.IsName s ∧ s.utf8ByteSize ≤ nameLimit := by
    intro s member
    rcases List.mem_append.mp member with member | member
    · exact solid s member
    · exact List.mem_singleton.mp member ▸ ⟨isName_locks, by decide⟩
  have same {α : Type} (r : EStateM.Result IoError Tree α) :
      Matches (fun t u => u = t ∨ Shared home d x t u) r r :=
    Matches.refl (fun (_ : Tree) => Or.inl rfl) r
  refine ⟨fun {t u} related => ?_, fun {t u} related => ?_, fun {t u} related bytes => ?_,
    fun {t u} related => ?_, fun {t u} related name candidate => ?_,
    fun {t u} related name candidate there file _ => ?_⟩ <;>
    rcases related with rfl | shared
  · exact same _
  · rcases FileM.makeDirs_shared shared locks solid' with made | ⟨e, here, there⟩
    · exact made ▸ same _
    · exact here ▸ there ▸ .error (Or.inr shared)
  · exact same _
  · obtain ⟨e, here, there⟩ := FileM.touch_shared shared
      (locks.join (by simp) (fun s member => (solid' s member).1) (Naming.isName_lock a.key)) two
      (Naming.isName_lock a.key)
    exact here ▸ there ▸ .error (Or.inr shared)
  · rfl
  · rw [shared.sameBut.read_eq (source shared)]
  · exact same _
  · rcases FileM.ensureDir_shared shared continues solid with made | ⟨e, here, there⟩
    · exact made ▸ same _
    · exact here ▸ there ▸ .error (Or.inr shared)
  · rfl
  · have behind := continues.join (by simp) good (Naming.isName_candidate digest candidate).1
    obtain ⟨kind, here, there⟩ := shared.status_eq behind two
    rw [here, there]
  · exact same _
  · -- The directory of the cache is not there while the first directory of its way is missing.
    have held := directory_of_passes there (passes_lexical t root)
    rw [lexical_of_continues t continues good, shared.gone ⟨y :: names, by simp⟩] at held
    cases held

/-- Requests come to the same in trees in which the same stands everywhere. -/
theorem blind_everywhere (digest : a.hash.IsDigest) (root : Path) (base : Tree) :
    Blind (fun t u => SameBut (fun _ => False) t u ∧ t.workingDir = base.workingDir) root a :=
  blind_of_avoids digest (fun _ _ => id) (fun _ _ _ _ => id) fun same _ bytes => by
    rw [same.read_eq fun _ _ => id]

end Apart

end RuleDepot.Cache
