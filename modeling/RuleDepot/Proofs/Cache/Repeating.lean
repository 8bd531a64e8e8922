import RuleDepot.Proofs.Cache.Backing
import RuleDepot.Proofs.Files.Repeating
/-!
Requests that were answered before.  A request leaves its marks on the way to the directory of the
cache and in that directory, under names that nobody else uses there.  In a tree that still shows what
the requests left behind, they are answered again by the same entries; nothing is copied, and the
tree stays as it is.
-/

namespace RuleDepot.Cache

open RuleDepot.Tree Running

variable {c c' : Cache} {a : Artifact} {forced copied : Bool} {t t' u : Tree} {name : String}
  {way : Location → Prop} {e : CacheEntry}

/-- The names that are given in the directory of a cache. -/
def Gives (name : String) : Prop :=
  name = ruleFileName ∨ name = ".locks" ∨ '-' ∈ name.toList

/-- The places in the directory of a cache where it keeps its files and locks. -/
def Holds (dir spot : Location) : Prop :=
  (∃ name, Gives name ∧ spot = dir ++ [name]) ∨ ∃ name, spot = dir ++ [".locks", name]

/-- A cache left its marks on the way to its directory and in there. -/
abbrev Marked (way : Location → Prop) (dir : Location) (t t' : Tree) : Prop :=
  Edited (fun spot => way spot ∨ Holds dir spot) (Holds dir) t t'

/-- The locks have a directory of their own. -/
theorem isName_locks : Path.IsName ".locks" :=
  ⟨by decide, by decide, by decide, by decide⟩

/-- Whatever is to be made on the way of a path is allowed, or there already, also later on. -/
theorem allowed_later {made put : Location → Prop} {p : Path} (edited : Edited made put t t')
    (allowed : ∀ {spot}, t.Passes p spot → way spot ∨ t.node? spot = some .directory) :
    ∀ {spot}, t'.Passes p spot → way spot ∨ t'.node? spot = some .directory :=
  fun passes => (allowed ((passes_congr edited.workingDir p _).mp passes)).imp_right edited.directory

/-- Placing an artifact makes at most the file of one of its names. -/
theorem place_marked (a : Artifact) (rooted : t.Rooted) (directory : t.isDir c.root = true)
    {names : List String} (good : ∀ name ∈ names, Path.IsName name ∧ '-' ∈ name.toList) :
    Marked way (t.lexical c.root) t (left (place a names (c, t))).2 := by
  induction names with
  | nil => exact .refl rooted
  | cons name others ih =>
    obtain ⟨⟨named, dash⟩, good⟩ := List.forall_mem_cons.mp good
    have own : Holds (t.lexical c.root) (t.lexical c.root ++ [name]) :=
      Or.inl ⟨name, Or.inr (Or.inr dash), rfl⟩
    have parent : (c.root / name).parent? ≠ none := by
      obtain ⟨q, known, -⟩ := parent?_join (d := c.root) t named
      simp [known]
    have marked : Marked way (t.lexical c.root) t
        (left (FileM.publishCopy a.source (c.root / name) t)) := by
      refine FileM.publishCopy_edited a.source rooted parent (fun passes => ?_) ?_
      · rcases passes_join named passes with passes | rfl
        · exact Or.inr (directory_of_passes directory passes)
        · exact Or.inl (Or.inr own)
      · rwa [lexical_join t named]
    have tried := place_tries_first a name others c t
    generalize place a (name :: others) (c, t) = result at tried ⊢
    cases tried with
    | kept | unreadable | alike => exact .refl rooted
    | foreign | different => exact ih good
    | failed _ _ ran | copied _ _ ran =>
      rw [ran] at marked
      exact marked

section Marks

variable (allowed : ∀ {spot}, t.Passes c.root spot → way spot ∨ t.node? spot = some .directory)

include allowed

/-- Taking a lock makes directories on the way to the locks and a file among them. -/
theorem lock_marked (rooted : t.Rooted) (a : Artifact) :
    Marked way (t.lexical c.root) t (left (lock a (c, t))).2 := by
  have made : Marked way (t.lexical c.root) t (left (FileM.makeDirs c.lockDir t)) := by
    refine FileM.makeChain_edited _ rooted fun passes => ?_
    rcases passes_join isName_locks passes with passes | rfl
    · exact (allowed passes).imp_left Or.inl
    · exact Or.inl (Or.inr (Or.inl ⟨".locks", Or.inr (Or.inl rfl), rfl⟩))
  rw [lock_run]
  cases ran : FileM.makeDirs c.lockDir t with
  | error e middle =>
    rw [ran] at made
    exact made
  | ok _ middle =>
    replace made : Marked way (t.lexical c.root) t middle := by rwa [ran] at made
    have touched : Marked way (t.lexical c.root) middle (left (FileM.touch (c.lockFile a) middle)) := by
      refine FileM.touch_edited made.rooted ?_
      rw [lockFile, lexical_join middle (Naming.isName_lock a.key), lockDir,
        lexical_join middle isName_locks, made.lexical]
      exact Or.inr ⟨_, List.append_assoc ..⟩
    simp only [Step.files_run]
    cases touch : FileM.touch (c.lockFile a) middle with
    | error e t' | ok _ t' =>
      rw [touch] at touched
      exact made.trans touched

/-- Publishing an artifact makes directories on the way to the cache and at most one file there. -/
theorem publish_marked (rooted : t.Rooted) (solid : c.root.text ≠ "") (digest : a.hash.IsDigest) :
    Marked way (t.lexical c.root) t (left (publish a (c, t))).2 := by
  cases file : t.isFile a.source with
  | false =>
    rw [publish_of_missing file]
    exact .refl rooted
  | true =>
    have made : Marked way (t.lexical c.root) t (left (FileM.ensureDir c.root t)) :=
      FileM.ensureDir_edited rooted fun passes => (allowed passes).imp_left Or.inl
    rw [publish_of_file file]
    cases ran : FileM.ensureDir c.root t with
    | error e middle =>
      rw [ran] at made
      exact made
    | ok _ middle =>
      replace made : Marked way (t.lexical c.root) t middle := by rwa [ran] at made
      have placed : Marked way (middle.lexical c.root) middle _ :=
        place_marked a made.rooted (FileM.isDir_of_ensured solid ran)
          fun name candidate => Naming.isName_candidate digest candidate
      rw [made.lexical] at placed
      exact made.trans placed

/-- A request leaves its marks on the way to the cache and in there. -/
theorem fetch_marked (rooted : t.Rooted) (solid : c.root.text ≠ "") (digest : a.hash.IsDigest)
    (forced : Bool) :
    Marked way (t.lexical c.root) t (left (fetch a forced (c, t))).2 := by
  cases received c a forced with
  | refused shut =>
    rw [fetch_of_sealed shut]
    exact .refl rooted
  | inPlace serving spared =>
    rw [fetch_of_spared serving spared]
    exact .refl rooted
  | known serving needed held =>
    rw [fetch_of_known serving needed held]
    exact .refl rooted
  | busy busy =>
    have locked := lock_marked allowed rooted a
    have same := (lock_grown a c t).1
    rw [fetch_of_busy busy, bind_run]
    cases taken : lock a (c, t) with
    | error e s =>
      rw [taken] at locked
      exact locked
    | ok _ s =>
      obtain ⟨c', middle⟩ := s
      rw [taken] at same
      obtain rfl : c' = c := same
      replace locked : Marked way (t.lexical c'.root) t middle := by rwa [taken] at locked
      have published := publish_marked (a := a) (allowed_later locked allowed) locked.rooted solid
        digest
      rw [locked.lexical] at published
      simp only [bind_run]
      cases ran : publish a (c', middle) with
      | error e s | ok result s =>
        rw [ran] at published
        exact locked.trans published

end Marks

/-- A request keeps a tree in which everything stands in a directory one. -/
theorem rooted_fetch (rooted : t.Rooted) (solid : c.root.text ≠ "") (digest : a.hash.IsDigest)
    (forced : Bool) :
    (left (fetch a forced (c, t))).2.Rooted ∧
      (left (fetch a forced (c, t))).2.workingDir = t.workingDir := by
  have marked : Marked (t.Passes c.root) (t.lexical c.root) t (left (fetch a forced (c, t))).2 :=
    fetch_marked Or.inl rooted solid digest forced
  exact ⟨marked.rooted, marked.workingDir⟩

/-- Requests leave their marks on the way to the cache and in there, whatever they come to. -/
theorem fetchAll_edited {requests : List (Artifact × Bool)}
    (allowed : ∀ {spot}, t.Passes c.root spot → way spot ∨ t.node? spot = some .directory)
    (rooted : t.Rooted) (solid : c.root.text ≠ "")
    (digests : ∀ request ∈ requests, request.1.hash.IsDigest) :
    Marked way (t.lexical c.root) t (left (fetchAll requests (c, t))).2 := by
  induction requests generalizing c t with
  | nil => exact .refl rooted
  | cons request rest ih =>
    obtain ⟨a, forced⟩ := request
    obtain ⟨digest, digests⟩ := List.forall_mem_cons.mp digests
    have marked := fetch_marked allowed rooted solid digest forced
    have root := fetch_root c a forced t
    rw [fetchAll_cons, bind_run]
    cases first : fetch a forced (c, t) with
    | error e s =>
      rw [first] at marked
      exact marked
    | ok entry s =>
      obtain ⟨middle, t₁⟩ := s
      rw [first] at marked root
      replace marked : Marked way (t.lexical c.root) t t₁ := marked
      replace root : middle.root = c.root := root
      have marked' := ih (c := middle) (root ▸ allowed_later marked allowed) marked.rooted
        (root ▸ solid) digests
      rw [root, marked.lexical] at marked'
      simp only [bind_run]
      cases others : fetchAll rest (middle, t₁) with
      | error e s | ok entries s =>
        rw [others] at marked'
        exact marked.trans marked'

/-- A tree shows what a request for an artifact left behind in another one. -/
structure Recalls (root : Path) (a : Artifact) (t u : Tree) : Prop where
  directory : t.isDir root = true → u.isDir root = true
  locks : t.isDir (root / ".locks") = true → u.isDir (root / ".locks") = true
  lock : Leads t u (root / ".locks" / s!"{Naming.stem a.key}.lock")
  name : ∀ name ∈ Naming.candidates a, Leads t u (root / name)
  source : Leads t u a.source

private theorem Recalls.before {root : Path} {new : Location → Node → Prop} (recalls : Recalls root a t' u)
    (grown : Grown new t t') : Recalls root a t u where
  directory there := recalls.directory (grown.isDir there)
  locks there := recalls.locks (grown.isDir there)
  lock _ found := recalls.lock _ (grown.status found)
  name name candidate _ found := recalls.name name candidate _ (grown.status found)
  source _ found := recalls.source _ (grown.status found)

/-- A lock that was taken is there, among the locks. -/
theorem lock_ok {s : Cache × Tree} (ran : lock a (c, t) = .ok () s) :
    s.1 = c ∧ s.2.isDir c.lockDir = true ∧ s.2.isFile (c.lockFile a) = true := by
  rw [lock_run] at ran
  cases made : FileM.makeDirs c.lockDir t with
  | error e middle =>
    rw [made] at ran
    cases ran
  | ok _ middle =>
    simp only [made, Step.files_run] at ran
    cases touched : FileM.touch (c.lockFile a) middle with
    | error e t' =>
      rw [touched] at ran
      cases ran
    | ok _ t' =>
      rw [touched] at ran
      cases ran
      have solid : c.lockDir.text ≠ "" := Path.text_join_ne_empty _ (by decide)
      have directory := ((FileM.makeDirs_secures c.lockDir t).2 middle made).resolve_left
        (by simpa using solid)
      have grown := FileM.touch_grown (c.lockFile a) middle
      rw [touched] at grown
      exact ⟨rfl, grown.isDir directory, FileM.isFile_of_touch touched⟩

/-- A lock that is there is taken again. -/
theorem lock_again (directory : u.isDir c.lockDir = true) (file : u.isFile (c.lockFile a) = true) :
    lock a (c, u) = .ok () (c, u) := by
  rw [lock_run, FileM.makeDirs_of_isDir directory, lockFile]
  simp only [Step.files_run]
  rw [FileM.touch_of_isFile (Naming.isName_lock a.key) file]

/-- An artifact is placed only where it adds to the files. -/
theorem Placed.grown (placed : Placed c a t name copied c' t') (directory : t.isDir c.root = true)
    (named : Path.IsName name) : Grown (fun _ _ => True) t t' := by
  cases copied with
  | true =>
    obtain ⟨bytes, -, -, -, grown⟩ := placed.copy_grown directory named
    exact grown.mono fun _ _ _ => trivial
  | false => cases placed <;> exact .refl _ _

/-- An artifact that was placed has one of the names that were tried. -/
theorem placed_of_place {names : List String}
    (ran : place a names (c, t) = .ok (name, copied) (c', t')) :
    name ∈ names ∧ Placed c a t name copied c' t' := by
  rcases place_cases a names c t with ⟨e, t', failed, -⟩ | ⟨_, member, _, _, _, ran', placed⟩
  · rw [failed] at ran
    cases ran
  · rw [ran'] at ran
    cases ran
    exact ⟨member, placed⟩

/-- A request that stores its artifact takes the lock and publishes the artifact. -/
theorem fetch_stored_ok {s : Cache × Tree} (busy : Busy c a forced)
    (ran : fetch a forced (c, t) = .ok e s) :
    ∃ middle name copied c' t', lock a (c, t) = .ok () (c, middle) ∧
      publish a (c, middle) = .ok (name, copied) (c', t') ∧ e = ⟨name, c.root / name, a, true⟩ ∧
      s = (record a e copied c', t') := by
  rw [fetch_of_busy busy] at ran
  obtain ⟨_, ⟨c₁, middle⟩, locked, ran⟩ := bind_ok ran
  obtain rfl : c₁ = c := (lock_ok locked).1
  obtain ⟨⟨name, copied⟩, ⟨c', t'⟩, published, ran⟩ := bind_ok ran
  cases ran
  exact ⟨middle, name, copied, c', t', locked, published, rfl, rfl⟩

/-- To publish an artifact is to place it in the directory of the cache. -/
theorem publish_ok {result : String × Bool} {s : Cache × Tree}
    (ran : publish a (c, t) = .ok result s) :
    t.isFile a.source = true ∧ ∃ middle, FileM.ensureDir c.root t = .ok () middle ∧
      place a (Naming.candidates a) (c, middle) = .ok result s := by
  cases file : t.isFile a.source with
  | false =>
    rw [publish_of_missing file] at ran
    cases ran
  | true =>
    rw [publish_of_file file] at ran
    cases made : FileM.ensureDir c.root t with
    | error e middle =>
      rw [made] at ran
      cases ran
    | ok _ middle =>
      rw [made] at ran
      exact ⟨rfl, middle, rfl, ran⟩

end RuleDepot.Cache
