import RuleDepot.Proofs.Cache.Fetching
/-!
What a request to the cache leaves alone.  Whatever else is claimed or kept, no file that was there
is changed, and the files that a request adds are its lock and the one copy that it counts.  The
names of copies are names in the directory of the shelf and never those that the cache itself uses.
-/

namespace RuleDepot.Cache

open RuleDepot.Tree Running

variable {c c' : Cache} {a : Artifact} {forced copied : Bool} {t t' middle : Tree} {name : String}
  {place : Location} {node : Node} {bytes : ByteArray}

/-- The caches that requests and sealing lead to, whatever happens to the files in between. -/
inductive Reachable : Cache → Prop where
  | new (shelf : Shelf) (cacheRoot : Path) (resolver : Resolver) :
      Reachable (.new shelf cacheRoot resolver)
  | fetched {c : Cache} (reachable : Reachable c) (a : Artifact) (forced : Bool) (t : Tree) :
      Reachable (left (fetch a forced (c, t))).1
  | shut {c : Cache} (reachable : Reachable c) : Reachable c.sealed

theorem Placed.root_eq (placed : Placed c a t name copied c' t') : c'.root = c.root := by
  cases placed <;> rfl

/-- A request leaves the directory of the cache where it is. -/
theorem fetch_root (c : Cache) (a : Artifact) (forced : Bool) (t : Tree) :
    (left (fetch a forced (c, t))).1.root = c.root := by
  have listed := fetch_cases c a forced t
  generalize fetch a forced (c, t) = result at listed ⊢
  cases listed with
  | stored _ _ _ _ _ _ _ placed => exact placed.root_eq
  | _ => rfl

theorem fetchAll_root (c : Cache) (requests : List (Artifact × Bool)) (t : Tree) :
    (left (fetchAll requests (c, t))).1.root = c.root :=
  fetchAll_keeps fetch_root c requests t

theorem dirName_ne_empty (shelf : Shelf) : shelf.dirName ≠ "" := by
  cases shelf with
  | runtime language => cases language <;> decide
  | extra name => simp [Shelf.dirName, toString]
  | _ => decide

/-- The directory of a cache is never the empty path. -/
theorem Reachable.root_ne_empty (reachable : Reachable c) : c.root.text ≠ "" := by
  induction reachable with
  | new shelf cacheRoot resolver => exact Path.text_join_ne_empty _ (dirName_ne_empty shelf)
  | fetched _ a forced t ih => simpa [fetch_root] using ih
  | shut _ ih => exact ih

/-- The growth by directories and one file of a name in the directory of the cache. -/
def CopyOnly (c : Cache) (name : String) (bytes : ByteArray) (t : Tree) (place : Location)
    (node : Node) : Prop :=
  node = .directory ∨ t.locate (c.root / name) = .ok place ∧ node = .file bytes

/-- A copy puts the bytes of the source where nothing stood and adds nothing else but
directories. -/
theorem Placed.copy_grown (placed : Placed c a t name true c' t') (root : t.isDir c.root = true)
    (named : Path.IsName name) :
    ∃ bytes, t'.read a.source = .ok bytes ∧ t.node? (t.lexical (c.root / name)) = none ∧
      t'.status (c.root / name) = .ok (.file bytes) ∧
      Grown (c.CopyOnly name bytes t') t t' := by
  cases placed with
  | @copied entry middle bytes before free unreached grown read aims vacant =>
    have absent := absent_of_unreached root named aims unreached
    have still : middle.node? (middle.lexical (c.root / name)) = none := by
      cases held : middle.node? (middle.lexical (c.root / name)) with
      | none => rfl
      | some node =>
        have added : node = .directory := grown.fresh held (by rw [grown.lexical]; exact absent)
        exact absurd (added ▸ held) vacant
    have puts : Grown (fun place node => place = middle.lexical (c.root / name) ∧
        node = .file bytes) middle (middle.insert (middle.lexical (c.root / name)) (.file bytes)) :=
      grown_insert aims.lexical_ne_nil still ⟨rfl, rfl⟩
    have found := (aims.kept puts).status
      (by rw [puts.lexical]; exact node?_insert_self aims.lexical_ne_nil) (Or.inl rfl)
    have leads := (status_eq_ok_iff.mp found).1
    rw [puts.lexical] at leads
    refine ⟨bytes, puts.read read, absent, found, (grown.mono fun _ _ => Or.inl).trans (puts.mono ?_)⟩
    rintro place node ⟨rfl, rfl⟩
    exact Or.inr ⟨leads, rfl⟩

/-- A request ends with an entry for a file that it copied. -/
def Copies (c : Cache) (result : EStateM.Result BuildError (Cache × Tree) CacheEntry)
    (e : CacheEntry) : Prop :=
  outcome result = .ok e ∧ e.materialized = true ∧ (left result).1.copies = c.copies + 1

/-- What a request adds that copies its artifact: directories, its lock and the copy, which stands
where nothing stood and holds the bytes of the source. -/
structure Added (c : Cache) (a : Artifact) (name : String) (bytes : ByteArray) (t t' : Tree) :
    Prop where
  grown : Grown (fun place node => c.LockOnly a t' place node ∨ c.CopyOnly name bytes t' place node)
    t t'
  absent : t.node? (t'.lexical (c.root / name)) = none
  status : t'.status (c.root / name) = .ok (.file bytes)
  read : t'.read a.source = .ok bytes

private theorem Placed.added (placed : Placed c a middle name true c' t')
    (locked : Grown (c.LockOnly a middle) t middle) (root : middle.isDir c.root = true)
    (named : Path.IsName name) : ∃ bytes, Added c a name bytes t t' := by
  obtain ⟨bytes, read, vacant, status, grown⟩ := placed.copy_grown root named
  refine ⟨bytes, ?_, ?_, status, read⟩
  · exact (locked.mono fun _ _ only => Or.inl (only.imp_right (And.imp_left grown.locate))).trans
      (grown.mono fun _ _ => Or.inr)
  · cases held : t.node? (t'.lexical (c.root / name)) with
    | none => rfl
    | some node =>
      have kept := locked.kept held
      rw [grown.lexical, vacant] at kept
      cases kept

private theorem lock_of_new (grown : Grown (c.LockOnly a t') t t')
    (held : t'.node? place = some (.file bytes)) (new : t.node? place ≠ some (.file bytes)) :
    t.node? place = none ∧ t'.locate (c.lockFile a) = .ok place ∧ bytes = .empty := by
  have absent := grown.absent_of_new held new
  rcases grown.fresh held absent with directory | ⟨leads, content⟩
  · cases directory
  · cases content
    exact ⟨absent, leads, rfl⟩

namespace Added

variable {bytes' : ByteArray}

private theorem fresh (added : Added c a name bytes t t') (held : t'.node? place = some (.file bytes'))
    (new : t.node? place ≠ some (.file bytes')) :
    t.node? place = none ∧ (t'.locate (c.lockFile a) = .ok place ∧ bytes' = .empty ∨
      t'.locate (c.root / name) = .ok place ∧ bytes' = bytes) := by
  have absent := added.grown.absent_of_new held new
  refine ⟨absent, ?_⟩
  rcases added.grown.fresh held absent with
    (directory | ⟨leads, content⟩) | (directory | ⟨leads, content⟩)
  · cases directory
  · cases content
    exact Or.inl ⟨leads, rfl⟩
  · cases directory
  · cases content
    exact Or.inr ⟨leads, rfl⟩

/-- The copy stands where nothing stood, with the bytes of the source. -/
theorem stands (added : Added c a name bytes t t') :
    ∃ place bytes, t'.locate (c.root / name) = .ok place ∧ t.node? place = none ∧
      t'.node? place = some (.file bytes) ∧ t'.read a.source = .ok bytes := by
  obtain ⟨leads, held⟩ := status_eq_ok_iff.mp added.status
  exact ⟨_, _, leads, added.absent, held, added.read⟩

end Added

/-- A candidate is a single component, and no name that the cache uses for itself. -/
theorem candidate_untaken (digest : a.hash.IsDigest) (candidate : name ∈ Naming.candidates a) :
    (Path.mk name).components = [.name name] ∧ name ≠ ruleFileName ∧ name ≠ ".locks" := by
  obtain ⟨named, dash⟩ := Naming.isName_candidate digest candidate
  have untaken {own : String} (dashless : '-' ∉ own.toList) : name ≠ own :=
    fun same => dashless (same ▸ dash)
  exact ⟨named.components, untaken (by decide), untaken (by decide)⟩

/-- A request adds directories and its lock, and a copy exactly if it counts one. -/
theorem fetch_adds (solid : c.root.text ≠ "") (digest : a.hash.IsDigest) (forced : Bool) (t : Tree) :
    (Grown (c.LockOnly a (left (fetch a forced (c, t))).2) t (left (fetch a forced (c, t))).2 ∧
      (left (fetch a forced (c, t))).1.copies = c.copies) ∨
    ∃ name ∈ Naming.candidates a, ∃ bytes c' t',
      fetch a forced (c, t) = .ok ⟨name, c.root / name, a, true⟩ (c', t') ∧
        c'.copies = c.copies + 1 ∧ Added c a name bytes t t' := by
  have listed := fetch_cases c a forced t
  generalize fetch a forced (c, t) = result at listed ⊢
  cases listed with
  | refused => exact Or.inl ⟨.refl _ _, rfl⟩
  | inPlace => exact Or.inl ⟨.refl _ _, rfl⟩
  | known => exact Or.inl ⟨.refl _ _, rfl⟩
  | failed _ _ _ locked => exact Or.inl ⟨locked, rfl⟩
  | @stored middle t' name copied c' _ _ _ locked root _ candidate placed =>
    cases copied with
    | false => cases placed <;> exact Or.inl ⟨locked, rfl⟩
    | true =>
      have directory : middle.isDir c.root = true :=
        root.resolve_left (by simpa using solid)
      obtain ⟨bytes, added⟩ :=
        placed.added locked directory (Naming.isName_candidate digest candidate).1
      have counted : c'.copies = c.copies := by cases placed; rfl
      exact Or.inr ⟨name, candidate, bytes, _, _, rfl, by simp [record, counted], added⟩

/-- A request that is refused, spared or answered from the entries does not touch the files. -/
theorem fetch_untouched (settled : c.isSealed = true ∨ (a.origin = .project ∧ forced = false) ∨
    (c.entries[(⟨a.key, a.hash⟩ : EntryId)]?).isSome = true) (t : Tree) :
    (left (fetch a forced (c, t))).2 = t := by
  have unsettled (serving : c.isSealed = false) (needed : Needed a forced)
      (new : c.entries[(⟨a.key, a.hash⟩ : EntryId)]? = none) : False := by
    rcases settled with shut | ⟨own, unforced⟩ | held
    · simp [serving] at shut
    · simp [Needed, own, unforced] at needed
    · simp [new] at held
  have listed := fetch_cases c a forced t
  generalize fetch a forced (c, t) = result at listed ⊢
  cases listed with
  | failed serving needed new => exact (unsettled serving needed new).elim
  | stored serving needed new => exact (unsettled serving needed new).elim
  | _ => rfl

/-- **No file is overwritten.**  A request leaves every file as it was, and the only files that it
adds are the empty lock of the artifact and the copy that it counts.  The name of a copy is one of
the candidates, a single component, and no name that the cache uses itself; the copy stands where
nothing stood and holds the bytes of the source.  A request that is refused, spared or answered from
the entries does not touch the tree. -/
theorem fetch_frame (reachable : Reachable c) (digest : a.hash.IsDigest) (forced : Bool) (t : Tree) :
    let result := fetch a forced (c, t)
    let t' := (left result).2
    (∀ place bytes, t.node? place = some (.file bytes) → t'.node? place = some (.file bytes)) ∧
    (∀ place bytes, t'.node? place = some (.file bytes) → t.node? place ≠ some (.file bytes) →
      t.node? place = none ∧
        (t'.locate (c.lockFile a) = .ok place ∧ bytes = .empty ∨
          ∃ e, Copies c result e ∧ t'.locate (c.root / e.fileName) = .ok place ∧
            t'.read a.source = .ok bytes)) ∧
    (∀ e, Copies c result e →
      e.fileName ∈ Naming.candidates a ∧ (Path.mk e.fileName).components = [.name e.fileName] ∧
        e.fileName ≠ ruleFileName ∧ e.fileName ≠ ".locks" ∧ e.path = c.root / e.fileName ∧
        ∃ place bytes, t'.locate (c.root / e.fileName) = .ok place ∧ t.node? place = none ∧
          t'.node? place = some (.file bytes) ∧ t'.read a.source = .ok bytes) ∧
    (c.isSealed = true ∨ (a.origin = .project ∧ forced = false) ∨
        (c.entries[(⟨a.key, a.hash⟩ : EntryId)]?).isSome = true → t' = t) := by
  have untouched := fun settled => @fetch_untouched c a forced settled t
  have adds := fetch_adds reachable.root_ne_empty digest forced t
  generalize fetch a forced (c, t) = result at adds untouched
  rcases adds with ⟨grown, uncounted⟩ | ⟨name, candidate, bytes, c', after, ran, counted, added⟩
  · have uncopied (e : CacheEntry) : ¬ Copies c result e := fun copies => by
      simpa [uncounted] using copies.2.2
    refine ⟨fun _ _ => grown.kept, fun place bytes held new => ?_,
      fun e copies => (uncopied e copies).elim, untouched⟩
    obtain ⟨absent, locked⟩ := lock_of_new grown held new
    exact ⟨absent, Or.inl locked⟩
  · have same : (left result).2 = after := by rw [ran]; rfl
    have copies : Copies c result ⟨name, c.root / name, a, true⟩ := by
      rw [ran]
      exact ⟨rfl, rfl, counted⟩
    rw [← same] at added
    refine ⟨fun _ _ => added.grown.kept, fun place bytes' held new => ?_, fun e copied => ?_,
      untouched⟩
    · obtain ⟨absent, locked | ⟨leads, content⟩⟩ := added.fresh held new
      · exact ⟨absent, Or.inl locked⟩
      · exact ⟨absent, Or.inr ⟨_, copies, leads, content ▸ added.read⟩⟩
    · obtain rfl : e = ⟨name, c.root / name, a, true⟩ :=
        Except.ok.inj (copied.1.symm.trans copies.1)
      obtain ⟨single, rules, locks⟩ := candidate_untaken digest candidate
      exact ⟨candidate, single, rules, locks, rfl, added.stands⟩

/-- A jar outside the workspace, and nothing else. -/
def jarTree : Tree :=
  Tree.empty.insert ["x.jar"] (.file .empty)

/-- The shelf for external artifacts before anything is asked of it. -/
def jarCache : Cache :=
  .new .external ⟨"/cache"⟩ ⟨∅, [], .content, ⟨"/workspace"⟩⟩

/-- The jar, under a coordinate. -/
def jarArtifact : Artifact :=
  { Naming.dashedVersion with source := ⟨"/x.jar"⟩ }

theorem fetch_frame_of_jar :
    let result := fetch jarArtifact false (jarCache, jarTree)
    (left result).1.copies = 1 ∧ (left result).2.node? ["x.jar"] = some (.file .empty) ∧
      jarTree.node? ["cache", "external", "a.b-1-0.jar"] = none ∧
      ∃ e, Copies jarCache result e ∧
        (left result).2.locate (jarCache.root / e.fileName) =
          .ok ["cache", "external", "a.b-1-0.jar"] := by
  obtain ⟨kept, fresh, -⟩ :=
    @fetch_frame jarCache jarArtifact (.new _ _ _) (ContentHash.isDigest_sha256 _) false jarTree
  obtain ⟨absent, locked | ⟨e, copies, leads, -⟩⟩ :=
    fresh ["cache", "external", "a.b-1-0.jar"] .empty (by decide +kernel) (by decide +kernel)
  · exact absurd (locate_lexical locked.1) (by decide +kernel)
  · exact ⟨by decide +kernel, kept _ _ (by decide +kernel), absent, e, copies, leads⟩

end RuleDepot.Cache
