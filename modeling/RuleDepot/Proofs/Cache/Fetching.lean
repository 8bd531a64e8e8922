import RuleDepot.Cache.Basic
import RuleDepot.Proofs.Naming
import RuleDepot.Proofs.Tables
/-!
What a request to the cache can do.  Each part of a request has an equation for every way it can go,
and `place_tries_first` and `received` list these ways for a name and for a request.  `fetch_cases` puts
them together: a request is refused, answered without touching the files, fails with nothing but
directories and its lock left behind, or stores an artifact under one of its candidate names.
Everything else about the cache is derived from these equations and cases.
-/

namespace RuleDepot.Cache

open RuleDepot.Tree Running

variable {c c' : Cache} {a : Artifact} {forced copied : Bool} {t t' middle : Tree} {name : String}

/-- The lock of an artifact. -/
def lockFile (c : Cache) (a : Artifact) : Path :=
  c.lockDir / s!"{Naming.stem a.key}.lock"

/-- The growth by directories and the lock of an artifact, which is empty. -/
def LockOnly (c : Cache) (a : Artifact) (t : Tree) (place : Location) (node : Node) : Prop :=
  node = .directory ∨ t.locate (c.lockFile a) = .ok place ∧ node = .file .empty

private theorem grown_lockOnly_of_directories (grown : Grown Directories t t') :
    Grown (c.LockOnly a t') t t' :=
  grown.mono fun _ _ => Or.inl

private theorem lockOnly_trans (locked : Grown (c.LockOnly a middle) t middle)
    (grown : Grown Directories middle t') : Grown (c.LockOnly a t') t t' :=
  (locked.mono fun _ _ => Or.imp_right (And.imp_left grown.locate)).trans
    (grown_lockOnly_of_directories grown)

/-- A lock is a file among the locks, which are made sure of first. -/
theorem lock_run (a : Artifact) (c : Cache) (t : Tree) :
    lock a (c, t) = match FileM.makeDirs c.lockDir t with
      | .error e t' => .error (.io s!"creating lock directory {c.lockDir.text}" e) (c, t')
      | .ok _ t' => Step.files (.io s!"acquiring lock {(c.lockFile a).text}")
          (FileM.touch (c.lockFile a)) (c, t') := by
  rw [lock, Step.part_bind, bind_run, Step.files_run]
  cases FileM.makeDirs c.lockDir t <;> rfl

/-- Taking a lock leaves the cache alone and adds nothing but directories and the lock. -/
theorem lock_grown (a : Artifact) (c : Cache) (t : Tree) :
    (left (lock a (c, t))).1 = c ∧
      Grown (c.LockOnly a (left (lock a (c, t))).2) t (left (lock a (c, t))).2 := by
  rw [lock_run]
  have grown := (FileM.makeDirs_secures c.lockDir t).1
  cases made : FileM.makeDirs c.lockDir t with
  | error e middle =>
    rw [made] at grown
    exact ⟨rfl, grown_lockOnly_of_directories grown⟩
  | ok _ middle =>
    rw [made] at grown
    simp only [Step.files_run]
    change _ ∧ Grown _ t _
    rcases FileM.touch_cases (c.lockFile a) middle with
      ⟨e, failed⟩ | found | ⟨put, absent, before, name, aims⟩
    · rw [failed]
      exact ⟨rfl, grown_lockOnly_of_directories grown⟩
    · rw [found]
      exact ⟨rfl, grown_lockOnly_of_directories grown⟩
    · rw [put]
      have grows : Grown (fun place node => place = middle.lexical (c.lockFile a) ∧
          node = .file .empty) middle (middle.insert (middle.lexical (c.lockFile a)) (.file .empty)) :=
        grown_insert aims.lexical_ne_nil absent ⟨rfl, rfl⟩
      have found := (aims.kept grows).status
        (by rw [grows.lexical]; exact node?_insert_self aims.lexical_ne_nil) (Or.inl rfl)
      have leads := (status_eq_ok_iff.mp found).1
      rw [grows.lexical] at leads
      refine ⟨rfl, (grown.mono fun _ _ => Or.inl).trans (grows.mono ?_)⟩
      rintro place node ⟨rfl, rfl⟩
      exact Or.inr ⟨leads, rfl⟩

section Names

variable (others : List String)

/-- A name that is claimed for the digest of an artifact is given to it again while a file is there. -/
theorem place_of_kept (held : c.claims[name]? = some a.hash)
    (file : t.isFile (c.root / name) = true) :
    place a (name :: others) (c, t) = .ok (name, false) (c, t) := by
  rw [place, Step.part_bind, Step.tree_bind]
  simp only [held, file, decide_true, Bool.and_self, if_true]
  rfl

/-- A name that is claimed for another digest, or is no file any more, is passed over. -/
theorem place_of_foreign {hash : ContentHash} (held : c.claims[name]? = some hash)
    (other : hash ≠ a.hash ∨ t.isFile (c.root / name) = false) :
    place a (name :: others) (c, t) = place a others (c, t) := by
  have refused : (hash = a.hash && t.isFile (c.root / name)) = false := by
    rcases other with other | missing
    · simp [other]
    · simp [missing]
  rw [place, Step.part_bind, Step.tree_bind]
  simp only [held, refused, Bool.false_eq_true, if_false]

/-- What can be reached under a name that is not claimed is compared with the source. -/
theorem place_of_reached (free : c.claims[name]? = none)
    (reached : t.reaches (c.root / name) = true) :
    place a (name :: others) (c, t) = match t.sameContent a.source (c.root / name) with
      | .error e => .error (c.writeFailure a (c.root / name) e) (c, t)
      | .ok false => place a others (c, t)
      | .ok true => .ok (name, false) (claim name a.hash c, t) := by
  rw [place, Step.part_bind, Step.tree_bind]
  simp only [free, reached, if_true]
  cases t.sameContent a.source (c.root / name) with
  | error e => rfl
  | ok alike => cases alike <;> rfl

/-- Where nothing can be reached under a name that is not claimed, the source is copied. -/
theorem place_of_unreached (free : c.claims[name]? = none)
    (unreached : t.reaches (c.root / name) = false) :
    place a (name :: others) (c, t) = match FileM.publishCopy a.source (c.root / name) t with
      | .error e t' => .error (c.writeFailure a (c.root / name) e) (c, t')
      | .ok _ t' => .ok (name, true) (claim name a.hash c, t') := by
  rw [place, Step.part_bind, Step.tree_bind]
  simp only [free, unreached, Bool.false_eq_true, if_false, bind_run, Step.files_run]
  cases FileM.publishCopy a.source (c.root / name) t <;> rfl

end Names

/-- What the first of several names comes to: it is given to the artifact, it is passed over for the
other ones, or the attempt fails. -/
inductive FirstTried (c : Cache) (a : Artifact) (name : String) (others : List String) (t : Tree) :
    EStateM.Result BuildError (Cache × Tree) (String × Bool) → Prop where
  | kept (held : c.claims[name]? = some a.hash) (file : t.isFile (c.root / name) = true) :
      FirstTried c a name others t (.ok (name, false) (c, t))
  | foreign {hash : ContentHash} (held : c.claims[name]? = some hash)
      (other : hash ≠ a.hash ∨ t.isFile (c.root / name) = false) :
      FirstTried c a name others t (place a others (c, t))
  | unreadable {e : IoError} (free : c.claims[name]? = none)
      (reached : t.reaches (c.root / name) = true)
      (compared : t.sameContent a.source (c.root / name) = .error e) :
      FirstTried c a name others t (.error (c.writeFailure a (c.root / name) e) (c, t))
  | different (free : c.claims[name]? = none) (reached : t.reaches (c.root / name) = true)
      (compared : t.sameContent a.source (c.root / name) = .ok false) :
      FirstTried c a name others t (place a others (c, t))
  | alike (free : c.claims[name]? = none) (reached : t.reaches (c.root / name) = true)
      (compared : t.sameContent a.source (c.root / name) = .ok true) :
      FirstTried c a name others t (.ok (name, false) (claim name a.hash c, t))
  | failed {e : IoError} {t' : Tree} (free : c.claims[name]? = none)
      (unreached : t.reaches (c.root / name) = false)
      (ran : FileM.publishCopy a.source (c.root / name) t = .error e t') :
      FirstTried c a name others t (.error (c.writeFailure a (c.root / name) e) (c, t'))
  | copied {n : Nat} {t' : Tree} (free : c.claims[name]? = none)
      (unreached : t.reaches (c.root / name) = false)
      (ran : FileM.publishCopy a.source (c.root / name) t = .ok n t') :
      FirstTried c a name others t (.ok (name, true) (claim name a.hash c, t'))

theorem place_tries_first (a : Artifact) (name : String) (others : List String) (c : Cache) (t : Tree) :
    FirstTried c a name others t (place a (name :: others) (c, t)) := by
  cases held : c.claims[name]? with
  | some hash =>
    by_cases own : hash = a.hash ∧ t.isFile (c.root / name) = true
    · obtain ⟨rfl, file⟩ := own
      rw [place_of_kept others held file]
      exact .kept held file
    · have other : hash ≠ a.hash ∨ t.isFile (c.root / name) = false := by
        simpa only [not_and_or, Bool.not_eq_true] using own
      rw [place_of_foreign others held other]
      exact .foreign held other
  | none =>
    cases reached : t.reaches (c.root / name) with
    | true =>
      rw [place_of_reached others held reached]
      cases compared : t.sameContent a.source (c.root / name) with
      | error e => exact .unreadable held reached compared
      | ok alike =>
        cases alike with
        | false => exact .different held reached compared
        | true => exact .alike held reached compared
    | false =>
      rw [place_of_unreached others held reached]
      cases ran : FileM.publishCopy a.source (c.root / name) t with
      | error e t' => exact .failed held reached ran
      | ok n t' => exact .copied held reached ran

/-- How an artifact comes to be kept under a name: the name was claimed for the same digest before,
a file of the same bytes was there, or the file is copied to where nothing could be reached. -/
inductive Placed (c : Cache) (a : Artifact) (t : Tree) : String → Bool → Cache → Tree → Prop where
  | claimed {name : String} (held : c.claims[name]? = some a.hash)
      (file : t.isFile (c.root / name) = true) : Placed c a t name false c t
  | reused {name : String} (free : c.claims[name]? = none)
      (same : t.sameContent a.source (c.root / name) = .ok true) :
      Placed c a t name false (claim name a.hash c) t
  | copied {name entry : String} {middle : Tree} {bytes : ByteArray} {before : List String}
      (free : c.claims[name]? = none) (unreached : t.reaches (c.root / name) = false)
      (grown : Grown Directories t middle) (read : middle.read a.source = .ok bytes)
      (aims : Aims middle (c.root / name) before entry 0)
      (vacant : middle.node? (middle.lexical (c.root / name)) ≠ some .directory) :
      Placed c a t name true (claim name a.hash c)
        (middle.insert (middle.lexical (c.root / name)) (.file bytes))

/-- Placing an artifact succeeds under one of the names, or fails with the cache as it was and at
most new directories.  The induction is on the names that are left to try. -/
theorem place_cases (a : Artifact) (names : List String) (c : Cache) (t : Tree) :
    (∃ e t', place a names (c, t) = .error e (c, t') ∧ Grown Directories t t') ∨
      ∃ name ∈ names, ∃ copied c' t', place a names (c, t) = .ok (name, copied) (c', t') ∧
        Placed c a t name copied c' t' := by
  induction names with
  | nil => exact Or.inl ⟨_, t, rfl, .refl _ _⟩
  | cons name others ih =>
    have later : (∃ e t', place a others (c, t) = .error e (c, t') ∧ Grown Directories t t') ∨
        ∃ found ∈ name :: others, ∃ copied c' t', place a others (c, t) =
          .ok (found, copied) (c', t') ∧ Placed c a t found copied c' t' :=
      ih.imp_right fun ⟨found, member, rest⟩ => ⟨found, List.mem_cons_of_mem _ member, rest⟩
    have tried := place_tries_first a name others c t
    generalize place a (name :: others) (c, t) = result at tried ⊢
    cases tried with
    | kept held file => exact Or.inr ⟨name, List.mem_cons_self, false, c, t, rfl, .claimed held file⟩
    | foreign | different => exact later
    | unreadable => exact Or.inl ⟨_, t, rfl, .refl _ _⟩
    | alike free _ same => exact Or.inr ⟨name, List.mem_cons_self, false, _, t, rfl, .reused free same⟩
    | failed _ _ ran =>
      obtain ⟨middle, grown, ⟨e, failed⟩ | ⟨_, _, _, _, _, _, copied⟩⟩ :=
        FileM.publishCopy_cases a.source (c.root / name) t
      · rw [failed] at ran
        cases ran
        exact Or.inl ⟨_, _, rfl, grown⟩
      · rw [copied] at ran
        cases ran
    | copied free unreached ran =>
      obtain ⟨middle, grown, ⟨e, failed⟩ | ⟨bytes, before, entry, read, aims, vacant, copied⟩⟩ :=
        FileM.publishCopy_cases a.source (c.root / name) t
      · rw [failed] at ran
        cases ran
      · rw [copied] at ran
        cases ran
        exact Or.inr ⟨name, List.mem_cons_self, true, _, _, rfl,
          .copied free unreached grown read aims vacant⟩

/-- Whether an artifact is to be put into the cache: one from outside always, one of the project
only when a copy is forced. -/
def Needed (a : Artifact) (forced : Bool) : Prop :=
  a.origin = .external ∨ forced = true

/-- Only a file of the project is left where it is. -/
theorem spared_iff : (a.origin = .project && !forced) = true ↔ ¬ Needed a forced := by
  cases origin : a.origin <;> cases forced <;> simp [Needed, origin]

private theorem Needed.unspared (needed : Needed a forced) : (a.origin = .project && !forced) = false :=
  Bool.eq_false_iff.mpr fun spared => spared_iff.mp spared needed

/-- Whether a request makes the cache do anything. -/
def Busy (c : Cache) (a : Artifact) (forced : Bool) : Prop :=
  c.isSealed = false ∧ Needed a forced ∧ c.entries[(⟨a.key, a.hash⟩ : EntryId)]? = none

/-- How a request finds the cache: sealed, with nothing to do for it, with an entry for it, or busy. -/
inductive Received (c : Cache) (a : Artifact) (forced : Bool) : Prop where
  | refused (shut : c.isSealed = true)
  | inPlace (serving : c.isSealed = false) (spared : ¬ Needed a forced)
  | known {entry : CacheEntry} (serving : c.isSealed = false) (needed : Needed a forced)
      (held : c.entries[(⟨a.key, a.hash⟩ : EntryId)]? = some entry)
  | busy (busy : Busy c a forced)

theorem received (c : Cache) (a : Artifact) (forced : Bool) : Received c a forced := by
  cases serving : c.isSealed with
  | true => exact .refused serving
  | false =>
    by_cases needed : Needed a forced
    · cases held : c.entries[(⟨a.key, a.hash⟩ : EntryId)]? with
      | some entry => exact .known serving needed held
      | none => exact .busy ⟨serving, needed, held⟩
    · exact .inPlace serving needed

/-- A sealed cache answers no request. -/
theorem fetch_of_sealed (shut : c.isSealed = true) (a : Artifact) (forced : Bool) (t : Tree) :
    fetch a forced (c, t) = .error
      (.protocolViolation s!"{c.shelf.dirName} cache" s!"'{a.key.text}' requested after finalize")
      (c, t) := by
  rw [fetch, Step.part_bind, shut]
  rfl

/-- An artifact that need not be put into the cache is left where it is. -/
theorem fetch_of_spared (serving : c.isSealed = false) (spared : ¬ Needed a forced) (t : Tree) :
    fetch a forced (c, t) = .ok (.inPlace a) (c, t) := by
  rw [fetch, Step.part_bind]
  simp only [serving, spared_iff.mpr spared, Bool.false_eq_true, if_false, if_true, pure_run]

/-- A request for what has an entry is answered by that. -/
theorem fetch_of_known {entry : CacheEntry} (serving : c.isSealed = false) (needed : Needed a forced)
    (held : c.entries[(⟨a.key, a.hash⟩ : EntryId)]? = some entry) (t : Tree) :
    fetch a forced (c, t) = .ok entry (c, t) := by
  rw [fetch, Step.part_bind]
  simp only [serving, needed.unspared, held, Bool.false_eq_true, if_false, pure_run]

/-- A request that makes the cache do something takes the lock, publishes the artifact and records it. -/
theorem fetch_of_busy (busy : Busy c a forced) (t : Tree) :
    fetch a forced (c, t) = (do
      lock a
      let (name, copied) ← publish a
      let entry : CacheEntry := ⟨name, c.root / name, a, true⟩
      Step.change (record a entry copied)
      return entry : Step Cache CacheEntry) (c, t) := by
  obtain ⟨serving, needed, missing⟩ := busy
  rw [fetch, Step.part_bind]
  simp only [serving, needed.unspared, missing, Bool.false_eq_true, if_false]

/-- What a request can do. -/
inductive Fetched (c : Cache) (a : Artifact) (forced : Bool) (t : Tree) :
    EStateM.Result BuildError (Cache × Tree) CacheEntry → Prop where
  | refused (shut : c.isSealed = true) :
      Fetched c a forced t (.error
        (.protocolViolation s!"{c.shelf.dirName} cache" s!"'{a.key.text}' requested after finalize")
        (c, t))
  | inPlace (serving : c.isSealed = false) (spared : ¬ Needed a forced) :
      Fetched c a forced t (.ok (.inPlace a) (c, t))
  | known {entry : CacheEntry} (serving : c.isSealed = false) (needed : Needed a forced)
      (held : c.entries[(⟨a.key, a.hash⟩ : EntryId)]? = some entry) :
      Fetched c a forced t (.ok entry (c, t))
  | failed {e : BuildError} {t' : Tree} (serving : c.isSealed = false) (needed : Needed a forced)
      (new : c.entries[(⟨a.key, a.hash⟩ : EntryId)]? = none)
      (locked : Grown (c.LockOnly a t') t t') :
      Fetched c a forced t (.error e (c, t'))
  | stored {middle t' : Tree} {name : String} {copied : Bool} {c' : Cache}
      (serving : c.isSealed = false) (needed : Needed a forced)
      (new : c.entries[(⟨a.key, a.hash⟩ : EntryId)]? = none)
      (locked : Grown (c.LockOnly a middle) t middle)
      (root : c.root.text.isEmpty = true ∨ middle.isDir c.root = true)
      (source : middle.isFile a.source = true) (candidate : name ∈ Naming.candidates a)
      (placed : Placed c a middle name copied c' t') :
      Fetched c a forced t (.ok ⟨name, c.root / name, a, true⟩
        (record a ⟨name, c.root / name, a, true⟩ copied c', t'))

/-- An artifact without a file is not published. -/
theorem publish_of_missing (missing : t.isFile a.source = false) :
    publish a (c, t) = .error (.unresolvedDependency a.key.text none) (c, t) := by
  rw [publish, Step.part_bind, Step.tree_bind, missing]
  rfl

/-- To publish an artifact is to place it, once the directory of the cache is made sure of. -/
theorem publish_of_file (file : t.isFile a.source = true) :
    publish a (c, t) = match FileM.ensureDir c.root t with
      | .error e t' => .error (c.writeFailure a c.root e) (c, t')
      | .ok _ t' => place a (Naming.candidates a) (c, t') := by
  rw [publish, Step.part_bind, Step.tree_bind]
  simp only [file, Bool.not_true, Bool.false_eq_true, if_false, bind_run, Step.files_run]
  cases FileM.ensureDir c.root t <;> rfl

private theorem publish_cases (a : Artifact) (c : Cache) (t : Tree) :
    (∃ e t', publish a (c, t) = .error e (c, t') ∧ Grown Directories t t') ∨
      ∃ middle, Grown Directories t middle ∧
        (c.root.text.isEmpty = true ∨ middle.isDir c.root = true) ∧
        middle.isFile a.source = true ∧
        ∃ name ∈ Naming.candidates a, ∃ copied c' t', publish a (c, t) = .ok (name, copied) (c', t') ∧
          Placed c a middle name copied c' t' := by
  cases source : t.isFile a.source with
  | false => exact Or.inl ⟨_, t, publish_of_missing source, .refl _ _⟩
  | true =>
    rw [publish_of_file source]
    have secures := FileM.ensureDir_secures c.root t
    cases made : FileM.ensureDir c.root t with
    | error e middle =>
      rw [made] at secures
      exact Or.inl ⟨_, middle, rfl, secures.1⟩
    | ok _ middle =>
      rw [made] at secures
      rcases place_cases a (Naming.candidates a) c middle with
        ⟨e, t', ran, grown⟩ | ⟨name, candidate, copied, c', t', ran, placed⟩
      · exact Or.inl ⟨e, t', ran, secures.1.trans grown⟩
      · exact Or.inr ⟨middle, secures.1, secures.2 middle rfl, secures.1.isFile source, name,
          candidate, copied, c', t', ran, placed⟩

/-- Every request is one of the listed cases. -/
theorem fetch_cases (c : Cache) (a : Artifact) (forced : Bool) (t : Tree) :
    Fetched c a forced t (fetch a forced (c, t)) := by
  cases received c a forced with
  | refused shut =>
    rw [fetch_of_sealed shut]
    exact .refused shut
  | inPlace serving spared =>
    rw [fetch_of_spared serving spared]
    exact .inPlace serving spared
  | known serving needed held =>
    rw [fetch_of_known serving needed held]
    exact .known serving needed held
  | busy busy =>
    obtain ⟨serving, needed, new⟩ := busy
    rw [fetch_of_busy ⟨serving, needed, new⟩, bind_run]
    obtain ⟨same, locked⟩ := lock_grown a c t
    cases taken : lock a (c, t) with
    | error e s =>
      obtain ⟨c', t'⟩ := s
      rw [taken] at same locked
      obtain rfl : c' = c := same
      exact .failed serving needed new locked
    | ok _ s =>
      obtain ⟨c', middle⟩ := s
      rw [taken] at same locked
      obtain rfl : c' = c := same
      simp only [bind_run]
      rcases publish_cases a c' middle with ⟨e, t', ran, grown⟩ |
        ⟨later, grown, root, source, name, candidate, copied, c'', t', ran, placed⟩
      · simp only [ran]
        exact .failed serving needed new (lockOnly_trans locked grown)
      · simp only [ran]
        exact .stored serving needed new (lockOnly_trans locked grown) root source candidate placed

/-- Every entry is kept under its own coordinate. -/
def Keyed (c : Cache) : Prop :=
  ∀ (id : EntryId) (e : CacheEntry), c.entries[id]? = some e → e.key = id.key

theorem keyed_new (shelf : Shelf) (cacheRoot : Path) (resolver : Resolver) :
    (new shelf cacheRoot resolver).Keyed := by
  intro id e held
  simp [new] at held

theorem Placed.entries_eq (placed : Placed c a t name copied c' t') : c'.entries = c.entries := by
  cases placed <;> rfl

private theorem fetch_key {e : CacheEntry} (keyed : c.Keyed)
    (ran : fetch a forced (c, t) = .ok e (c', t')) : e.key = a.key ∧ c'.Keyed := by
  have listed := fetch_cases c a forced t
  rw [ran] at listed
  cases listed with
  | inPlace => exact ⟨rfl, keyed⟩
  | known _ _ held => exact ⟨keyed _ _ held, keyed⟩
  | stored _ _ _ _ _ _ _ placed =>
    refine ⟨rfl, Table.forall_insert rfl ?_⟩
    rw [placed.entries_eq]
    exact keyed

theorem fetchAll_cons (request : Artifact × Bool) (rest : List (Artifact × Bool)) :
    fetchAll (request :: rest) = (do
      let entry ← fetch request.1 request.2
      let others ← fetchAll rest
      return entry :: others) :=
  List.mapM_cons

/-- What no request changes, several requests do not change. -/
theorem fetchAll_keeps {α : Type} {look : Cache → α}
    (keeps : ∀ c a forced t, look (left (fetch a forced (c, t))).1 = look c) (c : Cache)
    (requests : List (Artifact × Bool)) (t : Tree) :
    look (left (fetchAll requests (c, t))).1 = look c := by
  induction requests generalizing c t with
  | nil => rfl
  | cons request rest ih =>
    have first := keeps c request.1 request.2 t
    rw [fetchAll_cons, bind_run]
    generalize fetch request.1 request.2 (c, t) = result at first ⊢
    cases result with
    | error e s => exact first
    | ok entry s =>
      have later := ih s.1 s.2
      simp only [bind_run]
      generalize fetchAll rest (s.1, s.2) = result at later ⊢
      cases result with
      | error e s' | ok others s' => exact later.trans first

/-- Requests are answered one after another. -/
theorem fetchAll_cons_ok {request : Artifact × Bool} {rest : List (Artifact × Bool)}
    {entries : List CacheEntry} {after : Cache × Tree}
    (ran : fetchAll (request :: rest) (c, t) = .ok entries after) :
    ∃ e middle t'' others, fetch request.1 request.2 (c, t) = .ok e (middle, t'') ∧
      fetchAll rest (middle, t'') = .ok others after ∧ entries = e :: others := by
  rw [fetchAll_cons] at ran
  obtain ⟨e, ⟨middle, t''⟩, first, ran⟩ := bind_ok ran
  obtain ⟨others, last, later, done⟩ := bind_ok ran
  cases done
  exact ⟨e, middle, t'', others, first, later, rfl⟩

/-- Several requests are answered with entries for their coordinates, in order. -/
theorem fetchAll_keys {requests : List (Artifact × Bool)} {entries : List CacheEntry}
    (keyed : c.Keyed) (ran : fetchAll requests (c, t) = .ok entries (c', t')) :
    entries.map CacheEntry.key = requests.map (·.1.key) := by
  induction requests generalizing c t entries with
  | nil =>
    cases ran
    rfl
  | cons request rest ih =>
    obtain ⟨e, middle, t'', others, first, later, rfl⟩ := fetchAll_cons_ok ran
    obtain ⟨own, keyed'⟩ := fetch_key keyed first
    rw [List.map_cons, List.map_cons, own, ih keyed' later]

end RuleDepot.Cache
