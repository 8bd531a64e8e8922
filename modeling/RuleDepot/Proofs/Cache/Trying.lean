import RuleDepot.Proofs.Cache.Accounting
import RuleDepot.Proofs.Cache.Adding
/-!
How a request comes to a name.  It opens the directory of the cache, in which nothing but that of the locks
is made, and tries its names in order.  A name is passed over that was claimed for other contents or under
which others stand; the first that is not passed over decides.  When all are passed over, the request fails
for that.
-/

namespace RuleDepot.Cache

open RuleDepot.Tree Running

variable {c : Cache} {a : Artifact} {forced : Bool} {t t' t'' : Tree} {root : Path} {name : String}
  {names : List String} {bytes : ByteArray}

/-- The failure of a request for which no name is left. -/
def exhausted (c : Cache) (a : Artifact) : BuildError :=
  c.writeFailure a c.root
    ⟨.alreadyExists, s!"every candidate name for {a.key.text} holds different content"⟩

/-- A name that an artifact does not get: it was claimed for other contents, or others stand there. -/
def Passed (c : Cache) (a : Artifact) (t : Tree) (name : String) : Prop :=
  (∃ hash, c.claims[name]? = some hash ∧ (hash ≠ a.hash ∨ t.isFile (c.root / name) = false)) ∨
    t.reaches (c.root / name) = true ∧ t.sameContent a.source (c.root / name) = .ok false

/-- How an artifact gets a name: it was claimed for the same digest before, a file was there that is like
the source, or the bytes of the source are put where nothing stood. -/
inductive Settled (c : Cache) (a : Artifact) (t : Tree) (name : String) : Cache → Tree → Prop where
  | claimed (held : c.claims[name]? = some a.hash) : Settled c a t name c t
  | found {bytes held : ByteArray} (source : t.read a.source = .ok bytes)
      (read : t.read (c.root / name) = .ok held) (alike : Digest.Alike bytes held) :
      Settled c a t name (claim name a.hash c) t
  | put {bytes : ByteArray} (source : t.read a.source = .ok bytes)
      (absent : t.node? (t.lexical c.root ++ [name]) = none)
      (read : (t.insert (t.lexical c.root ++ [name]) (.file bytes)).read (c.root / name) = .ok bytes) :
      Settled c a t name (claim name a.hash c) (t.insert (t.lexical c.root ++ [name]) (.file bytes))

private theorem put_of_publishCopy (source : Path) (directory : t.isDir root = true)
    (named : Path.IsName name)
    (unreached : t.reaches (root / name) = false) :
    (∃ e, FileM.publishCopy source (root / name) t = .error e t) ∨
      ∃ bytes, t.read source = .ok bytes ∧ t.node? (t.lexical root ++ [name]) = none ∧
        (t.insert (t.lexical root ++ [name]) (.file bytes)).read (root / name) = .ok bytes ∧
        FileM.publishCopy source (root / name) t =
          .ok bytes.size (t.insert (t.lexical root ++ [name]) (.file bytes)) := by
  refine (FileM.publishCopy_in source (isDir_stagingDir_join directory named)).imp_right ?_
  rintro ⟨bytes, before, last, read, aims, -, copied⟩
  have absent := absent_of_unreached directory named aims unreached
  have put : Grown (fun _ _ => True) t (t.insert (t.lexical (root / name)) (.file bytes)) :=
    grown_insert aims.lexical_ne_nil absent trivial
  have found := (aims.kept put).status
    (by rw [put.lexical]; exact node?_insert_self aims.lexical_ne_nil) (Or.inl rfl)
  rw [← lexical_join t named]
  exact ⟨bytes, read, absent, read_eq_ok_iff.mpr found, copied⟩

private theorem place_first (a : Artifact) (directory : t.isDir c.root = true) (named : Path.IsName name)
    (others : List String) :
    Passed c a t name ∧ place a (name :: others) (c, t) = place a others (c, t) ∨
      (∃ e, place a (name :: others) (c, t) = .error (c.writeFailure a (c.root / name) e) (c, t)) ∨
      ∃ copied c' t', place a (name :: others) (c, t) = .ok (name, copied) (c', t') ∧
        Settled c a t name c' t' := by
  have tried := place_tries_first a name others c t
  generalize place a (name :: others) (c, t) = result at tried ⊢
  cases tried with
  | kept held => exact Or.inr (Or.inr ⟨false, c, t, rfl, .claimed held⟩)
  | foreign held other => exact Or.inl ⟨Or.inl ⟨_, held, other⟩, rfl⟩
  | unreadable => exact Or.inr (Or.inl ⟨_, rfl⟩)
  | different _ reached compared => exact Or.inl ⟨Or.inr ⟨reached, compared⟩, rfl⟩
  | alike _ _ compared =>
    obtain ⟨bytes, held, source, read, alike⟩ := alike_of_sameContent compared
    exact Or.inr (Or.inr ⟨false, _, t, rfl, .found source read alike⟩)
  | failed _ unreached ran =>
    rcases put_of_publishCopy a.source directory named unreached with
      ⟨e, failed⟩ | ⟨_, _, _, _, copied⟩
    · rw [failed] at ran
      cases ran
      exact Or.inr (Or.inl ⟨_, rfl⟩)
    · rw [copied] at ran
      cases ran
  | copied _ unreached ran =>
    rcases put_of_publishCopy a.source directory named unreached with
      ⟨e, failed⟩ | ⟨bytes, source, absent, read, copied⟩
    · rw [failed] at ran
      cases ran
    · rw [copied] at ran
      cases ran
      exact Or.inr (Or.inr ⟨true, _, _, rfl, .put source absent read⟩)

/-- Where the directory is, to publish an artifact is to try its names. -/
theorem publish_of_isDir (directory : t.isDir c.root = true) :
    publish a (c, t) = if t.isFile a.source then place a (Naming.candidates a) (c, t)
      else .error (.unresolvedDependency a.key.text none) (c, t) := by
  cases file : t.isFile a.source with
  | false => rw [publish_of_missing file, if_neg Bool.false_ne_true]
  | true => rw [publish_of_file file, FileM.ensureDir_of_isDir directory, if_pos rfl]

/-- What comes of trying names: all are passed over, one of them fails, or the artifact gets the first that
is not passed over. -/
inductive Tried (c : Cache) (a : Artifact) (t : Tree) (names : List String) :
    EStateM.Result BuildError (Cache × Tree) (String × Bool) → Prop where
  | exhausted (passed : ∀ name ∈ names, Passed c a t name) :
      Tried c a t names (.error (exhausted c a) (c, t))
  | failed {name : String} (member : name ∈ names) (e : IoError) :
      Tried c a t names (.error (c.writeFailure a (c.root / name) e) (c, t))
  | settled {before later : List String} {name : String} {copied : Bool} {c' : Cache} {t' : Tree}
      (split : names = before ++ name :: later) (passed : ∀ other ∈ before, Passed c a t other)
      (settled : Settled c a t name c' t') : Tried c a t names (.ok (name, copied) (c', t'))

private theorem place_tried (directory : t.isDir c.root = true) (named : ∀ name ∈ names, Path.IsName name) :
    Tried c a t names (place a names (c, t)) := by
  induction names with
  | nil => exact .exhausted nofun
  | cons name others ih =>
    obtain ⟨first, named⟩ := List.forall_mem_cons.mp named
    rcases place_first a directory first others with
      ⟨skipped, ran⟩ | ⟨e, ran⟩ | ⟨copied, c', t', ran, settled⟩
    · rw [ran]
      have later := ih named
      generalize place a others (c, t) = result at later
      cases later with
      | exhausted passed => exact .exhausted (List.forall_mem_cons.mpr ⟨skipped, passed⟩)
      | failed member e => exact .failed (List.mem_cons_of_mem _ member) e
      | settled split passed settled =>
        exact .settled (congrArg (name :: ·) split) (List.forall_mem_cons.mpr ⟨skipped, passed⟩) settled
    · rw [ran]
      exact .failed List.mem_cons_self e
    · rw [ran]
      have split : name :: others = [] ++ name :: others := rfl
      exact .settled split nofun settled

/-- Two trees with the same under all names in a directory, but for that of the locks. -/
structure SameNames (root : Path) (t t' : Tree) : Prop where
  workingDir : t'.workingDir = t.workingDir
  rooted : t.isDir root = true → t'.isDir root = true
  held : ∀ name, name ≠ ".locks" →
    t'.node? (t.lexical root ++ [name]) = t.node? (t.lexical root ++ [name])

namespace SameNames

theorem refl (root : Path) (t : Tree) : SameNames root t t :=
  ⟨rfl, id, fun _ _ => rfl⟩

theorem lexical (same : SameNames root t t') : t'.lexical root = t.lexical root :=
  lexical_congr same.workingDir root

theorem trans (first : SameNames root t t') (second : SameNames root t' t'') :
    SameNames root t t'' where
  workingDir := second.workingDir.trans first.workingDir
  rooted directory := second.rooted (first.rooted directory)
  held name other := by
    rw [← first.held name other, ← first.lexical]
    exact second.held name other

theorem of_undisturbed (undisturbed : Undisturbed root t t') : SameNames root t t' where
  workingDir := undisturbed.workingDir
  rooted := undisturbed.rooted
  held name _ := undisturbed.below name []

/-- A file that is read under a name is read there still. -/
theorem read (same : SameNames root t t') (solid : root.text ≠ "") (named : Path.IsName name)
    (other : name ≠ ".locks") (read : t.read (root / name) = .ok bytes) :
    t'.read (root / name) = .ok bytes := by
  have found := read_eq_ok_iff.mp read
  have directory := isDir_of_join solid named found
  obtain ⟨fits, short, held⟩ := (status_join_iff directory named).mp found
  rw [← same.held name other, ← same.lexical] at held
  exact read_eq_ok_iff.mpr
    ((status_join_iff (same.rooted directory) named).mpr ⟨fits, short, held⟩)

end SameNames

/-- The way to a directory does not make detours through what is directly in it. -/
def Straight (t : Tree) (root : Path) : Prop :=
  ∀ name, ¬ t.Passes root (t.lexical root ++ [name])

theorem Straight.congr (straight : Straight t root) (same : t'.workingDir = t.workingDir) :
    Straight t' root := fun name passes => by
  rw [lexical_congr same root, passes_congr same] at passes
  exact straight name passes

/-- A tree to which nothing was added that is directly in a directory, but for that of the locks. -/
structure Prepared (root : Path) (t t' : Tree) : Prop where
  same : SameNames root t t'
  rooted : t'.Rooted
  grown : Grown (fun _ _ => True) t t'

theorem Prepared.refl (root : Path) (rooted : t.Rooted) : Prepared root t t :=
  ⟨.refl root t, rooted, .refl _ t⟩

theorem Prepared.trans (first : Prepared root t t') (second : Prepared root t' t'') :
    Prepared root t t'' :=
  ⟨first.same.trans second.same, second.rooted, first.grown.trans second.grown⟩

/-- To make the directory of the locks makes nothing else in the directory of the cache. -/
theorem prepared_makeDirs (rooted : t.Rooted) (straight : Straight t c.root) :
    Prepared c.root t (left (FileM.makeDirs c.lockDir t)) := by
  have edited := FileM.makeDirs_edited c.lockDir rooted
  have grown := (FileM.makeDirs_secures c.lockDir t).1
  refine ⟨⟨edited.workingDir, grown.isDir, fun name other => ?_⟩, edited.rooted,
    grown.mono fun _ _ _ => trivial⟩
  refine (edited.elsewhere id).resolve_right ?_
  rintro ⟨passes, -⟩
  rcases passes_join isName_locks passes with passes | same
  · exact straight name passes
  · exact other (by simpa using same)

/-- The lock of an artifact is not directly in the directory of the cache. -/
theorem prepared_touch (rooted : t.Rooted) (c : Cache) (a : Artifact) :
    Prepared c.root t (left (FileM.touch (c.lockFile a) t)) := by
  have grown : Grown (Files (· = t.lexical (c.lockFile a))) t (left (FileM.touch (c.lockFile a) t)) :=
    grown_touch (.refl _ t) rfl
  have edited : Edited (fun _ => False) (· = t.lexical (c.lockFile a)) t
      (left (FileM.touch (c.lockFile a) t)) := FileM.touch_edited rooted rfl
  refine ⟨⟨grown.workingDir, grown.isDir, fun name _ => grown.unmoved ?_⟩, edited.rooted,
    grown.mono fun _ _ _ => trivial⟩
  rw [lockFile, lexical_join t (Naming.isName_lock a.key), lockDir, lexical_join t isName_locks]
  simp

/-- What comes of a request as far as names matter: it has nothing to do with them, or no name is left for
it, or it gets one. -/
inductive Named (c : Cache) (a : Artifact) (t : Tree) :
    EStateM.Result BuildError (Cache × Tree) CacheEntry → Prop where
  | other {result : EStateM.Result BuildError (Cache × Tree) CacheEntry} {t' : Tree}
      (leaves : left result = (c, t')) (reason : outcome result ≠ .error (exhausted c a))
      (prepared : Prepared c.root t t') : Named c a t result
  | exhausted {middle : Tree} (opened : Prepared c.root t middle) (directory : middle.isDir c.root = true)
      (passed : ∀ name ∈ Naming.candidates a, Passed c a middle name) :
      Named c a t (.error (exhausted c a) (c, middle))
  | settled {middle t' : Tree} {before later : List String} {name : String} {copied : Bool} {c' : Cache}
      (opened : Prepared c.root t middle) (directory : middle.isDir c.root = true)
      (split : Naming.candidates a = before ++ name :: later)
      (passed : ∀ other ∈ before, Passed c a middle other) (settled : Settled c a middle name c' t') :
      Named c a t (.ok ⟨name, c.root / name, a, true⟩
        (record a ⟨name, c.root / name, a, true⟩ copied c', t'))

private theorem named_of_opened {middle : Tree} (opened : Prepared c.root t middle)
    (directory : middle.isDir c.root = true) (digest : a.hash.IsDigest) :
    Named c a t ((do
      let (name, copied) ← place a (Naming.candidates a)
      let entry : CacheEntry := ⟨name, c.root / name, a, true⟩
      Step.change (record a entry copied)
      return entry : Step Cache CacheEntry) (c, middle)) := by
  have tried := place_tried (a := a) directory
    fun name candidate => (Naming.isName_candidate digest candidate).1
  rw [bind_run]
  generalize place a (Naming.candidates a) (c, middle) = result at tried
  cases tried with
  | exhausted passed => exact .exhausted opened directory passed
  | @failed name member e =>
    refine .other rfl (fun same => ?_) opened
    -- The failure tells of the name, which is not the directory.
    have roots : c.root / name = c.root := by
      have told := Except.error.inj same
      simp only [Cache.writeFailure, Cache.exhausted, BuildError.cacheWriteFailure.injEq] at told
      exact told.2.2.1
    have named := (Naming.isName_candidate digest member).1
    have places := congrArg middle.lexical roots
    rw [lexical_join middle named] at places
    simp at places
  | settled split passed settled => exact .settled opened directory split passed settled

/-- Every request is one of the listed cases. -/
theorem fetch_named (rooted : t.Rooted) (straight : Straight t c.root) (solid : c.root.text ≠ "")
    (digest : a.hash.IsDigest) (forced : Bool) : Named c a t (fetch a forced (c, t)) := by
  by_cases busy : Busy c a forced
  · have prepared := prepared_makeDirs rooted straight
    cases made : FileM.makeDirs c.lockDir t with
    | error e base =>
      rw [made] at prepared
      rw [fetch_barred made busy]
      exact .other rfl nofun prepared
    | ok _ base =>
      rw [made] at prepared
      replace prepared : Prepared c.root t base := prepared
      have locks := locks_of_made made
      have touched := prepared_touch prepared.rooted c a
      rw [fetch_from_locks made busy, fetch_of_busy busy, bind_run, lock_of_locks locks, Step.files_run]
      cases ran : FileM.touch (c.lockFile a) base with
      | error e t' =>
        rw [ran] at touched
        exact .other rfl nofun (prepared.trans touched)
      | ok _ middle =>
        rw [ran] at touched
        have opened : Prepared c.root t middle := prepared.trans touched
        have directory : middle.isDir c.root = true := isDir_of_locks solid (touched.grown.isDir locks)
        have tried := named_of_opened opened directory digest
        change Named c a t ((publish a >>= _) (c, middle))
        rw [bind_run, publish_of_isDir directory]
        cases file : middle.isFile a.source with
        | false => exact .other rfl nofun opened
        | true => exact tried
  · refine .other (left_of_idle busy t) ?_ (.refl _ rooted)
    have listed := fetch_cases c a forced t
    generalize fetch a forced (c, t) = result at listed
    cases listed with
    | refused | inPlace | known => exact nofun
    | failed serving needed new => exact absurd ⟨serving, needed, new⟩ busy
    | stored serving needed new => exact absurd ⟨serving, needed, new⟩ busy

end RuleDepot.Cache
