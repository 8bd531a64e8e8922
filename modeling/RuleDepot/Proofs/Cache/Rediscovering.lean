import Mathlib.Data.List.Forall2
import RuleDepot.Proofs.Cache.Repeating
/-!
Artifacts that are found again.  A later cache knows nothing of what an earlier one was asked for; all
that it has are the files.  They are enough: an artifact stands behind candidate names that hold other
contents, and whoever tries the names in order stops where a comparison finds its bytes.  Neither the order of the
requests nor how often they are made matters, as long as artifacts of one coordinate and digest have one
extension.  Where they do not, the extension that is asked for first names the file for both.
-/

namespace RuleDepot.Cache

open RuleDepot.Tree Running

variable {c c' : Cache} {a b : Artifact} {forced copied : Bool} {t t' u : Tree} {name name' : String}
  {names : List String} {root : Path} {e : CacheEntry} {allowed : Location → Node → Prop}
  {requests asked : List (Artifact × Bool)}

/-- The name under which an artifact is found by a look at the files alone: what it holds is like the
source, and what every name that is tried before it holds is not. -/
inductive Found (root : Path) (t : Tree) (a : Artifact) : List String → String → Prop where
  | here {name : String} {others : List String} {bytes found : ByteArray}
      (source : t.read a.source = .ok bytes) (held : t.read (root / name) = .ok found)
      (alike : Digest.Alike bytes found) : Found root t a (name :: others) name
  | later {first name : String} {others : List String}
      (differs : t.sameContent a.source (root / first) = .ok false)
      (found : Found root t a others name) : Found root t a (first :: others) name

/-- Growth leads to the same. -/
theorem leads_of_grown (grown : Grown allowed t t') (p : Path) : Leads t t' p :=
  fun _ => grown.status

namespace Found

private theorem grown (found : Found root t a names name) (grown : Grown allowed t t') :
    Found root t' a names name := by
  induction found with
  | here source held alike => exact .here (grown.read source) (grown.read held) alike
  | later differs _ ih =>
    exact .later ((leads_of_grown grown _).sameContent (leads_of_grown grown _) differs) ih

private theorem holds (found : Found root t a names name) :
    ∃ bytes held, t.read a.source = .ok bytes ∧ t.read (root / name) = .ok held ∧
      Digest.Alike bytes held := by
  induction found with
  | here source held alike => exact ⟨_, _, source, held, alike⟩
  | later _ _ ih => exact ih

private theorem unique (found : Found root t a names name) (found' : Found root t a names name') :
    name = name' := by
  induction found with
  | here source held alike =>
    cases found' with
    | here => rfl
    | later differs => exact absurd alike (not_alike_of_sameContent differs source held)
  | later differs _ ih =>
    cases found' with
    | here source held alike => exact absurd alike (not_alike_of_sameContent differs source held)
    | later _ found' => exact ih found'

/-- Sources of the same bytes are found under the same name. -/
theorem congr {bytes : ByteArray} (found : Found root t a names name)
    (read : t.read a.source = .ok bytes) (read' : t.read b.source = .ok bytes) :
    Found root t b names name := by
  have status : t.status b.source = t.status a.source := by
    rw [read_eq_ok_iff.mp read, read_eq_ok_iff.mp read']
  induction found with
  | here source held alike =>
    refine .here ?_ held alike
    rw [read', ← read, source]
  | later differs _ ih =>
    refine .later ?_ ih
    rw [← differs]
    simp only [sameContent, Tree.size, Tree.sha256, Tree.read, status]

end Found

/-- The sources of artifacts are there with their digests, and no two contents among them have one
digest. -/
structure Sourced (requests : List (Artifact × Bool)) (t : Tree) : Prop where
  held : ∀ r ∈ requests, ∃ bytes, t.read r.1.source = .ok bytes ∧
    Digest.sha256Hex bytes = r.1.hash.digits
  collisionFree : ∀ r ∈ requests, ∀ r' ∈ requests, ∀ bytes bytes',
    t.read r.1.source = .ok bytes → t.read r'.1.source = .ok bytes' →
      Digest.sha256Hex bytes = Digest.sha256Hex bytes' → bytes = bytes'

/-- Artifacts of one coordinate and digest have one extension. -/
def Uniform (requests : List (Artifact × Bool)) : Prop :=
  ∀ r ∈ requests, ∀ r' ∈ requests, r.1.key = r'.1.key → r.1.hash = r'.1.hash →
    r.1.extension = r'.1.extension

namespace Sourced

variable {r r' : Artifact × Bool} {bytes bytes' : ByteArray}

private theorem grown (sourced : Sourced requests t) (grown : Grown allowed t t') :
    Sourced requests t' where
  held r member := by
    obtain ⟨bytes, read, digest⟩ := sourced.held r member
    exact ⟨bytes, grown.read read, digest⟩
  collisionFree r member r' member' bytes bytes' read read' same := by
    obtain ⟨former, held, -⟩ := sourced.held r member
    obtain ⟨former', held', -⟩ := sourced.held r' member'
    obtain rfl : former = bytes := Except.ok.inj ((grown.read held).symm.trans read)
    obtain rfl : former' = bytes' := Except.ok.inj ((grown.read held').symm.trans read')
    exact sourced.collisionFree r member r' member' _ _ held held' same

private theorem isDigest (sourced : Sourced requests t) (member : r ∈ requests) : r.1.hash.IsDigest := by
  obtain ⟨bytes, -, digest⟩ := sourced.held r member
  have taken := ContentHash.isDigest_sha256 bytes
  rwa [digest] at taken

/-- Artifacts have one digest exactly if their sources have the same bytes. -/
theorem hash_eq_iff (sourced : Sourced requests t) (member : r ∈ requests) (member' : r' ∈ requests)
    (read : t.read r.1.source = .ok bytes) (read' : t.read r'.1.source = .ok bytes') :
    r.1.hash = r'.1.hash ↔ bytes = bytes' := by
  obtain ⟨own, held, digest⟩ := sourced.held r member
  obtain ⟨own', held', digest'⟩ := sourced.held r' member'
  obtain rfl : own = bytes := Except.ok.inj (held.symm.trans read)
  obtain rfl : own' = bytes' := Except.ok.inj (held'.symm.trans read')
  constructor
  · intro same
    refine sourced.collisionFree r member r' member' _ _ read read' ?_
    rw [digest, digest', same]
  · rintro rfl
    have digits : r.1.hash.digits = r'.1.hash.digits := digest.symm.trans digest'
    cases hash : r.1.hash
    cases hash' : r'.1.hash
    simpa [hash, hash'] using digits

end Sourced

/-- Every name was claimed for the digest of an artifact, and what it holds is like the source of that. -/
def Attested (requests : List (Artifact × Bool)) (c : Cache) (t : Tree) : Prop :=
  ∀ (name : String) (hash : ContentHash), c.claims[name]? = some hash →
    ∃ r ∈ requests, r.1.hash = hash ∧ ∃ bytes held, t.read r.1.source = .ok bytes ∧
      t.read (c.root / name) = .ok held ∧ Digest.Alike bytes held

namespace Attested

private theorem grown (attested : Attested requests c t) (grown : Grown allowed t t') :
    Attested requests c t' := by
  intro name hash claimed
  obtain ⟨r, member, own, bytes, held, read, stands, alike⟩ := attested name hash claimed
  exact ⟨r, member, own, bytes, held, grown.read read, grown.read stands, alike⟩

private theorem claim (attested : Attested requests c t) (member : (a, forced) ∈ requests)
    (found : Found c.root t a names name) : Attested requests (Cache.claim name a.hash c) t := by
  refine Table.forall_insert ?_ attested
  exact ⟨_, member, rfl, found.holds⟩

/-- What a name holds that was claimed for the digest of an artifact is like the source of that, and what
it holds if it was claimed for another digest is not. -/
theorem claimed_for {hash : ContentHash} {bytes bytes' : ByteArray} (attested : Attested requests c t)
    (sourced : Sourced requests t) (member : (a, forced) ∈ requests)
    (claimed : c.claims[name]? = some hash) (read : t.read a.source = .ok bytes)
    (held : t.read (c.root / name) = .ok bytes') : hash = a.hash ↔ Digest.Alike bytes bytes' := by
  obtain ⟨r, member', rfl, other, found, read', held', alike⟩ := attested name hash claimed
  obtain rfl : found = bytes' := Except.ok.inj (held'.symm.trans held)
  rw [sourced.hash_eq_iff member' member read' read]
  constructor
  · rintro rfl
    exact alike
  · intro own
    exact sourced.collisionFree r member' _ member _ _ read' read (alike.trans own.symm).digest

end Attested

/-- An artifact that was placed is found where it was placed.  The induction is on the names that are
left to try: one that is passed over holds other contents, also if that was only told by a claim. -/
theorem found_of_place (sourced : Sourced requests t) (attested : Attested requests c t)
    (member : (a, forced) ∈ requests) (directory : t.isDir c.root = true)
    (good : ∀ name ∈ names, Path.IsName name)
    (ran : place a names (c, t) = .ok (name, copied) (c', t')) : Found c.root t' a names name := by
  obtain ⟨inside, placed⟩ := placed_of_place ran
  have named := good name inside
  clear inside
  have grown := placed.grown directory named
  obtain ⟨bytes, read, -⟩ := sourced.held _ member
  induction names with
  | nil => cases ran
  | cons first others ih =>
    obtain ⟨-, good⟩ := List.forall_mem_cons.mp good
    have passed (differs : t.sameContent a.source (c.root / first) = .ok false)
        (ran : place a others (c, t) = .ok (name, copied) (c', t')) :
        Found c.root t' a (first :: others) name :=
      .later ((leads_of_grown grown _).sameContent (leads_of_grown grown _) differs) (ih good ran)
    have tried := place_tries_first a first others c t
    rw [ran] at tried
    generalize same : EStateM.Result.ok (name, copied) (c', t') = result at tried
    cases tried with
    | kept claimed file =>
      cases same
      obtain ⟨_, -, -, _, _, -, held, -⟩ := attested _ _ claimed
      exact .here read held ((attested.claimed_for sourced member claimed read held).mp rfl)
    | foreign claimed other =>
      obtain ⟨_, -, -, _, bytes', -, held, -⟩ := attested _ _ claimed
      have file : t.isFile (c.root / first) = true :=
        isFile_iff.mpr ⟨bytes', read_eq_ok_iff.mp held⟩
      have told := attested.claimed_for sourced member claimed read held
      have differ : ¬ Digest.Alike bytes bytes' := fun alike =>
        other.resolve_right (by simp [file]) (told.mpr alike)
      refine passed ?_ same.symm
      rw [sameContent_of_read read held, decide_eq_false differ]
    | unreadable => cases same
    | different _ _ compared => exact passed compared same.symm
    | alike _ _ compared =>
      cases same
      obtain ⟨_, _, source, held, alike⟩ := alike_of_sameContent compared
      exact .here source held alike
    | failed => cases same
    | copied =>
      cases same
      obtain ⟨_, source, -, status, -⟩ := placed.copy_grown directory named
      exact .here source (read_eq_ok_iff.mpr status) (.refl _)

/-- An artifact that is found is placed where it is found, and not copied. -/
theorem place_of_found (sourced : Sourced requests t) (attested : Attested requests c t)
    (member : (a, forced) ∈ requests) (found : Found c.root t a names name) :
    ∃ c', place a names (c, t) = .ok (name, false) (c', t) ∧ (c' = c ∨ c' = claim name a.hash c) := by
  obtain ⟨bytes, read, -⟩ := sourced.held _ member
  induction found with
  | @here name others bytes' found source held alike =>
    obtain rfl : bytes' = bytes := Except.ok.inj (source.symm.trans read)
    have status := read_eq_ok_iff.mp held
    cases claimed : c.claims[name]? with
    | some hash =>
      obtain rfl : hash = a.hash := (attested.claimed_for sourced member claimed read held).mpr alike
      exact ⟨c, place_of_kept others claimed (isFile_iff.mpr ⟨_, status⟩), Or.inl rfl⟩
    | none =>
      rw [place_of_reached others claimed (reaches_iff.mpr ⟨_, status⟩), sameContent_of_read source held,
        decide_eq_true alike]
      exact ⟨_, rfl, Or.inr rfl⟩
  | @later first name others differs _ ih =>
    obtain ⟨c', ran, after⟩ := ih
    refine ⟨c', ?_, after⟩
    cases claimed : c.claims[first]? with
    | some hash =>
      have other : hash ≠ a.hash := by
        intro own
        obtain ⟨_, -, -, _, _, -, held, -⟩ := attested first hash claimed
        exact not_alike_of_sameContent differs read held
          ((attested.claimed_for sourced member claimed read held).mp own)
      exact (place_of_foreign others claimed (Or.inl other)).trans ran
    | none =>
      rw [place_of_reached others claimed (reaches_of_sameContent differs), differs]
      exact ran

/-- All that a later request for an artifact needs is there: the directory, the lock, and a candidate
name under which the artifact is found. -/
structure Shelved (root : Path) (t : Tree) (a : Artifact) (name : String) : Prop where
  directory : t.isDir root = true
  locks : t.isDir (root / ".locks") = true
  lock : t.isFile (root / ".locks" / s!"{Naming.stem a.key}.lock") = true
  found : Found root t a (Naming.candidates a) name

private theorem Shelved.grown (shelved : Shelved root t a name) (grown : Grown allowed t t') :
    Shelved root t' a name where
  directory := grown.isDir shelved.directory
  locks := grown.isDir shelved.locks
  lock := grown.isFile shelved.lock
  found := shelved.found.grown grown

/-- Of two artifacts with one coordinate and digest, either is found where the other one is. -/
theorem Shelved.congr {r r' : Artifact × Bool} (shelved : Shelved root t r.1 name)
    (sourced : Sourced requests t) (uniform : Uniform requests) (member : r ∈ requests)
    (member' : r' ∈ requests) (key : r.1.key = r'.1.key) (hash : r.1.hash = r'.1.hash) :
    Shelved root t r'.1 name where
  directory := shelved.directory
  locks := shelved.locks
  lock := key ▸ shelved.lock
  found := by
    obtain ⟨bytes, read, -⟩ := sourced.held r member
    obtain ⟨bytes', read', -⟩ := sourced.held r' member'
    obtain rfl := (sourced.hash_eq_iff member member' read read').mp hash
    have same : Naming.candidates r.1 = Naming.candidates r'.1 := by
      simp only [Naming.candidates, key, hash, uniform r member r' member' key hash]
    exact same ▸ shelved.found.congr read read'

/-- What a request is answered with: the project's own file, or an entry for a name under which the
artifact is found. -/
def Answers (root : Path) (t : Tree) (r : Artifact × Bool) (e : CacheEntry) : Prop :=
  ¬ Needed r.1 r.2 ∧ e = .inPlace r.1 ∨ Needed r.1 r.2 ∧ Shelved root t r.1 e.fileName

private theorem Answers.grown {r : Artifact × Bool} (answers : Answers root t r e)
    (grown : Grown allowed t t') :
    Answers root t' r e :=
  answers.imp_right fun ⟨needed, shelved⟩ => ⟨needed, shelved.grown grown⟩

/-- Over the same files, a request has answers under one name only. -/
theorem Answers.fileName_eq {r : Artifact × Bool} {e' : CacheEntry} (answers : Answers root t r e)
    (answers' : Answers root t r e') : e.fileName = e'.fileName := by
  rcases answers with ⟨spared, rfl⟩ | ⟨needed, shelved⟩
  · rcases answers' with ⟨-, rfl⟩ | ⟨needed, -⟩
    · rfl
    · exact absurd needed spared
  · rcases answers' with ⟨spared, -⟩ | ⟨-, shelved'⟩
    · exact absurd needed spared
    · exact shelved.found.unique shelved'.found

/-- A cache that serves requests, and knows nothing that the files do not show. -/
structure Traced (requests : List (Artifact × Bool)) (c : Cache) (t : Tree) : Prop where
  serving : c.isSealed = false
  claims : Attested requests c t
  entries : ∀ (id : EntryId) (e : CacheEntry), c.entries[id]? = some e →
    ∃ r ∈ requests, id = ⟨r.1.key, r.1.hash⟩ ∧ Shelved c.root t r.1 e.fileName

namespace Traced

private theorem new (shelf : Shelf) (cacheRoot : Path) (resolver : Resolver) (t : Tree) :
    Traced requests (.new shelf cacheRoot resolver) t where
  serving := rfl
  claims := by
    intro name hash held
    simp [Cache.new] at held
  entries := by
    intro id e held
    simp [Cache.new] at held

/-- What the cache answers from its entries is found in the files. -/
theorem answers (traced : Traced requests c t) (sourced : Sourced requests t)
    (uniform : Uniform requests) (member : (a, forced) ∈ requests) (needed : Needed a forced)
    (held : c.entries[(⟨a.key, a.hash⟩ : EntryId)]? = some e) : Answers c.root t (a, forced) e := by
  obtain ⟨r, member', same, shelved⟩ := traced.entries _ e held
  injection same with key hash
  exact Or.inr ⟨needed, shelved.congr sourced uniform member' member key.symm hash.symm⟩

/-- A cache that got one more entry knows nothing that the files do not show, if they show the entry. -/
theorem records (traced : Traced requests c t) (member : (a, forced) ∈ requests)
    (grown : Grown (fun _ _ => True) t t') (shelved : Shelved c.root t' a name)
    (after : c' = c ∨ c' = claim name a.hash c) (copied : Bool) :
    Traced requests (record a ⟨name, c.root / name, a, true⟩ copied c') t' ∧ c'.root = c.root := by
  have claims := traced.claims.grown grown
  have entries : ∀ (id : EntryId) (e : CacheEntry), c.entries[id]? = some e →
      ∃ r ∈ requests, id = ⟨r.1.key, r.1.hash⟩ ∧ Shelved c.root t' r.1 e.fileName := by
    intro id e held
    obtain ⟨r, member, same, shelved⟩ := traced.entries id e held
    exact ⟨r, member, same, shelved.grown grown⟩
  have own : ∃ r ∈ requests, (⟨a.key, a.hash⟩ : EntryId) = ⟨r.1.key, r.1.hash⟩ ∧
      Shelved c.root t' r.1 name := ⟨_, member, rfl, shelved⟩
  rcases after with rfl | rfl
  · exact ⟨⟨traced.serving, claims, Table.forall_insert own entries⟩, rfl⟩
  · exact ⟨⟨traced.serving, claims.claim member shelved.found, Table.forall_insert own entries⟩, rfl⟩

end Traced

/-- An artifact was placed by a cache that claimed its name, if it was not claimed before. -/
theorem Placed.claims (placed : Placed c a t name copied c' t') :
    c' = c ∨ c' = claim name a.hash c := by
  cases placed with
  | claimed => exact Or.inl rfl
  | reused | copied => exact Or.inr rfl

section Passes

variable (uniform : Uniform requests) (solid : c.root.text ≠ "")

include uniform solid

/-- A request that is answered leaves its artifact where a look at the files finds it. -/
theorem answers_of_fetch (sourced : Sourced requests t) (traced : Traced requests c t)
    (member : (a, forced) ∈ requests) (ran : fetch a forced (c, t) = .ok e (c', t')) :
    Answers c.root t' (a, forced) e ∧ Traced requests c' t' ∧ c'.root = c.root ∧
      Grown (fun _ _ => True) t t' := by
  have listed := fetch_cases c a forced t
  rw [ran] at listed
  generalize ended : EStateM.Result.ok e (c', t') = result at listed
  cases listed with
  | refused => cases ended
  | failed => cases ended
  | inPlace _ spared =>
    cases ended
    exact ⟨Or.inl ⟨spared, rfl⟩, traced, rfl, .refl _ _⟩
  | known _ needed held =>
    cases ended
    exact ⟨traced.answers sourced uniform member needed held, traced, rfl, .refl _ _⟩
  | stored serving needed new =>
    clear ended
    obtain ⟨middle, name, copied, c₁, t₁, locked, published, rfl, same⟩ :=
      fetch_stored_ok ⟨serving, needed, new⟩ ran
    cases same
    obtain ⟨-, locks, lock⟩ := lock_ok locked
    obtain ⟨file, later, made, placed⟩ := publish_ok published
    have directory := FileM.isDir_of_ensured solid made
    have good : ∀ name ∈ Naming.candidates a, Path.IsName name := fun name candidate =>
      (Naming.isName_candidate (sourced.isDigest member) candidate).1
    have first : Grown (fun _ _ => True) t middle := by
      have grown := (lock_grown a c t).2
      rw [locked] at grown
      exact grown.mono fun _ _ _ => trivial
    have second : Grown (fun _ _ => True) middle later := by
      have grown := (FileM.ensureDir_secures c.root middle).1
      rw [made] at grown
      exact grown.mono fun _ _ _ => trivial
    have before := first.trans second
    obtain ⟨candidate, stored⟩ := placed_of_place placed
    have third := stored.grown directory (good _ candidate)
    have shelved : Shelved c.root t' a name := by
      refine ⟨third.isDir directory, (second.trans third).isDir locks, (second.trans third).isFile lock,
        ?_⟩
      exact found_of_place (sourced.grown before) (traced.claims.grown before) member directory good
        placed
    obtain ⟨traced', root⟩ :=
      traced.records member (before.trans third) shelved stored.claims copied
    exact ⟨Or.inr ⟨needed, shelved⟩, traced', root, before.trans third⟩

omit solid in
/-- A request for an artifact that is found is answered without a copy, and no file changes. -/
theorem fetch_of_answers (sourced : Sourced requests u) (traced : Traced requests c u)
    (member : (a, forced) ∈ requests) (answers : Answers c.root u (a, forced) e) :
    ∃ e' c', fetch a forced (c, u) = .ok e' (c', u) ∧ Answers c.root u (a, forced) e' ∧
      Traced requests c' u ∧ c'.root = c.root ∧ c'.copies = c.copies := by
  cases received c a forced with
  | refused shut => simp [traced.serving] at shut
  | inPlace serving spared =>
    exact ⟨_, c, fetch_of_spared serving spared u, Or.inl ⟨spared, rfl⟩, traced, rfl, rfl⟩
  | known serving needed held =>
    exact ⟨_, c, fetch_of_known serving needed held u,
      traced.answers sourced uniform member needed held, traced, rfl, rfl⟩
  | busy busy =>
    have needed := busy.2.1
    have shelved := (answers.resolve_left fun own => own.1 needed).2
    have taken := lock_again (c := c) (a := a) shelved.locks shelved.lock
    obtain ⟨bytes, read, -⟩ := sourced.held _ member
    have file : u.isFile a.source = true := isFile_iff.mpr ⟨_, read_eq_ok_iff.mp read⟩
    obtain ⟨c', placed, after⟩ := place_of_found sourced traced.claims member shelved.found
    have published : publish a (c, u) = .ok (e.fileName, false) (c', u) := by
      rw [publish_of_file file, FileM.ensureDir_of_isDir shelved.directory]
      exact placed
    obtain ⟨traced', root⟩ := traced.records member (.refl _ _) shelved after false
    have copies : c'.copies = c.copies := by
      rcases after with rfl | rfl <;> rfl
    rw [fetch_of_busy busy]
    simp only [bind_run, taken, published]
    exact ⟨_, _, rfl, Or.inr ⟨needed, shelved⟩, traced', root, copies⟩

/-- Requests that are answered leave their artifacts where a look at the files finds them. -/
theorem answers_of_fetchAll {entries : List CacheEntry} (sourced : Sourced requests t)
    (traced : Traced requests c t) (members : ∀ r ∈ asked, r ∈ requests)
    (ran : fetchAll asked (c, t) = .ok entries (c', t')) :
    List.Forall₂ (Answers c.root t') asked entries ∧ Grown (fun _ _ => True) t t' := by
  induction asked generalizing c t entries with
  | nil =>
    cases ran
    exact ⟨.nil, .refl _ _⟩
  | cons r rest ih =>
    obtain ⟨member, members⟩ := List.forall_mem_cons.mp members
    obtain ⟨e, middle, t'', others, first, later, rfl⟩ := fetchAll_cons_ok ran
    obtain ⟨answers, traced', root, grown⟩ := answers_of_fetch uniform solid sourced traced member first
    obtain ⟨more, grown'⟩ := ih (root ▸ solid) (sourced.grown grown) traced' members later
    rw [root] at more
    exact ⟨.cons (answers.grown grown') more, grown.trans grown'⟩

omit solid in
/-- Requests for artifacts that are found are answered without copies, and no file changes. -/
theorem fetchAll_of_answers (sourced : Sourced requests u) (traced : Traced requests c u)
    (answered : ∀ r ∈ asked, r ∈ requests ∧ ∃ e, Answers c.root u r e) :
    ∃ entries c', fetchAll asked (c, u) = .ok entries (c', u) ∧
      List.Forall₂ (Answers c.root u) asked entries ∧ c'.copies = c.copies := by
  induction asked generalizing c with
  | nil => exact ⟨[], c, rfl, .nil, rfl⟩
  | cons r rest ih =>
    obtain ⟨⟨member, e, answers⟩, answered⟩ := List.forall_mem_cons.mp answered
    obtain ⟨e', middle, ran, answers', traced', root, copies⟩ :=
      fetch_of_answers uniform sourced traced member answers
    obtain ⟨entries, c', later, more, copies'⟩ := ih traced' (root.symm ▸ answered)
    rw [root] at more
    refine ⟨e' :: entries, c', ?_, .cons answers' more, copies'.trans copies⟩
    simp only [fetchAll_cons, bind_run, ran, later, pure_run]

end Passes

/-- **Artifacts are found again.**  After a new cache answered requests over any files, another new cache
of the same shelf answers the same requests in any order and any number.  Each artifact gets the file
name that it got the first time, nothing is copied, and no file changes.  The artifacts have the digests
of their sources; contents that differ have different digests, and artifacts of one coordinate and digest
have one extension. -/
theorem fetchAll_rediscovers (shelf : Shelf) (cacheRoot : Path) (resolver resolver' : Resolver)
    {entries : List CacheEntry} (sourced : Sourced requests t) (uniform : Uniform requests)
    (ran : fetchAll requests (.new shelf cacheRoot resolver, t) = .ok entries (c, t'))
    (known : ∀ r ∈ asked, r ∈ requests) :
    ∃ entries' c', fetchAll asked (.new shelf cacheRoot resolver', t') = .ok entries' (c', t') ∧
      c'.copies = 0 ∧ List.Forall₂ (fun r e' => ∀ e, (r, e) ∈ requests.zip entries →
        e'.fileName = e.fileName) asked entries' := by
  have solid : (Cache.new shelf cacheRoot resolver).root.text ≠ "" :=
    Path.text_join_ne_empty _ (dirName_ne_empty shelf)
  obtain ⟨answers, grown⟩ :=
    answers_of_fetchAll uniform solid sourced (.new _ _ _ _) (fun _ => id) ran
  obtain ⟨lengths, zipped⟩ := List.forall₂_iff_zip.mp answers
  have answered : ∀ r ∈ asked, r ∈ requests ∧
      ∃ e, Answers (Cache.new shelf cacheRoot resolver').root t' r e := by
    intro r member
    refine ⟨known r member, ?_⟩
    obtain ⟨i, bound, rfl⟩ := List.getElem_of_mem (known r member)
    exact ⟨_, answers.get bound (lengths ▸ bound)⟩
  obtain ⟨entries', c', ran', answers', copies⟩ :=
    fetchAll_of_answers uniform (sourced.grown grown) (.new shelf cacheRoot resolver' t') answered
  refine ⟨entries', c', ran', copies, answers'.imp fun r e' own e paired => ?_⟩
  exact own.fileName_eq (zipped paired)

/-- Two jars and an archive of another kind with the bytes of the first one. -/
def twinTree : Tree :=
  (jarTree.insert ["y.jar"] (.file "y".toUTF8)).insert ["x.aar"] (.file .empty)

/-- One coordinate that was bound to both jars, one after the other. -/
def jars : List (Artifact × Bool) :=
  [(jarArtifact, false),
    ({ jarArtifact with source := ⟨"/y.jar"⟩, hash := ⟨Digest.sha256Hex "y".toUTF8⟩ }, false)]

/-- One coordinate that was bound to the first jar and to the archive with its bytes. -/
def twins : List (Artifact × Bool) :=
  [(jarArtifact, false), ({ jarArtifact with source := ⟨"/x.aar"⟩ }, false)]

private theorem sourced_jars : Sourced jars twinTree := by
  have first : twinTree.status ⟨"/x.jar"⟩ = .ok (.file .empty) := by decide
  have second : twinTree.status ⟨"/y.jar"⟩ = .ok (.file "y".toUTF8) := by decide
  have differ : Digest.sha256Hex .empty ≠ Digest.sha256Hex "y".toUTF8 := by decide +kernel
  have held : ∀ r ∈ jars, ∃ bytes ∈ [.empty, "y".toUTF8], twinTree.read r.1.source = .ok bytes ∧
      Digest.sha256Hex bytes = r.1.hash.digits := by
    refine List.forall_mem_cons.mpr ⟨?_, List.forall_mem_cons.mpr ⟨?_, by simp⟩⟩
    · exact ⟨.empty, by simp, read_eq_ok_iff.mpr first, rfl⟩
    · exact ⟨"y".toUTF8, by simp, read_eq_ok_iff.mpr second, rfl⟩
  refine ⟨fun r member => (held r member).imp fun _ => And.right, ?_⟩
  intro r member r' member' bytes bytes' read read' same
  obtain ⟨own, listed, read₁, -⟩ := held r member
  obtain ⟨own', listed', read₂, -⟩ := held r' member'
  obtain rfl : own = bytes := Except.ok.inj (read₁.symm.trans read)
  obtain rfl : own' = bytes' := Except.ok.inj (read₂.symm.trans read')
  simp only [List.mem_cons, List.not_mem_nil, or_false] at listed listed'
  rcases listed with rfl | rfl <;> rcases listed' with rfl | rfl
  · rfl
  · exact absurd same differ
  · exact absurd same.symm differ
  · rfl

private theorem sourced_twins : Sourced twins twinTree := by
  have held : ∀ r ∈ twins, twinTree.read r.1.source = .ok .empty ∧
      Digest.sha256Hex .empty = r.1.hash.digits := by
    have first : twinTree.status ⟨"/x.jar"⟩ = .ok (.file .empty) := by decide
    have second : twinTree.status ⟨"/x.aar"⟩ = .ok (.file .empty) := by decide
    refine List.forall_mem_cons.mpr ⟨?_, List.forall_mem_cons.mpr ⟨?_, by simp⟩⟩
    · exact ⟨read_eq_ok_iff.mpr first, rfl⟩
    · exact ⟨read_eq_ok_iff.mpr second, rfl⟩
  refine ⟨fun r member => ⟨_, held r member⟩, ?_⟩
  intro r member r' member' bytes bytes' read read' _
  obtain rfl : ByteArray.empty = bytes := Except.ok.inj ((held r member).1.symm.trans read)
  exact Except.ok.inj ((held r' member').1.symm.trans read')

theorem jars_rediscovered : ∃ entries c t' entries' c',
    fetchAll jars (jarCache, twinTree) = .ok entries (c, t') ∧ c.copies = 2 ∧
      fetchAll jars.reverse (jarCache, t') = .ok entries' (c', t') ∧ c'.copies = 0 ∧
      List.Forall₂ (fun r e' => ∀ e, (r, e) ∈ jars.zip entries → e'.fileName = e.fileName)
        jars.reverse entries' := by
  have copied : (outcome (fetchAll jars (jarCache, twinTree))).isOk = true ∧
      (left (fetchAll jars (jarCache, twinTree))).1.copies = 2 := by decide +kernel
  obtain ⟨entries, ran⟩ := eq_ok_of_isOk copied.1
  have named : ∀ r ∈ jars, r.1.extension = "jar" := by decide
  have uniform : Uniform jars := fun r member r' member' _ _ =>
    (named r member).trans (named r' member').symm
  obtain ⟨entries', c', ran', copies, names⟩ := fetchAll_rediscovers .external ⟨"/cache"⟩
    jarCache.resolver jarCache.resolver sourced_jars uniform ran fun _ => List.mem_reverse.mp
  exact ⟨entries, _, _, entries', c', ran, copied.2, ran', copies, names⟩

theorem twins_not_rediscovered : Sourced twins twinTree ∧
    (∀ r ∈ twins, r.1.source.isBelow jarCache.root = false) ∧
    ∃ entries c t' entries' c' t'',
      fetchAll twins (jarCache, twinTree) = .ok entries (c, t') ∧
      fetchAll twins.reverse (jarCache, t') = .ok entries' (c', t'') ∧
      entries.map CacheEntry.fileName = ["a.b-1-0.jar", "a.b-1-0.jar"] ∧
      entries'.map CacheEntry.fileName = ["a.b-1-0.aar", "a.b-1-0.aar"] ∧ c'.copies = 1 := by
  have goes : (outcome (fetchAll twins (jarCache, twinTree))).map (·.map CacheEntry.fileName) =
        .ok ["a.b-1-0.jar", "a.b-1-0.jar"] ∧
      (outcome (fetchAll twins.reverse (jarCache, (left (fetchAll twins (jarCache, twinTree))).2))).map
        (·.map CacheEntry.fileName) = .ok ["a.b-1-0.aar", "a.b-1-0.aar"] ∧
      (left (fetchAll twins.reverse
        (jarCache, (left (fetchAll twins (jarCache, twinTree))).2))).1.copies = 1 := by
    decide +kernel
  obtain ⟨first, second, copies⟩ := goes
  obtain ⟨entries, c, t', ran, names⟩ := exists_of_outcome first
  rw [ran] at second copies
  obtain ⟨entries', c', t'', ran', names'⟩ := exists_of_outcome second
  rw [show (left (EStateM.Result.ok entries (c, t'))).2 = t' from rfl] at ran' copies
  rw [ran'] at copies
  exact ⟨sourced_twins, by decide, entries, c, t', entries', c', t'', ran, ran', names, names', copies⟩

end RuleDepot.Cache
