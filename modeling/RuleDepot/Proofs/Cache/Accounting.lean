import Mathlib.Data.Set.Card
import RuleDepot.Proofs.Cache.Frame
import RuleDepot.Proofs.Files.Comparing
import RuleDepot.Proofs.Tables
/-!
The books of a cache and its directory.  During a pass, requests are answered one after another and
others may change any files that are not below the directory of the cache.  The entries, the claimed
names, the counters and the files in the directory agree throughout: every entry has a file with its
digest under a name that it alone claimed, and every file that appeared was counted as a copy.
-/

namespace RuleDepot.Cache

open Std RuleDepot.Tree Running

variable {c c' : Cache} {a : Artifact} {forced copied : Bool} {start t t' middle : Tree}
  {name : String} {place : Location} {node : Node} {bytes : ByteArray} {id id' : EntryId}
  {e e' : CacheEntry} {allowed : Location → Node → Prop}

/-- A request to a cache and what came out of it. -/
structure Request where
  artifact : Artifact
  forced : Bool
  answer : Except BuildError CacheEntry

/-- Changes by others.  They keep out of the directory of the cache, and the path to it goes on to
lead there. -/
structure Undisturbed (root : Path) (t t' : Tree) : Prop where
  workingDir : t'.workingDir = t.workingDir
  rooted : t.isDir root = true → t'.isDir root = true
  below : ∀ name rest,
    t'.node? (t.lexical root ++ name :: rest) = t.node? (t.lexical root ++ name :: rest)

/-- The digest of an artifact is one, and that of the bytes of its source. -/
structure Genuine (a : Artifact) (t : Tree) : Prop where
  digest : a.hash.IsDigest
  source : ∀ bytes, t.read a.source = .ok bytes → Digest.sha256Hex bytes = a.hash.digits

/-- A pass over a shelf from its beginning, with the latest request first in the log.  The source of
an artifact is looked at in the tree that its request leaves: a source that is a file when it is
requested is the same one then, and one that is missing could only be the lock of the request. -/
inductive Pass (shelf : Shelf) (cacheRoot : Path) (resolver : Resolver) (start : Tree) :
    List Request → Cache → Tree → Prop where
  | begun : Pass shelf cacheRoot resolver start [] (.new shelf cacheRoot resolver) start
  | others {log : List Request} {c : Cache} {t t' : Tree}
      (pass : Pass shelf cacheRoot resolver start log c t) (undisturbed : Undisturbed c.root t t') :
      Pass shelf cacheRoot resolver start log c t'
  | asked {log : List Request} {c : Cache} {t : Tree}
      (pass : Pass shelf cacheRoot resolver start log c t) (a : Artifact) (forced : Bool)
      (genuine : Genuine a (left (fetch a forced (c, t))).2) :
      Pass shelf cacheRoot resolver start (⟨a, forced, outcome (fetch a forced (c, t))⟩ :: log)
        (left (fetch a forced (c, t))).1 (left (fetch a forced (c, t))).2

/-- An artifact whose source is there with its digest when it is requested is genuine. -/
theorem genuine_asked (solid : c.root.text ≠ "") (forced : Bool) (held : t.read a.source = .ok bytes)
    (same : Digest.sha256Hex bytes = a.hash.digits) :
    Genuine a (left (fetch a forced (c, t))).2 := by
  have digest : a.hash.IsDigest := by
    have taken := ContentHash.isDigest_sha256 bytes
    rwa [same] at taken
  refine ⟨digest, fun bytes' held' => ?_⟩
  have kept : (left (fetch a forced (c, t))).2.read a.source = .ok bytes := by
    rcases fetch_adds solid digest forced t with ⟨grown, -⟩ | ⟨_, -, _, _, _, ran, -, added⟩
    · exact grown.read held
    · rw [ran]
      exact added.grown.read held
  obtain rfl : bytes = bytes' := Except.ok.inj (kept.symm.trans held')
  exact same

/-- No two artifacts of a log collide. -/
def Apart (log : List Request) : Prop :=
  ∀ r ∈ log, ∀ r' ∈ log, r.artifact.key ≠ r'.artifact.key →
    ¬ Naming.Collide r.artifact.key r'.artifact.key

/-- How an entry is booked. -/
structure Entered (log : List Request) (c : Cache) (id : EntryId) (e : CacheEntry) : Prop where
  key : e.artifact.key = id.key
  hash : e.artifact.hash = id.hash
  materialized : e.materialized = true
  path : e.path = c.root / e.fileName
  candidate : e.fileName ∈ Naming.candidates e.artifact
  digest : e.artifact.hash.IsDigest
  claimed : c.claims[e.fileName]? = some id.hash
  logged : ∃ r ∈ log, r.artifact = e.artifact

/-- The entries, the claims and the counters of a cache agree with each other and with the log. -/
structure Booked (log : List Request) (c : Cache) : Prop where
  serving : c.isSealed = false
  entered : ∀ (id : EntryId) (e : CacheEntry), c.entries[id]? = some e → Entered log c id e
  owned : ∀ (name : String) (hash : ContentHash), c.claims[name]? = some hash →
    ∃ (id : EntryId) (e : CacheEntry), c.entries[id]? = some e ∧ e.fileName = name ∧ id.hash = hash
  count : c.entries.size = c.copies + c.reuses
  answered : ∀ r ∈ log, Needed r.artifact r.forced → ∀ e, r.answer = .ok e →
    c.entries[(⟨r.artifact.key, r.artifact.hash⟩ : EntryId)]? = some e

namespace Booked

variable {log : List Request}

private theorem fileName_inj (booked : Booked log c) (apart : Apart log) (held : c.entries[id]? = some e)
    (held' : c.entries[id']? = some e') (same : e.fileName = e'.fileName) : id = id' := by
  have entered := booked.entered id e held
  have entered' := booked.entered id' e' held'
  have hashes : id.hash = id'.hash := by
    have claimed := entered.claimed
    rw [same, entered'.claimed] at claimed
    exact (Option.some.inj claimed).symm
  have keys : id.key = id'.key := by
    obtain ⟨r, logged, own⟩ := entered.logged
    obtain ⟨r', logged', own'⟩ := entered'.logged
    have shared := Naming.key_of_ruleName entered.digest entered'.digest entered.candidate
      entered'.candidate (congrArg Naming.ruleName same)
    rw [← entered.key, ← entered'.key]
    by_contra distinct
    refine apart r logged r' logged' ?_ ?_
    all_goals rw [own, own']
    · exact distinct
    · exact shared.resolve_left distinct
  cases id
  cases id'
  simp_all

private theorem logs (booked : Booked log c) {r : Request}
    (answered : Needed r.artifact r.forced → ∀ e, r.answer = .ok e →
      c.entries[(⟨r.artifact.key, r.artifact.hash⟩ : EntryId)]? = some e) :
    Booked (r :: log) c where
  serving := booked.serving
  entered id e held :=
    have entered := booked.entered id e held
    { entered with logged := entered.logged.imp fun _ => And.imp_left (List.mem_cons_of_mem _) }
  owned := booked.owned
  count := booked.count
  answered := List.forall_mem_cons.mpr ⟨answered, booked.answered⟩

private theorem records (booked : Booked log c) (forced copied : Bool)
    (absent : c.entries[(⟨a.key, a.hash⟩ : EntryId)]? = none) (free : c.claims[name]? = none)
    (candidate : name ∈ Naming.candidates a) (digest : a.hash.IsDigest) :
    Booked (⟨a, forced, .ok ⟨name, c.root / name, a, true⟩⟩ :: log)
      (record a ⟨name, c.root / name, a, true⟩ copied (claim name a.hash c)) where
  serving := booked.serving
  entered := by
    refine Table.forall_insert ?_ fun id e held => ?_
    · exact ⟨rfl, rfl, rfl, rfl, candidate, digest, by simp [Cache.record, claim], _,
        List.mem_cons_self, rfl⟩
    · have entered := booked.entered id e held
      have other : name ≠ e.fileName := fun same => by simpa [← same, free] using entered.claimed
      exact { entered with
        claimed := by simpa [Cache.record, claim, Table.getElem?_insert, other] using entered.claimed
        logged := entered.logged.imp fun _ => And.imp_left (List.mem_cons_of_mem _) }
  owned := by
    refine Table.forall_insert ?_ fun name' hash held => ?_
    · exact ⟨⟨a.key, a.hash⟩, ⟨name, c.root / name, a, true⟩, by simp [Cache.record, claim], rfl, rfl⟩
    · obtain ⟨id, e, held', named, hashed⟩ := booked.owned name' hash held
      have other : (⟨a.key, a.hash⟩ : EntryId) ≠ id := fun same => by simp [← same, absent] at held'
      exact ⟨id, e, by simpa [Cache.record, claim, Table.getElem?_insert, other] using held',
        named, hashed⟩
  count := by
    have fresh : (⟨a.key, a.hash⟩ : EntryId) ∉ c.entries := by simpa using absent
    have count := booked.count
    cases copied <;> simp [Cache.record, claim, ExtTreeMap.size_insert, fresh, count] <;> omega
  answered := by
    refine List.forall_mem_cons.mpr ⟨fun _ e ended => ?_, fun r logged needed e ended => ?_⟩
    · cases ended
      simp [Cache.record, claim]
    · have held := booked.answered r logged needed e ended
      have other : (⟨a.key, a.hash⟩ : EntryId) ≠ ⟨r.artifact.key, r.artifact.hash⟩ := fun same => by
        rw [← same, absent] at held
        cases held
      simpa [Cache.record, claim, Table.getElem?_insert, other] using held

/-- A name that was claimed for the digest of an artifact belongs to the entry of that artifact, so
nothing is ever found under a claimed name without a look at the bytes. -/
theorem unclaimed (booked : Booked log c) {r : Request} (apart : Apart (r :: log))
    (digest : r.artifact.hash.IsDigest)
    (absent : c.entries[(⟨r.artifact.key, r.artifact.hash⟩ : EntryId)]? = none)
    (candidate : name ∈ Naming.candidates r.artifact) :
    c.claims[name]? ≠ some r.artifact.hash := by
  intro claimed
  obtain ⟨id, e, held, named, hashed⟩ := booked.owned name _ claimed
  have entered := booked.entered id e held
  obtain ⟨r', logged, own⟩ := entered.logged
  have shared := Naming.key_of_ruleName digest entered.digest candidate
    (named ▸ entered.candidate) rfl
  have keys : r.artifact.key = id.key := by
    rw [← entered.key]
    by_contra distinct
    refine apart r List.mem_cons_self r' (List.mem_cons_of_mem _ logged) ?_ ?_
    all_goals rw [own]
    · exact distinct
    · exact shared.resolve_left distinct
  rw [keys, ← hashed, held] at absent
  cases absent

end Booked

/-- Two trees with the same files directly in a directory. -/
structure SameFiles (root : Path) (t t' : Tree) : Prop where
  workingDir : t'.workingDir = t.workingDir
  rooted : t.isDir root = true → t'.isDir root = true
  files : ∀ name bytes, t'.node? (t.lexical root ++ [name]) = some (.file bytes) ↔
    t.node? (t.lexical root ++ [name]) = some (.file bytes)

private theorem Undisturbed.sameFiles {root : Path} (undisturbed : Undisturbed root t t') :
    SameFiles root t t' where
  workingDir := undisturbed.workingDir
  rooted := undisturbed.rooted
  files name bytes := by rw [undisturbed.below name []]

private theorem sameFiles_of_lockOnly (grown : Grown (c.LockOnly a t') t t') :
    SameFiles c.root t t' where
  workingDir := grown.workingDir
  rooted := grown.isDir
  files name bytes := by
    refine ⟨fun held => ?_, grown.kept⟩
    cases former : t.node? (t.lexical c.root ++ [name]) with
    | some node => exact (grown.kept former).symm.trans held
    | none =>
      rcases grown.fresh held former with directory | ⟨leads, -⟩
      · cases directory
      · have locks : Path.IsName ".locks" := ⟨by decide, by decide, by decide, by decide⟩
        have place := locate_lexical leads
        rw [lockFile, lockDir, lexical_join t' (Naming.isName_lock a.key),
          lexical_join t' locks, grown.lexical] at place
        simpa using congrArg List.length place

namespace SameFiles

variable {root : Path}

private theorem lexical (same : SameFiles root t t') : t'.lexical root = t.lexical root :=
  lexical_congr same.workingDir root

/-- A file that is found by its name is found after the change, too. -/
theorem status (same : SameFiles root t t') (directory : t.isDir root = true)
    (named : Path.IsName name) (held : t.status (root / name) = .ok (.file bytes)) :
    t'.status (root / name) = .ok (.file bytes) := by
  have solid := text_ne_empty_of_isDir directory
  obtain ⟨found, stands⟩ := status_eq_ok_iff.mp held
  obtain ⟨before, aims⟩ := aims_of_found named found
  obtain ⟨before', aims'⟩ := aims_join (same.rooted directory) named aims.fits aims.short
  refine aims'.status ?_ (Or.inl rfl)
  rw [lexical_join t' named, same.lexical, same.files, ← lexical_join t named]
  exact stands

end SameFiles

/-- The names of the files in a directory that were not files there at the start. -/
def newFiles (root : Path) (start t : Tree) : Set String :=
  {name | (∃ bytes, t.node? (t.lexical root ++ [name]) = some (.file bytes)) ∧
    ¬ ∃ bytes, start.node? (start.lexical root ++ [name]) = some (.file bytes)}

/-- The files in the directory of a cache agree with its entries and with the count of copies. -/
structure Stocked (start : Tree) (c : Cache) (t : Tree) : Prop where
  workingDir : t.workingDir = start.workingDir
  stands : ∀ (id : EntryId) (e : CacheEntry), c.entries[id]? = some e → t.isDir c.root = true ∧
    ∃ bytes, t.status (c.root / e.fileName) = .ok (.file bytes) ∧
      Digest.sha256Hex bytes = id.hash.digits
  kept : ∀ name bytes, start.node? (start.lexical c.root ++ [name]) = some (.file bytes) →
    t.node? (t.lexical c.root ++ [name]) = some (.file bytes)
  added : (newFiles c.root start t).encard = c.copies

namespace Stocked

private theorem moved (stocked : Stocked start c t) (booked : Booked log c) (same : SameFiles c.root t t') :
    Stocked start c t' where
  workingDir := same.workingDir.trans stocked.workingDir
  stands id e held := by
    obtain ⟨directory, bytes, found, digest⟩ := stocked.stands id e held
    have entered := booked.entered id e held
    have named := (Naming.isName_candidate entered.digest entered.candidate).1
    exact ⟨same.rooted directory, bytes, same.status directory named found, digest⟩
  kept name bytes held := by
    rw [same.lexical, same.files]
    exact stocked.kept name bytes held
  added := by
    have files : newFiles c.root start t' = newFiles c.root start t := by
      ext name
      simp [newFiles, same.lexical, same.files]
    rw [files, stocked.added]

private theorem reuses (stocked : Stocked start c t) (directory : t.isDir c.root = true)
    (found : t.status (c.root / name) = .ok (.file bytes))
    (digest : Digest.sha256Hex bytes = a.hash.digits) :
    Stocked start (record a ⟨name, c.root / name, a, true⟩ false (claim name a.hash c)) t where
  workingDir := stocked.workingDir
  stands := Table.forall_insert ⟨directory, bytes, found, digest⟩ stocked.stands
  kept := stocked.kept
  added := stocked.added

private theorem newFiles_of_copy (stocked : Stocked start c t) (named : Path.IsName name)
    (absent : t.node? (t.lexical (c.root / name)) = none)
    (found : t'.status (c.root / name) = .ok (.file bytes))
    (grown : Grown (c.CopyOnly name bytes t') t t') :
    newFiles c.root start t' = insert name (newFiles c.root start t) ∧
      name ∉ newFiles c.root start t := by
  rw [lexical_join t named] at absent
  have stands := (status_eq_ok_iff.mp found).2
  rw [lexical_join t' named, grown.lexical] at stands
  refine ⟨?_, fun ⟨⟨bytes', held⟩, _⟩ => by simp [absent] at held⟩
  ext other
  simp only [newFiles, grown.lexical, Set.mem_ofPred_eq, Set.mem_insert_iff]
  constructor
  · rintro ⟨⟨bytes', held⟩, new⟩
    cases former : t.node? (t.lexical c.root ++ [other]) with
    | some node => exact Or.inr ⟨⟨bytes', (grown.kept former).symm.trans held⟩, new⟩
    | none =>
      rcases grown.fresh held former with directory | ⟨leads, -⟩
      · cases directory
      · have place := locate_lexical leads
        rw [lexical_join t' named, grown.lexical] at place
        exact Or.inl (by simpa using place)
  · rintro (rfl | ⟨⟨bytes', held⟩, new⟩)
    · refine ⟨⟨bytes, stands⟩, fun ⟨bytes', held⟩ => ?_⟩
      have kept := stocked.kept other bytes' held
      rw [absent] at kept
      cases kept
    · exact ⟨⟨bytes', grown.kept held⟩, new⟩

private theorem copies (stocked : Stocked start c t) (directory : t.isDir c.root = true)
    (named : Path.IsName name) (absent : t.node? (t.lexical (c.root / name)) = none)
    (found : t'.status (c.root / name) = .ok (.file bytes))
    (digest : Digest.sha256Hex bytes = a.hash.digits)
    (grown : Grown (c.CopyOnly name bytes t') t t') :
    Stocked start (record a ⟨name, c.root / name, a, true⟩ true (claim name a.hash c)) t' where
  workingDir := grown.workingDir.trans stocked.workingDir
  stands := by
    refine Table.forall_insert ⟨grown.isDir directory, bytes, found, digest⟩ fun id e held => ?_
    obtain ⟨directory', bytes', found', digest'⟩ := stocked.stands id e held
    exact ⟨grown.isDir directory', bytes', grown.status found', digest'⟩
  kept name' bytes' held := by
    change t'.node? (t'.lexical c.root ++ [name']) = _
    rw [grown.lexical]
    exact grown.kept (stocked.kept name' bytes' held)
  added := by
    obtain ⟨files, fresh⟩ := stocked.newFiles_of_copy named absent found grown
    change (newFiles c.root start t').encard = _
    rw [files, Set.encard_insert_of_notMem fresh, stocked.added]
    rfl

end Stocked

private theorem accounts_asked (solid : c.root.text ≠ "") (booked : Booked log c)
    (stocked : Stocked start c t) (a : Artifact) (forced : Bool)
    (apart : Apart (⟨a, forced, outcome (fetch a forced (c, t))⟩ :: log))
    (genuine : Genuine a (left (fetch a forced (c, t))).2) :
    Booked (⟨a, forced, outcome (fetch a forced (c, t))⟩ :: log) (left (fetch a forced (c, t))).1 ∧
      Stocked start (left (fetch a forced (c, t))).1 (left (fetch a forced (c, t))).2 := by
  have listed := fetch_cases c a forced t
  generalize fetch a forced (c, t) = result at listed apart genuine ⊢
  cases listed with
  | refused shut => simp [booked.serving] at shut
  | inPlace _ spared => exact ⟨booked.logs fun needed => absurd needed spared, stocked⟩
  | known _ _ held =>
    refine ⟨booked.logs fun _ e ended => ?_, stocked⟩
    cases ended
    exact held
  | failed _ _ _ locked =>
    exact ⟨booked.logs fun _ _ => nofun, stocked.moved booked (sameFiles_of_lockOnly locked)⟩
  | @stored middle t' name copied c' _ _ new locked root source candidate placed =>
    have stocked := stocked.moved booked (sameFiles_of_lockOnly locked)
    have directory : middle.isDir c.root = true := root.resolve_left (by simpa using solid)
    have named := (Naming.isName_candidate genuine.digest candidate).1
    have answered (copied : Bool) (free : c.claims[name]? = none) :=
      booked.records forced copied new free candidate genuine.digest
    cases placed with
    | claimed held file =>
      exact absurd held (booked.unclaimed apart genuine.digest new candidate)
    | reused free same =>
      obtain ⟨bytes, content, read, found, alike⟩ := alike_of_sameContent same
      exact ⟨answered false free, stocked.reuses directory (read_eq_ok_iff.mp found)
        (alike.digest.symm.trans (genuine.source bytes read))⟩
    | copied free unreached grown read aims vacant =>
      obtain ⟨bytes, read, absent, found, grown⟩ :=
        (Placed.copied free unreached grown read aims vacant).copy_grown directory named
      exact ⟨answered true free,
        stocked.copies directory named absent found (genuine.source bytes read) grown⟩

private theorem accounts_pass {shelf : Shelf} {cacheRoot : Path} {resolver : Resolver}
    (pass : Pass shelf cacheRoot resolver start log c t) (apart : Apart log) :
    c.root.text ≠ "" ∧ Booked log c ∧ Stocked start c t := by
  induction pass with
  | begun =>
    refine ⟨Path.text_join_ne_empty _ (dirName_ne_empty shelf), ⟨rfl, ?_, ?_, rfl, ?_⟩,
      ⟨rfl, ?_, fun _ _ => id, ?_⟩⟩
    · simp [new]
    · simp [new]
    · simp
    · simp [new]
    · have none : newFiles (Cache.new shelf cacheRoot resolver).root start start = ∅ :=
        Set.eq_empty_of_forall_notMem fun name added => added.2 added.1
      rw [none, Set.encard_empty]
      rfl
  | others _ undisturbed ih =>
    obtain ⟨solid, booked, stocked⟩ := ih apart
    exact ⟨solid, booked, stocked.moved booked undisturbed.sameFiles⟩
  | asked _ a forced genuine ih =>
    have earlier : Apart _ := fun r logged r' logged' =>
      apart r (List.mem_cons_of_mem _ logged) r' (List.mem_cons_of_mem _ logged')
    obtain ⟨solid, booked, stocked⟩ := ih earlier
    exact ⟨by rwa [fetch_root], accounts_asked solid booked stocked a forced apart genuine⟩

private theorem mem_listing_iff : e ∈ c.listing ↔ ∃ id : EntryId, c.entries[id]? = some e := by
  rw [listing, List.mem_mergeSort, Table.mem_values_iff]

private theorem length_listing (c : Cache) : c.listing.length = c.entries.size := by
  rw [listing, List.length_mergeSort, Table.length_values]

/-- **The books agree with the directory.**  After any pass in which no two coordinates collide,
every entry names a file directly in the directory of the cache whose bytes have its digest, entries
of different coordinates or digests have different names, there are as many entries as copies and
reuses, and as many files were added to the directory as copies.  What a request was answered with,
every further one for the same coordinate and digest is answered with, and nothing changes. -/
theorem pass_accounts {shelf : Shelf} {cacheRoot : Path} {resolver : Resolver}
    (pass : Pass shelf cacheRoot resolver start log c t) (apart : Apart log) :
    (∀ e ∈ c.listing, e.path = c.root / e.fileName ∧
      t.locate e.path = .ok (t.lexical c.root ++ [e.fileName]) ∧
      t.locate c.root = .ok (t.lexical c.root) ∧
      ∃ bytes, t.node? (t.lexical c.root ++ [e.fileName]) = some (.file bytes) ∧
        Digest.sha256Hex bytes = e.artifact.hash.digits) ∧
    (∀ e ∈ c.listing, ∀ e' ∈ c.listing,
      (e.key, e.artifact.hash) ≠ (e'.key, e'.artifact.hash) → e.fileName ≠ e'.fileName) ∧
    c.listing.length = c.copies + c.reuses ∧
    (newFiles c.root start t).encard = c.copies ∧
    (∀ r ∈ log, Needed r.artifact r.forced → ∀ e, r.answer = .ok e → ∀ a forced,
      a.key = r.artifact.key → a.hash = r.artifact.hash → Needed a forced →
        fetch a forced (c, t) = .ok e (c, t)) := by
  obtain ⟨solid, booked, stocked⟩ := accounts_pass pass apart
  refine ⟨fun e listed => ?_, fun e listed e' listed' distinct same => ?_, ?_, stocked.added, ?_⟩
  · obtain ⟨id, held⟩ := mem_listing_iff.mp listed
    have entered := booked.entered id e held
    have named := (Naming.isName_candidate entered.digest entered.candidate).1
    obtain ⟨directory, bytes, found, digest⟩ := stocked.stands id e held
    obtain ⟨leads, stands⟩ := status_eq_ok_iff.mp found
    rw [lexical_join t named] at leads stands
    rw [entered.path]
    exact ⟨rfl, leads, (status_eq_ok_iff.mp (isDir_iff.mp directory)).1, bytes, stands,
      entered.hash ▸ digest⟩
  · obtain ⟨id, held⟩ := mem_listing_iff.mp listed
    obtain ⟨id', held'⟩ := mem_listing_iff.mp listed'
    obtain rfl := booked.fileName_inj apart held held' same
    rw [held] at held'
    cases held'
    exact distinct rfl
  · rw [length_listing, booked.count]
  · intro r logged needed e ended a forced key hash needed'
    refine fetch_of_known booked.serving needed' ?_ t
    rw [key, hash]
    exact booked.answered r logged needed e ended

theorem jar_pass_accounts :
    let result := fetch jarArtifact false (jarCache, jarTree)
    (left result).1.copies = 1 ∧ (left result).1.listing.length = 1 ∧
      (newFiles (left result).1.root jarTree (left result).2).encard = 1 := by
  have file : jarTree.isFile jarArtifact.source = true := by decide +kernel
  obtain ⟨bytes, found⟩ := isFile_iff.mp file
  have stands : jarTree.node? (jarTree.lexical jarArtifact.source) = some (.file .empty) := by
    decide +kernel
  obtain rfl : bytes = .empty := by
    have held := (status_eq_ok_iff.mp found).2
    rw [stands] at held
    cases held
    rfl
  have genuine := genuine_asked (c := jarCache) (a := jarArtifact) (by decide) false
    (read_eq_ok_iff.mpr found) rfl
  have pass : Pass .external ⟨"/cache"⟩ jarCache.resolver jarTree
      [⟨jarArtifact, false, outcome (fetch jarArtifact false (jarCache, jarTree))⟩]
      (left (fetch jarArtifact false (jarCache, jarTree))).1
      (left (fetch jarArtifact false (jarCache, jarTree))).2 := .asked .begun _ _ genuine
  obtain ⟨-, -, length, added, -⟩ := pass_accounts pass (by simp [Apart])
  have copies : (left (fetch jarArtifact false (jarCache, jarTree))).1.copies = 1 := by
    decide +kernel
  have reuses : (left (fetch jarArtifact false (jarCache, jarTree))).1.reuses = 0 := by
    decide +kernel
  rw [copies, reuses] at length
  rw [copies, Nat.cast_one] at added
  exact ⟨copies, length, added⟩

end RuleDepot.Cache
