import RuleDepot.Proofs.Cache.Frame
import RuleDepot.Proofs.Files.Comparing
/-!
Entries and the bytes behind them.  An entry is backed if a comparison takes its file for its source.
The digest of an artifact need not be that of its bytes, so an entry is not always backed itself: a
name that was claimed for a digest is given out again for the same digest without a look at the
file.  But this happens only between coordinates that collide, and the entry that claimed the name
is backed.
-/

namespace RuleDepot.Cache

open RuleDepot.Tree Running

variable {c c' c'' : Cache} {a : Artifact} {forced copied : Bool} {t t' middle : Tree}
  {name : String} {bytes : ByteArray} {id id' : EntryId} {e o : CacheEntry}
  {answers answers' : List CacheEntry} {allowed : Location → Node → Prop}

/-- The file of an entry is there, and what it holds is like what its source holds. -/
def Backed (root : Path) (t : Tree) (e : CacheEntry) : Prop :=
  ∃ bytes content, t.status (root / e.fileName) = .ok (.file bytes) ∧
    t.read e.artifact.source = .ok content ∧ Digest.Alike bytes content

private theorem Backed.grown {root : Path} (backed : Backed root t e) (grown : Grown allowed t t') :
    Backed root t' e := by
  obtain ⟨bytes, content, found, read, alike⟩ := backed
  exact ⟨bytes, content, grown.status found, grown.read read, alike⟩

/-- The entry that claimed the name of another one for the same digest: itself, or an entry whose
coordinate collides with its own. -/
structure Owns (c : Cache) (t : Tree) (o e : CacheEntry) : Prop where
  stored : ∃ id : EntryId, c.entries[id]? = some o
  name : o.fileName = e.fileName
  hash : o.artifact.hash = e.artifact.hash
  key : o = e ∨ Naming.Collide o.key e.key
  backed : Backed c.root t o

/-- What holds of every entry that is stored. -/
structure Kept (c : Cache) (t : Tree) (id : EntryId) (e : CacheEntry) : Prop where
  key : e.key = id.key
  hash : e.artifact.hash = id.hash
  materialized : e.materialized = true
  path : e.path = c.root / e.fileName
  candidate : e.fileName ∈ Naming.candidates e.artifact
  digest : e.artifact.hash.IsDigest
  owned : ∃ o, c.Owns t o e

/-- Every entry of the cache is kept, and every claimed name has an entry that is backed. -/
structure Supplied (c : Cache) (t : Tree) : Prop where
  kept : ∀ (id : EntryId) (e : CacheEntry), c.entries[id]? = some e → Kept c t id e
  claimed : ∀ (name : String) (hash : ContentHash), c.claims[name]? = some hash →
    ∃ (id : EntryId) (o : CacheEntry), c.entries[id]? = some o ∧ o.fileName = name ∧
      id.hash = hash ∧ Backed c.root t o

theorem supplied_new (shelf : Shelf) (cacheRoot : Path) (resolver : Resolver) (t : Tree) :
    Supplied (new shelf cacheRoot resolver) t :=
  ⟨by simp [new], by simp [new]⟩

private theorem Owns.grown (owns : Owns c t o e) (grown : Grown allowed t t') : Owns c t' o e :=
  { owns with backed := owns.backed.grown grown }

private theorem Supplied.grown (supplied : Supplied c t) (grown : Grown allowed t t') : Supplied c t' where
  kept id e held := by
    have kept := supplied.kept id e held
    obtain ⟨o, owns⟩ := kept.owned
    exact { kept with owned := ⟨o, owns.grown grown⟩ }
  claimed name hash held := by
    obtain ⟨id, o, stored, named, hashed, backed⟩ := supplied.claimed name hash held
    exact ⟨id, o, stored, named, hashed, backed.grown grown⟩

/-- A cache that gained entries, all of them among some answers. -/
structure Extends (answers : List CacheEntry) (c c' : Cache) : Prop where
  root : c'.root = c.root
  resolver : c'.resolver = c.resolver
  kept : ∀ {id : EntryId} {e : CacheEntry}, c.entries[id]? = some e → c'.entries[id]? = some e
  fresh : ∀ {id : EntryId} {e : CacheEntry}, c'.entries[id]? = some e →
    c.entries[id]? = some e ∨ e ∈ answers

theorem Extends.refl (answers : List CacheEntry) (c : Cache) : Extends answers c c :=
  ⟨rfl, rfl, id, Or.inl⟩

theorem Extends.trans (first : Extends answers c c') (second : Extends answers' c' c'') :
    Extends (answers ++ answers') c c'' where
  root := second.root.trans first.root
  resolver := second.resolver.trans first.resolver
  kept held := second.kept (first.kept held)
  fresh held := by
    rcases second.fresh held with held | later
    · exact (first.fresh held).imp_right (List.mem_append_left _)
    · exact Or.inr (List.mem_append_right _ later)

/-- What a request is answered with, once it was. -/
def answer? (c : Cache) (a : Artifact) (forced : Bool) : Option CacheEntry :=
  if a.origin = .project && !forced then some (.inPlace a)
  else c.entries[(⟨a.key, a.hash⟩ : EntryId)]?

private theorem answer?_of_needed (needed : Needed a forced) :
    c.answer? a forced = c.entries[(⟨a.key, a.hash⟩ : EntryId)]? := by
  unfold answer?
  rcases needed with outside | rfl
  · simp [outside]
  · simp

private theorem answer?_of_spared (spared : ¬ Needed a forced) :
    c.answer? a forced = some (.inPlace a) := by
  have own : a.origin = .project ∧ forced = false := by
    cases origin : a.origin <;> simp_all [Needed]
  simp [answer?, own]

/-- An answer is the project's own file where it is, or an entry that is kept. -/
theorem Supplied.answer_spec (supplied : Supplied c t) (answered : c.answer? a forced = some e) :
    e.key = a.key ∧ e.artifact.hash = a.hash ∧
      (¬ Needed a forced ∧ e = .inPlace a ∨ Needed a forced ∧ Kept c t ⟨a.key, a.hash⟩ e) := by
  by_cases needed : Needed a forced
  · rw [answer?_of_needed needed] at answered
    have kept := supplied.kept _ e answered
    exact ⟨kept.key, kept.hash, Or.inr ⟨needed, kept⟩⟩
  · obtain rfl : CacheEntry.inPlace a = e :=
      Option.some.inj ((answer?_of_spared needed).symm.trans answered)
    exact ⟨rfl, rfl, Or.inl ⟨needed, rfl⟩⟩

private theorem Extends.answer? (extended : Extends answers c c') (answered : c.answer? a forced = some e) :
    c'.answer? a forced = some e := by
  by_cases needed : Needed a forced
  · rw [answer?_of_needed needed] at answered ⊢
    exact extended.kept answered
  · rwa [answer?_of_spared needed] at answered ⊢

private theorem Placed.resolver_eq (placed : Placed c a t name copied c' t') :
    c'.resolver = c.resolver := by
  cases placed <;> rfl

private theorem extends_record (new : c.entries[(⟨a.key, a.hash⟩ : EntryId)]? = none)
    (placed : Placed c a t name copied c' t') :
    Extends [e] c (record a e copied c') where
  root := placed.root_eq
  resolver := placed.resolver_eq
  kept {id e'} held := by
    have other : (⟨a.key, a.hash⟩ : EntryId) ≠ id := fun same => by simp [← same, new] at held
    change (c'.entries.insert _ _)[id]? = _
    rw [Table.getElem?_insert, if_neg other, placed.entries_eq]
    exact held
  fresh {id e'} held := by
    change (c'.entries.insert _ _)[id]? = _ at held
    rw [Table.getElem?_insert, placed.entries_eq] at held
    split at held
    · cases held
      exact Or.inr (by simp)
    · exact Or.inl held

private theorem Owns.extended (owns : Owns c t o e) (extended : Extends answers c c') :
    Owns c' t o e where
  stored := owns.stored.imp fun _ => extended.kept
  name := owns.name
  hash := owns.hash
  key := owns.key
  backed := extended.root ▸ owns.backed

private theorem Supplied.record (supplied : Supplied c t)
    (extended : Extends [⟨name, c.root / name, a, true⟩] c c')
    (entries : c'.entries = c.entries.insert ⟨a.key, a.hash⟩ ⟨name, c.root / name, a, true⟩)
    (candidate : name ∈ Naming.candidates a) (digest : a.hash.IsDigest)
    (owned : ∃ o, c'.Owns t o ⟨name, c.root / name, a, true⟩)
    (claims : c'.claims = c.claims ∨
      c'.claims = c.claims.insert name a.hash ∧ Backed c.root t ⟨name, c.root / name, a, true⟩) :
    Supplied c' t where
  kept := by
    rw [entries]
    refine Table.forall_insert ?_ fun id e held => ?_
    · exact ⟨rfl, rfl, rfl, congrArg (· / name) extended.root.symm, candidate, digest, owned⟩
    · have kept := supplied.kept id e held
      obtain ⟨o, owns⟩ := kept.owned
      exact ⟨kept.key, kept.hash, kept.materialized,
        kept.path.trans (congrArg (· / e.fileName) extended.root.symm), kept.candidate, kept.digest,
        o, owns.extended extended⟩
  claimed := by
    have former : ∀ (name : String) (hash : ContentHash), c.claims[name]? = some hash →
        ∃ (id : EntryId) (o : CacheEntry), c'.entries[id]? = some o ∧ o.fileName = name ∧
          id.hash = hash ∧ Backed c'.root t o := by
      intro name hash held
      obtain ⟨id, o, stored, named, hashed, backed⟩ := supplied.claimed name hash held
      exact ⟨id, o, extended.kept stored, named, hashed, extended.root ▸ backed⟩
    rcases claims with same | ⟨more, backed⟩
    · rwa [same]
    · rw [more]
      refine Table.forall_insert ?_ former
      exact ⟨⟨a.key, a.hash⟩, ⟨name, c.root / name, a, true⟩, by simp [entries], rfl, rfl,
        extended.root ▸ backed⟩

private theorem Supplied.collide (supplied : Supplied c t) (digest : a.hash.IsDigest)
    (new : c.entries[(⟨a.key, a.hash⟩ : EntryId)]? = none) (candidate : name ∈ Naming.candidates a)
    (stored : c.entries[id]? = some o) (named : o.fileName = name) (hashed : id.hash = a.hash) :
    Naming.Collide o.key a.key := by
  have kept := supplied.kept id o stored
  refine (Naming.key_of_ruleName kept.digest digest (named ▸ kept.candidate) candidate
    rfl).resolve_left fun same => ?_
  have own : (⟨a.key, a.hash⟩ : EntryId) = id := by
    have key : id.key = a.key := kept.key.symm.trans same
    cases id
    simp_all
  rw [own, stored] at new
  cases new

/-- An answer is about the artifact that was requested, if it was not stored before. -/
theorem artifact_of_fetch {s : Cache × Tree} (ran : fetch a forced (c, t) = .ok e s) :
    (∃ id : EntryId, c.entries[id]? = some e) ∨ e.artifact = a := by
  have listed := fetch_cases c a forced t
  rw [ran] at listed
  cases listed with
  | inPlace => exact Or.inr rfl
  | known _ _ held => exact Or.inl ⟨_, held⟩
  | stored => exact Or.inr rfl

/-- A request that is answered keeps the cache supplied, only adds to the files, and would be
answered alike from now on. -/
theorem supplied_fetch (solid : c.root.text ≠ "") (supplied : Supplied c t)
    (digest : a.hash.IsDigest) (ran : fetch a forced (c, t) = .ok e (c', t')) :
    Supplied c' t' ∧ Extends [e] c c' ∧ c'.answer? a forced = some e ∧
      Grown (fun _ _ => True) t t' := by
  have listed := fetch_cases c a forced t
  rw [ran] at listed
  cases listed with
  | inPlace _ spared =>
    exact ⟨supplied, .refl _ _, answer?_of_spared spared, .refl _ _⟩
  | known _ needed held =>
    exact ⟨supplied, .refl _ _, (answer?_of_needed needed).trans held, .refl _ _⟩
  | @stored middle _ name copied c'' _ needed new locked root source candidate placed =>
    have directory : middle.isDir c.root = true := root.resolve_left (by simpa using solid)
    have named := (Naming.isName_candidate digest candidate).1
    have locked : Grown (fun _ _ => True) t middle := locked.mono fun _ _ _ => trivial
    have supplied := supplied.grown locked
    have extended := extends_record (e := ⟨name, c.root / name, a, true⟩) new placed
    have answered : (record a ⟨name, c.root / name, a, true⟩ copied c'').answer? a forced =
        some ⟨name, c.root / name, a, true⟩ := by
      rw [answer?_of_needed needed]
      simp [Cache.record]
    have own (stands : Backed c.root t' ⟨name, c.root / name, a, true⟩) :
        (record a ⟨name, c.root / name, a, true⟩ copied c'').Owns t' ⟨name, c.root / name, a, true⟩
          ⟨name, c.root / name, a, true⟩ :=
      ⟨⟨⟨a.key, a.hash⟩, by simp [Cache.record]⟩, rfl, rfl, Or.inl rfl, extended.root ▸ stands⟩
    cases placed with
    | claimed held file =>
      obtain ⟨id, o, stored, same, hashed, backed⟩ := supplied.claimed name _ held
      have owns : (record a ⟨name, c.root / name, a, true⟩ false c).Owns t' o
          ⟨name, c.root / name, a, true⟩ :=
        ⟨⟨id, extended.kept stored⟩, same, (supplied.kept id o stored).hash.trans hashed,
          Or.inr (supplied.collide digest new candidate stored same hashed), backed⟩
      exact ⟨supplied.record extended rfl candidate digest ⟨o, owns⟩ (Or.inl rfl), extended, answered,
        locked⟩
    | reused free same =>
      obtain ⟨content, bytes, read, found, alike⟩ := alike_of_sameContent same
      have stands : Backed c.root t' ⟨name, c.root / name, a, true⟩ :=
        ⟨bytes, content, read_eq_ok_iff.mp found, read, alike.symm⟩
      exact ⟨supplied.record extended rfl candidate digest ⟨_, own stands⟩ (Or.inr ⟨rfl, stands⟩),
        extended, answered, locked⟩
    | copied free unreached grown read aims vacant =>
      obtain ⟨bytes, read, -, found, grown⟩ :=
        (Placed.copied free unreached grown read aims vacant).copy_grown directory named
      have grown : Grown (fun _ _ => True) middle _ := grown.mono fun _ _ _ => trivial
      have stands : Backed c.root _ ⟨name, c.root / name, a, true⟩ := ⟨bytes, bytes, found, read, .refl bytes⟩
      exact ⟨(supplied.grown grown).record extended rfl candidate digest ⟨_, own stands⟩
        (Or.inr ⟨rfl, stands⟩), extended, answered, locked.trans grown⟩

/-- Several requests are answered in order, and each as it would be answered in the end. -/
theorem supplied_fetchAll {requests : List (Artifact × Bool)} {entries : List CacheEntry}
    (solid : c.root.text ≠ "") (supplied : Supplied c t)
    (digests : ∀ request ∈ requests, request.1.hash.IsDigest)
    (ran : fetchAll requests (c, t) = .ok entries (c', t')) :
    Supplied c' t' ∧ Extends entries c c' ∧
      entries.map some = requests.map (fun request => c'.answer? request.1 request.2) ∧
      (∀ e ∈ entries, (∃ id : EntryId, c.entries[id]? = some e) ∨
        ∃ request ∈ requests, e.artifact = request.1) ∧
      Grown (fun _ _ => True) t t' := by
  induction requests generalizing c t entries with
  | nil =>
    cases ran
    exact ⟨supplied, .refl _ _, rfl, by simp, .refl _ _⟩
  | cons request rest ih =>
    obtain ⟨a, forced⟩ := request
    obtain ⟨digest, digests⟩ := List.forall_mem_cons.mp digests
    obtain ⟨e, middle, t'', others, first, later, rfl⟩ := fetchAll_cons_ok ran
    obtain ⟨supplied', extended, answered, grown⟩ := supplied_fetch solid supplied digest first
    obtain ⟨supplied'', extended', answered', artifacts, grown'⟩ :=
      ih (extended.root ▸ solid) supplied' digests later
    have own : (∃ id : EntryId, c.entries[id]? = some e) ∨
        ∃ request ∈ (a, forced) :: rest, e.artifact = request.1 :=
      (artifact_of_fetch first).imp_right fun same => ⟨_, List.mem_cons_self, same⟩
    refine ⟨supplied'', extended.trans extended', ?_, ?_, grown.trans grown'⟩
    · rw [List.map_cons, List.map_cons, answered', extended'.answer? answered]
    · intro e' member
      rcases List.mem_cons.mp member with rfl | member
      · exact own
      rcases artifacts e' member with ⟨id, stored⟩ | ⟨request, asked, same⟩
      · rcases extended.fresh stored with former | new
        · exact Or.inl ⟨id, former⟩
        · exact List.mem_singleton.mp new ▸ own
      · exact Or.inr ⟨request, List.mem_cons_of_mem _ asked, same⟩

/-- What requests are answered with is about their coordinates, in order. -/
theorem Supplied.keys_of_answers {requests : List (Artifact × Bool)} {entries : List CacheEntry}
    (supplied : Supplied c t)
    (answered : entries.map some = requests.map fun request => c.answer? request.1 request.2) :
    entries.map CacheEntry.key = requests.map (·.1.key) := by
  induction requests generalizing entries with
  | nil => simpa using answered
  | cons request rest ih =>
    cases entries with
    | nil => simp at answered
    | cons e others =>
      obtain ⟨first, later⟩ := List.cons.inj answered
      rw [List.map_cons, List.map_cons, ih later, (supplied.answer_spec first.symm).1]

/-- The answers to several requests, one by one. -/
theorem mem_answers_iff {requests : List (Artifact × Bool)} {entries : List CacheEntry}
    (answered : entries.map some = requests.map fun request => c.answer? request.1 request.2) :
    e ∈ entries ↔ ∃ request ∈ requests, c.answer? request.1 request.2 = some e := by
  have member : e ∈ entries ↔ some e ∈ entries.map some := by simp
  rw [member, answered, List.mem_map]

end RuleDepot.Cache
