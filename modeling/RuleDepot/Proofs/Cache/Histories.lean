import Mathlib.Data.List.Forall2
import RuleDepot.Proofs.Cache.Trying
/-!
Caches that are used one after another over one directory.  Files are never overwritten there, and a file
that was put under a later name of an artifact is there because what the names before it held is not like
it.  When digests are taken over contents, the last name can only hold what it was made for, so a request
always finds a name.  When they are taken over coordinates, an artifact has the same three names whatever it
contains: a request fails once they hold three contents none of which is like the one it is made for.
-/

namespace RuleDepot.Cache

open RuleDepot.Tree Running

variable {c c' : Cache} {a b : Artifact} {forced : Bool} {t t' : Tree} {root : Path} {name : String}
  {bytes : ByteArray} {mode : HashMode} {origin : Origin} {key : ArtifactKey} {source : Path}
  {hash : ContentHash} {shelf : Shelf} {cacheRoot : Path}

/-- What the digest of an artifact tells about the bytes of its source when it is bound. -/
def Told (mode : HashMode) (a : Artifact) (bytes : ByteArray) : Prop :=
  match mode with
  | .content => a.hash = ⟨Digest.sha256Hex bytes⟩
  | .coordinate => a.hash = .ofCoordinate a.key

private theorem Told.isDigest (told : Told mode a bytes) : a.hash.IsDigest := by
  cases mode with
  | content =>
    rw [show a.hash = _ from told]
    exact ContentHash.isDigest_sha256 bytes
  | coordinate =>
    rw [show a.hash = _ from told]
    exact ContentHash.isDigest_ofCoordinate a.key

private theorem Told.alike {bytes' : ByteArray} (told : Told mode a bytes)
    (alike : Digest.Alike bytes bytes') :
    Told mode a bytes' := by
  cases mode with
  | content =>
    have own : a.hash = ⟨Digest.sha256Hex bytes⟩ := told
    exact own.trans (congrArg ContentHash.mk alike.digest)
  | coordinate => exact told

/-- An artifact that was bound is one of the file at its source. -/
theorem told_of_bind (bound : Artifact.bind t mode origin key source = .ok a) :
    ∃ bytes, t.read a.source = .ok bytes ∧ Told mode a bytes := by
  unfold Artifact.bind at bound
  split at bound
  · cases bound
  · rename_i present
    obtain ⟨bytes, found⟩ := isFile_iff.mp (by simpa using present : t.isFile source = true)
    have read := read_eq_ok_iff.mpr found
    cases mode with
    | coordinate =>
      cases bound
      exact ⟨bytes, read, rfl⟩
    | content =>
      simp only [sha256, read, bind, Except.bind, pure, Except.pure] at bound
      cases bound
      exact ⟨bytes, read, rfl⟩

/-- Caches that are used one after another over one directory, which is empty at the beginning.  Requests
are made for artifacts just as they are bound; in between, others may do what they want with all files that
are not below the directory. -/
inductive History (mode : HashMode) (shelf : Shelf) (cacheRoot : Path) : Cache → Tree → Prop where
  | begun (resolver : Resolver) {t : Tree} (rooted : t.Rooted)
      (empty : ∀ name rest, t.node? (t.lexical (cacheRoot / shelf.dirName) ++ name :: rest) = none) :
      History mode shelf cacheRoot (.new shelf cacheRoot resolver) t
  | renewed {c : Cache} {t : Tree} (history : History mode shelf cacheRoot c t) (resolver : Resolver) :
      History mode shelf cacheRoot (.new shelf cacheRoot resolver) t
  | others {c : Cache} {t t' : Tree} (history : History mode shelf cacheRoot c t) (rooted : t'.Rooted)
      (undisturbed : Undisturbed c.root t t') : History mode shelf cacheRoot c t'
  | asked {c : Cache} {t : Tree} (history : History mode shelf cacheRoot c t) {origin : Origin}
      {key : ArtifactKey} {source : Path} {a : Artifact}
      (bound : Artifact.bind t mode origin key source = .ok a) (forced : Bool) :
      History mode shelf cacheRoot (left (fetch a forced (c, t))).1 (left (fetch a forced (c, t))).2
  | shut {c : Cache} {t : Tree} (history : History mode shelf cacheRoot c t) :
      History mode shelf cacheRoot c.sealed t

private theorem History.root_eq (history : History mode shelf cacheRoot c t) :
    c.root = cacheRoot / shelf.dirName := by
  induction history with
  | begun | renewed => rfl
  | others _ _ _ ih | shut _ ih => exact ih
  | asked _ bound forced ih => rw [fetch_root, ih]

private theorem History.root_ne_empty (history : History mode shelf cacheRoot c t) : c.root.text ≠ "" := by
  rw [history.root_eq]
  exact Path.text_join_ne_empty _ (dirName_ne_empty shelf)

/-- No other coordinate collides with this one. -/
def Lone (key : ArtifactKey) : Prop :=
  ∀ other, other ≠ key → ¬ Naming.Collide other key

/-- An artifact that accounts for a file in the directory of a cache: it has the name of the file, and when
its digest does not tell contents apart, what is to be found under the names before is not like it. -/
structure Explains (mode : HashMode) (root : Path) (t : Tree) (a : Artifact) (name : String)
    (bytes : ByteArray) : Prop where
  told : Told mode a bytes
  read : t.read (root / name) = .ok bytes
  names : ∃ before later, Naming.candidates a = before ++ name :: later ∧
    (mode = .coordinate → Lone a.key →
      ∀ other ∈ before, ∃ held, t.read (root / other) = .ok held ∧ ¬ Digest.Alike held bytes)

namespace Explains

private theorem candidate (explains : Explains mode root t a name bytes) : name ∈ Naming.candidates a := by
  obtain ⟨before, later, split, -⟩ := explains.names
  simp [split]

/-- What accounts for a file does so in every tree in which the files are read alike. -/
theorem moved (explains : Explains mode root t a name bytes)
    (reads : ∀ name ∈ Naming.candidates a, ∀ bytes,
      t.read (root / name) = .ok bytes → t'.read (root / name) = .ok bytes) :
    Explains mode root t' a name bytes := by
  have candidate := explains.candidate
  obtain ⟨before, later, split, others⟩ := explains.names
  refine ⟨explains.told, reads name candidate _ explains.read, before, later, split,
    fun coordinate lone other member => ?_⟩
  obtain ⟨held, read, differs⟩ := others coordinate lone other member
  exact ⟨held, reads other (by simp [split, member]) held read, differs⟩

private theorem grown {allowed : Location → Node → Prop} (explains : Explains mode root t a name bytes)
    (grown : Grown allowed t t') : Explains mode root t' a name bytes :=
  explains.moved fun _ _ _ => grown.read

private theorem same (explains : Explains mode root t a name bytes) (same : SameNames root t t')
    (solid : root.text ≠ "") : Explains mode root t' a name bytes :=
  explains.moved fun name candidate bytes read => by
    obtain ⟨named, dash⟩ := Naming.isName_candidate explains.told.isDigest candidate
    exact same.read solid named (fun locks => absurd dash (by simp [locks])) read

/-- A lone artifact shares a name in a coordinate's mode only with one that has all its names. -/
theorem candidates_eq (explains : Explains .coordinate root t a name bytes)
    (told : b.hash = .ofCoordinate b.key) (lone : Lone b.key) (candidate : name ∈ Naming.candidates b) :
    a.key = b.key ∧ a.hash = b.hash ∧ Naming.candidates a = Naming.candidates b := by
  have digest := explains.told.isDigest
  have digest' : b.hash.IsDigest := told ▸ ContentHash.isDigest_ofCoordinate b.key
  have keys : a.key = b.key := by
    by_contra distinct
    exact lone a.key distinct ((Naming.key_of_ruleName digest digest' explains.candidate candidate
      rfl).resolve_left distinct)
  have hashes : a.hash = b.hash := by
    rw [told, ← keys]
    exact explains.told
  exact ⟨keys, hashes,
    Naming.candidates_eq digest (by rw [keys]) hashes explains.candidate candidate⟩

end Explains

/-- Every file in the directory of a cache and every claim are accounted for, and no directory is there but
that of the locks. -/
structure Explained (mode : HashMode) (c : Cache) (t : Tree) : Prop where
  rooted : t.Rooted
  files : ∀ name bytes, name ≠ ".locks" →
    t.node? (t.lexical c.root ++ [name]) = some (.file bytes) → ∃ a, Explains mode c.root t a name bytes
  directories : ∀ name, name ≠ ".locks" → t.node? (t.lexical c.root ++ [name]) ≠ some .directory
  claims : ∀ (name : String) (hash : ContentHash), c.claims[name]? = some hash →
    ∃ a bytes, Explains mode c.root t a name bytes ∧ a.hash = hash

/-- A candidate is no name for the directory of the locks. -/
theorem candidate_ne_locks (digest : a.hash.IsDigest) (candidate : name ∈ Naming.candidates a) :
    name ≠ ".locks" := by
  rintro rfl
  exact absurd (Naming.isName_candidate digest candidate).2 (by decide)

namespace Explained

private theorem same (explained : Explained mode c t) (same : SameNames c.root t t') (rooted : t'.Rooted)
    (solid : c.root.text ≠ "") : Explained mode c t' where
  rooted := rooted
  files name bytes other held := by
    rw [same.lexical, same.held name other] at held
    exact (explained.files name bytes other held).imp fun a explains => explains.same same solid
  directories name other held := by
    rw [same.lexical, same.held name other] at held
    exact explained.directories name other held
  claims name hash held := by
    obtain ⟨a, bytes, explains, own⟩ := explained.claims name hash held
    exact ⟨a, bytes, explains.same same solid, own⟩

/-- A name that can be reached holds a file that is accounted for. -/
theorem of_reaches (explained : Explained mode c t) (directory : t.isDir c.root = true)
    (digest : a.hash.IsDigest) (candidate : name ∈ Naming.candidates a)
    (reached : t.reaches (c.root / name) = true) :
    ∃ b bytes, Explains mode c.root t b name bytes := by
  obtain ⟨node, found⟩ := reaches_iff.mp reached
  have named := (Naming.isName_candidate digest candidate).1
  have other := candidate_ne_locks digest candidate
  obtain ⟨-, -, held⟩ := (status_join_iff directory named).mp found
  cases node with
  | directory => exact absurd held (explained.directories name other)
  | file bytes =>
    obtain ⟨b, explains⟩ := explained.files name bytes other held
    exact ⟨b, bytes, explains⟩

/-- A name that is passed over holds a file that is accounted for: one of another digest if the name was
claimed for that, else one that is not like the source. -/
theorem of_passed (explained : Explained mode c t) (directory : t.isDir c.root = true)
    (digest : a.hash.IsDigest) (candidate : name ∈ Naming.candidates a)
    (read : t.read a.source = .ok bytes) (passed : Passed c a t name) :
    ∃ b held, Explains mode c.root t b name held ∧ (b.hash ≠ a.hash ∨ ¬ Digest.Alike held bytes) := by
  rcases passed with ⟨hash, claimed, differs⟩ | ⟨reached, differs⟩
  · obtain ⟨b, held, explains, rfl⟩ := explained.claims name hash claimed
    have file : t.isFile (c.root / name) = true :=
      isFile_iff.mpr ⟨held, read_eq_ok_iff.mp explains.read⟩
    exact ⟨b, held, explains, Or.inl (differs.resolve_right (by simp [file]))⟩
  · obtain ⟨b, held, explains⟩ := explained.of_reaches directory digest candidate reached
    exact ⟨b, held, explains,
      Or.inr fun alike => not_alike_of_sameContent differs read explains.read alike.symm⟩

/-- Where digests are taken over coordinates, what is under the names that a lone artifact is refused is
not like its source. -/
theorem reads_other (explained : Explained .coordinate c t) (directory : t.isDir c.root = true)
    (told : Told .coordinate a bytes) (lone : Lone a.key) (candidate : name ∈ Naming.candidates a)
    (read : t.read a.source = .ok bytes) (passed : Passed c a t name) :
    ∃ held, t.read (c.root / name) = .ok held ∧ ¬ Digest.Alike held bytes := by
  obtain ⟨b, held, explains, differs⟩ :=
    explained.of_passed directory told.isDigest candidate read passed
  have hashes := (explains.candidates_eq told lone candidate).2.1
  exact ⟨held, explains.read, differs.resolve_left (by simp [hashes])⟩

private theorem settled (explained : Explained mode c t) (directory : t.isDir c.root = true)
    (told : Told mode a bytes) (read : t.read a.source = .ok bytes) {before later : List String}
    (split : Naming.candidates a = before ++ name :: later)
    (passed : ∀ other ∈ before, Passed c a t other) (settled : Settled c a t name c' t') :
    Explained mode c' t' := by
  have digest := told.isDigest
  have own {t' : Tree} {found : ByteArray} (grown : Grown (fun _ _ => True) t t')
      (alike : Digest.Alike bytes found) (stands : t'.read (c.root / name) = .ok found) :
      Explains mode c.root t' a name found := by
    refine ⟨told.alike alike, stands, before, later, split, fun coordinate lone other member => ?_⟩
    subst coordinate
    obtain ⟨held, read, differs⟩ := explained.reads_other directory told lone
      (by simp [split, member]) read (passed other member)
    exact ⟨held, grown.read read, fun same => differs (same.trans alike.symm)⟩
  cases settled with
  | claimed held => exact explained
  | @found content found source stands alike =>
    obtain rfl : bytes = content := Except.ok.inj (read.symm.trans source)
    exact ⟨explained.rooted, explained.files, explained.directories,
      Table.forall_insert ⟨a, found, own (.refl _ t) alike stands, rfl⟩ explained.claims⟩
  | @put found source absent stands =>
    obtain rfl : bytes = found := Except.ok.inj (read.symm.trans source)
    have solid : t.lexical c.root ++ [name] ≠ [] := by simp
    have grown : Grown (fun _ _ => True) t (t.insert (t.lexical c.root ++ [name]) (.file bytes)) :=
      grown_insert solid absent trivial
    have parent : t.node? (t.lexical c.root ++ [name]).dropLast = some .directory := by
      rw [List.dropLast_concat]
      exact (status_eq_ok_iff.mp (isDir_iff.mp directory)).2
    have same : (t.insert (t.lexical c.root ++ [name]) (.file bytes)).lexical c.root =
        t.lexical c.root := grown.lexical c.root
    refine ⟨Rooted.insert explained.rooted solid parent (Or.inr (by simp [absent])), ?_, ?_, ?_⟩
    · intro other held plain stands'
      change Tree.node? _ (Tree.lexical _ c.root ++ [other]) = _ at stands'
      rw [same, node?_insert solid] at stands'
      split at stands'
      · rename_i here
        obtain rfl : other = name := by simpa using here
        cases stands'
        exact ⟨a, own grown (.refl bytes) stands⟩
      · obtain ⟨b, explains⟩ := explained.files other held plain stands'
        exact ⟨b, explains.grown grown⟩
    · intro other plain stands'
      change Tree.node? _ (Tree.lexical _ c.root ++ [other]) = _ at stands'
      rw [same, node?_insert solid] at stands'
      split at stands'
      · cases stands'
      · exact explained.directories other plain stands'
    · refine Table.forall_insert ⟨a, bytes, own grown (.refl bytes) stands, rfl⟩ fun other hash held => ?_
      obtain ⟨b, found, explains, hashed⟩ := explained.claims other hash held
      exact ⟨b, found, explains.grown grown, hashed⟩

/-- A request for an artifact that was just bound leaves everything accounted for. -/
theorem asked (explained : Explained mode c t) (straight : Straight t c.root) (solid : c.root.text ≠ "")
    (bound : Artifact.bind t mode origin key source = .ok a) (forced : Bool) :
    Explained mode (left (fetch a forced (c, t))).1 (left (fetch a forced (c, t))).2 := by
  obtain ⟨bytes, read, told⟩ := told_of_bind bound
  have named := fetch_named explained.rooted straight solid told.isDigest forced
  generalize fetch a forced (c, t) = result at named ⊢
  cases named with
  | other leaves _ prepared =>
    rw [leaves]
    exact explained.same prepared.same prepared.rooted solid
  | exhausted opened => exact explained.same opened.same opened.rooted solid
  | settled opened directory split passed settled =>
    have before := explained.same opened.same opened.rooted solid
    have after := before.settled directory told (opened.grown.read read) split passed settled
    exact ⟨after.rooted, after.files, after.directories, after.claims⟩

end Explained

private theorem workingDir_fetch (solid : c.root.text ≠ "") (digest : a.hash.IsDigest) (forced : Bool)
    (t : Tree) : (left (fetch a forced (c, t))).2.workingDir = t.workingDir := by
  rcases fetch_adds solid digest forced t with ⟨grown, -⟩ | ⟨_, -, _, _, _, ran, -, added⟩
  · exact grown.workingDir
  · rw [ran]
    exact added.grown.workingDir

/-- Everything is accounted for throughout a history. -/
theorem History.explained (history : History mode shelf cacheRoot c t) (straight : Straight t c.root) :
    Explained mode c t := by
  induction history with
  | begun resolver rooted empty =>
    refine ⟨rooted, fun name bytes _ held => ?_, fun name _ held => ?_, by simp [new]⟩
    · exact absurd held (by simp [new, empty])
    · exact absurd held (by simp [new, empty])
  | renewed history resolver ih =>
    have root := history.root_eq
    have explained := ih (by rwa [root])
    refine ⟨explained.rooted, ?_, ?_, by simp [new]⟩
    · rw [show (new shelf cacheRoot resolver).root = _ from root.symm]
      exact explained.files
    · rw [show (new shelf cacheRoot resolver).root = _ from root.symm]
      exact explained.directories
  | others history rooted undisturbed ih =>
    exact (ih (straight.congr undisturbed.workingDir.symm)).same (.of_undisturbed undisturbed) rooted
      history.root_ne_empty
  | @asked c t history _ _ _ a bound forced ih =>
    obtain ⟨bytes, -, told⟩ := told_of_bind bound
    have solid := history.root_ne_empty
    rw [fetch_root] at straight
    have straight := straight.congr (workingDir_fetch solid told.isDigest forced t).symm
    exact (ih straight).asked straight solid bound forced
  | shut history ih =>
    have explained := ih straight
    exact ⟨explained.rooted, explained.files, explained.directories, explained.claims⟩

private theorem pairwise_of_before {α : Type} {l : List α} {R : α → α → Prop} (distinct : l.Nodup)
    (related : ∀ x ∈ l, ∃ before later, l = before ++ x :: later ∧ ∀ y ∈ before, R y x) :
    l.Pairwise R := by
  refine List.pairwise_iff_getElem.mpr fun i j hi hj less => ?_
  obtain ⟨before, later, split, others⟩ := related l[j] (List.getElem_mem hj)
  have width : before.length < l.length := by
    rw [split]
    simp
  have here : l[before.length] = l[j] := by
    rw [List.getElem_of_eq split]
    simp
  obtain rfl := (distinct.getElem_inj_iff).mp here
  have front : l[i] = before[i] := by
    rw [List.getElem_of_eq split]
    exact List.getElem_append_left less
  rw [front]
  exact others _ (List.getElem_mem _)

/-- What is read under a name of an artifact in a prepared directory was there before. -/
theorem Explained.read_before (explained : Explained mode c t) (prepared : Prepared c.root t t')
    (directory : t'.isDir c.root = true) (digest : a.hash.IsDigest)
    (candidate : name ∈ Naming.candidates a) (read : t'.read (c.root / name) = .ok bytes) :
    t.read (c.root / name) = .ok bytes := by
  have named := (Naming.isName_candidate digest candidate).1
  have other := candidate_ne_locks digest candidate
  obtain ⟨-, -, held⟩ := (status_join_iff directory named).mp (read_eq_ok_iff.mp read)
  rw [prepared.same.lexical, prepared.same.held name other] at held
  obtain ⟨b, explains⟩ := explained.files name bytes other held
  exact explains.read

/-- A lone artifact whose digest is taken over its coordinate finds no contents under its names of which
two are alike when all are taken. -/
theorem Explained.contents_apart (explained : Explained .coordinate c t) (solid : c.root.text ≠ "")
    (told : Told .coordinate a bytes) (lone : Lone a.key) {held : String → ByteArray}
    (reads : ∀ name ∈ Naming.candidates a, t.read (c.root / name) = .ok (held name)) :
    ((Naming.candidates a).map held).Pairwise fun x y => ¬ Digest.Alike x y := by
  refine List.pairwise_map.mpr (pairwise_of_before (Naming.nodup_candidates told.isDigest) ?_)
  intro name candidate
  have found := read_eq_ok_iff.mp (reads name candidate)
  have directory := isDir_of_join solid (Naming.isName_candidate told.isDigest candidate).1 found
  obtain ⟨b, bytes', explains⟩ :=
    explained.of_reaches directory told.isDigest candidate (reaches_iff.mpr ⟨_, found⟩)
  obtain rfl : held name = bytes' := Except.ok.inj ((reads name candidate).symm.trans explains.read)
  obtain ⟨keys, -, same⟩ := explains.candidates_eq told lone candidate
  obtain ⟨before, later, split, others⟩ := explains.names
  refine ⟨before, later, same.symm.trans split, fun other member => ?_⟩
  obtain ⟨former, read, differs⟩ := others rfl (keys ▸ lone) other member
  have candidate' : other ∈ Naming.candidates a := by simp [← same, split, member]
  rwa [Except.ok.inj ((reads other candidate').symm.trans read)]

/-- **When no name is left.**  Over any history of caches on a directory, a request for an artifact that was
just bound can fail for want of a name only if digests are taken over coordinates, or if two contents of
different sizes have one digest.  No other coordinate colliding, its three names then hold three contents;
of these and the one that the request is made for no two are alike. -/
theorem exhausted_of_history (history : History mode shelf cacheRoot c t) (straight : Straight t c.root)
    (bound : Artifact.bind t mode origin key source = .ok a)
    (sizesTold : mode = .content → ∀ name ∈ Naming.candidates a, ∀ content held,
      t.read a.source = .ok content → t.read (c.root / name) = .ok held →
      Digest.sha256Hex held = Digest.sha256Hex content → held.size = content.size)
    (failed : outcome (fetch a forced (c, t)) = .error (exhausted c a)) :
    mode = .coordinate ∧ (Lone a.key → ∃ content contents, t.read a.source = .ok content ∧
      List.Forall₂ (fun (name : String) held => t.read (c.root / name) = .ok held)
        (Naming.candidates a) contents ∧
      (content :: contents).Pairwise fun x y => ¬ Digest.Alike x y) := by
  obtain ⟨bytes, read, told⟩ := told_of_bind bound
  have explained := history.explained straight
  have named := fetch_named explained.rooted straight history.root_ne_empty told.isDigest forced
  generalize fetch a forced (c, t) = result at named failed
  cases named with
  | other _ reason => exact absurd failed reason
  | settled => cases failed
  | @exhausted middle opened directory passed =>
    have explained' := explained.same opened.same opened.rooted history.root_ne_empty
    have read' := opened.grown.read read
    cases mode with
    | content =>
      have whole : s!"{Naming.stem a.key}-{a.hash.digits}.{a.extension}" ∈ Naming.candidates a := by
        simp [Naming.candidates]
      obtain ⟨b, held, explains, differs⟩ :=
        explained'.of_passed directory told.isDigest whole read' (passed _ whole)
      have hashes := Naming.hash_of_whole told.isDigest explains.told.isDigest explains.candidate
      have same : Digest.sha256Hex held = Digest.sha256Hex bytes := by
        have own : a.hash = ⟨Digest.sha256Hex bytes⟩ := told
        have other : b.hash = ⟨Digest.sha256Hex held⟩ := explains.told
        simpa [own, other] using hashes.symm
      have before := explained.read_before opened directory told.isDigest whole explains.read
      have alike : Digest.Alike held bytes := ⟨sizesTold rfl _ whole bytes held read before same, same⟩
      exact absurd alike (differs.resolve_left (by simp [hashes]))
    | coordinate =>
      refine ⟨rfl, fun lone => ?_⟩
      have others : ∀ name, name ∈ Naming.candidates a →
          ∃ held, t.read (c.root / name) = .ok held ∧ ¬ Digest.Alike held bytes := fun name candidate => by
        obtain ⟨held, stands, differs⟩ :=
          explained'.reads_other directory told lone candidate read' (passed name candidate)
        exact ⟨held, explained.read_before opened directory told.isDigest candidate stands, differs⟩
      choose! held stands differs using others
      refine ⟨bytes, (Naming.candidates a).map held, read, ?_, ?_⟩
      · exact List.forall₂_map_right_iff.mpr (List.forall₂_same.mpr stands)
      · refine List.pairwise_cons.mpr ⟨fun other member alike => ?_, ?_⟩
        · obtain ⟨name, candidate, rfl⟩ := List.mem_map.mp member
          exact differs name candidate alike.symm
        · exact explained.contents_apart history.root_ne_empty told lone stands

/-- Overwriting a file that is not below the directory goes on with a history. -/
theorem History.rewritten {place : Location} (history : History mode shelf cacheRoot c t)
    (rooted : t.Rooted) (named : place ≠ []) (parent : t.node? place.dropLast = some .directory)
    (vacant : t.node? place ≠ some .directory) (outside : ¬ t.lexical c.root <+: place)
    (bytes : ByteArray) : History mode shelf cacheRoot c (t.insert place (.file bytes)) := by
  have edited : Edited (fun _ => False) (· = place) t (t.insert place (.file bytes)) :=
    edited_file rooted named parent vacant rfl
  refine .others history edited.rooted ⟨edited.workingDir, edited.isDir, fun name rest => ?_⟩
  refine edited.same id ?_
  rintro rfl
  exact outside (List.prefix_append _ _)

private theorem straight_of_downward (downward : ".." ∉ root.pieces) (t : Tree) : Straight t root := by
  have further {pieces : List String} (place : Location) (down : ".." ∉ pieces) :
      place <+: pieces.foldl advance place := by
    induction pieces generalizing place with
    | nil => exact List.prefix_rfl
    | cons piece rest ih =>
      simp only [List.mem_cons, not_or] at down
      refine List.IsPrefix.trans ?_ (ih _ down.2)
      unfold advance
      split
      · exact List.prefix_rfl
      · rw [if_neg (Ne.symm down.1)]
        exact List.prefix_append _ _
  rintro name ⟨front, ⟨rest, split⟩, same⟩
  have down : ".." ∉ rest := fun up => downward (by simp [← split, up])
  have beyond : t.lexical root ++ [name] <+: t.lexical root := by
    have beyond := further (front.foldl advance (t.start root)) down
    rwa [← List.foldl_append, split, ← same] at beyond
  have lengths := beyond.length_le
  simp at lengths

/-- A jar whose digest is taken over its coordinate. -/
def coordinateJar : Artifact where
  key := Naming.dashedVersion.key
  source := ⟨"/x.jar"⟩
  hash := ⟨"d2f3cb0190c23efd8156668471b7946074e2f6e8f8abb8522b574256660912a6"⟩
  origin := .external

private theorem told_coordinateJar (bytes : ByteArray) : Told .coordinate coordinateJar bytes := by
  have digits : (ContentHash.ofCoordinate Naming.dashedVersion.key).digits =
      coordinateJar.hash.digits := by decide +kernel
  exact congrArg ContentHash.mk digits.symm

/-- The files when the jar is given new contents and requested from a new cache, the latest contents
first. -/
def afterJars : List ByteArray → Tree
  | [] => jarTree
  | bytes :: earlier =>
    (left (fetch coordinateJar false (jarCache, (afterJars earlier).insert ["x.jar"] (.file bytes)))).2

/-- The jar is bound to its new contents. -/
theorem bind_coordinateJar (t : Tree) (bytes : ByteArray) :
    Artifact.bind (t.insert ["x.jar"] (.file bytes)) .coordinate .external coordinateJar.key
      coordinateJar.source = .ok coordinateJar := by
  have directory : (t.insert ["x.jar"] (.file bytes)).isDir ⟨"/"⟩ = true := rfl
  have named : Path.IsName "x.jar" := ⟨by decide, by decide, by decide, by decide⟩
  have file : (t.insert ["x.jar"] (.file bytes)).isFile coordinateJar.source = true := by
    refine isFile_iff.mpr ⟨bytes, (status_join_iff directory named).mpr ⟨by decide, by decide, ?_⟩⟩
    exact node?_insert_self (by simp)
  have hash : coordinateJar.hash = .ofCoordinate coordinateJar.key := told_coordinateJar .empty
  simp only [Artifact.bind, file, ← hash]
  rfl

private theorem lexical_jarCache (t : Tree) : t.lexical jarCache.root = ["cache", "external"] := by
  rw [lexical, start, if_pos (by decide)]
  decide

private theorem straight_jarCache (t : Tree) : Straight t jarCache.root :=
  straight_of_downward (by decide) t

/-- A history goes on when the jar is given new contents. -/
theorem rewritten_jar {former : ByteArray} (history : History .coordinate .external ⟨"/cache"⟩ jarCache t)
    (file : t.node? ["x.jar"] = some (.file former)) (bytes : ByteArray) :
    History .coordinate .external ⟨"/cache"⟩ jarCache (t.insert ["x.jar"] (.file bytes)) := by
  have explained := history.explained (straight_jarCache t)
  refine history.rewritten explained.rooted (by simp) rfl (by simp [file]) ?_ bytes
  rw [lexical_jarCache]
  decide

/-- The jar can be given new contents and requested again and again. -/
theorem history_jars (contents : List ByteArray) :
    History .coordinate .external ⟨"/cache"⟩ jarCache (afterJars contents) ∧
      ∃ bytes, (afterJars contents).node? ["x.jar"] = some (.file bytes) := by
  induction contents with
  | nil =>
    refine ⟨.begun _ ?_ fun name rest => ?_, .empty, rfl⟩
    · exact Rooted.insert rooted_empty (by simp) rfl (Or.inr (by decide))
    · have place : jarTree.lexical ((⟨"/cache"⟩ : Path) / Shelf.external.dirName) = _ := lexical_jarCache jarTree
      rw [afterJars, place, jarTree, node?_insert (by simp)]
      simp [node?, Tree.empty]
  | cons bytes earlier ih =>
    obtain ⟨history, former, file⟩ := ih
    have rewritten := rewritten_jar history file bytes
    refine ⟨.renewed (rewritten.asked (bind_coordinateJar _ bytes) false) _, bytes, ?_⟩
    have digest := (told_coordinateJar .empty).isDigest
    have held : ((afterJars earlier).insert ["x.jar"] (.file bytes)).node? ["x.jar"] =
        some (.file bytes) := node?_insert_self (by simp)
    rcases fetch_adds history.root_ne_empty digest false
      ((afterJars earlier).insert ["x.jar"] (.file bytes)) with ⟨grown, -⟩ | ⟨_, -, _, _, _, ran, -, added⟩
    · exact grown.kept held
    · rw [afterJars, ran]
      exact added.grown.kept held

/-- Three runs have put three contents under the names of the jar; the fourth is left without one. -/
theorem fourth_jar_exhausted :
    let t := (afterJars [⟨#[2]⟩, ⟨#[1]⟩, ⟨#[0]⟩]).insert ["x.jar"] (.file ⟨#[3]⟩)
    outcome (fetch coordinateJar false (jarCache, t)) = .error (exhausted jarCache coordinateJar) ∧
      ∃ content contents, t.read coordinateJar.source = .ok content ∧
        List.Forall₂ (fun (name : String) held => t.read (jarCache.root / name) = .ok held)
          (Naming.candidates coordinateJar) contents ∧
        (content :: contents).Pairwise fun x y => ¬ Digest.Alike x y := by
  intro t
  have failed : outcome (fetch coordinateJar false (jarCache, t)) =
      .error (exhausted jarCache coordinateJar) := by decide +kernel
  obtain ⟨history, former, file⟩ := history_jars [⟨#[2]⟩, ⟨#[1]⟩, ⟨#[0]⟩]
  have lone : Lone coordinateJar.key := fun other _ collide => absurd collide.2.1 (by decide)
  exact ⟨failed, (exhausted_of_history (rewritten_jar history file _) (straight_jarCache t)
    (bind_coordinateJar _ _) nofun failed).2 lone⟩

end RuleDepot.Cache
