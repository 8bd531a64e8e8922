import RuleDepot.Proofs.Cache.Permuting
import RuleDepot.Proofs.Files.Paving
/-!
Requests that fail.  A request that fails leaves its cache as it was, and of the files at most directories
on the way to the locks and its own lock, which is empty.  Whatever is done later comes to the same with
these and without: a later request makes the same directories itself before it looks at anything, and takes
no notice of the locks of others.  Only who goes through such a directory and out of it again can tell that
it is there.
-/

namespace RuleDepot.Cache

open RuleDepot.Tree Running

variable {c c' s : Cache} {a b : Artifact} {forced : Bool} {t t' u v : Tree} {root : Path} {e : BuildError}
  {place : Location} {node : Node}

/-- A directory was made where nothing stood. -/
def Made (t t' : Tree) (place : Location) : Prop :=
  t.node? place = none ∧ t'.node? place = some .directory

/-- What a request that failed may have left: directories on the way to the locks, though not the one where
that way begins, and its lock, if the way to the locks does not lead through it. -/
inductive Leftover (root : Path) (a : Artifact) (t t' : Tree) : Location → Node → Prop where
  | directory {place : Location} (passes : t.Passes (root / ".locks") place)
      (behind : place ≠ t.start (root / ".locks")) (made : Made t t' place) :
      Leftover root a t t' place .directory
  | lock {place : Location}
      (own : place = t.lexical (root / ".locks" / s!"{Naming.stem a.key}.lock"))
      (fits : admissible (root / ".locks" / s!"{Naming.stem a.key}.lock") = .ok ())
      (short : s!"{Naming.stem a.key}.lock".utf8ByteSize ≤ nameLimit)
      (off : ¬ t.Passes (root / ".locks") place) : Leftover root a t t' place (.file .empty)

/-- Two trees of which the second has what a failed request left, and nothing else, beyond the first. -/
structure Beyond (root : Path) (a : Artifact) (t t' u v : Tree) : Prop where
  workingDir : u.workingDir = t.workingDir
  rooted : u.Rooted
  rooted' : v.Rooted
  grown : Grown (Leftover root a t t') u v

/-- The lock is in the directory of the cache. -/
theorem lexical_lock (root : Path) (a : Artifact) (t : Tree) :
    t.lexical (root / ".locks" / s!"{Naming.stem a.key}.lock") =
      t.lexical root ++ [".locks", s!"{Naming.stem a.key}.lock"] := by
  rw [lexical_join t (Naming.isName_lock a.key), lexical_join t isName_locks]
  exact List.append_assoc ..

/-- Outside of the cache there are only directories among the leftovers. -/
theorem Leftover.outside (new : Leftover root a t t' place node) (outside : ¬ t.lexical root <+: place) :
    node = .directory ∧ Made t t' place := by
  cases new with
  | directory _ _ made => exact ⟨rfl, made⟩
  | lock own =>
    refine absurd ?_ outside
    rw [own, lexical_lock]
    exact List.prefix_append _ _

/-- What is made for the locks is made on the way to them, and behind where that begins. -/
theorem made_of_makeDirs (rooted : t.Rooted)
    (held : (left (FileM.makeDirs (root / ".locks") t)).node? place = some node)
    (absent : t.node? place = none) :
    t.Passes (root / ".locks") place ∧ place ≠ t.start (root / ".locks") ∧ node = .directory := by
  have edited := FileM.makeDirs_edited (root / ".locks") rooted
  rcases @edited.elsewhere place id with same | ⟨passes, -, directory⟩
  · rw [same, absent] at held
    cases held
  · refine ⟨passes, ?_, ?_⟩
    · rintro rfl
      have lost : t.node? (t.start (root / ".locks")) ≠ some .directory := by simp [absent]
      have stays := (FileM.makeChain_astray ((root / ".locks").pieces.length + 2) lost).1
      change left (FileM.makeDirs (root / ".locks") t) = t at stays
      rw [stays, absent] at held
      cases held
    · rw [directory] at held
      exact (Option.some.inj held).symm

private theorem grown_makeDirs (a : Artifact) (rooted : t.Rooted) {allowed : Location → Node → Prop}
    (later : Grown allowed (left (FileM.makeDirs (root / ".locks") t)) t') :
    Grown (Leftover root a t t') t (left (FileM.makeDirs (root / ".locks") t)) := by
  have grown := (FileM.makeDirs_secures (root / ".locks") t).1
  refine ⟨grown.workingDir, grown.kept, fun {place node} held absent => ?_⟩
  obtain ⟨passes, behind, rfl⟩ := made_of_makeDirs rooted held absent
  exact .directory passes behind ⟨absent, later.kept held⟩

/-- Where the locks are, a request that fails leaves at most its lock. -/
theorem grown_failed {base : Tree} (solid : c.root.text ≠ "") (locks : base.isDir c.lockDir = true)
    (same : base.workingDir = t.workingDir) (digest : a.hash.IsDigest)
    (failed : fetch a forced (c, base) = .error e (c', t')) :
    c' = c ∧ Grown (Leftover c.root a t t') base t' := by
  have files := fetch_files (s := (c, base)) solid locks digest forced
  have listed := fetch_cases c a forced base
  rw [failed] at files listed
  generalize ended : EStateM.Result.error e (c', t') = result at listed
  cases listed with
  | inPlace | known | stored => cases ended
  | refused =>
    cases ended
    exact ⟨rfl, .refl _ _⟩
  | failed _ _ _ locked =>
    cases ended
    refine ⟨rfl, locked.workingDir, locked.kept, fun {place node} held absent => ?_⟩
    obtain ⟨-, bytes, rfl⟩ := files.fresh held absent
    obtain ⟨⟨⟩⟩ | ⟨leads, empty⟩ := locked.fresh held absent
    obtain ⟨before, aims⟩ := aims_of_found (Naming.isName_lock a.key) leads
    have own := (locate_lexical leads).trans
      (lexical_congr (locked.workingDir.trans same) (c.lockFile a))
    rw [empty]
    refine .lock own aims.fits aims.short fun passes => ?_
    have there := directory_of_passes locks ((passes_congr same _ _).mpr passes)
    exact absurd (there.symm.trans absent) nofun

/-- A request that fails leaves its cache as it was, and at most its leftovers in the files. -/
theorem beyond_of_failed (rooted : t.Rooted) (solid : c.root.text ≠ "") (digest : a.hash.IsDigest)
    (failed : fetch a forced (c, t) = .error e (c', t')) : c' = c ∧ Beyond c.root a t t' t t' := by
  have kept := rooted_fetch rooted solid digest forced
  rw [failed] at kept
  obtain ⟨rooted', workingDir⟩ : t'.Rooted ∧ t'.workingDir = t.workingDir := kept
  by_cases busy : Busy c a forced
  · have opened (later : Grown (fun _ _ => True) (left (FileM.makeDirs c.lockDir t)) t') :
        Grown (Leftover c.root a t t') t (left (FileM.makeDirs c.lockDir t)) :=
      grown_makeDirs a rooted later
    cases ran : FileM.makeDirs c.lockDir t with
    | error e base =>
      rw [fetch_barred ran busy] at failed
      cases failed
      rw [ran] at opened
      exact ⟨rfl, rfl, rooted, rooted', opened (.refl _ _)⟩
    | ok _ base =>
      rw [ran] at opened
      rw [fetch_from_locks ran busy] at failed
      have same := FileM.workingDir_makeDirs c.lockDir t
      rw [ran] at same
      obtain ⟨rfl, grown⟩ := grown_failed solid (locks_of_made ran) same digest failed
      exact ⟨rfl, rfl, rooted, rooted', (opened (grown.mono fun _ _ _ => trivial)).trans grown⟩
  · have idle := left_of_idle busy t
    rw [failed] at idle
    obtain ⟨rfl, rfl⟩ : c' = c ∧ t' = t := Prod.mk.inj idle
    exact ⟨rfl, rfl, rooted, rooted, .refl _ _⟩

/-- Two results that are the same, or both that the locks cannot be given a directory, maybe for different
reasons. -/
inductive SameResult {α : Type} (locks : Path) : Except BuildError α → Except BuildError α → Prop where
  | same (o : Except BuildError α) : SameResult locks o o
  | barred (e e' : IoError) : SameResult locks
      (.error (.io s!"creating lock directory {locks.text}" e))
      (.error (.io s!"creating lock directory {locks.text}" e'))

/-- Two runs of the same step that come to the same, or both fail at the directory of the locks; they leave
the same cache and related files. -/
inductive Tracks {α : Type} (R : Tree → Tree → Prop) (locks : Path) :
    EStateM.Result BuildError (Cache × Tree) α → EStateM.Result BuildError (Cache × Tree) α → Prop where
  | same {x y : EStateM.Result BuildError (Cache × Tree) α} (runs : Matches (Beside id R) x y) :
      Tracks R locks x y
  | barred (e e' : IoError) (c : Cache) {u v : Tree} (related : R u v) : Tracks R locks
      (.error (.io s!"creating lock directory {locks.text}" e) (c, u))
      (.error (.io s!"creating lock directory {locks.text}" e') (c, v))

namespace Tracks

variable {α β : Type} {R : Tree → Tree → Prop} {locks : Path}
  {x y : EStateM.Result BuildError (Cache × Tree) α}

theorem sameResult (tracks : Tracks R locks x y) : SameResult locks (outcome x) (outcome y) := by
  cases tracks with
  | same runs =>
    rw [runs.outcome_eq]
    exact .same _
  | barred e e' => exact .barred e e'

theorem beside (tracks : Tracks R locks x y) : Beside id R (left x) (left y) := by
  cases tracks with
  | same runs => exact runs.related
  | barred e e' c related => exact ⟨rfl, related⟩

/-- A sequence goes alike if its parts do. -/
theorem bind {first : Step Cache α} {f : α → Step Cache β} {s s' : Cache × Tree}
    (begins : Tracks R locks (first s) (first s'))
    (goes : ∀ r c u v, first s = .ok r (c, u) → first s' = .ok r (c, v) → R u v →
      Tracks R locks (f r (c, u)) (f r (c, v))) :
    Tracks R locks ((first >>= f) s) ((first >>= f) s') := by
  rw [bind_run, bind_run]
  generalize ran : first s = x at begins
  generalize ran' : first s' = y at begins
  cases begins with
  | barred e e' c related => exact .barred e e' c related
  | same runs =>
    cases runs with
    | error related => exact .same (.error related)
    | @ok r s₁ s₁' related =>
      obtain ⟨c, u⟩ := s₁
      obtain ⟨c', v⟩ := s₁'
      obtain ⟨rfl, related⟩ := related
      exact goes r c' u v ran ran' related

end Tracks

namespace Beyond

variable (beyond : Beyond root a t t' u v)

include beyond

theorem lexical (p : Path) : u.lexical p = t.lexical p :=
  lexical_congr beyond.workingDir p

/-- The directory of the locks can be made in both trees or in neither. -/
theorem makeDirs : FileM.Together (Beyond root a t t') (FileM.makeDirs (root / ".locks") u)
    (FileM.makeDirs (root / ".locks") v) := by
  have starts : u.start (root / ".locks") = t.start (root / ".locks") := start_congr beyond.workingDir _
  have starts' : v.start (root / ".locks") = u.start (root / ".locks") :=
    start_congr beyond.grown.workingDir _
  have begins (held : v.node? (v.start (root / ".locks")) = some .directory) :
      u.node? (u.start (root / ".locks")) = some .directory := by
    rw [starts', starts] at held
    rw [starts]
    cases held' : u.node? (t.start (root / ".locks")) with
    | some node => exact (beyond.grown.kept held').symm.trans held ▸ rfl
    | none =>
      cases beyond.grown.fresh held held' with
      | directory _ behind => exact absurd rfl behind
  have way {place : Location} {node : Node} (passes : u.Passes (root / ".locks") place)
      (new : Leftover root a t t' place node) : node = .directory := by
    cases new with
    | directory => rfl
    | lock _ _ _ off => exact absurd ((passes_congr beyond.workingDir _ _).mp passes) off
  have together := FileM.makeDirs_grown isName_locks beyond.grown beyond.rooted beyond.rooted' begins way
  have edited := FileM.makeDirs_edited (root / ".locks") beyond.rooted
  have edited' := FileM.makeDirs_edited (root / ".locks") beyond.rooted'
  generalize FileM.makeDirs (root / ".locks") u = x at together edited
  generalize FileM.makeDirs (root / ".locks") v = y at together edited'
  have same := edited.workingDir.trans beyond.workingDir
  cases together with
  | ok grown => exact .ok ⟨same, edited.rooted, edited'.rooted, grown⟩
  | error grown => exact .error ⟨same, edited.rooted, edited'.rooted, grown⟩

/-- Where the locks are, the lock is all that can be missing in the first tree. -/
theorem only_lock (locks : u.isDir (root / ".locks") = true) (held : v.node? place = some node)
    (absent : u.node? place = none) :
    place = t.lexical (root / ".locks" / s!"{Naming.stem a.key}.lock") ∧ node = .file .empty ∧
      admissible (root / ".locks" / s!"{Naming.stem a.key}.lock") = .ok () ∧
      s!"{Naming.stem a.key}.lock".utf8ByteSize ≤ nameLimit := by
  cases beyond.grown.fresh held absent with
  | lock own fits short => exact ⟨own, rfl, fits, short⟩
  | directory passes =>
    have there := directory_of_passes locks ((passes_congr beyond.workingDir _ _).mpr passes)
    rw [absent] at there
    cases there

/-- Where the locks are, the same stands everywhere else than at the lock. -/
theorem sameBut_lock (locks : u.isDir (root / ".locks") = true) :
    SameBut (· = t.lexical (root / ".locks" / s!"{Naming.stem a.key}.lock")) u v where
  workingDir := beyond.grown.workingDir
  node {place} other := by
    cases held : u.node? place with
    | some node => exact beyond.grown.kept held
    | none =>
      cases held' : v.node? place with
      | none => rfl
      | some node => exact absurd (beyond.only_lock locks held' held).1 other

/-- Where the locks are and the lock is no matter, the same stands everywhere. -/
theorem same (locks : u.isDir (root / ".locks") = true)
    (settled : u.node? (t.lexical (root / ".locks" / s!"{Naming.stem a.key}.lock")) ≠ none ∨
      v.node? (t.lexical (root / ".locks" / s!"{Naming.stem a.key}.lock")) = none) :
    SameBut (fun _ => False) u v where
  workingDir := beyond.grown.workingDir
  node {place} _ := by
    by_cases own : place = t.lexical (root / ".locks" / s!"{Naming.stem a.key}.lock")
    · subst own
      cases held : u.node? (t.lexical (root / ".locks" / s!"{Naming.stem a.key}.lock")) with
      | some node => exact beyond.grown.kept held
      | none => exact settled.resolve_left fun present => present held
    · exact (beyond.sameBut_lock locks).node own

end Beyond

private theorem fetch_from_lock (busy : Busy c a forced) (locks : t.isDir c.lockDir = true)
    (touched : FileM.touch (c.lockFile a) t = .ok () t') :
    fetch a forced (c, t) = fetch a forced (c, t') := by
  have grown : Grown (Files (· = t.lexical (c.lockFile a))) t (left (FileM.touch (c.lockFile a) t)) :=
    grown_touch (.refl _ t) rfl
  rw [touched] at grown
  have locks' : t'.isDir c.lockDir = true := grown.isDir locks
  have taken := lock_again locks' (FileM.isFile_of_touch touched)
  rw [fetch_of_busy busy, fetch_of_busy busy, bind_run, bind_run, taken, lock_of_locks locks,
    Step.files_run, touched]

/-- A request that makes the cache do nothing does not look at the files. -/
theorem matches_of_idle {R : Tree → Tree → Prop} (idle : ¬ Busy c a forced) (related : R u v) :
    Matches (Beside id R) (fetch a forced (c, u)) (fetch a forced (c, v)) := by
  have told := outcome_of_idle idle (unnoticed_id a) u v
  have here := left_of_idle idle u
  have there := left_of_idle idle v
  rw [id_eq] at told
  generalize fetch a forced (c, u) = x at told here ⊢
  generalize fetch a forced (c, v) = y at told there ⊢
  cases x with
  | ok r s =>
    obtain rfl : s = (c, u) := here
    cases y with
    | ok r' s' =>
      obtain rfl : s' = (c, v) := there
      obtain rfl := Except.ok.inj told
      exact .ok ⟨rfl, related⟩
    | error e s' => cases told
  | error e s =>
    obtain rfl : s = (c, u) := here
    cases y with
    | ok r' s' => cases told
    | error e' s' =>
      obtain rfl : s' = (c, v) := there
      obtain rfl := Except.error.inj told
      exact .error ⟨rfl, related⟩

section Opened

variable (beyond : Beyond s.root a t t' u v) (solid : s.root.text ≠ "")
  (locks : u.isDir s.lockDir = true) (digest : b.hash.IsDigest)

include beyond solid locks digest

/-- Where the locks are, a request for an artifact with another lock does not look at the one that was
left. -/
theorem fetch_beside_lock (outside : ¬ t.lexical s.root <+: t.lexical b.source)
    (stems : Naming.stem a.key ≠ Naming.stem b.key)
    (absent : u.node? (t.lexical (s.lockFile a)) = none) (forced : Bool) :
    Matches (Beside id (Grown (Leftover s.root a t t'))) (fetch b forced (s, u))
      (fetch b forced (s, v)) := by
  have placed : t.lexical (s.lockFile a) = u.lexical s.root ++
      [".locks", s!"{Naming.stem a.key}.lock"] := by
    rw [beyond.lexical]
    exact lexical_lock s.root a t
  have apart : ¬ Marks (u.lexical s.root) b (t.lexical (s.lockFile a)) := fun marks =>
    stems (stem_of_marks (placed ▸ marks))
  have outside' : Outside s.root u b := by
    unfold Outside
    rwa [beyond.lexical, beyond.lexical]
  have blind : Blind (Furnished u (Marks (u.lexical s.root) b)
      (fun place => Marks (u.lexical s.root) b place ∨ place = t.lexical (s.lockFile a))
      (· = t.lexical (s.lockFile a))) s.root b := by
    refine blind_of_locks solid digest locks (fun place mine => ⟨mine, Or.inl mine, ?_⟩) ?_
      ⟨outside'.unmarked b, ?_⟩
    · rintro rfl
      exact apart mine
    · rintro place rfl
      exact absent
    · rintro (marks | own)
      · exact outside'.unmarked b marks
      · refine outside' ?_
        rw [own, placed]
        exact List.prefix_append _ _
  have grown : Grown (Files fun place => Marks (u.lexical s.root) b place ∨
      place = t.lexical (s.lockFile a)) u v := by
    refine ⟨beyond.grown.workingDir, beyond.grown.kept, fun held absent => ?_⟩
    obtain ⟨own, rfl, -⟩ := beyond.only_lock locks held absent
    exact ⟨Or.inr own, _, rfl⟩
  have same : SameBut (· = t.lexical (s.lockFile a)) u v := beyond.sameBut_lock locks
  have runs := blind.fetch_matches (unnoticed_id b) solid ⟨same, .refl _ _, grown⟩ forced
  have here := fetch_files (s := (s, u)) solid locks digest forced
  have there := fetch_files (s := (s, v)) solid (beyond.grown.isDir locks) digest forced
  have lexical : v.lexical s.root = u.lexical s.root := beyond.grown.lexical _
  rw [id_eq] at runs
  refine runs.imp fun ⟨caches, same, _, _⟩ => ⟨caches, same.grown_of_absent ?_ fun held => ?_⟩
  · rw [here.unmoved apart, absent]
  · rw [there.unmoved (lexical ▸ apart)] at held
    exact beyond.grown.fresh held absent

/-- Where the locks are, a request for an artifact with the same lock makes sure of the one that was left,
and then everything is the same. -/
theorem fetch_with_lock (stems : Naming.stem a.key = Naming.stem b.key)
    (absent : u.node? (t.lexical (s.lockFile a)) = none)
    (held : v.node? (t.lexical (s.lockFile a)) = some node) (busy : Busy s b forced) :
    Matches (Beside id (SameBut fun _ => False)) (fetch b forced (s, u)) (fetch b forced (s, v)) := by
  obtain ⟨-, rfl, fits, short⟩ := beyond.only_lock locks held absent
  have own : s.lockFile b = s.lockFile a := by simp only [lockFile, stems]
  obtain ⟨before, aims⟩ := aims_join locks (Naming.isName_lock a.key) fits short
  have leads : u.lexical (s.lockFile a) = t.lexical (s.lockFile a) := beyond.lexical _
  have touched : FileM.touch (s.lockFile b) u =
      .ok () (u.insert (t.lexical (s.lockFile a)) (.file .empty)) := by
    rw [own, ← leads]
    exact FileM.touch_of_absent aims (leads ▸ absent)
  have named : t.lexical (s.lockFile a) ≠ [] := leads ▸ aims.lexical_ne_nil
  have same : SameBut (fun _ => False) (u.insert (t.lexical (s.lockFile a)) (.file .empty)) v := by
    refine ⟨beyond.grown.workingDir, fun {place} _ => ?_⟩
    rw [node?_insert named]
    split
    · rename_i own
      rw [own, held]
    · rename_i other
      exact (beyond.sameBut_lock locks).node other
  rw [fetch_from_lock busy locks touched]
  have agree : Agree (s, u.insert (t.lexical (s.lockFile a)) (.file .empty)) (s, v) := ⟨rfl, same⟩
  exact agree.fetch solid digest forced

/-- Where the locks are, a request comes to the same with the leftovers and without. -/
theorem fetch_opened (outside : ¬ t.lexical s.root <+: t.lexical b.source) (busy : Busy s b forced) :
    Matches (Beside id (Grown (Leftover s.root a t t'))) (fetch b forced (s, u))
      (fetch b forced (s, v)) := by
  have alike (same : SameBut (fun _ => False) u v) :
      Matches (Beside id (Grown (Leftover s.root a t t'))) (fetch b forced (s, u))
        (fetch b forced (s, v)) := by
    have agree : Agree (s, u) (s, v) := ⟨rfl, same⟩
    exact (agree.fetch solid digest forced).mono fun _ _ => And.imp_right SameBut.grown
  cases absent : u.node? (t.lexical (s.lockFile a)) with
  | some node => exact alike (beyond.same locks (Or.inl fun missing => by cases absent.symm.trans missing))
  | none =>
    cases held : v.node? (t.lexical (s.lockFile a)) with
    | none => exact alike (beyond.same locks (Or.inr held))
    | some node =>
      by_cases stems : Naming.stem a.key = Naming.stem b.key
      · exact (fetch_with_lock beyond solid locks digest stems absent held busy).mono
          fun _ _ => And.imp_right SameBut.grown
      · exact fetch_beside_lock beyond solid locks digest outside stems absent forced

end Opened

namespace Beyond

/-- **A request comes to the same** with the leftovers of one that failed and without. -/
theorem fetch (beyond : Beyond s.root a t t' u v) (solid : s.root.text ≠ "") (digest : b.hash.IsDigest)
    (outside : ¬ t.lexical s.root <+: t.lexical b.source) (forced : Bool) :
    Tracks (Beyond s.root a t t') s.lockDir (fetch b forced (s, u)) (fetch b forced (s, v)) := by
  by_cases busy : Busy s b forced
  · have together : FileM.Together (Beyond s.root a t t') (FileM.makeDirs s.lockDir u)
        (FileM.makeDirs s.lockDir v) := beyond.makeDirs
    cases made : FileM.makeDirs s.lockDir u with
    | error e u' =>
      cases made' : FileM.makeDirs s.lockDir v with
      | ok _ v' =>
        rw [made, made'] at together
        cases together
      | error e' v' =>
        rw [made, made'] at together
        cases together with
        | error related =>
          rw [fetch_barred made busy, fetch_barred made' busy]
          exact .barred e e' s related
    | ok _ u' =>
      cases made' : FileM.makeDirs s.lockDir v with
      | error e' v' =>
        rw [made, made'] at together
        cases together
      | ok _ v' =>
        rw [made, made'] at together
        cases together with
        | ok related =>
          rw [fetch_from_locks made busy, fetch_from_locks made' busy]
          have runs := fetch_opened related solid (locks_of_made made) digest outside busy
          obtain ⟨rooted, same⟩ := rooted_fetch related.rooted solid digest forced
          obtain ⟨rooted', -⟩ := rooted_fetch related.rooted' solid digest forced
          exact .same (runs.imp fun ⟨caches, grown⟩ =>
            ⟨caches, same.trans related.workingDir, rooted, rooted', grown⟩)
  · exact .same (matches_of_idle busy beyond)

/-- Several requests come to the same with the leftovers and without. -/
theorem fetchAll {requests : List (Artifact × Bool)} (beyond : Beyond s.root a t t' u v)
    (solid : s.root.text ≠ "") (digests : ∀ r ∈ requests, r.1.hash.IsDigest)
    (outside : ∀ r ∈ requests, ¬ t.lexical s.root <+: t.lexical r.1.source) :
    Tracks (Beyond s.root a t t') s.lockDir (fetchAll requests (s, u)) (fetchAll requests (s, v)) := by
  induction requests generalizing s u v with
  | nil => exact .same (.ok ⟨rfl, beyond⟩)
  | cons r rest ih =>
    obtain ⟨digest, digests⟩ := List.forall_mem_cons.mp digests
    obtain ⟨source, outside⟩ := List.forall_mem_cons.mp outside
    rw [fetchAll_cons]
    refine (beyond.fetch solid digest source r.2).bind fun entry c u' v' ran _ beyond' => ?_
    have root := fetch_root s r.1 r.2 u
    rw [ran] at root
    replace root : c.root = s.root := root
    have locks : c.lockDir = s.lockDir := by rw [lockDir, lockDir, root]
    rw [← root] at beyond' outside solid
    rw [← root, ← locks]
    refine (ih beyond' solid digests outside).bind fun others c' u'' v'' ran _ beyond'' => ?_
    exact .same (.ok ⟨rfl, beyond''⟩)

end Beyond

end RuleDepot.Cache
