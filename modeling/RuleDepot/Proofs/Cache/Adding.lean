import RuleDepot.Proofs.Cache.Repeating
import RuleDepot.Proofs.Files.Agreeing
/-!
Where a request leaves files.  A request first makes the directory of the locks, with all that is missing
on the way to it.  If that fails, so does the request; else the directory of the cache is there as well,
and the request adds nothing but its own lock and a file under one of its candidate names.
-/

namespace RuleDepot.Cache

open RuleDepot.Tree Running

variable {c : Cache} {a b : Artifact} {forced : Bool} {t t' base : Tree} {root : Path}
  {own : Location → Prop} {name : String} {names : List String} {e : IoError}

/-- The places at which a request for an artifact may leave a file. -/
def Marks (dir : Location) (a : Artifact) (place : Location) : Prop :=
  place = dir ++ [".locks", s!"{Naming.stem a.key}.lock"] ∨
    ∃ name ∈ Naming.candidates a, place = dir ++ [name]

theorem marks_lock (root : Path) (a : Artifact) (t : Tree) :
    Marks (t.lexical root) a (t.lexical (root / ".locks" / s!"{Naming.stem a.key}.lock")) := by
  rw [lexical_join t (Naming.isName_lock a.key), lexical_join t isName_locks]
  exact Or.inl (List.append_assoc ..)

/-- The lock of an artifact is one of the places of a request only if the names of the locks are the same. -/
theorem stem_of_marks {dir : Location}
    (marks : Marks dir b (dir ++ [".locks", s!"{Naming.stem a.key}.lock"])) :
    Naming.stem a.key = Naming.stem b.key := by
  rcases marks with same | ⟨name, -, same⟩
  · have locks : s!"{Naming.stem a.key}.lock" = s!"{Naming.stem b.key}.lock" := by
      simpa using List.append_cancel_left same
    have spelled := congrArg String.toList locks
    exact String.toList_inj.mp (by simpa [toString] using spelled)
  · simp at same


theorem marks_candidate (root : Path) (t : Tree) (digest : a.hash.IsDigest)
    (candidate : name ∈ Naming.candidates a) :
    Path.IsName name ∧ Marks (t.lexical root) a (t.lexical (root / name)) := by
  have named := (Naming.isName_candidate digest candidate).1
  exact ⟨named, Or.inr ⟨name, candidate, lexical_join t named⟩⟩

theorem grown_touch {p : Path} (grown : Grown (Files own) base t) (inside : own (base.lexical p)) :
    Grown (Files own) base (left (FileM.touch p t)) := by
  refine grown.trans ((FileM.touch_grown p t).mono ?_)
  rintro place node ⟨rfl, rfl⟩
  exact ⟨by rwa [grown.lexical], _, rfl⟩

/-- A copy is put where nothing stood, into a directory that is there. -/
theorem grown_copy (source : Path) (grown : Grown (Files own) base t)
    (inside : own (base.lexical (root / name))) (directory : t.isDir root = true)
    (named : Path.IsName name) (unreached : t.reaches (root / name) = false) :
    Grown (Files own) base (left (FileM.publishCopy source (root / name) t)) := by
  rcases FileM.publishCopy_in source (isDir_stagingDir_join directory named) with
    ⟨e, failed⟩ | ⟨_, _, _, -, aims, -, copied⟩
  · rwa [failed]
  · have vacant := absent_of_unreached directory named aims unreached
    rw [copied]
    refine grown.trans (grown_insert aims.lexical_ne_nil vacant ⟨?_, _, rfl⟩)
    rwa [grown.lexical]

/-- Where the locks of a cache are, its directory is. -/
theorem isDir_of_locks (solid : root.text ≠ "") (locks : t.isDir (root / ".locks") = true) :
    t.isDir root = true :=
  isDir_of_join solid isName_locks (isDir_iff.mp locks)

/-- Placing an artifact adds at most a file under one of the names.  The induction is on the names that
are left to try. -/
theorem place_files (digest : a.hash.IsDigest) (directory : t.isDir c.root = true)
    (inside : ∀ name ∈ names, name ∈ Naming.candidates a) :
    Grown (Files (Marks (t.lexical c.root) a)) t (left (place a names (c, t))).2 := by
  induction names with
  | nil => exact .refl _ _
  | cons name others ih =>
    obtain ⟨candidate, inside⟩ := List.forall_mem_cons.mp inside
    have tried := place_tries_first a name others c t
    generalize place a (name :: others) (c, t) = result at tried ⊢
    cases tried with
    | kept | unreadable | alike => exact .refl _ _
    | foreign | different => exact ih inside
    | failed _ unreached ran | copied _ unreached ran =>
      obtain ⟨named, mine⟩ := marks_candidate c.root t digest candidate
      have copied := grown_copy a.source (.refl _ t) mine directory named unreached
      rw [ran] at copied
      exact copied

private theorem publish_files (digest : a.hash.IsDigest) (directory : t.isDir c.root = true) :
    Grown (Files (Marks (t.lexical c.root) a)) t (left (publish a (c, t))).2 := by
  cases file : t.isFile a.source with
  | false =>
    rw [publish_of_missing file]
    exact .refl _ _
  | true =>
    rw [publish_of_file file, FileM.ensureDir_of_isDir directory]
    exact place_files digest directory fun _ => id

/-- A request that makes the cache do nothing does not touch the files either. -/
theorem left_of_idle (idle : ¬ Busy c a forced) (t : Tree) : left (fetch a forced (c, t)) = (c, t) := by
  cases received c a forced with
  | refused shut => rw [fetch_of_sealed shut, left]
  | inPlace serving spared => rw [fetch_of_spared serving spared, left]
  | known serving needed held => rw [fetch_of_known serving needed held, left]
  | busy busy => exact absurd busy idle

theorem locks_of_made (made : FileM.makeDirs c.lockDir t = .ok () base) :
    base.isDir c.lockDir = true := by
  have solid : c.lockDir.text ≠ "" := Path.text_join_ne_empty _ (by decide)
  exact ((FileM.makeDirs_secures c.lockDir t).2 base made).resolve_left (by simpa using solid)

/-- Where the locks are, to take one is to make sure of its file. -/
theorem lock_of_locks (locks : t.isDir c.lockDir = true) :
    lock a (c, t) = Step.files (.io s!"acquiring lock {(c.lockFile a).text}")
      (FileM.touch (c.lockFile a)) (c, t) := by
  rw [lock_run, FileM.makeDirs_of_isDir locks]

/-- If the locks can be given a directory, a request is made as if that were there. -/
theorem fetch_from_locks (made : FileM.makeDirs c.lockDir t = .ok () base) (busy : Busy c a forced) :
    fetch a forced (c, t) = fetch a forced (c, base) := by
  have taken : lock a (c, t) = lock a (c, base) := by
    rw [lock_run, lock_run, made, FileM.makeDirs_of_isDir (locks_of_made made)]
  rw [fetch_of_busy busy, fetch_of_busy busy, bind_run, bind_run, taken]

/-- If they cannot, the request fails for that reason. -/
theorem fetch_barred (barred : FileM.makeDirs c.lockDir t = .error e base) (busy : Busy c a forced) :
    fetch a forced (c, t) =
      .error (.io s!"creating lock directory {c.lockDir.text}" e) (c, base) := by
  have failed : lock a (c, t) =
      .error (.io s!"creating lock directory {c.lockDir.text}" e) (c, base) := by
    rw [lock_run, barred]
  rw [fetch_of_busy busy, bind_run, failed]

/-- Where the locks are, a request adds files of its own and nothing else. -/
theorem fetch_files {s : Cache × Tree} (solid : s.1.root.text ≠ "")
    (locks : s.2.isDir s.1.lockDir = true) (digest : a.hash.IsDigest) (forced : Bool) :
    Grown (Files (Marks (s.2.lexical s.1.root) a)) s.2 (left (fetch a forced s)).2 := by
  obtain ⟨c, t⟩ := s
  by_cases busy : Busy c a forced
  · have touched : Grown (Files (Marks (t.lexical c.root) a)) t (left (FileM.touch (c.lockFile a) t)) :=
      grown_touch (.refl _ t) (marks_lock c.root a t)
    rw [fetch_of_busy busy, bind_run, lock_of_locks locks, Step.files_run]
    cases ran : FileM.touch (c.lockFile a) t with
    | error e middle =>
      rw [ran] at touched
      exact touched
    | ok _ middle =>
      replace touched : Grown (Files (Marks (t.lexical c.root) a)) t middle := by rwa [ran] at touched
      have published := publish_files digest (isDir_of_locks solid (touched.isDir locks))
      rw [touched.lexical] at published
      simp only [bind_run]
      cases done : publish a (c, middle) with
      | error e s | ok result s =>
        rw [done] at published
        exact touched.trans published
  · rw [left_of_idle busy]
    exact .refl _ _

end RuleDepot.Cache
