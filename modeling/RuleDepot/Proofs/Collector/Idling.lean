import RuleDepot.Proofs.Collector.Closing
import RuleDepot.Proofs.Files.Repeating
/-!
Ends with nothing to do.  A collector that has nothing to do takes away the rule file of an earlier
pass.  It succeeds exactly if there is such a file or none is found, which takes more than that the
directory of the rule file is missing: something in the way of the directory, or a path that the
system does not admit, is another failure than a missing file.
-/

namespace RuleDepot

open Running

namespace Tree

variable {t : Tree} {p : Path} {name : String}

/-- A path that is not found, and not empty, is one that the system admits. -/
theorem admissible_of_missing (filled : p.text ≠ "") (missing : t.status p = .error .notFound) :
    admissible p = .ok () := by
  cases admits : admissible p with
  | ok => rfl
  | error kind =>
    rw [status, locate, admits] at missing
    cases missing
    exact absurd admits (FileM.admissible_ne_notFound filled)

/-- A name behind a path that the system admits can only be too much for its length. -/
theorem admissible_join (admits : admissible p = .ok ()) (named : Path.IsName name)
    (clean : '\x00' ∉ name.toList) (short : (p / name).text.utf8ByteSize < pathLimit) :
    admissible (p / name) = .ok () := by
  have clean' : '\x00' ∉ (p / name).text.toList := by
    have front : '\x00' ∉ p.text.toList := by
      intro member
      unfold admissible at admits
      split at admits
      · cases admits
      · rw [if_pos (by simpa using member)] at admits
        cases admits
    change '\x00' ∉ (p.join ⟨name⟩).text.toList
    simp only [Path.join, named.relative, Bool.false_eq_true, if_false]
    split <;> simp [front, clean]
  unfold admissible
  rw [if_neg (by simpa using Path.text_join_ne_empty p named.nonempty), if_neg (by simpa using clean'),
    if_neg (by omega)]

private theorem status_join_of_missing (filled : p.text ≠ "") (named : Path.IsName name)
    (fits : admissible (p / name) = .ok ()) (missing : t.status p = .error .notFound) :
    t.status (p / name) = .error .notFound := by
  obtain ⟨absolute, before, trail, own, blank, whole⟩ := Path.pieces_join p named
  have begins : t.start (p / name) = t.start p := by simp [start, absolute]
  rw [status, locate, admissible_of_missing filled missing, own] at missing
  change ((before ++ trail).foldlM t.follow (t.start p) >>= _) = _ at missing
  rw [List.foldlM_append] at missing
  rw [status, locate, fits, whole, begins]
  change ((before ++ [name]).foldlM t.follow (t.start p) >>= _) = _
  rw [List.foldlM_append]
  cases went : before.foldlM t.follow (t.start p) with
  | error kind =>
    rw [went] at missing
    cases missing
    rfl
  | ok dir =>
    rw [went] at missing
    have fillers : ∀ piece ∈ trail, Path.isFiller piece = true := fun piece member => by
      rw [blank piece member]
      rfl
    -- Whatever stood before the slashes at the end would have been found, or be in the way.
    have absent : t.node? dir = none := by
      cases held : t.node? dir with
      | none => rfl
      | some node =>
        cases node with
        | directory =>
          simp only [bind, Except.bind, walk_fillers fillers held, held] at missing
          cases missing
        | file bytes =>
          cases trail with
          | nil =>
            simp only [bind, Except.bind, List.foldlM_nil, pure, Except.pure, held] at missing
            cases missing
          | cons piece rest =>
            have barred : t.follow dir piece = .error .notADirectory := by simp only [follow, held]
            simp only [bind, Except.bind, List.foldlM_cons, barred] at missing
            cases missing
    have lost : t.follow dir name = .error .notFound := by simp only [follow, absent]
    change ([name].foldlM t.follow dir >>= _) = _
    rw [List.foldlM_cons, lost]
    rfl

private theorem Aims.status_of_absent {before : List String} (aims : Aims t p before name 0)
    (absent : t.node? (t.lexical p) = none) : t.status p = .error .notFound := by
  have lost : t.follow (before.foldl advance (t.start p)) name = .error .notFound := by
    rw [aims.lexical_eq] at absent
    simp [follow, aims.directory, aims.solid, aims.down, Nat.not_lt.mpr aims.short, absent]
  have walked : p.pieces.foldlM t.follow (t.start p) = .error .notFound := by
    rw [aims.pieces, List.foldlM_append, aims.walked]
    change [name].foldlM t.follow _ = _
    rw [List.foldlM_cons, lost]
    rfl
  rw [Tree.status, locate, aims.fits]
  change (p.pieces.foldlM t.follow (t.start p) >>= _) = _
  rw [walked]
  rfl

end Tree

namespace FileM

private theorem removeFile_eq (p : Path) (t : Tree) : removeFile p t = match t.status p with
    | .ok (.file _) => .ok () (t.erase (t.lexical p))
    | .ok .directory => .error (.ofKind .isADirectory) t
    | .error kind => .error (.ofKind kind) t := by
  rw [removeFile, get_bind]
  cases found : t.locate p with
  | error kind =>
    have status : t.status p = .error kind := by
      rw [Tree.status, found]
      rfl
    rw [status]
    rfl
  | ok place =>
    obtain rfl := Tree.locate_lexical found
    rw [ofLookup_ok_bind]
    cases held : t.node? (t.lexical p) with
    | none =>
      have status : t.status p = .error .notFound := by
        rw [Tree.status, found]
        simp only [bind, Except.bind, held]
      rw [status]
      rfl
    | some node =>
      have status : t.status p = .ok node := Tree.status_eq_ok_iff.mpr ⟨found, held⟩
      rw [status]
      cases node <;> rfl

end FileM

/-- A path to a file, or to something that is not found. -/
def Tree.Removable (t : Tree) (p : Path) : Prop :=
  t.isFile p = true ∨ t.status p = .error .notFound

/-- A path that is too long for the system is another failure than a missing file. -/
theorem Tree.not_removable_of_long {t : Tree} {p : Path} (long : pathLimit ≤ p.text.utf8ByteSize) :
    ¬ t.Removable p := by
  have refused : ∃ kind, admissible p = .error kind ∧ kind ≠ .notFound := by
    have filled : ¬ p.text.isEmpty = true := fun blank => by
      rw [String.isEmpty_iff.mp blank] at long
      exact absurd long (by decide)
    unfold admissible
    rw [if_neg filled, if_pos long]
    split
    · exact ⟨_, rfl, nofun⟩
    · exact ⟨_, rfl, nofun⟩
  obtain ⟨kind, refused, other⟩ := refused
  have status : t.status p = .error kind := by
    rw [status, locate, refused]
    rfl
  rintro (file | missing)
  · obtain ⟨bytes, found⟩ := isFile_iff.mp file
    rw [status] at found
    cases found
  · rw [status] at missing
    exact other (Except.error.inj missing)

/-- A directory of a rule file that is as it should be: it is not found or is a directory, and the path
of the rule file is one that the system admits and does not lead to a directory. -/
structure Cache.Clearable (root : Path) (t : Tree) : Prop where
  directory : t.status root = .error .notFound ∨ t.isDir root = true
  short : (root / ruleFileName).text.utf8ByteSize < Tree.pathLimit
  plain : t.isDir (root / ruleFileName) = false

/-- In such a directory the rule file can be taken away, if it is there. -/
theorem Cache.Clearable.removable {root : Path} {t : Tree} (filled : root.text ≠ "")
    (clearable : Clearable root t) : t.Removable (root / ruleFileName) := by
  have named := isName_ruleFileName
  have clean : '\x00' ∉ ruleFileName.toList := by decide
  rcases clearable.directory with missing | directory
  · have fits := Tree.admissible_join (Tree.admissible_of_missing filled missing) named clean
      clearable.short
    exact Or.inr (Tree.status_join_of_missing filled named fits missing)
  · have admits := (Tree.locate_eq_ok_iff.mp (Tree.status_eq_ok_iff.mp (Tree.isDir_iff.mp directory)).1).1
    have fits := Tree.admissible_join admits named clean clearable.short
    obtain ⟨before, aims⟩ := Tree.aims_join directory named fits (by decide)
    cases held : t.node? (t.lexical (root / ruleFileName)) with
    | some node =>
      have found := aims.status held (Or.inl rfl)
      cases node with
      | file bytes => exact Or.inl (Tree.isFile_iff.mpr ⟨bytes, found⟩)
      | directory =>
        have barred := clearable.plain
        rw [Tree.isDir_iff.mpr found] at barred
        cases barred
    | none => exact Or.inr (aims.status_of_absent held)

namespace Collector

variable {c : Collector} {demands : Demands} {t : Tree}

/-- The rule file of an earlier pass goes if it is a file or is not found, and only then. -/
theorem removeStale_run (c : Collector) (t : Tree) :
    (t.Removable c.cache.ruleFilePath → ∃ t', removeStale (c, t) = .ok () (c, t')) ∧
      (¬ t.Removable c.cache.ruleFilePath → ∃ cause, removeStale (c, t) =
        .error (.io s!"removing stale rule file {c.cache.ruleFilePath.text}" cause) (c, t)) := by
  have removes := FileM.removeFile_eq c.cache.ruleFilePath t
  constructor
  · rintro (file | missing)
    · obtain ⟨bytes, found⟩ := Tree.isFile_iff.mp file
      rw [found] at removes
      exact ⟨_, by rw [removeStale, removes]⟩
    · rw [missing] at removes
      exact ⟨_, by rw [removeStale, removes]; rfl⟩
  · intro stuck
    rw [removeStale]
    cases found : t.status c.cache.ruleFilePath with
    | ok node =>
      rw [found] at removes
      cases node with
      | file bytes => exact absurd (Or.inl (Tree.isFile_iff.mpr ⟨bytes, found⟩)) stuck
      | directory => exact ⟨_, by rw [removes]; rfl⟩
    | error kind =>
      have other : kind ≠ .notFound := fun same => stuck (Or.inr (same ▸ found))
      rw [found] at removes
      exact ⟨_, by rw [removes]; exact if_neg other⟩

/-- A collector that has nothing to do ends without rules, entries or answers, if the rule file of an
earlier pass goes. -/
theorem finalize_idle (isOpen : c.ledger.pending = some demands)
    (idle : c.duty.isIdle demands = true) (t : Tree) :
    (t.Removable c.cache.ruleFilePath → ∃ t', finalize (c, t) =
        .ok ⟨c.name, c.duty.shelf, none, [], []⟩ ({ c.closed with cache := c.cache.sealed }, t') ∧
          t'.isFile c.cache.ruleFilePath = false) ∧
      (¬ t.Removable c.cache.ruleFilePath → ∃ cause, finalize (c, t) =
        .error (.io s!"removing stale rule file {c.cache.ruleFilePath.text}" cause)
          ({ c.closed with cache := c.cache.sealed }, t)) := by
  have ran : finalize (c, t) = finish [] [] [] (c.closed, t) := by
    rw [finalize_open isOpen, if_pos idle]
  have leaves := finish_leaves (c := c.closed) rfl [] [] [] t
  obtain ⟨goes, stays⟩ := removeStale_run { c.closed with cache := c.cache.sealed } t
  rw [ran]
  rw [finish_run, writeRules_nil] at leaves ⊢
  constructor
  · intro removable
    obtain ⟨t', removed⟩ := goes removable
    change removeStale ({ c.closed with cache := c.closed.cache.sealed }, t) = _ at removed
    rw [removed] at leaves ⊢
    rcases leaves.reported _ rfl with ⟨-, gone⟩ | ⟨written, -⟩
    · exact ⟨t', rfl, gone⟩
    · cases written
  · intro stuck
    obtain ⟨cause, failed⟩ := stays stuck
    change removeStale ({ c.closed with cache := c.closed.cache.sealed }, t) = _ at failed
    rw [failed]
    exact ⟨cause, rfl⟩

/-- A path of slashes, which is a long name for the root. -/
def slashes (count : Nat) : Path :=
  ⟨String.ofList (List.replicate count '/')⟩

private theorem utf8ByteSize_slashes (count : Nat) : (slashes count).text.utf8ByteSize = count := by
  induction count with
  | zero => rfl
  | succ count ih =>
    change (String.ofList (List.replicate (count + 1) '/')).utf8ByteSize = _
    rw [List.replicate_succ', String.ofList_append, String.utf8ByteSize_append]
    exact congrArg (· + 1) ih

private theorem size_join {p : Path} {s : String} (named : Path.IsName s) :
    p.text.utf8ByteSize + s.utf8ByteSize ≤ (p / s).text.utf8ByteSize := by
  change _ ≤ (p.join ⟨s⟩).text.utf8ByteSize
  simp only [Path.join, named.relative, Bool.false_eq_true, if_false]
  split <;> simp only [String.utf8ByteSize_append] <;> omega

/-- A collector for lint that no scope is shown. -/
def unaskedLint (cacheRoot : Path) : Collector :=
  new (.lint .default) cacheRoot ⟨∅, [], .coordinate, ⟨"/workspace"⟩⟩

/-- An end with nothing to do that fails, although the directory of the rule file is absent and the path
of the rule file leads to no directory. -/
structure FailsUnasked (cacheRoot : Path) (t : Tree) : Prop where
  absent : t.reaches (cacheRoot / Shelf.lint.dirName) = false
  plain : t.isDir (cacheRoot / Shelf.lint.dirName / Cache.ruleFileName) = false
  failed : ∃ e after, finalize (unaskedLint cacheRoot, t) = .error e after

/-- If the directory is absent, what keeps the rule file from going is no directory either. -/
theorem failsUnasked_of_stuck {cacheRoot : Path} {t : Tree}
    (absent : t.reaches (cacheRoot / Shelf.lint.dirName) = false)
    (stuck : ¬ t.Removable (cacheRoot / Shelf.lint.dirName / Cache.ruleFileName)) :
    FailsUnasked cacheRoot t where
  absent := absent
  plain := by
    rw [Bool.eq_false_iff]
    intro directory
    have filled : (cacheRoot / Shelf.lint.dirName).text ≠ "" :=
      Path.text_join_ne_empty cacheRoot (Cache.dirName_ne_empty _)
    have above := Tree.isDir_of_join filled Cache.isName_ruleFileName (Tree.isDir_iff.mp directory)
    rw [Tree.reaches_iff.mpr ⟨_, Tree.isDir_iff.mp above⟩] at absent
    cases absent
  failed := by
    have idle : (unaskedLint cacheRoot).duty.isIdle ∅ = true := by simp [unaskedLint, new, Duty.isIdle]
    obtain ⟨cause, failed⟩ := (finalize_idle rfl idle t).2 stuck
    exact ⟨_, _, failed⟩

/-- It is not enough that the directory of the rule file is absent: the end fails if a file is where a
directory above should be, and if the path of the rule file is too long. -/
theorem unasked_lint_fails :
    FailsUnasked ⟨"/x.jar"⟩ Cache.jarTree ∧ FailsUnasked (slashes 4091) .empty := by
  have barred : Cache.jarTree.status ((⟨"/x.jar"⟩ : Path) / Shelf.lint.dirName / Cache.ruleFileName) =
      .error .notADirectory := by decide +kernel
  have named : Path.IsName Shelf.lint.dirName := ⟨by decide, by decide, by decide, by decide⟩
  have absent : Tree.empty.reaches (slashes 4091 / Shelf.lint.dirName) = false := by
    rw [Bool.eq_false_iff]
    intro reached
    obtain ⟨node, found⟩ := Tree.reaches_iff.mp reached
    have stands := (Tree.status_eq_ok_iff.mp found).2
    rw [Tree.lexical_join _ named] at stands
    simp [Tree.node?, Tree.empty] at stands
  refine ⟨failsUnasked_of_stuck (by decide +kernel) ?_, failsUnasked_of_stuck absent ?_⟩
  · rintro (file | missing)
    · obtain ⟨bytes, found⟩ := Tree.isFile_iff.mp file
      rw [barred] at found
      cases found
    · rw [barred] at missing
      cases missing
  · have longer := size_join (p := slashes 4091) named
    have longer' := size_join (p := slashes 4091 / Shelf.lint.dirName) Cache.isName_ruleFileName
    have size : Shelf.lint.dirName.utf8ByteSize = 4 ∧ Cache.ruleFileName.utf8ByteSize = 4 := by decide
    rw [utf8ByteSize_slashes] at longer
    refine Tree.not_removable_of_long ?_
    change 4096 ≤ _
    omega

end Collector

end RuleDepot
