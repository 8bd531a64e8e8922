import RuleDepot.Proofs.Files.Passing
import RuleDepot.Proofs.Files.Standing
/-!
Where the actions on files leave their marks.  An action makes directories on the way of its path and
puts a file, or takes one away, where the path leads.  A chain of directories that could be made once
can be made again in what is left of the tree, as long as no directory went that was there the first
time.
-/

namespace RuleDepot

open Running

variable {t t' u u' whole : Tree} {p q : Path} {place next start : Location} {name : String}
  {before pieces : List String} {slashes : Nat} {made put : Location → Prop} {bytes : ByteArray}
  {e : IoError}

namespace Tree

/-- The entry that a path names is one of a directory that is there. -/
theorem Aims.parent (aims : Aims t p before name slashes) :
    t.node? (t.lexical p).dropLast = some .directory := by
  rw [aims.lexical_eq, List.dropLast_concat]
  exact aims.directory

/-- A path names the same entry wherever all directories are there that it names it through. -/
theorem Aims.again (aims : Aims t p before name slashes) (same : u.workingDir = t.workingDir)
    (more : ∀ {place}, t.node? place = some .directory → u.node? place = some .directory) :
    Aims u p before name slashes where
  fits := aims.fits
  pieces := aims.pieces
  walked := by
    rw [start_congr same]
    refine walk_of_passed aims.walked fun front ⟨rest, whole⟩ => more ?_
    have walked := aims.walked
    rw [← whole] at walked
    exact directory_of_walk walked (whole ▸ aims.directory)
  directory := by
    rw [start_congr same]
    exact more aims.directory
  solid := aims.solid
  down := aims.down
  short := aims.short

/-- In a part of a tree, pieces that lead to a directory of the whole lead there or are missing. -/
theorem walk_part (part : Grown (fun _ _ => True) u whole)
    (went : pieces.foldlM whole.follow start = .ok next) :
    pieces.foldlM u.follow start = .ok next ∨ pieces.foldlM u.follow start = .error .notFound := by
  induction pieces generalizing start with
  | nil => exact Or.inl went
  | cons piece rest ih =>
    rw [List.foldlM_cons] at went ⊢
    obtain ⟨middle, first, later⟩ := ok_of_bind went
    obtain ⟨directory, rfl, named⟩ := follow_eq_ok_iff.mp first
    cases held : u.node? start with
    | none =>
      refine Or.inr ?_
      simp only [follow, held]
      rfl
    | some node =>
      obtain rfl : node = .directory := Option.some.inj ((part.kept held).symm.trans directory)
      by_cases down : Path.isFiller piece = false ∧ piece ≠ ".."
      · obtain ⟨solid, up⟩ := down
        have long := Nat.not_lt.mpr (named solid up).1
        cases there : u.node? (start ++ [piece]) with
        | none =>
          refine Or.inr ?_
          simp only [follow, held, solid, up, long, there, Bool.false_eq_true, if_false,
            Option.isSome_none]
          rfl
        | some node =>
          have entered : u.follow start piece = .ok (advance start piece) :=
            follow_eq_ok_iff.mpr ⟨held, rfl, fun _ _ => ⟨(named solid up).1, by simp [there]⟩⟩
          rw [entered]
          exact ih later
      · have entered : u.follow start piece = .ok (advance start piece) :=
          follow_eq_ok_iff.mpr ⟨held, rfl, fun solid up => absurd ⟨solid, up⟩ down⟩
        rw [entered]
        exact ih later

private theorem isDir_of_slashes (fits : admissible p = .ok ())
    (dropped : p.pieces.reverse.dropWhile (· == "") = []) : t.isDir p = true := by
  have blank : ∀ piece ∈ p.pieces, piece = "" := fun piece member => by
    have all := List.takeWhile_append_dropWhile (p := (· == "")) (l := p.pieces.reverse)
    rw [dropped, List.append_nil] at all
    have inside := all.symm ▸ List.mem_reverse.mpr member
    exact eq_of_beq (List.all_eq_true.mp List.all_takeWhile piece inside)
  have fillers : ∀ piece ∈ p.pieces, Path.isFiller piece = true := fun piece member => by
    rw [blank piece member]
    rfl
  have absolute : p.isAbsolute = true := by
    rw [← Bool.not_eq_false]
    intro relative
    have named : p.text ≠ "" := fun none => by simp [admissible, none] at fits
    cases shape : p.pieces with
    | nil => exact Path.pieces_ne_nil relative shape
    | cons first rest =>
      have empty : first = "" := blank first (by simp [shape])
      exact Path.head_pieces_ne relative named (by simp [shape, empty])
  have top : t.node? (t.start p) = some .directory := by simp [start, absolute, node?]
  exact isDir_of_walk fits (walk_fillers fillers top) top

private theorem follow_dots (rooted : t.Rooted) (stands : t.node? start = some .directory)
    (dots : name = "." ∨ name = "..") :
    ∃ next, t.follow start name = .ok next ∧ t.node? next = some .directory := by
  rcases dots with rfl | rfl
  · exact ⟨start, follow_eq_ok_iff.mpr ⟨stands, rfl, nofun⟩, stands⟩
  · exact ⟨start.dropLast, follow_eq_ok_iff.mpr ⟨stands, rfl, fun _ other => (other rfl).elim⟩,
      rooted stands⟩

/-- In a part of a tree, a path to a directory of the whole is about an entry or leads to that
directory, unless something is missing on the way. -/
theorem target_part (rooted : u.Rooted) (part : Grown (fun _ _ => True) u whole)
    (directory : whole.isDir p = true) : u.target p = .error .notFound ∨
      ∃ target, u.target p = .ok target ∧ (target.place? = none → u.isDir p = true) := by
  obtain ⟨leads, held⟩ := status_eq_ok_iff.mp (isDir_iff.mp directory)
  obtain ⟨fits, walked⟩ := locate_eq_ok_iff.mp leads
  rw [start_congr part.workingDir, part.lexical] at walked
  unfold target
  simp only [fits]
  cases dropped : p.pieces.reverse.dropWhile (· == "") with
  | nil => exact Or.inr ⟨_, rfl, fun _ => isDir_of_slashes fits dropped⟩
  | cons last before =>
    obtain ⟨spelled, solid⟩ := pieces_of_dropWhile dropped
    rw [spelled, List.foldlM_append] at walked
    obtain ⟨dir, first, later⟩ := ok_of_bind walked
    rw [List.foldlM_cons] at later
    obtain ⟨next, entered, -⟩ := ok_of_bind later
    obtain ⟨stands, -, short⟩ := follow_eq_ok_iff.mp entered
    rcases walk_part part first with went | missing
    · simp only [went, bind, Except.bind]
      cases there : u.node? dir with
      | none => exact Or.inl rfl
      | some node =>
        obtain rfl : node = .directory := Option.some.inj ((part.kept there).symm.trans stands)
        refine Or.inr ?_
        by_cases dots : last = "." ∨ last = ".."
        · simp only [Bool.or_eq_true, decide_eq_true_eq, dots, if_true]
          refine ⟨_, rfl, fun _ => ?_⟩
          obtain ⟨next, enters, stands⟩ := follow_dots rooted there dots
          refine isDir_of_walk fits ?_ stands
          rw [spelled, List.foldlM_append, went]
          change List.foldlM u.follow dir (last :: _) = _
          rw [List.foldlM_cons, enters]
          refine walk_fillers (fun piece member => ?_) stands
          rw [List.eq_of_mem_replicate member]
          rfl
        · obtain ⟨still, down⟩ := not_or.mp dots
          have long : ¬ nameLimit < last.utf8ByteSize :=
            Nat.not_lt.mpr (short (by simp [Path.isFiller, solid, still]) down).1
          simp only [Bool.or_eq_true, decide_eq_true_eq, dots, long, if_false]
          exact ⟨_, rfl, fun unnamed => by cases unnamed⟩
    · simp only [missing, bind, Except.bind, true_or]

/-- A part of a whole tree in which every directory is there that is in another tree. -/
structure Ahead (t u whole : Tree) : Prop where
  rooted : t.Rooted
  rooted' : u.Rooted
  part : Grown (fun _ _ => True) u whole
  workingDir : u.workingDir = t.workingDir
  more : ∀ {place}, t.node? place = some .directory → u.node? place = some .directory

/-- Of two trees, one stays ahead if only directories on the way of one path were made in both, and it
got all of these. -/
theorem Ahead.after (ahead : Ahead t u whole) (edited : Edited (t.Passes p) (fun _ => False) t t')
    (edited' : Edited (u.Passes p) (fun _ => False) u u') (there : u'.isDir p = true)
    (part : Grown (fun _ _ => True) u' whole) : Ahead t' u' whole where
  rooted := edited.rooted
  rooted' := edited'.rooted
  part := part
  workingDir := edited'.workingDir.trans (ahead.workingDir.trans edited.workingDir.symm)
  more {place} held := by
    rcases @edited.elsewhere place id with still | ⟨passes, -⟩
    · exact edited'.directory (ahead.more (still ▸ held))
    · have moved : u'.workingDir = t.workingDir := edited'.workingDir.trans ahead.workingDir
      exact directory_of_passes there ((passes_congr moved p place).mpr passes)

end Tree

namespace FileM

open RuleDepot.Tree

private theorem makeDir_edited (rooted : t.Rooted) (ran : makeDir p t = .ok () t')
    (allowed : made (t.lexical p)) : Edited made put t t' := by
  obtain ⟨⟨before, name, slashes, aims⟩, absent, rfl⟩ := makeDir_ok ran
  exact edited_directory rooted aims.lexical_ne_nil aims.parent absent allowed

/-- Making directories leaves its marks on the way of the path.  The induction is on how many parents
are tried. -/
theorem makeChain_edited (n : Nat) (rooted : t.Rooted)
    (allowed : ∀ {place}, t.Passes p place → made place ∨ t.node? place = some .directory) :
    Edited made put t (left (makeChain (ancestors n p) t)) := by
  induction n generalizing p t with
  | zero => exact .refl rooted
  | succ n ih =>
    have own : t.node? (t.lexical p) = none → made (t.lexical p) := fun absent =>
      (allowed (passes_lexical t p)).resolve_right (by simp [absent])
    have above : Edited made put t (left (makeChain (p.parent?.elim [] (ancestors n)) t)) := by
      cases parent : p.parent? with
      | none => exact .refl rooted
      | some q =>
        by_cases filled : q.text = ""
        · cases n with
          | zero => exact .refl rooted
          | succ n =>
            rw [Option.elim_some, ancestors_succ, makeChain, if_pos (by simpa using filled)]
            exact .refl rooted
        · exact ih rooted fun passes => allowed (passes_of_parent parent filled passes)
    rw [ancestors_succ]
    have chained := makeChain_cases p (p.parent?.elim [] (ancestors n)) t
    generalize makeChain (p :: _) t = result at chained ⊢
    cases chained with
    | blank | there | barred => exact .refl rooted
    | made ran => exact makeDir_edited rooted ran (own (makeDir_ok ran).2.1)
    | orphaned _ _ ran | thereLater _ _ ran | barredLater _ _ ran =>
      rw [ran] at above
      exact above
    | @madeLater _ t' _ _ _ ran ran' =>
      rw [ran] at above
      refine above.trans (makeDir_edited above.rooted ran' ?_)
      obtain ⟨-, absent, -⟩ := makeDir_ok ran'
      have same : t'.lexical p = t.lexical p := above.lexical p
      change made (t'.lexical p)
      rw [same] at absent ⊢
      refine (allowed (passes_lexical t p)).resolve_right fun directory => ?_
      have still : t'.node? (t.lexical p) = some .directory := above.directory directory
      rw [still] at absent
      cases absent

/-- A directory that is made with its parents leaves its marks on the way of its path. -/
theorem makeDirs_edited (p : Path) (rooted : t.Rooted) :
    Edited (t.Passes p) (fun _ => False) t (left (makeDirs p t)) :=
  makeChain_edited _ rooted Or.inl

theorem ensureDir_edited (rooted : t.Rooted)
    (allowed : ∀ {place}, t.Passes p place → made place ∨ t.node? place = some .directory) :
    Edited made put t (left (ensureDir p t)) := by
  rw [ensureDir, get_bind]
  split
  · exact makeChain_edited _ rooted allowed
  · split <;> exact .refl rooted

/-- If a directory of the whole tree cannot be made in a part of it, it is there, or something is
missing on the way. -/
theorem missing_of_makeDir (rooted : u.Rooted) (part : Grown (fun _ _ => True) u whole)
    (directory : whole.isDir p = true) (failed : makeDir p u = .error e t) :
    u.isDir p = true ∨ e.kind = .notFound := by
  rw [makeDir, get_bind] at failed
  rcases target_part rooted part directory with aimed | ⟨target, aimed, unnamed⟩
  · rw [aimed] at failed
    cases failed
    exact Or.inr rfl
  · refine Or.inl ?_
    rw [aimed, ofLookup_ok_bind] at failed
    cases named : target.place? with
    | none => exact unnamed named
    | some place =>
      obtain ⟨before, name, slashes, aims, rfl, -⟩ := aims_of_target aimed named
      rw [named] at failed
      cases there : u.node? (u.lexical p) with
      | none =>
        simp only [there] at failed
        cases failed
      | some node =>
        have held := (status_eq_ok_iff.mp (isDir_iff.mp directory)).2
        rw [part.lexical p, part.kept there] at held
        exact isDir_iff.mpr (aims.status (there.trans held) (Or.inr rfl))

/-- An entry that a path names is made a directory unless it is there. -/
theorem makeDir_of_aims (aims : Aims t p before name slashes) :
    makeDir p t = if (t.node? (t.lexical p)).isSome then .error (.ofKind .alreadyExists) t
      else .ok () (t.insert (t.lexical p) .directory) := by
  obtain ⟨target, aimed, place, -⟩ := aims.target
  rw [makeDir, get_bind, aimed, ofLookup_ok_bind]
  simp only [place]
  split <;> rfl

/-- A directory is there or can be made at once. -/
def Makeable (t : Tree) (p : Path) : Prop :=
  t.isDir p = true ∨ ∃ t', makeDir p t = .ok () t'

/-- What could be made can be made again in a tree that is ahead, if the whole has it. -/
theorem Makeable.again (makeable : Makeable t p) (ahead : Ahead t u whole)
    (directory : whole.isDir p = true) : Makeable u p := by
  rcases makeable with there | ⟨t', made⟩
  · exact Or.inl (isDir_of_passed ahead.workingDir there fun passes =>
      ahead.more (directory_of_passes there passes))
  · obtain ⟨⟨before, name, slashes, aims⟩, -, -⟩ := makeDir_ok made
    have again := makeDir_of_aims (aims.again ahead.workingDir ahead.more)
    split at again
    · rcases missing_of_makeDir ahead.rooted' ahead.part directory again with there | missing
      · exact Or.inl there
      · simp [IoError.ofKind] at missing
    · exact Or.inr ⟨_, again⟩

private theorem part_of_makeDir (part : Grown (fun _ _ => True) u whole)
    (directory : whole.isDir p = true) (made : makeDir p u = .ok () t) :
    Grown (fun _ _ => True) t whole := by
  obtain ⟨⟨before, name, slashes, aims⟩, -, rfl⟩ := makeDir_ok made
  have held := (status_eq_ok_iff.mp (isDir_iff.mp directory)).2
  rw [part.lexical] at held
  refine ⟨part.workingDir, fun {place node} stands => ?_, fun _ _ => trivial⟩
  rw [node?_insert aims.lexical_ne_nil] at stands
  split at stands
  · rename_i own
    cases stands
    exact own ▸ held
  · exact part.kept stands

private theorem directories_of_makeChain {n : Nat} (ran : makeChain (ancestors n p) t = .ok () t')
    (rooted : t.Rooted) : Edited (t.Passes p) (fun _ => False) t t' := by
  have edited : Edited (t.Passes p) (fun _ => False) t (left (makeChain (ancestors n p) t)) :=
    makeChain_edited n rooted Or.inl
  rwa [ran] at edited

/-- The first directory of a chain that was made could be made, at once or after its parents. -/
theorem makeable_of_makeChain {parents : List Path} (filled : p.text ≠ "")
    (ran : makeChain (p :: parents) t = .ok () t') :
    Makeable t p ∨ ∃ t₁, makeChain parents t = .ok () t₁ ∧ Makeable t₁ p := by
  have chained := makeChain_cases p parents t
  rw [ran] at chained
  cases chained with
  | blank empty => exact absurd empty filled
  | there there => exact Or.inl (Or.inl there)
  | made made => exact Or.inl (Or.inr ⟨_, made⟩)
  | thereLater _ _ first there => exact Or.inr ⟨_, first, Or.inl there⟩
  | madeLater _ _ first made => exact Or.inr ⟨_, first, Or.inr ⟨_, made⟩⟩

/-- In a part of a tree, a chain of directories of the whole can be made if the first one can, at once or
after its parents. -/
theorem makeChain_of_makeable {parents : List Path} (rooted : u.Rooted)
    (part : Grown (fun _ _ => True) u whole) (directory : whole.isDir p = true)
    (makeable : Makeable u p ∨ ∃ u₁, makeChain parents u = .ok () u₁ ∧
      Grown (fun _ _ => True) u₁ whole ∧ Makeable u₁ p) :
    ∃ u', makeChain (p :: parents) u = .ok () u' ∧ Grown (fun _ _ => True) u' whole := by
  have later : ∀ e, u.isDir p = false → makeDir p u = .error e u →
      ∃ u₁, makeChain parents u = .ok () u₁ ∧ Grown (fun _ _ => True) u₁ whole ∧ Makeable u₁ p := by
    intro e missing failed
    refine makeable.resolve_left ?_
    rintro (there | ⟨u', made⟩)
    · simp [missing] at there
    · rw [made] at failed
      cases failed
  have chained := makeChain_cases p parents u
  generalize makeChain (p :: parents) u = result at chained ⊢
  cases chained with
  | blank | there => exact ⟨u, rfl, part⟩
  | made made => exact ⟨_, rfl, part_of_makeDir part directory made⟩
  | barred missing failed other =>
    rcases missing_of_makeDir rooted part directory failed with there | absent
    · simp [missing] at there
    · exact absurd absent other
  | orphaned missing failed ran =>
    obtain ⟨u₁, second, -⟩ := later _ missing failed
    rw [second] at ran
    cases ran
  | thereLater missing failed ran there =>
    obtain ⟨u₁, second, part₁, -⟩ := later _ missing failed
    rw [second] at ran
    cases ran
    exact ⟨_, rfl, part₁⟩
  | madeLater missing failed ran made =>
    obtain ⟨u₁, second, part₁, -⟩ := later _ missing failed
    rw [second] at ran
    cases ran
    exact ⟨_, rfl, part_of_makeDir part₁ directory made⟩
  | barredLater missing failed ran still failed' =>
    obtain ⟨u₁, second, -, again⟩ := later _ missing failed
    rw [second] at ran
    cases ran
    rcases again with there | ⟨u', made⟩
    · simp [still] at there
    · rw [made] at failed'
      cases failed'

/-- Directories that could be made once can be made again in a tree that is ahead.  The induction is on
how many parents are tried; a parent that could be made then can be made now. -/
theorem makeChain_again {n : Nat} (ahead : Ahead t u whole)
    (ran : makeChain (ancestors n p) t = .ok () t')
    (directory : whole.isDir p = true ∨ p.text = "") :
    ∃ u', makeChain (ancestors n p) u = .ok () u' ∧ Ahead t' u' whole := by
  induction n generalizing p t t' u with
  | zero => cases ran
  | succ n ih =>
    rw [ancestors_succ] at ran ⊢
    by_cases filled : p.text = ""
    · rw [makeChain, if_pos (by simpa using filled)] at ran ⊢
      cases ran
      exact ⟨u, rfl, ahead⟩
    have directory := directory.resolve_right filled
    have above : ∀ t₁, makeChain (p.parent?.elim [] (ancestors n)) t = .ok () t₁ →
        ∃ u₁, makeChain (p.parent?.elim [] (ancestors n)) u = .ok () u₁ ∧ Ahead t₁ u₁ whole := by
      intro t₁ first
      cases parent : p.parent? with
      | none =>
        rw [parent] at first
        cases first
      | some q =>
        rw [parent, Option.elim_some] at first
        exact ih ahead first ((isDir_parent (isDir_iff.mp directory) parent).imp_right And.left)
    obtain ⟨u', ran', part⟩ := makeChain_of_makeable ahead.rooted' ahead.part directory (by
      rcases makeable_of_makeChain filled ran with makeable | ⟨t₁, first, makeable⟩
      · exact Or.inl (makeable.again ahead directory)
      · obtain ⟨u₁, second, ahead₁⟩ := above t₁ first
        exact Or.inr ⟨u₁, second, ahead₁.part, makeable.again ahead₁ directory⟩)
    have there := (((makeChain_secures _ u).2 p rfl).2 u' ran').resolve_left (by simpa using filled)
    refine ⟨u', ran', ahead.after (directories_of_makeChain (n := n + 1) ?_ ahead.rooted)
      (directories_of_makeChain (n := n + 1) ?_ ahead.rooted') there part⟩
    · rwa [ancestors_succ]
    · rwa [ancestors_succ]

/-- Where a directory was made sure of, there are no others than before and those on its way. -/
theorem directories_of_ensureDir (ran : ensureDir p t = .ok () t') (rooted : t.Rooted) :
    Edited (t.Passes p) (fun _ => False) t t' := by
  have edited : Edited (t.Passes p) (fun _ => False) t (left (ensureDir p t)) :=
    ensureDir_edited rooted Or.inl
  rwa [ran] at edited

theorem isDir_of_ensured (filled : p.text ≠ "") (ran : ensureDir p t = .ok () t') :
    t'.isDir p = true :=
  ((ensureDir_secures p t).2 t' ran).resolve_left (by simpa using filled)

private theorem ensureDir_blank (blank : p.text = "") : ensureDir p t = .ok () t := by
  have nowhere : t.reaches p = false := by
    simp [reaches, status, locate, admissible, blank, bind, Except.bind, Except.isOk, Except.toBool]
  rw [ensureDir, get_bind]
  simp only [nowhere, Bool.not_false, if_true]
  rw [makeDirs, ancestors_succ, makeChain, if_pos (by simpa using blank)]
  rfl

/-- A directory that could be made sure of once can be made sure of again in a tree that is ahead. -/
theorem ensureDir_again (ahead : Ahead t u whole) (ran : ensureDir p t = .ok () t')
    (directory : whole.isDir p = true ∨ p.text = "") :
    ∃ u', ensureDir p u = .ok () u' ∧ Ahead t' u' whole := by
  by_cases filled : p.text = ""
  · rw [ensureDir_blank filled] at ran ⊢
    cases ran
    exact ⟨u, rfl, ahead⟩
  have directory := directory.resolve_right filled
  suffices succeeds : ∃ u', ensureDir p u = .ok () u' ∧ Grown (fun _ _ => True) u' whole by
    obtain ⟨u', ran', part⟩ := succeeds
    exact ⟨u', ran', ahead.after (directories_of_ensureDir ran ahead.rooted)
      (directories_of_ensureDir ran' ahead.rooted') (isDir_of_ensured filled ran') part⟩
  by_cases there : u.isDir p = true
  · exact ⟨u, ensureDir_of_isDir there, ahead.part⟩
  · have unreached : u.reaches p = false := by
      rw [Bool.eq_false_iff]
      intro reached
      obtain ⟨node, found⟩ := reaches_iff.mp reached
      have held := isDir_iff.mp directory
      rw [ahead.part.status found] at held
      exact there (isDir_iff.mpr (held ▸ found))
    have absent : ¬ t.isDir p = true := fun held =>
      there (isDir_of_passed ahead.workingDir held fun passes =>
        ahead.more (directory_of_passes held passes))
    rw [ensureDir, get_bind] at ran
    by_cases reached : t.reaches p = true
    · simp only [reached, absent, Bool.not_true, Bool.false_eq_true, if_false] at ran
      cases ran
    · simp only [reached, Bool.not_false, if_true] at ran
      obtain ⟨u', again, ahead'⟩ := makeChain_again ahead ran (Or.inl directory)
      refine ⟨u', ?_, ahead'.part⟩
      rw [ensureDir, get_bind]
      simp only [unreached, Bool.not_false, if_true]
      exact again

/-- Making sure of a file leaves its mark where the path leads. -/
theorem touch_edited (rooted : t.Rooted) (allowed : put (t.lexical p)) :
    Edited made put t (left (touch p t)) := by
  rcases touch_cases p t with ⟨e, failed⟩ | found | ⟨ran, absent, before, name, aims⟩
  · rw [failed]
    exact .refl rooted
  · rw [found]
    exact .refl rooted
  · rw [ran]
    exact edited_file rooted aims.lexical_ne_nil aims.parent (by simp [absent]) allowed

private theorem replaceFile_edited (rooted : t.Rooted) (allowed : put (t.lexical p)) :
    Edited made put t (left (replaceFile p bytes t)) := by
  rcases replaceFile_cases p bytes t with ⟨e, failed⟩ | ⟨ran, vacant, before, name, aims⟩
  · rw [failed]
    exact .refl rooted
  · rw [ran]
    exact edited_file rooted aims.lexical_ne_nil aims.parent vacant allowed

/-- Taking a file away leaves its mark where the path leads. -/
theorem removeFile_edited (rooted : t.Rooted) (allowed : put (t.lexical p)) :
    Edited made put t (left (removeFile p t)) := by
  rcases removeFile_cases p t with ⟨e, failed⟩ | ⟨former, gone, -, file⟩
  · rw [failed]
    exact .refl rooted
  · rw [gone]
    exact edited_erase rooted file allowed

/-- Publishing makes directories on the way of the path and puts the file where it leads. -/
theorem publishBytes_edited (rooted : t.Rooted) (parent : p.parent? ≠ none)
    (allowed : ∀ {place}, t.Passes p place → made place ∨ t.node? place = some .directory)
    (allowed' : put (t.lexical p)) : Edited made put t (left (publishBytes p bytes t)) := by
  have staged : Edited made put t (left (ensureDir p.stagingDir t)) :=
    ensureDir_edited rooted fun passes => allowed (passes_of_stagingDir parent passes)
  rw [publishBytes, bind_run]
  cases ran : ensureDir p.stagingDir t with
  | error e middle =>
    rw [ran] at staged
    exact staged
  | ok _ middle =>
    rw [ran] at staged
    have leads : middle.lexical p = t.lexical p := staged.lexical p
    simp only [bind_run, stage_run]
    cases admissible (stagedPath middle p.stagingDir) with
    | error kind => exact staged
    | ok _ => exact staged.trans (replaceFile_edited staged.rooted (leads ▸ allowed'))

/-- Publishing that fails has made directories at most, on the way to where the file is staged. -/
theorem publishBytes_failed (rooted : t.Rooted) (failed : publishBytes p bytes t = .error e t') :
    Edited (t.Passes p.stagingDir) (fun _ => False) t t' := by
  have staged : Edited (t.Passes p.stagingDir) (fun _ => False) t (left (ensureDir p.stagingDir t)) :=
    ensureDir_edited rooted Or.inl
  rw [publishBytes, bind_run] at failed
  cases ran : ensureDir p.stagingDir t with
  | error e middle =>
    rw [ran] at staged failed
    cases failed
    exact staged
  | ok _ middle =>
    rw [ran] at staged failed
    simp only [bind_run, stage_run] at failed
    cases fits : admissible (stagedPath middle p.stagingDir) with
    | error kind =>
      simp only [fits] at failed
      cases failed
      exact staged
    | ok _ =>
      simp only [fits] at failed
      rcases replaceFile_cases p bytes middle with ⟨e, unchanged⟩ | ⟨replaced, -⟩
      · rw [unchanged] at failed
        cases failed
        exact staged
      · rw [replaced] at failed
        cases failed

theorem publishCopy_edited (source : Path) (rooted : t.Rooted) (parent : p.parent? ≠ none)
    (allowed : ∀ {place}, t.Passes p place → made place ∨ t.node? place = some .directory)
    (allowed' : put (t.lexical p)) : Edited made put t (left (publishCopy source p t)) := by
  have staged : Edited made put t (left (ensureDir p.stagingDir t)) :=
    ensureDir_edited rooted fun passes => allowed (passes_of_stagingDir parent passes)
  rw [publishCopy, bind_run]
  cases ran : ensureDir p.stagingDir t with
  | error e middle =>
    rw [ran] at staged
    exact staged
  | ok _ middle =>
    rw [ran] at staged
    have leads : middle.lexical p = t.lexical p := staged.lexical p
    simp only [bind_run, stage_run]
    cases admissible (stagedPath middle p.stagingDir) with
    | error kind => exact staged
    | ok _ =>
      simp only [ofRead_run]
      cases middle.read source with
      | error e => exact staged
      | ok bytes =>
        have replaced : Edited made put middle (left (replaceFile p bytes middle)) :=
          replaceFile_edited staged.rooted (leads ▸ allowed')
        simp only
        cases put : replaceFile p bytes middle with
        | error e last | ok _ last =>
          rw [put] at replaced
          exact staged.trans replaced

end FileM

end RuleDepot
