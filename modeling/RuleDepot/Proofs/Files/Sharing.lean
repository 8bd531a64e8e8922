import Mathlib.Data.List.Basic
import Mathlib.Data.List.Induction
import RuleDepot.Proofs.Files.Agreeing
/-!
A directory that others have made.  Of a way that begins behind a directory, the first name may be missing
in one tree and stand as an empty directory in another one.  A path that goes on with more names leads
nowhere in either of them; and when the directories on the way are made, the missing one is made before the
others, so both trees become the same.
-/

namespace RuleDepot

open Running

variable {t u : Tree} {d p q : Path} {place home : Location} {x y name : String} {names more : List String}
  {kind : IoKind} {bytes : ByteArray}

/-- The parent of a path that goes on by several names goes on by all but the last. -/
theorem Path.Continues.parent (continues : Path.Continues d q (names ++ [name]))
    (solid : ∀ s ∈ names ++ [name], Path.IsName s) (filled : names ≠ []) :
    ∃ p, q.parent? = some p ∧ Path.Continues d p names ∧ p.text ≠ "" ∧
      p.text.toList <+: q.text.toList := by
  have named : q.text ≠ "" := FileM.text_ne_of_continues continues solid (by simp)
  obtain ⟨absolute, before, trail, own, blank, whole⟩ := continues
  have good : ∀ s ∈ names, Path.IsName s := fun s member => solid s (List.mem_append_left _ member)
  obtain ⟨front, last, rfl⟩ : ∃ front last, names = front ++ [last] :=
    ⟨_, _, (List.dropLast_concat_getLast filled).symm⟩
  -- The piece in front of the last one is a name, so nothing is dropped behind it.
  have kept : Path.dropFillersAtEnd q.isAbsolute (before ++ (front ++ [last])) =
      before ++ (front ++ [last]) := by
    rw [← List.append_assoc]
    exact Tree.dropFillersAtEnd_append (good last (by simp)).isFiller (by simp)
  have spelled : q.pieces = before ++ (front ++ [last]) ++ [name] := by
    rw [whole, ← List.append_assoc]
  have known := Tree.parent?_of_pieces spelled (solid name (by simp)).isFiller (by simp)
  rw [kept] at known
  have first : q.isAbsolute = false → (before ++ (front ++ [last])).head? ≠ some "" := by
    intro relative
    have begins := Path.head_pieces_ne relative named
    rwa [spelled, List.head?_append_of_ne_nil _ (by simp)] at begins
  obtain ⟨absolute', pieces⟩ := @Path.pieces_ofPieces q.isAbsolute _ (by simp)
    (fun piece member => Path.slash_not_mem_piece (p := q) (spelled ▸ List.mem_append_left _ member))
    first
  have continues' : Path.Continues d
      (Path.ofPieces q.isAbsolute (before ++ (front ++ [last]))) (front ++ [last]) :=
    ⟨absolute'.trans absolute, before, trail, own, blank, pieces⟩
  have text := FileM.text_ne_of_continues continues' good (by simp)
  exact ⟨_, known, continues', text, (Tree.spelled_parent rfl text spelled named).2.2⟩

namespace Tree

/-- A path that goes on behind a directory is about no entry if the names in front of the last one cannot
be followed. -/
theorem target_of_stuck (enters : t.Enters d) (continues : Path.Continues d q (names ++ [name]))
    (named : Path.IsName name) (fits : admissible q = .ok ())
    (stuck : names.foldlM t.follow (t.lexical d) = .error kind) : t.target q = .error kind := by
  obtain ⟨absolute, before, trail, own, blank, whole⟩ := continues
  have fillers : ∀ piece ∈ trail, Path.isFiller piece = true := fun piece member => by
    rw [blank piece member]
    rfl
  have begins : t.start q = t.start d := by simp only [start, absolute]
  have walked := enters.walked
  rw [own, List.foldlM_append] at walked
  obtain ⟨dir, first, later⟩ := ok_of_bind walked
  obtain rfl := walk_lexical first
  have leads : t.lexical d = before.foldl advance (t.start d) := by
    rw [walk_lexical later, foldl_advance_fillers fillers]
  rw [leads] at stuck
  have turned : q.pieces.reverse.dropWhile (· == "") = name :: (before ++ names).reverse := by
    rw [whole, ← List.append_assoc, List.reverse_concat]
    exact List.dropWhile_cons_of_neg (by simpa using named.nonempty)
  unfold target
  simp only [fits, turned, List.reverse_reverse, List.foldlM_append, begins, first, bind, Except.bind,
    stuck]

/-- Behind a directory a name is missing in the first tree, and stands as an empty directory in the
second. -/
structure Shared (home : Location) (d : Path) (x : String) (t u : Tree) : Prop where
  workingDir : t.workingDir = home
  rooted : t.Rooted
  enters : t.Enters d
  absent : t.node? (t.lexical d ++ [x]) = none
  made : u = t.insert (t.lexical d ++ [x]) .directory

namespace Shared

variable (shared : Shared home d x t u)

include shared

theorem node? (place : Location) :
    u.node? place = if place = t.lexical d ++ [x] then some .directory else t.node? place := by
  rw [shared.made, node?_insert (by simp)]

/-- In the first tree nothing stands below the missing directory. -/
theorem gone (below : t.lexical d ++ [x] <+: place) : t.node? place = none := by
  by_cases own : t.lexical d ++ [x] = place
  · exact own ▸ shared.absent
  · exact Rooted.absent_below shared.rooted (by simp [shared.absent]) below own

theorem lexical (p : Path) : u.lexical p = t.lexical p :=
  lexical_congr (by rw [shared.made]; rfl) p

theorem sameBut : SameBut (· = t.lexical d ++ [x]) t u where
  workingDir := by rw [shared.made]; rfl
  node out := by rw [shared.node?, if_neg out]

theorem enters_other : u.Enters d :=
  shared.enters.of_passed shared.sameBut.workingDir fun passes => by
    rw [shared.node?]
    split
    · rfl
    · exact shared.enters.directory passes

theorem rooted_other : u.Rooted := by
  rw [shared.made]
  exact Rooted.insert shared.rooted (by simp) (by simpa using shared.enters.held) (Or.inl rfl)

/-- In the first tree no name can be followed behind the missing one. -/
theorem walk (solid : Path.IsName x ∧ x.utf8ByteSize ≤ nameLimit) (names : List String) :
    (x :: names).foldlM t.follow (t.lexical d) = .error .notFound := by
  have stops : [x].foldlM t.follow (t.lexical d) = .error .notFound := by
    refine walk_absent shared.enters.held (fun s member => List.mem_singleton.mp member ▸ solid)
      (fun front rest split more bytes file => ?_) shared.absent
    have none : front = [] := by
      rcases List.append_eq_singleton_iff.mp split.symm with ⟨none, -⟩ | ⟨-, last⟩
      · exact none
      · exact absurd last more
    rw [none, List.append_nil, shared.enters.held] at file
    cases file
  rw [← List.singleton_append, List.foldlM_append, stops]
  rfl

/-- In the second tree none can be followed behind the next one. -/
theorem walk_other (solid : ∀ s ∈ [x, y], Path.IsName s ∧ s.utf8ByteSize ≤ nameLimit)
    (names : List String) :
    (x :: y :: names).foldlM u.follow (u.lexical d) = .error .notFound := by
  have stops : [x, y].foldlM u.follow (u.lexical d) = .error .notFound := by
    refine walk_absent shared.enters_other.held solid (fun front rest split more bytes file => ?_) ?_
    · have begins : front = [] ∨ front = [x] := by
        rcases front with - | ⟨first, - | ⟨second, front⟩⟩
        · exact Or.inl rfl
        · exact Or.inr (by rw [(List.cons.inj split).1])
        · simp [more] at split
      rcases begins with rfl | rfl
      · rw [List.append_nil, shared.enters_other.held] at file
        cases file
      · rw [shared.lexical, shared.node?, if_pos rfl] at file
        cases file
    · rw [shared.lexical, shared.node?, if_neg (by simp)]
      exact shared.gone ⟨[y], by simp⟩
  have split : x :: y :: names = [x, y] ++ names := rfl
  rw [split, List.foldlM_append, stops]
  rfl

/-- A path that goes on by more names leads nowhere in either tree. -/
theorem locate_eq (continues : Path.Continues d q (x :: y :: names))
    (solid : ∀ s ∈ [x, y], Path.IsName s ∧ s.utf8ByteSize ≤ nameLimit) :
    ∃ kind, t.locate q = .error kind ∧ u.locate q = .error kind := by
  cases fits : admissible q with
  | error kind => exact ⟨kind, by rw [locate, fits]; rfl, by rw [locate, fits]; rfl⟩
  | ok _ =>
    exact ⟨.notFound,
      (locate_of_continues shared.enters continues fits).trans (shared.walk (solid x (by simp)) _),
      (locate_of_continues shared.enters_other continues fits).trans (shared.walk_other solid _)⟩

theorem status_eq (continues : Path.Continues d q (x :: y :: names))
    (solid : ∀ s ∈ [x, y], Path.IsName s ∧ s.utf8ByteSize ≤ nameLimit) :
    ∃ kind, t.status q = .error kind ∧ u.status q = .error kind := by
  obtain ⟨kind, here, there⟩ := shared.locate_eq continues solid
  exact ⟨kind, by rw [status, here]; rfl, by rw [status, there]; rfl⟩

/-- A path that goes on by still more names is about no entry of either tree. -/
theorem target_eq (continues : Path.Continues d q (x :: y :: names ++ [name]))
    (solid : ∀ s ∈ [x, y], Path.IsName s ∧ s.utf8ByteSize ≤ nameLimit) (named : Path.IsName name) :
    ∃ kind, t.target q = .error kind ∧ u.target q = .error kind := by
  cases fits : admissible q with
  | error kind => exact ⟨kind, by rw [target, fits]; rfl, by rw [target, fits]; rfl⟩
  | ok _ =>
    exact ⟨.notFound,
      target_of_stuck shared.enters continues named fits (shared.walk (solid x (by simp)) _),
      target_of_stuck shared.enters_other continues named fits (shared.walk_other solid _)⟩

end Shared

end Tree

namespace FileM

open RuleDepot.Tree

private theorem makeDir_of_stuck (stuck : t.target p = .error kind) :
    makeDir p t = .error (.ofKind kind) t := by
  rw [makeDir, get_bind, stuck]
  rfl

/-- Nothing is made where the path is not one that a path may be. -/
theorem makeChain_of_unfit (unfit : admissible p = .error kind) (filled : p.text ≠ "")
    (parents : List Path) (t : Tree) : makeChain (p :: parents) t = .error (.ofKind kind) t := by
  have other : kind ≠ .notFound := fun same => admissible_ne_notFound filled (same ▸ unfit)
  have stuck : t.target p = .error kind := by rw [target, unfit]; rfl
  have nowhere : t.isDir p = false := by
    simp [isDir, status, locate, unfit, bind, Except.bind]
  rw [makeChain]
  simp only [String.isEmpty_iff, filled, if_false, get_bind, makeDir_of_stuck stuck, bind_run (set t),
    set_run, IoError.ofKind, other, nowhere, Bool.false_eq_true]
  rfl

private theorem first_two {good : String → Prop} (all : ∀ s ∈ x :: y :: names, good s) :
    ∀ s ∈ [x, y], good s :=
  fun _ member => all _ (List.mem_append_left names member)

section Shared

variable (shared : Shared home d x t u)

include shared

/-- The missing directory can be made, and that makes the second tree of the first one. -/
theorem makeDir_shared (continues : Path.Continues d q [x])
    (solid : Path.IsName x ∧ x.utf8ByteSize ≤ nameLimit) (fits : admissible q = .ok ()) :
    makeDir q t = .ok () u ∧ u.isDir q = true := by
  have leads : t.lexical q = t.lexical d ++ [x] :=
    lexical_of_continues t continues fun s member => List.mem_singleton.mp member ▸ solid.1
  have whole := continues
  obtain ⟨absolute, before, trail, own, blank, pieces⟩ := whole
  have fillers : ∀ piece ∈ trail, Path.isFiller piece = true := fun piece member => by
    rw [blank piece member]
    rfl
  have begins : t.start q = t.start d := by simp only [start, absolute]
  have walked := shared.enters.walked
  rw [own, List.foldlM_append] at walked
  obtain ⟨dir, first, later⟩ := ok_of_bind walked
  obtain rfl := walk_lexical first
  have place : t.lexical d = before.foldl advance (t.start d) := by
    rw [walk_lexical later, foldl_advance_fillers fillers]
  have aims : Aims t q before x 0 :=
    ⟨fits, by simpa using pieces, by rw [begins, first], by rw [begins, ← place]; exact shared.enters.held,
      solid.1.isFiller, solid.1.down, solid.2⟩
  have made : makeDir q t = .ok () u := by
    have ran := makeDir_of_aims aims
    rw [leads, shared.absent] at ran
    rw [ran, shared.made]
    rfl
  refine ⟨made, isDir_iff.mpr (status_eq_ok_iff.mpr ⟨?_, ?_⟩)⟩
  · rw [locate_of_continues shared.enters_other continues fits, shared.lexical q, leads, shared.lexical d]
    refine walk_names shared.rooted_other (shared.lexical d ▸ shared.enters_other.held)
      (fun s member => List.mem_singleton.mp member ▸ solid) ?_
    simp [shared.node?]
  · rw [shared.lexical q, leads, shared.node?, if_pos rfl]

/-- The directories on the way are made with the same result.  The induction is on the names, from the last
one up: when the parents have been made, nothing tells the trees apart any more. -/
theorem makeChain_shared {n : Nat} (continues : Path.Continues d q (x :: names))
    (solid : ∀ s ∈ x :: names, Path.IsName s ∧ s.utf8ByteSize ≤ nameLimit)
    (fits : admissible q = .ok ()) (deep : names.length < n) :
    makeChain (ancestors n q) u = makeChain (ancestors n q) t := by
  induction names using List.reverseRecOn generalizing q n with
  | nil =>
    obtain ⟨n, rfl⟩ := Nat.exists_eq_succ_of_ne_zero (Nat.ne_of_gt deep)
    obtain ⟨made, there⟩ := makeDir_shared shared continues (solid x (by simp)) fits
    have filled : q.text ≠ "" := text_ne_empty_of_isDir there
    rw [ancestors_succ, makeChain_of_isDir there, makeChain]
    simp only [String.isEmpty_iff, filled, if_false, get_bind, made]
    rfl
  | append_singleton front last ih =>
    obtain ⟨n, rfl⟩ := Nat.exists_eq_succ_of_ne_zero (Nat.ne_of_gt (Nat.zero_lt_of_lt deep))
    rw [← List.cons_append] at continues solid
    have named : Path.IsName last := (solid last (by simp)).1
    have before : ∀ s ∈ x :: front, Path.IsName s ∧ s.utf8ByteSize ≤ nameLimit :=
      fun s member => solid s (List.mem_append_left _ member)
    have filled : q.text ≠ "" :=
      text_ne_of_continues continues (fun s member => (solid s member).1) (by simp)
    obtain ⟨p, parent, continues', filled', spelled⟩ :=
      continues.parent (fun s member => (solid s member).1) (by simp)
    have fits' := admissible_of_front fits filled' spelled
    have above := ih (n := n) continues' before fits' (by simp at deep; omega)
    have stuck := makeDir_of_stuck
      (target_of_stuck shared.enters continues named fits (shared.walk (solid x (by simp)) front))
    rw [ancestors_succ, parent, Option.elim_some, makeChain]
    simp only [String.isEmpty_iff, filled, if_false, get_bind, stuck, IoError.ofKind, if_true,
      bind_run (set _), set_run]
    by_cases missing : ∃ e, makeDir q u = .error e u ∧ e.kind = .notFound
    · obtain ⟨e, failed, missing⟩ := missing
      simp only [failed, missing, if_true, bind_run (set _), set_run]
      rw [bind_run, bind_run, above]
    · -- Then the missing directory is the parent, and it is there once it has been made.
      have alone : front = [] := by
        cases front with
        | nil => rfl
        | cons y rest =>
          have solid' : ∀ s ∈ [x, y], Path.IsName s ∧ s.utf8ByteSize ≤ nameLimit :=
            first_two before
          exact absurd ⟨_, makeDir_of_stuck (target_of_stuck shared.enters_other continues named fits
            (shared.walk_other solid' rest)), rfl⟩ missing
      subst alone
      obtain ⟨m, rfl⟩ : ∃ m, n = m + 1 := Nat.exists_eq_succ_of_ne_zero (by simp at deep; omega)
      have there := (makeDir_shared shared continues' (solid x (by simp)) fits').2
      have ready : makeChain (ancestors (m + 1) p) t = .ok () u := by
        rw [← above, ancestors_succ, makeChain_of_isDir there]
      rw [bind_run, ready]
      simp only [get_bind]
      rcases makeDir_cases q u with ⟨e, failed⟩ | ⟨made, -⟩
      · have other : e.kind ≠ .notFound := fun same => missing ⟨e, failed, same⟩
        simp only [failed, other, if_false, bind_run (set _), set_run]
        split <;> rfl
      · simp only [made]

/-- Directories behind the missing one are made with the same result, unless their path is not one that a
path may be. -/
theorem makeDirs_shared (continues : Path.Continues d q (x :: names))
    (solid : ∀ s ∈ x :: names, Path.IsName s ∧ s.utf8ByteSize ≤ nameLimit) :
    makeDirs q u = makeDirs q t ∨ ∃ e, makeDirs q t = .error e t ∧ makeDirs q u = .error e u := by
  cases fits : admissible q with
  | error kind =>
    have filled : q.text ≠ "" :=
      text_ne_of_continues continues (fun s member => (solid s member).1) (by simp)
    have barred (t : Tree) : makeDirs q t = .error (.ofKind kind) t := by
      rw [makeDirs, ancestors_succ]
      exact makeChain_of_unfit fits filled _ t
    exact Or.inr ⟨_, barred t, barred u⟩
  | ok _ =>
    refine Or.inl (makeChain_shared shared continues solid fits ?_)
    obtain ⟨-, before, trail, -, -, whole⟩ := continues
    simp [whole]
    omega

theorem ensureDir_shared (continues : Path.Continues d q (x :: y :: names))
    (solid : ∀ s ∈ x :: y :: names, Path.IsName s ∧ s.utf8ByteSize ≤ nameLimit) :
    ensureDir q u = ensureDir q t ∨ ∃ e, ensureDir q t = .error e t ∧ ensureDir q u = .error e u := by
  obtain ⟨kind, here, there⟩ := shared.status_eq continues (first_two solid)
  have nowhere : t.reaches q = false ∧ u.reaches q = false := by
    simp [reaches, here, there, Except.isOk, Except.toBool]
  rw [ensureDir, get_bind, get_bind]
  simp only [nowhere, Bool.not_false, if_true]
  exact makeDirs_shared shared continues solid

/-- There is no file to be taken away. -/
theorem removeFile_shared (continues : Path.Continues d q (x :: y :: names))
    (solid : ∀ s ∈ [x, y], Path.IsName s ∧ s.utf8ByteSize ≤ nameLimit) :
    ∃ e, removeFile q t = .error e t ∧ removeFile q u = .error e u := by
  obtain ⟨kind, here, there⟩ := shared.locate_eq continues solid
  refine ⟨.ofKind kind, ?_, ?_⟩
  · rw [removeFile, get_bind, here]
    rfl
  · rw [removeFile, get_bind, there]
    rfl

/-- There is no directory to make a file in. -/
theorem touch_shared (continues : Path.Continues d q (x :: y :: names ++ [name]))
    (solid : ∀ s ∈ [x, y], Path.IsName s ∧ s.utf8ByteSize ≤ nameLimit) (named : Path.IsName name) :
    ∃ e, touch q t = .error e t ∧ touch q u = .error e u := by
  obtain ⟨kind, here, there⟩ := shared.target_eq continues solid named
  refine ⟨.ofKind kind, ?_, ?_⟩
  · rw [touch, get_bind, here]
    rfl
  · rw [touch, get_bind, there]
    rfl

/-- Bytes are published with the same result, unless their directory cannot be made. -/
theorem publishBytes_shared (continues : Path.Continues d q (x :: y :: names ++ [name]))
    (solid : ∀ s ∈ x :: y :: names ++ [name], Path.IsName s ∧ s.utf8ByteSize ≤ nameLimit)
    (bytes : ByteArray) : publishBytes q bytes u = publishBytes q bytes t ∨
      ∃ e, publishBytes q bytes t = .error e t ∧ publishBytes q bytes u = .error e u := by
  obtain ⟨p, parent, continues', filled, -⟩ :=
    continues.parent (fun s member => (solid s member).1) (by simp)
  have staging : q.stagingDir = p := by
    simp [Path.stagingDir, parent, filled]
  have before : ∀ s ∈ x :: y :: names, Path.IsName s ∧ s.utf8ByteSize ≤ nameLimit :=
    fun s member => solid s (List.mem_append_left _ member)
  rw [publishBytes, bind_run, bind_run, staging]
  rcases ensureDir_shared shared continues' before with same | ⟨e, here, there⟩
  · exact Or.inl (by rw [same])
  · exact Or.inr ⟨e, by rw [here], by rw [there]⟩

end Shared

end FileM

end RuleDepot
