import RuleDepot.Proofs.Files.Agreeing
/-!
What making a directory with its parents comes to.  The missing directories on the way of the path are
made one after another until the way ends, or until a file or a name that is too long bars it; and
nothing else is made, whether or not there is a failure.  So a tree that has more on that way, if only
directories, lets the way be made exactly if the other one does, and has more afterwards still.
-/

namespace RuleDepot

open Running

variable {t t' u v : Tree} {p q : Path} {place next : Location} {piece last name : String}
  {before front gap pieces rest : List String} {new : Location → Node → Prop} {e : IoError}

/-- When the fillers at its end are dropped, a list of pieces ends in no filler, if there is any piece that is
none. -/
theorem Path.dropFillersAtEnd_ends (abs : Bool) (pieces : List String) :
    (∀ piece ∈ dropFillersAtEnd abs pieces, isFiller piece = true) ∨
      ∃ front last, dropFillersAtEnd abs pieces = front ++ [last] ∧ isFiller last = false := by
  cases pieces with
  | nil => exact Or.inl nofun
  | cons first rest =>
    unfold dropFillersAtEnd
    simp only
    split
    · exact Or.inl nofun
    · cases kept : rest.reverse.dropWhile isFiller with
      | nil =>
        cases filler : isFiller first with
        | true => exact Or.inl (by simp [filler])
        | false => exact Or.inr ⟨[], first, rfl, filler⟩
      | cons last others =>
        refine Or.inr ⟨first :: others.reverse, last, by simp, ?_⟩
        have head := List.head?_dropWhile_not isFiller rest.reverse
        simpa [kept] using head

namespace Tree

/-- A piece that names nothing: it stays or goes up. -/
def IsDots (piece : String) : Prop :=
  Path.isFiller piece = true ∨ piece = ".."

instance (piece : String) : Decidable (IsDots piece) :=
  inferInstanceAs (Decidable (_ ∨ _))

/-- The way along some pieces with the missing directories made, and whether it can be gone to its
end. -/
def pave (t : Tree) (place : Location) : List String → Tree × Bool
  | [] => (t, true)
  | piece :: rest =>
    if IsDots piece then t.pave (advance place piece) rest
    else if nameLimit < piece.utf8ByteSize then (t, false)
    else match t.node? (place ++ [piece]) with
      | some .directory => t.pave (place ++ [piece]) rest
      | some (.file _) => (t, false)
      | none => (t.insert (place ++ [piece]) .directory).pave (place ++ [piece]) rest

theorem advance_name (solid : ¬ IsDots piece) : advance place piece = place ++ [piece] := by
  obtain ⟨filler, up⟩ := not_or.mp solid
  simp [advance, filler, up]

/-- From a directory one can stay and go up. -/
theorem follow_of_dots (rooted : t.Rooted) (stands : t.node? place = some .directory)
    (dots : IsDots piece) :
    t.follow place piece = .ok (advance place piece) ∧
      t.node? (advance place piece) = some .directory := by
  rcases dots with filler | rfl
  · have stays : advance place piece = place := by simp [advance, filler]
    rw [stays]
    exact ⟨follow_eq_ok_iff.mpr ⟨stands, stays.symm, fun solid => by simp [filler] at solid⟩, stands⟩
  · exact ⟨follow_eq_ok_iff.mpr ⟨stands, rfl, fun _ other => absurd rfl other⟩, rooted stands⟩

/-- From a directory one can go to what stands in it. -/
theorem follow_of_name (stands : t.node? place = some .directory) (solid : ¬ IsDots piece) :
    t.follow place piece = if nameLimit < piece.utf8ByteSize then .error .invalidFilename
      else if (t.node? (place ++ [piece])).isSome then .ok (place ++ [piece]) else .error .notFound := by
  obtain ⟨filler, up⟩ := not_or.mp solid
  simp only [follow, stands, filler, up]
  rfl

/-- The ways along two lists of pieces, one behind the other. -/
theorem pave_append (t : Tree) (place : Location) (front rest : List String) :
    t.pave place (front ++ rest) =
      if (t.pave place front).2 then (t.pave place front).1.pave (front.foldl advance place) rest
      else t.pave place front := by
  induction front generalizing t place with
  | nil => rfl
  | cons piece front ih =>
    rw [List.cons_append, pave, pave, List.foldl_cons]
    split
    · exact ih t _
    · rename_i solid
      rw [advance_name solid]
      split
      · rfl
      · split
        · exact ih t _
        · rfl
        · exact ih _ _

theorem pave_fillers (blank : ∀ piece ∈ gap, Path.isFiller piece = true) :
    t.pave place gap = (t, true) := by
  induction gap with
  | nil => rfl
  | cons piece gap ih =>
    obtain ⟨filler, blank⟩ := List.forall_mem_cons.mp blank
    have stays : advance place piece = place := by simp [advance, filler]
    have dots : IsDots piece := Or.inl filler
    rw [pave, if_pos dots, stays]
    exact ih blank

/-- A way that leads to a directory is there already. -/
theorem pave_of_walk (went : pieces.foldlM t.follow place = .ok next) (ends : t.node? next = some .directory) :
    t.pave place pieces = (t, true) := by
  induction pieces generalizing place with
  | nil => rfl
  | cons piece rest ih =>
    have there : t.node? (advance place piece) = some .directory :=
      @directory_of_walk t [piece] rest place next went ends
    rw [List.foldlM_cons] at went
    obtain ⟨middle, first, later⟩ := ok_of_bind went
    obtain ⟨-, rfl, named⟩ := follow_eq_ok_iff.mp first
    rw [pave]
    split
    · exact ih later
    · rename_i solid
      obtain ⟨filler, up⟩ := not_or.mp solid
      have short := (named (by simpa using filler) up).1
      rw [advance_name solid] at there later
      rw [if_neg (by omega), there]
      exact ih later

/-- A way is barred if it leads to no directory, though nothing is missing. -/
theorem pave_of_barred (rooted : t.Rooted) (stands : t.node? place = some .directory)
    (found : pieces.foldlM t.follow place ≠ .error .notFound)
    (other : ∀ next, pieces.foldlM t.follow place = .ok next → t.node? next ≠ some .directory) :
    t.pave place pieces = (t, false) := by
  induction pieces generalizing place with
  | nil => exact absurd stands (other place rfl)
  | cons piece rest ih =>
    rw [List.foldlM_cons] at found other
    rw [pave]
    split
    · rename_i dots
      obtain ⟨first, there⟩ := follow_of_dots rooted stands dots
      rw [first] at found other
      exact ih there found other
    · rename_i solid
      rw [follow_of_name stands solid] at found other
      split
      · rfl
      · rename_i short
        rw [if_neg short] at found other
        cases held : t.node? (place ++ [piece]) with
        | none =>
          rw [held] at found
          exact absurd rfl found
        | some node =>
          cases node with
          | file bytes => rfl
          | directory =>
            rw [held] at found other
            exact ih held found other

private theorem pave_of_found (rooted : t.Rooted) (begins : t.node? (t.start p) = some .directory)
    (fits : admissible p = .ok ()) (found : p.pieces.foldlM t.follow (t.start p) ≠ .error .notFound) :
    t.pave (t.start p) p.pieces = (t, t.isDir p) := by
  cases there : t.isDir p with
  | true =>
    have enters := enters_of_isDir there
    exact pave_of_walk enters.walked enters.held
  | false =>
    refine pave_of_barred rooted begins found fun next went stands => ?_
    rw [isDir_of_walk fits went stands] at there
    cases there

/-- Making a way adds directories. -/
theorem pave_grown (t : Tree) (place : Location) (pieces : List String) :
    Grown Directories t (t.pave place pieces).1 := by
  induction pieces generalizing t place with
  | nil => exact .refl _ _
  | cons piece rest ih =>
    rw [pave]
    split
    · exact ih t _
    · split
      · exact .refl _ _
      · split
        · exact ih t _
        · exact .refl _ _
        · rename_i absent
          exact (grown_insert (by simp) absent rfl).trans (ih _ _)

private theorem pave_rooted (rooted : t.Rooted) (stands : t.node? place = some .directory) :
    (t.pave place pieces).1.Rooted := by
  induction pieces generalizing t place with
  | nil => exact rooted
  | cons piece rest ih =>
    rw [pave]
    split
    · rename_i dots
      exact ih rooted (follow_of_dots rooted stands dots).2
    · split
      · exact rooted
      · split
        · rename_i there
          exact ih rooted there
        · exact rooted
        · exact ih (rooted.insert (by simp) (by simpa using stands) (Or.inl rfl))
            (node?_insert_self (by simp))

/-- A way that was made to its end can be gone. -/
theorem walk_of_pave (rooted : t.Rooted) (stands : t.node? place = some .directory)
    (clear : (t.pave place pieces).2 = true) :
    pieces.foldlM (t.pave place pieces).1.follow place = .ok (pieces.foldl advance place) ∧
      (t.pave place pieces).1.node? (pieces.foldl advance place) = some .directory := by
  induction pieces generalizing t place with
  | nil => exact ⟨rfl, stands⟩
  | cons piece rest ih =>
    rw [List.foldlM_cons, List.foldl_cons]
    have grown := pave_grown t place (piece :: rest)
    rw [pave] at clear grown ⊢
    split at clear
    · rename_i dots
      obtain ⟨first, there⟩ := follow_of_dots rooted stands dots
      simp only [dots, if_true] at grown ⊢
      rw [grown.follow first]
      exact ih rooted there clear
    · rename_i solid
      rw [advance_name solid]
      simp only [solid, if_false] at grown ⊢
      split at clear
      · cases clear
      · rename_i short
        simp only [short, if_false] at grown ⊢
        have enters {w : Tree} (here : w.node? place = some .directory)
            (there : w.node? (place ++ [piece]) = some .directory) :
            w.follow place piece = .ok (place ++ [piece]) := by
          rw [follow_of_name here solid, if_neg short, there]
          rfl
        split at clear
        · rename_i there
          simp only [there] at grown ⊢
          rw [enters (grown.kept stands) (grown.kept there)]
          exact ih rooted there clear
        · cases clear
        · rename_i absent
          simp only [absent] at grown ⊢
          have there : (t.insert (place ++ [piece]) .directory).node? (place ++ [piece]) =
              some .directory := node?_insert_self (by simp)
          rw [enters (grown.kept stands) ((pave_grown _ _ _).kept there)]
          exact ih (rooted.insert (by simp) (by simpa using stands) (Or.inl rfl)) there clear

/-- A way can be made exactly if it can in a tree that has more on it, but only directories, and what
that tree has more is not changed by it. -/
theorem Grown.pave (grown : Grown new u v) (rooted : u.Rooted) (rooted' : v.Rooted)
    (stands : u.node? place = some .directory)
    (way : ∀ front, front <+: pieces → ∀ {node}, new (front.foldl advance place) node →
      node = .directory) :
    (v.pave place pieces).2 = (u.pave place pieces).2 ∧
      Grown new (u.pave place pieces).1 (v.pave place pieces).1 := by
  induction pieces generalizing u v place with
  | nil => exact ⟨rfl, grown⟩
  | cons piece rest ih =>
    have later : ∀ front, front <+: rest → ∀ {node},
        new (front.foldl advance (advance place piece)) node → node = .directory :=
      fun front shorter => way (piece :: front) ((List.prefix_cons_inj _).mpr shorter)
    have own : ∀ {node}, new (advance place piece) node → node = .directory := later [] List.nil_prefix
    rw [Tree.pave, Tree.pave]
    split
    · rename_i dots
      exact ih grown rooted rooted' (follow_of_dots rooted stands dots).2 later
    · rename_i solid
      rw [advance_name solid] at later own
      split
      · exact ⟨rfl, grown⟩
      · have made {w : Tree} (rooted : w.Rooted) (stands : w.node? place = some .directory) :
            (w.insert (place ++ [piece]) .directory).Rooted :=
          rooted.insert (by simp) (by simpa using stands) (Or.inl rfl)
        have there : (u.insert (place ++ [piece]) .directory).node? (place ++ [piece]) =
            some .directory := node?_insert_self (by simp)
        cases held : u.node? (place ++ [piece]) with
        | some node =>
          rw [grown.kept held]
          cases node with
          | directory => exact ih grown rooted rooted' held later
          | file bytes => exact ⟨rfl, grown⟩
        | none =>
          cases held' : v.node? (place ++ [piece]) with
          | none =>
            exact ih (grown.insert (by simp) .directory) (made rooted stands)
              (made rooted' (grown.kept stands)) there later
          | some node =>
            obtain rfl := own (grown.fresh held' held)
            exact ih (grown.insert_left (by simp) held') (made rooted stands) rooted' there later

/-- The entry that a path names behind other pieces. -/
theorem target_of_last (fits : admissible p = .ok ()) (spelled : p.pieces = before ++ [last])
    (solid : Path.isFiller last = false) :
    t.target p = (do
      let dir ← before.foldlM t.follow (t.start p)
      match t.node? dir with
      | none => .error .notFound
      | some (.file _) => .error .notADirectory
      | some .directory =>
        if last = ".." then .ok ⟨dir, none, false⟩
        else if nameLimit < last.utf8ByteSize then .error .invalidFilename
        else .ok ⟨dir, some last, false⟩) := by
  have filled : last ≠ "" := fun blank => by simp [blank, Path.isFiller] at solid
  have still : last ≠ "." := fun dot => by simp [dot, Path.isFiller] at solid
  have backwards : p.pieces.reverse = last :: before.reverse := by simp [spelled]
  have dropped : (last :: before.reverse).dropWhile (· == "") = last :: before.reverse := by
    simp [filled]
  unfold target
  simp only [fits, backwards, dropped, List.reverse_reverse, List.head?_cons, still, decide_false,
    Bool.false_or, decide_eq_true_eq]
  have unslashed : (some last == some "") = false := by simp [filled]
  simp only [unslashed]
  rfl

end Tree

namespace FileM

open RuleDepot.Tree

/-- An attempt at a directory makes it at the end of a way that is there, or finds that the way is there or
barred, or that something in front of its end is missing. -/
inductive Attempted (t : Tree) (p : Path) (before : List String) :
    EStateM.Result IoError Tree Unit → Prop where
  | made {t' : Tree} (way : t.pave (t.start p) p.pieces = (t', true)) : Attempted t p before (.ok () t')
  | settled {e : IoError} (other : e.kind ≠ .notFound)
      (way : t.pave (t.start p) p.pieces = (t, t.isDir p)) : Attempted t p before (.error e t)
  | missing {e : IoError} (missing : e.kind = .notFound)
      (lost : ∀ dir, before.foldlM t.follow (t.start p) = .ok dir → t.node? dir ≠ some .directory) :
      Attempted t p before (.error e t)

section Attempts

variable (rooted : t.Rooted) (begins : t.node? (t.start p) = some .directory)
  (fits : admissible p = .ok ()) (spelled : p.pieces = before ++ [last])

include rooted begins fits spelled

/-- An attempt fails for another reason than that something is missing if the way is there or barred. -/
theorem attempted_of_found {kind : IoKind} (other : kind ≠ .notFound)
    (walked : (before.foldlM t.follow (t.start p) >>= fun dir => t.follow dir last) ≠ .error .notFound) :
    Attempted t p before (.error (.ofKind kind) t) := by
  refine .settled other (pave_of_found rooted begins fits ?_)
  simpa [spelled, List.foldlM_append] using walked

variable (solid : Path.isFiller last = false)

include solid

/-- Where the way leads to a directory, an attempt makes another one there, or finds that the end is there
or barred. -/
theorem makeDir_entered {dir : Location} (went : before.foldlM t.follow (t.start p) = .ok dir)
    (held : t.node? dir = some .directory) : Attempted t p before (makeDir p t) := by
  have found {kind : IoKind} (other : kind ≠ .notFound) (walked : t.follow dir last ≠ .error .notFound) :
      Attempted t p before (.error (.ofKind kind) t) :=
    attempted_of_found rooted begins fits spelled other (by rw [went]; exact walked)
  have aimed := target_of_last (t := t) fits spelled solid
  rw [went] at aimed
  simp only [bind, Except.bind, held] at aimed
  rw [makeDir, get_bind, aimed]
  by_cases up : last = ".."
  · have goes := (follow_of_dots rooted held (Or.inr up)).1
    rw [if_pos up]
    exact found (by decide) (by simp [goes])
  · have named : ¬ IsDots last := by simp [IsDots, solid, up]
    have goes := follow_of_name held named
    rw [if_neg up]
    by_cases long : nameLimit < last.utf8ByteSize
    · rw [if_pos long] at goes ⊢
      exact found (by decide) (by simp [goes])
    · rw [if_neg long] at goes ⊢
      rw [ofLookup_ok_bind]
      simp only [Target.place?, Option.map_some]
      cases there : t.node? (dir ++ [last]) with
      | some node =>
        rw [there] at goes
        exact found (by decide) (by simp [goes])
      | none =>
        obtain rfl := walk_lexical went
        refine .made ?_
        rw [spelled, pave_append, pave_of_walk went held, if_pos rfl, pave, if_neg named, if_neg long]
        simp only [there]
        rfl

private theorem makeDir_paves : Attempted t p before (makeDir p t) := by
  have aimed := target_of_last (t := t) fits spelled solid
  cases went : before.foldlM t.follow (t.start p) with
  | error kind =>
    rw [went] at aimed
    rw [makeDir, get_bind, aimed]
    by_cases missing : kind = .notFound
    · exact .missing missing (by simp [went])
    · refine attempted_of_found rooted begins fits spelled missing ?_
      rw [went]
      intro same
      cases same
      exact missing rfl
  | ok dir =>
    cases held : t.node? dir with
    | some node =>
      cases node with
      | directory => exact makeDir_entered rooted begins fits spelled solid went held
      | file bytes =>
        have walled : t.follow dir last = .error .notADirectory := by simp only [follow, held]
        rw [went] at aimed
        simp only [bind, Except.bind, held] at aimed
        rw [makeDir, get_bind, aimed]
        refine attempted_of_found rooted begins fits spelled (by decide) ?_
        rw [went]
        simp [bind, Except.bind, walled]
    | none =>
      rw [went] at aimed
      simp only [bind, Except.bind, held] at aimed
      rw [makeDir, get_bind, aimed]
      exact .missing rfl (by simp [went, held])

end Attempts

variable {parents : List Path}

private theorem makeChain_of_made (filled : p.text ≠ "") (made : makeDir p t = .ok () t') :
    makeChain (p :: parents) t = .ok () t' := by
  rw [makeChain, if_neg (by simpa using filled), get_bind, made]
  rfl

theorem makeChain_of_settled (filled : p.text ≠ "") (failed : makeDir p t = .error e t)
    (other : e.kind ≠ .notFound) :
    makeChain (p :: parents) t = if t.isDir p then .ok () t else .error e t := by
  rw [makeChain, if_neg (by simpa using filled), get_bind, failed]
  simp only [other, if_false, bind_run, set_run]
  split <;> rfl

/-- Where something is missing on the way, the parents come first, and then there is another attempt. -/
theorem makeChain_of_missing (filled : p.text ≠ "") (failed : makeDir p t = .error e t)
    (missing : e.kind = .notFound) :
    makeChain (p :: parents) t = match makeChain parents t with
      | .error e' t' => .error e' t'
      | .ok _ t' => match makeDir p t' with
        | .ok _ t'' => .ok () t''
        | .error e' t'' => if t''.isDir p then .ok () t'' else .error e' t' := by
  rw [makeChain, if_neg (by simpa using filled), get_bind, failed]
  simp only [missing, if_true, bind_run (set t), set_run, bind_run (makeChain parents)]
  cases makeChain parents t with
  | error e' t' => rfl
  | ok _ t' =>
    simp only [get_bind]
    cases makeDir p t' with
    | ok _ t'' => rfl
    | error e' t'' =>
      simp only
      split <;> rfl

/-- A result is that of making a way: success if it could be made to its end, and all that was made. -/
inductive Paves : Tree × Bool → EStateM.Result IoError Tree Unit → Prop where
  | made (t : Tree) : Paves (t, true) (.ok () t)
  | barred (e : IoError) (t : Tree) : Paves (t, false) (.error e t)

/-- Once the parents are there, another attempt makes the end of the way. -/
theorem lastAttempt_paves (rooted : t.Rooted) (begins : t.node? (t.start p) = some .directory)
    (fits : admissible p = .ok ()) (spelled : p.pieces = before ++ [last])
    (solid : Path.isFiller last = false)
    (goes : before.foldlM t.follow (t.start p) = .ok (before.foldl advance (t.start p)))
    (stands : t.node? (before.foldl advance (t.start p)) = some .directory) :
    Paves (t.pave (before.foldl advance (t.start p)) [last]) (match makeDir p t with
      | .ok _ t' => .ok () t'
      | .error e' t' => if t'.isDir p then .ok () t' else .error e' t) := by
  have whole : t.pave (t.start p) p.pieces = t.pave (before.foldl advance (t.start p)) [last] := by
    rw [spelled, pave_append, pave_of_walk goes stands, if_pos rfl]
  rw [← whole]
  have attempt := makeDir_paves rooted begins fits spelled solid
  generalize makeDir p t = result at attempt
  cases attempt with
  | @made t' way =>
    rw [way]
    exact .made t'
  | @settled e other way =>
    rw [way]
    simp only
    cases t.isDir p with
    | true => exact .made t
    | false => exact .barred e t
  | missing _ lost => exact absurd stands (lost _ goes)

/-- A path leads to the directory in front of the last piece of another one. -/
structure Leads (t : Tree) (p : Path) (before : List String) (q : Path) : Prop where
  starts : t.start q = t.start p
  fits : admissible q = .ok ()
  ends : ∃ front last, q.pieces = front ++ [last] ∧ Path.isFiller last = false
  spelled : ∃ gap, before = q.pieces ++ gap ∧ ∀ piece ∈ gap, Path.isFiller piece = true

/-- The parents of a path are those that a path to the directory in front of its last piece is made with,
unless there are only fillers in front of it, when nothing is to be made. -/
theorem parents_cases {n : Nat} (begins : t.node? (t.start p) = some .directory)
    (fits : admissible p = .ok ()) (spelled : p.pieces = before ++ [last])
    (solid : Path.isFiller last = false)
    (enough : (Path.dropFillersAtEnd p.isAbsolute before).length < n) :
    ((∀ piece ∈ before, Path.isFiller piece = true) ∧
        makeChain (p.parent?.elim [] (ancestors n)) t = .ok () t) ∨
      ∃ q, Leads t p before q ∧ q.pieces.length < n ∧
        makeChain (p.parent?.elim [] (ancestors n)) t = makeChain (ancestors n q) t := by
  have filled : p.text ≠ "" := fun blank => by simp [admissible, blank] at fits
  have spelled' : p.pieces = before ++ last :: [] := spelled
  have parent := parent?_of_pieces spelled' solid (by simp)
  obtain ⟨gap, split, hollow⟩ := Path.eq_append_dropFillersAtEnd p.isAbsolute before
  have ends := Path.dropFillersAtEnd_ends p.isAbsolute before
  obtain ⟨m, rfl⟩ : ∃ m, n = m + 1 := ⟨n - 1, by omega⟩
  rw [parent, Option.elim_some]
  generalize same : Path.ofPieces p.isAbsolute (Path.dropFillersAtEnd p.isAbsolute before) = q
  generalize Path.dropFillersAtEnd p.isAbsolute before = front at split ends enough same
  have whole : p.pieces = front ++ (gap ++ [last]) := by
    rw [spelled, split, List.append_assoc]
  have hollow' (fillers : ∀ piece ∈ front, Path.isFiller piece = true) :
      ∀ piece ∈ before, Path.isFiller piece = true := fun piece member =>
    (List.mem_append.mp (split ▸ member)).elim (fillers piece) (hollow piece)
  by_cases blank : q.text = ""
  · obtain ⟨-, rfl⟩ := front_of_blank (same ▸ blank) whole filled
    rw [ancestors_succ, makeChain, if_pos (by simpa using blank)]
    exact Or.inl ⟨hollow' (by simp), rfl⟩
  · obtain ⟨absolute, pieces, prefixed⟩ := spelled_parent same.symm blank whole filled
    have starts : t.start q = t.start p := by simp only [start, absolute]
    have fits' := admissible_of_front fits blank prefixed
    rcases ends with fillers | ⟨front, last', rfl, solid'⟩
    · have fillers' : ∀ piece ∈ q.pieces, Path.isFiller piece = true := by
        rcases pieces with own | ⟨-, own⟩
        · rwa [own]
        · rw [own]
          decide
      have directory := isDir_of_walk fits' (walk_fillers fillers' (starts ▸ begins)) (starts ▸ begins)
      rw [ancestors_succ, makeChain_of_isDir directory]
      exact Or.inl ⟨hollow' fillers, rfl⟩
    · have own : q.pieces = front ++ [last'] := pieces.resolve_right (by simp)
      exact Or.inr ⟨q, ⟨starts, fits', ⟨front, last', own, solid'⟩, gap, own ▸ split, hollow⟩,
        own ▸ enough, rfl⟩

/-- What is in front of the last piece of a path has fewer pieces than it. -/
theorem front_shorter {n : Nat} (spelled : p.pieces = before ++ [last])
    (enough : p.pieces.length < n + 1) :
    (Path.dropFillersAtEnd p.isAbsolute before).length < n := by
  obtain ⟨gap, split, -⟩ := Path.eq_append_dropFillersAtEnd p.isAbsolute before
  have lengths := congrArg List.length split
  rw [List.length_append] at lengths
  rw [spelled, List.length_append, List.length_singleton] at enough
  omega

/-- The parents of a path are made by making the way in front of its last piece, if that is so of paths
with fewer pieces. -/
theorem parents_paves {n : Nat} (begins : t.node? (t.start p) = some .directory)
    (fits : admissible p = .ok ()) (spelled : p.pieces = before ++ [last])
    (solid : Path.isFiller last = false)
    (enough : (Path.dropFillersAtEnd p.isAbsolute before).length < n)
    (above : ∀ {q : Path} {last : String} {before : List String},
      t.node? (t.start q) = some .directory → admissible q = .ok () → q.pieces = before ++ [last] →
      Path.isFiller last = false → q.pieces.length < n →
      Paves (t.pave (t.start q) q.pieces) (makeChain (ancestors n q) t)) :
    Paves (t.pave (t.start p) before) (makeChain (p.parent?.elim [] (ancestors n)) t) := by
  rcases parents_cases begins fits spelled solid enough with ⟨fillers, ran⟩ | ⟨q, leads, fewer, ran⟩
  · rw [ran, pave_fillers fillers]
    exact .made t
  · obtain ⟨front, last', own, solid'⟩ := leads.ends
    obtain ⟨gap, split, hollow⟩ := leads.spelled
    have paves := above (leads.starts ▸ begins) leads.fits own solid' fewer
    have same : t.pave (t.start p) before = t.pave (t.start p) q.pieces := by
      rw [split, pave_append, pave_fillers hollow]
      split
      · rename_i whole
        exact Prod.ext rfl whole.symm
      · rfl
    rw [ran, same, ← leads.starts]
    exact paves

/-- **A directory is made with its parents** by making what is missing on the way of its path.  The
induction is on how many parents are tried, which has to be enough for the whole path. -/
theorem makeChain_paves {n : Nat} (rooted : t.Rooted) (begins : t.node? (t.start p) = some .directory)
    (fits : admissible p = .ok ()) (spelled : p.pieces = before ++ [last])
    (solid : Path.isFiller last = false) (enough : p.pieces.length < n) :
    Paves (t.pave (t.start p) p.pieces) (makeChain (ancestors n p) t) := by
  induction n generalizing p before last with
  | zero => cases enough
  | succ n ih =>
    have filled : p.text ≠ "" := fun blank => by simp [admissible, blank] at fits
    have above := parents_paves begins fits spelled solid (front_shorter spelled enough) ih
    have attempt := makeDir_paves rooted begins fits spelled solid
    rw [ancestors_succ]
    generalize attempted : makeDir p t = result at attempt
    cases attempt with
    | made way =>
      rw [makeChain_of_made filled attempted, way]
      exact .made _
    | @settled e other way =>
      rw [makeChain_of_settled filled attempted other, way]
      cases t.isDir p with
      | true => exact .made t
      | false => exact .barred e t
    | missing missing =>
      rw [makeChain_of_missing filled attempted missing, spelled, pave_append]
      have grown := pave_grown t (t.start p) before
      have rooted' : (t.pave (t.start p) before).1.Rooted := pave_rooted rooted begins
      have goes (whole : (t.pave (t.start p) before).2 = true) := walk_of_pave rooted begins whole
      generalize t.pave (t.start p) before = way at above grown rooted' goes ⊢
      generalize makeChain (p.parent?.elim [] (ancestors n)) t = result at above ⊢
      cases above with
      | barred e' t' => exact .barred e' t'
      | made t' =>
        obtain ⟨goes, stands⟩ := goes rfl
        have same : t'.start p = t.start p := start_congr grown.workingDir p
        have attempt := lastAttempt_paves rooted' (same ▸ grown.kept begins) fits spelled solid
          (same ▸ goes) (same ▸ stands)
        rwa [same] at attempt

/-- Where a path does not begin at a directory, none of its directories is made.  The induction is on how
many parents are tried. -/
theorem makeChain_astray (n : Nat) (lost : t.node? (t.start p) ≠ some .directory) :
    left (makeChain (ancestors n p) t) = t ∧
      (p.text ≠ "" → ∃ e, makeChain (ancestors n p) t = .error e t) := by
  induction n generalizing p with
  | zero => exact ⟨rfl, fun _ => ⟨_, rfl⟩⟩
  | succ n ih =>
    have absent : t.isDir p = false := by
      rw [Bool.eq_false_iff]
      exact fun directory => lost (directory_of_passes directory ⟨[], List.nil_prefix, rfl⟩)
    have unmade : ∀ t', makeDir p t ≠ .ok () t' := by
      intro t' made
      obtain ⟨⟨front, name, slashes, aims⟩, -⟩ := makeDir_ok made
      exact lost (@directory_of_walk t [] front _ _ aims.walked aims.directory)
    have above : left (makeChain (p.parent?.elim [] (ancestors n)) t) = t := by
      cases parent : p.parent? with
      | none => rfl
      | some q =>
        by_cases filled : q.text = ""
        · cases n with
          | zero => rfl
          | succ n =>
            rw [Option.elim_some, ancestors_succ, makeChain, if_pos (by simpa using filled)]
            rfl
        · have starts : t.start q = t.start p := start_of_parent parent filled
          exact (ih (starts ▸ lost)).1
    have still {r : EStateM.Result IoError Tree Unit}
        (ran : makeChain (p.parent?.elim [] (ancestors n)) t = r) : left r = t := ran ▸ above
    rw [ancestors_succ]
    have chained := makeChain_cases p (p.parent?.elim [] (ancestors n)) t
    generalize makeChain (p :: _) t = result at chained ⊢
    cases chained with
    | blank empty => exact ⟨rfl, fun filled => absurd empty filled⟩
    | there directory => simp [absent] at directory
    | made made => exact absurd made (unmade _)
    | barred => exact ⟨rfl, fun _ => ⟨_, rfl⟩⟩
    | orphaned _ _ ran | barredLater _ _ ran =>
      cases still ran
      exact ⟨rfl, fun _ => ⟨_, rfl⟩⟩
    | @thereLater _ t' _ _ ran directory =>
      obtain rfl : t' = t := still ran
      rw [absent] at directory
      cases directory
    | @madeLater _ t' _ _ _ ran made =>
      obtain rfl : t' = t := still ran
      exact absurd made (unmade _)

/-- Nothing is made for a text that no path may have. -/
theorem makeDirs_of_refused {kind : IoKind} (filled : p.text ≠ "") (refused : admissible p = .error kind)
    (t : Tree) : makeDirs p t = .error (.ofKind kind) t := by
  have failed : makeDir p t = .error (.ofKind kind) t := by
    rw [makeDir, get_bind]
    simp only [target, refused]
    rfl
  have absent : t.isDir p = false := by
    simp [isDir, status, locate, refused, bind, Except.bind]
  have other : kind ≠ .notFound := fun missing => admissible_ne_notFound filled (missing ▸ refused)
  rw [makeDirs, ancestors_succ, makeChain_of_settled filled failed other, absent]
  rfl

/-- Two runs that both succeed or both fail, maybe for different reasons. -/
inductive Together (R : Tree → Tree → Prop) :
    EStateM.Result IoError Tree Unit → EStateM.Result IoError Tree Unit → Prop where
  | ok {t u : Tree} (related : R t u) : Together R (.ok () t) (.ok () u)
  | error {e e' : IoError} {t u : Tree} (related : R t u) : Together R (.error e t) (.error e' u)

/-- **A directory can be made exactly if it can in a tree that has more**, as long as there are no files
among that on the way of the path, nor the directory that the path begins at. -/
theorem makeDirs_grown (named : Path.IsName name) (grown : Grown new u v) (rooted : u.Rooted)
    (rooted' : v.Rooted)
    (begins : v.node? (v.start (p / name)) = some .directory →
      u.node? (u.start (p / name)) = some .directory)
    (way : ∀ {place node}, u.Passes (p / name) place → new place node → node = .directory) :
    Together (Grown new) (makeDirs (p / name) u) (makeDirs (p / name) v) := by
  have filled : (p / name).text ≠ "" := Path.text_join_ne_empty _ named.nonempty
  obtain ⟨-, before, -, -, -, spelled⟩ := Path.pieces_join p named
  have same : v.start (p / name) = u.start (p / name) := start_congr grown.workingDir _
  cases fits : admissible (p / name) with
  | error kind =>
    rw [makeDirs_of_refused filled fits, makeDirs_of_refused filled fits]
    exact .error grown
  | ok _ =>
    by_cases stands : u.node? (u.start (p / name)) = some .directory
    · have paved (t : Tree) (rooted : t.Rooted)
          (begins : t.node? (t.start (p / name)) = some .directory) :
          Paves (t.pave (t.start (p / name)) (p / name).pieces) (makeDirs (p / name) t) :=
        makeChain_paves rooted begins fits spelled named.isFiller (by omega)
      have first := paved u rooted stands
      have second := paved v rooted' (same ▸ grown.kept stands)
      have along : ∀ front, front <+: (p / name).pieces → ∀ {node},
          new (front.foldl advance (u.start (p / name))) node → node = .directory :=
        fun front shorter => way ⟨front, shorter, rfl⟩
      obtain ⟨whole, related⟩ := grown.pave rooted rooted' stands along
      rw [same] at second
      generalize u.pave _ _ = way, makeDirs _ u = result at first whole related ⊢
      generalize v.pave _ _ = way', makeDirs _ v = result' at second whole related ⊢
      cases first with
      | made =>
        cases second with
        | made => exact .ok related
        | barred => cases whole
      | barred =>
        cases second with
        | made => cases whole
        | barred => exact .error related
    · obtain ⟨e, failed⟩ := (makeChain_astray ((p / name).pieces.length + 2) stands).2 filled
      obtain ⟨e', failed'⟩ := (makeChain_astray ((p / name).pieces.length + 2)
        fun held => stands (begins held)).2 filled
      change Together _ (makeChain _ u) (makeChain _ v)
      rw [failed, failed']
      exact .error grown

end FileM

end RuleDepot
