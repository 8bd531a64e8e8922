import RuleDepot.Proofs.Files.Comparing
import RuleDepot.Proofs.Files.Editing
import RuleDepot.Proofs.Tables
/-!
What comes of an action the second time.  A file that stands is not made again, and one that is
published over itself stays as it is.  A path that keeps clear of all places where two trees differ
leads to the same in both of them.
-/

namespace RuleDepot

open Running

variable {t t' u : Tree} {p d : Path} {place start : Location} {name : String} {node : Node}
  {pieces : List String} {inner made put : Location → Prop} {bytes content : ByteArray}

namespace Path

/-- A path goes on behind another one with names, in the place of the empty pieces at its end. -/
structure Continues (d q : Path) (names : List String) : Prop where
  absolute : q.isAbsolute = d.isAbsolute
  pieces : ∃ before trail, d.pieces = before ++ trail ∧ (∀ piece ∈ trail, piece = "") ∧
    q.pieces = before ++ names

theorem continues_join (d : Path) (named : IsName name) : Continues d (d / name) [name] :=
  ⟨(pieces_join d named).1, (pieces_join d named).2⟩

theorem Continues.join {q : Path} {names : List String} (continues : Continues d q names)
    (filled : names ≠ []) (solid : ∀ s ∈ names, IsName s) (named : IsName name) :
    Continues d (q / name) (names ++ [name]) := by
  obtain ⟨absolute, before, trail, own, blank, whole⟩ := continues
  obtain ⟨absolute', before', trail', own', blank', whole'⟩ := pieces_join q named
  refine ⟨absolute'.trans absolute, before, trail, own, blank, ?_⟩
  -- The last name is not empty, so nothing is in the way of the new one.
  have alone : trail' = [] := by
    rcases List.eq_nil_or_concat trail' with none | ⟨more, x, ends⟩
    · exact none
    · rw [List.concat_eq_append] at ends
      obtain ⟨front, last, rfl⟩ : ∃ front last, names = front ++ [last] :=
        ⟨_, _, (List.dropLast_concat_getLast filled).symm⟩
      have same : before ++ front ++ [last] = before' ++ more ++ [x] := by
        rw [List.append_assoc, ← whole, own', ends, List.append_assoc]
      obtain rfl : last = x := by simpa using (List.append_inj' same rfl).2
      exact absurd (blank' last (by simp [ends])) (solid last (by simp)).nonempty
  rw [whole', ← List.append_assoc, ← whole, own', alone, List.append_nil]

end Path

namespace Tree

/-- From a directory on, a path is followed name by name. -/
theorem locate_of_continues {q : Path} {names : List String} (enters : t.Enters d)
    (continues : Path.Continues d q names) (fits : admissible q = .ok ()) :
    t.locate q = names.foldlM t.follow (t.lexical d) := by
  obtain ⟨absolute, before, trail, own, blank, whole⟩ := continues
  have walked := enters.walked
  have fillers : ∀ piece ∈ trail, Path.isFiller piece = true := fun piece member => by
    rw [blank piece member]
    rfl
  have begins : t.start q = t.start d := by simp only [start, absolute]
  rw [own, List.foldlM_append] at walked
  obtain ⟨dir, first, later⟩ := ok_of_bind walked
  obtain rfl := walk_lexical first
  have stays : t.lexical d = before.foldl advance (t.start d) := by
    rw [walk_lexical later, foldl_advance_fillers fillers]
  unfold locate
  rw [fits, whole, List.foldlM_append, begins, first, stays]
  rfl

section Names

variable {names : List String}

private theorem foldl_advance_names (solid : ∀ s ∈ names, Path.IsName s) :
    names.foldl advance place = place ++ names :=
  foldl_advance_down (fun s member => ⟨(solid s member).isFiller, (solid s member).down⟩) place

/-- Names behind a path go down by as many directories. -/
theorem lexical_of_continues {q : Path} (t : Tree) (continues : Path.Continues d q names)
    (solid : ∀ s ∈ names, Path.IsName s) : t.lexical q = t.lexical d ++ names := by
  obtain ⟨absolute, before, trail, own, blank, whole⟩ := continues
  have fillers : ∀ piece ∈ trail, Path.isFiller piece = true := fun piece member => by
    rw [blank piece member]
    rfl
  have begins : t.start q = t.start d := by simp only [start, absolute]
  rw [lexical, lexical, whole, own, List.foldl_append, List.foldl_append, begins,
    foldl_advance_names solid, foldl_advance_fillers fillers]

/-- Names behind a path add their locations to its way. -/
theorem passes_of_continues {q : Path} (continues : Path.Continues d q names)
    (solid : ∀ s ∈ names, Path.IsName s) (passes : t.Passes q place) :
    t.Passes d place ∨ ∃ front, front ≠ [] ∧ front <+: names ∧ place = t.lexical d ++ front := by
  obtain ⟨absolute, before, trail, own, blank, whole⟩ := continues
  have fillers : ∀ piece ∈ trail, Path.isFiller piece = true := fun piece member => by
    rw [blank piece member]
    rfl
  have begins : t.start q = t.start d := by simp only [start, absolute]
  obtain ⟨part, inside, rfl⟩ := passes
  rw [begins]
  rw [whole] at inside
  rcases prefix_append_cases inside with shorter | ⟨front, rfl, shorter⟩
  · exact Or.inl ⟨part, shorter.trans (own ▸ List.prefix_append _ _), rfl⟩
  · by_cases none : front = []
    · exact Or.inl ⟨before, own ▸ List.prefix_append _ _, by rw [none, List.append_nil]⟩
    · refine Or.inr ⟨front, none, shorter, ?_⟩
      have named : ∀ s ∈ front, Path.IsName s := fun s member => solid s (shorter.subset member)
      rw [List.foldl_append, foldl_advance_names named, lexical, own, List.foldl_append,
        foldl_advance_fillers fillers]

/-- The way of a path is part of that of a path that goes on behind it. -/
theorem passes_of_continued {q : Path} (continues : Path.Continues d q names)
    (passes : t.Passes d place) : t.Passes q place := by
  obtain ⟨absolute, before, trail, own, blank, whole⟩ := continues
  have begins : t.start q = t.start d := by simp only [start, absolute]
  obtain ⟨front, shorter, rfl⟩ := passes
  rw [own] at shorter
  rw [← begins]
  rcases prefix_append_cases shorter with shorter | ⟨part, rfl, inside⟩
  · exact ⟨front, shorter.trans (whole ▸ List.prefix_append _ _), rfl⟩
  · have fillers : ∀ piece ∈ part, Path.isFiller piece = true := fun piece member => by
      rw [blank piece (inside.subset member)]
      rfl
    refine ⟨before, whole ▸ List.prefix_append _ _, ?_⟩
    rw [List.foldl_append, foldl_advance_fillers fillers]

/-- A path that goes on behind another one can be entered only through that one. -/
theorem Enters.of_continues {q : Path} (enters : t.Enters q) (continues : Path.Continues d q names) :
    t.Enters d := by
  have held : ∀ {place}, t.Passes d place → t.node? place = some .directory := fun passes =>
    enters.directory (passes_of_continued continues passes)
  obtain ⟨absolute, before, trail, own, blank, whole⟩ := continues
  have fillers : ∀ piece ∈ trail, Path.isFiller piece = true := fun piece member => by
    rw [blank piece member]
    rfl
  have begins : t.start q = t.start d := by simp only [start, absolute]
  have walked := enters.walked
  rw [whole, List.foldlM_append, begins] at walked
  obtain ⟨dir, first, -⟩ := ok_of_bind walked
  obtain rfl := walk_lexical first
  have leads : t.lexical d = before.foldl advance (t.start d) := by
    rw [lexical, own, List.foldl_append, foldl_advance_fillers fillers]
  refine ⟨?_, held (passes_lexical t d)⟩
  rw [own, List.foldlM_append, first, leads]
  exact walk_fillers fillers (leads ▸ held (passes_lexical t d))

/-- Names that are short and stand below a directory, of which only the last one may be no directory,
can be followed one after another. -/
theorem walk_names (rooted : t.Rooted) (held : t.node? place = some .directory)
    (solid : ∀ s ∈ names, Path.IsName s ∧ s.utf8ByteSize ≤ nameLimit)
    (there : t.node? (place ++ names) ≠ none) : names.foldlM t.follow place = .ok (place ++ names) := by
  induction names generalizing place with
  | nil => simp [pure, Except.pure]
  | cons name rest ih =>
    obtain ⟨⟨named, short⟩, solid⟩ := List.forall_mem_cons.mp solid
    have split : place ++ name :: rest = place ++ [name] ++ rest := by simp
    rw [split] at there ⊢
    obtain ⟨node, found⟩ := Option.ne_none_iff_exists'.mp there
    have next : t.node? (place ++ [name]) ≠ none := by
      by_cases last : rest = []
      · simpa [last] using there
      · have above := rooted.above found (List.prefix_append _ rest) (by simpa using Ne.symm last)
        simp [above]
    have entered : t.follow place name = .ok (place ++ [name]) :=
      follow_eq_ok_iff.mpr ⟨held, by simp [advance, named.isFiller, named.down],
        fun _ _ => ⟨short, next⟩⟩
    rw [List.foldlM_cons, entered]
    by_cases last : rest = []
    · simp [last, bind, Except.bind, pure, Except.pure]
    · exact ih (rooted.above found (List.prefix_append _ rest) (by simpa using Ne.symm last)) solid
        there

private theorem short_of_walk {next : Location} (solid : ∀ s ∈ names, Path.IsName s)
    (walked : names.foldlM t.follow place = .ok next) : ∀ s ∈ names, s.utf8ByteSize ≤ nameLimit := by
  induction names generalizing place with
  | nil => simp
  | cons name rest ih =>
    obtain ⟨named, solid⟩ := List.forall_mem_cons.mp solid
    rw [List.foldlM_cons] at walked
    obtain ⟨middle, first, later⟩ := ok_of_bind walked
    obtain ⟨-, -, short⟩ := follow_eq_ok_iff.mp first
    exact List.forall_mem_cons.mpr ⟨(short named.isFiller named.down).1, ih solid later⟩

/-- Names behind the path of a directory lead to a file if they are admitted and a file stands there. -/
theorem isFile_of_continues_iff {q : Path} (rooted : t.Rooted) (enters : t.Enters d)
    (continues : Path.Continues d q names) (solid : ∀ s ∈ names, Path.IsName s) :
    t.isFile q = true ↔ (admissible q = .ok () ∧ ∀ s ∈ names, s.utf8ByteSize ≤ nameLimit) ∧
      ∃ bytes, t.node? (t.lexical d ++ names) = some (.file bytes) := by
  have leads := lexical_of_continues t continues solid
  constructor
  · intro file
    obtain ⟨bytes, found⟩ := isFile_iff.mp file
    obtain ⟨located, held⟩ := status_eq_ok_iff.mp found
    have fits := (locate_eq_ok_iff.mp located).1
    have walked := (locate_of_continues enters continues fits).symm.trans located
    exact ⟨⟨fits, short_of_walk solid walked⟩, bytes, leads ▸ held⟩
  · rintro ⟨⟨fits, short⟩, bytes, held⟩
    have walked := walk_names rooted enters.held (fun s member => ⟨solid s member, short s member⟩)
      (by simp [held])
    refine isFile_iff.mpr ⟨bytes, status_eq_ok_iff.mpr ⟨?_, leads ▸ held⟩⟩
    rw [locate_of_continues enters continues fits, leads]
    exact walked

/-- Short names lead nowhere if nothing stands behind the last one and no file is in the way. -/
theorem walk_absent (held : t.node? place = some .directory)
    (solid : ∀ s ∈ names, Path.IsName s ∧ s.utf8ByteSize ≤ nameLimit)
    (clear : ∀ front rest, names = front ++ rest → rest ≠ [] →
      ∀ bytes, t.node? (place ++ front) ≠ some (.file bytes))
    (absent : t.node? (place ++ names) = none) : names.foldlM t.follow place = .error .notFound := by
  induction names generalizing place with
  | nil => simp [held] at absent
  | cons name rest ih =>
    obtain ⟨⟨named, short⟩, solid⟩ := List.forall_mem_cons.mp solid
    have long := Nat.not_lt.mpr short
    have split : place ++ name :: rest = place ++ [name] ++ rest := by simp
    rw [List.foldlM_cons]
    cases next : t.node? (place ++ [name]) with
    | none =>
      have stops : t.follow place name = .error .notFound := by
        simp [follow, held, named.isFiller, named.down, long, next]
      rw [stops]
      rfl
    | some node =>
      have entered : t.follow place name = .ok (place ++ [name]) :=
        follow_eq_ok_iff.mpr ⟨held, by simp [advance, named.isFiller, named.down],
          fun _ _ => ⟨short, by simp [next]⟩⟩
      rw [entered]
      have more : rest ≠ [] := by
        rintro rfl
        rw [next] at absent
        cases absent
      have directory : t.node? (place ++ [name]) = some .directory := by
        cases node with
        | directory => exact next
        | file bytes => exact absurd next (clear [name] rest rfl more bytes)
      refine ih directory solid (fun front others same filled bytes => ?_) (split ▸ absent)
      have own := clear (name :: front) others (by rw [same, List.cons_append]) filled bytes
      simpa using own

end Names

/-- A name behind a path to a directory leads to what stands there under that name, if the file system
takes the path and the name. -/
theorem status_join_iff (directory : t.isDir d = true) (named : Path.IsName name) :
    t.status (d / name) = .ok node ↔ admissible (d / name) = .ok () ∧
      name.utf8ByteSize ≤ nameLimit ∧ t.node? (t.lexical d ++ [name]) = some node := by
  constructor
  · intro found
    obtain ⟨leads, held⟩ := status_eq_ok_iff.mp found
    obtain ⟨before, aims⟩ := aims_of_found named leads
    rw [lexical_join t named] at held
    exact ⟨aims.fits, aims.short, held⟩
  · rintro ⟨fits, short, held⟩
    obtain ⟨before, aims⟩ := aims_join directory named fits short
    exact aims.status (by rw [lexical_join t named, held]) (Or.inl rfl)

/-- What is found behind a path is found in a directory. -/
theorem isDir_of_join (filled : d.text ≠ "") (named : Path.IsName name)
    (found : t.status (d / name) = .ok node) : t.isDir d = true := by
  obtain ⟨absolute, before, trail, own, blank, whole⟩ := Path.pieces_join d named
  obtain ⟨leads, -⟩ := status_eq_ok_iff.mp found
  obtain ⟨fits, walked⟩ := locate_eq_ok_iff.mp leads
  rw [whole, List.foldlM_append] at walked
  obtain ⟨dir, first, later⟩ := ok_of_bind walked
  rw [List.foldlM_cons] at later
  obtain ⟨next, entered, -⟩ := ok_of_bind later
  obtain ⟨directory, -⟩ := follow_eq_ok_iff.mp entered
  have front : d.text.toList <+: (d / name).text.toList := by
    change _ <+: (d.join ⟨name⟩).text.toList
    simp only [Path.join, named.relative, Bool.false_eq_true, if_false]
    split <;> simp
  have begins : t.start (d / name) = t.start d := by simp only [start, absolute]
  have fillers : ∀ piece ∈ trail, Path.isFiller piece = true := fun piece member => by
    rw [blank piece member]
    rfl
  have found' : t.locate d = .ok dir := by
    refine locate_eq_ok_iff.mpr ⟨admissible_of_front fits filled front, ?_⟩
    rw [own, List.foldlM_append, ← begins, first]
    exact walk_fillers fillers directory
  refine isDir_iff.mpr (status_eq_ok_iff.mpr ?_)
  rw [← locate_lexical found']
  exact ⟨found', directory⟩

private theorem insert_same (named : place ≠ []) (held : t.node? place = some node) :
    t.insert place node = t := by
  have stands : t.nodes[place]? = some node := by simpa [node?, named] using held
  have nodes : t.nodes.insert place node = t.nodes := by
    refine Std.ExtTreeMap.ext_getElem? fun other => ?_
    rw [Table.getElem?_insert]
    split
    · rename_i same
      rw [← same, stands]
    · rfl
  cases t
  exact congrArg (Tree.mk · _) nodes

/-- What a path leads to in one tree, it leads to in another one. -/
def Leads (t u : Tree) (p : Path) : Prop :=
  ∀ node, t.status p = .ok node → u.status p = .ok node

namespace Leads

theorem read (leads : Leads t u p) (read : t.read p = .ok bytes) : u.read p = .ok bytes :=
  read_eq_ok_iff.mpr (leads _ (read_eq_ok_iff.mp read))

theorem isFile (leads : Leads t u p) (file : t.isFile p = true) : u.isFile p = true := by
  obtain ⟨bytes, found⟩ := isFile_iff.mp file
  exact isFile_iff.mpr ⟨bytes, leads _ found⟩

theorem reaches (leads : Leads t u p) (reached : t.reaches p = true) : u.reaches p = true := by
  obtain ⟨node, found⟩ := reaches_iff.mp reached
  exact reaches_iff.mpr ⟨node, leads _ found⟩

/-- Where two files could be compared, they compare alike. -/
theorem sameContent {q : Path} {same : Bool} (leads : Leads t u p) (leads' : Leads t u q)
    (compared : t.sameContent p q = .ok same) : u.sameContent p q = .ok same := by
  obtain ⟨size, sized, rest⟩ := ok_of_bind compared
  obtain ⟨size', sized', -⟩ := ok_of_bind rest
  have settled {q : Path} {size : Nat} (leads : Leads t u q) (sized : t.size q = .ok size) :
      u.status q = t.status q := by
    cases found : t.status q with
    | ok node => exact leads _ found
    | error kind => simp [Tree.size, found] at sized
  rw [← compared]
  simp only [Tree.sameContent, Tree.size, Tree.sha256, Tree.read, settled leads sized,
    settled leads' sized']

end Leads

/-- A name behind a path leads to the same still if no file is put there. -/
theorem Edited.leads_join (edited : Edited made put t t') (filled : d.text ≠ "")
    (named : Path.IsName name) (unput : ¬ put (t.lexical d ++ [name])) : Leads t t' (d / name) := by
  intro node found
  have directory := isDir_of_join filled named found
  obtain ⟨fits, short, held⟩ := (status_join_iff directory named).mp found
  refine (status_join_iff (edited.isDir directory) named).mpr ⟨fits, short, ?_⟩
  rw [edited.lexical]
  exact edited.kept unput held

/-- Trees that differ at most in some places. -/
structure SameBut (inner : Location → Prop) (t u : Tree) : Prop where
  workingDir : u.workingDir = t.workingDir
  node : ∀ {place}, ¬ inner place → u.node? place = t.node? place

namespace SameBut

theorem refl (inner : Location → Prop) (t : Tree) : SameBut inner t t :=
  ⟨rfl, fun _ => rfl⟩

theorem trans {w : Tree} (first : SameBut inner t u) (second : SameBut inner u w) :
    SameBut inner t w :=
  ⟨second.workingDir.trans first.workingDir, fun out => (second.node out).trans (first.node out)⟩

theorem walk (same : SameBut inner t u)
    (out : ∀ front, front <+: pieces → ¬ inner (front.foldl advance start)) :
    pieces.foldlM u.follow start = pieces.foldlM t.follow start := by
  induction pieces generalizing start with
  | nil => rfl
  | cons piece rest ih =>
    have here : u.node? start = t.node? start := same.node (out [] List.nil_prefix)
    have follows : u.follow start piece = t.follow start piece := by
      unfold follow
      rw [here]
      by_cases down : Path.isFiller piece = false ∧ piece ≠ ".."
      · have next := out [piece] (by simp)
        have goes : [piece].foldl advance start = start ++ [piece] := by
          simp [advance, down.1, down.2]
        rw [goes] at next
        rw [same.node next]
      · by_cases solid : Path.isFiller piece = false
        · have up : piece = ".." := Classical.not_not.mp fun other => down ⟨solid, other⟩
          simp only [up, if_true]
        · simp only [Bool.not_eq_false] at solid
          simp only [solid, if_true]
    rw [List.foldlM_cons, List.foldlM_cons, follows]
    cases went : t.follow start piece with
    | error kind => rfl
    | ok next =>
      obtain rfl := (follow_eq_ok_iff.mp went).2.1
      exact ih fun front shorter => out (piece :: front) ((List.prefix_cons_inj _).mpr shorter)

/-- A path that keeps clear of the places where the trees differ leads to the same in both. -/
theorem status (same : SameBut inner t u) (out : ∀ {place}, t.Passes p place → ¬ inner place) :
    u.status p = t.status p := by
  have located : u.locate p = t.locate p := by
    unfold locate
    rw [start_congr same.workingDir,
      same.walk fun front shorter => out ⟨front, shorter, rfl⟩]
  unfold Tree.status
  rw [located]
  cases found : t.locate p with
  | error kind => rfl
  | ok place =>
    obtain rfl := locate_lexical found
    have held := same.node (out (passes_lexical t p))
    simp only [bind, Except.bind, held]

end SameBut

theorem Edited.sameBut (edited : Edited made put t t') (within : ∀ place, made place → inner place)
    (within' : ∀ place, put place → inner place) : SameBut inner t t' where
  workingDir := edited.workingDir
  node out := edited.same (fun new => out (within _ new)) fun new => out (within' _ new)

end Tree

namespace FileM

open RuleDepot.Tree

/-- A file that is there need not be made. -/
theorem touch_of_isFile (named : Path.IsName name) (file : t.isFile (d / name) = true) :
    touch (d / name) t = .ok () t := by
  obtain ⟨former, held⟩ := isFile_iff.mp file
  obtain ⟨leads, stands⟩ := status_eq_ok_iff.mp held
  obtain ⟨before, aims⟩ := aims_of_found named leads
  obtain ⟨target, aimed, place, bare⟩ := aims.target
  rw [touch, get_bind, aimed, ofLookup_ok_bind]
  simp only [place, stands, bare rfl, Bool.false_eq_true, if_false]
  rfl

/-- A file that is named where nothing stands is put there. -/
theorem touch_of_absent (aims : Aims t p before name 0) (absent : t.node? (t.lexical p) = none) :
    touch p t = .ok () (t.insert (t.lexical p) (.file .empty)) := by
  obtain ⟨target, aimed, place, bare⟩ := aims.target
  rw [touch, get_bind, aimed, ofLookup_ok_bind]
  simp only [place, absent, bare rfl, Bool.false_eq_true, if_false]
  rfl

/-- After a file was made sure of, it is there. -/
theorem isFile_of_touch (ran : touch p t = .ok () t') : t'.isFile p = true := by
  rw [touch, get_bind] at ran
  cases aimed : t.target p with
  | error kind =>
    rw [aimed] at ran
    cases ran
  | ok target =>
    rw [aimed, ofLookup_ok_bind] at ran
    cases named : target.place? with
    | none =>
      rw [named] at ran
      cases ran
    | some place =>
      obtain ⟨before, name, slashes, aims, rfl, bare⟩ := aims_of_target aimed named
      rw [named] at ran
      cases slashed : target.slashed with
      | true =>
        cases held : t.node? (t.lexical p) with
        | none =>
          simp only [held, slashed, if_true] at ran
          cases ran
        | some node => cases node <;> simp only [held, slashed, if_true] at ran <;> cases ran
      | false =>
        obtain rfl := bare slashed
        cases held : t.node? (t.lexical p) with
        | none =>
          simp only [held, slashed, Bool.false_eq_true, if_false] at ran
          cases ran
          have grown : Grown (fun _ _ => True) t (t.insert (t.lexical p) (.file .empty)) :=
            grown_insert aims.lexical_ne_nil held trivial
          refine isFile_iff.mpr ⟨.empty, (aims.kept grown).status ?_ (Or.inl rfl)⟩
          rw [grown.lexical]
          exact node?_insert_self aims.lexical_ne_nil
        | some node =>
          cases node with
          | directory =>
            simp only [held] at ran
            cases ran
          | file former =>
            simp only [held, slashed, Bool.false_eq_true, if_false] at ran
            cases ran
            exact isFile_iff.mpr ⟨former, aims.status held (Or.inl rfl)⟩

theorem stagedPath_congr (same : u.workingDir = t.workingDir) (dir : Path) :
    stagedPath u dir = stagedPath t dir := by
  simp only [stagedPath, same]

/-- What was published could be staged. -/
theorem admissible_of_publishBytes (ran : publishBytes p bytes t = .ok () t') :
    admissible (stagedPath t p.stagingDir) = .ok () := by
  rw [publishBytes] at ran
  obtain ⟨_, middle, staged, ran⟩ := bind_ok ran
  obtain ⟨_, later, fits, -⟩ := bind_ok ran
  have grown := (ensureDir_secures p.stagingDir t).1
  rw [staged] at grown
  have same : middle.workingDir = t.workingDir := grown.workingDir
  rw [stage_run, stagedPath_congr same] at fits
  cases admits : admissible (stagedPath t p.stagingDir) with
  | ok _ => rfl
  | error kind =>
    rw [admits] at fits
    cases fits

/-- Bytes can be published over a file that stands if they can be staged. -/
theorem publishBytes_of_isFile (named : Path.IsName name) (file : t.isFile (d / name) = true)
    (fits : admissible (stagedPath t (d / name).stagingDir) = .ok ()) :
    publishBytes (d / name) bytes t = .ok () (t.insert (t.lexical (d / name)) (.file bytes)) := by
  obtain ⟨former, held⟩ := isFile_iff.mp file
  have parent : (d / name).parent? ≠ none := by
    obtain ⟨q, known, -⟩ := parent?_join (d := d) t named
    simp [known]
  have staged := ensureDir_of_isDir (isDir_stagingDir held parent)
  rw [publishBytes, bind_run, staged]
  simp only [bind_run, stage_run, fits, replaceFile_of_isFile named file]

/-- Bytes that are published over themselves leave the tree as it is. -/
theorem publishBytes_again (named : Path.IsName name) (read : t.read (d / name) = .ok bytes)
    (fits : admissible (stagedPath t (d / name).stagingDir) = .ok ()) :
    publishBytes (d / name) bytes t = .ok () t := by
  have found := read_eq_ok_iff.mp read
  obtain ⟨-, held⟩ := status_eq_ok_iff.mp found
  have solid : t.lexical (d / name) ≠ [] := by
    rw [lexical_join t named]
    simp
  rw [publishBytes_of_isFile named (isFile_iff.mpr ⟨bytes, found⟩) fits, insert_same solid held]

section Absent

variable {q : Path} {names : List String}

/-- A path that ends in a good name is not empty. -/
theorem text_ne_of_continues (continues : Path.Continues d q names)
    (solid : ∀ s ∈ names, Path.IsName s) (filled : names ≠ []) : q.text ≠ "" := by
  intro blank
  obtain ⟨-, before, trail, -, -, whole⟩ := continues
  have empty : q.pieces = [""] := by
    obtain rfl : q = ⟨""⟩ := by cases q; exact congrArg Path.mk blank
    decide
  obtain ⟨front, last, rfl⟩ : ∃ front last, names = front ++ [last] :=
    ⟨_, _, (List.dropLast_concat_getLast filled).symm⟩
  rw [empty, ← List.append_assoc] at whole
  obtain rfl : "" = last := by
    simpa using congrArg List.getLast? whole
  exact (solid "" (by simp)).nonempty rfl

/-- A path that is not empty is never refused as if it were missing. -/
theorem admissible_ne_notFound (filled : q.text ≠ "") : admissible q ≠ .error .notFound := by
  unfold admissible
  rw [if_neg (by simpa using filled)]
  split
  · nofun
  · split <;> nofun

/-- If no file is left where a path leads after an attempt to take one away, which did not fail for
another reason than that, then none is in the way either. -/
theorem clear_of_removeFile (rooted : t.Rooted) (enters : t.Enters d)
    (continues : Path.Continues d q names) (leads : t.lexical q = t.lexical d ++ names)
    (solid : ∀ s ∈ names, Path.IsName s ∧ s.utf8ByteSize ≤ nameLimit) (filled : names ≠ [])
    (ran : removeFile q t = .ok () t' ∨ t' = t ∧ ∃ e, removeFile q t = .error e t ∧ e.kind = .notFound) :
    admissible q = .ok () ∧ t'.node? (t.lexical d ++ names) = none ∧
      ∀ front rest, names = front ++ rest → rest ≠ [] →
        ∀ bytes, t.node? (t.lexical d ++ front) ≠ some (.file bytes) := by
  have held := enters.held
  have refused : ∀ kind, t.locate q = .error kind → kind = .notFound := by
    intro kind failed
    rw [removeFile, get_bind, failed] at ran
    rcases ran with ran | ⟨-, e, ran, missing⟩
    · cases ran
    · cases ran
      exact missing
  have fits : admissible q = .ok () := by
    cases admits : admissible q with
    | ok _ => rfl
    | error kind =>
      obtain rfl := refused kind (by rw [locate, admits]; rfl)
      have text := text_ne_of_continues continues (fun s member => (solid s member).1) filled
      exact absurd admits (admissible_ne_notFound text)
  have walks := locate_of_continues enters continues fits
  refine ⟨fits, ?_, fun front rest split more bytes file => ?_⟩
  · rcases ran with ran | ⟨rfl, e, ran, missing⟩
    · rcases removeFile_cases q t with ⟨e, failed⟩ | ⟨former, gone, -, -⟩
      · rw [failed] at ran
        cases ran
      · rw [gone] at ran
        cases ran
        rw [leads]
        exact node?_erase_below (by simp [filled]) List.prefix_rfl
    · rw [← Option.not_isSome_iff_eq_none]
      intro there
      obtain ⟨node, stands⟩ := Option.isSome_iff_exists.mp there
      rw [removeFile, get_bind, walks, walk_names rooted held solid (by simp [stands]),
        ofLookup_ok_bind] at ran
      cases node <;> simp only [stands] at ran <;> cases ran
      cases missing
  · have before : ∀ s ∈ front, Path.IsName s ∧ s.utf8ByteSize ≤ nameLimit :=
      fun s member => solid s (split ▸ List.mem_append_left _ member)
    have stops : t.locate q = .error .notADirectory := by
      rw [walks, split, List.foldlM_append, walk_names rooted held before (by simp [file])]
      obtain ⟨name, others, rfl⟩ := List.exists_cons_of_ne_nil more
      change List.foldlM t.follow _ (name :: others) = _
      rw [List.foldlM_cons, follow, file]
      rfl
    cases refused _ stops

/-- Nothing is taken away where nothing stands and no file is in the way. -/
theorem removeFile_of_clear (enters : t.Enters d) (continues : Path.Continues d q names)
    (fits : admissible q = .ok ())
    (solid : ∀ s ∈ names, Path.IsName s ∧ s.utf8ByteSize ≤ nameLimit)
    (clear : ∀ front rest, names = front ++ rest → rest ≠ [] →
      ∀ bytes, t.node? (t.lexical d ++ front) ≠ some (.file bytes))
    (absent : t.node? (t.lexical d ++ names) = none) :
    ∃ e, removeFile q t = .error e t ∧ e.kind = .notFound := by
  have nowhere : t.locate q = .error .notFound :=
    (locate_of_continues enters continues fits).trans (walk_absent enters.held solid clear absent)
  refine ⟨.ofKind .notFound, ?_, rfl⟩
  rw [removeFile, get_bind, nowhere]
  rfl

end Absent

end FileM

end RuleDepot
