import RuleDepot.Proofs.Files.Repeating
/-!
Actions on trees that they cannot tell apart.  An action whose paths keep clear of all places where two
trees differ comes to the same in both, and afterwards the trees differ there at most.  In a directory
that is there, a file is published without any directory being made; and if a directory cannot be made,
then another attempt does not make it either.
-/

namespace RuleDepot

namespace Running

variable {ε σ α β : Type} {R S : σ → σ → Prop}

/-- Two runs come to the same, and the states that they leave behind are related. -/
inductive Matches (R : σ → σ → Prop) : EStateM.Result ε σ α → EStateM.Result ε σ α → Prop where
  | ok {a : α} {s s' : σ} (related : R s s') : Matches R (.ok a s) (.ok a s')
  | error {e : ε} {s s' : σ} (related : R s s') : Matches R (.error e s) (.error e s')

namespace Matches

variable {x y : EStateM.Result ε σ α}

theorem outcome_eq (runs : Matches R x y) : outcome y = outcome x := by
  cases runs <;> rfl

theorem related (runs : Matches R x y) : R (left x) (left y) := by
  cases runs <;> assumption

/-- A run comes to the same as itself. -/
theorem refl (same : ∀ s, R s s) (x : EStateM.Result ε σ α) : Matches R x x := by
  cases x with
  | ok a s => exact .ok (same s)
  | error e s => exact .error (same s)

theorem mono (runs : Matches R x y) (wider : ∀ s s', R s s' → S s s') : Matches S x y := by
  cases runs with
  | ok related => exact .ok (wider _ _ related)
  | error related => exact .error (wider _ _ related)

/-- What is left behind may be related in another way. -/
theorem imp (runs : Matches R x y) (related : R (left x) (left y) → S (left x) (left y)) :
    Matches S x y := by
  cases runs with
  | ok first => exact .ok (related first)
  | error first => exact .error (related first)

/-- What is known of the state that the first run leaves behind is kept in mind. -/
theorem keeping {P : σ → Prop} (runs : Matches R x y) (known : P (left x)) :
    Matches (fun s s' => R s s' ∧ P s) x y := by
  cases runs with
  | ok related => exact .ok ⟨related, known⟩
  | error related => exact .error ⟨related, known⟩

/-- Sequences come to the same if their first parts do and then, from related states, the others. -/
theorem bind {first second : EStateM ε σ α} {f g : α → EStateM ε σ β} {s s' : σ}
    (begins : Matches R (first s) (second s'))
    (goes : ∀ a s₁ s₁', first s = .ok a s₁ → second s' = .ok a s₁' → R s₁ s₁' →
      Matches S (f a s₁) (g a s₁'))
    (stops : ∀ s₁ s₁', R s₁ s₁' → S s₁ s₁') :
    Matches S ((first >>= f) s) ((second >>= g) s') := by
  rw [bind_run, bind_run]
  generalize ran : first s = x at begins
  generalize ran' : second s' = y at begins
  cases begins with
  | ok related => exact goes _ _ _ ran ran' related
  | error related => exact .error (stops _ _ related)

end Matches

end Running

open Running

variable {t t' u : Tree} {p q d : Path} {place : Location} {name : String} {node : Node}
  {inner : Location → Prop} {before : List String} {slashes : Nat} {bytes : ByteArray} {e : IoError}

namespace Tree

/-- A path keeps clear of some places. -/
def Avoids (inner : Location → Prop) (t : Tree) (p : Path) : Prop :=
  ∀ place, t.Passes p place → ¬ inner place

namespace Avoids

theorem congr (avoids : Avoids inner t p) (same : u.workingDir = t.workingDir) : Avoids inner u p :=
  fun _ passes => avoids _ ((passes_congr same p _).mp passes)

private theorem lexical (avoids : Avoids inner t p) : ¬ inner (t.lexical p) :=
  avoids _ (passes_lexical t p)

private theorem parent (avoids : Avoids inner t p) (parent : p.parent? = some q) (filled : q.text ≠ "") :
    Avoids inner t q :=
  fun _ passes => avoids _ (passes_of_parent parent filled passes)

private theorem stagingDir (avoids : Avoids inner t p) (parent : p.parent? ≠ none) :
    Avoids inner t p.stagingDir :=
  fun _ passes => avoids _ (passes_of_stagingDir parent passes)

end Avoids

namespace SameBut

private theorem insert (same : SameBut inner t u) (named : place ≠ []) (node : Node) :
    SameBut inner (t.insert place node) (u.insert place node) where
  workingDir := same.workingDir
  node out := by
    rw [node?_insert named, node?_insert named]
    split
    · rfl
    · exact same.node out

/-- Taking away what stands at a place takes it away in both trees. -/
theorem erase (same : SameBut inner t u) (place : Location) :
    SameBut inner (t.erase place) (u.erase place) where
  workingDir := same.workingDir
  node {other} out := by
    by_cases below : place <+: other
    · by_cases named : place = []
      · subst named
        by_cases top : other = []
        · simp [node?, top]
        · simp [node?, top, Tree.erase, Std.ExtTreeMap.getElem?_filter]
      · rw [node?_erase_below named below, node?_erase_below named below]
    · rw [node?_erase below, node?_erase below, same.node out]

theorem grown {new : Location → Node → Prop} (same : SameBut (fun _ => False) t u) : Grown new t u where
  workingDir := same.workingDir
  kept held := (same.node id).trans held
  fresh held absent := by
    rw [same.node id, absent] at held
    cases held

/-- If trees differ at one place, and nothing stands there in the first, the second has grown from it. -/
theorem grown_of_absent {new : Location → Node → Prop} (same : SameBut (· = place) t u)
    (absent : t.node? place = none) (allowed : ∀ {node}, u.node? place = some node → new place node) :
    Grown new t u where
  workingDir := same.workingDir
  kept {other former} held := by
    have elsewhere : other ≠ place := fun own => by simp [own, absent] at held
    rw [same.node elsewhere, held]
  fresh {other found} held missing := by
    by_cases own : other = place
    · subst own
      exact allowed held
    · rw [same.node own, missing] at held
      cases held

variable (same : SameBut inner t u) (avoids : Avoids inner t p)

include same avoids

private theorem lexical_node : u.node? (t.lexical p) = t.node? (t.lexical p) :=
  same.node avoids.lexical

/-- A path that keeps clear of the places where the trees differ is about the same entry. -/
theorem target : u.target p = t.target p := by
  unfold Tree.target
  rw [start_congr same.workingDir]
  cases admissible p with
  | error kind => rfl
  | ok _ =>
    simp only
    cases dropped : p.pieces.reverse.dropWhile (· == "") with
    | nil => rfl
    | cons last before =>
      obtain ⟨spelled, -⟩ := pieces_of_dropWhile dropped
      have shorter : before.reverse <+: p.pieces := ⟨_, spelled.symm⟩
      have walks : before.reverse.foldlM u.follow (t.start p) =
          before.reverse.foldlM t.follow (t.start p) :=
        same.walk fun front begins => avoids _ ⟨front, begins.trans shorter, rfl⟩
      simp only [walks]
      cases went : before.reverse.foldlM t.follow (t.start p) with
      | error kind => rfl
      | ok dir =>
        obtain rfl := walk_lexical went
        have held := same.node (avoids _ ⟨_, shorter, rfl⟩)
        simp only [bind, Except.bind, held]

private theorem locate : u.locate p = t.locate p := by
  unfold Tree.locate
  rw [start_congr same.workingDir,
    same.walk fun front shorter => avoids _ ⟨front, shorter, rfl⟩]

private theorem isDir_eq : u.isDir p = t.isDir p := by
  simp only [isDir, same.status (avoids _)]

theorem reaches_eq : u.reaches p = t.reaches p := by
  simp only [reaches, same.status (avoids _)]

theorem read_eq : u.read p = t.read p := by
  simp only [read, same.status (avoids _)]

end SameBut

end Tree

namespace FileM

open RuleDepot.Tree

theorem workingDir_touch (p : Path) (t : Tree) : (left (touch p t)).workingDir = t.workingDir := by
  rcases touch_cases p t with ⟨e, failed⟩ | found | ⟨ran, -⟩
  · rw [failed]
    rfl
  · rw [found]
    rfl
  · rw [ran]
    rfl

theorem workingDir_makeDirs (p : Path) (t : Tree) : (left (makeDirs p t)).workingDir = t.workingDir :=
  (makeDirs_secures p t).1.workingDir

theorem workingDir_removeFile (p : Path) (t : Tree) :
    (left (removeFile p t)).workingDir = t.workingDir := by
  rcases removeFile_cases p t with ⟨e, failed⟩ | ⟨former, gone, -⟩
  · rw [failed]
    rfl
  · rw [gone]
    rfl

theorem workingDir_publishBytes (p : Path) (bytes : ByteArray) (t : Tree) :
    (left (publishBytes p bytes t)).workingDir = t.workingDir := by
  obtain ⟨middle, grown, ⟨e, failed⟩ | ⟨before, name, -, -, put⟩⟩ := publishBytes_cases p bytes t
  · rw [failed]
    exact grown.workingDir
  · rw [put]
    exact grown.workingDir

section Congruence

variable (same : SameBut inner t u) (avoids : Avoids inner t p)

include same avoids

private theorem makeDir_matches : Matches (SameBut inner) (makeDir p t) (makeDir p u) := by
  rw [makeDir, get_bind, get_bind, same.target avoids]
  cases aimed : t.target p with
  | error kind => exact .error same
  | ok target =>
    rw [ofLookup_ok_bind, ofLookup_ok_bind]
    cases named : target.place? with
    | none => exact .error same
    | some place =>
      obtain ⟨_, _, _, aims, rfl, -⟩ := aims_of_target aimed named
      simp only [same.lexical_node avoids]
      split
      · exact .error same
      · exact .ok (same.insert aims.lexical_ne_nil .directory)

theorem touch_matches : Matches (SameBut inner) (touch p t) (touch p u) := by
  rw [touch, get_bind, get_bind, same.target avoids]
  cases aimed : t.target p with
  | error kind => exact .error same
  | ok target =>
    rw [ofLookup_ok_bind, ofLookup_ok_bind]
    cases named : target.place? with
    | none => exact .error same
    | some place =>
      obtain ⟨_, _, _, aims, rfl, -⟩ := aims_of_target aimed named
      simp only [same.lexical_node avoids]
      cases t.node? (t.lexical p) with
      | none =>
        simp only
        split
        · exact .error same
        · exact .ok (same.insert aims.lexical_ne_nil _)
      | some node =>
        cases node with
        | directory => exact .error same
        | file former =>
          simp only
          split
          · exact .error same
          · exact .ok same

private theorem replaceFile_matches (bytes : ByteArray) :
    Matches (SameBut inner) (replaceFile p bytes t) (replaceFile p bytes u) := by
  rw [replaceFile, get_bind, get_bind, same.target avoids]
  cases aimed : t.target p with
  | error kind => exact .error same
  | ok target =>
    rw [ofLookup_ok_bind, ofLookup_ok_bind]
    cases named : target.place? with
    | none => exact .error same
    | some place =>
      obtain ⟨_, _, _, aims, rfl, -⟩ := aims_of_target aimed named
      simp only [same.lexical_node avoids]
      cases slashed : target.slashed with
      | true =>
        cases t.node? (t.lexical p) with
        | none => exact .error same
        | some node => cases node <;> exact .error same
      | false =>
        cases t.node? (t.lexical p) with
        | none => exact .ok (same.insert aims.lexical_ne_nil _)
        | some node =>
          cases node with
          | directory => exact .error same
          | file former => exact .ok (same.insert aims.lexical_ne_nil _)

theorem removeFile_matches : Matches (SameBut inner) (removeFile p t) (removeFile p u) := by
  have located : u.locate p = t.locate p := same.locate avoids
  rw [removeFile, get_bind, get_bind, located]
  cases found : t.locate p with
  | error kind => exact .error same
  | ok place =>
    obtain rfl := locate_lexical found
    rw [ofLookup_ok_bind, ofLookup_ok_bind]
    simp only [same.lexical_node avoids]
    cases t.node? (t.lexical p) with
    | none => exact .error same
    | some node =>
      cases node with
      | directory => exact .error same
      | file former => exact .ok (same.erase _)

private theorem retry_matches :
    Matches (SameBut inner)
      ((match makeDir p t with
        | .ok _ t => set t
        | .error e t => if t.isDir p = true then set t else throw e : FileM Unit) t)
      ((match makeDir p u with
        | .ok _ t => set t
        | .error e t => if t.isDir p = true then set t else throw e : FileM Unit) u) := by
  have again := makeDir_matches same avoids
  rcases makeDir_cases p t with ⟨e, failed⟩ | ⟨made, -⟩
  · rcases makeDir_cases p u with ⟨e', failed'⟩ | ⟨made', -⟩
    · rw [failed, failed'] at again ⊢
      cases again
      simp only [same.isDir_eq avoids]
      split
      · exact .ok same
      · exact .error same
    · rw [failed, made'] at again
      cases again
  · rcases makeDir_cases p u with ⟨e', failed'⟩ | ⟨made', -⟩
    · rw [made, failed'] at again
      cases again
    · rw [made, made'] at again ⊢
      cases again with
      | ok related => exact .ok related

end Congruence

/-- Directories are made alike on a way that keeps clear of the places where the trees differ.  The
induction is on how many parents are tried. -/
theorem makeChain_matches (n : Nat) (same : SameBut inner t u) (avoids : Avoids inner t p) :
    Matches (SameBut inner) (makeChain (ancestors n p) t) (makeChain (ancestors n p) u) := by
  induction n generalizing p t u with
  | zero => exact .error same
  | succ n ih =>
    have above : Matches (SameBut inner) (makeChain (p.parent?.elim [] (ancestors n)) t)
        (makeChain (p.parent?.elim [] (ancestors n)) u) := by
      cases parent : p.parent? with
      | none => exact .error same
      | some q =>
        by_cases filled : q.text = ""
        · cases n with
          | zero => exact .error same
          | succ n =>
            rw [Option.elim_some, ancestors_succ, makeChain, if_pos (by simpa using filled)]
            exact .ok same
        · exact ih same (avoids.parent parent filled)
    rw [ancestors_succ, makeChain]
    by_cases blank : p.text.isEmpty = true
    · simp only [blank, if_true, pure_run]
      exact .ok same
    · simp only [blank, Bool.false_eq_true, if_false, get_bind]
      have first := makeDir_matches same avoids
      rcases makeDir_cases p t with ⟨e, failed⟩ | ⟨made, -⟩
      · rcases makeDir_cases p u with ⟨e', failed'⟩ | ⟨made', -⟩
        · rw [failed, failed'] at first ⊢
          cases first
          by_cases missing : e.kind = .notFound
          · simp only [missing, if_true, bind_run (set _), set_run]
            refine above.bind (fun _ s s' ran _ related => ?_) fun _ _ related => related
            simp only [get_bind]
            have grown := (makeChain_secures (p.parent?.elim [] (ancestors n)) t).1
            rw [ran] at grown
            exact retry_matches related (avoids.congr grown.workingDir)
          · simp only [missing, if_false, bind_run (set _), set_run, same.isDir_eq avoids]
            split
            · exact .ok same
            · exact .error same
        · rw [failed, made'] at first
          cases first
      · rcases makeDir_cases p u with ⟨e', failed'⟩ | ⟨made', -⟩
        · rw [made, failed'] at first
          cases first
        · rw [made, made'] at first ⊢
          cases first with
          | ok related => exact .ok related

theorem makeDirs_matches (same : SameBut inner t u) (avoids : Avoids inner t p) :
    Matches (SameBut inner) (makeDirs p t) (makeDirs p u) :=
  makeChain_matches _ same avoids

theorem ensureDir_matches (same : SameBut inner t u) (avoids : Avoids inner t p) :
    Matches (SameBut inner) (ensureDir p t) (ensureDir p u) := by
  rw [ensureDir, get_bind, get_bind, same.reaches_eq avoids, same.isDir_eq avoids]
  split
  · exact makeDirs_matches same avoids
  · split
    · exact .ok same
    · exact .error same

private theorem stage_matches (same : SameBut inner t u) (dir : Path) :
    Matches (SameBut inner) (stage dir t) (stage dir u) := by
  rw [stage_run, stage_run, stagedPath_congr same.workingDir]
  split
  · exact .ok same
  · exact .error same

private theorem eq_of_stage {dir : Path} {a : Unit} (ran : stage dir t = .ok a t') : t' = t := by
  rw [stage_run] at ran
  split at ran
  · cases ran
    rfl
  · cases ran

/-- Bytes are published alike. -/
theorem publishBytes_matches (same : SameBut inner t u) (avoids : Avoids inner t p)
    (parent : p.parent? ≠ none) (bytes : ByteArray) :
    Matches (SameBut inner) (publishBytes p bytes t) (publishBytes p bytes u) := by
  rw [publishBytes]
  refine (ensureDir_matches same (avoids.stagingDir parent)).bind (fun _ s₁ s₁' ran _ same₁ => ?_)
    fun _ _ related => related
  refine (stage_matches same₁ _).bind (fun _ s₂ s₂' ran₂ _ same₂ => ?_) fun _ _ related => related
  refine replaceFile_matches same₂ (avoids.congr ?_) bytes
  have grown := (ensureDir_secures p.stagingDir t).1
  rw [ran] at grown
  rw [eq_of_stage ran₂]
  exact grown.workingDir

/-- Files are copied alike into a directory that is there, if the sources read alike. -/
theorem publishCopy_matches {source : Path} (same : SameBut inner t u) (avoids : Avoids inner t p)
    (parent : p.parent? ≠ none) (directory : t.isDir p.stagingDir = true)
    (read : u.read source = t.read source) :
    Matches (SameBut inner) (publishCopy source p t) (publishCopy source p u) := by
  have staged : Avoids inner t p.stagingDir := avoids.stagingDir parent
  have directory' : u.isDir p.stagingDir = true := by rw [same.isDir_eq staged, directory]
  rw [publishCopy, bind_run, bind_run, ensureDir_of_isDir directory, ensureDir_of_isDir directory']
  refine (stage_matches same _).bind (fun _ s s' ran ran' _ => ?_) fun _ _ related => related
  obtain rfl := eq_of_stage ran
  obtain rfl := eq_of_stage ran'
  rw [bind_run, bind_run, ofRead_run, ofRead_run, read]
  cases s.read source with
  | error e => exact .error same
  | ok bytes =>
    exact (replaceFile_matches same avoids bytes).bind (fun _ _ _ _ _ related => .ok related)
      fun _ _ related => related

/-- Copying a file into a directory that is there puts the file, or nothing at all. -/
theorem publishCopy_in (source : Path) (directory : t.isDir p.stagingDir = true) :
    (∃ e, publishCopy source p t = .error e t) ∨
      ∃ bytes before name, t.read source = .ok bytes ∧ Aims t p before name 0 ∧
        t.node? (t.lexical p) ≠ some .directory ∧
        publishCopy source p t = .ok bytes.size (t.insert (t.lexical p) (.file bytes)) := by
  rw [publishCopy, bind_run, ensureDir_of_isDir directory]
  simp only [bind_run, stage_run]
  cases admissible (stagedPath t p.stagingDir) with
  | error kind => exact Or.inl ⟨_, rfl⟩
  | ok _ =>
    simp only [ofRead_run]
    cases held : t.read source with
    | error e => exact Or.inl ⟨e, rfl⟩
    | ok bytes =>
      rcases replaceFile_cases p bytes t with ⟨e, failed⟩ | ⟨put, vacant, before, name, aims⟩
      · exact Or.inl ⟨e, by simp only [failed]⟩
      · exact Or.inr ⟨bytes, before, name, rfl, aims, vacant, by simp only [put, pure_run]⟩

end FileM

namespace Tree

/-- The growth by files at some places. -/
def Files (own : Location → Prop) (place : Location) (node : Node) : Prop :=
  own place ∧ ∃ bytes, node = .file bytes

section Files

variable {own : Location → Prop} (grown : Grown (Files own) t t')

include grown

theorem Grown.unmoved (out : ¬ own place) : t'.node? place = t.node? place := by
  cases held : t'.node? place with
  | none =>
    cases former : t.node? place with
    | none => rfl
    | some node => exact absurd (grown.kept former) (by simp [held])
  | some node =>
    cases former : t.node? place with
    | none => exact absurd (grown.fresh held former).1 out
    | some node' => exact (held.symm.trans (grown.kept former))

theorem Grown.sameBut : SameBut (fun place => own place ∧ t.node? place = none) t t' where
  workingDir := grown.workingDir
  node {place} out := by
    cases former : t.node? place with
    | none => rw [grown.unmoved fun inside => out ⟨inside, former⟩, former]
    | some node => exact grown.kept former

private theorem Grown.directory_of_files (held : t'.node? place = some .directory) :
    t.node? place = some .directory := by
  cases former : t.node? place with
  | none =>
    obtain ⟨-, bytes, file⟩ := grown.fresh held former
    cases file
  | some node => exact (grown.kept former).symm.trans held

/-- What can be followed past new files could be followed before: no path leads through a file. -/
theorem Grown.walk_of_files {pieces : List String} {start next : Location}
    (went : pieces.foldlM t'.follow start = .ok next) (stood : t.node? next ≠ none) :
    pieces.foldlM t.follow start = .ok next := by
  induction pieces generalizing start with
  | nil => exact went
  | cons piece rest ih =>
    rw [List.foldlM_cons] at went ⊢
    obtain ⟨middle, first, later⟩ := ok_of_bind went
    obtain ⟨directory, rfl, named⟩ := follow_eq_ok_iff.mp first
    have there : t.node? (advance start piece) ≠ none := by
      cases rest with
      | nil =>
        cases later
        exact stood
      | cons second more =>
        simp [grown.directory_of_files (directory_of_walk_on (by simp) later)]
    have entered : t.follow start piece = .ok (advance start piece) := by
      refine follow_eq_ok_iff.mpr ⟨grown.directory_of_files directory, rfl, fun solid up => ?_⟩
      have down : advance start piece = start ++ [piece] := by simp [advance, solid, up]
      exact ⟨(named solid up).1, down ▸ there⟩
    rw [entered]
    exact ih later

/-- New files elsewhere do not change what is read at a path. -/
theorem Grown.read_iff (out : ¬ own (t.lexical p)) (bytes : ByteArray) :
    t'.read p = .ok bytes ↔ t.read p = .ok bytes := by
  refine ⟨fun read => ?_, grown.read⟩
  obtain ⟨leads, held⟩ := status_eq_ok_iff.mp (read_eq_ok_iff.mp read)
  obtain ⟨fits, went⟩ := locate_eq_ok_iff.mp leads
  rw [start_congr grown.workingDir, grown.lexical] at went
  rw [grown.lexical, grown.unmoved out] at held
  refine read_eq_ok_iff.mpr (status_eq_ok_iff.mpr ⟨locate_eq_ok_iff.mpr ⟨fits, ?_⟩, held⟩)
  exact grown.walk_of_files went (by simp [held])

end Files

/-- The fillers at the end of some pieces are behind their last name. -/
theorem dropFillersAtEnd_append {abs : Bool} {front fillers : List String}
    (solid : Path.isFiller name = false) (blank : ∀ piece ∈ fillers, Path.isFiller piece = true) :
    Path.dropFillersAtEnd abs (front ++ name :: fillers) = front ++ [name] := by
  have turned : fillers.reverse.dropWhile Path.isFiller = [] := by
    have all : ∀ piece ∈ fillers.reverse, Path.isFiller piece = true := fun piece member =>
      blank piece (List.mem_reverse.mp member)
    have whole : (fillers.reverse ++ []).dropWhile Path.isFiller = [].dropWhile Path.isFiller :=
      List.dropWhile_append_of_pos all
    simpa using whole
  cases front with
  | nil =>
    have filled : name ≠ "" := fun none => by simp [none, Path.isFiller] at solid
    have still : name ≠ "." := fun dot => by simp [dot, Path.isFiller] at solid
    simp [Path.dropFillersAtEnd, turned, filled, still]
  | cons first rest =>
    have kept : (fillers.reverse ++ name :: rest.reverse).dropWhile Path.isFiller =
        name :: rest.reverse := by
      rw [List.dropWhile_append, turned]
      simp [solid]
    simp [Path.dropFillersAtEnd, kept]

/-- The parent of a path whose last name is known is spelled by the pieces in front of it, less the
fillers there. -/
theorem parent?_of_pieces {fillers : List String} (pieces : p.pieces = before ++ name :: fillers)
    (solid : Path.isFiller name = false) (blank : ∀ piece ∈ fillers, Path.isFiller piece = true) :
    p.parent? = some (Path.ofPieces p.isAbsolute (Path.dropFillersAtEnd p.isAbsolute before)) := by
  rw [Path.parent?, pieces, dropFillersAtEnd_append solid blank]
  simp

/-- The front of a path, less the fillers at its end, leads to a directory if the front does. -/
theorem isDir_of_front {rest : List String} {dir : Location}
    (same : q = Path.ofPieces p.isAbsolute (Path.dropFillersAtEnd p.isAbsolute before))
    (filled : q.text ≠ "") (fits : admissible p = .ok ()) (whole : p.pieces = before ++ rest)
    (walked : before.foldlM t.follow (t.start p) = .ok dir)
    (held : t.node? dir = some .directory) : t.isDir q = true := by
  obtain ⟨gap, split, hollow⟩ := Path.eq_append_dropFillersAtEnd p.isAbsolute before
  have named : p.text ≠ "" := fun blank => by simp [admissible, blank] at fits
  have own : p.pieces = Path.dropFillersAtEnd p.isAbsolute before ++ (gap ++ rest) := by
    rw [← List.append_assoc, ← split, whole]
  obtain ⟨absolute, pieces, front⟩ := spelled_parent same filled own named
  have begins : t.start q = t.start p := by simp only [start, absolute]
  rw [split, List.foldlM_append] at walked
  obtain ⟨middle, first, later⟩ := ok_of_bind walked
  have stays : dir = middle := (walk_lexical later).trans (foldl_advance_fillers hollow _)
  subst stays
  refine isDir_of_walk (admissible_of_front fits filled front) ?_ held
  rw [begins]
  rcases pieces with pieces | ⟨none, pieces⟩
  · rw [pieces]
    exact first
  · have still : ∀ piece ∈ [""], Path.isFiller piece = true := by decide
    rw [none] at first
    cases first
    rw [pieces]
    exact walk_fillers still held

/-- The directory of an entry is where the parent of its path leads. -/
theorem Aims.isDir_parent (aims : Aims t p before name slashes) (parent : p.parent? = some q)
    (filled : q.text ≠ "") : t.isDir q = true := by
  have fillers : ∀ piece ∈ List.replicate slashes "", Path.isFiller piece = true :=
    fun piece member => by
      rw [List.eq_of_mem_replicate member]
      rfl
  have spelled := parent?_of_pieces aims.pieces aims.solid fillers
  exact isDir_of_front (Option.some.inj (parent.symm.trans spelled)) filled aims.fits aims.pieces
    aims.walked aims.directory

/-- A file behind a path to a directory is staged in that directory. -/
theorem isDir_stagingDir_join (directory : t.isDir d = true) (named : Path.IsName name) :
    t.isDir (d / name).stagingDir = true := by
  obtain ⟨absolute, before, trail, own, blank, whole⟩ := Path.pieces_join d named
  obtain ⟨leads, -⟩ := status_eq_ok_iff.mp (isDir_iff.mp directory)
  obtain ⟨fits, walked⟩ := locate_eq_ok_iff.mp leads
  have known := parent?_of_pieces whole named.isFiller (by simp)
  have held := directory_of_passes directory ⟨before, own ▸ List.prefix_append _ _, rfl⟩
  rw [absolute] at known
  rw [own, List.foldlM_append] at walked
  obtain ⟨dir, first, -⟩ := ok_of_bind walked
  simp only [Path.stagingDir, known]
  split
  · rename_i empty
    -- Only a relative path is left with nothing in front of its name.
    obtain ⟨gap, split, -⟩ := Path.eq_append_dropFillersAtEnd d.isAbsolute before
    obtain ⟨relative, -⟩ := front_of_blank (by simpa using empty)
      (own.trans ((congrArg (· ++ trail) split).trans (List.append_assoc ..)))
      (text_ne_empty_of_isDir directory)
    have top := directory_of_passes directory ⟨[], List.nil_prefix, rfl⟩
    simp only [List.foldl_nil, start, relative, Bool.false_eq_true, if_false] at top
    exact isDir_current top
  · rename_i filled
    exact isDir_of_front rfl (by simpa using filled) fits own first (walk_lexical first ▸ held)

end Tree

namespace FileM

open RuleDepot.Tree

/-- An entry can be made a directory only in the directory that the parent of its path leads to. -/
theorem isDir_of_made (made : makeDir p t = .ok () t') (parent : p.parent? = some q)
    (filled : q.text ≠ "") : t.isDir q = true := by
  obtain ⟨⟨before, name, slashes, aims⟩, -, -⟩ := makeDir_ok made
  exact aims.isDir_parent parent filled

private theorem makeChain_repeats {n : Nat} (ran : makeChain (ancestors n p) t = .ok () t') :
    makeChain (ancestors n p) t' = .ok () t' := by
  cases n with
  | zero => cases ran
  | succ n =>
    have secured := (makeChain_secures (ancestors (n + 1) p) t).2 p (by rw [ancestors_succ]; rfl)
    rw [ancestors_succ] at ran ⊢
    rw [ancestors_succ] at secured
    by_cases blank : p.text.isEmpty = true
    · rw [makeChain, if_pos blank]
      rfl
    · exact makeChain_of_isDir ((secured.2 t' ran).resolve_left blank) _

/-- A directory whose parents cannot be made cannot be made after the attempt either: its parent
would be there then. -/
theorem makeDir_of_orphaned {n : Nat} (first : makeDir p t = .error e t)
    (above : makeChain (p.parent?.elim [] (ancestors n)) t = .error e' t') :
    makeDir p t' ≠ .ok () t'' := by
  intro made
  cases parent : p.parent? with
  | none =>
    rw [parent] at above
    cases above
    rw [first] at made
    cases made
  | some q =>
    rw [parent, Option.elim_some] at above
    cases n with
    | zero =>
      cases above
      rw [first] at made
      cases made
    | succ n =>
      have absent := isDir_of_makeChain above
      rw [ancestors_succ] at above
      rw [isDir_of_made made parent (text_ne_empty_of_makeChain above)] at absent
      cases absent

/-- Where the chain of the parents changes nothing, a directory that is missing and cannot be made
stays missing, and nothing is changed. -/
theorem makeChain_of_still (filled : p.text ≠ "") (absent : t.isDir p = false)
    (unmade : ∀ t', makeDir p t ≠ .ok () t')
    (still : makeChain parents t = .ok () t ∨ ∃ e, makeChain parents t = .error e t) :
    ∃ e, makeChain (p :: parents) t = .error e t := by
  have kept : ∀ t', makeChain parents t = .ok () t' → t' = t := by
    intro t' ran
    obtain same | ⟨e, same⟩ := still <;> rw [same] at ran <;> cases ran
    rfl
  have chained := makeChain_cases p parents t
  generalize makeChain (p :: parents) t = result at chained ⊢
  cases chained with
  | blank empty => exact absurd empty filled
  | there directory => simp [absent] at directory
  | made made => exact absurd made (unmade _)
  | barred => exact ⟨_, rfl⟩
  | orphaned _ _ failed =>
    obtain same | ⟨e, same⟩ := still <;> rw [same] at failed <;> cases failed
    exact ⟨_, rfl⟩
  | thereLater _ _ ran directory =>
    cases kept _ ran
    simp [absent] at directory
  | madeLater _ _ ran made =>
    cases kept _ ran
    exact absurd made (unmade _)
  | barredLater _ _ ran =>
    cases kept _ ran
    exact ⟨_, rfl⟩

/-- A chain of directories that cannot be made is not made by another attempt, which changes nothing
any more.  The induction is on how many parents are tried. -/
theorem makeChain_stuck {n : Nat} (failed : makeChain (ancestors n p) t = .error e t') :
    ∃ e', makeChain (ancestors n p) t' = .error e' t' := by
  induction n generalizing p t e t' with
  | zero =>
    cases failed
    exact ⟨_, rfl⟩
  | succ n ih =>
    have absent := isDir_of_makeChain failed
    rw [ancestors_succ] at failed ⊢
    have filled := text_ne_empty_of_makeChain failed
    have chained := makeChain_cases p (p.parent?.elim [] (ancestors n)) t
    rw [failed] at chained
    cases chained with
    | barred => exact ⟨_, failed⟩
    | orphaned _ first above =>
      refine makeChain_of_still filled absent (fun _ => makeDir_of_orphaned first above) (.inr ?_)
      cases parent : p.parent? with
      | none =>
        rw [parent] at above
        cases above
        exact ⟨_, rfl⟩
      | some q =>
        rw [parent] at above
        exact ih above
    | barredLater _ _ above _ second =>
      refine makeChain_of_still filled absent (fun _ => by simp [second]) (.inl ?_)
      cases parent : p.parent? with
      | none =>
        rw [parent] at above
        cases above
      | some q =>
        rw [parent] at above
        exact makeChain_repeats above

/-- A directory that cannot be made is not made by another attempt. -/
theorem makeDirs_stuck (failed : makeDirs p t = .error e t') : ∃ e', makeDirs p t' = .error e' t' :=
  makeChain_stuck failed

end FileM

end RuleDepot
