import RuleDepot.Proofs.Files.Relative
import RuleDepot.Proofs.Naming
import RuleDepot.Proofs.Scopes
/-!
Where a file counts as coming from.  The test compares paths as they are written, piece by piece: a
file is the project's own if its path begins like that of the workspace.  That is where the file is,
as long as no double dot leads out of what the paths have in common; a path that leaves the workspace
behind its name counts as the project's own, and one that enters it from beside does not.
-/

namespace RuleDepot

variable {p base : Path} {pieces : List String} {n : Nat}

namespace Path

theorem solid_of_mem_solids {piece : String} (member : piece ∈ p.solids) : isFiller piece = false := by
  simpa [isSolid] using (List.mem_filter.mp member).2

private theorem filterMap_solids (p : Path) :
    p.solids.filterMap component? = p.pieces.filterMap component? := by
  rw [solids, List.filterMap_filter]
  refine List.filterMap_congr fun piece _ => ?_
  by_cases filler : isFiller piece = true
  · simp [isSolid, component?, filler]
  · simp [isSolid, filler]

/-- An absolute path is below another one if its pieces begin with those of that one. -/
theorem isBelow_iff (absolute : p.isAbsolute = true) (absolute' : base.isAbsolute = true) :
    p.isBelow base = true ↔ base.solids <+: p.solids := by
  unfold isBelow components
  simp only [absolute, absolute', if_true, List.isPrefixOf_iff_prefix, List.cons_prefix_cons, true_and]
  constructor
  · intro within
    obtain ⟨rest, split⟩ := solids_of_prefix within
    exact ⟨rest, split.symm⟩
  · rintro ⟨rest, split⟩
    rw [← filterMap_solids base, ← filterMap_solids p, ← split, List.filterMap_append]
    exact List.prefix_append _ _

/-- Whether pieces lead above the directory that so many names were put behind. -/
def climbs : Nat → List String → Bool
  | _, [] => false
  | depth, piece :: rest =>
    if isFiller piece then climbs depth rest
    else if piece = ".." then depth == 0 || climbs (depth - 1) rest
    else climbs (depth + 1) rest

/-- A path is straight with regard to a directory: no double dot stands in the path of the directory
nor in as many pieces of the path, and what follows in the path does not lead above them. -/
structure Straight (dir p : Path) : Prop where
  base : ".." ∉ dir.solids
  front : ".." ∉ p.solids.take dir.solids.length
  behind : climbs 0 (p.solids.drop dir.solids.length) = false

private theorem climbs_of_down (down : ".." ∉ pieces) (n : Nat) : climbs n pieces = false := by
  induction pieces generalizing n with
  | nil => rfl
  | cons piece rest ih =>
    rw [List.mem_cons, not_or] at down
    obtain ⟨other, later⟩ := down
    rw [climbs, if_neg (Ne.symm other)]
    split
    · exact ih later n
    · exact ih later (n + 1)

private theorem straight_of_down (down : ".." ∉ base.solids) (down' : ".." ∉ p.solids) :
    Straight base p where
  base := down
  front member := down' (List.mem_of_mem_take member)
  behind := climbs_of_down (fun member => down' (List.mem_of_mem_drop member)) 0

end Path

namespace Tree

variable {t : Tree}

/-- Pieces that do not lead above a directory lead to something in it. -/
theorem prefix_foldl_advance {front behind : Location}
    (stays : Path.climbs behind.length pieces = false) :
    front <+: pieces.foldl advance (front ++ behind) := by
  induction pieces generalizing behind with
  | nil => exact List.prefix_append front behind
  | cons piece rest ih =>
    rw [Path.climbs] at stays
    rw [List.foldl_cons]
    split at stays
    · rename_i filler
      have still : advance (front ++ behind) piece = front ++ behind := by simp [advance, filler]
      rw [still]
      exact ih stays
    · rename_i solid
      split at stays
      · rename_i up
        rw [Bool.or_eq_false_iff] at stays
        have deep : behind ≠ [] := fun none => by simp [none] at stays
        have step : advance (front ++ behind) piece = front ++ behind.dropLast := by
          rw [advance, if_neg solid, if_pos up, List.dropLast_append_of_ne_nil deep]
        rw [step]
        exact ih (by simpa using stays.2)
      · rename_i down
        have step : advance (front ++ behind) piece = front ++ (behind ++ [piece]) := by
          simp [advance, solid, down]
        rw [step]
        exact ih (by simpa using stays)

/-- An absolute path leads where its pieces do from the root. -/
theorem lexical_of_absolute (t : Tree) (absolute : p.isAbsolute = true) :
    t.lexical p = p.solids.foldl advance [] := by
  rw [lexical_eq_solids, start, absolute, if_pos rfl]

/-- Pieces that are no dots are names, and go down one by one. -/
theorem foldl_advance_of_down (solid : ∀ piece ∈ pieces, Path.isFiller piece = false)
    (down : ".." ∉ pieces) (place : Location) : pieces.foldl advance place = place ++ pieces :=
  foldl_advance_down (fun piece member => ⟨solid piece member, fun up => down (up ▸ member)⟩) place

/-- What is written as inside a directory leads there if it is straight, and nothing else does. -/
theorem prefix_lexical_iff (t : Tree) (straight : Path.Straight base p)
    (absolute : p.isAbsolute = true) (absolute' : base.isAbsolute = true) :
    t.lexical base <+: t.lexical p ↔ base.solids <+: p.solids := by
  have dir : t.lexical base = base.solids := by
    rw [lexical_of_absolute t absolute']
    exact foldl_advance_of_down (fun piece => Path.solid_of_mem_solids) straight.base []
  have front := foldl_advance_of_down
    (fun piece member => Path.solid_of_mem_solids (List.mem_of_mem_take member)) straight.front []
  have place : t.lexical p =
      (p.solids.drop base.solids.length).foldl advance (p.solids.take base.solids.length) := by
    rw [List.nil_append] at front
    rw [lexical_of_absolute t absolute, ← front, ← List.foldl_append, List.take_append_drop]
  rw [dir, place]
  by_cases long : base.solids.length ≤ p.solids.length
  · have stays : p.solids.take base.solids.length <+: (p.solids.drop base.solids.length).foldl advance
        (p.solids.take base.solids.length ++ []) := prefix_foldl_advance straight.behind
    rw [List.append_nil] at stays
    obtain ⟨rest, inside⟩ := stays
    have as_long : (p.solids.take base.solids.length).length = base.solids.length := by
      rw [List.length_take, Nat.min_eq_left long]
    rw [← inside, List.prefix_iff_eq_take, List.prefix_iff_eq_take,
      List.take_append_of_le_length (Nat.le_of_eq as_long.symm), List.take_take, Nat.min_self]
  · rw [List.drop_of_length_le (by omega), List.take_of_length_le (by omega)]
    rfl

end Tree

namespace Resolver

variable {r : Resolver} {t : Tree} {key : ArtifactKey} {who : Option String} {a : Artifact}

/-- Relative paths are put behind the workspace. -/
theorem placeOf_of_relative {found : Path} (relative : found.isAbsolute = false) :
    r.placeOf found = r.workspace.join found := by
  rw [placeOf, relative]
  rfl

private theorem isAbsolute_placeOf (absolute : r.workspace.isAbsolute = true) (found : Path) :
    (r.placeOf found).isAbsolute = true := by
  cases begins : found.isAbsolute with
  | true => rwa [placeOf, begins, if_pos rfl]
  | false =>
    rw [placeOf_of_relative begins, (Path.pieces_join_relative r.workspace begins).1]
    exact absolute

/-- **Origins follow the spelling of paths.**  In an absolute workspace, whatever a coordinate is
bound to is a file, and counts as the project's own exactly if its path, less fillers, begins with
that of the workspace; so every relative answer does.  That tells where the file is if the path is
straight, in particular if no double dots are written. -/
theorem origins_follow_spelling (absolute : r.workspace.isAbsolute = true)
    (resolved : r.resolve t key who = .ok a) :
    (∃ bytes, t.node? (t.lexical a.source) = some (.file bytes)) ∧
    (a.origin = .project ↔ r.workspace.solids <+: a.source.solids) ∧
    (∀ found, r.find? t key = some found → found.isAbsolute = false → a.origin = .project) ∧
    (Path.Straight r.workspace a.source →
      (a.origin = .project ↔ t.lexical r.workspace <+: t.lexical a.source)) ∧
    (".." ∉ r.workspace.solids → ".." ∉ a.source.solids → Path.Straight r.workspace a.source) := by
  obtain ⟨found, looked, file, source, origin⟩ := source_of_resolve resolved
  have begins := isAbsolute_placeOf absolute found
  have spelled : a.origin = .project ↔ r.workspace.solids <+: a.source.solids := by
    rw [origin, source, ← Path.isBelow_iff begins absolute, originOf]
    split <;> simp_all
  refine ⟨?_, spelled, fun found' looked' relative => ?_, fun straight => ?_,
    Path.straight_of_down⟩
  · obtain ⟨bytes, stands⟩ := Tree.isFile_iff.mp file
    obtain ⟨leads, held⟩ := Tree.status_eq_ok_iff.mp stands
    exact ⟨bytes, source ▸ held⟩
  · obtain rfl : found' = found := Option.some.inj (looked'.symm.trans looked)
    rw [spelled, source, placeOf_of_relative relative, Path.solids_join relative]
    exact List.prefix_append _ _
  · rw [spelled, t.prefix_lexical_iff straight (source ▸ begins) absolute]

/-- A jar beside the workspace and one in it, and an empty directory. -/
def besideTree : Tree :=
  (((Tree.empty.insert ["x.jar"] (.file .empty)).insert ["ws"] .directory).insert
    ["ws", "y.jar"] (.file .empty)).insert ["lib"] .directory

/-- Coordinates that are told by their names. -/
def besideKey (name : String) (segment : IsSegment name) : ArtifactKey :=
  { Naming.dashedVersion.key with name := name, name_ok := segment }

/-- A way out of the workspace, a way into it from beside, and a path in it. -/
def besideResolver : Resolver :=
  ⟨(((∅ : Table ArtifactKey Path).insert (besideKey "out" (by decide)) ⟨"/ws/../x.jar"⟩).insert
      (besideKey "in" (by decide)) ⟨"/lib/../ws/y.jar"⟩).insert (besideKey "own" (by decide)) ⟨"y.jar"⟩,
    [], .coordinate, ⟨"/ws"⟩⟩

theorem double_dots_mislead_origins :
    ∃ out inside own, besideResolver.resolve besideTree (besideKey "out" (by decide)) none = .ok out ∧
      besideResolver.resolve besideTree (besideKey "in" (by decide)) none = .ok inside ∧
      besideResolver.resolve besideTree (besideKey "own" (by decide)) none = .ok own ∧
      besideTree.lexical ⟨"/ws"⟩ = ["ws"] ∧
      (out.origin = .project ∧ besideTree.lexical out.source = ["x.jar"]) ∧
      (inside.origin = .external ∧ besideTree.lexical inside.source = ["ws", "y.jar"]) ∧
      (own.origin = .project ∧ besideTree.lexical own.source = ["ws", "y.jar"]) := by
  have outFound : (besideResolver.resolve besideTree (besideKey "out" (by decide)) none).map
      Artifact.source = .ok ⟨"/ws/../x.jar"⟩ := by decide
  have insideFound : (besideResolver.resolve besideTree (besideKey "in" (by decide)) none).map
      Artifact.source = .ok ⟨"/lib/../ws/y.jar"⟩ := by decide
  have ownFound : (besideResolver.resolve besideTree (besideKey "own" (by decide)) none).map
      Artifact.source = .ok ⟨"/ws/y.jar"⟩ := by decide
  obtain ⟨out, outRan, outSource⟩ := Running.ok_of_map outFound
  obtain ⟨inside, insideRan, insideSource⟩ := Running.ok_of_map insideFound
  obtain ⟨own, ownRan, ownSource⟩ := Running.ok_of_map ownFound
  have absolute : besideResolver.workspace.isAbsolute = true := by decide
  obtain ⟨-, outOrigin, -⟩ := origins_follow_spelling absolute outRan
  obtain ⟨-, insideOrigin, -⟩ := origins_follow_spelling absolute insideRan
  obtain ⟨-, -, -, ownOrigin, straight⟩ := origins_follow_spelling absolute ownRan
  rw [outSource] at outOrigin
  rw [insideSource] at insideOrigin
  rw [ownSource] at ownOrigin straight
  have entered : inside.origin = .external := by
    cases origin : inside.origin with
    | external => rfl
    | project => exact absurd (insideOrigin.mp origin) (by decide)
  have dotless : Path.Straight besideResolver.workspace ⟨"/ws/y.jar"⟩ :=
    straight (by decide) (by decide)
  refine ⟨out, inside, own, outRan, insideRan, ownRan, by decide,
    ⟨outOrigin.mpr (by decide), ?_⟩, ⟨entered, ?_⟩,
    ⟨(ownOrigin dotless).mpr (by decide), ?_⟩⟩
  · rw [outSource]
    decide
  · rw [insideSource]
    decide
  · rw [ownSource]
    decide

end Resolver

end RuleDepot
