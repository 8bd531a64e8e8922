import RuleDepot.Command.Run
import RuleDepot.Proofs.Files.Paving
import RuleDepot.Proofs.Generation.Calls
import RuleDepot.Proofs.Origins
/-!
Which files the paths in a project model stand for.  A relative path is put behind the directory of the
model file when the model is read, and what is relative still is put behind the workspace when a
coordinate is resolved.  The path of the model file holds that of the workspace already.  So the two
agree as long as the workspace or the model file is given by an absolute path; from a relative one the
way of the workspace is gone twice.
-/

namespace RuleDepot

open Running

variable {t : Tree} {p q dir file : Path} {front : List String} {name : String}

namespace Path

private theorem resolveAgainst_eq (home base p : Path) :
    resolveAgainst home base p = base.join (expandHome home p) := by
  cases given : (expandHome home p).isAbsolute with
  | true => simp [resolveAgainst, join, given]
  | false =>
    simp only [resolveAgainst, given, Bool.false_eq_true, if_false]
    rfl

/-- A path leads to the directory of a file if that of the file goes on behind it by a single name. -/
def IsDirOf (dir file : Path) : Prop :=
  dir.isAbsolute = file.isAbsolute ∧ ∃ name, name ≠ ".." ∧ file.solids = dir.solids ++ [name]

/-- The parent of a path that ends in a name leads to the directory of the file. -/
theorem isDirOf_parent? (ends : p.pieces = front ++ [name]) (solid : isFiller name = false)
    (down : name ≠ "..") (named : p.text ≠ "") : ∃ dir, p.parent? = some dir ∧ dir.IsDirOf p := by
  obtain ⟨gap, split, hollow⟩ := eq_append_dropFillersAtEnd p.isAbsolute front
  have ends' : p.pieces = front ++ name :: [] := ends
  have known := Tree.parent?_of_pieces ends' solid (by simp)
  have whole : p.pieces = dropFillersAtEnd p.isAbsolute front ++ (gap ++ [name]) := by
    rw [← List.append_assoc, ← split, ends]
  have own : p.solids = (dropFillersAtEnd p.isAbsolute front).filter isSolid ++ [name] := by
    rw [solids, whole, List.filter_append, List.filter_append, filter_fillers hollow,
      List.nil_append]
    simp [isSolid, solid]
  refine ⟨_, known, ?_⟩
  generalize same : ofPieces p.isAbsolute (dropFillersAtEnd p.isAbsolute front) = dir
  by_cases filled : dir.text = ""
  · obtain ⟨relative, none⟩ := Tree.front_of_blank (same ▸ filled) whole named
    obtain rfl : dir = ⟨""⟩ := by cases dir; exact congrArg Path.mk filled
    refine ⟨by rw [relative]; rfl, name, down, ?_⟩
    rw [own, none]
    rfl
  · obtain ⟨absolute, pieces, -⟩ := Tree.spelled_parent same.symm filled whole named
    refine ⟨absolute, name, down, ?_⟩
    rw [own]
    rcases pieces with pieces | ⟨none, pieces⟩
    · rw [solids, pieces]
    · rw [solids, pieces, none]
      rfl

end Path

namespace Tree

/-- Where a path leads from the directory of a file. -/
def beside (t : Tree) (file p : Path) : Location :=
  p.pieces.foldl advance (t.lexical file).dropLast

private theorem lexical_of_isDirOf (t : Tree) (within : dir.IsDirOf file) :
    t.lexical dir = (t.lexical file).dropLast := by
  obtain ⟨absolute, name, down, split⟩ := within
  have solid : Path.isFiller name = false := Path.solid_of_mem_solids (p := file) (by simp [split])
  have begins : t.start dir = t.start file := by simp only [start, absolute]
  have step : advance (t.lexical dir) name = t.lexical dir ++ [name] := by
    simp [advance, solid, down]
  have place : t.lexical file = t.lexical dir ++ [name] := by
    rw [lexical_eq_solids, split, List.foldl_append, ← begins, ← lexical_eq_solids]
    exact step
  rw [place, List.dropLast_concat]

/-- A relative path behind the directory of a file leads on from that directory. -/
theorem lexical_join_of_isDirOf (t : Tree) (within : dir.IsDirOf file)
    (relative : p.isAbsolute = false) : t.lexical (dir.join p) = t.beside file p := by
  rw [lexical_join_relative t dir relative, Path.solids, foldl_advance_solids,
    lexical_of_isDirOf t within, beside]

/-- From the directory of a file that is given by a relative path, a path is followed from the working
directory on. -/
theorem beside_of_relative (t : Tree) (within : dir.IsDirOf file) (loose : file.isAbsolute = false) :
    t.beside file p = (file.solids.dropLast ++ p.solids).foldl advance t.workingDir := by
  have place := lexical_of_isDirOf t within
  obtain ⟨begins, name, -, split⟩ := within
  rw [lexical_eq_solids t dir, start, begins, loose, if_neg Bool.false_ne_true] at place
  rw [beside, ← place, split, List.dropLast_concat, List.foldl_append]
  exact (foldl_advance_solids p.pieces _).symm

/-- The parent of the path of a file leads to the directory of the file. -/
theorem isDirOf_of_isFile (rooted : t.Rooted) (stands : t.isFile p = true) :
    ∃ dir, p.parent? = some dir ∧ dir.IsDirOf p := by
  obtain ⟨bytes, found⟩ := isFile_iff.mp stands
  obtain ⟨leads, held⟩ := status_eq_ok_iff.mp found
  obtain ⟨fits, walked⟩ := locate_eq_ok_iff.mp leads
  have named : p.text ≠ "" := fun blank => by simp [admissible, blank] at fits
  rcases List.eq_nil_or_concat p.pieces with none | ⟨front, last, ends⟩
  · have absolute : p.isAbsolute = true := by
      by_contra relative
      exact Path.pieces_ne_nil (by simpa using relative) none
    rw [lexical_of_absolute t absolute, Path.solids, none] at held
    cases held
  · rw [List.concat_eq_append] at ends
    rw [ends, List.foldlM_append] at walked
    obtain ⟨place, -, walked⟩ := ok_of_bind walked
    rw [List.foldlM_cons] at walked
    obtain ⟨next, last_step, done⟩ := ok_of_bind walked
    obtain rfl : next = t.lexical p := Except.ok.inj done
    obtain ⟨directory, leads, -⟩ := follow_eq_ok_iff.mp last_step
    -- What stays in a directory or goes up from it leads to a directory.
    have other : ¬ IsDots last := fun dots => by
      have stands := (follow_of_dots rooted directory dots).2
      rw [← leads, held] at stands
      cases stands
    obtain ⟨solid, down⟩ := not_or.mp other
    exact Path.isDirOf_parent? ends (by simpa using solid) down named

end Tree

namespace Resolver

variable {r : Resolver} {key : ArtifactKey} {found : Path}

/-- A coordinate is looked for at one path and nowhere else. -/
def Opens (r : Resolver) (key : ArtifactKey) (opened : Path) : Prop :=
  ∀ (t : Tree) (who : Option String),
    (t.isFile opened = true → ∃ a, r.resolve t key who = .ok a ∧ a.source = opened) ∧
    (t.isFile opened = false → r.resolve t key who = .error (.unresolvedDependency key.text who))

private theorem opens_of_listed (listed : r.table[key]? = some found) : r.Opens key (r.placeOf found) := by
  intro t who
  have looked : r.find? t key = some found := by rw [find?, listed]
  refine ⟨fun stands => ?_, fun absent => ?_⟩
  · obtain ⟨hash, bound⟩ := Artifact.exists_of_isFile r.hashMode (r.originOf (r.placeOf found)) key
      stands
    exact ⟨_, resolve_eq_ok_iff.mpr ⟨found, looked, bound⟩, rfl⟩
  · apply resolve_of_not_resolves
    rintro ⟨found', looked', stands⟩
    obtain rfl := Option.some.inj (looked.symm.trans looked')
    rw [absent] at stands
    cases stands

section Behind

variable (t : Tree) (within : dir.IsDirOf file) (relative : p.isAbsolute = false)

include within relative

/-- What is put behind the directory of a file that is given by an absolute path is found there. -/
theorem lexical_placeOf_of_absolute (absolute : file.isAbsolute = true) :
    t.lexical (r.placeOf (dir.join p)) = t.beside file p := by
  have behind : (dir.join p).isAbsolute = true := by
    rw [(Path.pieces_join_relative dir relative).1, within.1, absolute]
  rw [placeOf, if_pos behind, Tree.lexical_join_of_isDirOf t within relative]

/-- What is put behind that of a file that is given by a relative path is looked for from the workspace
on. -/
theorem lexical_placeOf_of_relative (loose : file.isAbsolute = false) :
    t.lexical (r.placeOf (dir.join p)) =
      (file.solids.dropLast ++ p.solids).foldl Tree.advance (t.lexical r.workspace) := by
  obtain ⟨begins, name, -, split⟩ := within
  have behind : (dir.join p).isAbsolute = false := by
    rw [(Path.pieces_join_relative dir relative).1, begins, loose]
  rw [placeOf_of_relative behind, Tree.lexical_join_relative t _ behind, Path.solids_join relative,
    split, List.dropLast_concat]

variable (loose : file.isAbsolute = false) (begins : r.workspace.isAbsolute = false)

include loose begins

private theorem lexical_placeOf_of_still (still : r.workspace.solids = []) :
    t.lexical (r.placeOf (dir.join p)) = t.beside file p := by
  have here : t.lexical r.workspace = t.workingDir := by
    simp [Tree.lexical_eq_solids, still, Tree.start, begins]
  rw [lexical_placeOf_of_relative t within relative loose, Tree.beside_of_relative t within loose, here]

/-- Without double dots, the way of a workspace below the working directory leads somewhere else when it
is gone twice. -/
theorem lexical_placeOf_ne (moved : r.workspace.solids ≠ []) (down : ".." ∉ r.workspace.solids)
    (down' : ".." ∉ file.solids) (down'' : ".." ∉ p.solids) :
    t.lexical (r.placeOf (dir.join p)) ≠ t.beside file p := by
  have names (place : Location) : (file.solids.dropLast ++ p.solids).foldl Tree.advance place =
      place ++ (file.solids.dropLast ++ p.solids) := by
    refine Tree.foldl_advance_of_down (fun piece member => ?_) (fun up => ?_) place
    · rcases List.mem_append.mp member with front | rest
      · exact Path.solid_of_mem_solids (List.dropLast_subset _ front)
      · exact Path.solid_of_mem_solids rest
    · rcases List.mem_append.mp up with front | rest
      · exact down' (List.dropLast_subset _ front)
      · exact down'' rest
  have there : t.lexical r.workspace = t.workingDir ++ r.workspace.solids := by
    rw [Tree.lexical_eq_solids, Tree.foldl_advance_of_down (fun piece => Path.solid_of_mem_solids) down]
    simp [Tree.start, begins]
  rw [lexical_placeOf_of_relative t within relative loose, Tree.beside_of_relative t within loose,
    names, names, there]
  simpa using moved

end Behind

end Resolver

namespace Project

variable {written : Draft} {project : Project} {key : ArtifactKey}

/-- A model file that can be read, what is written in it, and what it is read as. -/
structure Reads (t : Tree) (file : Path) (written : Draft) (project : Project) : Prop where
  content : ∃ content, t.readText file = .ok content ∧ Json.Decoder.run draft content = .ok written
  loaded : load t file = .ok project

private theorem load_ok (loaded : load t file = .ok project) : ∃ content written modules,
    t.readText file = .ok content ∧ Json.Decoder.run draft content = .ok written ∧
      project = ⟨modules, written.artifacts.map fun _ p => (file.parent?.getD ⟨"."⟩).join p⟩ := by
  unfold load at loaded
  split at loaded
  · cases loaded
  · rename_i content text
    cases made : ofText content (file.parent?.getD ⟨"."⟩) with
    | error reason =>
      rw [made] at loaded
      cases loaded
    | ok result =>
      rw [made] at loaded
      cases loaded
      obtain ⟨written, read, added⟩ := ok_of_bind made
      obtain ⟨modules, -, done⟩ := ok_of_bind added
      cases done
      cases decoded : Json.Decoder.run draft content with
      | error fault =>
        rw [decoded] at read
        cases read
      | ok found =>
        rw [decoded] at read
        cases read
        exact ⟨content, written, modules, text, decoded, rfl⟩

private theorem Reads.isFile (reads : Reads t file written project) : t.isFile file = true := by
  obtain ⟨content, text, -⟩ := reads.content
  obtain ⟨bytes, read, -⟩ := ok_of_bind text
  exact Tree.isFile_iff.mpr ⟨bytes, Tree.read_eq_ok_iff.mp read⟩

/-- The files of a model are those that are written, put behind the directory of the model. -/
theorem Reads.artifacts (reads : Reads t file written project) : project.artifacts =
    written.artifacts.map fun _ p => (file.parent?.getD ⟨"."⟩).join p := by
  obtain ⟨⟨content, text, read⟩, loaded⟩ := reads
  obtain ⟨content', written', modules, text', read', rfl⟩ := load_ok loaded
  cases text.symm.trans text'
  cases read.symm.trans read'
  rfl

end Project

namespace Command

variable {c : Context} {model : Path} {maxParallel : Option Nat} {terminal : Terminal}
  {config : Config} {written : Project.Draft} {project : Project} {key : ArtifactKey}

namespace Context

/-- The file that the argument of the command names. -/
def modelFile (c : Context) (model : Path) : Path :=
  Path.resolveAgainst c.home c.workspace model

/-- The workspace or the model file is given by an absolute path. -/
def Anchored (c : Context) (model : Path) : Prop :=
  c.workspace.isAbsolute = true ∨ (Path.expandHome c.home model).isAbsolute = true

/-- A model file that is not given so is found behind the workspace. -/
theorem modelFile_of_not_anchored (loose : ¬ c.Anchored model) :
    c.workspace.isAbsolute = false ∧ (c.modelFile model).isAbsolute = false ∧
      (c.modelFile model).solids = c.workspace.solids ++ (Path.expandHome c.home model).solids := by
  obtain ⟨begins, relative⟩ := not_or.mp loose
  rw [Bool.not_eq_true] at begins relative
  rw [modelFile, Path.resolveAgainst_eq, (Path.pieces_join_relative c.workspace relative).1,
    Path.solids_join relative]
  exact ⟨begins, begins, rfl⟩

private theorem isAbsolute_modelFile (anchored : c.Anchored model) :
    (c.modelFile model).isAbsolute = true := by
  rw [modelFile, Path.resolveAgainst_eq]
  cases given : (Path.expandHome c.home model).isAbsolute with
  | true => rwa [Path.join, if_pos given]
  | false =>
    rw [(Path.pieces_join_relative c.workspace given).1]
    exact anchored.resolve_right (by simp [given])

end Context

/-- What is left to do when the model is read. -/
def pass (c : Context) (g : Generation) : CommandM Unit := do
  let report ← CommandM.within s!"Generation failed for {c.workspace.text}"
    (CommandM.step g (Generation.run c.surroundings.now))
  if !c.quiet then CommandM.lines (passLines report)

/-- The command gets as far as to the pass. -/
structure Begins (c : Context) (model : Path) (maxParallel : Option Nat) (terminal : Terminal)
    (config : Config) (written : Project.Draft) (project : Project) : Prop where
  configured : Config.load terminal.tree c.surroundings.environment c.workspace c.config = .ok config
  parallel : maxParallel ≠ some 0
  reads : Project.Reads terminal.tree (c.modelFile model) written project

private theorem generate_eq (c : Context) (model : Path) (maxParallel : Option Nat) (terminal : Terminal) :
    generate c model maxParallel terminal =
      match Config.load terminal.tree c.surroundings.environment c.workspace c.config with
      | .error e => .error ((CommandError.ofBuild e).within "Failed to load configuration") terminal
      | .ok config =>
        if maxParallel = some 0 then .error (.refusal "--max-parallel must be at least 1") terminal
        else match Project.load terminal.tree (c.modelFile model) with
          | .error e => .error (.ofBuild e) terminal
          | .ok project => pass c (Generation.new config c.home c.workspace project) terminal := by
  have read : c.loadConfig terminal =
      match Config.load terminal.tree c.surroundings.environment c.workspace c.config with
      | .error e => .error ((CommandError.ofBuild e).within "Failed to load configuration") terminal
      | .ok config => .ok config terminal := by
    simp only [Context.loadConfig, CommandM.within, CommandM.look]
    cases Config.load terminal.tree c.surroundings.environment c.workspace c.config <;> rfl
  unfold generate
  rw [bind_run, read]
  cases Config.load terminal.tree c.surroundings.environment c.workspace c.config with
  | error e => rfl
  | ok config =>
    simp only
    split
    · rfl
    · rw [bind_run]
      simp only [CommandM.look, Context.modelFile]
      cases Project.load terminal.tree (Path.resolveAgainst c.home c.workspace model) <;> rfl

private theorem generate_of_begins (begins : Begins c model maxParallel terminal config written project) :
    generate c model maxParallel terminal =
      pass c (Generation.new config c.home c.workspace project) terminal := by
  rw [generate_eq, begins.configured]
  simp only
  rw [if_neg begins.parallel, begins.reads.loaded]

/-- **The files of a model are looked for behind the workspace.**  When the command resolves a
coordinate for which the model writes a relative path, it opens one file and no other.  That is the file
to which the path leads from the directory of the model file if the workspace or the model file is given
by an absolute path, or the workspace is the working directory.  In all other cases the directory of the
model file is looked for once more from the workspace, which is another place if no double dots are
written. -/
theorem relative_files_opened (rooted : terminal.tree.Rooted)
    (begins : Begins c model maxParallel terminal config written project)
    (listed : written.artifacts[key]? = some p) (relative : p.isAbsolute = false) :
    let g := Generation.new config c.home c.workspace project
    let file := c.modelFile model
    ∃ opened : Path,
      generate c model maxParallel terminal = pass c g terminal ∧
      g.scopes.resolver.Opens key opened ∧
      (∀ s ∈ g.stations, s.collector.cache.resolver.Opens key opened) ∧
      (c.Anchored model ∨ c.workspace.solids = [] → ∀ t : Tree, t.lexical opened = t.beside file p) ∧
      (¬ c.Anchored model → ∀ t : Tree, t.lexical opened =
        (file.solids.dropLast ++ p.solids).foldl Tree.advance (t.lexical c.workspace)) ∧
      (¬ c.Anchored model → c.workspace.solids ≠ [] → ".." ∉ file.solids → ".." ∉ p.solids →
        ∀ t : Tree, t.lexical opened ≠ t.beside file p) := by
  intro g file
  obtain ⟨dir, parent, within⟩ := Tree.isDirOf_of_isFile rooted begins.reads.isFile
  have entry : g.scopes.resolver.table[key]? = some (dir.join p) := by
    change project.artifacts[key]? = _
    rw [begins.reads.artifacts, parent, Option.getD_some]
    simp [listed]
  have opens := Resolver.opens_of_listed entry
  refine ⟨_, generate_of_begins begins, opens, fun s member => ?_, fun agree t => ?_,
    fun loose t => ?_, fun loose moved down down' t => ?_⟩
  · obtain ⟨shelf, -, rfl⟩ := List.mem_map.mp member
    exact opens
  · by_cases anchored : c.Anchored model
    · exact Resolver.lexical_placeOf_of_absolute t within relative
        (Context.isAbsolute_modelFile anchored)
    · obtain ⟨begins, absolute, -⟩ := Context.modelFile_of_not_anchored anchored
      exact Resolver.lexical_placeOf_of_still t within relative absolute begins
        (agree.resolve_left anchored)
  · exact Resolver.lexical_placeOf_of_relative t within relative
      (Context.modelFile_of_not_anchored loose).2.1
  · obtain ⟨begins, absolute, whole⟩ := Context.modelFile_of_not_anchored loose
    exact Resolver.lexical_placeOf_ne t within relative absolute begins moved
      (fun up => down (whole ▸ List.mem_append_left _ up)) down down'

/-- A model that writes one relative path. -/
def nearbyText : String :=
  "\x7b\"artifacts\": \x7b\"a:b:1-0\": \"libs/b.jar\"\x7d\x7d"

/-- The model and the file next to it, in a workspace below the working directory. -/
def nearbyTree : Tree :=
  { (((((Tree.empty.insert ["w"] .directory).insert ["w", "sub"] .directory).insert
      ["w", "sub", "model.json"] (.file nearbyText.toUTF8)).insert
      ["w", "sub", "libs"] .directory).insert
      ["w", "sub", "libs", "b.jar"] (.file .empty)) with workingDir := ["w"] }

/-- The command, with the workspace given by a relative path. -/
def nearbyContext : Context :=
  ⟨⟨⟨⟨"/home"⟩, none, none⟩, ⟨"/w"⟩, .epoch⟩, ⟨"sub"⟩, none, true⟩

theorem nearby_file_missed :
    let key := Resolver.besideKey "b" (by decide)
    ∃ config written project,
      Begins nearbyContext ⟨"model.json"⟩ none ⟨"", nearbyTree⟩ config written project ∧
      written.artifacts[key]? = some ⟨"libs/b.jar"⟩ ∧
      nearbyTree.node? (nearbyTree.beside ⟨"sub/model.json"⟩ ⟨"libs/b.jar"⟩) =
        some (.file .empty) ∧
      (Generation.new config ⟨"/home"⟩ ⟨"sub"⟩ project).scopes.resolver.resolve nearbyTree key none =
        .error (.unresolvedDependency key.text none) := by
  intro key
  have configured : (Config.load nearbyTree ⟨⟨"/home"⟩, none, none⟩ ⟨"sub"⟩ none).map
      (fun _ => ()) = .ok () := by decide
  have text : nearbyTree.readText ⟨"sub/model.json"⟩ = .ok nearbyText := by decide
  have read : (Json.Decoder.run Project.draft nearbyText).map
      (fun written => written.artifacts[key]?) = .ok (some ⟨"libs/b.jar"⟩) := by decide
  have loaded : (Project.load nearbyTree ⟨"sub/model.json"⟩).map (fun _ => ()) = .ok () := by
    decide
  obtain ⟨config, configured, -⟩ := ok_of_map configured
  obtain ⟨written, read, listed⟩ := ok_of_map read
  obtain ⟨project, loaded, -⟩ := ok_of_map loaded
  have file : nearbyContext.modelFile ⟨"model.json"⟩ = ⟨"sub/model.json"⟩ := by decide
  have begins : Begins nearbyContext ⟨"model.json"⟩ none ⟨"", nearbyTree⟩ config written project :=
    ⟨configured, nofun, file ▸ ⟨⟨nearbyText, text, read⟩, loaded⟩⟩
  have rooted : nearbyTree.Rooted := by decide
  obtain ⟨opened, -, opens, -, -, behind, -⟩ :=
    relative_files_opened rooted begins listed (by decide)
  have loose : ¬ nearbyContext.Anchored ⟨"model.json"⟩ := by
    unfold Context.Anchored
    decide
  have place : nearbyTree.lexical opened = ["w", "sub", "sub", "libs", "b.jar"] := by
    rw [behind loose, file]
    decide
  have nothing : nearbyTree.node? ["w", "sub", "sub", "libs", "b.jar"] = none := by decide
  have absent : nearbyTree.isFile opened = false := by
    rw [Bool.eq_false_iff]
    intro stands
    obtain ⟨bytes, found⟩ := Tree.isFile_iff.mp stands
    have held := (Tree.status_eq_ok_iff.mp found).2
    rw [place, nothing] at held
    cases held
  exact ⟨config, written, project, begins, listed, by decide, (opens nearbyTree none).2 absent⟩

end Command

end RuleDepot
