import RuleDepot.Proofs.Coordinates
import RuleDepot.Proofs.Files.Relative
import RuleDepot.Resolver
/-!
Where repositories look for artifacts.  The parts of a coordinate are names of directories and files,
the empty parts between the dots of a group apart, and those leave no trace in a path.  So every file
that a repository looks for stands below its root, at a place that tells the coordinate but for such
dots.
-/

namespace RuleDepot

namespace Path

variable {p q : Path} {s : String} {names parts : List String}

/-- Names behind a path, each put behind the one before. -/
def descend (p : Path) (names : List String) : Path :=
  names.foldl (fun dir (s : String) => dir / s) p

@[simp] theorem descend_nil (p : Path) : p.descend [] = p := rfl

@[simp] theorem descend_cons (p : Path) (s : String) (names : List String) :
    p.descend (s :: names) = (p / s).descend names := rfl

private theorem descend_append (p : Path) (names names' : List String) :
    p.descend (names ++ names') = (p.descend names).descend names' := by
  simp [descend]

/-- An empty part writes at most a slash, which would be written in front of the next part anyway. -/
theorem join_blank_join (p : Path) (slashless : '/' ∉ s.toList) : p / "" / s = p / s := by
  have relative := isAbsolute_of_slashless slashless
  have blank : (Path.mk "").isAbsolute = false := by decide
  change (p.join ⟨""⟩).join ⟨s⟩ = p.join ⟨s⟩
  by_cases ended : (p.text.isEmpty || p.text.toList.getLast? == some '/') = true
  · simp [join, relative, blank, ended]
  · simp [join, relative, blank, ended]

private theorem descend_filter (p : Path) (slashless : ∀ part ∈ parts, '/' ∉ part.toList)
    (solid : '/' ∉ s.toList) :
    p.descend (parts ++ [s]) = p.descend (parts.filter (· ≠ "") ++ [s]) := by
  induction parts generalizing p with
  | nil => rfl
  | cons part parts ih =>
    have later (p : Path) := ih p fun part member => slashless part (List.mem_cons_of_mem _ member)
    by_cases blank : part = ""
    · subst blank
      have skipped : (p / "").descend (parts ++ [s]) = p.descend (parts ++ [s]) := by
        cases parts with
        | nil => exact join_blank_join p solid
        | cons next parts =>
          have front := join_blank_join p (slashless next (by simp))
          simp only [List.cons_append, descend_cons, front]
      simpa [skipped] using later p
    · simpa [blank] using later (p / part)

/-- Names put behind a path one by one are put behind it with slashes between them. -/
theorem descend_eq_join (filled : names ≠ []) (solid : ∀ s ∈ names, IsName s) (p : Path) :
    p.descend names = p.join ⟨"/".intercalate names⟩ := by
  induction names generalizing p with
  | nil => exact absurd rfl filled
  | cons s names ih =>
    have named := solid s List.mem_cons_self
    cases names with
    | nil => simp [HDiv.hDiv]
    | cons next names =>
      have later := ih (by simp) (fun s member => solid s (List.mem_cons_of_mem _ member)) (p / s)
      obtain ⟨c, chars, begins⟩ : ∃ c chars, next.toList = c :: chars :=
        List.exists_cons_of_ne_nil (by simpa using (solid next (by simp)).nonempty)
      have other : c ≠ '/' := fun same => (solid next (by simp)).solid (by simp [begins, same])
      have behind : (Path.mk ("/".intercalate (next :: names))).isAbsolute = false := by
        simp only [isAbsolute, String.toList_intercalate]
        cases names <;> simp [begins, other]
      have front : s.toList.head? ≠ some '/' := fun begins =>
        named.solid (List.mem_of_mem_head? begins)
      obtain ⟨chars, last, ends⟩ : ∃ chars last, s.toList = chars ++ [last] :=
        ⟨_, _, (List.dropLast_concat_getLast (by simpa using named.nonempty)).symm⟩
      have ends' : s.toList.getLast? = some last := by simp [ends]
      have other' : last ≠ '/' := fun same => named.solid (by simp [ends, same])
      have spelled : "/".intercalate (s :: next :: names) =
          s ++ "/" ++ "/".intercalate (next :: names) := by
        refine String.toList_inj.mp ?_
        simp [String.toList_intercalate]
      rw [descend_cons, later, spelled, join_append p front ends' other' behind]
      rfl

private theorem components_join (p : Path) (named : IsName s) :
    (p / s).components = p.components ++ [.name s] := by
  obtain ⟨absolute, before, trail, own, blank, whole⟩ := pieces_join p named
  have stands : component? s = some (.name s) := by
    simp [component?, named.isFiller, named.down]
  have begins : ((p / s).pieces.head? == some ".") = (p.pieces.head? == some ".") := by
    cases before with
    | cons first before => simp [own, whole]
    | nil =>
      cases trail with
      | nil => simp [own, whole, named.still]
      | cons piece trail => simp [own, whole, named.still, blank piece]
  have named' : (p / s).pieces.filterMap component? =
      p.pieces.filterMap component? ++ [.name s] := by
    rw [own, whole, List.filterMap_append, List.filterMap_append, filterMap_blank blank]
    simp [stands]
  simp only [components, absolute, begins, named']
  split
  · rfl
  · split <;> rfl

private theorem components_descend (p : Path) (solid : ∀ s ∈ names, IsName s) :
    (p.descend names).components = p.components ++ names.map .name := by
  induction names generalizing p with
  | nil => simp
  | cons s names ih =>
    rw [descend_cons, ih _ fun s member => solid s (List.mem_cons_of_mem _ member),
      components_join p (solid s List.mem_cons_self)]
    simp

end Path


private theorem IsSegment.isName {text : String} (segment : IsSegment text) : Path.IsName text where
  nonempty := segment.1
  still := segment.2.1
  down := segment.2.2.1
  solid := not_mem_of_isSegment segment (by decide)

namespace Repository

variable {key key' : ArtifactKey} {extension extension' : String} {p q : Path}

/-- The parts of a group that are directories of their own. -/
def groupNames (group : String) : List String :=
  (Text.splitAt '.' group).filter (· ≠ "")

/-- The file of an artifact in the directory of its version. -/
def fileName (key : ArtifactKey) (extension : String) : String :=
  match key.classifier with
  | some c => s!"{key.name}-{key.version}-{c}.{extension}"
  | none => s!"{key.name}-{key.version}.{extension}"

/-- What stands behind the root in the path of a candidate. -/
def place (key : ArtifactKey) (extension : String) : List String :=
  groupNames key.group ++ [key.name, key.version, fileName key extension]

/-- What is written for the classifier in a file name. -/
def classifierMark (classifier : Option String) : List Char :=
  match classifier with
  | some c => '-' :: c.toList
  | none => []

private theorem fileName_toList (key : ArtifactKey) (extension : String) :
    (fileName key extension).toList =
      key.name.toList ++ '-' :: key.version.toList ++ classifierMark key.classifier ++
        '.' :: extension.toList := by
  unfold fileName classifierMark
  split <;> simp_all [toString]

private theorem classifierMark_inj {c c' : Option String} (same : classifierMark c = classifierMark c') :
    c = c' := by
  cases c <;> cases c' <;> simp_all [classifierMark, String.toList_inj]

private theorem isName_of_mem_groupNames {part : String} (member : part ∈ groupNames key.group) :
    Path.IsName part := by
  simp only [groupNames, List.mem_filter, decide_eq_true_eq] at member
  obtain ⟨inside, filled⟩ := member
  obtain ⟨piece, cut, rfl⟩ := List.mem_map.mp inside
  have dotless : '.' ∉ piece := fun dot => by
    simpa using Text.sep_of_mem_splitChars cut '.' dot
  refine ⟨filled, fun one => ?_, fun two => ?_, fun slash => ?_⟩
  · exact dotless (by rw [← String.toList_ofList (l := piece), one]; simp)
  · exact dotless (by rw [← String.toList_ofList (l := piece), two]; simp)
  · rw [String.toList_ofList] at slash
    exact not_mem_of_isSegment key.group_ok (c := '/') (by decide)
      (Text.mem_of_mem_splitChars cut slash)

private theorem isName_fileName (listed : extension ∈ extensions) :
    Path.IsName (fileName key extension) := by
  have dashed : '-' ∈ (fileName key extension).toList := by simp [fileName_toList]
  have slashless {text : String} (segment : IsSegment text) : '/' ∉ text.toList :=
    not_mem_of_isSegment segment (by decide)
  have slashless' : '/' ∉ extension.toList := by
    simp only [extensions, List.mem_cons, List.not_mem_nil, or_false] at listed
    rcases listed with rfl | rfl <;> decide
  refine ⟨fun blank => ?_, fun one => ?_, fun two => ?_, ?_⟩
  · simp [blank] at dashed
  · simp [one] at dashed
  · simp [two] at dashed
  · cases named : key.classifier with
    | none =>
      simp [fileName_toList, classifierMark, named, slashless key.name_ok, slashless key.version_ok,
        slashless']
    | some c =>
      simp [fileName_toList, classifierMark, named, slashless key.name_ok, slashless key.version_ok,
        slashless (key.classifier_ok c named), slashless']

private theorem isName_place {s : String} (listed : extension ∈ extensions)
    (member : s ∈ place key extension) : Path.IsName s := by
  simp only [place, List.mem_append, List.mem_cons, List.not_mem_nil, or_false] at member
  rcases member with part | rfl | rfl | rfl
  · exact isName_of_mem_groupNames part
  · exact key.name_ok.isName
  · exact key.version_ok.isName
  · exact isName_fileName listed

private theorem mem_candidates_iff (r : Repository) : p ∈ r.candidates key ↔
    ∃ extension ∈ extensions, p = r.root.descend (place key extension) := by
  have spelled (extension : String) : r.moduleDir key.group key.name / key.version /
      fileName key extension = r.root.descend (place key extension) := by
    have solid : ∀ part ∈ Text.splitAt '.' key.group, '/' ∉ part.toList := by
      intro part member
      by_cases blank : part = ""
      · simp [blank]
      · have named : part ∈ groupNames key.group := by simp [groupNames, member, blank]
        exact (isName_of_mem_groupNames named).solid
    have filtered := Path.descend_filter r.root solid key.name_ok.isName.solid
    have whole : place key extension = (groupNames key.group ++ [key.name]) ++
        [key.version, fileName key extension] := by simp [place]
    rw [whole, Path.descend_append, groupNames, ← filtered, Path.descend_append]
    rfl
  have named (extension : String) : fileName key extension = (match key.classifier with
      | some c => s!"{key.name}-{key.version}-{c}"
      | none => s!"{key.name}-{key.version}") ++ "." ++ extension := by
    unfold fileName
    split <;> simp [toString, String.append_assoc]
  simp only [candidates, List.mem_map, ← spelled, named]
  exact exists_congr fun extension => and_congr_right fun _ => eq_comm

/-- The names behind the root tell the coordinate, but for empty parts of the group. -/
theorem place_inj (listed : extension ∈ extensions) (listed' : extension' ∈ extensions) :
    place key extension = place key' extension' ↔
      key.name = key'.name ∧ key.version = key'.version ∧ key.classifier = key'.classifier ∧
        groupNames key.group = groupNames key'.group ∧ extension = extension' := by
  constructor
  · intro same
    obtain ⟨groups, rest⟩ := List.append_inj' same rfl
    simp only [List.cons.injEq, and_true] at rest
    obtain ⟨names, versions, files⟩ := rest
    have three {extension : String} (listed : extension ∈ extensions) :
        extension.toList.length = 3 := by
      simp only [extensions, List.mem_cons, List.not_mem_nil, or_false] at listed
      rcases listed with rfl | rfl <;> rfl
    have texts := congrArg String.toList files
    rw [fileName_toList, fileName_toList, names, versions] at texts
    obtain ⟨fronts, ends⟩ := List.append_inj' texts (by simp [three listed, three listed'])
    refine ⟨names, versions, classifierMark_inj (List.append_cancel_left fronts), groups, ?_⟩
    exact String.toList_inj.mp (List.cons.inj ends).2
  · rintro ⟨names, versions, classifiers, groups, rfl⟩
    simp [place, fileName, names, versions, classifiers, groups]

private theorem find?_spec {r : Repository} {t : Tree} (found : r.find? t key = some p) :
    p ∈ r.candidates key ∧ t.isFile p = true :=
  ⟨List.mem_of_find?_eq_some found, List.find?_some found⟩

/-- **Main result.** The candidates of a repository stand below its root, each behind names that are
put behind the root with slashes between them, none of them empty, a dot or two dots; so what is found
there is below the root.  Two coordinates have a candidate in common exactly if their names, versions
and classifiers agree, and their groups do when empty parts between dots are left out. -/
theorem candidates_below_root (r : Repository) :
    (∀ key, ∀ p ∈ r.candidates key, ∃ names, names ≠ [] ∧ (∀ s ∈ names, Path.IsName s) ∧
      p = r.root.join ⟨"/".intercalate names⟩ ∧
      p.components = r.root.components ++ names.map .name) ∧
    (∀ t key p, r.find? t key = some p → t.isFile p = true ∧ p.isBelow r.root = true ∧
      r.root.isBelow p = false) ∧
    ∀ key key', (∃ p ∈ r.candidates key, ∃ q ∈ r.candidates key', p.components = q.components) ↔
      key.name = key'.name ∧ key.version = key'.version ∧ key.classifier = key'.classifier ∧
        (Text.splitAt '.' key.group).filter (· ≠ "") =
          (Text.splitAt '.' key'.group).filter (· ≠ "") := by
  have confined {key : ArtifactKey} {p : Path} (probed : p ∈ r.candidates key) :
      ∃ names, names ≠ [] ∧ (∀ s ∈ names, Path.IsName s) ∧
        p = r.root.join ⟨"/".intercalate names⟩ ∧
        p.components = r.root.components ++ names.map .name := by
    obtain ⟨extension, listed, rfl⟩ := (mem_candidates_iff r).mp probed
    have solid : ∀ s ∈ place key extension, Path.IsName s := fun s => isName_place listed
    exact ⟨place key extension, by simp [place], solid,
      Path.descend_eq_join (by simp [place]) solid r.root, Path.components_descend r.root solid⟩
  refine ⟨fun key p => confined, fun t key p found => ?_, fun key key' => ⟨?_, ?_⟩⟩
  · obtain ⟨probed, file⟩ := find?_spec found
    obtain ⟨names, filled, -, -, components⟩ := confined probed
    refine ⟨file, ?_, ?_⟩
    · rw [Path.isBelow, List.isPrefixOf_iff_prefix, components]
      exact List.prefix_append _ _
    · rw [Path.isBelow, Bool.eq_false_iff, ne_eq, List.isPrefixOf_iff_prefix, components]
      intro back
      have longer := back.length_le
      rw [List.length_append, List.length_map] at longer
      have some := List.length_pos_iff.mpr filled
      omega
  · rintro ⟨p, probed, q, probed', same⟩
    obtain ⟨extension, listed, rfl⟩ := (mem_candidates_iff r).mp probed
    obtain ⟨extension', listed', rfl⟩ := (mem_candidates_iff r).mp probed'
    rw [Path.components_descend r.root fun s => isName_place listed,
      Path.components_descend r.root fun s => isName_place listed'] at same
    have places := (List.map_inj_right fun _ _ => Component.name.inj).mp
      (List.append_cancel_left same)
    obtain ⟨names, versions, classifiers, groups, -⟩ := (place_inj listed listed').mp places
    exact ⟨names, versions, classifiers, groups⟩
  · rintro ⟨names, versions, classifiers, groups⟩
    have listed : "jar" ∈ extensions := by simp [extensions]
    refine ⟨r.root.descend (place key "jar"), (mem_candidates_iff r).mpr ⟨_, listed, rfl⟩,
      r.root.descend (place key' "jar"), (mem_candidates_iff r).mpr ⟨_, listed, rfl⟩, ?_⟩
    rw [(place_inj listed listed).mpr ⟨names, versions, classifiers, groups, rfl⟩]

/-- Coordinates that are told by their groups. -/
def groupedKey (group : String) (segment : IsSegment group) : ArtifactKey :=
  ⟨group, "n", "7", none, segment, by decide, by decide, unclassified⟩

/-- A repository with one file. -/
def smallTree : Tree :=
  ((((Tree.empty.insert ["m2"] .directory).insert ["m2", "g"] .directory).insert
    ["m2", "g", "n"] .directory).insert ["m2", "g", "n", "7"] .directory).insert
    ["m2", "g", "n", "7", "n-7.aar"] (.file .empty)

/-- A dot at the end of a group leaves no trace in the path of the file, which is found below the root
and is a candidate of the group without the dot as well. -/
theorem dotted_group_found_below_root :
    Repository.find? ⟨⟨"m2"⟩⟩ smallTree (groupedKey "g." (by decide)) = some ⟨"m2/g/n/7/n-7.aar"⟩ ∧
      Path.isBelow ⟨"m2/g/n/7/n-7.aar"⟩ ⟨"m2"⟩ = true ∧
      ∃ p ∈ Repository.candidates ⟨⟨"m2"⟩⟩ (groupedKey "g." (by decide)),
        ∃ q ∈ Repository.candidates ⟨⟨"m2"⟩⟩ (groupedKey "g" (by decide)),
          p.components = q.components := by
  obtain ⟨-, found, shared⟩ := candidates_below_root ⟨⟨"m2"⟩⟩
  have looked : Repository.find? ⟨⟨"m2"⟩⟩ smallTree (groupedKey "g." (by decide)) =
      some ⟨"m2/g/n/7/n-7.aar"⟩ := by decide
  exact ⟨looked, (found _ _ _ looked).2.1, (shared _ _).mpr ⟨rfl, rfl, rfl, by decide⟩⟩

end Repository

end RuleDepot
