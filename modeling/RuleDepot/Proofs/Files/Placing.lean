import Mathlib.Data.List.Infix
import RuleDepot.Proofs.Files.Passing
/-!
Changes of the files by others.  A file or a directory is put at a location together with the directories
above it, or a location is cleared with everything below it.  Of two trees, one keeps what it has more than
the other, as long as nothing else is put there.
-/

namespace RuleDepot.Tree

variable {t u v : Tree} {place other dir : Location} {dirs : List Location} {node : Node}
  {new : Location → Node → Prop}

/-- Makes directories where nothing stands. -/
def furnish (t : Tree) (dirs : List Location) : Tree :=
  dirs.foldl (fun t dir => if t.node? dir = none then t.insert dir .directory else t) t

/-- Whether a node can be put at a location: it does not take the place of a node of another kind, and no
file is in the way. -/
def Admits (t : Tree) (place : Location) (node : Node) : Prop :=
  place ≠ [] ∧ (∀ dir ∈ place.dropLast.inits, (t.node? dir).getD .directory = .directory) ∧
    (t.node? place = none ∨ (t.node? place = some .directory ↔ node = .directory))

instance (t : Tree) (place : Location) (node : Node) : Decidable (t.Admits place node) :=
  inferInstanceAs (Decidable (_ ∧ _ ∧ _))

/-- Puts a node at a location, and directories above it where they are missing, if the location can have
it. -/
def put (t : Tree) (place : Location) (node : Node) : Tree :=
  if t.Admits place node then (t.furnish place.dropLast.inits).insert place node else t

@[simp] theorem workingDir_furnish (t : Tree) (dirs : List Location) :
    (t.furnish dirs).workingDir = t.workingDir := by
  induction dirs generalizing t with
  | nil => rfl
  | cons dir dirs ih =>
    rw [furnish, List.foldl_cons]
    refine (ih _).trans ?_
    split <;> rfl

private theorem node?_furnish (t : Tree) (dirs : List Location) (other : Location) :
    (t.furnish dirs).node? other =
      if other ∈ dirs ∧ t.node? other = none then some .directory else t.node? other := by
  induction dirs generalizing t with
  | nil => simp [furnish]
  | cons dir dirs ih =>
    rw [furnish, List.foldl_cons]
    refine (ih _).trans ?_
    by_cases absent : t.node? dir = none
    · have named : dir ≠ [] := fun top => by simp [node?, top] at absent
      simp only [absent, if_true, node?_insert named]
      by_cases same : other = dir
      · simp [same, absent]
      · simp [same]
    · simp only [absent, if_false]
      by_cases same : other = dir
      · simp [same, absent]
      · simp [same]

theorem workingDir_put (t : Tree) (place : Location) (node : Node) :
    (t.put place node).workingDir = t.workingDir := by
  unfold put
  split
  · exact workingDir_furnish t _
  · rfl

/-- What stands where after a node was put. -/
theorem node?_put (admits : t.Admits place node) (other : Location) :
    (t.put place node).node? other = if other = place then some node
      else if other <+: place.dropLast ∧ t.node? other = none then some .directory
      else t.node? other := by
  rw [put, if_pos admits, node?_insert admits.1, node?_furnish]
  simp only [List.mem_inits]

/-- Above a location that can have a node, there are directories after it was put. -/
theorem directory_of_put (admits : t.Admits place node) (above : other <+: place.dropLast) :
    (t.put place node).node? other = some .directory := by
  have shorter : other ≠ place := fun same => by
    have bound := above.length_le
    have filled := List.length_pos_iff.mpr admits.1
    rw [same, List.length_dropLast] at bound
    omega
  rw [node?_put admits, if_neg shorter]
  split
  · rfl
  · rename_i present
    have clear := admits.2.1 other (List.mem_inits _ _ |>.mpr above)
    cases held : t.node? other with
    | none => exact absurd ⟨above, held⟩ present
    | some former => simpa [held] using clear

theorem Rooted.put (rooted : t.Rooted) (place : Location) (node : Node) :
    (t.put place node).Rooted := by
  intro other found held
  by_cases admits : t.Admits place node
  · rw [node?_put admits] at held
    split at held
    · rename_i same
      rw [same]
      exact directory_of_put admits List.prefix_rfl
    · split at held
      · rename_i above
        exact directory_of_put admits ((List.dropLast_prefix other).trans above.1)
      · have former := rooted held
        rw [node?_put admits]
        split
        · rename_i same
          obtain absent | kind := admits.2.2
          · simp [same, absent] at former
          · rw [kind.mp (same ▸ former)]
        · split
          · rfl
          · exact former
  · rw [Tree.put, if_neg admits] at held ⊢
    exact rooted held

/-- A location can have a node exactly if it can in a tree that has more, if only directories around
there. -/
theorem Grown.admits_iff (grown : Grown new u v)
    (above : ∀ dir, dir <+: place.dropLast → ∀ {found}, new dir found → found = .directory)
    (own : ∀ {found}, new place found → found = .directory ∧ node = .directory) :
    v.Admits place node ↔ u.Admits place node := by
  have clear : ∀ dir ∈ place.dropLast.inits, ((v.node? dir).getD .directory = .directory ↔
      (u.node? dir).getD .directory = .directory) := by
    intro dir member
    cases held : u.node? dir with
    | some former => rw [grown.kept held]
    | none =>
      cases held' : v.node? dir with
      | none => rfl
      | some found =>
        simp [above dir ((List.mem_inits _ _).mp member) (grown.fresh held' held)]
  have kind : (v.node? place = none ∨ (v.node? place = some .directory ↔ node = .directory)) ↔
      (u.node? place = none ∨ (u.node? place = some .directory ↔ node = .directory)) := by
    cases held : u.node? place with
    | some former => rw [grown.kept held]
    | none =>
      cases held' : v.node? place with
      | none => rfl
      | some found =>
        obtain ⟨rfl, rfl⟩ := own (grown.fresh held' held)
        simp
  unfold Admits
  rw [kind]
  refine and_congr_right fun _ => and_congr_left fun _ => ?_
  exact forall₂_congr clear

/-- What one tree has more than another, it has at most after directories were made in both, if there are
only directories among that where they are made. -/
theorem Grown.furnish (grown : Grown new u v)
    (fits : ∀ dir ∈ dirs, ∀ {found}, new dir found → found = .directory) :
    Grown new (u.furnish dirs) (v.furnish dirs) where
  workingDir := by rw [workingDir_furnish, workingDir_furnish, grown.workingDir]
  kept {other former} held := by
    rw [node?_furnish] at held ⊢
    split at held
    · rename_i made
      obtain ⟨member, absent⟩ := made
      cases there : v.node? other with
      | none => rwa [if_pos ⟨member, rfl⟩]
      | some found => rw [if_neg (by simp), ← held, fits other member (grown.fresh there absent)]
    · rw [grown.kept held, if_neg (by simp)]
  fresh {other found} held absent := by
    rw [node?_furnish] at held absent
    split at absent
    · cases absent
    · rename_i unmade
      rw [absent] at unmade
      rw [if_neg fun made => unmade ⟨made.1, rfl⟩] at held
      exact grown.fresh held absent

/-- What one tree has more than another, it has at most after a node was put in both, if there are only
directories among that around the place of the node. -/
theorem Grown.put (grown : Grown new u v)
    (above : ∀ dir, dir <+: place.dropLast → ∀ {found}, new dir found → found = .directory)
    (own : ∀ {found}, new place found → found = .directory ∧ node = .directory) :
    Grown new (u.put place node) (v.put place node) := by
  have same := grown.admits_iff above own
  by_cases admits : u.Admits place node
  · rw [Tree.put, Tree.put, if_pos admits, if_pos (same.mpr admits)]
    have furnished := grown.furnish fun dir member => above dir ((List.mem_inits _ _).mp member)
    exact furnished.insert admits.1 node
  · rwa [Tree.put, Tree.put, if_neg admits, if_neg fun admits' => admits (same.mp admits')]

/-- What stands where after a location was cleared. -/
theorem node?_cleared (t : Tree) (place other : Location) :
    (t.erase place).node? other = if other ≠ [] ∧ place <+: other then none else t.node? other := by
  by_cases below : place <+: other
  · by_cases top : other = []
    · simp [top, node?]
    · simp [node?, top, below, erase, Std.ExtTreeMap.getElem?_filter]
  · rw [node?_erase below, if_neg fun inside => below inside.2]

theorem Rooted.cleared (rooted : t.Rooted) (place : Location) : (t.erase place).Rooted := by
  intro other found held
  rw [node?_cleared] at held ⊢
  split at held
  · cases held
  · rename_i outside
    rw [if_neg]
    · exact rooted held
    · rintro ⟨named, below⟩
      refine outside ⟨?_, below.trans (List.dropLast_prefix other)⟩
      rintro rfl
      exact named rfl

/-- What one tree has more than another, it has at most after a location was cleared in both. -/
theorem Grown.cleared (grown : Grown new u v) (place : Location) :
    Grown new (u.erase place) (v.erase place) := by
  refine ⟨grown.workingDir, fun {other found} held => ?_, fun {other found} held absent => ?_⟩
  · rw [node?_cleared] at held ⊢
    split at held
    · cases held
    · rename_i outside
      rw [if_neg outside]
      exact grown.kept held
  · rw [node?_cleared] at held absent
    split at held
    · cases held
    · rename_i outside
      rw [if_neg outside] at absent
      exact grown.fresh held absent

end RuleDepot.Tree
