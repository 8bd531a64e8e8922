import RuleDepot.Config.Reader
import RuleDepot.Generation.Basic
import RuleDepot.Proofs.PathPieces
/-!
Where the shelves are.  In a configuration that is accepted every shelf has a directory of its own
below the root of the cache, and no shelf is listed twice; so what two shelves hold stands in
different places.
-/

namespace RuleDepot

namespace Shelf

variable {a b shelf : Shelf} {t : Tree} {root : Path} {name : String}

/-- The directories from the root of the cache down to that of a shelf. -/
def trail : Shelf → List String
  | extra name => ["extra", name]
  | shelf => [shelf.dirName]

theorem trail_inj (same : a.trail = b.trail) : a = b := by
  cases a <;> cases b <;> simp [trail, dirName] at same ⊢
  case runtime.runtime l l' => cases l <;> cases l' <;> simp [Language.text] at same ⊢
  case extra.extra => exact same
  all_goals
    rename_i l
    cases l <;> simp [Language.text] at same

/-- A shelf whose directories have good names. -/
def IsNamed (shelf : Shelf) : Prop :=
  ∀ piece ∈ shelf.trail, Path.IsName piece

/-- Only a shelf that the configuration names can have a bad name. -/
theorem isNamed_of_extra (named : ∀ name, shelf = extra name → Path.IsName name) :
    shelf.IsNamed := by
  intro piece member
  cases shelf with
  | runtime language =>
    obtain rfl := List.mem_singleton.mp member
    cases language <;> exact ⟨by decide, by decide, by decide, by decide⟩
  | extra name =>
    rcases List.mem_cons.mp member with rfl | member
    · exact ⟨by decide, by decide, by decide, by decide⟩
    · exact List.mem_singleton.mp member ▸ named name rfl
  | _ =>
    obtain rfl := List.mem_singleton.mp member
    exact ⟨by decide, by decide, by decide, by decide⟩

/-- The directory of a shelf that the configuration names is in that of all of them. -/
theorem join_extra (root : Path) (named : Path.IsName name) :
    root / (extra name).dirName = root / "extra" / name := by
  have ends : "extra".toList.getLast? = some 'a' := by decide
  have text : (extra name).dirName = "extra" ++ "/" ++ name := by
    simp [dirName, toString]
  rw [text]
  exact Path.join_append root (by decide) ends (by decide) named.relative

/-- The directory of a shelf is reached through its trail. -/
theorem directory_of_isNamed (root : Path) (named : shelf.IsNamed) :
    (root / shelf.dirName).isAbsolute = root.isAbsolute ∧
      ∀ t : Tree, t.lexical (root / shelf.dirName) = t.lexical root ++ shelf.trail := by
  cases shelf with
  | extra name =>
    have first : Path.IsName "extra" := named "extra" List.mem_cons_self
    have second : Path.IsName name := named name (by simp [trail])
    rw [join_extra root second, (Path.pieces_join _ second).1, (Path.pieces_join _ first).1]
    refine ⟨rfl, fun t => ?_⟩
    rw [Tree.lexical_join t second, Tree.lexical_join t first]
    simp [trail]
  | _ =>
    have own := named _ List.mem_cons_self
    exact ⟨(Path.pieces_join root own).1, fun t => Tree.lexical_join t own⟩

/-- Shelves with good names can be told by their directories. -/
theorem dirName_inj (named : a.IsNamed) (named' : b.IsNamed) (same : a.dirName = b.dirName) :
    a = b := by
  have trails := (directory_of_isNamed ⟨"/"⟩ named).2 Tree.empty
  rw [same, (directory_of_isNamed ⟨"/"⟩ named').2] at trails
  exact trail_inj (List.append_cancel_left trails).symm

/-- Files of different names or on different shelves stand in different places. -/
theorem lexical_ne (root : Path) (named : a.IsNamed) (named' : b.IsNamed) {other : String}
    (good : Path.IsName name) (good' : Path.IsName other) (differ : a = b → name ≠ other) (t : Tree) :
    t.lexical (root / a.dirName / name) ≠ t.lexical (root / b.dirName / other) := by
  rw [Tree.lexical_join t good, Tree.lexical_join t good', (directory_of_isNamed root named).2,
    (directory_of_isNamed root named').2]
  intro same
  obtain ⟨trails, names⟩ := List.append_inj' same rfl
  exact differ (trail_inj (List.append_cancel_left trails)) (by simpa using names)

end Shelf

namespace Config

variable {config : Config}

/-- Shelves that the configuration names have good names once it is accepted. -/
theorem isNamed_of_check (accepted : config.check = .ok config) :
    ∀ shelf ∈ config.shelves, shelf.IsNamed := by
  intro shelf member
  refine Shelf.isNamed_of_extra fun name same => ?_
  have listed : name ∈ config.extraCaches.keys := by
    rw [same] at member
    simpa [shelves] using member
  unfold check at accepted
  split at accepted
  · cases accepted
  split at accepted
  · cases accepted
  · rename_i none
    have good := List.find?_eq_none.mp none name listed
    simp [isDirectoryName] at good
    exact ⟨good.1.1.1, good.1.2, good.2, fun slash => (good.1.1.2 '/' slash).1 rfl⟩

theorem nodup_shelves (config : Config) : config.shelves.Nodup := by
  have built : ([.external, .processor, .lint] ++ Language.all.map .runtime ++
      [.transform, .robolectric, .tool] : List Shelf).Nodup := by decide
  have extras : (config.extraCaches.keys.map Shelf.extra).Nodup := by
    have keys : config.extraCaches.keys.Nodup := Std.ExtTreeMap.nodup_keys
    exact List.Pairwise.map _ (fun a b differ same => differ (Shelf.extra.inj same)) keys
  refine List.nodup_append.mpr ⟨built, extras, fun a member b member' same => ?_⟩
  obtain ⟨name, -, rfl⟩ := List.mem_map.mp member'
  rw [same] at member
  simp [Language.all] at member

@[simp] theorem shelf_duty (config : Config) (shelf : Shelf) : (config.duty shelf).shelf = shelf := by
  cases shelf <;> rfl

end Config

end RuleDepot
