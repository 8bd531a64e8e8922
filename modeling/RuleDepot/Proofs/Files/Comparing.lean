import RuleDepot.Proofs.Files.Growth
import RuleDepot.Proofs.Running
/-!
What a comparison of files tells.  Files are compared by their sizes and then by their SHA-256 digests,
so a comparison takes two contents for the same if they are alike in both.  Contents that are alike are
equal, or else they are a collision.
-/

namespace RuleDepot

namespace Digest

variable {x y z : ByteArray}

/-- Two contents of one size and one digest. -/
structure Alike (x y : ByteArray) : Prop where
  size : x.size = y.size
  digest : sha256Hex x = sha256Hex y

/-- Two different contents with one digest. -/
def Collision (x y : ByteArray) : Prop :=
  x ≠ y ∧ sha256Hex x = sha256Hex y

/-- Contents with one digest are equal unless they are a collision. -/
theorem eq_or_collision (same : sha256Hex x = sha256Hex y) : x = y ∨ Collision x y :=
  Classical.or_iff_not_imp_left.mpr fun differ => ⟨differ, same⟩

namespace Alike

instance : Decidable (Alike x y) :=
  decidable_of_iff (x.size = y.size ∧ sha256Hex x = sha256Hex y)
    ⟨fun ⟨size, digest⟩ => ⟨size, digest⟩, fun alike => ⟨alike.size, alike.digest⟩⟩

theorem refl (x : ByteArray) : Alike x x :=
  ⟨rfl, rfl⟩

theorem symm (alike : Alike x y) : Alike y x :=
  ⟨alike.size.symm, alike.digest.symm⟩

theorem trans (first : Alike x y) (second : Alike y z) : Alike x z :=
  ⟨first.size.trans second.size, first.digest.trans second.digest⟩

end Alike

end Digest

namespace Tree

open Digest Running

variable {t u : Tree} {p q : Path} {x y : ByteArray}

private theorem sha256_of_read (read : t.read p = .ok x) : t.sha256 p = .ok (sha256Hex x) := by
  rw [sha256, read]
  rfl

private theorem size_of_read (read : t.read p = .ok x) : t.size p = .ok x.size := by
  rw [size, read_eq_ok_iff.mp read]

/-- Where two files are read, the comparison tells whether they are alike. -/
theorem sameContent_of_read (read : t.read p = .ok x) (read' : t.read q = .ok y) :
    t.sameContent p q = .ok (decide (Alike x y)) := by
  rw [sameContent, size_of_read read, size_of_read read', sha256_of_read read, sha256_of_read read']
  simp only [bind, Except.bind, pure, Except.pure]
  split
  · rename_i sizes
    have differ : ¬ Alike x y := fun alike => sizes alike.size
    rw [decide_eq_false differ]
  · rename_i sizes
    have same : sha256Hex x = sha256Hex y ↔ Alike x y :=
      ⟨fun digest => ⟨Decidable.not_not.mp sizes, digest⟩, Alike.digest⟩
    simp only [same]

/-- Only files are taken for the same. -/
theorem alike_of_sameContent (same : t.sameContent p q = .ok true) :
    ∃ x y, t.read p = .ok x ∧ t.read q = .ok y ∧ Alike x y := by
  obtain ⟨size, -, rest⟩ := ok_of_bind same
  obtain ⟨size', -, rest⟩ := ok_of_bind rest
  split at rest
  · cases rest
  · obtain ⟨digest, told, rest⟩ := ok_of_bind rest
    obtain ⟨digest', told', -⟩ := ok_of_bind rest
    obtain ⟨x, read, -⟩ := ok_of_bind told
    obtain ⟨y, read', -⟩ := ok_of_bind told'
    rw [sameContent_of_read read read'] at same
    exact ⟨x, y, read, read', of_decide_eq_true (Except.ok.inj same)⟩

/-- Files that are told apart are not alike. -/
theorem not_alike_of_sameContent (differs : t.sameContent p q = .ok false) (read : t.read p = .ok x)
    (read' : t.read q = .ok y) : ¬ Alike x y := by
  rw [sameContent_of_read read read'] at differs
  exact of_decide_eq_false (Except.ok.inj differs)

/-- What can be compared with a file is there. -/
theorem reaches_of_sameContent {same : Bool} (compared : t.sameContent p q = .ok same) :
    t.reaches q = true := by
  obtain ⟨_, -, rest⟩ := ok_of_bind compared
  obtain ⟨size, sized, -⟩ := ok_of_bind rest
  rw [reaches_iff]
  cases status : t.status q with
  | ok node => exact ⟨node, rfl⟩
  | error kind => simp [Tree.size, status] at sized

end Tree

end RuleDepot
