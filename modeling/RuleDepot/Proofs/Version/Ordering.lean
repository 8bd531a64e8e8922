import RuleDepot.Version.Order
/-!
How far the order of version texts is one.  Semantic versions are ordered, and so are lists of
segments; but `order` chooses between the two ways for every pair anew.  Turning a pair around always
turns the answer around.  The order can be followed from one version over a second to a third as long
as all of them are compared in one way; a pre-release next to a qualifier shows that else it may run
in a circle.
-/

namespace RuleDepot

open Std

/-- A comparison of things of two kinds, those of the first kind being before all others. -/
def compareKinds {α : Type} (isFirst : α → Bool) (first second : α → α → Ordering) (a b : α) :
    Ordering :=
  match isFirst a, isFirst b with
  | true, true => first a b
  | true, false => .lt
  | false, true => .gt
  | false, false => second a b

section Kinds

variable {α : Type} (isFirst : α → Bool) (first second : α → α → Ordering)

instance [OrientedCmp first] [OrientedCmp second] :
    OrientedCmp (compareKinds isFirst first second) where
  eq_swap {a b} := by
    cases kind : isFirst a <;> cases kind' : isFirst b <;> simp only [compareKinds, kind, kind']
    · exact OrientedCmp.eq_swap
    · rfl
    · rfl
    · exact OrientedCmp.eq_swap

instance [TransCmp first] [TransCmp second] : TransCmp (compareKinds isFirst first second) where
  isLE_trans {a b c} below below' := by
    cases kind : isFirst a <;> cases kind' : isFirst b <;> cases kind'' : isFirst c <;>
      simp only [compareKinds, kind, kind', kind''] at below below' ⊢
    case false.false.false => exact TransCmp.isLE_trans below below'
    case true.true.true => exact TransCmp.isLE_trans below below'
    all_goals first | rfl | contradiction

end Kinds

/-- A comparison of things by what they are taken for. -/
def compareThrough {α β : Type} (f : α → β) (cmp : β → β → Ordering) (a b : α) : Ordering :=
  cmp (f a) (f b)

instance {α β : Type} (f : α → β) (cmp : β → β → Ordering) [TransCmp cmp] :
    TransCmp (compareThrough f cmp) where
  eq_swap {a b} := (OrientedCmp.eq_swap : cmp (f a) (f b) = _)
  isLE_trans {a b c} := (TransCmp.isLE_trans : (cmp (f a) (f b)).isLE → (cmp (f b) (f c)).isLE → _)

namespace SemVer

variable {part : List Char → List Char → Ordering}

private theorem compareParts_eq (part : List Char → List Char → Ordering) :
    compareParts part = List.compareLex part := by
  funext a b
  induction a generalizing b with
  | nil => cases b <;> rfl
  | cons x rest ih =>
    cases b with
    | nil => rfl
    | cons y rest' =>
      rw [compareParts, List.compareLex, ih]
      cases part x y <;> rfl

instance [TransCmp part] : TransCmp (compareParts part) := by
  rw [compareParts_eq]
  infer_instance

instance : TransCmp compareDigits :=
  inferInstanceAs (TransCmp (compareLex (compareOn List.length) compare))

instance : TransCmp comparePrePart :=
  inferInstanceAs (TransCmp (compareKinds (·.all Text.isDigit) compareDigits compare))

/-- Digits without the zeros in front. -/
def significant (digits : List Char) : List Char :=
  digits.dropWhile (· == '0')

instance : TransCmp compareBuildPart :=
  inferInstanceAs (TransCmp (compareKinds (·.all Text.isDigit)
    (compareLex (compareThrough significant compareDigits) (compareOn List.length)) compare))

/-- The identifiers between the dots of a pre-release or of build metadata. -/
def identifiers (s : String) : List (List Char) :=
  Text.splitChars (· == '.') s.toList

private theorem comparePre_eq : comparePre = compareKinds (fun s => !s.isEmpty)
    (compareThrough identifiers (compareParts comparePrePart)) (compareOn fun _ => 0) := by
  funext a b
  cases none : a.isEmpty <;> cases none' : b.isEmpty <;>
    simp only [comparePre, compareKinds, none, none'] <;> rfl

instance : TransCmp comparePre := by
  rw [comparePre_eq]
  infer_instance

instance : TransCmp compareBuild :=
  inferInstanceAs (TransCmp (compareThrough identifiers (compareParts compareBuildPart)))

/-- Semantic versions are ordered. -/
instance : TransCmp order :=
  inferInstanceAs (TransCmp (compareLex (compareOn major) (compareLex (compareOn minor)
    (compareLex (compareOn patch) (compareLex (compareThrough pre comparePre)
      (compareThrough build compareBuild))))))

end SemVer

namespace Version

/-- The value of a segment that is a number. -/
def value (segment : List Char) : Nat :=
  (Text.readWord segment).getD 0

private theorem compareSegment_eq : compareSegment =
    compareKinds (fun s => (Text.readWord s).isNone) compare (compareOn value) := by
  funext a b
  cases read : Text.readWord a <;> cases read' : Text.readWord b <;>
    simp only [compareSegment, compareKinds, compareOn, value, read, read'] <;> rfl

instance : TransCmp compareSegment := by
  rw [compareSegment_eq]
  infer_instance

/-- The segments of a version. -/
def segments (version : String) : List (List Char) :=
  Text.splitChars isSeparator version.toList

/-- Versions are ordered by their segments. -/
instance : TransCmp compareSegments :=
  inferInstanceAs (TransCmp (compareThrough segments (SemVer.compareParts compareSegment)))

/-- A version that can be read as a semantic one. -/
def IsSemantic (version : String) : Prop :=
  (lenient? version).isSome = true

instance (version : String) : Decidable (IsSemantic version) :=
  inferInstanceAs (Decidable (_ = true))

private theorem order_of_not_semantic {a b : String} (other : ¬ IsSemantic a ∨ ¬ IsSemantic b) :
    order a b = compareSegments a b := by
  unfold order
  unfold IsSemantic at other
  cases read : lenient? a <;> cases read' : lenient? b <;> simp_all

/-- The order of versions that can all be read as semantic ones. -/
def compareSemantic : String → String → Ordering :=
  compareLex (compareThrough (fun s => (lenient? s).getD ⟨0, 0, 0, "", ""⟩) SemVer.order) compare

instance : TransCmp compareSemantic :=
  inferInstanceAs (TransCmp (compareLex _ _))

private theorem order_of_semantic {a b : String} (semantic : IsSemantic a) (semantic' : IsSemantic b) :
    order a b = compareSemantic a b := by
  obtain ⟨v, read⟩ := Option.isSome_iff_exists.mp semantic
  obtain ⟨w, read'⟩ := Option.isSome_iff_exists.mp semantic'
  simp only [order, read, read', compareSemantic, compareLex, compareThrough, Option.getD_some]

/-- Turning a pair of versions around turns the answer around. -/
theorem order_swap (a b : String) : order b a = (order a b).swap := by
  by_cases semantic : IsSemantic a ∧ IsSemantic b
  · rw [order_of_semantic semantic.1 semantic.2, order_of_semantic semantic.2 semantic.1]
    exact OrientedCmp.eq_swap
  · have other := Decidable.not_and_iff_not_or_not.mp semantic
    rw [order_of_not_semantic other, order_of_not_semantic other.symm]
    exact OrientedCmp.eq_swap

/-- Versions of which all pairs are compared in one way: as semantic versions, or by segments. -/
def Uniform (a b c : String) : Prop :=
  (IsSemantic a ∧ IsSemantic b ∧ IsSemantic c) ∨
    (¬ IsSemantic a ∧ ¬ IsSemantic b) ∨ (¬ IsSemantic a ∧ ¬ IsSemantic c) ∨
      (¬ IsSemantic b ∧ ¬ IsSemantic c)

instance (a b c : String) : Decidable (Uniform a b c) :=
  inferInstanceAs (Decidable (_ ∨ _))

theorem order_trans {a b c : String} (uniform : Uniform a b c) (below : order a b ≠ .gt)
    (below' : order b c ≠ .gt) : order a c ≠ .gt := by
  replace below := Ordering.isLE_iff_ne_gt.mpr below
  replace below' := Ordering.isLE_iff_ne_gt.mpr below'
  refine Ordering.isLE_iff_ne_gt.mp ?_
  rcases uniform with ⟨first, second, third⟩ | other
  · rw [order_of_semantic first second] at below
    rw [order_of_semantic second third] at below'
    rw [order_of_semantic first third]
    exact TransCmp.isLE_trans below below'
  · -- Two of three are read as segments, so every pair holds one of them.
    rw [order_of_not_semantic (by grind)] at below below' ⊢
    exact TransCmp.isLE_trans below below'

/-- **The order of versions is one as long as they are compared in one way.**  Turning any pair of
versions around turns the answer around, and of three versions the first is not later than the last
if neither step leads to an earlier one and all three pairs are compared alike. -/
theorem uniform_versions_are_ordered (a b c : String) :
    order b a = (order a b).swap ∧
      (Uniform a b c → order a b ≠ .gt → order b c ≠ .gt → order a c ≠ .gt) :=
  ⟨order_swap a b, order_trans⟩

theorem short_versions_are_ordered :
    order "1.10" "1.9" = (order "1.9" "1.10").swap ∧ Uniform "1.9" "1.10" "1.10.1" ∧
      order "1.9" "1.10.1" ≠ .gt := by
  obtain ⟨swapped, follows⟩ := uniform_versions_are_ordered "1.9" "1.10" "1.10.1"
  have uniform : Uniform "1.9" "1.10" "1.10.1" := by decide
  exact ⟨swapped, uniform, follows uniform (by decide) (by decide)⟩

/-- The order runs in a circle: by its segments a qualifier is later than the version and earlier than
a pre-release, but the pre-release is earlier than the version. -/
theorem order_runs_in_a_circle :
    order "1.0" "1.0.Final" = .lt ∧ order "1.0.Final" "1.0-rc" = .lt ∧
      order "1.0-rc" "1.0" = .lt := by
  decide

end Version

end RuleDepot
