import RuleDepot.Coordinate.Artifact
import RuleDepot.Proofs.Cuts
/-!
Coordinates and their texts.  No part of a coordinate holds what is written between parts, so a
coordinate is told by its identity and its version.
-/

namespace RuleDepot

theorem not_mem_of_isSegment {text : String} {c : Char} (segment : IsSegment text)
    (illegal : isIllegal c = true) : c ∉ text.toList := fun member => by
  simp [segment.2.2.2 c member] at illegal

theorem unclassified : ∀ c ∈ (none : Option String), IsSegment c := by simp

namespace ArtifactKey

variable {a b : ArtifactKey}

/-- The module of a coordinate. -/
def module (key : ArtifactKey) : ArtifactModule :=
  ⟨key.group, key.name, key.group_ok, key.name_ok⟩

theorem eq_of_parts (group : a.group = b.group) (name : a.name = b.name)
    (version : a.version = b.version) (classifier : a.classifier = b.classifier) : a = b := by
  cases a
  cases b
  simp_all

private theorem logicalId_toList (key : ArtifactKey) : key.logicalId.toList =
    match key.classifier with
    | none => key.group.toList ++ ':' :: key.name.toList
    | some c => (key.group.toList ++ ':' :: key.name.toList) ++ ':' :: c.toList := by
  unfold logicalId
  split <;> simp_all [toString]

/-- A coordinate is told by its identity and its version. -/
theorem eq_of_logicalId (ids : a.logicalId = b.logicalId) (versions : a.version = b.version) :
    a = b := by
  have colonless {text : String} (segment : IsSegment text) : ':' ∉ text.toList :=
    not_mem_of_isSegment segment (by decide)
  have texts := congrArg String.toList ids
  rw [logicalId_toList, logicalId_toList] at texts
  -- Behind the last colon stands the classifier, or the name when there is none; a name in front
  -- of it would put a colon into the other group.
  cases own : a.classifier with
  | none =>
    cases other : b.classifier with
    | none =>
      simp only [own, other] at texts
      obtain ⟨groups, names⟩ :=
        Text.append_cons_inj (colonless a.name_ok) (colonless b.name_ok) texts
      exact eq_of_parts (String.toList_inj.mp groups) (String.toList_inj.mp names) versions
        (own.trans other.symm)
    | some c =>
      simp only [own, other] at texts
      obtain ⟨groups, -⟩ := Text.append_cons_inj (colonless a.name_ok)
        (colonless (b.classifier_ok c other)) texts
      exact absurd (groups ▸ by simp) (colonless a.group_ok)
  | some c =>
    cases other : b.classifier with
    | none =>
      simp only [own, other] at texts
      obtain ⟨groups, -⟩ := Text.append_cons_inj (colonless (a.classifier_ok c own))
        (colonless b.name_ok) texts
      exact absurd (groups ▸ by simp) (colonless b.group_ok)
    | some c' =>
      simp only [own, other] at texts
      obtain ⟨fronts, classifiers⟩ := Text.append_cons_inj (colonless (a.classifier_ok c own))
        (colonless (b.classifier_ok c' other)) texts
      obtain ⟨groups, names⟩ :=
        Text.append_cons_inj (colonless a.name_ok) (colonless b.name_ok) fronts
      refine eq_of_parts (String.toList_inj.mp groups) (String.toList_inj.mp names) versions ?_
      rw [own, other, String.toList_inj.mp classifiers]

/-- Coordinates of one identity differ in nothing but the version. -/
theorem parts_of_logicalId (ids : a.logicalId = b.logicalId) :
    a.group = b.group ∧ a.name = b.name ∧ a.classifier = b.classifier := by
  have same : a = { b with version := a.version, version_ok := a.version_ok } :=
    eq_of_logicalId ids rfl
  exact ⟨(congrArg group same :), (congrArg name same :), (congrArg classifier same :)⟩

private theorem text_toList (key : ArtifactKey) : key.text.toList =
    match key.classifier with
    | none => (key.group.toList ++ ':' :: key.name.toList) ++ ':' :: key.version.toList
    | some c => ((key.group.toList ++ ':' :: key.name.toList) ++ ':' :: key.version.toList) ++
        ':' :: c.toList := by
  unfold text spell
  split <;> simp_all [toString]

/-- A coordinate is told by its text. -/
theorem eq_of_text (same : a.text = b.text) : a = b := by
  have colonless {text : String} (segment : IsSegment text) : ':' ∉ text.toList :=
    not_mem_of_isSegment segment (by decide)
  have threeParts {a b : ArtifactKey}
      (same : (a.group.toList ++ ':' :: a.name.toList) ++ ':' :: a.version.toList =
        (b.group.toList ++ ':' :: b.name.toList) ++ ':' :: b.version.toList)
      (classifiers : a.classifier = b.classifier) : a = b := by
    obtain ⟨fronts, versions⟩ :=
      Text.append_cons_inj (colonless a.version_ok) (colonless b.version_ok) same
    obtain ⟨groups, names⟩ := Text.append_cons_inj (colonless a.name_ok) (colonless b.name_ok) fronts
    exact eq_of_parts (String.toList_inj.mp groups) (String.toList_inj.mp names)
      (String.toList_inj.mp versions) classifiers
  -- If only one had a classifier, the other's version would stand for it and its group hold a colon.
  have onlyOne {a b : ArtifactKey} {c : String} (segment : IsSegment c)
      (same : (a.group.toList ++ ':' :: a.name.toList) ++ ':' :: a.version.toList =
        ((b.group.toList ++ ':' :: b.name.toList) ++ ':' :: b.version.toList) ++ ':' :: c.toList) :
      False := by
    have fronts := (Text.append_cons_inj (colonless a.version_ok) (colonless segment) same).1
    have groups := (Text.append_cons_inj (colonless a.name_ok) (colonless b.version_ok) fronts).1
    exact absurd (groups ▸ by simp) (colonless a.group_ok)
  have texts := congrArg String.toList same
  rw [text_toList, text_toList] at texts
  cases own : a.classifier with
  | none =>
    cases other : b.classifier with
    | none =>
      simp only [own, other] at texts
      exact threeParts texts (own.trans other.symm)
    | some c =>
      simp only [own, other] at texts
      exact (onlyOne (b.classifier_ok c other) texts).elim
  | some c =>
    cases other : b.classifier with
    | none =>
      simp only [own, other] at texts
      exact (onlyOne (a.classifier_ok c own) texts.symm).elim
    | some c' =>
      simp only [own, other] at texts
      obtain ⟨fronts, classifiers⟩ := Text.append_cons_inj (colonless (a.classifier_ok c own))
        (colonless (b.classifier_ok c' other)) texts
      refine threeParts fronts ?_
      rw [own, other, String.toList_inj.mp classifiers]

end ArtifactKey

end RuleDepot
