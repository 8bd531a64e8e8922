import RuleDepot.Proofs.Collector.RuleLists
/-!
What the rules for files stand for.  A rule names a file next to it, and that file holds the bytes of
the source that its coordinate was resolved to, whether it was copied now or was left there by an
earlier pass.  A file is given to an artifact for its digest, so it can hold something else only if there
is a collision: of what it holds with what the source holds, or of two coordinates.
-/

namespace RuleDepot

open Running

variable {duty : Duty} {scopes : List Scope} {plan : Plan} {entries : List CacheEntry}
  {e : CacheEntry} {r : Resolver} {t t' middle final : Tree} {cache : Cache} {a : Artifact}
  {stages : List Tree}

/-- A file was read to bind a coordinate, and the digest is that of its bytes or of the coordinate. -/
theorem Resolver.Binds.spec (binds : r.Binds t a) : ∃ bytes, t.read a.source = .ok bytes ∧
    a.hash = match r.hashMode with
      | .content => ⟨Digest.sha256Hex bytes⟩
      | .coordinate => .ofCoordinate a.key := by
  obtain ⟨found, -, bound⟩ := Resolver.resolve_eq_ok_iff.mp binds
  unfold Artifact.bind at bound
  split at bound
  · cases bound
  · rename_i present
    obtain ⟨bytes, status⟩ := Tree.isFile_iff.mp (by simpa using present)
    have read := Tree.read_eq_ok_iff.mpr status
    cases mode : r.hashMode with
    | coordinate =>
      rw [mode] at bound
      have same := Except.ok.inj bound
      exact ⟨bytes, by rw [← same]; exact read, by rw [← same]⟩
    | content =>
      have digest : t.sha256 (r.placeOf found) = .ok (Digest.sha256Hex bytes) := by
        rw [Tree.sha256, read]
        rfl
      rw [mode, digest] at bound
      have same := Except.ok.inj bound
      exact ⟨bytes, by rw [← same]; exact read, by rw [← same]⟩

/-- An artifact is taken for something else of the same digest: the contents of its source for those of a
file, or its coordinate for another one that is fetched with it. -/
def Artifact.Mistaken (a : Artifact) (entries : List CacheEntry) (content bytes : ByteArray) : Prop :=
  Digest.Collision bytes content ∨
    ∃ e ∈ entries, Digest.Collision e.key.text.toUTF8 a.key.text.toUTF8

/-- Sources that were resolved at some stage of a pass, and are the same at all of them and in the
end. -/
structure Sourced (r : Resolver) (stages : List Tree) (final : Tree) (entries : List CacheEntry) :
    Prop where
  resolved : ∀ e ∈ entries, ∃ s ∈ stages, r.Binds s e.artifact
  unchanged : ∀ e ∈ entries, ∀ s ∈ stages, s.read e.artifact.source = final.read e.artifact.source

/-- What is served was resolved by the collector or for one of the scopes. -/
theorem Served.resolved (served : Served duty scopes r t plan entries cache middle)
    (here : t ∈ stages) (bound : ∀ scope ∈ scopes, ∃ s ∈ stages, scope.Bound r s) :
    ∀ e ∈ entries, ∃ s ∈ stages, r.Binds s e.artifact := by
  intro e member
  obtain ⟨f, asked, same⟩ := served.artifacts e member
  rw [same]
  rcases (Duty.plan_sound served.planned).sourced f asked with binds | ⟨scope, shown, inside⟩
  · exact ⟨t, here, binds⟩
  · obtain ⟨s, stage, binds⟩ := bound scope shown
    exact ⟨s, stage, binds f.1 inside⟩

/-- The file of an entry holds the bytes of its source, unless the entry is mistaken. -/
theorem Served.backed (served : Served duty scopes r t plan entries cache middle)
    (here : t ∈ stages) (sourced : Sourced r stages final entries)
    (member : e ∈ entries) (stored : e.materialized = true) :
    ∃ bytes content, middle.read (cache.root / e.fileName) = .ok bytes ∧
      final.read e.artifact.source = .ok content ∧
      (bytes = content ∨ e.artifact.Mistaken entries content bytes) := by
  have known : ∀ e ∈ entries, ∃ bytes, middle.read e.artifact.source = .ok bytes ∧
      final.read e.artifact.source = .ok bytes ∧
      e.artifact.hash = match r.hashMode with
        | .content => ⟨Digest.sha256Hex bytes⟩
        | .coordinate => .ofCoordinate e.key := by
    intro e member
    obtain ⟨s, stage, binds⟩ := sourced.resolved e member
    obtain ⟨bytes, read, hash⟩ := binds.spec
    have last : final.read e.artifact.source = .ok bytes :=
      (sourced.unchanged e member s stage).symm.trans read
    have found := (sourced.unchanged e member t here).trans last
    exact ⟨bytes, served.grown.read found, last, hash⟩
  obtain ⟨o, inside, owns⟩ := served.exists_owner member stored
  obtain ⟨bytes, former, file, source, alike⟩ := owns.backed
  obtain ⟨content', read', -, hash'⟩ := known o inside
  obtain ⟨content, read, last, hash⟩ := known e member
  obtain rfl : content' = former := Except.ok.inj (read'.symm.trans source)
  refine ⟨bytes, content, owns.name ▸ Tree.read_eq_ok_iff.mpr file, last, ?_⟩
  by_cases own : o = e
  · subst own
    obtain rfl : content' = content := Except.ok.inj (read'.symm.trans read)
    exact (Digest.eq_or_collision alike.digest).imp_right Or.inl
  -- The file was put there for another entry, and was given to this one for its digest.
  have digests := hash'.symm.trans (owns.hash.trans hash)
  cases mode : r.hashMode with
  | content =>
    rw [mode] at digests
    have same : Digest.sha256Hex content' = Digest.sha256Hex content := congrArg ContentHash.digits digests
    exact (Digest.eq_or_collision (alike.digest.trans same)).imp_right Or.inl
  | coordinate =>
    rw [mode] at digests
    have differ : o.key.text.toUTF8 ≠ e.key.text.toUTF8 := fun same =>
      own (served.tidy.single o inside e member (ArtifactKey.eq_of_text (String.toByteArray_inj.mp same)))
    exact Or.inr (Or.inr ⟨o, inside, differ, congrArg ContentHash.digits digests⟩)

/-- A rule that stands for a file in a directory, which holds the bytes of what the coordinate of the
rule was resolved to, unless that was mistaken. -/
def Rule.StandsFor (rule : Rule) (root : Path) (t : Tree) (entries : List CacheEntry)
    (resolved : Artifact → Prop) : Prop :=
  ∃ a name bytes content, resolved a ∧ rule.coordinates? = some (.text a.key.text) ∧
    rule.file? = some (.text name) ∧ Path.IsName name ∧
    t.status (root / name) = .ok (.file bytes) ∧ t.read a.source = .ok content ∧
    (bytes = content ∨ a.Mistaken entries content bytes)

namespace Collector

variable {c c' : Collector} {cacheRoot : Path} {report : CollectorReport}

/-- Writing rules leaves the files of the cache alone: there is no dash in the name of a rule file. -/
theorem Writes.keeps_candidate {root : Path} {rules : List Rule} {file : Option Path} {name : String}
    {content : ByteArray} (writes : Writes (root / Cache.ruleFileName) rules t file t')
    (digest : a.hash.IsDigest) (candidate : name ∈ Naming.candidates a)
    (read : t.read (root / name) = .ok content) : t'.read (root / name) = .ok content := by
  obtain ⟨named, dash⟩ := Naming.isName_candidate digest candidate
  have differ : name ≠ Cache.ruleFileName := fun same =>
    absurd (same ▸ dash) (show '-' ∉ Cache.ruleFileName.toList by decide)
  exact writes.keeps.sibling Cache.isName_ruleFileName named differ read

/-- What a collector reports is about its own shelf. -/
theorem shelf_of_finalize (shown : scopes.foldlM register (new duty cacheRoot r) = .ok c)
    (ran : finalize (c, t) = .ok report (c', t')) : report.shelf = duty.shelf := by
  obtain rfl : (new duty cacheRoot r).shown scopes = c :=
    Except.ok.inj ((register_foldlM rfl scopes).symm.trans shown)
  exact (finalized_of_ok rfl ran).shelf

/-- What a collector leaves behind: files that are not its rule file stay what they are. -/
theorem keeps_of_finalize (digests : ∀ scope ∈ scopes, scope.Digested)
    (shown : scopes.foldlM register (new duty cacheRoot r) = .ok c)
    (ran : finalize (c, t) = .ok report (c', t')) :
    t.Keeps (cacheRoot / duty.shelf.dirName / Cache.ruleFileName) t' := by
  rcases served_of_finalize digests shown ran with
    ⟨-, -, writes⟩ | ⟨plan, cache, middle, served, -, -, writes⟩
  · exact writes.keeps
  · exact (served.grown.keeps _).trans writes.keeps

/-- The rules that a collector writes stand for files, in whatever
becomes of the files afterwards as long as those of the collector stay. -/
theorem rules_stand (shown : scopes.foldlM register (new duty cacheRoot r) = .ok c)
    (ran : finalize (c, t) = .ok report (c', t')) (here : t ∈ stages)
    (bound : ∀ scope ∈ scopes, ∃ s ∈ stages, scope.Bound r s)
    (unchanged : ∀ e ∈ report.entries, ∀ s ∈ stages,
      s.read e.artifact.source = final.read e.artifact.source)
    (stays : ∀ name content, Path.IsName name → (name = Cache.ruleFileName ∨ '-' ∈ name.toList) →
      t'.read (cacheRoot / duty.shelf.dirName / name) = .ok content →
      final.read (cacheRoot / duty.shelf.dirName / name) = .ok content) :
    ∃ rules, report.Emits (cacheRoot / duty.shelf.dirName) final rules ∧
      ∀ rule ∈ rules, rule.isPrebuilt = true →
        rule.StandsFor (cacheRoot / duty.shelf.dirName) final report.entries
          (fun a => ∃ s ∈ stages, r.Binds s a) := by
  have digests : ∀ scope ∈ scopes, scope.Digested := fun scope member =>
    (bound scope member).elim fun s found => found.2.digested
  have last {rules : List Rule} (emits : report.Emits (cacheRoot / duty.shelf.dirName) t' rules) :
      report.Emits (cacheRoot / duty.shelf.dirName) final rules :=
    emits.stays fun content => stays _ content Cache.isName_ruleFileName (Or.inl rfl)
  rcases served_of_finalize digests shown ran with
    ⟨-, -, writes⟩ | ⟨plan, cache, middle, served, root, -, writes⟩
  · exact ⟨[], last (writes.emits (by simp)), by simp⟩
  refine ⟨_, last (writes.emits (Emission.named_rules _ _ _ _ _)), fun rule member stands => ?_⟩
  obtain ⟨e, inside, stored, rfl⟩ := served.only rule member stands
  have sourced : Sourced r stages final report.entries := ⟨served.resolved here bound, unchanged⟩
  obtain ⟨bytes, content, file, source, backed⟩ := served.backed here sourced inside stored
  obtain ⟨named, dash⟩ :=
    Naming.isName_candidate (served.tidy.digest e inside) (served.tidy.candidate e inside stored)
  refine ⟨e.artifact, e.fileName, bytes, content, sourced.resolved e inside, Rule.prebuilt_coordinates e,
    Rule.prebuilt_file e, named, Tree.read_eq_ok_iff.mp (stays _ _ named (Or.inr dash) ?_), source, backed⟩
  exact writes.keeps_candidate (served.tidy.digest e inside) (served.tidy.candidate e inside stored)
    (root ▸ file)

end Collector

end RuleDepot
