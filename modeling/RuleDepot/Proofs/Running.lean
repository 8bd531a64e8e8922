import RuleDepot.Step
/-!
How actions and steps run.  What a sequence of them does is taken apart here once: a sequence
succeeds when its parts do, one after another, and fails with the first part that fails.  After
this nothing has to know how the parts are put together.
-/

namespace RuleDepot

namespace Running

variable {ε σ α β : Type} {b : β}

@[simp] theorem get_bind (f : σ → EStateM ε σ β) (s : σ) : (get >>= f) s = f s s := rfl

@[simp] theorem pure_run (a : α) (s : σ) : (pure a : EStateM ε σ α) s = .ok a s := rfl

@[simp] theorem set_run (s' s : σ) : (set s' : EStateM ε σ PUnit) s = .ok () s' := rfl

theorem bind_run (x : EStateM ε σ α) (f : α → EStateM ε σ β) (s : σ) :
    (x >>= f) s = match x s with
      | .ok a s' => f a s'
      | .error e s' => .error e s' := by
  change EStateM.bind x f s = _
  unfold EStateM.bind
  cases x s <;> rfl

/-- A sequence that succeeds does so part by part. -/
theorem bind_ok {x : EStateM ε σ α} {f : α → EStateM ε σ β} {s s'' : σ}
    (ran : (x >>= f) s = .ok b s'') : ∃ a s', x s = .ok a s' ∧ f a s' = .ok b s'' := by
  rw [bind_run] at ran
  cases first : x s with
  | ok a s' =>
    rw [first] at ran
    exact ⟨a, s', rfl, ran⟩
  | error e s' =>
    rw [first] at ran
    cases ran

/-- The state that is left behind, whether or not there was a failure. -/
def left : EStateM.Result ε σ α → σ
  | .ok _ s => s
  | .error _ s => s

/-- What came out, without the state. -/
def outcome : EStateM.Result ε σ α → Except ε α
  | .ok a _ => .ok a
  | .error e _ => .error e

/-- A step that succeeds leaves behind a part and files. -/
theorem eq_ok_of_isOk {τ : Type} {r : EStateM.Result ε (σ × τ) α}
    (ran : (outcome r).isOk = true) : ∃ a, r = .ok a ((left r).1, (left r).2) := by
  cases r with
  | ok a s => exact ⟨a, rfl⟩
  | error e s => cases ran

/-- An outcome that something is known of is there. -/
theorem exists_of_outcome {τ : Type} {r : EStateM.Result ε (σ × τ) α} {f : α → β}
    (ran : (outcome r).map f = .ok b) : ∃ a part files, r = .ok a (part, files) ∧ f a = b := by
  cases r with
  | ok a s => exact ⟨a, s.1, s.2, rfl, Except.ok.inj ran⟩
  | error e => cases ran

/-- A result that was put together from another one needs that one. -/
theorem ok_of_bind {y : Except ε α} {g : α → Except ε β} (ran : (y >>= g) = .ok b) :
    ∃ a, y = .ok a ∧ g a = .ok b := by
  cases y with
  | error e => cases ran
  | ok a => exact ⟨a, rfl, ran⟩

/-- A result that something is known of is there. -/
theorem ok_of_map {y : Except ε α} {f : α → β} (ran : y.map f = .ok b) : ∃ a, y = .ok a ∧ f a = b := by
  cases y with
  | error e => cases ran
  | ok a => exact ⟨a, rfl, Except.ok.inj ran⟩

/-- What was put together fails with its first part or behind it. -/
theorem error_of_bind {y : Except ε α} {g : α → Except ε β} {e : ε}
    (failed : (y >>= g) = .error e) : y = .error e ∨ ∃ a, y = .ok a ∧ g a = .error e := by
  cases y with
  | error e' =>
    cases failed
    exact Or.inl rfl
  | ok a => exact Or.inr ⟨a, rfl, failed⟩

/-- What goes on from its first part without a failure can only fail with that part. -/
theorem error_of_bind_first {y : Except ε α} {g : α → Except ε β} {e : ε}
    (total : ∀ a, ∃ b, g a = .ok b) (failed : (y >>= g) = .error e) : y = .error e := by
  rcases error_of_bind failed with first | ⟨a, -, failed⟩
  · exact first
  · obtain ⟨b, done⟩ := total a
    rw [done] at failed
    cases failed

/-- What is made of a list, if it is made of every item. -/
theorem of_mapM_eq_ok {f : α → Except ε β} {l : List α} {results : List β}
    (ran : l.mapM f = .ok results) :
    (∀ x ∈ l, ∃ b, f x = .ok b) ∧ ∀ b, b ∈ results ↔ ∃ x ∈ l, f x = .ok b := by
  induction l generalizing results with
  | nil =>
    cases ran
    simp
  | cons x rest ih =>
    rw [List.mapM_cons] at ran
    obtain ⟨b, first, ran⟩ := ok_of_bind ran
    obtain ⟨others, later, done⟩ := ok_of_bind ran
    cases done
    obtain ⟨all, members⟩ := ih later
    refine ⟨List.forall_mem_cons.mpr ⟨⟨b, first⟩, all⟩, fun other => ?_⟩
    simp [members, first, eq_comm]

/-- What is told of the results of a list is told of its items, if that is so for each. -/
theorem flatMap_of_mapM {γ : Type} {f : α → Except ε β} {l : List α} {results : List β}
    {g : β → List γ} {h : α → List γ} (ran : l.mapM f = .ok results) (each : ∀ x b, f x = .ok b → g b = h x) :
    results.flatMap g = l.flatMap h := by
  induction l generalizing results with
  | nil =>
    cases ran
    rfl
  | cons x rest ih =>
    rw [List.mapM_cons] at ran
    obtain ⟨b, first, ran⟩ := ok_of_bind ran
    obtain ⟨others, later, done⟩ := ok_of_bind ran
    cases done
    rw [List.flatMap_cons, List.flatMap_cons, each x b first, ih later]

/-- If something cannot be made of a list, the first item of which it cannot be made tells why. -/
theorem find?_of_mapM_eq_error {f : α → Except ε β} {l : List α} {e : ε}
    (failed : l.mapM f = .error e) :
    ∃ x, l.find? (fun x => !(f x).isOk) = some x ∧ f x = .error e := by
  induction l with
  | nil => cases failed
  | cons x rest ih =>
    rw [List.mapM_cons] at failed
    rcases error_of_bind failed with first | ⟨b, made, failed⟩
    · refine ⟨x, List.find?_cons_of_pos ?_, first⟩
      rw [first]
      rfl
    · obtain ⟨y, found, refused⟩ := ih (error_of_bind_first (fun _ => ⟨_, rfl⟩) failed)
      refine ⟨y, ?_, refused⟩
      rw [List.find?_cons_of_neg, found]
      simp [made, Except.isOk, Except.toBool]

theorem exists_of_mapM_eq_error {f : α → Except ε β} {l : List α} {e : ε}
    (failed : l.mapM f = .error e) : ∃ x ∈ l, f x = .error e := by
  obtain ⟨x, found, refused⟩ := find?_of_mapM_eq_error failed
  exact ⟨x, List.mem_of_find?_eq_some found, refused⟩

end Running

namespace Step

variable {σ α β : Type} {s s' : σ} {t t' : Tree}

@[simp] theorem part_bind (f : σ → Step σ β) (s : σ) (t : Tree) :
    (part >>= f) (s, t) = f s (s, t) := rfl

@[simp] theorem tree_bind (f : Tree → Step σ β) (s : σ) (t : Tree) :
    (tree >>= f) (s, t) = f t (s, t) := rfl

@[simp] theorem change_bind (g : σ → σ) (f : Unit → Step σ β) (s : σ) (t : Tree) :
    (change g >>= f) (s, t) = f () (g s, t) := rfl

/-- An action on the files leaves the part alone. -/
theorem files_run (wrap : IoError → BuildError) (action : FileM α) (s : σ) (t : Tree) :
    files wrap action (s, t) = match action t with
      | .ok a t' => .ok a (s, t')
      | .error e t' => .error (wrap e) (s, t') := by
  cases acted : action t <;> simp only [files, acted]

/-- A step goes on after an action on the files only if that succeeds. -/
theorem files_bind_ok {wrap : IoError → BuildError} {action : FileM α} {f : α → Step σ β} {b : β}
    {after : σ × Tree} (ran : (files wrap action >>= f) (s, t) = .ok b after) :
    ∃ a t', action t = .ok a t' ∧ f a (s, t') = .ok b after := by
  obtain ⟨a, middle, acts, ran⟩ := Running.bind_ok ran
  rw [files_run] at acts
  cases acted : action t with
  | ok b t' =>
    rw [acted] at acts
    cases acts
    exact ⟨a, t', rfl, ran⟩
  | error e t' =>
    rw [acted] at acts
    cases acts

end Step

end RuleDepot
