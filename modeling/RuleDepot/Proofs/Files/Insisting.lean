import RuleDepot.Proofs.Files.Paving
/-!
Attempts at a directory that cannot be made.  What the first attempt made is there at the second, which
may therefore get further, and fail for another reason, if the path steps back out of a directory that was
missing.  On a path that only goes down something is made before a failure only if a name further down is
too long, and the second attempt meets that name again; so such an attempt fails as often as it is made,
and always for the same reason.
-/

namespace RuleDepot

open Running

variable {t t' : Tree} {p q : Path} {place : Location} {piece last name : String} {before pieces : List String}
  {e : IoError}

namespace Tree

/-- The way of a path is there as far as a name that is too long. -/
def Overlong (t : Tree) (p : Path) : Prop :=
  p.pieces.foldlM t.follow (t.start p) = .error .invalidFilename

/-- A way down is barred by a name that is too long, or by something that was there before.  In the empty
directories that are made on the way, there is nothing that can bar it but a name. -/
theorem overlong_or_still (rooted : t.Rooted) (stands : t.node? place = some .directory)
    (downward : ".." ∉ pieces) (barred : (t.pave place pieces).2 = false) :
    pieces.foldlM (t.pave place pieces).1.follow place = .error .invalidFilename ∨
      (t.pave place pieces).1 = t ∧ ∃ name, t.node? (place ++ [name]) ≠ none := by
  induction pieces generalizing t place with
  | nil => cases barred
  | cons piece rest ih =>
    obtain ⟨down, downward⟩ := not_or.mp (mt List.mem_cons.mpr downward)
    have grown := pave_grown t place (piece :: rest)
    rw [List.foldlM_cons]
    rw [pave] at barred grown ⊢
    by_cases dots : IsDots piece
    · have filler : Path.isFiller piece = true := dots.resolve_right (Ne.symm down)
      have stays : advance place piece = place := by simp [advance, filler]
      have first := (follow_of_dots rooted stands dots).1
      simp only [dots, if_true, stays] at barred grown first ⊢
      rw [grown.follow first]
      exact ih rooted stands downward barred
    · simp only [dots, if_false] at barred grown ⊢
      by_cases long : nameLimit < piece.utf8ByteSize
      · rw [if_pos long, follow_of_name stands dots, if_pos long]
        exact Or.inl rfl
      · simp only [long, if_false] at barred grown ⊢
        have enters {u : Tree} (here : u.node? place = some .directory)
            (there : u.node? (place ++ [piece]) = some .directory) :
            u.follow place piece = .ok (place ++ [piece]) := by
          rw [follow_of_name here dots, if_neg long, there]
          rfl
        cases held : t.node? (place ++ [piece]) with
        | some node =>
          cases node with
          | file bytes => exact Or.inr ⟨rfl, piece, by simp [held]⟩
          | directory =>
            simp only [held] at barred grown ⊢
            rw [enters (grown.kept stands) (grown.kept held)]
            exact (ih rooted held downward barred).imp_right fun reached =>
              ⟨reached.1, piece, by simp [held]⟩
        | none =>
          simp only [held] at barred grown ⊢
          have there : (t.insert (place ++ [piece]) .directory).node? (place ++ [piece]) =
              some .directory := node?_insert_self (by simp)
          rw [enters (grown.kept stands) ((pave_grown _ _ _).kept there)]
          refine Or.inl ((ih (rooted.insert (by simp) (by simpa using stands) (Or.inl rfl)) there downward
            barred).resolve_right ?_)
          rintro ⟨-, name, occupied⟩
          rw [node?_insert (by simp), if_neg (by simp)] at occupied
          exact occupied (rooted.absent_below (by simp [held]) (List.prefix_append _ _) (by simp))

private theorem overlong_of_barred (rooted : t.Rooted) (begins : t.node? (t.start p) = some .directory)
    (downward : ".." ∉ p.pieces) (barred : t.pave (t.start p) p.pieces = (t', false)) :
    t' = t ∨ Overlong t' p := by
  have reached := overlong_or_still rooted begins downward (congrArg Prod.snd barred)
  have grown := pave_grown t (t.start p) p.pieces
  rw [barred] at reached grown
  rw [Overlong, start_congr grown.workingDir]
  exact reached.symm.imp_left And.left

private theorem long_of_follow (refused : t.follow place piece = .error .invalidFilename) :
    t.node? place = some .directory ∧ piece ≠ ".." ∧ nameLimit < piece.utf8ByteSize := by
  unfold follow at refused
  split at refused
  · cases refused
  · cases refused
  · rename_i stands
    refine ⟨stands, ?_⟩
    split_ifs at refused with filler up long
    · exact ⟨up, long⟩
    · cases refused

end Tree

namespace FileM

open RuleDepot.Tree

private theorem overlong_of_leads (leads : Leads t p before q) (spelled : p.pieces = before ++ [last])
    (same : t'.workingDir = t.workingDir) (long : Overlong t' q) : Overlong t' p := by
  obtain ⟨gap, split, -⟩ := leads.spelled
  have starts : t'.start q = t'.start p := by
    rw [start_congr same, start_congr same, leads.starts]
  rw [Overlong, spelled, split, List.append_assoc, List.foldlM_append, ← starts, long]
  rfl

private theorem makeDir_of_overlong (fits : admissible p = .ok ()) (spelled : p.pieces = before ++ [last])
    (solid : Path.isFiller last = false) (long : Overlong t p) :
    makeDir p t = .error (.ofKind .invalidFilename) t := by
  have aimed : t.target p = .error .invalidFilename := by
    rw [target_of_last fits spelled solid]
    rw [Overlong, spelled, List.foldlM_append] at long
    cases went : before.foldlM t.follow (t.start p) with
    | error kind =>
      rw [went] at long
      cases long
      rfl
    | ok dir =>
      rw [went] at long
      have refused : t.follow dir last = .error .invalidFilename := (bind_pure _).symm.trans long
      obtain ⟨stands, down, longer⟩ := long_of_follow refused
      simp only [bind, Except.bind, stands, if_neg down, if_pos longer]
  rw [makeDir, get_bind, aimed]
  rfl

/-- A directory on the way down cannot be made because of what was there before, or because of a name that
is too long.  The induction is on how many parents are tried. -/
theorem makeChain_barred {n : Nat} (rooted : t.Rooted)
    (begins : t.node? (t.start p) = some .directory) (fits : admissible p = .ok ())
    (spelled : p.pieces = before ++ [last]) (solid : Path.isFiller last = false)
    (enough : p.pieces.length < n) (downward : ".." ∉ p.pieces)
    (failed : makeChain (ancestors n p) t = .error e t') :
    t' = t ∨ Overlong t' p ∧ e = .ofKind .invalidFilename := by
  induction n generalizing p before last with
  | zero => cases enough
  | succ n ih =>
    have paves := makeChain_paves rooted begins fits spelled solid enough
    rw [failed] at paves
    rw [ancestors_succ] at failed
    have chained := makeChain_cases p (p.parent?.elim [] (ancestors n)) t
    rw [failed] at chained
    cases chained with
    | barred => exact Or.inl rfl
    | orphaned _ _ above =>
      have shorter := front_shorter spelled enough
      rcases parents_cases begins fits spelled solid shorter with ⟨-, ran⟩ | ⟨q, leads, fewer, ran⟩
      · rw [ran] at above
        cases above
      · rw [ran] at above
        obtain ⟨front, last', own, solid'⟩ := leads.ends
        obtain ⟨gap, split, -⟩ := leads.spelled
        have down : ".." ∉ q.pieces := fun up => downward (by simp [spelled, split, up])
        have same : t'.workingDir = t.workingDir := by
          have grown := (makeChain_secures (ancestors n q) t).1
          rw [above] at grown
          exact grown.workingDir
        -- A name that bars the way to the parent bars the whole way.
        exact (ih (leads.starts ▸ begins) leads.fits own solid' fewer down above).imp_right
          fun ⟨long, told⟩ => ⟨overlong_of_leads leads spelled same long, told⟩
    | barredLater _ _ _ _ second =>
      generalize ended : t.pave (t.start p) p.pieces = way at paves
      cases paves with
      | barred =>
        refine (overlong_of_barred rooted begins downward ended).imp_right fun long => ⟨long, ?_⟩
        -- It is this name that the last attempt failed for.
        rw [makeDir_of_overlong fits spelled solid long] at second
        cases second
        rfl

/-- **An attempt at a directory on the way down fails again for the same reason**, if it has failed
before. -/
theorem makeDirs_again {d : Path} (named : Path.IsName name) (rooted : t.Rooted)
    (downward : ".." ∉ d.pieces) (failed : makeDirs (d / name) t = .error e t') :
    makeDirs (d / name) t' = .error e t' := by
  have filled : (d / name).text ≠ "" := Path.text_join_ne_empty _ named.nonempty
  obtain ⟨-, before, trail, own, -, spelled⟩ := Path.pieces_join d named
  replace downward : ".." ∉ (d / name).pieces := by
    rw [spelled, List.mem_append, List.mem_singleton]
    exact not_or.mpr ⟨fun up => downward (own ▸ List.mem_append_left _ up), Ne.symm named.down⟩
  cases fits : admissible (d / name) with
  | error kind =>
    rw [makeDirs_of_refused filled fits] at failed ⊢
    cases failed
    rfl
  | ok _ =>
    by_cases begins : t.node? (t.start (d / name)) = some .directory
    · have barred := makeChain_barred rooted begins fits spelled named.isFiller (by omega) downward failed
      rcases barred with rfl | ⟨long, rfl⟩
      · exact failed
      · have again := makeDir_of_overlong fits spelled named.isFiller long
        have absent : t'.isDir (d / name) = false := isDir_of_makeChain failed
        rw [makeDirs, ancestors_succ, makeChain_of_settled filled again (by decide), absent]
        rfl
    · have still := (makeChain_astray ((d / name).pieces.length + 2) begins).1
      change left (makeDirs (d / name) t) = t at still
      rw [failed] at still
      obtain rfl : t' = t := still
      exact failed

end FileM

end RuleDepot
