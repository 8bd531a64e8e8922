import RuleDepot.Generation.StateFile
import RuleDepot.Proofs.Files.Writing
import RuleDepot.Proofs.Instants
import RuleDepot.Proofs.Json.Reading
import RuleDepot.Proofs.Tables
/-!
A state file is read back as it was written: the text that is printed has the tokens of a record,
and each field is read from its tokens.
-/

namespace RuleDepot.StateFile

open Json Json.Decoder

/-- What a state file says fits its notation: the instant is one, and every count is a machine
word. -/
structure Fits (s : StateFile) : Prop where
  instant : s.generatedAt.isValid = true
  modules : s.modules < Text.wordLimit
  counts : ∀ (name : String) (n : Nat), s.categories[name]? = some n → n < Text.wordLimit

instance (s : StateFile) : Decidable s.Fits :=
  decidable_of_iff (s.generatedAt.isValid = true ∧ s.modules < Text.wordLimit ∧
      ∀ entry ∈ s.categories.toList, entry.2 < Text.wordLimit)
    ⟨fun ⟨instant, modules, counts⟩ => ⟨instant, modules, fun name n held =>
        counts (name, n) (Std.ExtTreeMap.mem_toList_iff_getElem?_eq_some.mpr held)⟩,
      fun ⟨instant, modules, counts⟩ => ⟨instant, modules, fun entry member =>
        counts entry.1 entry.2 (Std.ExtTreeMap.mem_toList_iff_getElem?_eq_some.mp member)⟩⟩

/-- The tokens of the rule files. -/
def filesForm (s : StateFile) : List TokenKind :=
  .openBracket :: (separated (s.ruleFiles.map fun p => [.text ((written p.text).map some)]) ++
    [.closeBracket])

/-- The tokens of the counts. -/
def countForms (s : StateFile) : List (String × List TokenKind) :=
  s.categories.toList.map fun (name, n) => (name, [.number (decimal n)])

def categoriesForm (s : StateFile) : List TokenKind :=
  .openBrace :: (separated (s.countForms.map fun f => memberForms f.1 f.2) ++ [.closeBrace])

private theorem spells_files (s : StateFile) :
    Spells (listText 1 (s.ruleFiles.map fun p => quoted p.text)) s.filesForm := by
  refine spells_listText 1 ?_
  rw [List.forall₂_map_left_iff, List.forall₂_map_right_iff]
  exact List.forall₂_same.mpr fun p _ => spells_quoted p.text

private theorem spells_categories (s : StateFile) :
    Spells (recordText 1 (s.categories.toList.map fun (name, n) => (name, decimal n)))
      s.categoriesForm := by
  refine spells_recordText 1 ?_
  rw [countForms, List.forall₂_map_left_iff, List.forall₂_map_right_iff]
  exact List.forall₂_same.mpr fun entry _ => ⟨rfl, spells_decimal entry.2⟩

private theorem reads_files (s : StateFile) :
    Reads (Decoder.list Decoder.text) s.filesForm (s.ruleFiles.map Path.text) := by
  refine reads_list ?_ ?_
  · rw [List.forall₂_map_left_iff, List.forall₂_map_right_iff]
    exact List.forall₂_same.mpr fun p _ => reads_text p.text
  · intro form member
    obtain ⟨p, -, rfl⟩ := List.mem_map.mp member
    exact ⟨_, [], rfl, nofun⟩

private theorem reads_categories {s : StateFile} (fits : s.Fits) :
    Reads (Decoder.entries .ok Decoder.word) s.categoriesForm s.categories.toList := by
  refine reads_entries ?_
  rw [countForms, List.forall₂_map_left_iff]
  refine List.forall₂_same.mpr fun entry member => ⟨rfl, reads_word ?_⟩
  exact fits.counts entry.1 entry.2 (Std.ExtTreeMap.mem_toList_iff_getElem?_eq_some.mp member)

/-- The tokens of the members of a state file. -/
def forms (s : StateFile) : List (String × List TokenKind) :=
  [("generated_at", [.text ((written s.generatedAt.text).map some)]),
    ("buckforge_version", [.text ((written s.toolVersion).map some)]),
    ("modules", [.number (decimal s.modules)]),
    ("rule_files", s.filesForm),
    ("categories", s.categoriesForm)]

private theorem spells_print (s : StateFile) :
    Spells s.print (.openBrace :: (separated (s.forms.map fun f => memberForms f.1 f.2) ++
      [.closeBrace])) := by
  refine spells_recordText 0 ?_
  simp only [forms, List.forall₂_cons, List.Forall₂.nil, true_and, and_true]
  exact ⟨spells_quoted _, spells_quoted _, spells_decimal _, spells_files s, spells_categories s⟩

private theorem reads_print {s : StateFile} (fits : s.Fits) :
    Reads decoder (.openBrace :: (separated (s.forms.map fun f => memberForms f.1 f.2) ++
      [.closeBrace])) s := by
  have instant : StateFile.instant s.generatedAt.text = .ok s.generatedAt := by
    simp only [StateFile.instant, Instant.parse?_text fits.instant]
  have filled := Fills.cons
    (reads_field "generated_at" (fun generatedAt (s : StateFile) => { s with generatedAt })
      (reads_parsed instant) ⟨.epoch, "", 0, [], ∅⟩)
    (.cons (reads_field "buckforge_version"
        (fun toolVersion (s : StateFile) => { s with toolVersion }) (reads_text s.toolVersion) _)
      (.cons (reads_field "modules" (fun modules (s : StateFile) => { s with modules })
          (reads_word fits.modules) _)
        (.cons (reads_field "rule_files"
            (fun files (s : StateFile) => { s with ruleFiles := files.map Path.mk })
            (reads_files s) _)
          (.cons (reads_field "categories"
              (fun (entries : List (String × Nat)) (s : StateFile) =>
                { s with categories := entries.foldl (fun table (name, n) => table.insert name n) ∅ })
              (reads_categories fits) _)
            (.nil _)))))
  have distinct : ["generated_at", "buckforge_version", "modules", "rule_files", "categories"].Nodup := by
    decide
  have read := reads_record (by exact distinct) filled
  have paths : (s.ruleFiles.map Path.text).map Path.mk = s.ruleFiles := by
    rw [List.map_map]
    exact List.map_id s.ruleFiles
  have counts : s.categories.toList.foldl (fun table (name, n) => table.insert name n)
      (∅ : Table String Nat) = s.categories := Table.foldl_insert_toList s.categories
  simp only [paths, counts] at read
  exact read

/-- **What is written to a state file is read back.** -/
theorem parse?_print {s : StateFile} (fits : s.Fits) :
    parse? (String.ofList s.print).toUTF8 = some s := by
  simp only [parse?, Text.units_toUTF8, String.toList_ofList,
    runUnits_of_spells (spells_print s) (reads_print fits)]
  rfl

/-- So it is found where it was written. -/
theorem read_of_write {s : StateFile} {file : Path} {t t' : Tree} (fits : s.Fits)
    (ran : s.write file t = .ok () t') : read t' file = .ok (some s) := by
  rw [read, (FileM.read_publishBytes ran).1]
  simp only [parse?_print fits]

/-- **A state file that is written is read back as it was**, wherever a file can be written; and nowhere
else is one written. -/
theorem written_state_is_read {s : StateFile} {t : Tree} (fits : s.Fits) (rooted : t.Rooted)
    (file : Path) :
    (t.Writable file → ∃ t', s.write file t = .ok () t' ∧ read t' file = .ok (some s)) ∧
      (¬ t.Writable file → ∃ e t', s.write file t = .error e t') := by
  have written : (∃ t', s.write file t = .ok () t') ↔ t.Writable file :=
    FileM.publishBytes_ok_iff rooted
  constructor
  · intro writable
    obtain ⟨t', ran⟩ := written.mpr writable
    exact ⟨t', ran, read_of_write fits ran⟩
  · intro barred
    cases ran : s.write file t with
    | error e t' => exact ⟨e, t', rfl⟩
    | ok _ t' => exact absurd (written.mp ⟨t', ran⟩) barred

/-- A state file with an instant in the last second of the first leap day, the greatest count, and texts
that are empty or hold characters that have to be escaped or are beyond ASCII. -/
def strangeState : StateFile where
  generatedAt := ⟨⟨0, 2, 29⟩, 23, 59, 59, 120304000⟩
  toolVersion := "\"\\\n\x00\x1f\x7f/"
  modules := 18446744073709551615
  ruleFiles := [⟨"c a/\"BUCK\""⟩, ⟨""⟩, ⟨"\u2028/\x08\x0c\t\r"⟩]
  categories := ((∅ : Table String Nat).insert "" 18446744073709551615).insert "\u00e9\ufffd" 0

theorem strange_state_is_read :
    strangeState.Fits ∧ Tree.Rooted .empty ∧ Tree.Writable .empty location ∧
      ∃ t', strangeState.write location .empty = .ok () t' ∧
        read t' location = .ok (some strangeState) := by
  have fits : strangeState.Fits := by decide
  have rooted : Tree.Rooted .empty := by decide
  have writable : Tree.Writable .empty location := by decide
  exact ⟨fits, rooted, writable, (written_state_is_read fits rooted location).1 writable⟩

end RuleDepot.StateFile
