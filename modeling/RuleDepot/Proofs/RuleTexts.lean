import RuleDepot.Proofs.Collector.Emitting
import RuleDepot.Proofs.Cuts
/-!
Rule files are unambiguous.  A reader that knows how calls, attributes and literals are written, and
nothing of the rules, finds in the text of a rule file the rules that were printed: each of them, with
each attribute and each value, whatever characters the values are made of.  The reader is told to read
what is printed for each kind of part in front of anything else, so no part can run into the next.
-/

namespace RuleDepot

/-- The characters of a name: letters, digits and underscores.  Beyond ASCII every character may be a
letter. -/
def isNameChar (c : Char) : Bool :=
  c.isAlphanum || c == '_' || 0x80 ≤ c.val

def isNameText (s : String) : Bool :=
  s.toList.all isNameChar

/-- A reader of parts of a rule file. -/
abbrev RuleReader : Type → Type :=
  StateT (List Char) Option

namespace Rule

/-- The rule type and the attributes of a rule are names. -/
structure Named (r : Rule) : Prop where
  ruleType : isNameText r.ruleType = true
  attrs : ∀ attr ∈ r.attrs, isNameText attr = true

instance (r : Rule) : Decidable r.Named :=
  decidable_of_iff (isNameText r.ruleType = true ∧ r.attrs.keys.all isNameText = true)
    ⟨fun ⟨ruleType, attrs⟩ => ⟨ruleType, by simpa using attrs⟩,
      fun ⟨ruleType, attrs⟩ => ⟨ruleType, by simpa using attrs⟩⟩

/-- The lines of a rule: its name, its attributes and its visibility. -/
def lines (r : Rule) : List (String × AttrValue) :=
  ("name", .text r.name) :: r.attrs.toList ++ [("visibility", .list r.visibility)]

/-- The rule of some lines, of which the first says the name and the last the visibility. -/
def ofLines? (ruleType : String) : List (String × AttrValue) → Option Rule
  | (first, .text name) :: lines =>
    match lines.reverse with
    | (last, .list visibility) :: attrs =>
      if first = "name" ∧ last = "visibility" then
        some ⟨ruleType, name,
          attrs.reverse.foldl (fun table entry => table.insert entry.1 entry.2) ∅, visibility⟩
      else none
    | _ => none
  | _ => none

private theorem ofLines?_lines (r : Rule) : ofLines? r.ruleType r.lines = some r := by
  have attrs := Table.foldl_insert_toList r.attrs
  simp [ofLines?, lines, attrs]

/-- What stands on a line, behind the blanks. -/
def lineText (entry : String × AttrValue) : List Char :=
  entry.1.toList ++ (" = ".toList ++ (entry.2.literal ++ [',']))

private theorem line_eq (entry : String × AttrValue) :
    line entry.1 entry.2.literal = "\n    ".toList ++ lineText entry := by
  unfold line lineText
  simp only [List.append_assoc]

/-- What stands behind the line feed in front of a rule. -/
def callText (r : Rule) : List Char :=
  r.ruleType.toList ++
    (['('] ++ (r.lines.flatMap ("\n    ".toList ++ lineText ·) ++ "\n)\n".toList))

private theorem print_eq (r : Rule) : r.print = ['\n'] ++ r.callText := by
  have name : line "name" (quotedRuleText r.name) =
      "\n    ".toList ++ lineText ("name", .text r.name) := line_eq ("name", .text r.name)
  have attrs : r.attrs.toList.flatMap (fun entry => line entry.1 entry.2.literal) =
      r.attrs.toList.flatMap ("\n    ".toList ++ lineText ·) :=
    List.flatMap_congr fun entry _ => line_eq entry
  have visibility : line "visibility" (listedRuleTexts r.visibility) =
      "\n    ".toList ++ lineText ("visibility", .list r.visibility) :=
    line_eq ("visibility", .list r.visibility)
  unfold print callText lines
  rw [name, attrs, visibility]
  simp only [List.flatMap_append, List.flatMap_cons, List.flatMap_nil, List.append_nil,
    List.cons_append, List.nil_append, List.append_assoc]

end Rule

namespace RuleReader

/-- Takes a piece of text. -/
def take (piece : List Char) : RuleReader Unit := do
  let s ← get
  if piece.isPrefixOf s then set (s.drop piece.length) else failure

/-- Reads a name. -/
def name : RuleReader String := do
  let s ← get
  set (s.dropWhile isNameChar)
  return String.ofList (s.takeWhile isNameChar)

/-- Reads items as long as a mark stands in front of them. -/
def itemsWithin {α : Type} (mark : List Char) (item : RuleReader α) : Nat → RuleReader (List α)
  | 0 => failure
  | fuel + 1 => do
    if mark.isPrefixOf (← get) then
      take mark
      let a ← item
      return a :: (← itemsWithin mark item fuel)
    else return []

/-- Reads all items that have a mark in front of them, of which there are no more than characters. -/
def items {α : Type} (mark : List Char) (item : RuleReader α) : RuleReader (List α) := do
  itemsWithin mark item ((← get).length + 1)

/-- The character that is meant by one behind a backslash. -/
def escaped? (c : Char) : Option Char :=
  if c = '"' then some '"'
  else if c = '\\' then some '\\'
  else if c = 'n' then some '\n'
  else none

/-- What is meant by the text in front of the first bare quote, and what stands behind that quote. -/
def unquote : List Char → Option (List Char × List Char)
  | [] => none
  | '"' :: rest => some ([], rest)
  | '\n' :: _ => none
  | '\\' :: c :: rest => do
    let d ← escaped? c
    let (s, later) ← unquote rest
    return (d :: s, later)
  | c :: rest => do
    let (s, later) ← unquote rest
    return (c :: s, later)

/-- Reads a text in quotes. -/
def text : RuleReader String := do
  take ['"']
  let (s, later) ← unquote (← get)
  set later
  return String.ofList s

/-- Reads a list of texts in brackets. -/
def texts : RuleReader (List String) := do
  take ['[']
  if (← get).head? = some ']' then
    take [']']
    return []
  else
    let first ← text
    let others ← items [',', ' '] text
    take [']']
    return first :: others

/-- Reads a literal. -/
def literal : RuleReader AttrValue := do
  match (← get).head? with
  | some '"' => return .text (← text)
  | some '[' => return .list (← texts)
  | some 'T' =>
    take "True".toList
    return .flag true
  | _ =>
    take "False".toList
    return .flag false

/-- Reads what stands on a line. -/
def line : RuleReader (String × AttrValue) := do
  let attr ← name
  take " = ".toList
  let value ← literal
  take [',']
  return (attr, value)

/-- Reads a rule. -/
def rule : RuleReader Rule := do
  let ruleType ← name
  take ['(']
  let lines ← items "\n    ".toList line
  take "\n)\n".toList
  Rule.ofLines? ruleType lines

/-- Reads a rule file to its end. -/
def rules : RuleReader (List Rule) := do
  take ruleFileHeader.toList
  let rules ← items ['\n'] rule
  if (← get).isEmpty then return rules else failure

/-- The rules of a file. -/
def rules? (file : String) : Option (List Rule) :=
  (rules.run file.toList).map Prod.fst

section

variable {α β : Type} {rest mark : List Char}

/-- A reader gives a value from a text, whatever stands behind it, and leaves that. -/
def Reads (reader : RuleReader α) (s : List Char) (a : α) : Prop :=
  ∀ rest, reader (s ++ rest) = some (a, rest)

private theorem bind_run (reader : RuleReader α) (f : α → RuleReader β) (s : List Char) :
    (reader >>= f) s = (reader s).bind fun read => f read.1 read.2 := rfl

private theorem get_run (s : List Char) : (get : RuleReader (List Char)) s = some (s, s) := rfl

private theorem reads_take (piece : List Char) : Reads (take piece) piece () := by
  intro rest
  have begins : piece.isPrefixOf (piece ++ rest) = true :=
    List.isPrefixOf_iff_prefix.mpr (List.prefix_append piece rest)
  simp only [take, bind_run, get_run, Option.bind_some, begins, if_true, List.drop_left]
  rfl

/-- A name is read up to what cannot belong to it. -/
theorem name_run {n : String} (named : isNameText n = true)
    (ends : ∀ c ∈ rest.head?, isNameChar c = false) : name (n.toList ++ rest) = some (n, rest) := by
  have stopped : rest.takeWhile isNameChar = [] ∧ rest.dropWhile isNameChar = rest := by
    cases rest with
    | nil => exact ⟨rfl, rfl⟩
    | cons c rest => simp [ends c rfl]
  have letters : ∀ c ∈ n.toList, isNameChar c = true := List.all_eq_true.mp named
  have taken : (n.toList ++ rest).takeWhile isNameChar = n.toList := by
    rw [List.takeWhile_append_of_pos letters, stopped.1, List.append_nil]
  have left : (n.toList ++ rest).dropWhile isNameChar = rest := by
    rw [List.dropWhile_append_of_pos letters, stopped.2]
  simp only [name, bind_run, get_run, Option.bind_some, taken, left, String.ofList_toList]
  rfl

private theorem itemsWithin_run {item : RuleReader α} {spell : α → List Char} {list : List α}
    {fuel : Nat} (read : ∀ a ∈ list, Reads item (spell a) a) (enough : list.length < fuel)
    (ends : ¬ mark <+: rest) :
    itemsWithin mark item fuel (list.flatMap (mark ++ spell ·) ++ rest) = some (list, rest) := by
  induction list generalizing fuel with
  | nil =>
    cases fuel with
    | zero => cases enough
    | succ fuel =>
      have stopped : mark.isPrefixOf rest = false := by
        rw [Bool.eq_false_iff, ne_eq, List.isPrefixOf_iff_prefix]
        exact ends
      simp only [itemsWithin, List.flatMap_nil, List.nil_append, bind_run, get_run,
        Option.bind_some, stopped]
      rfl
  | cons a list ih =>
    cases fuel with
    | zero => cases enough
    | succ fuel =>
      have first := read a List.mem_cons_self
      have others := ih (fun b member => read b (List.mem_cons_of_mem a member))
        (Nat.lt_of_succ_lt_succ enough)
      have next : mark.isPrefixOf (mark ++ (spell a ++ (list.flatMap (mark ++ spell ·) ++ rest))) =
          true := List.isPrefixOf_iff_prefix.mpr (List.prefix_append mark _)
      simp only [itemsWithin, List.flatMap_cons, List.append_assoc, bind_run, get_run,
        Option.bind_some, next, if_true, reads_take mark _, first _] at others ⊢
      rw [others]
      rfl

/-- Items are read one by one, up to where no mark follows. -/
theorem items_run {item : RuleReader α} {spell : α → List Char} {list : List α}
    (read : ∀ a ∈ list, Reads item (spell a) a) (solid : mark ≠ []) (ends : ¬ mark <+: rest) :
    items mark item (list.flatMap (mark ++ spell ·) ++ rest) = some (list, rest) := by
  have some_ := List.length_pos_iff.mpr solid
  have fewer : list.length ≤ (list.flatMap (mark ++ spell ·)).length := by
    clear read
    induction list with
    | nil => exact Nat.le_refl 0
    | cons a list ih =>
      simp only [List.flatMap_cons, List.length_cons, List.length_append]
      omega
  rw [items, bind_run, get_run]
  apply itemsWithin_run read _ ends
  rw [List.length_append]
  omega

end

/-- What a character between quotes is printed as means that character. -/
theorem unquote_quotedRuleChar (c : Char) (rest : List Char) :
    unquote (quotedRuleChar c ++ rest) =
      (unquote rest).bind fun read => some (c :: read.1, read.2) := by
  unfold quotedRuleChar
  split_ifs with quote backslash feed
  · subst quote
    simp [unquote, escaped?]
  · subst backslash
    simp [unquote, escaped?]
  · subst feed
    simp [unquote, escaped?]
  · -- Any other character stands for itself.
    rw [List.singleton_append, unquote.eq_def]
    split <;> simp_all

/-- The text in front of the closing quote is what was put into quotes. -/
theorem unquote_quoted (s rest : List Char) :
    unquote (s.flatMap quotedRuleChar ++ '"' :: rest) = some (s, rest) := by
  induction s with
  | nil => rfl
  | cons c s ih =>
    rw [List.flatMap_cons, List.append_assoc, unquote_quotedRuleChar, ih, Option.bind_some]

/-- A text in quotes ends at its own closing quote. -/
theorem reads_text (s : String) : Reads text (quotedRuleText s) s := by
  intro rest
  have opened := reads_take ['"'] (s.toList.flatMap quotedRuleChar ++ '"' :: rest)
  have spelled : quotedRuleText s ++ rest =
      ['"'] ++ (s.toList.flatMap quotedRuleChar ++ '"' :: rest) := by
    simp [quotedRuleText]
  rw [spelled, text, bind_run, opened]
  simp only [Option.bind_some, bind_run, get_run]
  change ((unquote _).bind fun a => some (a, _)).bind _ = _
  rw [unquote_quoted]
  simp [String.ofList_toList]
  rfl

private theorem reads_texts (list : List String) : Reads texts (listedRuleTexts list) list := by
  intro rest
  cases list with
  | nil => rfl
  | cons first others =>
    have spelled : listedRuleTexts (first :: others) ++ rest = ['['] ++ (quotedRuleText first ++
        (others.flatMap ([',', ' '] ++ quotedRuleText ·) ++ ([']'] ++ rest))) := by
      simp [listedRuleTexts, Text.intercalate_cons, List.flatMap_map]
    have filled (later : List Char) : (quotedRuleText first ++ later).head? ≠ some ']' := by
      simp [quotedRuleText]
    have ends : ¬ [',', ' '] <+: [']'] ++ rest := by simp
    have listed : items [',', ' '] text
        (others.flatMap ([',', ' '] ++ quotedRuleText ·) ++ ([']'] ++ rest)) =
          some (others, [']'] ++ rest) :=
      items_run (fun s _ => reads_text s) (List.cons_ne_nil ',' [' ']) ends
    rw [spelled, texts, bind_run, reads_take ['[']]
    simp only [Option.bind_some, bind_run, get_run, filled, if_false, reads_text first _, listed,
      reads_take [']'] _]
    rfl

/-- A printed value is read back: its first character tells what it is. -/
theorem reads_literal (value : AttrValue) : Reads literal value.literal value := by
  intro rest
  rw [literal, bind_run, get_run, Option.bind_some]
  cases value with
  | text s =>
    change (text >>= fun s => pure (AttrValue.text s)) (quotedRuleText s ++ rest) = _
    rw [bind_run, reads_text]
    rfl
  | list items =>
    change (texts >>= fun items => pure (AttrValue.list items)) (listedRuleTexts items ++ rest) = _
    rw [bind_run, reads_texts]
    rfl
  | flag b => cases b <;> rfl

private theorem reads_line {entry : String × AttrValue}
    (named : isNameText entry.1 = true) : Reads line (Rule.lineText entry) entry := by
  intro rest
  have spelled : Rule.lineText entry ++ rest =
      entry.1.toList ++ (" = ".toList ++ (entry.2.literal ++ ([','] ++ rest))) := by
    unfold Rule.lineText
    simp only [List.append_assoc]
  have ends : ∀ c ∈ (" = ".toList ++ (entry.2.literal ++ ([','] ++ rest))).head?,
      isNameChar c = false := by
    intro c head
    cases head
    decide
  rw [spelled, line, bind_run, name_run named ends]
  simp only [Option.bind_some, bind_run, reads_take " = ".toList _, reads_literal entry.2 _,
    reads_take [','] _]
  rfl

private theorem reads_rule {r : Rule} (named : r.Named) : Reads rule r.callText r := by
  intro rest
  have spelled : r.callText ++ rest = r.ruleType.toList ++ (['('] ++
      (r.lines.flatMap ("\n    ".toList ++ Rule.lineText ·) ++ ("\n)\n".toList ++ rest))) := by
    unfold Rule.callText
    simp only [List.append_assoc]
  have opens : ∀ c ∈ (['('] ++ (r.lines.flatMap ("\n    ".toList ++ Rule.lineText ·) ++
      ("\n)\n".toList ++ rest))).head?, isNameChar c = false := by
    intro c head
    cases head
    decide
  have lines : ∀ entry ∈ r.lines, Reads line (Rule.lineText entry) entry := by
    intro entry member
    apply reads_line
    simp only [Rule.lines, List.cons_append, List.mem_cons, List.mem_append, List.not_mem_nil,
      or_false] at member
    rcases member with rfl | listed | rfl
    · change isNameText "name" = true
      decide
    · have held := Std.ExtTreeMap.mem_toList_iff_getElem?_eq_some.mp listed
      exact named.attrs entry.1 (Std.ExtTreeMap.mem_iff_isSome_getElem?.mpr (by simp [held]))
    · change isNameText "visibility" = true
      decide
  have ends : ¬ "\n    ".toList <+: "\n)\n".toList ++ rest := by
    intro begins
    have second := (List.cons_prefix_cons.mp begins).2
    have space := (List.cons_prefix_cons.mp second).1
    cases space
  have listed := items_run lines (by decide) ends
  rw [spelled, rule, bind_run, name_run named.ruleType opens]
  simp only [Option.bind_some, bind_run, reads_take ['('] _, listed, reads_take "\n)\n".toList _]
  rw [Rule.ofLines?_lines]
  rfl

/-- **A rule file is read back**, whatever its values are. -/
theorem rules?_printRules {rules : List Rule} (named : ∀ r ∈ rules, r.Named) :
    rules? (printRules rules) = some rules := by
  have spelled : (printRules rules).toList =
      ruleFileHeader.toList ++ (rules.flatMap (['\n'] ++ Rule.callText ·) ++ []) := by
    rw [printRules, String.toList_ofList, List.append_nil]
    exact congrArg _ (List.flatMap_congr fun r _ => r.print_eq)
  have listed : items ['\n'] rule (rules.flatMap (['\n'] ++ Rule.callText ·) ++ []) =
      some (rules, []) :=
    items_run (fun r member => reads_rule (named r member)) (List.cons_ne_nil '\n' []) (by simp)
  rw [rules?, StateT.run, spelled, RuleReader.rules, bind_run, reads_take]
  simp only [Option.bind_some, bind_run, listed]
  rfl

/-- **Rule files are unambiguous.**  Two lists of rules whose types and attributes are names have the same
text only if they are the same; from that text a reader gets the rules, no more and no fewer, each with its
own attributes; and each text in quotes ends at its own closing quote, whatever it is and whatever stands
behind it. -/
theorem rule_files_unambiguous {rules rules' : List Rule} (named : ∀ r ∈ rules, r.Named)
    (named' : ∀ r ∈ rules', r.Named) :
    (printRules rules = printRules rules' ↔ rules = rules') ∧
      rules? (printRules rules) = some rules ∧
      ∀ (s : String) (rest : List Char), text (quotedRuleText s ++ rest) = some (s, rest) := by
  refine ⟨⟨?_, ?_⟩, rules?_printRules named, reads_text⟩
  · intro same
    have read := rules?_printRules named
    rw [same, rules?_printRules named'] at read
    exact (Option.some.inj read).symm
  · rintro rfl
    rfl

/-- A rule whose name reads like the end of a rule and another rule. -/
def forgedRule : Rule :=
  ((Rule.of "java_library" "a\",\n    visibility = [\"PUBLIC\"],\n)\n\njava_library(\n    name = \"b").withText
    "jvm_args" "\\\"\n\\").withList "name" ["]", "\", \""]

/-- It is read as the one rule that it is, and its text is not that of two rules. -/
theorem forged_rule_stays_one_rule :
    (∀ r ∈ [forgedRule], r.Named) ∧ rules? (printRules [forgedRule]) = some [forgedRule] ∧
      printRules [forgedRule] ≠ printRules [.of "java_library" "a", .of "java_library" "b"] := by
  have named : ∀ r ∈ [forgedRule], r.Named := by decide
  have named' : ∀ r ∈ [Rule.of "java_library" "a", .of "java_library" "b"], r.Named := by decide
  obtain ⟨same_iff, read, -⟩ := rule_files_unambiguous named named'
  refine ⟨named, read, fun same => ?_⟩
  have lengths := congrArg List.length (same_iff.mp same)
  cases lengths

end RuleReader

namespace Rule

variable {r : Rule} {ruleType attr : String}

private theorem named_of (letters : isNameText ruleType = true) (name : String) :
    (Rule.of ruleType name).Named :=
  ⟨letters, fun attr listed => by simp [Rule.of] at listed⟩

private theorem Named.withAttr (named : r.Named) (letters : isNameText attr = true)
    (value : AttrValue) : (r.withAttr attr value).Named := by
  refine ⟨named.ruleType, fun other listed => ?_⟩
  rcases Std.ExtTreeMap.mem_insert.mp listed with same | former
  · rwa [← Std.compare_eq_iff_eq.mp same]
  · exact named.attrs other former

private theorem named_prebuilt (e : CacheEntry) : (prebuilt e).Named := by
  unfold prebuilt
  split
  · exact ((named_of (by decide) _).withAttr (by decide) _).withAttr (by decide) _
  · exact ((named_of (by decide) _).withAttr (by decide) _).withAttr (by decide) _

private theorem named_of_mem_prebuilts {entries : List CacheEntry} : ∀ r ∈ prebuilts entries, r.Named := by
  intro r member
  obtain ⟨e, -, -, rfl⟩ := exists_of_mem_prebuilts member
  exact named_prebuilt e

private theorem named_bundle (name : String) (entries : List CacheEntry) : (bundle name entries).Named :=
  (named_of (by decide) name).withAttr (by decide) _

end Rule

namespace Emission

open Rule

/-- Whatever a collector writes is made of names. -/
theorem named_rules (duty : Duty) (c : Cache) (t : Tree) (plan : Plan) (entries : List CacheEntry) :
    ∀ r ∈ (Emission.of duty c t plan entries).rules, r.Named := by
  have bundled {bundle : Rule} (named : bundle.Named) : ∀ r ∈ prebuilts entries ++ [bundle], r.Named := by
    intro r member
    rcases List.mem_append.mp member with own | last
    · exact named_of_mem_prebuilts r own
    · exact List.mem_singleton.mp last ▸ named
  cases duty with
  | dependencies policy forced => exact named_of_mem_prebuilts
  | processors policy =>
    intro r member
    simp only [Emission.of, ofProcessors, processorRules, List.mem_flatMap, List.mem_cons,
      List.not_mem_nil, or_false] at member
    obtain ⟨scanned, -, rfl | rfl⟩ := member
    · exact named_prebuilt scanned.1
    · exact (((named_of (by decide) _).withAttr (by decide) _).withAttr (by decide) _).withAttr
        (by decide) _
  | lint config => exact bundled ((named_bundle _ _).withAttr (by decide) _)
  | runtime language config =>
    rw [Emission.of]
    cases plan.version with
    | none => exact fun r member => absurd member List.not_mem_nil
    | some version => exact bundled (named_bundle _ _)
  | transforms config =>
    rw [Emission.of]
    split
    · exact fun r member => absurd member List.not_mem_nil
    · exact bundled (named_bundle _ _)
  | robolectric config => exact named_of_mem_prebuilts
  | tools config => exact named_of_mem_prebuilts
  | extra name keys => exact named_of_mem_prebuilts

end Emission

end RuleDepot
