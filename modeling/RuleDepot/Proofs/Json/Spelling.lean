import Mathlib.Data.List.Forall2
import Mathlib.Data.List.TakeWhile
import Mathlib.Tactic.SplitIfs
import RuleDepot.Json.Printer
import RuleDepot.Json.Token
import RuleDepot.Proofs.Cuts
import RuleDepot.Proofs.Numerals
/-!
The tokens of printed JSON.  A printed value is read as the same tokens wherever it stands, as long
as no number goes on behind it; so the tokens of a whole text are those of its parts, one after
another.  Where a token stands does not matter to any reader of values, so only the forms of
tokens are followed here.
-/

namespace RuleDepot.Json

variable {text front back : List Char} {kinds later : List TokenKind} {c : Char} {s : String}

/-- No number goes on here: this is the end, or a character that no number holds. -/
def Stops (rest : List (Option Char)) : Prop :=
  ∀ unit ∈ rest.head?, ∃ c, unit = some c ∧ isNumberChar c = false

private theorem stops_nil : Stops [] := by
  simp [Stops]

private theorem stops_cons (other : isNumberChar c = false) (rest : List (Option Char)) :
    Stops (some c :: rest) := by
  intro unit first
  cases first
  exact ⟨c, rfl, other⟩

/-- A text is tokens of these forms wherever it stands. -/
def Spells (text : List Char) (kinds : List TokenKind) : Prop :=
  ∀ m rest, Stops rest → ∃ made m', made.map Token.kind = kinds ∧
    lexFrom m .between (text.map some ++ rest) = made ++ lexFrom m' .between rest

private theorem Spells.nil : Spells [] [] :=
  fun m _ _ => ⟨[], m, rfl, rfl⟩

/-- Two texts after one another are the tokens of both, unless a number runs from one into the
other. -/
theorem Spells.append (first : Spells front kinds) (second : Spells back later)
    (apart : ∀ c ∈ back.head?, isNumberChar c = false) :
    Spells (front ++ back) (kinds ++ later) := by
  intro m rest stops
  have stopsFront : Stops (back.map some ++ rest) := by
    cases back with
    | nil => exact stops
    | cons c back => exact stops_cons (apart c rfl) _
  obtain ⟨made, m', spelled, lexed⟩ := first m _ stopsFront
  obtain ⟨made', m'', spelled', lexed'⟩ := second m' rest stops
  exact ⟨made ++ made', m'', by rw [List.map_append, spelled, spelled'],
    by rw [List.map_append, List.append_assoc, lexed, lexed', List.append_assoc]⟩

/-- The tokens of a whole text end with the end of the text. -/
theorem Spells.tokens_eq (spelled : Spells text kinds) :
    ∃ made m, made.map Token.kind = kinds ∧ tokens (text.map some) = made ++ [⟨.finish, m⟩] := by
  obtain ⟨made, m, forms, lexed⟩ := spelled ⟨1, 1⟩ [] stops_nil
  rw [List.append_nil] at lexed
  exact ⟨made, m, forms, lexed⟩

/-- A mark of punctuation is its token. -/
theorem spells_punctuation {kind : TokenKind} (solid : isGap c = false)
    (marks : punctuation? c = some kind) : Spells [c] [kind] := by
  intro m rest _
  exact ⟨[⟨kind, m⟩], m.after c, rfl, by simp [lexFrom, step, enter, solid, marks]⟩

/-- Blanks in front of a text change nothing. -/
theorem Spells.behind_gaps {gaps : List Char} (blank : ∀ c ∈ gaps, isGap c = true)
    (spelled : Spells text kinds) : Spells (gaps ++ text) kinds := by
  induction gaps with
  | nil => exact spelled
  | cons c gaps ih =>
    intro m rest stops
    obtain ⟨made, m', forms, lexed⟩ :=
      ih (fun d member => blank d (List.mem_cons_of_mem c member)) (m.after c) rest stops
    refine ⟨made, m', forms, ?_⟩
    rw [← lexed]
    simp [lexFrom, step, enter, blank c List.mem_cons_self]

/-- What stands between the quotes of a printed text. -/
def written (s : String) : List Char :=
  s.toList.flatMap quotedChar

private theorem isHexChar_hexDigit : ∀ n < 16, isHexChar (Text.hexDigit n) = true := by
  decide

/-- Inside of a text, what a character is printed as is passed over. -/
theorem lexFrom_quotedChar (m start : Mark) (read : List (Option Char)) (c : Char)
    (rest : List (Option Char)) :
    ∃ m', lexFrom m (.text start read) ((quotedChar c).map some ++ rest) =
      lexFrom m' (.text start (((quotedChar c).map some).reverse ++ read)) rest := by
  unfold quotedChar
  -- One case for each escape; the last two are a code point and a character that stands for itself.
  split_ifs with quote backslash back feed line ret tab control
  iterate 7 exact ⟨_, by simp [lexFrom, step]; rfl⟩
  · have high : isHexChar (Text.hexDigit (c.toNat / 16)) = true :=
      isHexChar_hexDigit _ (by omega)
    have low : isHexChar (Text.hexDigit (c.toNat % 16)) = true :=
      isHexChar_hexDigit _ (by omega)
    have zero : isHexChar '0' = true := by decide
    exact ⟨_, by simp [lexFrom, step, high, low, zero]; rfl⟩
  · have printable : ¬ c.val < 0x20 := fun small => control (UInt32.lt_iff_toNat_lt.mp small)
    exact ⟨_, by simp [lexFrom, step, quote, backslash, printable]; rfl⟩

private theorem lexFrom_written (m start : Mark) (read : List (Option Char)) (s : List Char)
    (rest : List (Option Char)) :
    ∃ m', lexFrom m (.text start read) ((s.flatMap quotedChar).map some ++ rest) =
      lexFrom m' (.text start (((s.flatMap quotedChar).map some).reverse ++ read)) rest := by
  induction s generalizing m read with
  | nil => exact ⟨m, rfl⟩
  | cons c s ih =>
    obtain ⟨m', first⟩ := lexFrom_quotedChar m start read c ((s.flatMap quotedChar).map some ++ rest)
    obtain ⟨m'', others⟩ := ih m' (((quotedChar c).map some).reverse ++ read)
    refine ⟨m'', ?_⟩
    rw [List.flatMap_cons, List.map_append, List.append_assoc, first, others, List.reverse_append,
      List.append_assoc]

/-- A text between quotes is one token. -/
theorem spells_quoted (s : String) : Spells (quoted s) [.text ((written s).map some)] := by
  intro m rest _
  have opened : lexFrom m .between ((quoted s).map some ++ rest) =
      lexFrom (m.after '"') (.text m []) ((written s).map some ++ (some '"' :: rest)) := by
    simp [quoted, written, lexFrom, step, enter, isGap, punctuation?]
  obtain ⟨m', passed⟩ := lexFrom_written (m.after '"') m [] s.toList (some '"' :: rest)
  refine ⟨[⟨.text ((written s).map some), m⟩], m'.after '"', rfl, ?_⟩
  rw [opened]
  refine passed.trans ?_
  simp [written, lexFrom, step]

private theorem isNumberChar_of_isDigit (digit : Text.isDigit c = true) : isNumberChar c = true := by
  simp [isNumberChar, digit]

private theorem lexFrom_number (m start : Mark) (read digits : List Char) (rest : List (Option Char))
    (numeric : ∀ c ∈ digits, isNumberChar c = true) :
    ∃ m', lexFrom m (.number start read) (digits.map some ++ rest) =
      lexFrom m' (.number start (digits.reverse ++ read)) rest := by
  induction digits generalizing m read with
  | nil => exact ⟨m, rfl⟩
  | cons c digits ih =>
    obtain ⟨m', others⟩ :=
      ih (m.after c) (c :: read) fun d member => numeric d (List.mem_cons_of_mem c member)
    refine ⟨m', ?_⟩
    rw [List.reverse_cons, List.append_assoc, List.singleton_append, ← others]
    simp [lexFrom, step, numeric c List.mem_cons_self]

private theorem lexFrom_stops (m start : Mark) (read : List Char) {rest : List (Option Char)}
    (stops : Stops rest) :
    lexFrom m (.number start read) rest =
      ⟨numberToken read.reverse, start⟩ :: lexFrom m .between rest := by
  cases rest with
  | nil => rfl
  | cons unit rest =>
    obtain ⟨c, rfl, other⟩ := stops unit rfl
    simp only [lexFrom, step, other, Bool.false_eq_true, ↓reduceIte, leave]
    rcases enter m c with ⟨out, next | next⟩ <;> simp

theorem decimal_eq (n : Nat) : decimal n = Nat.toDigits 10 n :=
  Text.toList_toString n

/-- The digits of a number are a number in the sense of the notation. -/
theorem isNumber_decimal (n : Nat) : isNumber (decimal n) = true := by
  rw [decimal_eq]
  have digits : ∀ c ∈ Nat.toDigits 10 n, Text.isDigit c = true := fun c => Text.isDigit_of_mem_toDigits
  have unsigned : isUnsigned (Nat.toDigits 10 n) = true := by
    have whole : (Nat.toDigits 10 n).takeWhile Text.isDigit = Nat.toDigits 10 n :=
      List.takeWhile_eq_self_iff.mpr digits
    have nothing : (Nat.toDigits 10 n).dropWhile Text.isDigit = [] :=
      List.dropWhile_eq_nil_iff.mpr digits
    have head := Text.head?_toDigits n
    have inhabited : Nat.toDigits 10 n ≠ [] := Nat.toDigits_ne_nil
    simp only [isUnsigned, whole, nothing, isFraction, isExponent]
    simpa [inhabited] using head
  unfold isNumber
  split
  · rename_i rest signed
    have minus := digits '-' (by simp [signed])
    exact absurd minus (by decide)
  · exact unsigned

private theorem enter_digit (m : Mark) (digit : Text.isDigit c = true) :
    enter m c = ([], some (.number m [c])) := by
  have solid : isGap c = false := by
    simp only [isGap, Bool.or_eq_false_iff, beq_eq_false_iff_ne, ne_eq]
    refine ⟨⟨⟨?_, ?_⟩, ?_⟩, ?_⟩ <;> rintro rfl <;> exact absurd digit (by decide)
  have plain : punctuation? c = none := by
    unfold punctuation?
    split_ifs
    iterate 6 subst_vars; exact absurd digit (by decide)
    rfl
  have other : c ≠ '"' := by
    rintro rfl
    exact absurd digit (by decide)
  simp [enter, solid, plain, other, digit]

/-- A number is one token. -/
theorem spells_decimal (n : Nat) : Spells (decimal n) [.number (decimal n)] := by
  intro m rest stops
  have digits : ∀ c ∈ decimal n, Text.isDigit c = true := by
    rw [decimal_eq]
    exact fun c => Text.isDigit_of_mem_toDigits
  have token : numberToken (decimal n) = .number (decimal n) := by
    simp [numberToken, isNumber_decimal]
  cases spelled : decimal n with
  | nil => exact absurd (decimal_eq n ▸ spelled) Nat.toDigits_ne_nil
  | cons c others =>
    rw [spelled] at digits token
    obtain ⟨m', passed⟩ := lexFrom_number (m.after c) m [c] others rest
      fun d member => isNumberChar_of_isDigit (digits d (List.mem_cons_of_mem c member))
    have entered : lexFrom m .between ((c :: others).map some ++ rest) =
        lexFrom (m.after c) (.number m [c]) (others.map some ++ rest) := by
      simp [lexFrom, step, enter_digit m (digits c List.mem_cons_self)]
    refine ⟨[⟨.number (c :: others), m⟩], m', rfl, ?_⟩
    rw [entered, passed, lexFrom_stops m' m _ stops]
    simp [token]

/-- The tokens of parts with commas between them. -/
def separated : List (List TokenKind) → List TokenKind
  | [] => []
  | first :: others => first ++ others.flatMap (TokenKind.comma :: ·)

/-- What begins with a comma stops a number. -/
theorem head?_flatMap_comma (parts : List (List Char)) :
    ∀ c ∈ (parts.flatMap ([','] ++ ·)).head?, isNumberChar c = false := by
  cases parts with
  | nil => simp
  | cons part parts =>
    intro c head
    cases head
    decide

private theorem spells_flatMap {gaps : List Char} (blank : ∀ c ∈ gaps, isGap c = true)
    {parts : List (List Char)} {forms : List (List TokenKind)}
    (spelled : List.Forall₂ Spells parts forms) :
    Spells ((parts.map ('\n' :: gaps ++ ·)).flatMap ([','] ++ ·))
      (forms.flatMap (TokenKind.comma :: ·)) := by
  induction spelled with
  | nil => exact .nil
  | @cons part form parts forms first others ih =>
    have line : Spells ('\n' :: gaps ++ part) form :=
      first.behind_gaps (List.forall_mem_cons.mpr ⟨rfl, blank⟩)
    have comma : Spells [','] [.comma] := spells_punctuation (by decide) (by decide)
    have newline : isNumberChar '\n' = false := by decide
    exact (comma.append line (by simpa using newline)).append ih (head?_flatMap_comma _)

/-- A list or a record is its parts with commas between them, in brackets. -/
theorem spells_block {opening closing : Char} {opens closes : TokenKind} (depth : Nat)
    (opened : Spells [opening] [opens]) (closed : Spells [closing] [closes])
    (apart : isNumberChar closing = false)
    {parts : List (List Char)} {forms : List (List TokenKind)}
    (spelled : List.Forall₂ Spells parts forms) :
    Spells (block opening closing depth parts) (opens :: (separated forms ++ [closes])) := by
  have blank : ∀ c ∈ ' ' :: ' ' :: List.replicate (2 * depth) ' ', isGap c = true := by
    simp only [List.mem_cons, List.mem_replicate]
    rintro c (rfl | rfl | ⟨-, rfl⟩) <;> rfl
  have ending : Spells ('\n' :: List.replicate (2 * depth) ' ' ++ [closing]) [closes] :=
    closed.behind_gaps fun c member =>
      (List.mem_cons.mp member).elim (fun same => same ▸ rfl)
        fun member => blank c (List.mem_cons_of_mem _ (List.mem_cons_of_mem _ member))
  cases spelled with
  | nil => exact opened.append closed (by simpa using apart)
  | @cons part form parts forms first others =>
    have line : Spells ('\n' :: ' ' :: ' ' :: List.replicate (2 * depth) ' ' ++ part) form :=
      first.behind_gaps (List.forall_mem_cons.mpr ⟨rfl, blank⟩)
    have lines := spells_flatMap blank others
    have newline : isNumberChar '\n' = false := by decide
    have inner := (line.append lines (head?_flatMap_comma _)).append ending (by simpa using newline)
    have whole := opened.append inner (by simpa using newline)
    simpa [block, separated, Text.intercalate_cons] using whole

/-- The tokens of a printed list. -/
theorem spells_listText (depth : Nat) {items : List (List Char)} {forms : List (List TokenKind)}
    (spelled : List.Forall₂ Spells items forms) :
    Spells (listText depth items) (.openBracket :: (separated forms ++ [.closeBracket])) :=
  spells_block depth (spells_punctuation (by decide) (by decide))
    (spells_punctuation (by decide) (by decide)) (by decide) spelled

/-- The tokens of a member: its key, a colon and its value. -/
def memberForms (key : String) (value : List TokenKind) : List TokenKind :=
  .text ((written key).map some) :: .colon :: value

private theorem spells_memberText (key : String) (value : Spells text kinds) :
    Spells (memberText key text) (memberForms key kinds) := by
  have colon : Spells [':'] [.colon] := spells_punctuation (by decide) (by decide)
  have behind : Spells ([' '] ++ text) kinds := value.behind_gaps (List.forall_mem_singleton.mpr rfl)
  have blank : isNumberChar ' ' = false := by decide
  have mark : isNumberChar ':' = false := by decide
  have marked := colon.append behind (by simpa using blank)
  have whole := (spells_quoted key).append marked (by simpa using mark)
  simpa [memberText, memberForms] using whole

/-- The tokens of a printed record. -/
theorem spells_recordText (depth : Nat) {members : List (String × List Char)}
    {forms : List (String × List TokenKind)}
    (spelled : List.Forall₂ (fun m f => m.1 = f.1 ∧ Spells m.2 f.2) members forms) :
    Spells (recordText depth members)
      (.openBrace :: (separated (forms.map fun f => memberForms f.1 f.2) ++ [.closeBrace])) := by
  refine spells_block depth (spells_punctuation (by decide) (by decide))
    (spells_punctuation (by decide) (by decide)) (by decide) ?_
  rw [List.forall₂_map_left_iff, List.forall₂_map_right_iff]
  exact spelled.imp fun m f both => both.1 ▸ spells_memberText m.1 both.2

end RuleDepot.Json
