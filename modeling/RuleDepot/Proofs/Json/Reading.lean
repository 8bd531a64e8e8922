import RuleDepot.Json.Decoder
import RuleDepot.Proofs.Json.Spelling
/-!
Reading printed JSON.  A reader that gives a value from tokens of some forms does so wherever they
stand, and leaves what is behind them; so the readers of parts in a row read the parts in a row.
What is printed of a text, a number, a list or a record is read back as it was.
-/

namespace RuleDepot.Json

/-- What a character between quotes is printed as is that character. -/
theorem unescape_quotedChar (c : Char) (rest : List Char) :
    unescape (quotedChar c ++ rest) = (unescape rest).map (c :: ·) := by
  unfold quotedChar
  split_ifs with quote backslash back feed line ret tab control
  iterate 7 subst_vars; simp [unescape, escapedChar]
  · -- A code point: the digits are those of the character, and no half of another one.
    have digits : hexNumber ['0', '0', Text.hexDigit (c.toNat / 16), Text.hexDigit (c.toNat % 16)] =
        c.toNat := by
      have small : ∀ n < 32, hexNumber ['0', '0', Text.hexDigit (n / 16), Text.hexDigit (n % 16)] = n := by
        decide
      exact small c.toNat control
    have high : isHighHalf c.toNat = false := by
      simp only [isHighHalf, Bool.and_eq_false_iff, decide_eq_false_iff_not]
      omega
    have low : isLowHalf c.toNat = false := by
      simp only [isLowHalf, Bool.and_eq_false_iff, decide_eq_false_iff_not]
      omega
    rw [List.cons_append, List.cons_append, List.cons_append, List.cons_append, List.cons_append,
      List.cons_append, unescape.eq_def]
    simp [digits, high, low]
  · rw [List.singleton_append, unescape.eq_def]
    split <;> simp_all

private theorem unescape_written (s : String) : unescape (written s) = some s.toList := by
  unfold written
  induction s.toList with
  | nil => rfl
  | cons c rest ih => rw [List.flatMap_cons, unescape_quotedChar, ih, Option.map_some]

namespace Decoder

variable {α β σ : Type} {a : α} {b : β} {kinds later : List TokenKind}

/-- A reader gives a value from tokens of these forms, whatever stands behind them. -/
def Reads (decoder : Decoder α) (kinds : List TokenKind) (a : α) : Prop :=
  ∀ made rest, made.map Token.kind = kinds → decoder (made ++ rest) = .ok (a, rest)

private theorem bind_run (decoder : Decoder α) (f : α → Decoder β) (tokens : List Token) :
    (decoder >>= f) tokens = (decoder tokens).bind fun read => f read.1 read.2 := rfl

private theorem reads_pure (a : α) : Reads (pure a) [] a := by
  intro made rest forms
  rw [List.map_eq_nil_iff.mp forms]
  rfl

/-- Readers one after another read what stands one after another. -/
theorem Reads.bind {decoder : Decoder α} {f : α → Decoder β} (first : Reads decoder kinds a)
    (second : Reads (f a) later b) : Reads (decoder >>= f) (kinds ++ later) b := by
  intro made rest forms
  obtain ⟨front, back, rfl, forms, forms'⟩ := List.map_eq_append_iff.mp forms
  rw [bind_run, List.append_assoc, first front _ forms]
  exact second back rest forms'

/-- The next token, which stays. -/
theorem peek_cons (token : Token) (rest : List Token) :
    peek (token :: rest) = .ok (token, token :: rest) := rfl

private theorem reads_expect (kind : TokenKind) (what : String) : Reads (expect kind what) [kind] () := by
  intro made rest forms
  obtain ⟨token, rfl, rfl⟩ := List.map_eq_singleton_iff.mp forms
  simp only [expect, List.singleton_append, bind_run, peek_cons]
  simp [Except.bind, advance]

/-- A printed text is read back. -/
theorem reads_text (s : String) : Reads text [.text ((written s).map some)] s := by
  intro made rest forms
  obtain ⟨⟨kind, m⟩, rfl, same⟩ := List.map_eq_singleton_iff.mp forms
  cases same
  have chars : (Text.characters? ((written s).map some)).bind unescape = some s.toList := by
    rw [Text.characters?_map_some, Option.bind_some, unescape_written]
  simp only [text, List.singleton_append, bind_run, peek_cons, Except.bind, chars]
  simp [advance, String.ofList_toList]
  rfl

/-- A printed number that fits a machine word is read back. -/
theorem reads_word {n : Nat} (fits : n < Text.wordLimit) : Reads word [.number (decimal n)] n := by
  intro made rest forms
  obtain ⟨⟨kind, m⟩, rfl, same⟩ := List.map_eq_singleton_iff.mp forms
  cases same
  have digits : (decimal n).all Text.isDigit = true := by
    rw [decimal_eq, List.all_eq_true]
    exact fun c => Text.isDigit_of_mem_toDigits
  have value : Text.decimalValue (decimal n) = n := by
    rw [decimal_eq, Text.decimalValue_toDigits]
  simp only [word, List.singleton_append, bind_run, peek_cons, Except.bind, digits, value]
  simp [fits]
  rfl

/-- A text of some notation is read if its notation is. -/
theorem reads_parsed {parse : String → Except String α} {s : String} (reads : parse s = .ok a) :
    Reads (parsed parse) [.text ((written s).map some)] a := by
  intro made rest forms
  have read := reads_text s made rest forms
  have start : (get : Decoder (List Token)) (made ++ rest) = .ok (made ++ rest, made ++ rest) := rfl
  simp only [parsed, bind_run, start, Except.bind, read, reads]
  rfl

/-- Something else than the end of a list stands first. -/
def Opens (kinds : List TokenKind) : Prop :=
  ∃ kind others, kinds = kind :: others ∧ kind ≠ .closeBracket

/-- The elements behind an element are read up to the end of the list. -/
theorem reads_later_elements {item : Decoder α} {forms : List (List TokenKind)} {values : List α}
    (read : List.Forall₂ (Reads item) forms values) {fuel : Nat} (enough : forms.length < fuel) :
    Reads (elements item fuel false) (forms.flatMap (.comma :: ·) ++ [.closeBracket]) values := by
  induction read generalizing fuel with
  | nil =>
    intro made rest same
    obtain ⟨⟨kind, m⟩, rfl, same⟩ := List.map_eq_singleton_iff.mp same
    cases same
    cases fuel with
    | zero => cases enough
    | succ fuel => rfl
  | @cons form value forms values first others ih =>
    cases fuel with
    | zero => cases enough
    | succ fuel =>
      have behind : Reads (do
            expect .comma "expected a comma"
            let a ← item
            return a :: (← elements item fuel false))
          ([.comma] ++ (form ++ ((forms.flatMap (.comma :: ·) ++ [.closeBracket]) ++ [])))
          (value :: values) :=
        (reads_expect .comma "expected a comma").bind
          (first.bind ((ih (Nat.lt_of_succ_lt_succ enough)).bind (reads_pure (value :: values))))
      intro made rest same
      have read := behind made rest (by simpa using same)
      rw [List.flatMap_cons, List.cons_append, List.cons_append, List.map_eq_cons_iff] at same
      obtain ⟨token, made, rfl, comma, -⟩ := same
      rw [← read]
      simp only [elements, bind_run, List.cons_append, peek_cons, Except.bind, comma]
      rfl

private theorem length_le_flatMap (forms : List (List TokenKind)) :
    forms.length ≤ (forms.flatMap (TokenKind.comma :: ·)).length := by
  induction forms with
  | nil => exact Nat.le_refl 0
  | cons form forms ih =>
    simp only [List.flatMap_cons, List.length_cons, List.length_append]
    omega

/-- A printed list is read back, if its elements are. -/
theorem reads_list {item : Decoder α} {forms : List (List TokenKind)} {values : List α}
    (read : List.Forall₂ (Reads item) forms values) (opens : ∀ form ∈ forms, Opens form) :
    Reads (list item) (.openBracket :: (separated forms ++ [.closeBracket])) values := by
  change Reads _ ([.openBracket] ++ (separated forms ++ [.closeBracket])) _
  refine (reads_expect .openBracket "expected an array").bind fun made rest same => ?_
  have start : (get : Decoder (List Token)) (made ++ rest) = .ok (made ++ rest, made ++ rest) := rfl
  rw [bind_run, start]
  change elements item (made ++ rest).length true (made ++ rest) = _
  cases read with
  | nil =>
    obtain ⟨⟨kind, m⟩, rfl, same⟩ := List.map_eq_singleton_iff.mp same
    cases same
    rfl
  | @cons form value forms values first others =>
    obtain ⟨kind, kinds, rfl, other⟩ := opens form List.mem_cons_self
    have long : forms.length + 1 < made.length := by
      have := congrArg List.length same
      have := length_le_flatMap forms
      simp only [separated, List.length_map, List.length_append, List.length_cons,
        List.length_nil] at *
      omega
    obtain ⟨fuel, spent⟩ : ∃ fuel, (made ++ rest).length = fuel + 1 :=
      Nat.exists_eq_succ_of_ne_zero (by rw [List.length_append]; omega)
    have enough : forms.length < fuel := by
      rw [List.length_append] at spent
      omega
    have whole : Reads (do
          let a ← item
          return a :: (← elements item fuel false))
        ((kind :: kinds) ++ ((forms.flatMap (.comma :: ·) ++ [.closeBracket]) ++ []))
        (value :: values) :=
      first.bind ((reads_later_elements others enough).bind (reads_pure (value :: values)))
    have result := whole made rest (by simpa [separated] using same)
    rw [separated, List.cons_append, List.cons_append, List.map_eq_cons_iff] at same
    obtain ⟨token, made, rfl, same, -⟩ := same
    rw [← result, spent]
    simp only [elements, bind_run, List.cons_append, peek_cons, Except.bind, same, other]
    rfl

/-- Members one after another turn what was read so far into something else. -/
inductive Takes (member : String → σ → Decoder σ) : List (String × List TokenKind) → σ → σ → Prop
  | nil (s : σ) : Takes member [] s s
  | cons {key : String} {form : List TokenKind} {forms : List (String × List TokenKind)}
      {s s' s'' : σ} (first : Reads (member key s) (.colon :: form) s')
      (others : Takes member forms s' s'') : Takes member ((key, form) :: forms) s s''

variable {member : String → σ → Decoder σ} {forms : List (String × List TokenKind)} {s s' : σ}

/-- The members behind a member are read up to the end of the object. -/
theorem reads_later_members (taken : Takes member forms s s') {fuel : Nat}
    (enough : forms.length < fuel) :
    Reads (members member fuel false s)
      ((forms.map fun f => memberForms f.1 f.2).flatMap (.comma :: ·) ++ [.closeBrace]) s' := by
  induction taken generalizing fuel with
  | nil s =>
    intro made rest same
    obtain ⟨⟨kind, m⟩, rfl, same⟩ := List.map_eq_singleton_iff.mp same
    cases same
    cases fuel with
    | zero => cases enough
    | succ fuel => rfl
  | @cons key form forms s s' s'' first others ih =>
    cases fuel with
    | zero => cases enough
    | succ fuel =>
      have behind : Reads (do
            expect .comma "expected a comma"
            let key ← text
            members member fuel false (← member key s))
          ([.comma] ++ ([.text ((written key).map some)] ++ ((.colon :: form) ++
            ((forms.map fun f => memberForms f.1 f.2).flatMap (.comma :: ·) ++ [.closeBrace])))) s'' :=
        (reads_expect .comma "expected a comma").bind
          ((reads_text key).bind (first.bind (ih (Nat.lt_of_succ_lt_succ enough))))
      intro made rest same
      have read := behind made rest (by simpa [memberForms] using same)
      rw [List.map_cons, List.flatMap_cons, List.cons_append, List.cons_append,
        List.map_eq_cons_iff] at same
      obtain ⟨token, made, rfl, comma, -⟩ := same
      rw [← read]
      simp only [members, bind_run, List.cons_append, peek_cons, Except.bind, comma]
      rfl

/-- A printed object is read member by member. -/
theorem reads_object (taken : Takes member forms s s') :
    Reads (object member s)
      (.openBrace :: (separated (forms.map fun f => memberForms f.1 f.2) ++ [.closeBrace])) s' := by
  change Reads _ ([.openBrace] ++ (separated (forms.map fun f => memberForms f.1 f.2) ++
    [.closeBrace])) _
  refine (reads_expect .openBrace "expected an object").bind fun made rest same => ?_
  have start : (get : Decoder (List Token)) (made ++ rest) = .ok (made ++ rest, made ++ rest) := rfl
  rw [bind_run, start]
  change members member (made ++ rest).length true s (made ++ rest) = _
  cases taken with
  | nil s =>
    obtain ⟨⟨kind, m⟩, rfl, same⟩ := List.map_eq_singleton_iff.mp same
    cases same
    rfl
  | @cons key form forms _ middle _ first others =>
    have long : forms.length + 1 < made.length := by
      have := congrArg List.length same
      have := length_le_flatMap (forms.map fun f => memberForms f.1 f.2)
      simp only [separated, memberForms, List.map_cons, List.length_map, List.length_append,
        List.length_cons, List.length_nil] at *
      omega
    obtain ⟨fuel, spent⟩ : ∃ fuel, (made ++ rest).length = fuel + 1 :=
      Nat.exists_eq_succ_of_ne_zero (by rw [List.length_append]; omega)
    have enough : forms.length < fuel := by
      rw [List.length_append] at spent
      omega
    have whole : Reads (do
          let key ← text
          members member fuel false (← member key s))
        ([.text ((written key).map some)] ++ ((.colon :: form) ++
          ((forms.map fun f => memberForms f.1 f.2).flatMap (.comma :: ·) ++ [.closeBrace]))) s' :=
      (reads_text key).bind (first.bind (reads_later_members others enough))
    have result := whole made rest (by simpa [separated, memberForms] using same)
    rw [List.map_cons, separated, memberForms, List.cons_append, List.cons_append,
      List.map_eq_cons_iff] at same
    obtain ⟨token, made, rfl, same, -⟩ := same
    rw [← result, spent]
    simp only [members, bind_run, List.cons_append, peek_cons, Except.bind, same]
    rfl

/-- Fields one after another fill a record. -/
inductive Fills : List (Field σ × List TokenKind) → σ → σ → Prop
  | nil (s : σ) : Fills [] s s
  | cons {field : Field σ} {form : List TokenKind} {parts : List (Field σ × List TokenKind)}
      {s s' s'' : σ} (first : Reads (field.read s) form s') (others : Fills parts s' s'') :
      Fills ((field, form) :: parts) s s''

theorem reads_field (key : String) {item : Decoder α} (put : α → σ → σ) (read : Reads item kinds a)
    (s : σ) : Reads ((Field.needed key item put).read s) kinds (put a s) := by
  have whole := read.bind (f := fun a => pure (put a s)) (reads_pure (put a s))
  rwa [List.append_nil] at whole

/-- A known member that has not come before is read into the record. -/
theorem reads_recordMember {fields : List (Field σ)} {field : Field σ} {form : List TokenKind}
    {seen : List String} (known : fields.find? (fun f => f.key = field.key) = some field)
    (fresh : field.key ∉ seen) (read : Reads (field.read s) form s') :
    Reads (recordMember fields field.key (seen, s)) (.colon :: form) (field.key :: seen, s') := by
  have whole : Reads (do
        colon
        return (field.key :: seen, ← field.read s)) ([.colon] ++ (form ++ [])) (field.key :: seen, s') :=
    (reads_expect .colon "expected a colon").bind (read.bind (reads_pure (field.key :: seen, s')))
  rw [List.append_nil] at whole
  have absent : seen.contains field.key = false := by simpa using fresh
  simpa only [recordMember, known, absent, Bool.false_eq_true, ↓reduceIte, List.singleton_append]
    using whole

/-- The fields of a record that have not come yet are read in their order. -/
theorem Fills.takes (before : List (Field σ × List TokenKind))
    {parts : List (Field σ × List TokenKind)} {s s' : σ}
    (distinct : ((before ++ parts).map fun part => part.1.key).Nodup) (filled : Fills parts s s') :
    Takes (recordMember ((before ++ parts).map Prod.fst))
      (parts.map fun part => (part.1.key, part.2))
      ((before.map fun part => part.1.key).reverse, s)
      (((before ++ parts).map fun part => part.1.key).reverse, s') := by
  induction filled generalizing before with
  | nil s => 
    rw [List.append_nil]
    exact .nil _
  | @cons field form parts s middle s' first others ih =>
    have earlier : field.key ∉ before.map fun part => part.1.key := by
      rw [List.map_append, List.map_cons] at distinct
      exact fun member => (List.nodup_append.mp distinct).2.2 _ member _ List.mem_cons_self rfl
    have known : ((before ++ (field, form) :: parts).map Prod.fst).find?
        (fun f => f.key = field.key) = some field := by
      have nobody : (before.map Prod.fst).find? (fun f => f.key = field.key) = none := by
        rw [List.find?_eq_none]
        rintro f member same
        obtain ⟨part, held, rfl⟩ := List.mem_map.mp member
        exact earlier (List.mem_map.mpr ⟨part, held, by simpa using same⟩)
      rw [List.map_append, List.find?_append, nobody]
      simp
    have fresh : field.key ∉ (before.map fun part => part.1.key).reverse := by
      rw [List.mem_reverse]
      exact earlier
    have later := ih (before ++ [(field, form)]) (by simpa using distinct)
    refine .cons (reads_recordMember known fresh first) ?_
    simpa using later

/-- A printed record is read field by field. -/
theorem reads_record {parts : List (Field σ × List TokenKind)} {s s' : σ}
    (distinct : (parts.map fun part => part.1.key).Nodup) (filled : Fills parts s s') :
    Reads (record (parts.map Prod.fst) s)
      (.openBrace :: (separated (parts.map fun part => memberForms part.1.key part.2) ++
        [.closeBrace])) s' := by
  have read := reads_object (filled.takes [] distinct)
  rw [List.map_map] at read
  intro made rest same
  have result := read made rest same
  rw [List.map_eq_cons_iff] at same
  obtain ⟨token, made, rfl, same, -⟩ := same
  have complete : (parts.map Prod.fst).find? (fun f => f.required &&
      !((parts.map fun part => part.1.key).reverse).contains f.key) = none := by
    rw [List.find?_eq_none]
    intro f member
    have seen : f.key ∈ parts.map fun part => part.1.key := by
      obtain ⟨part, held, rfl⟩ := List.mem_map.mp member
      exact List.mem_map.mpr ⟨part, held, rfl⟩
    simp [seen]
  simp only [List.nil_append, List.map_nil, List.reverse_nil] at result
  simp only [record, bind_run, List.cons_append, peek_cons, Except.bind, same]
  rw [List.cons_append] at result
  simp only [result, complete]
  rfl

/-- Entries are taken one after another by a reader that puts each in front of the others. -/
theorem takes_entries {κ : Type} {parseKey : String → Except String κ} {item : Decoder α}
    {member : String → List (κ × α) → Decoder (List (κ × α))} {values : List (κ × α)}
    (read : List.Forall₂ (fun f v => parseKey f.1 = .ok v.1 ∧ Reads item f.2 v.2) forms values)
    (puts : ∀ key k before, parseKey key = .ok k → member key before = (do
      colon
      return (k, ← item) :: before)) (before : List (κ × α)) :
    Takes member forms before (values.reverse ++ before) := by
  induction read generalizing before with
  | nil => exact .nil before
  | @cons form value forms values first others ih =>
    obtain ⟨key, form⟩ := form
    obtain ⟨k, a⟩ := value
    have one : Reads (do
        colon
        return (k, ← item) :: before) ([.colon] ++ (form ++ [])) ((k, a) :: before) :=
      (reads_expect .colon "expected a colon").bind (first.2.bind (reads_pure ((k, a) :: before)))
    rw [List.append_nil, List.singleton_append, ← puts key k before first.1] at one
    rw [List.reverse_cons, List.append_assoc]
    exact .cons one (ih ((k, a) :: before))

/-- A printed object is read back as a list of entries. -/
theorem reads_entries {κ : Type} {parseKey : String → Except String κ} {item : Decoder α}
    {values : List (κ × α)}
    (read : List.Forall₂ (fun f v => parseKey f.1 = .ok v.1 ∧ Reads item f.2 v.2) forms values) :
    Reads (entries parseKey item)
      (.openBrace :: (separated (forms.map fun f => memberForms f.1 f.2) ++ [.closeBrace])) values := by
  obtain ⟨member, own, puts⟩ : ∃ member : String → List (κ × α) → Decoder (List (κ × α)),
      (entries parseKey item = do
        let read ← object member []
        return read.reverse) ∧
      ∀ key k before, parseKey key = .ok k → member key before = (do
        colon
        return (k, ← item) :: before) :=
    ⟨_, rfl, fun key k before parsed => by simp only [parsed]⟩
  have whole := (reads_object (takes_entries read puts [])).bind (f := fun read => pure read.reverse)
    (reads_pure (values.reverse ++ []).reverse)
  rw [List.append_nil, List.append_nil, List.reverse_reverse] at whole
  rw [own]
  exact whole

/-- What is read from the tokens of a text is read from the text. -/
theorem runUnits_of_spells {decoder : Decoder α} {text : List Char} (spelled : Spells text kinds)
    (read : Reads decoder kinds a) : runUnits decoder (text.map some) = .ok a := by
  obtain ⟨made, m, forms, lexed⟩ := spelled.tokens_eq
  have result := read made [⟨.finish, m⟩] forms
  rw [← lexed] at result
  simp only [runUnits, result]
  rfl

end Decoder

end RuleDepot.Json
