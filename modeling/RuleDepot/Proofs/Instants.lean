import Mathlib.Data.List.TakeWhile
import Mathlib.Tactic.SplitIfs
import RuleDepot.Instant.Reader
import RuleDepot.Proofs.Numerals
/-!
Instants are read back as they are written, whatever the year and however many digits the fraction
has.  The reader takes more than what is written; here only what a writer puts down is followed.
-/

namespace RuleDepot.Instant

private theorem ofLocal_zero {i : Instant} (valid : i.isValid = true) : i.ofLocal 0 = i := by
  simp only [isValid, Bool.and_eq_true, decide_eq_true_eq] at valid
  obtain ⟨⟨⟨⟨-, hours⟩, minutes⟩, -⟩, -⟩ := valid
  have total : (60 * (i.hour : Int) + i.minute - 0) % 1440 = 60 * i.hour + i.minute := by omega
  have early : ¬ 60 * (i.hour : Int) + i.minute - 0 < 0 := by omega
  have late : ¬ 1440 ≤ 60 * (i.hour : Int) + i.minute - 0 := by omega
  have hour : (60 * (i.hour : Int) + i.minute).toNat / 60 = i.hour := by omega
  have minute : (60 * (i.hour : Int) + i.minute).toNat % 60 = i.minute := by omega
  simp only [ofLocal, total, early, late, ↓reduceIte, hour, minute]

namespace Reader

variable {α β : Type} {a : α} {c : Char} {n width : Nat} {s digits rest : List Char}

private theorem bind_run (x : Reader α) (f : α → Reader β) (s : List Char) :
    (x >>= f) s = (x s).bind fun read => f read.1 read.2 := rfl

private theorem pure_run (a : α) (s : List Char) : (pure a : Reader α) s = some (a, s) := rfl

/-- There are no blanks to drop in front of what is no blank. -/
theorem blanks_run (solid : ∀ c ∈ s.head?, Text.isBlank c = false) : blanks s = some ((), s) := by
  have kept : s.dropWhile Text.isBlank = s := by
    cases s with
    | nil => rfl
    | cons c s => simp [solid c rfl]
  change some ((), s.dropWhile Text.isBlank) = _
  rw [kept]

private theorem take_run (c : Char) (s : List Char) : take c (c :: s) = some ((), s) := by
  have start : (get : Reader (List Char)) (c :: s) = some (c :: s, c :: s) := rfl
  simp only [take, bind_run, start, Option.bind_some, ↓reduceIte]
  rfl

private theorem isBlank_of_isDigit (digit : Text.isDigit c = true) : Text.isBlank c = false := by
  have bounds : 48 ≤ c.toNat ∧ c.toNat ≤ 57 := by
    simpa [Text.isDigit, Char.le_def, UInt32.le_iff_toNat_le] using digit
  simp only [Text.isBlank, Bool.or_eq_false_iff, Bool.and_eq_false_iff, decide_eq_false_iff_not,
    beq_eq_false_iff_ne, ne_eq, UInt32.le_iff_toNat_le, ← UInt32.toNat_inj]
  simp
  omega

/-- A number is read up to its last digit. -/
theorem number_run (all : ∀ c ∈ digits, Text.isDigit c = true) (some_ : digits ≠ [])
    (ends : digits.length = width ∨
      digits.length ≤ width ∧ ∀ c ∈ rest.head?, Text.isDigit c = false) :
    number width (digits ++ rest) = some (Text.decimalValue digits, rest) := by
  have whole : ((digits ++ rest).take width).takeWhile Text.isDigit = digits := by
    rcases ends with exact_ | ⟨room, stops⟩
    · rw [← exact_, List.take_left, List.takeWhile_eq_self_iff.mpr all]
    · have stopped : (rest.take (width - digits.length)).takeWhile Text.isDigit = [] := by
        cases rest with
        | nil => simp
        | cons c rest =>
          cases width - digits.length with
          | zero => rfl
          | succ left => simp [stops c rfl]
      rw [List.take_append, List.take_of_length_le room, List.takeWhile_append_of_pos all, stopped,
        List.append_nil]
  have start : (get : Reader (List Char)) (digits ++ rest) = some (digits ++ rest, digits ++ rest) := rfl
  have inhabited : digits.isEmpty = false := by simpa using some_
  simp only [number, bind_run, start, Option.bind_some, whole, inhabited, Bool.false_eq_true,
    ↓reduceIte, List.drop_left]
  rfl

/-- A number that fills its room is read. -/
theorem number_padding (fits : (Nat.toDigits 10 n).length ≤ width) (rest : List Char) :
    number width (Text.padding width n ++ rest) = some (n, rest) := by
  rw [number_run (fun c => Text.isDigit_of_mem_padding) (Text.padding_ne_nil width n)
    (Or.inl (Text.length_padding fits)), Text.decimalValue_padding]

/-- A number that a character follows is read whatever its length. -/
theorem number_long (stop : Text.isDigit c = false) (rest : List Char) :
    number (Text.padding width n ++ c :: rest).length (Text.padding width n ++ c :: rest) =
      some (n, c :: rest) := by
  rw [number_run (fun c => Text.isDigit_of_mem_padding) (Text.padding_ne_nil width n)
    (Or.inr ⟨by simp, fun d head => by cases head; exact stop⟩), Text.decimalValue_padding]

private theorem isBlank_of_head_padding :
    ∀ c ∈ (Text.padding width n ++ rest).head?, Text.isBlank c = false := by
  intro c head
  rw [List.head?_append, Option.or_of_isSome (List.isSome_head?.mpr (Text.padding_ne_nil width n))]
    at head
  exact isBlank_of_isDigit (Text.isDigit_of_mem_padding (List.mem_of_head? head))

/-- Two digits are read as what they stand for. -/
theorem spaced_padding (small : n < 100) (rest : List Char) :
    spaced 2 (Text.padding 2 n ++ rest) = some (n, rest) := by
  rw [spaced, bind_run, blanks_run isBlank_of_head_padding]
  exact number_padding ((Nat.length_toDigits_le_iff (by decide) (by decide)).mpr small) rest

private theorem mark_run (solid : Text.isBlank c = false) (rest : List Char) :
    mark c (c :: rest) = some ((), rest) := by
  rw [mark, bind_run, blanks_run fun d head => by cases head; exact solid]
  exact take_run c rest

theorem get_run (s : List Char) : (get : Reader (List Char)) s = some (s, s) := rfl

theorem set_run (s s' : List Char) : (set s' : Reader PUnit) s = some ((), s') := rfl

private theorem year_signed (n : Nat) (rest : List Char) :
    year ('-' :: (Text.padding 4 n ++ '-' :: rest)) = some (-(n : Int), '-' :: rest) ∧
      year ('+' :: (Text.padding 4 n ++ '-' :: rest)) = some ((n : Int), '-' :: rest) := by
  have minus : Text.isDigit '-' = false := by decide
  constructor
  all_goals
    rw [year, bind_run, blanks_run fun d head => by cases head; decide]
    simp only [Option.bind_some, bind_run, get_run, set_run, number_long minus rest, pure_run]

private theorem year_run (y : Int) (rest : List Char) :
    year ((yearText y).toList ++ '-' :: rest) = some (y, '-' :: rest) := by
  unfold yearText
  split_ifs with before late
  · have signed := (year_signed y.natAbs rest).1
    rw [show -(y.natAbs : Int) = y by omega] at signed
    simpa [Text.toList_zeroPadded] using signed
  · have signed := (year_signed y.natAbs rest).2
    rw [show (y.natAbs : Int) = y by omega] at signed
    simpa [Text.toList_zeroPadded] using signed
  · have read : number 4 (Text.padding 4 y.natAbs ++ '-' :: rest) = some (y.natAbs, '-' :: rest) :=
      number_padding ((Nat.length_toDigits_le_iff (by decide) (by decide)).mpr (by omega)) _
    have unsigned : ∀ c ∈ (Text.padding 4 y.natAbs ++ '-' :: rest).head?, c ≠ '-' ∧ c ≠ '+' := by
      intro c head
      rw [List.head?_append,
        Option.or_of_isSome (List.isSome_head?.mpr (Text.padding_ne_nil 4 y.natAbs))] at head
      have digit : Text.isDigit c = true := Text.isDigit_of_mem_padding (List.mem_of_head? head)
      constructor
      all_goals
        rintro rfl
        exact absurd digit (by decide)
    rw [Text.toList_zeroPadded, year, bind_run, blanks_run isBlank_of_head_padding]
    generalize Text.padding 4 y.natAbs ++ '-' :: rest = text at read unsigned ⊢
    simp only [Option.bind_some, bind_run, get_run]
    split
    · exact absurd rfl (unsigned '-' rfl).1
    · exact absurd rfl (unsigned '+' rfl).2
    · rw [bind_run, read, Option.bind_some, pure_run, show (y.natAbs : Int) = y by omega]

private theorem date_run {d : Day} (valid : d.isValid = true) (rest : List Char) :
    date ((yearText d.year).toList ++ '-' :: (Text.padding 2 d.month ++
      '-' :: (Text.padding 2 d.day ++ rest))) = some (d, rest) := by
  have bounds : d.month < 100 ∧ d.day < 100 := by
    simp only [Day.isValid, Bool.and_eq_true, decide_eq_true_eq] at valid
    have days : Day.daysIn d.year d.month ≤ 31 := by
      unfold Day.daysIn
      split_ifs <;> decide
    omega
  have minus : Text.isBlank '-' = false := by decide
  simp only [date, bind_run, year_run, mark_run minus, spaced_padding bounds.1,
    spaced_padding bounds.2, Option.bind_some, pure_run]

private theorem fraction_none (whole : ∀ c ∈ s.head?, c ≠ '.') : fraction s = some (0, s) := by
  simp only [fraction, bind_run, get_run, Option.bind_some]
  split
  · exact absurd rfl (whole '.' rfl)
  · rfl

private theorem fraction_run {nanosecond : Nat} (small : nanosecond < 1000000000) (rest : List Char)
    (stop : Text.isDigit c = false) (other : c ≠ '.') :
    fraction ((fractionText nanosecond).toList ++ c :: rest) = some (nanosecond, c :: rest) := by
  have digits (width n : Nat) (positive : 0 < width) (room : width ≤ 9) (small : n < 10 ^ width) :
      fraction ('.' :: (Text.padding width n ++ c :: rest)) =
        some (n * 10 ^ (9 - width), c :: rest) := by
    have all : ∀ d ∈ Text.padding width n, Text.isDigit d = true :=
      fun d => Text.isDigit_of_mem_padding
    have shown : (Text.padding width n ++ c :: rest).takeWhile Text.isDigit = Text.padding width n := by
      rw [List.takeWhile_append_of_pos all, List.takeWhile_cons_of_neg (by simp [stop]),
        List.append_nil]
    have behind : (Text.padding width n ++ c :: rest).dropWhile Text.isDigit = c :: rest := by
      rw [List.dropWhile_append_of_pos all, List.dropWhile_cons_of_neg (by simp [stop])]
    have length := Text.length_padding ((Nat.length_toDigits_le_iff (by decide) positive).mpr small)
    have nine : (Text.padding width n).take 9 = Text.padding width n :=
      List.take_of_length_le (by omega)
    have inhabited : (Text.padding width n).isEmpty = false := by
      simpa using Text.padding_ne_nil width n
    simp only [fraction, bind_run, get_run, Option.bind_some, shown, inhabited, Bool.false_eq_true,
      ↓reduceIte, behind, set_run, pure_run, nine, length, Text.decimalValue_padding]
    rfl
  unfold fractionText
  split_ifs with zero millions thousands
  · rw [zero]
    exact fraction_none fun d head => by cases head; exact other
  · rw [String.toList_append, Text.toList_zeroPadded]
    refine (digits 3 (nanosecond / 1000000) (by decide) (by decide) (by omega)).trans ?_
    rw [show nanosecond / 1000000 * 10 ^ (9 - 3) = nanosecond by omega]
  · rw [String.toList_append, Text.toList_zeroPadded]
    refine (digits 6 (nanosecond / 1000) (by decide) (by decide) (by omega)).trans ?_
    rw [show nanosecond / 1000 * 10 ^ (9 - 6) = nanosecond by omega]
  · rw [String.toList_append, Text.toList_zeroPadded]
    refine (digits 9 nanosecond (by decide) (by decide) (by omega)).trans ?_
    rw [Nat.sub_self, Nat.pow_zero, Nat.mul_one]

private theorem separator_run (rest : List Char) : separator ('T' :: rest) = some ((), rest) := by
  simp only [separator, bind_run, get_run, Option.bind_some]
  rfl

private theorem offset_run : offset ['Z'] = some (0, []) := by
  decide

end Reader

/-- **An instant is read back from its text**, whatever its year and its fraction. -/
theorem parse?_text {i : Instant} (valid : i.isValid = true) : parse? i.text = some i := by
  have bounds := valid
  simp only [isValid, Bool.and_eq_true, decide_eq_true_eq] at bounds
  obtain ⟨⟨⟨⟨⟨⟨date, -⟩, -⟩, hour⟩, minute⟩, second⟩, nanosecond⟩ := bounds
  have spelled : i.text.toList = (yearText i.date.year).toList ++ '-' :: (Text.padding 2 i.date.month ++
      '-' :: (Text.padding 2 i.date.day ++ 'T' :: (Text.padding 2 i.hour ++ ':' ::
        (Text.padding 2 i.minute ++ ':' :: (Text.padding 2 i.second ++
          ((fractionText i.nanosecond).toList ++ ['Z'])))))) := by
    simp [text, dateText, timeText, Text.toList_zeroPadded]
  have colon : Text.isBlank ':' = false := by decide
  have marked : ∀ c ∈ ['Z'].head?, Text.isBlank c = false := by
    rintro c ⟨⟩
    rfl
  have run : Reader.instant i.text.toList = some (i, []) := by
    rw [spelled]
    simp only [Reader.instant, Reader.bind_run, Reader.date_run date, Option.bind_some,
      Reader.separator_run, Reader.spaced_padding (by omega : i.hour < 100), Reader.mark_run colon,
      Reader.spaced_padding (by omega : i.minute < 100),
      Reader.spaced_padding (by omega : i.second < 100),
      Reader.fraction_run nanosecond [] (by decide : Text.isDigit 'Z' = false) (by decide),
      Reader.blanks_run marked, Reader.offset_run,
      Reader.blanks_run (s := []) nofun, ofLocal_zero valid, valid, Bool.and_self, ↓reduceIte,
      Reader.pure_run]
  have started : Reader.instant.run i.text.toList = some (i, []) := run
  simp only [parse?, started]

end RuleDepot.Instant
