import Mathlib.Data.List.TakeWhile
import Mathlib.Order.Interval.Finset.Nat
import Mathlib.Tactic.IntervalCases
import AuxCommon.Lib.Result
import AuxCommon.Lib.Text
import AuxCommon.Lib.Tokens
import AuxCommon.Policy

/-!
# Weekdays of a cron expression

`time/cron_expression.rs`: an expression has five fields, and its weekdays are numbered as in POSIX,
0 to 7 with two Sundays. The parser that reads it (the crate `cron`, a parameter here) numbers them
1 to 7 from Sunday, and `normalizeParserWeekday` rewrites the field for it.

- **The limits** (`validateCronFields`) are checked before anything is read.
- **A range** is written out as a list (`expandRange`); `mem_expandRange` says which days are on it.
  The loop stops by a subtraction that saturates, so that a range from 0 whose step is larger than
  its end goes on to the step; such a range has no `StepFits`.
- **The field** means the same days before and after (`weekday_fields_agree`).
-/

namespace AuxCommon.Cron

open Finset

/-! ## Texts -/

/-- `str::len`. -/
def byteLength (text : List Char) : Nat := (text.map Char.utf8Size).sum

def isAsciiWhitespace (c : Char) : Bool := [' ', '\t', '\n', '\x0c', '\r'].contains c

/-- `split_ascii_whitespace`. -/
def splitAsciiWhitespace (text : List Char) : List (List Char) :=
  (text.splitOnP isAsciiWhitespace).filter (!·.isEmpty)

/-- `split_once`. -/
def splitOnce (c : Char) (text : List Char) : Option (List Char × List Char) :=
  match text.dropWhile (· != c) with
  | [] => none
  | _ :: rest => some (text.takeWhile (· != c), rest)

variable {c : Char} {n : Nat} {values : List Nat}

theorem splitOnce_of_notMem {text : List Char} (h : c ∉ text) : splitOnce c text = none := by
  have hdrop : text.dropWhile (· != c) = [] :=
    List.dropWhile_eq_nil_iff.mpr fun d hd => bne_iff_ne.mpr fun heq => h (heq ▸ hd)
  rw [splitOnce, hdrop]

theorem splitOnce_append {before : List Char} (h : c ∉ before) (rest : List Char) :
    splitOnce c (before ++ c :: rest) = some (before, rest) := by
  have hall : ∀ d ∈ before, (d != c) = true := fun d hd => bne_iff_ne.mpr fun heq => h (heq ▸ hd)
  rw [splitOnce, List.dropWhile_append_of_pos hall, List.takeWhile_append_of_pos hall]
  simp

/-- `str::parse::<u8>`. -/
def parseU8 (text : List Char) : Option Nat :=
  let digits := stripPlus text
  if digits = [] ∨ digits.all Char.isDigit = false then none
  else if Nat.ofDigitChars 10 digits 0 ≤ 255 then some (Nat.ofDigitChars 10 digits 0)
  else none

/-- `to_string`. -/
abbrev digits (n : Nat) : List Char := Nat.toDigits 10 n

theorem isDigit_of_mem_digits (h : c ∈ digits n) : c.isDigit = true :=
  Nat.isDigit_of_mem_toDigits (by decide) (by decide) h

theorem notMem_digits (h : c.isDigit = false) (n : Nat) : c ∉ digits n :=
  fun hc => by simp [isDigit_of_mem_digits hc] at h

theorem parseU8_digits (h : n ≤ 255) : parseU8 (digits n) = some n := by
  have hplus : stripPlus (digits n) = digits n := by
    have hhead : '+' ∉ digits n := notMem_digits rfl n
    unfold stripPlus
    split
    · rename_i heq
      simp [heq] at hhead
    · rfl
  have hall : (digits n).all Char.isDigit = true :=
    List.all_eq_true.mpr fun c hc => isDigit_of_mem_digits hc
  have hne : digits n ≠ [] := Nat.toDigits_ne_nil
  simp only [parseU8, hplus, hall, hne, Nat.ofDigitChars_ten_toDigits, h]
  rfl

/-! ## The fields -/

/-- `MAX_INPUT_BYTES`. -/
def maxInputBytes : Nat := 256

/-- `MAX_FIELD_BYTES`. -/
def maxFieldBytes : Nat := 128

/-- `MAX_SEGMENTS`. -/
def maxSegments : Nat := 32

/-- The error for what is no cron expression. -/
def invalid : ValidationError := .invalidValue "cron expression"

variable (field : List Char)

/-- `has_portable_extension`. -/
def hasPortableExtension : Bool :=
  field.head? == some '@' || field.contains '?' || field.contains 'L' || field.contains 'W' ||
    field.contains '#'

def segments : Nat := (field.splitOn ',').length

/-- The loop of `validate_cron_fields`. -/
def setFields (fields : Vector (List Char) 5) (fieldCount segmentCount : Nat) :
    List (List Char) → Except ValidationError (Vector (List Char) 5)
  | [] => .ok fields
  | field :: rest =>
    if h : fieldCount < 5 then
      if byteLength field > maxFieldBytes then
        .error (.tooLong "cron field" maxFieldBytes (byteLength field))
      else
        let segmentCount := segmentCount + segments field
        if segmentCount > maxSegments then
          .error (.tooLong "cron segments" maxSegments segmentCount)
        else setFields (fields.set fieldCount field) (fieldCount + 1) segmentCount rest
    else .error invalid

def validateCronFields (input : List Char) : Except ValidationError (Vector (List Char) 5) := do
  if byteLength input > maxInputBytes then
    throw (.tooLong "cron expression" maxInputBytes (byteLength input))
  let fields ← setFields (.replicate 5 []) 0 0 (splitAsciiWhitespace input)
  if fields.toList.any List.isEmpty || fields.toList.any hasPortableExtension then throw invalid
  return fields

/-! ## The weekdays -/

def normalizeWeekdayNumber (value : Nat) : Option Nat :=
  match value with
  | 0 | 7 => some 1
  | 1 | 2 | 3 | 4 | 5 | 6 => some (value + 1)
  | _ => none

theorem normalizeWeekdayNumber_eq {value : Nat} (h : value ≤ 7) :
    normalizeWeekdayNumber value = some (value % 7 + 1) := by
  interval_cases value <;> rfl

theorem le_of_normalizeWeekdayNumber {value day : Nat} (h : normalizeWeekdayNumber value = some day) :
    value ≤ 7 := by
  by_contra hlt
  have hnone : normalizeWeekdayNumber value = none := by
    unfold normalizeWeekdayNumber
    split <;> first | omega | rfl
  simp [hnone] at h

/-- The loop of `normalize_weekday_range`, on `u8` values. -/
def expandRange (stop step : Nat) (hstep : 0 < step) (value : Nat) (values : List Nat) :
    Option (List Nat) :=
  match _h : normalizeWeekdayNumber value with
  | none => none
  | some normalized =>
    let values := if values.contains normalized then values else values ++ [normalized]
    if value > stop - step then some values
    else expandRange stop step hstep (min (value + step) 255) values
termination_by 8 - value
decreasing_by
  have := le_of_normalizeWeekdayNumber _h
  omega

def normalizeWeekdayRange (start stop : List Char) (step : Option (List Char)) :
    Option (List Char) :=
  match parseU8 start, parseU8 stop with
  | some first, some last =>
    if first > last then none
    else do
      let step ← step.elim (some 1) parseU8
      if hstep : 0 < step then
        return [','].intercalate ((← expandRange last step hstep first []).map digits)
      else none
  | _, _ => some (start ++ '-' :: stop ++ step.elim [] ('/' :: ·))

def normalizeWeekdayPart (part : List Char) : Option (List Char) := do
  let (base, step) := (splitOnce '/' part).elim (part, none) fun (base, step) => (base, some step)
  let normalized ← match splitOnce '-' base with
    | some (start, stop) => normalizeWeekdayRange start stop step
    | none =>
      if base = ['*'] then some base
      else (parseU8 base).elim (some base) fun number => (normalizeWeekdayNumber number).map digits
  if base.contains '-' then some normalized
  else some (normalized ++ step.elim [] ('/' :: ·))

def normalizeParserWeekday : Option (List Char) :=
  ((field.splitOn ',').mapM normalizeWeekdayPart).map [','].intercalate

/-! ## Expressions -/

structure CronExpression (Schedule : Type) where
  canonical : List Char
  schedule : Schedule
  deriving DecidableEq

section Parser

-- `Schedule::from_str` of the crate `cron`
variable {Schedule : Type} (fromStr : List Char → Option Schedule)

/-- The seven fields that the crate reads: seconds come first and years last. -/
def parserInput (minute hour dayOfMonth month weekday : List Char) : List Char :=
  [' '].intercalate [['0'], minute, hour, dayOfMonth, month, weekday, ['*']]

def parseCronSchedule (fields : Vector (List Char) 5) : Except ValidationError Schedule :=
  match normalizeParserWeekday fields[4] with
  | none => .error invalid
  | some weekday =>
    (fromStr (parserInput fields[0] fields[1] fields[2] fields[3] weekday)).elim (.error invalid) .ok

/-- `CronExpression::try_new`. -/
def tryNew (input : List Char) : Except ValidationError (CronExpression Schedule) := do
  let fields ← validateCronFields input
  return ⟨[' '].intercalate fields.toList, ← parseCronSchedule fromStr fields⟩

end Parser

/-! ## What a field means -/

/-- `first`, `first + step` and so on, up to `last`. -/
def progression (first last step : Nat) : Finset Nat :=
  (Finset.Icc first last).filter fun n => step ∣ n - first

theorem mem_progression {first last step n : Nat} :
    n ∈ progression first last step ↔ first ≤ n ∧ n ≤ last ∧ step ∣ n - first := by
  rw [progression, mem_filter, mem_Icc, and_assoc]

/-- A part of a weekday field. -/
inductive Part
  | all
  | every (step : Nat)
  | day (n : Nat)
  | range (first last : Nat)
  | stepped (first last step : Nat)

namespace Part

def text : Part → List Char
  | .all => ['*']
  | .every step => '*' :: '/' :: digits step
  | .day n => digits n
  | .range first last => digits first ++ '-' :: digits last
  | .stepped first last step => digits first ++ '-' :: digits last ++ '/' :: digits step

/-- The numbers of the days that the part names. -/
def numbers : Part → Finset Nat
  | .all => Finset.Icc 0 7
  | .every step => progression 0 7 step
  | .day n => {n}
  | .range first last => Finset.Icc first last
  | .stepped first last step => progression first last step

def Valid : Part → Prop
  | .all => True
  | .every step => 1 ≤ step
  | .day n => n ≤ 7
  | .range first last => first ≤ last ∧ last ≤ 7
  | .stepped first last step => first ≤ last ∧ last ≤ 7 ∧ 1 ≤ step

/-- A step is one that the parser or `u8` can hold, and a range from 0 has room for it. -/
def StepFits : Part → Prop
  | .every step => step ≤ 7
  | .range first last => first = 0 → 1 ≤ last
  | .stepped first last step => step ≤ 255 ∧ (first = 0 → step ≤ last)
  | _ => True

end Part

def fieldText (parts : List Part) : List Char := [','].intercalate (parts.map Part.text)

/-- The weekdays of a field, 0 to 6 from Sunday: 7 is Sunday too. -/
def posixWeekdays (parts : List Part) : Finset Nat :=
  (parts.foldr (fun (part : Part) days => part.numbers ∪ days) ∅).image (· % 7)

variable {parts : List Part}

theorem mem_posixWeekdays {d : Nat} :
    d ∈ posixWeekdays parts ↔ ∃ part ∈ parts, ∃ n ∈ part.numbers, n % 7 = d := by
  have hnumbers : ∀ n, n ∈ parts.foldr (fun (part : Part) days => part.numbers ∪ days) ∅ ↔
      ∃ part ∈ parts, n ∈ part.numbers := by
    intro n
    induction parts with
    | nil => simp
    | cons part parts ih => simp [ih]
  simp only [posixWeekdays, mem_image, hnumbers]
  grind

/-- The numbers that the parser knows for weekdays. -/
def parserNumber (text : List Char) : Option Nat := (List.range' 1 7).find? (digits · = text)

theorem parserNumber_digits (hpos : 1 ≤ n) (hle : n ≤ 7) : parserNumber (digits n) = some n := by
  interval_cases n <;> rfl

/-- What a part means to the parser, where Sunday is 1 and Saturday 7. -/
def parserPart (text : List Char) : Option (Finset Nat) :=
  match splitOnce '/' text with
  | none => if text = ['*'] then some (Finset.Icc 1 7) else (parserNumber text).map ({·})
  | some (base, step) =>
    if base = ['*'] then (parserNumber step).map (progression 1 7 ·) else none

/-- What a list of parts means to the parser. -/
def parserWeekdays (text : List Char) : Option (Finset Nat) :=
  let parts := (text.splitOn ',').map parserPart
  if parts.all Option.isSome then some (parts.foldr (fun days rest => days.getD ∅ ∪ rest) ∅)
  else none

/-- The pieces are parts to the parser, and mean the days. -/
structure Denotes (pieces : List (List Char)) (days : Finset Nat) : Prop where
  parts : ∀ piece ∈ pieces, ∃ set, parserPart piece = some set
  mem_iff : ∀ d, d ∈ days ↔ ∃ piece ∈ pieces, ∃ set, parserPart piece = some set ∧ d ∈ set

namespace Denotes

theorem parserWeekdays_eq {text : List Char} {days : Finset Nat}
    (h : Denotes (text.splitOn ',') days) : parserWeekdays text = some days := by
  have hall : ((text.splitOn ',').map parserPart).all Option.isSome = true := by
    simp only [List.all_map, List.all_eq_true, Function.comp_apply]
    intro piece hpiece
    obtain ⟨set, hset⟩ := h.parts piece hpiece
    rw [hset, Option.isSome_some]
  have hmem : ∀ (pieces : List (List Char)) (d : Nat),
      d ∈ (pieces.map parserPart).foldr (fun days rest => days.getD ∅ ∪ rest) ∅ ↔
        ∃ piece ∈ pieces, ∃ set, parserPart piece = some set ∧ d ∈ set := by
    intro pieces d
    induction pieces with
    | nil => simp
    | cons piece pieces ih =>
      rw [List.map_cons, List.foldr_cons, mem_union, ih, List.exists_mem_cons_iff]
      cases parserPart piece <;> simp
  simp only [parserWeekdays, hall, if_true, Option.some.injEq]
  ext d
  rw [hmem, h.mem_iff]

/-- The numbers of some days, written out. -/
theorem numbers (h : ∀ v ∈ values, 1 ≤ v ∧ v ≤ 7) :
    Denotes (values.map digits) values.toFinset := by
  have hpart : ∀ v ∈ values, parserPart (digits v) = some {v} := by
    intro v hv
    have hne : digits v ≠ ['*'] := fun heq => notMem_digits rfl v (heq ▸ List.mem_singleton_self '*')
    rw [parserPart, splitOnce_of_notMem (notMem_digits rfl v)]
    simp only [hne, if_false, parserNumber_digits (h v hv).1 (h v hv).2, Option.map_some]
  constructor
  · intro piece hpiece
    obtain ⟨v, hv, rfl⟩ := List.mem_map.mp hpiece
    exact ⟨_, hpart v hv⟩
  · intro d
    rw [List.mem_toFinset]
    constructor
    · exact fun hd => ⟨_, List.mem_map_of_mem hd, _, hpart d hd, mem_singleton_self d⟩
    · rintro ⟨piece, hpiece, set, hset, hd⟩
      obtain ⟨v, hv, rfl⟩ := List.mem_map.mp hpiece
      cases (hpart v hv).symm.trans hset
      rwa [mem_singleton.mp hd]

end Denotes

/-! ## A range -/

/-- The loop adds the days of the progression, if its first step is not past a start at 0. -/
theorem mem_expandRange {stop step : Nat} (hstep : 0 < step) (hstop : stop ≤ 7) {value : Nat}
    (hvalue : value ≤ stop) (hstart : value = 0 → step ≤ stop) (values : List Nat) :
    ∃ out, expandRange stop step hstep value values = some out ∧
      ∀ d, d ∈ out ↔ d ∈ values ∨ ∃ n ∈ progression value stop step, n % 7 + 1 = d := by
  induction hm : 8 - value using Nat.strong_induction_on generalizing value values with
  | _ m ih =>
    have hnumber := normalizeWeekdayNumber_eq (hvalue.trans hstop)
    generalize hnext : (if values.contains (value % 7 + 1) then values
      else values ++ [value % 7 + 1]) = next
    have hmem : ∀ d, d ∈ next ↔ d ∈ values ∨ value % 7 + 1 = d := by
      intro d
      rw [← hnext]
      split <;> grind
    have hunfold : expandRange stop step hstep value values =
        if value > stop - step then some next
        else expandRange stop step hstep (min (value + step) 255) next := by
      rw [expandRange]
      split <;> simp_all
    rw [hunfold]
    by_cases hlast : value > stop - step
    · -- the next number is past the end
      refine ⟨next, if_pos hlast, fun d => ?_⟩
      have honly : ∀ n, n ∈ progression value stop step ↔ n = value := by
        intro n
        rw [mem_progression]
        constructor
        · rintro ⟨hle, hn, hdvd⟩
          have := Nat.eq_zero_of_dvd_of_lt hdvd (by omega)
          omega
        · rintro rfl
          simp [hvalue]
      simp [hmem, honly]
    · rw [if_neg hlast, Nat.min_eq_left (by omega)]
      obtain ⟨out, hout, hdays⟩ := ih (8 - (value + step)) (by omega) (by omega) (by omega) next rfl
      refine ⟨out, hout, fun d => ?_⟩
      have hcons : ∀ n, n ∈ progression value stop step ↔
          n = value ∨ n ∈ progression (value + step) stop step := by
        intro n
        simp only [mem_progression]
        constructor
        · rintro ⟨hle, hn, k, hk⟩
          rcases Nat.eq_zero_or_pos k with rfl | hpos
          · left
            omega
          · have := Nat.le_mul_of_pos_right step hpos
            exact .inr ⟨by omega, hn, k - 1, by rw [Nat.mul_sub_one]; omega⟩
        · rintro (rfl | ⟨hle, hn, k, hk⟩)
          · simp [hvalue]
          · exact ⟨by omega, hn, k + 1, by rw [Nat.mul_add_one]; omega⟩
      rw [hdays, hmem]
      simp only [hcons, or_and_right, exists_or, exists_eq_left, or_assoc]

/-! ## Parts -/

namespace Denotes

theorem single {piece : List Char} {days : Finset Nat} (h : parserPart piece = some days) :
    Denotes [piece] days := by
  constructor <;> simp [h]

theorem congr {pieces : List (List Char)} {days days' : Finset Nat} (h : Denotes pieces days)
    (hdays : ∀ d, d ∈ days ↔ d ∈ days') : Denotes pieces days' :=
  ext hdays ▸ h

/-- Numbers between commas. -/
theorem joined (hne : values ≠ []) (h : ∀ v ∈ values, 1 ≤ v ∧ v ≤ 7) :
    Denotes (([','].intercalate (values.map digits)).splitOn ',') values.toFinset := by
  have hcomma : ∀ piece ∈ values.map digits, ',' ∉ piece := by
    intro piece hpiece
    obtain ⟨v, -, rfl⟩ := List.mem_map.mp hpiece
    exact notMem_digits rfl v
  rw [List.splitOn_intercalate ',' hcomma (by simpa using hne)]
  exact numbers h

end Denotes

/-- A range with a step, as it is written out. -/
theorem normalizeWeekdayRange_spec {first last step : Nat} (stepText : Option (List Char))
    (hle : first ≤ last) (hlast : last ≤ 7) (hstep : 0 < step)
    (htext : stepText.elim (some 1) parseU8 = some step) (hstart : first = 0 → step ≤ last) :
    ∃ out, normalizeWeekdayRange (digits first) (digits last) stepText = some out ∧
      Denotes (out.splitOn ',') ((progression first last step).image (· % 7 + 1)) := by
  obtain ⟨values, hvalues, hmem⟩ := mem_expandRange hstep hlast hle hstart []
  refine ⟨[','].intercalate (values.map digits), ?_, ?_⟩
  · unfold normalizeWeekdayRange
    rw [parseU8_digits (by omega), parseU8_digits (by omega)]
    simp only [gt_iff_lt, Nat.not_lt.mpr hle, if_false, htext, Option.bind_eq_bind, Option.bind_some,
      dif_pos hstep, hvalues]
    rfl
  · have hfirst : first % 7 + 1 ∈ values :=
      (hmem _).mpr (.inr ⟨first, mem_progression.mpr ⟨le_refl _, hle, by simp⟩, rfl⟩)
    refine (Denotes.joined (List.ne_nil_of_mem hfirst) fun v hv => ?_).congr fun d => ?_
    · obtain h | ⟨n, -, rfl⟩ := (hmem v).mp hv
      · cases h
      · omega
    · simp [hmem]

/-- A part that is a range is what the range is written as. -/
theorem normalizeWeekdayPart_range (first last : Nat) (part : List Char) (step : Option (List Char))
    (h : (splitOnce '/' part).elim (part, none) (fun cut => (cut.1, some cut.2)) =
      (digits first ++ '-' :: digits last, step)) :
    normalizeWeekdayPart part = normalizeWeekdayRange (digits first) (digits last) step := by
  have hdash : (digits first ++ '-' :: digits last).contains '-' = true := by simp
  simp only [normalizeWeekdayPart, h, splitOnce_append (notMem_digits (c := '-') rfl first), hdash]
  cases normalizeWeekdayRange (digits first) (digits last) step <;> rfl

/-- Each part is written for the parser with the days that it means. -/
theorem normalizeWeekdayPart_spec {part : Part} (hvalid : part.Valid) (hfits : part.StepFits) :
    ∃ out, normalizeWeekdayPart part.text = some out ∧
      Denotes (out.splitOn ',') (part.numbers.image (· % 7 + 1)) := by
  have hslash : ∀ n, '/' ∉ digits n := notMem_digits rfl
  have hrange : ∀ first last, '/' ∉ digits first ++ '-' :: digits last := by simp [hslash]
  cases part with
  | all => exact ⟨['*'], rfl, Denotes.single (by decide)⟩
  | every step =>
    have hstep : 1 ≤ step ∧ step ≤ 7 := ⟨hvalid, hfits⟩
    have hstar : '/' ∉ ['*'] := by decide
    have hcut : splitOnce '/' ('*' :: '/' :: digits step) = some (['*'], digits step) :=
      splitOnce_append hstar (digits step)
    have hcomma : ',' ∉ '*' :: '/' :: digits step := by
      simp [notMem_digits (c := ',') rfl step]
    refine ⟨'*' :: '/' :: digits step, ?_, ?_⟩
    · simp only [normalizeWeekdayPart, Part.text, hcut]
      rfl
    · rw [List.splitOn_eq_singleton hcomma]
      apply Denotes.single
      simp only [parserPart, hcut, if_true, parserNumber_digits hstep.1 hstep.2, Option.map_some,
        Option.some.injEq, Part.numbers]
      obtain ⟨hpos, hle⟩ := hstep
      interval_cases step <;> decide
  | day n =>
    have hn : n ≤ 7 := hvalid
    have hstar : digits n ≠ ['*'] :=
      fun heq => notMem_digits rfl n (heq ▸ List.mem_singleton_self '*')
    refine ⟨digits (n % 7 + 1), ?_, ?_⟩
    · simp [normalizeWeekdayPart, Part.text, splitOnce_of_notMem (hslash n),
        splitOnce_of_notMem (notMem_digits (c := '-') rfl n), hstar, parseU8_digits (hn.trans (by decide)),
        normalizeWeekdayNumber_eq hn, notMem_digits (c := '-') rfl n]
    · rw [List.splitOn_eq_singleton (notMem_digits rfl _)]
      have hday : ∀ v ∈ [n % 7 + 1], 1 ≤ v ∧ v ≤ 7 := by
        intro v hv
        rw [List.mem_singleton.mp hv]
        omega
      exact (Denotes.numbers hday).congr fun d => by simp [Part.numbers]
  | range first last =>
    obtain ⟨hle, hlast⟩ := hvalid
    have hone : ∀ n, n ∈ progression first last 1 ↔ n ∈ Finset.Icc first last := by
      simp [mem_progression]
    obtain ⟨out, hout, hdays⟩ := normalizeWeekdayRange_spec none hle hlast Nat.one_pos rfl hfits
    refine ⟨out, ?_, hdays.congr fun d => ?_⟩
    · rw [normalizeWeekdayPart_range first last _ none, hout]
      rw [Part.text, splitOnce_of_notMem (hrange first last)]
      rfl
    · simp [Part.numbers, hone]
  | stepped first last step =>
    obtain ⟨hle, hlast, hstep⟩ := hvalid
    obtain ⟨out, hout, hdays⟩ := normalizeWeekdayRange_spec (some (digits step)) hle hlast hstep
      (parseU8_digits hfits.1) hfits.2
    refine ⟨out, ?_, hdays⟩
    rw [normalizeWeekdayPart_range first last _ (some (digits step)), hout]
    rw [Part.text, splitOnce_append (hrange first last)]
    rfl

/-! ## Fields -/

namespace Part

/-- The characters of a part. -/
theorem of_mem_text {part : Part} (h : c ∈ part.text) : c.isDigit = true ∨ c ∈ ['*', '/', '-'] := by
  have hdigits : ∀ n, c ∈ digits n → c.isDigit = true := fun _ => isDigit_of_mem_digits
  cases part <;> grind [text]

theorem comma_notMem_text (part : Part) : ',' ∉ part.text := fun h => by
  simpa using of_mem_text h

end Part

/-- A weekday field has no extension in it. -/
theorem hasPortableExtension_fieldText (parts : List Part) :
    hasPortableExtension (fieldText parts) = false := by
  have hchars : ∀ c ∈ fieldText parts, c.isDigit = true ∨ c ∈ ['*', '/', '-', ','] := by
    intro c hc
    rcases mem_of_mem_intercalate hc with rfl | ⟨text, htext, hc⟩
    · simp
    · obtain ⟨part, -, rfl⟩ := List.mem_map.mp htext
      have := Part.of_mem_text hc
      grind
  have hnot : ∀ c, c.isDigit = false → c ∉ ['*', '/', '-', ','] → c ∉ fieldText parts :=
    fun c hdigit hmem hc => (hchars c hc).elim (by simp [hdigit]) hmem
  have hhead : (fieldText parts).head? ≠ some '@' :=
    fun h => hnot '@' rfl (by decide) (List.mem_of_head? h)
  simp [hasPortableExtension, hhead, hnot '?' rfl (by decide), hnot 'L' rfl (by decide),
    hnot 'W' rfl (by decide), hnot '#' rfl (by decide)]

/-- The field that is written for the parser means the same weekdays, counted from 1. -/
theorem normalizeParserWeekday_spec (hne : parts ≠ [])
    (hvalid : ∀ part ∈ parts, part.Valid) (hfits : ∀ part ∈ parts, part.StepFits) :
    ∃ text, normalizeParserWeekday (fieldText parts) = some text ∧
      parserWeekdays text = some ((posixWeekdays parts).image (· + 1)) := by
  have hspec : ∀ part ∈ parts, ∃ out, normalizeWeekdayPart part.text = some out ∧
      Denotes (out.splitOn ',') (part.numbers.image (· % 7 + 1)) :=
    fun part hpart => normalizeWeekdayPart_spec (hvalid part hpart) (hfits part hpart)
  choose! out hout hdays using hspec
  have hsplit : (fieldText parts).splitOn ',' = parts.map Part.text :=
    List.splitOn_intercalate ',' (by simp [Part.comma_notMem_text]) (by simpa using hne)
  have hmap : ∀ l : List Part, (∀ part ∈ l, part ∈ parts) →
      (l.map Part.text).mapM normalizeWeekdayPart = some (l.map out) := by
    intro l hl
    induction l with
    | nil => rfl
    | cons part l ih =>
      rw [List.forall_mem_cons] at hl
      simp [hout part hl.1, ih hl.2]
  refine ⟨[','].intercalate (parts.map out), ?_, Denotes.parserWeekdays_eq ⟨?_, fun d => ?_⟩⟩
  · rw [normalizeParserWeekday, hsplit, hmap parts fun _ => id, Option.map_some]
  all_goals simp only [splitOn_intercalate_flatMap (x := ',') (List.map_eq_nil_iff.not.mpr hne),
      List.mem_flatMap, List.mem_map]
  · rintro piece ⟨_, ⟨part, hpart, rfl⟩, hpiece⟩
    exact (hdays part hpart).parts piece hpiece
  · have hpart : ∀ part ∈ parts, (∃ n ∈ part.numbers, n % 7 + 1 = d) ↔
        ∃ piece ∈ (out part).splitOn ',', ∃ set, parserPart piece = some set ∧ d ∈ set := by
      intro part hpart
      rw [← (hdays part hpart).mem_iff, mem_image]
    simp only [mem_image, mem_posixWeekdays]
    grind

/-! ## The expression -/

section Accepted

variable {Schedule : Type} (fromStr : List Char → Option Schedule)
  (weekdays : Schedule → Finset Nat)

/-- The crate reads the weekdays that are written for it, behind the other fields. -/
def ReadsWeekdays (minute hour dayOfMonth month : List Char) : Prop :=
  ∀ text days, parserWeekdays text = some days → ∃ schedule,
    fromStr (parserInput minute hour dayOfMonth month text) = some schedule ∧
      weekdays schedule = days

/-- The limits for the five fields of an input. -/
structure WithinLimits (input : List Char) (fields : List (List Char)) : Prop where
  input : byteLength input ≤ maxInputBytes
  field : ∀ field ∈ fields, byteLength field ≤ maxFieldBytes
  segments : (fields.map segments).sum ≤ maxSegments

/-- Five fields within the limits are taken as they are. -/
theorem validateCronFields_eq {input a b c d e : List Char}
    (hinput : splitAsciiWhitespace input = [a, b, c, d, e])
    (hlimits : WithinLimits input [a, b, c, d, e])
    (hextension : ∀ field ∈ [a, b, c, d, e], hasPortableExtension field = false) :
    validateCronFields input = .ok #v[a, b, c, d, e] := by
  have hfilled : ∀ field ∈ [a, b, c, d, e], field.isEmpty = false := by
    intro field hfield
    rw [← hinput] at hfield
    simpa using (List.mem_filter.mp hfield).2
  obtain ⟨hbytes, hfield, hsegments⟩ := hlimits
  simp only [List.forall_mem_cons, List.map_cons, List.sum_cons, List.map_nil, List.sum_nil]
    at hfield hsegments hextension hfilled
  have hset : setFields (.replicate 5 []) 0 0 [a, b, c, d, e] = .ok #v[a, b, c, d, e] := by
    simp only [setFields]
    rw [dif_pos (by decide), if_neg (by omega), if_neg (by omega), dif_pos (by decide),
      if_neg (by omega), if_neg (by omega), dif_pos (by decide), if_neg (by omega),
      if_neg (by omega), dif_pos (by decide), if_neg (by omega), if_neg (by omega),
      dif_pos (by decide), if_neg (by omega), if_neg (by omega)]
    rfl
  have hlist : #v[a, b, c, d, e].toList = [a, b, c, d, e] := rfl
  rw [validateCronFields, if_neg (by omega), hinput, hset]
  simp [hlist, hfilled, hextension, bind, Except.bind, pure, Except.pure]

/-- A weekday field within the limits is accepted, and the parser reads the weekdays that it means:
those of POSIX, counted from 1. -/
theorem weekday_fields_agree (input minute hour dayOfMonth month : List Char) (parts : List Part)
    (hinput : splitAsciiWhitespace input = [minute, hour, dayOfMonth, month, fieldText parts])
    (hlimits : WithinLimits input [minute, hour, dayOfMonth, month, fieldText parts])
    (hextension : ∀ field ∈ [minute, hour, dayOfMonth, month], hasPortableExtension field = false)
    (hparser : ReadsWeekdays fromStr weekdays minute hour dayOfMonth month)
    (hne : parts ≠ []) (hvalid : ∀ part ∈ parts, part.Valid)
    (hfits : ∀ part ∈ parts, part.StepFits) :
    ∃ text cron, normalizeParserWeekday (fieldText parts) = some text ∧
      parserWeekdays text = some ((posixWeekdays parts).image (· + 1)) ∧
      tryNew fromStr input = .ok cron ∧
      weekdays cron.schedule = (posixWeekdays parts).image (· + 1) := by
  obtain ⟨text, htext, hdays⟩ := normalizeParserWeekday_spec hne hvalid hfits
  obtain ⟨schedule, hschedule, hweekdays⟩ := hparser text _ hdays
  have hfields := validateCronFields_eq hinput hlimits fun field hfield => by
    rcases List.mem_append.mp (show field ∈ [minute, hour, dayOfMonth, month] ++ [fieldText parts]
      from hfield) with h | h
    · exact hextension field h
    · rw [List.mem_singleton.mp h]
      exact hasPortableExtension_fieldText parts
  have hparse : parseCronSchedule fromStr #v[minute, hour, dayOfMonth, month, fieldText parts] =
      .ok schedule := by
    have hweekday : #v[minute, hour, dayOfMonth, month, fieldText parts][4] = fieldText parts := rfl
    rw [parseCronSchedule, hweekday, htext]
    exact congrArg (Option.elim · _ _) hschedule
  refine ⟨text, ⟨[' '].intercalate [minute, hour, dayOfMonth, month, fieldText parts], schedule⟩,
    htext, hdays, ?_, hweekdays⟩
  rw [tryNew, hfields]
  simp only [bind, Except.bind, hparse]
  rfl

end Accepted

namespace Sample

/-- The crate at midnight of each day, by its weekdays: they stand behind ten characters and in front
of two. -/
def midnight (text : List Char) : Option (Finset Nat) :=
  parserWeekdays ((text.drop 10).dropLast).dropLast

theorem readsWeekdays_midnight : ReadsWeekdays midnight id ['0'] ['0'] ['*'] ['*'] := by
  intro text days h
  refine ⟨days, ?_, rfl⟩
  have hinput : (parserInput ['0'] ['0'] ['*'] ['*'] text).drop 10 = text ++ [' '] ++ ['*'] := by
    simp [parserInput, List.intercalate]
  rw [midnight, hinput, List.dropLast_concat, List.dropLast_concat, h]

/-- Monday to Friday and Sunday. -/
def days : List Part := [.range 1 5, .day 7]

end Sample

theorem weekday_fields_agree_sample : ∃ cron,
    tryNew Sample.midnight "0 0 * * 1-5,7".toList = .ok cron ∧
      cron.schedule = (posixWeekdays Sample.days).image (· + 1) := by
  obtain ⟨-, cron, -, -, hcron, hdays⟩ := weekday_fields_agree Sample.midnight id
    "0 0 * * 1-5,7".toList ['0'] ['0'] ['*'] ['*'] Sample.days (by decide +kernel)
    ⟨by decide +kernel, by decide +kernel, by decide +kernel⟩ (by decide)
    Sample.readsWeekdays_midnight (by simp [Sample.days]) (by simp [Sample.days, Part.Valid])
    (by simp [Sample.days, Part.StepFits])
  exact ⟨cron, hcron, hdays⟩

/-- Twenty-nine times Sunday are too many segments. -/
theorem many_sundays_rejected :
    (∀ part ∈ List.replicate 29 (Part.day 0), part.Valid) ∧
      tryNew Sample.midnight ("0 0 * * ".toList ++ fieldText (.replicate 29 (.day 0))) =
        .error (.tooLong "cron segments" 32 33) := by
  refine ⟨fun part hpart => ?_, by rfl⟩
  rw [List.eq_of_mem_replicate hpart]
  exact Nat.zero_le 7

end AuxCommon.Cron
