import Mathlib.Data.List.Basic
import Mathlib.Tactic.Ring

/-!
# ISO timestamps

`Date.prototype.toISOString` on instants from 1970 to the end of the year 9999, in milliseconds,
and `Date.parse` on texts of that form. A calendar is a list of lengths: the years split the days,
the months split the days of a year, and joining undoes splitting for any list of lengths.
-/
namespace IsoTimestamps

open List

def digit (n : Nat) : Char := Char.ofNat (48 + n % 10)

def digitValue (c : Char) : Option Nat :=
  if 48 ≤ c.toNat ∧ c.toNat ≤ 57 then some (c.toNat - 48) else none

lemma digitValue_digit {n : Nat} (h : n < 10) : digitValue (digit n) = some n := by
  have hall : ∀ n, n < 10 → digitValue (digit n) = some n := by decide
  exact hall n h

/-- `n` in exactly `width` decimal digits. -/
def pad : Nat → Nat → List Char
  | 0, _ => []
  | width + 1, n => digit (n / 10 ^ width) :: pad width (n % 10 ^ width)

/-- Reads exactly `width` digits and continues the number read so far. -/
def readDigits : Nat → Nat → List Char → Option (Nat × List Char)
  | 0, n, cs => some (n, cs)
  | _ + 1, _, [] => none
  | width + 1, n, c :: cs => (digitValue c).bind fun d => readDigits width (10 * n + d) cs

lemma readDigits_pad (width : Nat) : ∀ (n m : Nat) (rest : List Char), m < 10 ^ width →
    readDigits width n (pad width m ++ rest) = some (n * 10 ^ width + m, rest) := by
  induction width with
  | zero =>
    intro n m rest hm
    obtain rfl : m = 0 := by simpa using hm
    simp [readDigits, pad]
  | succ width ih =>
    intro n m rest hm
    have hpos : 0 < 10 ^ width := Nat.pow_pos (by decide)
    have hdigit : m / 10 ^ width < 10 := by
      rw [Nat.div_lt_iff_lt_mul hpos, ← Nat.pow_succ']
      exact hm
    have hrest := ih (10 * n + m / 10 ^ width) (m % 10 ^ width) rest (Nat.mod_lt _ hpos)
    have hvalue : (10 * n + m / 10 ^ width) * 10 ^ width + m % 10 ^ width
        = n * 10 ^ (width + 1) + m := by
      have hdiv := Nat.div_add_mod' m (10 ^ width)
      calc (10 * n + m / 10 ^ width) * 10 ^ width + m % 10 ^ width
          = n * 10 ^ (width + 1) + (m / 10 ^ width * 10 ^ width + m % 10 ^ width) := by ring
        _ = n * 10 ^ (width + 1) + m := by rw [hdiv]
    simp only [pad, cons_append, readDigits, digitValue_digit hdigit, Option.bind_some]
    rw [hrest, hvalue]

/-- The index of the span that `d` falls into, and the rest within it. -/
def split : List Nat → Nat → Nat × Nat
  | [], d => (0, d)
  | l :: ls, d => if d < l then (0, d) else ((split ls (d - l)).1 + 1, (split ls (d - l)).2)

def join : List Nat → Nat → Nat → Nat
  | _, 0, r => r
  | [], _ + 1, r => r
  | l :: ls, i + 1, r => l + join ls i r

lemma join_split (ls : List Nat) (d : Nat) : join ls (split ls d).1 (split ls d).2 = d := by
  induction ls generalizing d with
  | nil => rfl
  | cons l ls ih =>
    by_cases h : d < l
    · simp [split, h, join]
    · simp only [split, if_neg h, join, ih]
      omega

variable {ls : List Nat} {ms d : Nat}

lemma split_index_lt (h : d < ls.sum) : (split ls d).1 < ls.length := by
  induction ls generalizing d with
  | nil => simp at h
  | cons l ls ih =>
    by_cases hd : d < l
    · simp [split, hd]
    rw [sum_cons] at h
    have hrest := ih (d := d - l) (by omega)
    simp only [split, if_neg hd, length_cons]
    omega

lemma split_rest_lt (bound : Nat) (h : d < ls.sum) (hbound : ∀ l ∈ ls, l ≤ bound) : (split ls d).2 < bound := by
  induction ls generalizing d with
  | nil => simp at h
  | cons l ls ih =>
    obtain ⟨hl, hls⟩ := forall_mem_cons.mp hbound
    by_cases hd : d < l
    · simp only [split, if_pos hd]
      omega
    rw [sum_cons] at h
    simp only [split, if_neg hd]
    exact ih (by omega) hls

lemma split_rest_lt_get (h : d < ls.sum) : ∃ l, ls[(split ls d).1]? = some l ∧ (split ls d).2 < l := by
  induction ls generalizing d with
  | nil => simp at h
  | cons l ls ih =>
    by_cases hd : d < l
    · exact ⟨l, by simp [split, hd], by simp [split, hd]⟩
    rw [sum_cons] at h
    obtain ⟨m, hm, hlt⟩ := ih (d := d - l) (by omega)
    exact ⟨m, by simp [split, hd, hm], by simpa [split, hd] using hlt⟩

def leap (year : Nat) : Bool := year % 4 = 0 && (year % 100 != 0 || year % 400 = 0)

def monthLengths (year : Nat) : List Nat :=
  [31, if leap year then 29 else 28, 31, 30, 31, 30, 31, 31, 30, 31, 30, 31]

def yearLength (year : Nat) : Nat := if leap year then 366 else 365

/-- The years from 1970 to 9999. -/
def yearLengths : List Nat := (List.range' 1970 8030).map yearLength

lemma sum_monthLengths (year : Nat) : (monthLengths year).sum = yearLength year := by
  cases h : leap year <;> simp [monthLengths, yearLength, h]

lemma getElem?_yearLengths {i : Nat} (h : i < 8030) : yearLengths[i]? = some (yearLength (1970 + i)) := by
  rw [yearLengths, getElem?_map, getElem?_range' h]
  simp

/-- The first instant whose year has five digits. -/
def endOfTime : Nat := 253402300800000

lemma endOfTime_eq : endOfTime = yearLengths.sum * 86400000 := by decide +kernel

/-- The parts of a timestamp as its text has them. -/
structure Parts where
  (year month day hours minutes seconds millis : Nat)

def Parts.chars (p : Parts) : List Char :=
  pad 4 p.year ++ '-' :: (pad 2 p.month ++ '-' :: (pad 2 p.day ++ 'T' :: (pad 2 p.hours ++ ':' ::
    (pad 2 p.minutes ++ ':' :: (pad 2 p.seconds ++ '.' :: (pad 3 p.millis ++ ['Z']))))))

/-- A separator of the timestamp pattern and the digits after it. -/
def readPart (separator : Char) (width : Nat) : List Char → Option (Nat × List Char)
  | [] => none
  | c :: cs => if c = separator then readDigits width 0 cs else none

def readParts (cs : List Char) : Option Parts := do
  let (year, cs) ← readDigits 4 0 cs
  let (month, cs) ← readPart '-' 2 cs
  let (day, cs) ← readPart '-' 2 cs
  let (hours, cs) ← readPart 'T' 2 cs
  let (minutes, cs) ← readPart ':' 2 cs
  let (seconds, cs) ← readPart ':' 2 cs
  let (millis, cs) ← readPart '.' 3 cs
  if cs = ['Z'] then some ⟨year, month, day, hours, minutes, seconds, millis⟩ else none

lemma readPart_pad (separator : Char) {width n : Nat} (rest : List Char) (h : n < 10 ^ width) :
    readPart separator width (separator :: (pad width n ++ rest)) = some (n, rest) := by
  rw [readPart, if_pos rfl, readDigits_pad width 0 n rest h]
  simp

lemma readParts_chars {p : Parts} (hyear : p.year < 10 ^ 4) (hmonth : p.month < 10 ^ 2)
    (hday : p.day < 10 ^ 2) (hhours : p.hours < 10 ^ 2) (hmin : p.minutes < 10 ^ 2)
    (hsec : p.seconds < 10 ^ 2) (hmill : p.millis < 10 ^ 3) : readParts p.chars = some p := by
  have hfirst : ∀ rest, readDigits 4 0 (pad 4 p.year ++ rest) = some (p.year, rest) := by
    intro rest
    rw [readDigits_pad 4 0 p.year rest hyear]
    simp
  simp [readParts, Parts.chars, hfirst, readPart_pad _ _ hmonth, readPart_pad _ _ hday, readPart_pad _ _ hhours,
    readPart_pad _ _ hmin, readPart_pad _ _ hsec, readPart_pad _ _ hmill]

def partsOf (ms : Nat) : Parts :=
  let days := split yearLengths (ms / 86400000)
  let date := split (monthLengths (1970 + days.1)) days.2
  let time := ms % 86400000
  { year := 1970 + days.1
    month := date.1 + 1
    day := date.2 + 1
    hours := time / 3600000
    minutes := time / 60000 % 60
    seconds := time / 1000 % 60
    millis := time % 1000 }

def Parts.instant (p : Parts) : Nat :=
  join yearLengths (p.year - 1970) (join (monthLengths p.year) (p.month - 1) (p.day - 1)) * 86400000
    + (p.hours * 3600000 + p.minutes * 60000 + p.seconds * 1000 + p.millis)

def toISOString (ms : Nat) : String := String.ofList (partsOf ms).chars

/-- `Date.parse` on texts of the timestamp pattern; none for other texts and before 1970. -/
def dateParse (text : String) : Option Nat := do
  let parts ← readParts text.toList
  if 1970 ≤ parts.year then some parts.instant else none

/-- The text is the timestamp of the instant it is read as. -/
def isIsoTimestamp (text : String) : Bool :=
  match dateParse text with
  | some ms => toISOString ms == text
  | none => false

lemma instant_partsOf (ms : Nat) : (partsOf ms).instant = ms := by
  have htime : ∀ t : Nat, t < 86400000 →
      t / 3600000 * 3600000 + t / 60000 % 60 * 60000 + t / 1000 % 60 * 1000 + t % 1000 = t := by
    omega
  simp only [partsOf, Parts.instant, Nat.add_sub_cancel_left, Nat.add_sub_cancel, join_split]
  rw [htime _ (Nat.mod_lt _ (by decide)), Nat.div_add_mod' ms 86400000]

lemma partsOf_date (h : ms < endOfTime) :
    (partsOf ms).year < 10 ^ 4 ∧ (partsOf ms).month < 10 ^ 2 ∧ (partsOf ms).day < 10 ^ 2 := by
  have hdays : ms / 86400000 < yearLengths.sum := by
    rw [Nat.div_lt_iff_lt_mul (by decide), ← endOfTime_eq]
    exact h
  have hyear : (split yearLengths (ms / 86400000)).1 < 8030 := by
    have hlt := split_index_lt hdays
    rwa [yearLengths, length_map, length_range'] at hlt
  obtain ⟨length, hget, hrest⟩ := split_rest_lt_get hdays
  cases (getElem?_yearLengths hyear).symm.trans hget
  rw [← sum_monthLengths] at hrest
  have hmonth := split_index_lt hrest
  have hday := split_rest_lt 31 hrest (by
    intro l hl
    simp only [monthLengths, mem_cons, not_mem_nil, or_false] at hl
    split at hl <;> omega)
  simp only [monthLengths, length_cons, length_nil] at hmonth
  refine ⟨?_, ?_, ?_⟩
  · change 1970 + _ < 10 ^ 4
    omega
  · exact Nat.lt_of_lt_of_le (Nat.succ_lt_succ hmonth) (by decide)
  · exact Nat.lt_of_lt_of_le (Nat.succ_lt_succ hday) (by decide)

lemma dateParse_toISOString (h : ms < endOfTime) : dateParse (toISOString ms) = some ms := by
  have htime : ms % 86400000 < 86400000 := Nat.mod_lt _ (by decide)
  have hhours : ms % 86400000 / 3600000 < 10 ^ 2 := by omega
  have hmin : ms % 86400000 / 60000 % 60 < 10 ^ 2 := by omega
  have hsec : ms % 86400000 / 1000 % 60 < 10 ^ 2 := by omega
  have hmill : ms % 86400000 % 1000 < 10 ^ 3 := by omega
  obtain ⟨hyear, hmonth, hday⟩ := partsOf_date h
  have hparts := readParts_chars hyear hmonth hday hhours hmin hsec hmill
  rw [dateParse, toISOString, String.toList_ofList, hparts]
  have hfrom : 1970 ≤ (partsOf ms).year := Nat.le_add_right 1970 _
  simp [hfrom, instant_partsOf]

lemma isIsoTimestamp_toISOString (h : ms < endOfTime) : isIsoTimestamp (toISOString ms) := by
  simp [isIsoTimestamp, dateParse_toISOString h]

example : toISOString 951827696789 = "2000-02-29T12:34:56.789Z" := by decide +kernel

end IsoTimestamps
