import Voms.L3Trust.Mktime

/-!
# `ASN1_UTCTIME_mktime` on every form of a time

ASN.1 lets a UTCTime and a GeneralizedTime leave out the seconds, and give an
offset from UTC in place of the `Z`. `TimeText` is such a time with its
fields, `text` how it is written and `value` the instant it denotes.

* `mktime_exact`: which of them the function reads right, and of which
  strings, well-formed or not, it reads nothing behind the NUL at their end.

An offset is never right unless it is zero: one behind UTC is refused, and
one ahead, which is in minutes, is added as if it was in hours.
-/
namespace Voms.L3

open Voms.Core Voms.L1

/-! ## Times -/

/-- What stands behind the digits. -/
inductive Zone where
  | utc
  | offset (ahead : Bool) (hour min : Nat)
  deriving DecidableEq, Repr

/-- A GeneralizedTime has a century. -/
structure TimeText where
  century : Option Nat
  year : Nat
  mon : Nat
  mday : Nat
  hour : Nat
  min : Nat
  sec : Option Nat
  zone : Zone
  deriving DecidableEq, Repr

/-- Two digits. -/
def pairText (n : Nat) : Str := [Nat.digitChar (n / 10), Nat.digitChar (n % 10)]

def Zone.text : Zone → Str
  | .utc => ['Z']
  | .offset ahead hour min => (if ahead then '+' else '-') :: (pairText hour ++ pairText min)

/-- In minutes. -/
def Zone.minutes : Zone → Nat
  | .utc => 0
  | .offset _ hour min => hour * 60 + min

def Zone.behind : Zone → Bool
  | .utc => false
  | .offset ahead _ _ => !ahead

/-- What the zone is ahead of UTC, in seconds. -/
def Zone.ahead (zone : Zone) : Int :=
  if zone.behind then -(zone.minutes * 60 : Nat) else (zone.minutes * 60 : Nat)

namespace TimeText

def text (w : TimeText) : Str :=
  (w.century.map pairText).getD [] ++ pairText w.year ++ pairText w.mon ++ pairText w.mday ++
    pairText w.hour ++ pairText w.min ++ (w.sec.map pairText).getD [] ++ w.zone.text

def asn1 (w : TimeText) : Asn1Time :=
  ⟨if w.century.isSome then .generalized else .utc, w.text⟩

/-- Two digits of the year stand for 1950 to 2049. -/
def fullYear (w : TimeText) : Nat :=
  match w.century with
  | some century => century * 100 + w.year
  | none => if w.year < 50 then 2000 + w.year else 1900 + w.year

/-- The instant, if there is such a date and time. -/
def value (w : TimeText) : Option Int :=
  (dateTime w.fullYear w.mon w.mday w.hour w.min (w.sec.getD 0)).map (· - w.zone.ahead)

/-- What is written is two digits each. -/
structure WellFormed (w : TimeText) : Prop where
  century : ∀ c, w.century = some c → c < 100
  year : w.year < 100
  zone : ∀ ahead hour min, w.zone = .offset ahead hour min → hour < 24 ∧ min < 60

/-! ## What is read right -/

/-- The function returns 0: the offset is behind UTC, or the string has more
than 17 characters. -/
def Refused (w : TimeText) : Prop :=
  w.zone.behind = true ∨ w.century.isSome ∧ w.sec.isSome ∧ w.zone ≠ .utc

instance (w : TimeText) : Decidable w.Refused := inferInstanceAs (Decidable (_ ∨ _))

/-- The year is not taken for a later one. -/
def YearKept (w : TimeText) : Prop :=
  match w.century with
  | some century => 1900 < century * 100 + w.year
  | none => ¬ (50 ≤ w.year ∧ w.year < 70)

def ReadRight (w : TimeText) (v : Int) : Prop :=
  if w.Refused then v = 0 else w.zone.minutes = 0 ∧ w.YearKept

end TimeText

/-- Where the function looks for the zone. -/
def zoneAt (t : Asn1Time) : Nat :=
  match t.data[digitsInFront t.type]? with
  | some c =>
    if c = 'Z' ∨ c = '-' ∨ c = '+' then digitsInFront t.type else digitsInFront t.type + 2
  | none => digitsInFront t.type + 2

/-- The zone is in the string, and the string goes on as far as it should. -/
def InString (t : Asn1Time) : Prop :=
  t.data.length < 11 ∨ 17 < t.data.length ∨
    ∃ c, t.data[zoneAt t]? = some c ∧
      (c = 'Z' ∨ zoneAt t + (if c = '+' then 4 else 5) ≤ t.data.length)

/-! ## What the function reads -/

theorem digits_pairText {n : Nat} (h : n < 100) :
    Digits (Nat.digitChar (n / 10)) (Nat.digitChar (n % 10)) n := by
  have hhigh : n / 10 < 10 := by omega
  have hlow : n % 10 < 10 := Nat.mod_lt n (by decide)
  refine ⟨?_, ?_, ?_⟩
  · rw [Nat.isDigit_digitChar, decide_eq_true hhigh]
  · rw [Nat.isDigit_digitChar, decide_eq_true hlow]
  · rw [Nat.toNat_digitChar_sub_48_of_lt_ten hhigh, Nat.toNat_digitChar_sub_48_of_lt_ten hlow]
    omega

/-- The zone, wherever it stands. -/
theorem readOffset_text (front : Str) {zone : Zone}
    (h : ∀ ahead hour min, zone = .offset ahead hour min → hour < 24 ∧ min < 60) :
    readOffset (front ++ (zone.text ++ ['\x00'])) front.length =
      .ok (if zone.behind then none else some zone.minutes) := by
  unfold readOffset
  simp only [Block.load_length_add, Block.load_length]
  cases zone with
  | utc => simp [Zone.text, Block.load, Zone.minutes, Zone.behind]
  | offset ahead hour min =>
    obtain ⟨hhour, hmin⟩ := h ahead hour min rfl
    have hh := (digits_pairText (show hour < 100 by omega)).sum
    have hm := (digits_pairText (show min < 100 by omega)).sum
    cases ahead with
    | false => simp [Zone.text, pairText, Block.load, Zone.behind]
    | true => simp [Zone.text, pairText, Block.load, hh, hm, Zone.minutes, Zone.behind]

namespace TimeText

variable {w : TimeText}

/-- The digits down to the minutes. -/
def digits (w : TimeText) : Str :=
  (w.century.map pairText).getD [] ++ pairText w.year ++ pairText w.mon ++ pairText w.mday ++
    pairText w.hour ++ pairText w.min

theorem text_eq (w : TimeText) :
    w.text = w.digits ++ ((w.sec.map pairText).getD [] ++ w.zone.text) := by
  simp only [text, digits, List.append_assoc]

theorem length_digits (w : TimeText) : w.digits.length = digitsInFront w.asn1.type := by
  unfold digits asn1
  cases w.century <;> rfl

/-- The buffer has the seconds, given or not. -/
theorem fillBuffer_text (w : TimeText) :
    fillBuffer (w.text ++ ['\x00']) (digitsInFront w.asn1.type) =
      .ok (w.digits ++ (pairText (w.sec.getD 0) ++ ['Z', '\x00']),
        (w.digits ++ (w.sec.map pairText).getD []).length) := by
  have hcopy (l : Str) : Block.copy (w.digits ++ l) w.digits.length = .ok w.digits := by
    rw [Block.copy_ok (by simp), List.take_left]
  rw [← length_digits, text_eq, List.append_assoc]
  unfold fillBuffer
  simp only [Block.load_length_add, Block.load_length, hcopy, Res.ok_bind]
  cases hs : w.sec with
  | none =>
    cases w.zone with
    | utc => simp [Zone.text, Block.load, pairText]
    | offset ahead hour min => cases ahead <;> simp [Zone.text, Block.load, pairText]
  | some sec =>
    simp [pairText, Block.load]

/-- The year as the function reads it. -/
def readYearAs (w : TimeText) : Nat :=
  match w.century with
  | some century => century * 100 + w.year
  | none => w.year

theorem readTm_text (hw : w.WellFormed) (hmon : w.mon < 100) (hmday : w.mday < 100)
    (hhour : w.hour < 100) (hmin : w.min < 100) (hsec : w.sec.getD 0 < 100) :
    readTm w.asn1.type (w.digits ++ (pairText (w.sec.getD 0) ++ ['Z', '\x00'])) =
      .ok ⟨windowYear w.readYearAs, w.mon - 1, w.mday, w.hour, w.min, w.sec.getD 0⟩ := by
  have hyear := (digits_pairText hw.year).sum
  unfold digits asn1 readYearAs
  cases hc : w.century with
  | none =>
    refine readTm_tail (pairText w.year) ?_ (digits_pairText hmon) (digits_pairText hmday)
      (digits_pairText hhour) (digits_pairText hmin) (digits_pairText hsec)
    simp [readYear, twoDigits, pairText, hyear]
  | some century =>
    have hcentury := (digits_pairText (hw.century century hc)).sum
    refine readTm_tail (pairText century ++ pairText w.year) ?_ (digits_pairText hmon)
      (digits_pairText hmday) (digits_pairText hhour) (digits_pairText hmin) (digits_pairText hsec)
    simp [readYear, twoDigits, pairText, hyear, hcentury]

/-- A date and a time that exist have two digits each. -/
theorem lt_of_dateTime {year mon mday hour min sec : Nat} {v : Int}
    (h : dateTime year mon mday hour min sec = some v) :
    mon < 100 ∧ mday < 100 ∧ hour < 100 ∧ min < 100 ∧ sec < 100 := by
  unfold dateTime at h
  split at h
  · next hvalid =>
    obtain ⟨hmon1, hmon12, -, hmday, hhour, hmin, hsec⟩ := hvalid
    have hdays : daysInMonth year mon ≤ 31 := by
      unfold daysInMonth
      split
      · decide
      · interval_cases mon <;> decide
    omega
  · cases h

/-- How long the text is. -/
theorem length_text (w : TimeText) : w.text.length = digitsInFront w.asn1.type +
    (if w.sec.isSome then 2 else 0) + (if w.zone = .utc then 1 else 5) := by
  rw [text_eq, List.length_append, length_digits, List.length_append, Nat.add_assoc]
  congr 1
  cases w.sec <;> cases w.zone <;> rfl

/-- **The result** for a well-formed time. -/
theorem mktime_text (hw : w.WellFormed) {v : Int} (hv : w.value = some v) :
    asn1UtctimeMktime w.asn1 = .ok (if w.Refused then 0
      else timegm ⟨windowYear w.readYearAs, w.mon - 1, w.mday, w.hour, w.min, w.sec.getD 0⟩ +
        w.zone.minutes * 60 * 60) := by
  obtain ⟨u, hu, -⟩ := Option.map_eq_some_iff.mp hv
  obtain ⟨hmon, hmday, hhour, hmin, hsec⟩ := lt_of_dateTime hu
  have hlength := w.length_text
  have hfront : digitsInFront w.asn1.type = if w.century.isSome then 12 else 10 := by
    unfold asn1
    cases w.century <;> rfl
  have hzone : w.text ++ ['\x00'] =
      (w.digits ++ (w.sec.map pairText).getD []) ++ (w.zone.text ++ ['\x00']) := by
    rw [text_eq]
    simp only [List.append_assoc]
  unfold asn1UtctimeMktime
  by_cases hlong : w.century.isSome ∧ w.sec.isSome ∧ w.zone ≠ .utc
  · -- nineteen characters
    have hrefused : w.Refused := Or.inr hlong
    obtain ⟨hc, hs, hz⟩ := hlong
    rw [hfront, if_pos hc, if_pos hs, if_neg hz] at hlength
    rw [if_pos (Or.inr (show 17 < w.asn1.data.length by rw [asn1, hlength]; decide)),
      if_pos hrefused]
    rfl
  · have hfits : ¬ (w.asn1.data.length < 11 ∨ 17 < w.asn1.data.length) := by
      rw [show w.asn1.data.length = w.text.length from rfl, hlength, hfront]
      split_ifs with hc hs hz
      all_goals first | omega | exact absurd ⟨hc, hs, hz⟩ hlong
    have hoffset := readOffset_text (w.digits ++ (w.sec.map pairText).getD []) hw.zone
    rw [if_neg hfits, show w.asn1.data = w.text from rfl]
    dsimp only
    rw [w.fillBuffer_text, Res.ok_bind]
    dsimp only
    rw [hzone, hoffset, Res.ok_bind]
    cases hbehind : w.zone.behind with
    | true =>
      have hrefused : w.Refused := Or.inl hbehind
      rw [if_pos rfl, if_pos hrefused]
      rfl
    | false =>
      have hnot : ¬ w.Refused := by
        rintro (h | h)
        · rw [hbehind] at h
          cases h
        · exact hlong h
      rw [if_neg (by decide), if_neg hnot]
      dsimp only
      rw [readTm_text hw hmon hmday hhour hmin hsec]
      rfl

/-! ## The years -/

theorem timegm_year_lt {year year' mon mday hour min sec : Nat} {v : Int} (hlt : year < year')
    (h : dateTime year mon mday hour min sec = some v) :
    v < timegm ⟨year' - 1900, mon - 1, mday, hour, min, sec⟩ := by
  have hhi := (dateTime_bounds h).2
  unfold dateTime at h
  split at h
  · next hvalid =>
    obtain ⟨hmon1, hmon12, hmday1, -⟩ := hvalid
    have hdiv : ((mon : Int) - 1) / 12 = 0 := by omega
    have hmod : ((mon : Int) - 1) % 12 = mon - 1 := by omega
    have hyear : 1900 + ((year' : Int) - 1900) + 0 = year' := by omega
    have hmonths : 0 ≤ daysToMonth ((mon : Int) - 1) := by
      interval_cases mon <;> decide
    have hmono : daysToYear ((year : Int) + 1) ≤ daysToYear year' := by
      unfold daysToYear
      omega
    simp only [timegm, hdiv, hmod, hyear]
    split <;> omega
  · cases h

theorem windowYear_readYearAs (hw : w.WellFormed) : ∃ year' : Nat,
    windowYear w.readYearAs = (year' : Int) - 1900 ∧ w.fullYear ≤ year' ∧
      (w.fullYear = year' ↔ w.YearKept) := by
  have hyear := hw.year
  unfold readYearAs fullYear YearKept
  rw [windowYear_eq]
  cases w.century with
  | none =>
    refine ⟨if w.year < 70 then 2000 + w.year else 1900 + w.year, ?_, ?_, ?_⟩
    · dsimp only
      split_ifs <;> omega
    · dsimp only
      split_ifs <;> omega
    · dsimp only
      split_ifs <;> omega
  | some century =>
    refine ⟨if century * 100 + w.year < 70 then century * 100 + w.year + 2000
      else if 1900 < century * 100 + w.year then century * 100 + w.year
      else century * 100 + w.year + 1900, ?_, ?_, ?_⟩
    · dsimp only
      split_ifs <;> omega
    · dsimp only
      split_ifs <;> omega
    · dsimp only
      split_ifs <;> omega

/-- When the result is the instant. -/
theorem mktime_text_iff (hw : w.WellFormed) {v : Int} (hv : w.value = some v) :
    asn1UtctimeMktime w.asn1 = .ok v ↔ w.ReadRight v := by
  rw [mktime_text hw hv, Res.ok.injEq]
  unfold ReadRight
  by_cases hrefused : w.Refused
  · rw [if_pos hrefused, if_pos hrefused]
    exact eq_comm
  rw [if_neg hrefused, if_neg hrefused]
  have hnot : w.zone.behind = false := by
    cases hbehind : w.zone.behind with
    | true => exact absurd (Or.inl hbehind) hrefused
    | false => rfl
  obtain ⟨u, hu, hsub⟩ := Option.map_eq_some_iff.mp hv
  rw [Zone.ahead, hnot, if_neg (by decide)] at hsub
  obtain ⟨year', hwindow, hle, hkept⟩ := windowYear_readYearAs hw
  rw [hwindow, ← hkept]
  rcases Nat.lt_or_eq_of_le hle with hlt | heq
  · -- a later year, and nothing is taken off
    have hlater := timegm_year_lt hlt hu
    omega
  · have hsame := (timegm_of_dateTime hu).2
    rw [← heq, hsame]
    omega

end TimeText

/-! ## What the function reads of a string -/

/-- Reading goes on to the NUL at the end, and no further. -/
theorem load_text {l : Str} {i : Nat} {x : Char} (h : l[i]? = some x) :
    Block.load (l ++ ['\x00']) i = .ok x := by
  rw [Block.load, List.getElem?_append_left (List.getElem?_eq_some_iff.mp h).1, h]
  rfl

theorem load_nul (l : Str) : Block.load (l ++ ['\x00']) l.length = .ok '\x00' :=
  Block.load_length l ['\x00']

theorem load_inside {l : Str} {i : Nat} (h : i ≤ l.length) :
    ∃ x, Block.load (l ++ ['\x00']) i = .ok x := by
  rcases Nat.lt_or_eq_of_le h with hlt | rfl
  · exact ⟨_, load_text (List.getElem?_eq_getElem hlt)⟩
  · exact ⟨_, load_nul l⟩

theorem load_outside {l : Str} {i : Nat} (h : l.length < i) :
    Block.load (l ++ ['\x00']) i = .fault .outOfRange := by
  rw [Block.load, List.getElem?_eq_none (by rw [List.length_append, List.length_singleton]; omega)]

/-- The buffer is filled, or the end of the string was passed. -/
theorem fillBuffer_cases (t : Asn1Time) (h : 11 ≤ t.data.length) :
    (∃ buff1, fillBuffer (t.data ++ ['\x00']) (digitsInFront t.type) = .ok (buff1, zoneAt t)) ∨
      fillBuffer (t.data ++ ['\x00']) (digitsInFront t.type) = .fault .outOfRange ∧
        t.data.length ≤ zoneAt t := by
  have hsize : digitsInFront t.type ≤ (t.data ++ ['\x00']).length := by
    rw [List.length_append, List.length_singleton]
    cases t.type <;> simp [digitsInFront] <;> omega
  unfold fillBuffer zoneAt
  rw [Block.copy_ok hsize, Res.ok_bind]
  cases hget : t.data[digitsInFront t.type]? with
  | none =>
    have hle := List.getElem?_eq_none_iff.mp hget
    refine Or.inr ⟨?_, by dsimp only; omega⟩
    rcases Nat.lt_or_eq_of_le hle with hlt | heq
    · rw [load_outside hlt]
      rfl
    · rw [← heq, load_nul, Res.ok_bind, if_neg (by decide),
        load_outside (Nat.lt_succ_self t.data.length)]
      rfl
  | some c =>
    have hlt := (List.getElem?_eq_some_iff.mp hget).1
    refine Or.inl ?_
    rw [load_text hget, Res.ok_bind]
    dsimp only
    split
    · exact ⟨_, rfl⟩
    · obtain ⟨c', hc'⟩ := load_inside (show digitsInFront t.type + 1 ≤ t.data.length from hlt)
      rw [hc']
      exact ⟨_, rfl⟩

/-- Hours and minutes of an offset are four characters. -/
theorem loads_fault_iff {l : Str} {str : Nat} {f : Char → Char → Char → Char → Option Int} :
    (do
      let h1 ← Block.load (l ++ ['\x00']) (str + 1)
      let h2 ← Block.load (l ++ ['\x00']) (str + 2)
      let m1 ← Block.load (l ++ ['\x00']) (str + 3)
      let m2 ← Block.load (l ++ ['\x00']) (str + 4)
      pure (f h1 h2 m1 m2) : Eval (Option Int)) = .fault .outOfRange ↔ l.length < str + 4 := by
  have hload (i : Nat) : (∃ x, Block.load (l ++ ['\x00']) i = .ok x) ∧ i ≤ l.length ∨
      Block.load (l ++ ['\x00']) i = .fault .outOfRange ∧ l.length < i := by
    rcases Nat.lt_or_ge l.length i with hi | hi
    · exact Or.inr ⟨load_outside hi, hi⟩
    · exact Or.inl ⟨load_inside hi, hi⟩
  rcases hload (str + 4) with ⟨⟨m2, hm2⟩, hin⟩ | ⟨hm2, hout⟩
  · obtain ⟨h1, hh1⟩ := load_inside (show str + 1 ≤ l.length by omega)
    obtain ⟨h2, hh2⟩ := load_inside (show str + 2 ≤ l.length by omega)
    obtain ⟨m1, hm1⟩ := load_inside (show str + 3 ≤ l.length by omega)
    rw [hh1, hh2, hm1, hm2]
    exact iff_of_false (by simp) (by omega)
  · refine iff_of_true ?_ hout
    rcases hload (str + 1) with ⟨⟨h1, hh1⟩, -⟩ | ⟨hh1, -⟩
    · rcases hload (str + 2) with ⟨⟨h2, hh2⟩, -⟩ | ⟨hh2, -⟩
      · rcases hload (str + 3) with ⟨⟨m1, hm1⟩, -⟩ | ⟨hm1, -⟩
        · rw [hh1, hh2, hm1, hm2]
          rfl
        · rw [hh1, hh2, hm1]
          rfl
      · rw [hh1, hh2]
        rfl
    · rw [hh1]
      rfl

theorem readOffset_fault_iff {l : Str} {str : Nat} :
    readOffset (l ++ ['\x00']) str = .fault .outOfRange ↔
      ¬ ∃ c, l[str]? = some c ∧ (c = 'Z' ∨ str + (if c = '+' then 4 else 5) ≤ l.length) := by
  unfold readOffset
  cases hget : l[str]? with
  | none =>
    have hle := List.getElem?_eq_none_iff.mp hget
    refine iff_of_true ?_ (by simp)
    rcases Nat.lt_or_eq_of_le hle with hlt | rfl
    · rw [load_outside hlt]
      rfl
    · rw [load_nul, Res.ok_bind, if_neg (by decide), if_neg (by decide),
        load_outside (show l.length < l.length + 5 by omega)]
      rfl
  | some c =>
    simp only [Option.some.injEq, exists_eq_left', load_text hget, Res.ok_bind]
    by_cases hz : c = 'Z'
    · simp [hz]
    by_cases hplus : c = '+'
    · rw [if_neg hz, if_pos hplus, if_pos hplus, or_iff_right hz]
      refine Iff.trans loads_fault_iff ?_
      omega
    · rw [if_neg hz, if_neg hplus, if_neg hplus, or_iff_right hz]
      rcases Nat.lt_or_ge l.length (str + 5) with hout | hin
      · rw [load_outside hout]
        exact iff_of_true rfl (by omega)
      · obtain ⟨c', hc'⟩ := load_inside hin
        rw [hc', Res.ok_bind, Res.pure_eq, Res.ok_bind]
        refine iff_of_false ?_ (by omega)
        split
        · refine mt loads_fault_iff.mp ?_
          omega
        · simp

theorem never_twoDigits (buff1 : Str) (index : Nat) :
    Res.Never (· = .outOfRange) (twoDigits buff1 index) := by
  unfold twoDigits
  split <;> simp

/-- The fields are in the buffer, or were never written. -/
theorem never_readTm (type : TimeType) (buff1 : Str) :
    Res.Never (· = .outOfRange) (readTm type buff1) := by
  have hyear : Res.Never (· = .outOfRange) (readYear type buff1) := by
    unfold readYear
    split <;> simp [Res.never_bind, never_twoDigits]
  simp [readTm, Res.never_bind, hyear, never_twoDigits]

/-- Of which strings nothing behind the NUL is read. -/
theorem mktime_inString_iff (t : Asn1Time) :
    asn1UtctimeMktime t ≠ .fault .outOfRange ↔ InString t := by
  unfold asn1UtctimeMktime InString
  by_cases hlength : t.data.length < 11 ∨ 17 < t.data.length
  · rw [if_pos hlength]
    refine iff_of_true (by simp) ?_
    rcases hlength with h | h
    · exact Or.inl h
    · exact Or.inr (Or.inl h)
  rw [if_neg hlength, ← or_assoc, or_iff_right hlength, ← not_iff_not, not_not,
    ← readOffset_fault_iff]
  rcases fillBuffer_cases t (by omega) with ⟨buff1, hfill⟩ | ⟨hfill, hout⟩
  · dsimp only
    rw [hfill, Res.ok_bind]
    dsimp only
    cases hoffset : readOffset (t.data ++ ['\x00']) (zoneAt t) with
    | ok offset =>
      refine iff_of_false ?_ (by simp)
      cases offset with
      | none => simp
      | some offset =>
        cases hread : readTm t.type buff1 with
        | ok tm => simp
        | err e => simp
        | fault f => simpa using never_readTm t.type buff1 f hread
    | err e => simp
    | fault f => simp
  · dsimp only
    rw [hfill]
    refine iff_of_true rfl (readOffset_fault_iff.mpr ?_)
    rw [List.getElem?_eq_none hout]
    simp

/-- **The function on strings**: a well-formed time gives its instant exactly
under `ReadRight`, and nothing is read outside of a string exactly under
`InString`. -/
theorem mktime_exact (w : TimeText) (v : Int) (t : Asn1Time) (hw : w.WellFormed)
    (hv : w.value = some v) :
    (asn1UtctimeMktime w.asn1 = .ok v ↔ w.ReadRight v) ∧
      (asn1UtctimeMktime t ≠ .fault .outOfRange ↔ InString t) :=
  ⟨TimeText.mktime_text_iff hw hv, mktime_inString_iff t⟩

namespace Sample

/-- Noon of 1 January 2024, an hour ahead of UTC. -/
def noonAhead : TimeText := ⟨none, 24, 1, 1, 12, 0, none, .offset true 1 0⟩

/-- The same without an offset. -/
def noon : TimeText := { noonAhead with zone := .utc }

end Sample

/-- The hour is added, and sixtyfold. -/
theorem mktime_misreads :
    ¬ ∀ (w : TimeText) (v : Int) (t : Asn1Time), w.WellFormed → w.value = some v →
      asn1UtctimeMktime w.asn1 = .ok v ∧ asn1UtctimeMktime t ≠ .fault .outOfRange := by
  intro h
  have hnoon := (h Sample.noonAhead 1704106800 Sample.noon.asn1
    ⟨by simp [Sample.noonAhead], by decide, by simp [Sample.noonAhead]⟩ (by decide)).1
  exact absurd hnoon (by decide)

/-- A GeneralizedTime that ends before its minutes. -/
example : asn1UtctimeMktime ⟨.generalized, "2024010112Z".toList⟩ = .fault .outOfRange := by decide

theorem mktime_exact_noon :
    (asn1UtctimeMktime Sample.noon.asn1 = .ok 1704110400 ↔ Sample.noon.ReadRight 1704110400) ∧
      (asn1UtctimeMktime Sample.noonAhead.asn1 ≠ .fault .outOfRange ↔
        InString Sample.noonAhead.asn1) :=
  mktime_exact Sample.noon 1704110400 Sample.noonAhead.asn1
    ⟨by simp [Sample.noon, Sample.noonAhead], by decide, by simp [Sample.noon]⟩ (by decide)

end Voms.L3
