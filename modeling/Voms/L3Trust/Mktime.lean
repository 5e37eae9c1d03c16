import Voms.L1Asn1.Types
import Voms.Core.Block
import Mathlib.Tactic.IntervalCases

/-!
# `ASN1_UTCTIME_mktime`

`src/sslutils/sslutils.c:3448-3552`. The time of a certificate as seconds
since 1970; `mktime` less `timezone`, with `tm_isdst` zero, is `timegm`.

`instant` is what the text of a certificate's time says by RFC 5280: all
digits down to the seconds and a `Z`, with two digits of the year from 1950
to 2049 in a UTCTime.

* `mktime_of_instant`: the function reads such a text as its instant, except
  that it takes a UTCTime from 1950 to 1969 for one a hundred years later.
-/
namespace Voms.L3

open Voms.Core Voms.L1

/-! ## The calendar -/

/-- `struct tm`: years since 1900, months since January. -/
structure Tm where
  year : Int
  mon : Int
  mday : Int
  hour : Int
  min : Int
  sec : Int
  deriving DecidableEq, Repr

def isLeap (year : Int) : Prop := year % 4 = 0 ∧ (year % 100 ≠ 0 ∨ year % 400 = 0)

instance (year : Int) : Decidable (isLeap year) := inferInstanceAs (Decidable (_ ∧ _))

/-- Days from 1 January 1970 to 1 January of the year. -/
def daysToYear (year : Int) : Int :=
  365 * (year - 1970) + (year - 1) / 4 - (year - 1) / 100 + (year - 1) / 400 - 477

/-- Days of the year before the month, in a year that is no leap year. -/
def daysToMonth (mon : Int) : Int :=
  [0, 31, 59, 90, 120, 151, 181, 212, 243, 273, 304, 334].getD mon.toNat 0

/-- `timegm`: a month past December is one of a later year, and the other
fields are not limited either. -/
def timegm (tm : Tm) : Int :=
  let year := 1900 + tm.year + tm.mon / 12
  let mon := tm.mon % 12
  let days := daysToYear year + daysToMonth mon + (if isLeap year ∧ 2 ≤ mon then 1 else 0) +
    (tm.mday - 1)
  ((days * 24 + tm.hour) * 60 + tm.min) * 60 + tm.sec

/-! ## The function -/

/-- `c - '0'`, with a signed `char`. -/
def digitValue (c : Char) : Int := (Int8.ofNat c.toNat).toInt - 48

/-- Two digits of the buffer; what `buff1` does not hold was never written. -/
def twoDigits (buff1 : Str) (index : Nat) : Eval Int :=
  match buff1[index]?, buff1[index + 1]? with
  | some a, some b => pure (digitValue a * 10 + digitValue b)
  | _, _ => .fault .uninit

/-- The digits from the string into the buffer: `size` of them, the seconds
or two zeros, and a `Z` with a NUL. The second result is where `str` then
points.
mirrors src/sslutils/sslutils.c:3475-3491 -/
def fillBuffer (data : Str) (size : Nat) : Eval (Str × Nat) := do
  let front ← Block.copy data size
  let c ← Block.load data size
  if c = 'Z' ∨ c = '-' ∨ c = '+' then pure (front ++ ['0', '0', 'Z', '\x00'], size)
  else do
    let c' ← Block.load data (size + 1)
    pure (front ++ [c, c', 'Z', '\x00'], size + 2)

/-- The offset, in minutes; `none` where the function returns 0.
mirrors src/sslutils/sslutils.c:3493-3505 -/
def readOffset (data : Str) (str : Nat) : Eval (Option Int) := do
  let c ← Block.load data str
  if c = 'Z' then pure (some 0)
  else do
    let wellFormed ← (if c = '+' then pure true else do
      let c' ← Block.load data (str + 5)
      pure (decide (c' = '-')))
    if wellFormed then do
      let h1 ← Block.load data (str + 1)
      let h2 ← Block.load data (str + 2)
      let m1 ← Block.load data (str + 3)
      let m2 ← Block.load data (str + 4)
      let offset := (digitValue h1 * 10 + digitValue h2) * 60 +
        (digitValue m1 * 10 + digitValue m2)
      pure (some (if c = '-' then -offset else offset))
    else pure none

/-- mirrors src/sslutils/sslutils.c:3522-3528 -/
def windowYear (year : Int) : Int :=
  let year := if year < 70 then year + 100 else year
  if 1900 < year then year - 1900 else year

/-- The year, and the index behind it.
mirrors src/sslutils/sslutils.c:3509-3528 -/
def readYear (type : TimeType) (buff1 : Str) : Eval (Int × Nat) :=
  match type with
  | .utc => do
    let year ← twoDigits buff1 0
    pure (windowYear year, 2)
  | _ => do
    let century ← twoDigits buff1 0
    let year ← twoDigits buff1 2
    pure (windowYear (century * 100 + year), 4)

/-- mirrors src/sslutils/sslutils.c:3507-3539 -/
def readTm (type : TimeType) (buff1 : Str) : Eval Tm := do
  let (year, index) ← readYear type buff1
  let mon ← twoDigits buff1 index
  let mday ← twoDigits buff1 (index + 2)
  let hour ← twoDigits buff1 (index + 4)
  let min ← twoDigits buff1 (index + 6)
  let sec ← twoDigits buff1 (index + 8)
  pure ⟨year, mon - 1, mday, hour, min, sec⟩

/-- mirrors src/sslutils/sslutils.c:3465-3473 -/
def digitsInFront : TimeType → Nat
  | .utc => 10
  | .generalized => 12
  | .other => 0

/-- `data` is followed by a NUL in memory. The offset, which is in minutes,
is multiplied like one in hours.
mirrors src/sslutils/sslutils.c:3448-3552 -/
def asn1UtctimeMktime (ctm : Asn1Time) : Eval Int :=
  if ctm.data.length < 11 ∨ 17 < ctm.data.length then pure 0
  else do
    let data := ctm.data ++ ['\x00']
    let (buff1, str) ← fillBuffer data (digitsInFront ctm.type)
    let offset ← readOffset data str
    match offset with
    | none => pure 0
    | some offset => do
      let tm ← readTm ctm.type buff1
      pure (timegm tm + offset * 60 * 60)

/-! ## What a time says -/

/-- Digits two by two, and a `Z` behind the last. -/
def pairs : Str → Option (List Nat)
  | ['Z'] => some []
  | a :: b :: rest =>
    if a.isDigit ∧ b.isDigit then
      (pairs rest).map fun ns => ((a.toNat - 48) * 10 + (b.toNat - 48)) :: ns
    else none
  | _ => none

def daysInMonth (year mon : Nat) : Nat :=
  if mon = 2 ∧ isLeap year then 29
  else [31, 28, 31, 30, 31, 30, 31, 31, 30, 31, 30, 31].getD (mon - 1) 0

/-- Seconds since 1970 of a date and a time that exist. -/
def dateTime (year mon mday hour min sec : Nat) : Option Int :=
  if 1 ≤ mon ∧ mon ≤ 12 ∧ 1 ≤ mday ∧ mday ≤ daysInMonth year mon ∧ hour < 24 ∧ min < 60 ∧ sec < 60
  then some (timegm ⟨year - 1900, mon - 1, mday, hour, min, sec⟩)
  else none

/-- The time of a certificate, by RFC 5280. -/
def instant (t : Asn1Time) : Option Int :=
  match t.type, pairs t.data with
  | .utc, some [year, mon, mday, hour, min, sec] =>
    dateTime (if year < 50 then 2000 + year else 1900 + year) mon mday hour min sec
  | .generalized, some [century, year, mon, mday, hour, min, sec] =>
    dateTime (century * 100 + year) mon mday hour min sec
  | _, _ => none

example : instant ⟨.utc, "240229235959Z".toList⟩ = some 1709251199 := by decide

/-! ## The calendar lemmas -/

section

variable {year mon mday hour min sec : Nat} {v : Int}

/-- The day of the year, from 0. -/
theorem dayOfYear_lt (hmon : 1 ≤ mon ∧ mon ≤ 12) (hday : 1 ≤ mday ∧ mday ≤ daysInMonth year mon) :
    0 ≤ daysToMonth (mon - 1) + (if isLeap year ∧ (2 : Int) ≤ mon - 1 then 1 else 0) + (mday - 1) ∧
      daysToMonth (mon - 1) + (if isLeap year ∧ (2 : Int) ≤ mon - 1 then 1 else 0) + (mday - 1) <
        365 + if isLeap year then 1 else 0 := by
  obtain ⟨hlo, hhi⟩ := hmon
  unfold daysInMonth at hday
  by_cases hleap : isLeap year
  · simp only [hleap, and_true, true_and, if_true] at hday ⊢
    interval_cases mon <;> simp [daysToMonth] at hday ⊢ <;> omega
  · simp only [hleap, and_false, false_and, if_false] at hday ⊢
    interval_cases mon <;> simp [daysToMonth] at hday ⊢ <;> omega

theorem daysToYear_succ (year : Int) :
    daysToYear (year + 1) = daysToYear year + (365 + if isLeap year then 1 else 0) := by
  by_cases hleap : isLeap year
  · rw [if_pos hleap]
    unfold isLeap at hleap
    unfold daysToYear
    omega
  · rw [if_neg hleap]
    unfold isLeap at hleap
    unfold daysToYear
    omega

/-- A date lies in its year. -/
theorem dateTime_bounds (h : dateTime year mon mday hour min sec = some v) :
    daysToYear year * 86400 ≤ v ∧ v < daysToYear (year + 1) * 86400 := by
  unfold dateTime at h
  split at h
  · next hvalid =>
    obtain ⟨hmon1, hmon2, hday1, hday2, hhour, hmin, hsec⟩ := hvalid
    have hday := dayOfYear_lt ⟨hmon1, hmon2⟩ ⟨hday1, hday2⟩
    have hdiv : ((mon : Int) - 1) / 12 = 0 := by omega
    have hmod : ((mon : Int) - 1) % 12 = mon - 1 := by omega
    have hyear : 1900 + ((year : Int) - 1900) + 0 = year := by omega
    rw [daysToYear_succ]
    simp only [timegm, Option.some.injEq, hdiv, hmod, hyear] at h
    omega
  · cases h

theorem year_le_of_neg (h : dateTime year mon mday hour min sec = some v) (hv : v < 0) :
    year < 1970 := by
  have hlo := (dateTime_bounds h).1
  unfold daysToYear at hlo
  omega

theorem le_year_of_nonneg (h : dateTime year mon mday hour min sec = some v) (hv : 0 ≤ v) :
    1970 ≤ year := by
  have hhi := (dateTime_bounds h).2
  unfold daysToYear at hhi
  omega

/-- The hundred years from then on have 25 leap days. -/
theorem timegm_century {year : Int} (hlo : 50 ≤ year) (hhi : year < 70) {mon mday hour min sec : Int}
    (hmon : 0 ≤ mon ∧ mon < 12) : timegm ⟨year + 100, mon, mday, hour, min, sec⟩ =
      timegm ⟨year, mon, mday, hour, min, sec⟩ + 3155760000 := by
  have hdiv : mon / 12 = 0 := by omega
  have hdays : daysToYear (1900 + (year + 100)) = daysToYear (1900 + year) + 36525 := by
    unfold daysToYear
    omega
  have hleap : isLeap (1900 + (year + 100)) ↔ isLeap (1900 + year) := by
    unfold isLeap
    omega
  simp only [timegm, hdiv, Int.add_zero, hdays, hleap]
  omega

end

/-! ## The function on what a certificate says -/

/-- Two characters that are digits, and their number. -/
structure Digits (a b : Char) (n : Nat) : Prop where
  first : a.isDigit = true
  second : b.isDigit = true
  value : n = (a.toNat - 48) * 10 + (b.toNat - 48)

section

variable {a b : Char} {n : Nat}

theorem toNat_of_isDigit (h : a.isDigit = true) : 48 ≤ a.toNat ∧ a.toNat ≤ 57 :=
  Char.isDigit_iff_toNat.mp h

theorem digitValue_of_isDigit (h : a.isDigit = true) : digitValue a = a.toNat - 48 := by
  have hrange := toNat_of_isDigit h
  unfold digitValue
  rw [Int8.toInt_ofNat_of_lt (by omega)]

theorem Digits.lt (h : Digits a b n) : n < 100 := by
  have ha := toNat_of_isDigit h.first
  have hb := toNat_of_isDigit h.second
  have := h.value
  omega

theorem Digits.sum (h : Digits a b n) : digitValue a * 10 + digitValue b = n := by
  have ha := toNat_of_isDigit h.first
  have hb := toNat_of_isDigit h.second
  rw [digitValue_of_isDigit h.first, digitValue_of_isDigit h.second, h.value]
  omega

/-- A digit is none of the characters the function looks for. -/
theorem not_marker_of_isDigit (h : a.isDigit = true) : ¬ (a = 'Z' ∨ a = '-' ∨ a = '+') := by
  rintro (rfl | rfl | rfl) <;> exact absurd h (by decide)

theorem twoDigits_append (front rest : Str) (k : Nat) :
    twoDigits (front ++ rest) (front.length + k) = twoDigits rest k := by
  unfold twoDigits
  rw [Nat.add_assoc, List.getElem?_append_right (Nat.le_add_right ..),
    List.getElem?_append_right (Nat.le_add_right ..), Nat.add_sub_cancel_left,
    Nat.add_sub_cancel_left]

end

theorem pairs_nil {s : Str} (h : pairs s = some []) : s = ['Z'] := by
  unfold pairs at h
  split at h
  · rfl
  · split at h
    · obtain ⟨ns, -, heq⟩ := Option.map_eq_some_iff.mp h
      cases heq
    · cases h
  · cases h

theorem pairs_cons {s : Str} {n : Nat} {ns : List Nat} (h : pairs s = some (n :: ns)) :
    ∃ a b rest, s = a :: b :: rest ∧ Digits a b n ∧ pairs rest = some ns := by
  unfold pairs at h
  split at h
  · cases h
  · next a b rest =>
    split at h
    · next hdigits =>
      obtain ⟨ms, hms, heq⟩ := Option.map_eq_some_iff.mp h
      cases heq
      exact ⟨a, b, rest, rfl, ⟨hdigits.1, hdigits.2, rfl⟩, hms⟩
    · cases h
  · cases h

/-- The end of the text, from the month on. -/
theorem pairs_tail {data : Str} {mon mday hour min sec : Nat}
    (h : pairs data = some [mon, mday, hour, min, sec]) :
    ∃ o o' d d' i i' m m' s s', data = [o, o', d, d', i, i', m, m', s, s', 'Z'] ∧
      Digits o o' mon ∧ Digits d d' mday ∧ Digits i i' hour ∧ Digits m m' min ∧
      Digits s s' sec := by
  obtain ⟨o, o', data, rfl, hmon, h⟩ := pairs_cons h
  obtain ⟨d, d', data, rfl, hmday, h⟩ := pairs_cons h
  obtain ⟨i, i', data, rfl, hhour, h⟩ := pairs_cons h
  obtain ⟨m, m', data, rfl, hmin, h⟩ := pairs_cons h
  obtain ⟨s, s', data, rfl, hsec, h⟩ := pairs_cons h
  obtain rfl := pairs_nil h
  exact ⟨o, o', d, d', i, i', m, m', s, s', rfl, hmon, hmday, hhour, hmin, hsec⟩

/-- The end of the buffer, from the month on. -/
theorem readTm_tail {type : TimeType} {year : Int} (front : Str)
    {o o' d d' h h' m m' s s' : Char} {mon mday hour min sec : Nat}
    (hyear : readYear type (front ++ [o, o', d, d', h, h', m, m', s, s', 'Z', '\x00']) =
      .ok (year, front.length))
    (hmon : Digits o o' mon) (hmday : Digits d d' mday) (hhour : Digits h h' hour)
    (hmin : Digits m m' min) (hsec : Digits s s' sec) :
    readTm type (front ++ [o, o', d, d', h, h', m, m', s, s', 'Z', '\x00']) =
      .ok ⟨year, mon - 1, mday, hour, min, sec⟩ := by
  have hfront := twoDigits_append front [o, o', d, d', h, h', m, m', s, s', 'Z', '\x00']
  have hfirst := hfront 0
  rw [Nat.add_zero] at hfirst
  simp only [readTm, hyear, Res.ok_bind, hfront, hfirst]
  simp [twoDigits, hmon.sum, hmday.sum, hhour.sum, hmin.sum, hsec.sum]

theorem mktime_utc {y y' o o' d d' h h' m m' s s' : Char} {year mon mday hour min sec : Nat}
    (hyear : Digits y y' year) (hmon : Digits o o' mon) (hmday : Digits d d' mday)
    (hhour : Digits h h' hour) (hmin : Digits m m' min) (hsec : Digits s s' sec) :
    asn1UtctimeMktime ⟨.utc, [y, y', o, o', d, d', h, h', m, m', s, s', 'Z']⟩ =
      .ok (timegm ⟨windowYear year, mon - 1, mday, hour, min, sec⟩) := by
  have htm : readTm .utc [y, y', o, o', d, d', h, h', m, m', s, s', 'Z', '\x00'] =
      .ok ⟨windowYear year, mon - 1, mday, hour, min, sec⟩ :=
    readTm_tail [y, y'] (by simp [readYear, twoDigits, hyear.sum])
      hmon hmday hhour hmin hsec
  simp [asn1UtctimeMktime, fillBuffer, digitsInFront, Block.copy_ok, Block.load, readOffset,
    not_marker_of_isDigit hsec.first, htm]

theorem mktime_generalized {c c' y y' o o' d d' h h' m m' s s' : Char}
    {century year mon mday hour min sec : Nat} (hcentury : Digits c c' century)
    (hyear : Digits y y' year) (hmon : Digits o o' mon) (hmday : Digits d d' mday)
    (hhour : Digits h h' hour) (hmin : Digits m m' min) (hsec : Digits s s' sec) :
    asn1UtctimeMktime ⟨.generalized, [c, c', y, y', o, o', d, d', h, h', m, m', s, s', 'Z']⟩ =
      .ok (timegm ⟨windowYear (century * 100 + year), mon - 1, mday, hour, min, sec⟩) := by
  have htm : readTm .generalized [c, c', y, y', o, o', d, d', h, h', m, m', s, s', 'Z', '\x00'] =
      .ok ⟨windowYear (century * 100 + year), mon - 1, mday, hour, min, sec⟩ :=
    readTm_tail [c, c', y, y'] (by simp [readYear, twoDigits, hcentury.sum, hyear.sum])
      hmon hmday hhour hmin hsec
  simp [asn1UtctimeMktime, fillBuffer, digitsInFront, Block.copy_ok, Block.load, readOffset,
    not_marker_of_isDigit hsec.first, htm]

theorem windowYear_eq (year : Int) : windowYear year =
    if year < 70 then year + 100 else if 1900 < year then year - 1900 else year := by
  unfold windowYear
  dsimp only
  omega

theorem timegm_of_dateTime {year mon mday hour min sec : Nat} {v : Int}
    (h : dateTime year mon mday hour min sec = some v) :
    (1 ≤ mon ∧ mon ≤ 12) ∧ timegm ⟨year - 1900, mon - 1, mday, hour, min, sec⟩ = v := by
  unfold dateTime at h
  split at h
  · next hvalid => exact ⟨⟨hvalid.1, hvalid.2.1⟩, Option.some.inj h⟩
  · cases h

/-- The two forms of a certificate's time. -/
theorem instant_cases {t : Asn1Time} {v : Int} (h : instant t = some v) :
    (∃ year mon mday hour min sec : Nat, t.type = .utc ∧ year < 100 ∧
      dateTime (if year < 50 then 2000 + year else 1900 + year) mon mday hour min sec = some v ∧
      asn1UtctimeMktime t = .ok (timegm ⟨windowYear year, mon - 1, mday, hour, min, sec⟩)) ∨
    ∃ year mon mday hour min sec : Nat, t.type = .generalized ∧
      dateTime year mon mday hour min sec = some v ∧
      asn1UtctimeMktime t = .ok (timegm ⟨windowYear year, mon - 1, mday, hour, min, sec⟩) := by
  obtain ⟨type, data⟩ := t
  unfold instant at h
  split at h
  · next year mon mday hour min sec htype hpairs =>
    obtain ⟨y, y', data, rfl, hy, hpairs⟩ := pairs_cons hpairs
    obtain ⟨o, o', d, d', i, i', m, m', s, s', rfl, hmon, hmday, hhour, hmin, hsec⟩ :=
      pairs_tail hpairs
    obtain rfl : type = .utc := htype
    exact Or.inl ⟨year, mon, mday, hour, min, sec, rfl, hy.lt, h,
      mktime_utc hy hmon hmday hhour hmin hsec⟩
  · next century year mon mday hour min sec htype hpairs =>
    obtain ⟨c, c', data, rfl, hc, hpairs⟩ := pairs_cons hpairs
    obtain ⟨y, y', data, rfl, hy, hpairs⟩ := pairs_cons hpairs
    obtain ⟨o, o', d, d', i, i', m, m', s, s', rfl, hmon, hmday, hhour, hmin, hsec⟩ :=
      pairs_tail hpairs
    obtain rfl : type = .generalized := htype
    have hread := mktime_generalized hc hy hmon hmday hhour hmin hsec
    refine Or.inr ⟨century * 100 + year, mon, mday, hour, min, sec, rfl, h, ?_⟩
    simpa using hread
  · cases h

/-- From 1970 on the function reads the instant. -/
theorem mktime_of_instant {t : Asn1Time} {v : Int} (h : instant t = some v) (hv : 0 ≤ v) :
    asn1UtctimeMktime t = .ok v := by
  rcases instant_cases h with ⟨year, mon, mday, hour, min, sec, -, hlt, hdate, hread⟩ |
    ⟨year, mon, mday, hour, min, sec, -, hdate, hread⟩
  · have hyear := le_year_of_nonneg hdate hv
    rw [hread, ← (timegm_of_dateTime hdate).2]
    have hwindow : windowYear year = ((if year < 50 then 2000 + year else 1900 + year : Nat) : Int)
        - 1900 := by
      rw [windowYear_eq]
      by_cases hfifty : year < 50
      · rw [if_pos hfifty]
        omega
      · rw [if_neg hfifty] at hyear ⊢
        omega
    rw [hwindow]
  · have hyear := le_year_of_nonneg hdate hv
    rw [hread, ← (timegm_of_dateTime hdate).2]
    have hwindow : windowYear year = (year : Int) - 1900 := by
      rw [windowYear_eq]
      omega
    rw [hwindow]

/-- A UTCTime before 1970 is read a hundred years late. -/
theorem mktime_of_instant_neg {t : Asn1Time} {v : Int} (htype : t.type = .utc)
    (h : instant t = some v) (hv : v < 0) : asn1UtctimeMktime t = .ok (v + 3155760000) := by
  rcases instant_cases h with ⟨year, mon, mday, hour, min, sec, -, hlt, hdate, hread⟩ |
    ⟨year, mon, mday, hour, min, sec, htype', -⟩
  · have hyear := year_le_of_neg hdate hv
    obtain ⟨hmon, htime⟩ := timegm_of_dateTime hdate
    have hfifty : ¬ year < 50 := by
      intro hfifty
      rw [if_pos hfifty] at hyear
      omega
    rw [if_neg hfifty] at hyear htime
    have hwindow : windowYear year = (year : Int) + 100 := by
      rw [windowYear_eq]
      omega
    have hcentury : timegm ⟨(year : Int) + 100, mon - 1, mday, hour, min, sec⟩ =
        timegm ⟨year, mon - 1, mday, hour, min, sec⟩ + 3155760000 :=
      timegm_century (by omega) (by omega) (by omega)
    rw [hread, hwindow, hcentury, ← htime, show ((1900 + year : Nat) : Int) - 1900 = year by omega]
  · rw [htype] at htype'
    cases htype'

end Voms.L3
