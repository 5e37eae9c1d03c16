import Voms.L6Tools.ParseTime

/-!
# How far in the past

`-pastac` and `-pastproxy` of voms-proxy-fake take seconds, `h:m` or `h:m:s`;
`time_to_sec` (`src/utils/vomsfake.cc`) reads them, each field with `mystrtol`.

* The third field of `h:m:s` is taken from `pos2 + 1`, but `pos2` counts from
  behind the first colon: what is read has the second colon in it, and the
  answer is always -1 (`timeToSec_three`).
* `strtol` takes an empty text, and blanks and a sign in front of the digits
  (`Taken`).
* A field is a `long` and is kept in an `int`.

`timeToSec_exact`: for which texts the answer is the right one.
-/
namespace Voms.L6

open Voms.Core

def LONG_MAX : Int := 2 ^ 63 - 1

/-- The text behind one sign. -/
def unsigned : Str → Str
  | '-' :: s => s
  | '+' :: s => s
  | s => s

/-- The value, the text from `end` on, and whether `errno` is set. Without a
digit nothing is converted. -/
def strtol (s : Str) : Int × Str × Bool :=
  let digits := unsigned (s.dropWhile isSpace)
  if digits.takeWhile Char.isDigit = [] then (0, s, false)
  else if number s > LONG_MAX then (LONG_MAX, digits.dropWhile Char.isDigit, true)
  else if number s < -LONG_MAX - 1 then (-LONG_MAX - 1, digits.dropWhile Char.isDigit, true)
  else (number s, digits.dropWhile Char.isDigit, false)

/-- mirrors src/utils/vomsfake.cc:1124-1146 -/
def mystrtol (number : Str) (limit : Int) : Int :=
  let (value, left, errno) := strtol number
  if number.length - left.length ≠ number.length then -1
  else if errno = true ∨ value < 0 then -1
  else if value > limit then -1
  else value

/-- `hours`, `minutes` and `seconds`. -/
def timeFields (timestring : Str) : Int × Int × Int :=
  match timestring.idxOf? ':' with
  | none => (0, 0, longToInt (mystrtol (cStr timestring) LONG_MAX))
  | some pos =>
    let hours := longToInt (mystrtol (cStr (timestring.take pos)) LONG_MAX)
    let rest := timestring.drop (pos + 1)
    match rest.idxOf? ':' with
    | none => (hours, longToInt (mystrtol (cStr rest) 59), 0)
    | some pos2 =>
      (hours, longToInt (mystrtol (cStr (rest.take pos2)) 59),
        longToInt (mystrtol (cStr (timestring.drop (pos2 + 1))) 59))

/-- `none` after an overflow.
mirrors src/utils/vomsfake.cc:1092-1122 -/
def timeToSec (timestring : Str) : Option Int :=
  let (hours, minutes, seconds) := timeFields timestring
  if seconds = -1 ∨ minutes = -1 ∨ hours = -1 then some (-1)
  else do
    let m ← intResult (minutes * 60)
    let sm ← intResult (seconds + m)
    let h ← intResult (hours * 3600)
    intResult (sm + h)

example : timeToSec "90".toList = some 90 ∧ timeToSec "1:30".toList = some 5400 ∧
    timeToSec "1:30:15".toList = some (-1) := by decide

/-! ## What the texts denote -/

/-- A decimal field. -/
def Field (f : Str) : Prop := f ≠ [] ∧ f.all Char.isDigit = true

instance (f : Str) : Decidable (Field f) := inferInstanceAs (Decidable (_ ∧ _))

/-- The number of seconds of a text of one of the three forms. -/
def denoted (s : Str) : Option Int :=
  match s.splitOn ':' with
  | [f] => if Field f then some (number f) else none
  | [h, m] =>
    if Field h ∧ Field m ∧ number m ≤ 59 then some (number h * 3600 + number m * 60) else none
  | [h, m, f] =>
    if Field h ∧ Field m ∧ Field f ∧ number m ≤ 59 ∧ number f ≤ 59 then
      some (number h * 3600 + number m * 60 + number f)
    else none
  | _ => none

/-- The right answer. -/
def seconds (s : Str) : Int :=
  match denoted s with
  | some v => if v < 2 ^ 31 then v else -1
  | none => -1

/-- The texts that `strtol` converts to the end, with a result up to `limit`. -/
def Taken (limit : Int) (f : Str) : Prop :=
  (f = [] ∨ Field (unsigned (f.dropWhile isSpace))) ∧ 0 ≤ number f ∧ number f ≤ limit

instance (limit : Int) (f : Str) : Decidable (Taken limit f) := inferInstanceAs (Decidable (_ ∧ _))

/-- For which texts the answer is right. A `long` whose low half is that of -1
is taken for an error. -/
def Exact (s : Str) : Prop :=
  match s.splitOn ':' with
  | [f] =>
    (Field f ∧ number f < 2 ^ 31) ∨ ¬ Taken LONG_MAX f ∨ number f % 2 ^ 32 = 2 ^ 32 - 1
  | [h, m] =>
    (Field h ∧ Field m ∧ number m ≤ 59 ∧ number h * 3600 + number m * 60 < 2 ^ 31) ∨
      ¬ Taken LONG_MAX h ∨ ¬ Taken 59 m ∨ number h % 2 ^ 32 = 2 ^ 32 - 1
  | [h, m, f] =>
    ¬ (Field h ∧ Field m ∧ Field f ∧ number m ≤ 59 ∧ number f ≤ 59 ∧
      number h * 3600 + number m * 60 + number f < 2 ^ 31)
  | _ => True

/-! ## One field -/

section

variable {f : Str}

theorem Field.digits (h : Field f) : ∀ c ∈ f, c.isDigit = true := List.all_eq_true.mp h.2

theorem not_sign {c : Char} (h : c.isDigit = true) : c ≠ '-' ∧ c ≠ '+' := by
  constructor <;> rintro rfl <;> exact absurd h (by decide)

theorem unsigned_digits (h : ∀ c ∈ f, c.isDigit = true) : unsigned f = f := by
  unfold unsigned
  split
  · next s => exact absurd rfl (not_sign (h _ (List.mem_cons_self ..))).1
  · next s => exact absurd rfl (not_sign (h _ (List.mem_cons_self ..))).2
  · rfl

theorem number_digits (h : ∀ c ∈ f, c.isDigit = true) : number f = Nat.ofDigitChars 10 f 0 := by
  unfold number
  rw [dropWhile_isSpace h]
  dsimp only
  split
  · next s => exact absurd rfl (not_sign (h _ (List.mem_cons_self ..))).1
  · next s => exact absurd rfl (not_sign (h _ (List.mem_cons_self ..))).2
  · simp only [Bool.false_eq_true, if_false, takeWhile_isDigit h]
    rw [← Nat.ofDigitChars_eq_foldl]

theorem Field.number_nonneg (h : Field f) : 0 ≤ number f := by
  rw [number_digits h.digits]
  omega

theorem Field.taken (h : Field f) {limit : Int} (hle : number f ≤ limit) : Taken limit f := by
  refine ⟨.inr ?_, h.number_nonneg, hle⟩
  rw [dropWhile_isSpace h.digits, unsigned_digits h.digits]
  exact h

theorem length_unsigned_le (s : Str) : (unsigned s).length ≤ s.length := by
  unfold unsigned
  split <;> simp

/-- What `strtol` reports, and what is made of it. -/
theorem mystrtol_of {limit value : Int} {left : Str} {errno : Bool}
    (h : strtol f = (value, left, errno)) (hle : left.length ≤ f.length) (hf : f ≠ []) :
    mystrtol f limit =
      if left = [] ∧ errno = false ∧ 0 ≤ value ∧ value ≤ limit then value else -1 := by
  have hlength : f.length ≠ 0 := fun e => hf (List.length_eq_zero_iff.mp e)
  rw [mystrtol, h]
  dsimp only
  by_cases hleft : left = []
  · subst hleft
    rw [if_neg (by simp)]
    cases errno with
    | true => simp
    | false =>
      simp only [Bool.false_eq_true, false_or, true_and]
      by_cases hneg : value < 0
      · rw [if_pos hneg, if_neg (by omega)]
      · rw [if_neg hneg]
        by_cases hover : value > limit
        · rw [if_pos hover, if_neg (by omega)]
        · rw [if_neg hover, if_pos (by omega)]
  · have hleft' : left.length ≠ 0 := fun e => hleft (List.length_eq_zero_iff.mp e)
    rw [if_pos (by omega), if_neg fun h => hleft h.1]

theorem mystrtol_nil (limit : Int) : mystrtol [] limit = if 0 ≤ limit then 0 else -1 := by
  change (if (0 : Int) > limit then -1 else 0) = _
  by_cases h : 0 ≤ limit
  · rw [if_pos h, if_neg (by omega)]
  · rw [if_neg h, if_pos (by omega)]

/-- Nothing is converted, or all the digits are; then `errno` says whether the
number is a `long`. -/
theorem strtol_cases :
    ((unsigned (f.dropWhile isSpace)).takeWhile Char.isDigit = [] ∧ strtol f = (0, f, false)) ∨
    unsigned (f.dropWhile isSpace) ≠ [] ∧ ∃ value errno,
      strtol f = (value, (unsigned (f.dropWhile isSpace)).dropWhile Char.isDigit, errno) ∧
      (errno = false → value = number f) ∧ (errno = true → LONG_MAX < number f ∨ number f < 0) := by
  unfold strtol
  dsimp only
  split
  · next hnone => exact .inl ⟨hnone, rfl⟩
  · next hsome =>
    refine .inr ⟨fun e => hsome (by rw [e]; rfl), ?_⟩
    split
    · next hover => exact ⟨_, _, rfl, nofun, fun _ => .inl hover⟩
    · split
      · next hunder =>
        refine ⟨_, _, rfl, nofun, fun _ => .inr ?_⟩
        unfold LONG_MAX at hunder
        omega
      · exact ⟨_, _, rfl, fun _ => rfl, nofun⟩

/-- A field is taken, or the answer for it is -1. -/
theorem mystrtol_eq {limit : Int} (hlimit : limit ≤ LONG_MAX) :
    mystrtol f limit = if Taken limit f then number f else -1 := by
  by_cases hf : f = []
  · subst hf
    have htaken : Taken limit [] ↔ 0 ≤ limit := by simp [Taken, show number [] = 0 from rfl]
    rw [mystrtol_nil]
    by_cases h : 0 ≤ limit
    · rw [if_pos h, if_pos (htaken.mpr h)]
      rfl
    · rw [if_neg h, if_neg fun ht => h (htaken.mp ht)]
  · obtain ⟨hnone, hread⟩ | ⟨hne, value, errno, hread, hvalue, herrno⟩ := strtol_cases (f := f)
    · have hfield : ¬ Field (unsigned (f.dropWhile isSpace)) := by
        rintro ⟨hne, hall⟩
        rw [takeWhile_isDigit (List.all_eq_true.mp hall)] at hnone
        exact hne hnone
      rw [mystrtol_of hread (Nat.le_refl _) hf, if_neg fun h => hf h.1,
        if_neg fun h => h.1.elim hf hfield]
    · have hle : ((unsigned (f.dropWhile isSpace)).dropWhile Char.isDigit).length ≤ f.length :=
        (List.dropWhile_sublist _).length_le.trans
          ((length_unsigned_le _).trans (List.dropWhile_sublist _).length_le)
      have hfield : (unsigned (f.dropWhile isSpace)).dropWhile Char.isDigit = [] ↔
          Field (unsigned (f.dropWhile isSpace)) := by
        rw [List.dropWhile_eq_nil_iff, Field, and_iff_right hne, List.all_eq_true]
      rw [mystrtol_of hread hle hf]
      cases errno with
      | false =>
        rw [hvalue rfl]
        by_cases h : Taken limit f
        · rw [if_pos h, if_pos ⟨hfield.mpr (h.1.resolve_left hf), rfl, h.2⟩]
        · rw [if_neg h, if_neg fun h' => h ⟨.inr (hfield.mp h'.1), h'.2.2⟩]
      | true =>
        rw [if_neg (by simp), if_neg]
        intro h
        have hover := herrno rfl
        have hrange := h.2
        omega

theorem taken_fits {limit : Int} (h : Taken limit f) : 0 ≤ number f ∧ number f ≤ limit := h.2

/-- A text with a colon is no field. -/
theorem not_taken_of_colon {limit : Int} (hmem : ':' ∈ f) : ¬ Taken limit f := by
  have hblank : ':' ∈ f.dropWhile isSpace := by
    rw [← List.takeWhile_append_dropWhile (p := isSpace) (l := f), List.mem_append] at hmem
    exact hmem.resolve_left fun h => absurd (List.mem_takeWhile_imp h) (by decide)
  have hsign : ':' ∈ unsigned (f.dropWhile isSpace) := by
    generalize f.dropWhile isSpace = t at hblank
    unfold unsigned
    split
    · exact (List.mem_cons.mp hblank).resolve_left (by decide)
    · exact (List.mem_cons.mp hblank).resolve_left (by decide)
    · exact hblank
  rintro ⟨rfl | hfield, -⟩
  · cases hmem
  · exact absurd (hfield.digits ':' hsign) (by decide)

end

/-! ## The three forms -/

theorem intResult_pos {v : Int} (h : -2 ^ 31 ≤ v ∧ v < 2 ^ 31) : intResult v = some v := if_pos h

/-- A text between two colons. -/
structure Piece (f : Str) : Prop where
  noColon : ':' ∉ f
  noNul : '\x00' ∉ f

theorem drop_colon (f rest : Str) : (f ++ ':' :: rest).drop (f.length + 1) = rest := by
  rw [← List.drop_drop, List.drop_left]
  rfl

theorem timeToSec_one {f : Str} (hf : Piece f) :
    timeToSec f = some (longToInt (mystrtol f LONG_MAX)) := by
  have hrange := longToInt_range (mystrtol f LONG_MAX)
  rw [timeToSec, timeFields, List.idxOf?_eq_none_iff.mpr hf.noColon, cStr_of_noNul hf.noNul]
  generalize longToInt (mystrtol f LONG_MAX) = v at hrange ⊢
  by_cases hv : v = -1
  · simp [hv]
  · simp [hv, intResult_pos hrange, intResult_pos (v := 0) (by omega)]

theorem longToInt_eq_neg_one {v : Int} : longToInt v = -1 ↔ v % 2 ^ 32 = 2 ^ 32 - 1 := by
  rw [longToInt_eq, Int.bmod_def]
  omega

theorem mystrtol_minutes (m : Str) : longToInt (mystrtol m 59) = mystrtol m 59 := by
  rw [mystrtol_eq (by decide)]
  split
  · next h => exact longToInt_small (by have := taken_fits h; omega)
  · rfl

section

variable {h m : Str}

theorem timeFields_two (ph : Piece h) (pm : Piece m) : timeFields (h ++ ':' :: m) =
    (longToInt (mystrtol h LONG_MAX), mystrtol m 59, 0) := by
  rw [timeFields, idxOf_fresh m ph.noColon]
  simp only [List.take_left, drop_colon, List.idxOf?_eq_none_iff.mpr pm.noColon,
    cStr_of_noNul ph.noNul, cStr_of_noNul pm.noNul, mystrtol_minutes]

/-- An error in one field, or one that looks like an error. -/
theorem timeToSec_two_error (ph : Piece h) (pm : Piece m)
    (herror : ¬ Taken LONG_MAX h ∨ ¬ Taken 59 m ∨ number h % 2 ^ 32 = 2 ^ 32 - 1) :
    timeToSec (h ++ ':' :: m) = some (-1) := by
  rw [timeToSec, timeFields_two ph pm]
  refine if_pos (.inr ?_)
  rw [mystrtol_eq (by decide), mystrtol_eq (by decide)]
  by_cases hh : Taken LONG_MAX h
  · by_cases hm : Taken 59 m
    · have hlow := (herror.resolve_left (not_not.mpr hh)).resolve_left (not_not.mpr hm)
      rw [if_pos hh, longToInt_eq_neg_one]
      exact .inr hlow
    · exact .inl (if_neg hm)
  · rw [if_neg hh]
    exact .inr rfl

theorem timeToSec_two_taken (ph : Piece h) (pm : Piece m) (hh : Taken LONG_MAX h)
    (hm : Taken 59 m) (hlow : number h % 2 ^ 32 ≠ 2 ^ 32 - 1) {v : Int} :
    timeToSec (h ++ ':' :: m) = some v ↔
      v = number m * 60 + longToInt (number h) * 3600 ∧ -2 ^ 31 ≤ v ∧ v < 2 ^ 31 ∧
        -2 ^ 31 ≤ longToInt (number h) * 3600 ∧ longToInt (number h) * 3600 < 2 ^ 31 := by
  have hmfits := taken_fits hm
  have hlow' : longToInt (number h) ≠ -1 := fun e => hlow (longToInt_eq_neg_one.mp e)
  rw [timeToSec, timeFields_two ph pm, mystrtol_eq (by decide), mystrtol_eq (by decide),
    if_pos hh, if_pos hm]
  simp only [hlow', show ((0 : Int) = -1) = False by decide, show number m ≠ -1 by omega, or_self,
    if_false, Option.bind_eq_bind, Option.bind_eq_some_iff, intResult_eq_some]
  constructor
  · rintro ⟨a, ⟨rfl, -, -⟩, b, ⟨rfl, -, -⟩, c, ⟨rfl, hlo, hhi⟩, rfl, hlo', hhi'⟩
    exact ⟨by omega, by omega, by omega, hlo, hhi⟩
  · rintro ⟨rfl, hlo, hhi, hlo', hhi'⟩
    exact ⟨_, ⟨rfl, by omega, by omega⟩, _, ⟨rfl, by omega, by omega⟩, _, ⟨rfl, hlo', hhi'⟩,
      by omega, by omega, by omega⟩

end

/-- The three fields are never read: the third has a colon in it. -/
theorem timeToSec_three {h m rest : Str} (ph : Piece h) (pm : Piece m) (hnul : '\x00' ∉ rest) :
    timeToSec (h ++ ':' :: (m ++ ':' :: rest)) = some (-1) := by
  have hmem : ':' ∈ (h ++ ':' :: (m ++ ':' :: rest)).drop (m.length + 1) := by
    have hsplit : h ++ ':' :: (m ++ ':' :: rest) = (h ++ ':' :: m) ++ ':' :: rest := by simp
    rw [hsplit, List.drop_append_of_le_length (by simp)]
    exact List.mem_append_right _ (List.mem_cons_self ..)
  have hnul' : '\x00' ∉ (h ++ ':' :: (m ++ ':' :: rest)).drop (m.length + 1) := by
    intro hmem
    have := List.mem_of_mem_drop hmem
    simp [ph.noNul, pm.noNul, hnul] at this
  rw [timeToSec, timeFields, idxOf_fresh _ ph.noColon]
  simp only [drop_colon, idxOf_fresh _ pm.noColon]
  refine if_pos (.inl ?_)
  rw [cStr_of_noNul hnul', mystrtol_eq (by decide), if_neg (not_taken_of_colon hmem)]
  rfl

/-! ## The right answers -/

section

variable {h m f : Str}

theorem seconds_one (hsplit : f.splitOn ':' = [f]) :
    seconds f = if Field f ∧ number f < 2 ^ 31 then number f else -1 := by
  simp only [seconds, denoted, hsplit]
  by_cases hf : Field f <;> simp [hf]

theorem seconds_two {s : Str} (hsplit : s.splitOn ':' = [h, m]) :
    seconds s = if Field h ∧ Field m ∧ number m ≤ 59 ∧ number h * 3600 + number m * 60 < 2 ^ 31
      then number h * 3600 + number m * 60 else -1 := by
  simp only [seconds, denoted, hsplit]
  by_cases hform : Field h ∧ Field m ∧ number m ≤ 59
  · simp [hform]
  · rw [if_neg hform, if_neg fun e => hform ⟨e.1, e.2.1, e.2.2.1⟩]

theorem seconds_three {s : Str} (hsplit : s.splitOn ':' = [h, m, f]) :
    seconds s = if Field h ∧ Field m ∧ Field f ∧ number m ≤ 59 ∧ number f ≤ 59 ∧
        number h * 3600 + number m * 60 + number f < 2 ^ 31
      then number h * 3600 + number m * 60 + number f else -1 := by
  simp only [seconds, denoted, hsplit]
  by_cases hform : Field h ∧ Field m ∧ Field f ∧ number m ≤ 59 ∧ number f ≤ 59
  · simp [hform]
  · rw [if_neg hform, if_neg fun e => hform ⟨e.1, e.2.1, e.2.2.1, e.2.2.2.1, e.2.2.2.2.1⟩]

theorem exact_one (hf : Piece f) : timeToSec f = some (seconds f) ↔ Exact f := by
  have hsplit := List.splitOn_eq_singleton hf.noColon
  rw [timeToSec_one hf, seconds_one hsplit, Option.some.injEq, mystrtol_eq (by decide)]
  simp only [Exact, hsplit]
  by_cases hgood : Field f ∧ number f < 2 ^ 31
  · have hnonneg := hgood.1.number_nonneg
    have htaken : Taken LONG_MAX f := hgood.1.taken (by unfold LONG_MAX; omega)
    rw [if_pos htaken, if_pos hgood, longToInt_small (by omega)]
    exact iff_of_true rfl (.inl hgood)
  · rw [if_neg hgood, or_iff_right hgood]
    by_cases htaken : Taken LONG_MAX f
    · rw [if_pos htaken, longToInt_eq_neg_one]
      simp [htaken]
    · rw [if_neg htaken]
      exact iff_of_true rfl (.inl htaken)

theorem exact_two (ph : Piece h) (pm : Piece m) :
    timeToSec (h ++ ':' :: m) = some (seconds (h ++ ':' :: m)) ↔ Exact (h ++ ':' :: m) := by
  have hsplit : (h ++ ':' :: m).splitOn ':' = [h, m] := by
    rw [List.splitOn_append_cons_self_of_not_mem ph.noColon, List.splitOn_eq_singleton pm.noColon]
  rw [seconds_two hsplit]
  simp only [Exact, hsplit]
  by_cases herror : ¬ Taken LONG_MAX h ∨ ¬ Taken 59 m ∨ number h % 2 ^ 32 = 2 ^ 32 - 1
  · rw [timeToSec_two_error ph pm herror]
    refine iff_of_true ?_ (.inr herror)
    rw [if_neg]
    rintro ⟨hh, hm, hle, hlt⟩
    have hhours := hh.number_nonneg
    have hminutes := hm.number_nonneg
    rcases herror with hbad | hbad | hbad
    · exact hbad (hh.taken (by unfold LONG_MAX; omega))
    · exact hbad (hm.taken hle)
    · omega
  · rw [or_iff_left herror]
    simp only [not_or, not_not] at herror
    obtain ⟨hh, hm, hlow⟩ := herror
    have hmfits := taken_fits hm
    rw [timeToSec_two_taken ph pm hh hm hlow]
    by_cases hgood : Field h ∧ Field m ∧ number m ≤ 59 ∧
        number h * 3600 + number m * 60 < 2 ^ 31
    · have hhours := hgood.1.number_nonneg
      have hsmall := longToInt_small (v := number h) (by omega)
      refine iff_of_true ?_ hgood
      rw [if_pos hgood, hsmall]
      omega
    · -- -1 is no number of minutes
      refine iff_of_false ?_ hgood
      rw [if_neg hgood]
      omega

theorem exact_three (ph : Piece h) (pm : Piece m) {rest : Str} (hnul : '\x00' ∉ rest) :
    timeToSec (h ++ ':' :: (m ++ ':' :: rest)) = some (seconds (h ++ ':' :: (m ++ ':' :: rest))) ↔
      Exact (h ++ ':' :: (m ++ ':' :: rest)) := by
  have hsplit : (h ++ ':' :: (m ++ ':' :: rest)).splitOn ':' = h :: m :: rest.splitOn ':' := by
    rw [List.splitOn_append_cons_self_of_not_mem ph.noColon,
      List.splitOn_append_cons_self_of_not_mem pm.noColon]
  rw [timeToSec_three ph pm hnul, Option.some.injEq]
  cases hrest : rest.splitOn ':' with
  | nil => exact absurd hrest (List.splitOn_ne_nil _ _)
  | cons f l =>
    rw [hrest] at hsplit
    cases l with
    | nil =>
      rw [seconds_three hsplit]
      simp only [Exact, hsplit]
      by_cases hgood : Field h ∧ Field m ∧ Field f ∧ number m ≤ 59 ∧ number f ≤ 59 ∧
          number h * 3600 + number m * 60 + number f < 2 ^ 31
      · have hhours := hgood.1.number_nonneg
        have hminutes := hgood.2.1.number_nonneg
        have hseconds := hgood.2.2.1.number_nonneg
        rw [if_pos hgood]
        exact iff_of_false (by omega) (not_not.mpr hgood)
      · rw [if_neg hgood]
        exact iff_of_true rfl hgood
    | cons g l =>
      simp only [seconds, denoted, Exact, hsplit]

end

/-- **The answer is the right one exactly for the texts that are `Exact`.** -/
theorem timeToSec_exact (s : Str) :
    timeToSec (cStr s) = some (seconds (cStr s)) ↔ Exact (cStr s) := by
  have hnul := noNul_cStr s
  generalize cStr s = s at hnul
  cases hpos : s.idxOf? ':' with
  | none => exact exact_one ⟨List.idxOf?_eq_none_iff.mp hpos, hnul⟩
  | some pos =>
    obtain ⟨h, rest, rfl, hcolon, -⟩ := idxOf_split hpos
    simp only [List.mem_append, List.mem_cons, not_or] at hnul
    cases hpos2 : rest.idxOf? ':' with
    | none => exact exact_two ⟨hcolon, hnul.1⟩ ⟨List.idxOf?_eq_none_iff.mp hpos2, hnul.2.2⟩
    | some pos2 =>
      obtain ⟨m, rest, rfl, mcolon, -⟩ := idxOf_split hpos2
      simp only [List.mem_append, List.mem_cons, not_or] at hnul
      exact exact_three ⟨hcolon, hnul.1⟩ ⟨mcolon, hnul.2.2.1⟩ hnul.2.2.2.2

/-- Three fields are refused, and an empty text is 0 seconds. -/
theorem timeToSec_inexact :
    timeToSec (cStr "1:30:15".toList) ≠ some (seconds (cStr "1:30:15".toList)) ∧
    timeToSec (cStr []) ≠ some (seconds (cStr [])) := by decide

end Voms.L6
