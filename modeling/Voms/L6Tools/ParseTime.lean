import Voms.L3Wire.Requests

/-!
# The lifetime on the command line

`-vomslife h:m` (`src/client/vomsclient.cc`): `Client::parse_time` takes what
`atoi` makes of the two texts, `Client::Run` computes the seconds in `int`s,
and `XML_Req_Encode` writes them. Nothing bounds the hours from above.

`parseTime_exact`: the server decodes h*3600 + m*60, for the numbers as they
stand there, exactly if they are `Timely`. For 0 ≤ h and 0 ≤ m ≤ 59 that is
h*3600 + m*60 < 2^31 (`timely_iff`); the rest of it is about numbers that
`atoi` cuts.
-/
namespace Voms.L6

open Voms.Core Voms.L3

/-- `none` is `exit(1)`.
mirrors src/client/vomsclient.cc:1323-1346 -/
def parseTime (timespec : Str) (hours minutes : Int) : Option (Int × Int) :=
  if timespec = [] then some (hours, minutes)
  else match timespec.idxOf? ':' with
    | none => none
    | some pos =>
      if pos = 0 then none
      else
        let hours := atoi (timespec.take pos)
        let minutes := atoi (timespec.drop (pos + 1))
        if hours < 0 then none
        else if minutes < 0 ∨ 59 < minutes then none
        else some (hours, minutes)

/-- A result of `int` arithmetic; `none` where it overflows. -/
def intResult (v : Int) : Option Int := if -2 ^ 31 ≤ v ∧ v < 2 ^ 31 then some v else none

/-- What is kept of a wider integer in an `int`. -/
def longToInt (v : Int) : Int := (BitVec.ofInt 32 v).toInt

theorem longToInt_range (v : Int) : -2 ^ 31 ≤ longToInt v ∧ longToInt v < 2 ^ 31 :=
  ⟨BitVec.le_toInt _, BitVec.toInt_lt⟩

theorem longToInt_eq (v : Int) : longToInt v = v.bmod (2 ^ 32) := BitVec.toInt_ofInt ..

theorem longToInt_small {v : Int} (h : -2 ^ 31 ≤ v ∧ v < 2 ^ 31) : longToInt v = v := by
  rw [longToInt_eq]
  exact Int.bmod_eq_of_le (by omega) (by omega)

/-- `ac_hours * 3600 + ac_minutes * 60`.
mirrors src/client/vomsclient.cc:640 -/
def acLifetime (hours minutes : Int) : Option Int := do
  let h ← intResult (hours * 3600)
  let m ← intResult (minutes * 60)
  intResult (h + m)

/-- The lifetime the server finds in the request for it. -/
def decodedLifetime (W : Wire) (command order targets : Str) (lifetime : Int) : Option Int :=
  (xmlReqDecode W (xmlReqEncode command order targets lifetime)).map Request.lifetime

/-! ## Numbers of any size -/

/-- The number at the beginning of a text, as `atoi` reads it but never cut. -/
def number (s : Str) : Int :=
  let s := s.dropWhile isSpace
  let (neg, s) :=
    match s with
    | '-' :: s => (true, s)
    | '+' :: s => (false, s)
    | s => (false, s)
  let n := (s.takeWhile Char.isDigit).foldl (fun n c => 10 * n + (c.toNat - '0'.toNat)) 0
  if neg then -n else n

theorem atoi_eq (s : Str) :
    atoi s = (BitVec.ofInt 32 (max (-2 ^ 63) (min (2 ^ 63 - 1) (number s)))).toInt := by
  unfold atoi number
  generalize s.dropWhile isSpace = t
  dsimp only
  split
  · simp only [if_true]
    generalize List.foldl _ _ _ = n
    rw [min_eq_right (show -(n : Int) ≤ 2 ^ 63 - 1 by omega), max_comm]
  all_goals
    simp only [Bool.false_eq_true, if_false]
    generalize List.foldl _ _ _ = n
    rw [max_eq_right (show (-2 ^ 63 : Int) ≤ min (2 ^ 63 - 1) (n : Int) by omega), min_comm]

/-- The two texts of the argument. -/
def hoursText (timespec : Str) : Str := timespec.takeWhile (· ≠ ':')
def minutesText (timespec : Str) : Str := (timespec.dropWhile (· ≠ ':')).drop 1

/-- What the argument asks for. -/
def askedSeconds (timespec : Str) : Int :=
  number (hoursText timespec) * 3600 + number (minutesText timespec) * 60

/-- The seconds are an `int`, also when they are computed from the low 32 bits
of the two numbers, and the minutes are not cut at the least `long`. -/
def Timely (timespec : Str) : Prop :=
  0 ≤ askedSeconds timespec ∧ askedSeconds timespec < 2 ^ 31 ∧
    (number (hoursText timespec) % 2 ^ 32) * 3600 +
      (number (minutesText timespec) % 2 ^ 32) * 60 < 2 ^ 31 ∧
    (-2 ^ 63 ≤ number (minutesText timespec) ∨ (2 ^ 32 : Int) ∣ number (minutesText timespec))

instance (timespec : Str) : Decidable (Timely timespec) := by
  unfold Timely
  infer_instance

theorem timely_iff {timespec : Str} (hhours : 0 ≤ number (hoursText timespec))
    (hminutes : 0 ≤ number (minutesText timespec) ∧ number (minutesText timespec) ≤ 59) :
    Timely timespec ↔ askedSeconds timespec < 2 ^ 31 := by
  unfold Timely askedSeconds
  omega

example : Timely "12:30".toList ∧ ¬ Timely "596524:0".toList := by decide

/-! ## What is accepted -/

theorem parseTime_accepts {timespec : Str} {hours minutes h m : Int} (hne : timespec ≠ [])
    (haccept : parseTime timespec hours minutes = some (h, m)) :
    h = atoi (hoursText timespec) ∧ m = atoi (minutesText timespec) ∧ 0 ≤ h ∧ 0 ≤ m ∧ m ≤ 59 := by
  rw [parseTime, if_neg hne] at haccept
  cases hpos : timespec.idxOf? ':' with
  | none => rw [hpos] at haccept; cases haccept
  | some pos =>
    rw [hpos] at haccept
    obtain ⟨htake, hdrop⟩ := take_idxOf hpos
    simp only [htake, hdrop] at haccept
    split at haccept
    · cases haccept
    · split at haccept
      · cases haccept
      · split at haccept
        · cases haccept
        · obtain ⟨rfl, rfl⟩ := Prod.mk.inj (Option.some.inj haccept)
          exact ⟨rfl, rfl, by omega, by omega, by omega⟩

/-- `atoi` is 0 or more. -/
theorem atoi_nonneg {s : Str} (h : 0 ≤ atoi s) :
    number s < 2 ^ 63 ∧ atoi s < 2 ^ 31 ∧
      (-2 ^ 63 ≤ number s → atoi s = number s % 2 ^ 32) ∧ (number s < -2 ^ 63 → atoi s = 0) := by
  rw [atoi_eq, BitVec.toInt_ofInt, Int.bmod_def] at h ⊢
  omega

/-! ## What is sent -/

theorem intResult_eq_some {v w : Int} :
    intResult v = some w ↔ v = w ∧ -2 ^ 31 ≤ v ∧ v < 2 ^ 31 := by
  unfold intResult
  split
  · next h => rw [Option.some.injEq, and_iff_left h]
  · next h => exact iff_of_false (by simp) fun h' => h h'.2

theorem acLifetime_eq_some {h m l : Int} (hh : 0 ≤ h) (hm : 0 ≤ m) :
    acLifetime h m = some l ↔ l = h * 3600 + m * 60 ∧ l < 2 ^ 31 := by
  simp only [acLifetime, Option.bind_eq_bind, Option.bind_eq_some_iff, intResult_eq_some]
  constructor
  · rintro ⟨a, ⟨rfl, -, -⟩, b, ⟨rfl, -, -⟩, rfl, -, hlt⟩
    exact ⟨rfl, hlt⟩
  · rintro ⟨rfl, hlt⟩
    exact ⟨_, ⟨rfl, by omega, by omega⟩, _, ⟨rfl, by omega, by omega⟩, rfl, by omega, hlt⟩

theorem decodedLifetime_eq {W : Wire} {command order targets : Str} {lifetime : Int}
    (hwhole : W.expat (xmlReqEncode command order targets lifetime) =
      (requestDoc (getlines ',' command) order targets lifetime, true))
    (hlt : lifetime < 2 ^ 31) :
    decodedLifetime W command order targets lifetime =
      some (if lifetime ≤ 0 then 0 else lifetime) := by
  rw [decodedLifetime, xmlReqDecode, hwhole]
  change some ((requestDoc _ order targets lifetime).foldl ReqState.step .new).r.lifetime = _
  rw [fold_request, lifetimeText]
  split
  · rfl
  · next hpos => rw [atoi_decimal (by omega) hlt]

/-- Seconds that are the same modulo 60 * 2^32 and both an `int` are the same. -/
theorem cut_seconds {x y h m : Int} (hh : 0 ≤ h) (hm : 0 ≤ m) (hylt : y < 2 ^ 63)
    (hx : -2 ^ 63 ≤ x → h = x % 2 ^ 32) (hy : -2 ^ 63 ≤ y → m = y % 2 ^ 32)
    (hycut : y < -2 ^ 63 → m = 0) :
    (h * 3600 + m * 60 < 2 ^ 31 ∧ x * 3600 + y * 60 = h * 3600 + m * 60) ↔
      0 ≤ x * 3600 + y * 60 ∧ x * 3600 + y * 60 < 2 ^ 31 ∧
        (x % 2 ^ 32) * 3600 + (y % 2 ^ 32) * 60 < 2 ^ 31 ∧ (-2 ^ 63 ≤ y ∨ (2 ^ 32 : Int) ∣ y) := by
  -- hours below the least `long` would need more minutes than there are
  rcases Int.lt_or_le x (-2 ^ 63) with hlow | hlow
  · omega
  · have hhours := hx hlow
    rcases Int.lt_or_le y (-2 ^ 63) with hcut | hcut
    · have hminutes := hycut hcut
      omega
    · have hminutes := hy hcut
      omega

/-- **The server decodes what an accepted argument asks for exactly if it is
`Timely`.** -/
theorem parseTime_exact {W : Wire} {command order targets timespec : Str}
    (hwhole : ∀ lifetime, W.expat (xmlReqEncode command order targets lifetime) =
      (requestDoc (getlines ',' command) order targets lifetime, true))
    (hne : timespec ≠ []) {hours minutes h m : Int}
    (haccept : parseTime timespec hours minutes = some (h, m)) :
    (∃ lifetime, acLifetime h m = some lifetime ∧
      decodedLifetime W command order targets lifetime = some (askedSeconds timespec)) ↔
    Timely timespec := by
  obtain ⟨rfl, rfl, hh, hm, hm'⟩ := parseTime_accepts hne haccept
  obtain ⟨-, -, hhours, -⟩ := atoi_nonneg hh
  obtain ⟨hmlt, -, hminutes, hmcut⟩ := atoi_nonneg hm
  have hsent : (∃ lifetime,
      acLifetime (atoi (hoursText timespec)) (atoi (minutesText timespec)) = some lifetime ∧
      decodedLifetime W command order targets lifetime = some (askedSeconds timespec)) ↔
      atoi (hoursText timespec) * 3600 + atoi (minutesText timespec) * 60 < 2 ^ 31 ∧
      askedSeconds timespec =
        atoi (hoursText timespec) * 3600 + atoi (minutesText timespec) * 60 := by
    simp only [acLifetime_eq_some hh hm]
    constructor
    · rintro ⟨lifetime, ⟨rfl, hlt⟩, hdecoded⟩
      rw [decodedLifetime_eq (hwhole _) hlt, Option.some.injEq] at hdecoded
      refine ⟨hlt, ?_⟩
      split at hdecoded <;> omega
    · rintro ⟨hlt, hasked⟩
      refine ⟨_, ⟨rfl, hlt⟩, ?_⟩
      rw [decodedLifetime_eq (hwhole _) hlt, hasked, Option.some.injEq]
      split <;> omega
  rw [hsent, Timely, askedSeconds]
  exact cut_seconds hh hm hmlt hhours hminutes hmcut

/-- Twelve hours and a half. -/
theorem parseTime_exact_half :
    ∃ lifetime, acLifetime 12 30 = some lifetime ∧
      decodedLifetime Sample.wire "G/vo".toList [] [] lifetime =
        some (askedSeconds "12:30".toList) := by
  have hwhole (lifetime : Int) : Sample.wire.expat (xmlReqEncode "G/vo".toList [] [] lifetime) =
      (requestDoc (getlines ',' "G/vo".toList) [] [] lifetime, true) := by
    have hcommands : ∀ c ∈ getlines ',' "G/vo".toList, charData c = true := by decide
    have hempty : charData [] = true := rfl
    rw [xmlReqEncode_eq]
    exact plainParser_render requestProlog (wellFormed_requestDoc hcommands hempty hempty)
  exact (parseTime_exact hwhole (by decide) (show parseTime "12:30".toList 12 0 = some (12, 30) by
    decide)).mpr (by decide)

/-- The first number of hours whose seconds are no `int`. -/
theorem parseTime_overflows :
    parseTime "596524:0".toList 12 0 = some (596524, 0) ∧
      askedSeconds "596524:0".toList = 2147486400 ∧
      ¬ ∃ lifetime, acLifetime 596524 0 = some lifetime ∧
        decodedLifetime Sample.wire "G/vo".toList [] [] lifetime =
          some (askedSeconds "596524:0".toList) := by
  refine ⟨by decide, by decide, ?_⟩
  rintro ⟨lifetime, hlifetime, -⟩
  have hnone : acLifetime 596524 0 = none := by decide
  rw [hnone] at hlifetime
  cases hlifetime

end Voms.L6
