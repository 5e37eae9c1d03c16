import Voms.Core.Res
import Voms.Core.Rewrite

/-!
# Writing a log record

`fileoutputter` (`src/log/fs.c`) formats the date with `strftime` into a
buffer that it makes larger until something is written, puts it in place of
each `%d` of the record with `translate`, and writes the record.

Both loops can run for ever: an empty date fits no buffer, and `translate`
begins at the start of what it has just put together.
`fileoutputter_returns_iff`: for which dates and records the call returns.

`fuel` bounds the turns of each loop; a call that returns does so for some
fuel. Memory is available, so that the buffer and the record grow without
bound.
-/
namespace Voms.L5

open Voms.Core

/-- `struct localdata`. -/
structure LogData where
  name : Str
  dateformat : Option Str
  maxlog : Int
  fd : Int
  deriving DecidableEq, Repr

/-- What `fileoutputter` uses of the system: the position in the file, whether
rotation and opening again succeed, the date in a format, and what the `k`th
`write` of a text returns. -/
structure LogSystem where
  position : Int
  rotated : Str → Bool
  date : Str → Str
  write : Nat → Str → Int

/-- mirrors src/log/fs.c:52-67 -/
def translate (date : Str) : Nat → Str → Eval Str
  | 0, _ => .fault .diverge
  | fuel + 1, format =>
    match strstr "%d".toList format with
    | none => pure format
    | some position =>
      let newstring := format.take position ++ date ++ format.drop (position + 2)
      -- `snprintf_wrap` has no empty texts
      if newstring = [] then .fault .nullDeref else translate date fuel newstring

/-- The length of the date, or 0 if it does not fit with its NUL. -/
def strftime (date : Str) (max : Nat) : Nat := if date.length < max then date.length else 0

/-- The loop around `strftime`. -/
def dateLoop (date : Str) : Nat → Nat → Eval Str
  | 0, _ => .fault .diverge
  | fuel + 1, datasize =>
    if strftime date datasize = 0 then dateLoop date fuel (datasize + 50) else pure date

/-- The texts handed to `write`; `rest` is what is at `output + total`. -/
def writeLoop (write : Nat → Str → Int) : Nat → Nat → Str → Eval (List Str)
  | 0, _, _ => .fault .diverge
  | fuel + 1, k, rest => do
    let written := write k rest
    if written = rest.length ∨ written = -1 then pure [rest]
    else
      let more ← writeLoop write fuel (k + 1) (rest.drop written.toNat)
      pure (rest :: more)

/-- The record with the date in it, if there is a format. -/
def dated (sys : LogSystem) (fuel : Nat) (ld : LogData) (s : Str) : Eval Str :=
  match ld.dateformat with
  | none => pure s
  | some dateformat => do
    let date ← dateLoop (sys.date dateformat) fuel 256
    translate date fuel s

/-- What is returned, and the texts handed to `write`.
mirrors src/log/fs.c:69-127 -/
def fileoutputter (sys : LogSystem) (fuel : Nat) (data : Option LogData) (s : Str) :
    Eval (Int × List Str) :=
  match data with
  | none => pure (0, [])
  | some ld =>
    if ld.fd = -1 then pure (0, [])
    else do
      let note :=
        if ld.maxlog ≠ 0 ∧ sys.position > ld.maxlog ∧ sys.rotated ld.name = false then
          ["VOMS: LOGGING ROTATION ERROR\n".toList]
        else []
      let output ← dated sys fuel ld s
      let texts ← writeLoop sys.write fuel note.length output
      pure (1, note ++ texts)

/-- The date is put in place of each `%d` at some time. A date with `%d` in it
never is; nor is one that begins with `dd` and ends with `%%` if two of its
places come too close in the record. -/
def Placed (date s : Str) : Prop :=
  ¬ "%d".toList <:+: s ∨
    ¬ "%d".toList <:+: date ∧
      (¬ ("dd".toList <+: date ∧ "%%".toList <:+ date) ∨
        ¬ ("%%d".toList <:+: s ∨ "%dd".toList <:+: s ∨ "%d%d".toList <:+: s))

/-- `write` of a file writes at least a byte of a text, or fails. -/
def Progresses (write : Nat → Str → Int) : Prop :=
  ∀ k text, write k text = -1 ∨
    (0 ≤ write k text ∧ write k text ≤ text.length ∧ (text ≠ [] → 0 < write k text))

/-! ## The three loops -/

section

variable {date s : Str}

theorem dateLoop_empty : ∀ (fuel datasize : Nat), dateLoop [] fuel datasize = .fault .diverge
  | 0, _ => rfl
  | fuel + 1, datasize => by
    have hnothing : strftime [] datasize = 0 := by unfold strftime; split <;> rfl
    rw [dateLoop, if_pos hnothing, dateLoop_empty fuel]

theorem dateLoop_eq : ∀ {fuel datasize : Nat} {r : Str}, dateLoop date fuel datasize = .ok r →
    r = date
  | fuel + 1, datasize, r, h => by
    rw [dateLoop] at h
    split at h
    · exact dateLoop_eq h
    · cases h
      rfl

/-- The buffer becomes large enough. -/
theorem dateLoop_date (hdate : date ≠ []) : ∀ {fuel datasize : Nat},
    date.length < datasize + fuel → dateLoop date (fuel + 1) datasize = .ok date := by
  have hpos : 0 < date.length := List.length_pos_iff.mpr hdate
  intro fuel
  induction fuel with
  | zero =>
    intro datasize hlt
    have hfits : strftime date datasize = date.length := if_pos (by omega)
    rw [dateLoop, hfits, if_neg (by omega)]
    rfl
  | succ fuel ih =>
    intro datasize hlt
    rw [dateLoop]
    split
    · exact ih (by omega)
    · rfl

theorem writeLoop_returns {write : Nat → Str → Int} (hwrite : Progresses write) :
    ∀ {fuel k : Nat} {rest : Str}, rest.length < fuel →
      ∃ texts, writeLoop write fuel k rest = .ok texts := by
  intro fuel
  induction fuel with
  | zero => exact fun h => absurd h (Nat.not_lt_zero _)
  | succ fuel ih =>
    intro k rest hlt
    rw [writeLoop]
    by_cases hdone : write k rest = rest.length ∨ write k rest = -1
    · exact ⟨[rest], if_pos hdone⟩
    · obtain ⟨hnonneg, hle, hpos⟩ := (hwrite k rest).resolve_left fun h => hdone (.inr h)
      have hne : rest ≠ [] := by
        rintro rfl
        exact hdone (.inl (by rw [List.length_nil] at hle ⊢; omega))
      have hsome := hpos hne
      have hshorter : (rest.drop (write k rest).toNat).length < fuel := by
        rw [List.length_drop]
        omega
      obtain ⟨more, hmore⟩ := ih (k := k + 1) hshorter
      exact ⟨rest :: more, by rw [if_neg hdone, hmore]; rfl⟩

/-- The place that is found is that of the leftmost pair. -/
theorem leftmost_of_strstr {position : Nat} (h : strstr "%d".toList s = some position) :
    ∃ u v, s = u ++ '%' :: 'd' :: v ∧ u.length = position ∧ ¬ ['%', 'd'] <:+: u ++ ['%'] := by
  obtain ⟨hle, -, -⟩ := strstr_eq_some.mp h
  have hsplit := strstr_split h
  have hlength : (s.take position).length = position := List.length_take_of_le hle
  refine ⟨s.take position, s.drop (position + 2), by simpa using hsplit, hlength, ?_⟩
  rw [hsplit, List.append_assoc] at h
  have hnot := not_infix_of_strstr (by decide) (h.trans (congrArg some hlength.symm))
  rw [Rewrite.pair_concat, not_or]
  exact ⟨hnot, fun h => absurd h.2 (by decide)⟩

theorem strstr_of_leftmost {u v : Str} (h : ¬ ['%', 'd'] <:+: u ++ ['%']) :
    strstr "%d".toList (u ++ '%' :: 'd' :: v) = some u.length := by
  have hnone : strstr "%d".toList u = none :=
    strstr_eq_none.mpr fun h' => h (h'.trans (List.prefix_append _ _).isInfix)
  have hfound := strstr_append_self v (p := "%d".toList) (a := u) (fun k hpos hlt => by
    obtain rfl : k = 1 := by have : "%d".toList.length = 2 := rfl; omega
    decide) hnone
  simpa using hfound

/-- One turn of `translate`. -/
theorem translate_step (hdate : date ≠ []) {fuel : Nat} {u v : Str}
    (h : ¬ ['%', 'd'] <:+: u ++ ['%']) :
    translate date (fuel + 1) (u ++ '%' :: 'd' :: v) = translate date fuel (u ++ date ++ v) := by
  have hrest : (u ++ '%' :: 'd' :: v).drop (u.length + 2) = v := by
    rw [← List.drop_drop, List.drop_left]
    rfl
  rw [translate, strstr_of_leftmost h]
  simp only [List.take_left, hrest]
  rw [if_neg (by simp [hdate])]

theorem translate_none (fuel : Nat) (h : ¬ "%d".toList <:+: s) :
    translate date (fuel + 1) s = .ok s := by
  rw [translate, strstr_eq_none.mpr h]
  rfl

/-- A call that returns has rewritten the record to its end. -/
theorem halts_of_translate (hdate : date ≠ []) {r : Str} : ∀ {fuel : Nat} {s : Str},
    translate date fuel s = .ok r → Rewrite.Halts '%' 'd' date s := by
  intro fuel
  induction fuel with
  | zero => exact fun h => by cases h
  | succ fuel ih =>
    intro s h
    cases hfind : strstr "%d".toList s with
    | none => exact .normal (strstr_eq_none.mp hfind)
    | some position =>
      obtain ⟨u, v, rfl, -, hleft⟩ := leftmost_of_strstr hfind
      rw [translate_step hdate hleft] at h
      exact .step hleft (ih h)

/-- With fuel enough the rewriting is followed to its end. -/
theorem translate_of_halts (hdate : date ≠ []) (h : Rewrite.Halts '%' 'd' date s) :
    ∃ n r, ∀ fuel, n ≤ fuel → translate date fuel s = .ok r := by
  induction h with
  | @normal s hs =>
    refine ⟨1, s, fun fuel hle => ?_⟩
    rw [← Nat.sub_add_cancel hle]
    exact translate_none _ hs
  | step hleft _ ih =>
    obtain ⟨n, r, h⟩ := ih
    refine ⟨n + 1, r, fun fuel hle => ?_⟩
    rw [← Nat.sub_add_cancel (show 1 ≤ fuel by omega), translate_step hdate hleft]
    exact h _ (by omega)

theorem halts_iff_placed : Rewrite.Halts '%' 'd' date s ↔ Placed date s :=
  Rewrite.halts_iff (by decide)

end

/-! ## The call -/

section

variable {sys : LogSystem} {ld : LogData} {s : Str}

theorem placed_of_dated {fuel : Nat} {r dateformat : Str}
    (hformat : ld.dateformat = some dateformat) (h : dated sys fuel ld s = .ok r) :
    sys.date dateformat ≠ [] ∧ Placed (sys.date dateformat) s := by
  rw [dated, hformat] at h
  obtain ⟨date, hdate, h⟩ := Res.bind_eq_ok.mp h
  have hne : sys.date dateformat ≠ [] := by
    intro hempty
    rw [hempty, dateLoop_empty] at hdate
    cases hdate
  obtain rfl := dateLoop_eq hdate
  exact ⟨hne, halts_iff_placed.mp (halts_of_translate hne h)⟩

theorem placed_of_returns {fuel : Nat} {r : Int × List Str} {dateformat : Str} (hfd : ld.fd ≠ -1)
    (hformat : ld.dateformat = some dateformat) (h : fileoutputter sys fuel (some ld) s = .ok r) :
    sys.date dateformat ≠ [] ∧ Placed (sys.date dateformat) s := by
  simp only [fileoutputter, hfd, if_false] at h
  obtain ⟨output, houtput, -⟩ := Res.bind_eq_ok.mp h
  exact placed_of_dated hformat houtput

theorem dated_of_placed (h : ∀ dateformat, ld.dateformat = some dateformat →
    sys.date dateformat ≠ [] ∧ Placed (sys.date dateformat) s) :
    ∃ n r, ∀ fuel, n ≤ fuel → dated sys fuel ld s = .ok r := by
  cases hformat : ld.dateformat with
  | none => exact ⟨0, s, fun fuel _ => by rw [dated, hformat]; rfl⟩
  | some dateformat =>
    obtain ⟨hne, hplaced⟩ := h dateformat hformat
    obtain ⟨n, r, htranslate⟩ := translate_of_halts hne (halts_iff_placed.mpr hplaced)
    refine ⟨n + (sys.date dateformat).length + 1, r, fun fuel hle => ?_⟩
    have hdate : dateLoop (sys.date dateformat) fuel 256 = .ok (sys.date dateformat) := by
      rw [← Nat.sub_add_cancel (show 1 ≤ fuel by omega)]
      exact dateLoop_date hne (by omega)
    rw [dated, hformat]
    simp only [hdate, Res.ok_bind]
    exact htranslate fuel (by omega)

/-- **A record is written to an open file exactly if the date, when there is a
format for it, is not empty and comes to its place.** -/
theorem fileoutputter_returns_iff (hwrite : Progresses sys.write) (data : Option LogData)
    (s : Str) : (∃ fuel r, fileoutputter sys fuel data s = .ok r) ↔
      ∀ ld dateformat, data = some ld → ld.fd ≠ -1 → ld.dateformat = some dateformat →
        sys.date dateformat ≠ [] ∧ Placed (sys.date dateformat) s := by
  constructor
  · rintro ⟨fuel, r, h⟩ ld dateformat rfl hfd hformat
    exact placed_of_returns hfd hformat h
  · intro h
    cases data with
    | none => exact ⟨0, _, rfl⟩
    | some ld =>
      by_cases hfd : ld.fd = -1
      · exact ⟨0, _, if_pos hfd⟩
      · obtain ⟨n, output, houtput⟩ : ∃ n output, ∀ fuel, n ≤ fuel →
            dated sys fuel ld s = .ok output :=
          dated_of_placed fun dateformat => h ld dateformat rfl hfd
        have hdated := houtput (n + output.length + 1) (by omega)
        refine ⟨n + output.length + 1, ?_⟩
        simp only [fileoutputter, hfd, if_false, hdated, Res.ok_bind]
        obtain ⟨texts, htexts⟩ := writeLoop_returns hwrite
          (show output.length < n + output.length + 1 by omega)
        rw [htexts]
        exact ⟨_, rfl⟩

end

namespace Sample

/-- A file that takes every text, and a clock that shows the format. -/
def logSystem : LogSystem where
  position := 0
  rotated := fun _ => true
  date := id
  write := fun _ text => text.length

theorem logSystem_progresses : Progresses logSystem.write := by
  intro k text
  refine .inr ⟨Int.natCast_nonneg _, Int.le_refl _, fun hne => ?_⟩
  exact Int.natCast_pos.mpr (List.length_pos_iff.mpr hne)

def logData (dateformat : Str) : LogData where
  name := "/var/log/voms".toList
  dateformat := some dateformat
  maxlog := 0
  fd := 3

end Sample

/-- A record with two places for a date. -/
theorem fileoutputter_returns_sample : ∃ fuel r,
    fileoutputter Sample.logSystem fuel (some (Sample.logData "Mon".toList)) "%d: a %d".toList =
      .ok r := by
  refine (fileoutputter_returns_iff Sample.logSystem_progresses _ _).mpr ?_
  rintro _ _ ⟨⟩ - ⟨⟩
  exact ⟨by decide, .inr ⟨by decide, .inl fun h => absurd h.1 (by decide)⟩⟩

/-- A date that shows a `%d`, as the format `%%d` gives it, and an empty one. -/
theorem fileoutputter_never :
    ¬ (∃ fuel r, fileoutputter Sample.logSystem fuel (some (Sample.logData "%d".toList))
      "%d: a".toList = .ok r) ∧
    ¬ ∃ fuel r, fileoutputter Sample.logSystem fuel (some (Sample.logData [])) "a".toList =
      .ok r := by
  constructor
  · rintro ⟨fuel, r, h⟩
    obtain ⟨-, hplaced⟩ := placed_of_returns (by decide) rfl h
    rcases hplaced with hnone | ⟨hdate, -⟩
    · exact hnone (by decide)
    · exact hdate (by decide)
  · rintro ⟨fuel, r, h⟩
    exact (placed_of_returns (by decide) rfl h).1 rfl

end Voms.L5
