import Voms.L4Api.VerifyData
import Voms.L3Wire.Xml

/-!
# The vomses files

`vomsdata::loadfile0` (`src/api/ccapi/voms_api.cc`) looks for double quotes
and for nothing else in a line: what stands between the fields, and behind
the sixth of them, is not looked at. A record is appended as soon as its line
is read.

* `fields_length`: two quotes make a field.
* `readLine_record`: a line is read exactly if it has five fields, and the
  record is made of them.
* `loadfile0_exact`: when a file is loaded, and what is appended either way.
-/
namespace Voms.L4

open Voms.Core Voms.L3

/-- mirrors src/api/ccapi/voms_api.h:83-94 -/
structure Contactdata where
  nick : Str
  host : Str
  contact : Str
  vo : Str
  port : Int
  version : Int
  deriving DecidableEq, Repr

def Contactdata.new : Contactdata := ⟨[], [], [], [], 0, 0⟩

/-- `std::string::find`. -/
def find (c : Char) (str : Str) (pos : Nat) : Option Nat :=
  ((str.drop pos).idxOf? c).map (· + pos)

/-- `start` is `none` for `npos`; it and `value` stay as they are where the
result is `false`.
mirrors src/api/ccapi/voms_api.cc:684-701 -/
def tokenize (str : Str) (start : Option Nat) (value : Str) : Bool × Option Nat × Str :=
  match start with
  | none => (false, start, value)
  | some pos =>
    match find '"' str pos with
    | none => (false, start, value)
    | some first =>
      match find '"' str (first + 1) with
      | none => (false, start, value)
      | some last =>
        (true, if str.length ≤ last + 1 then none else some (last + 1),
          (str.drop (first + 1)).take (last - first - 1))

/-- mirrors src/api/ccapi/voms_api.cc:703-712 -/
def empty (c : Str) : Bool := c.head? == some '#' || c.all isSpace

/-- The body of the loop. What a line leaves in `data` the next one finds there.
mirrors src/api/ccapi/voms_api.cc:740-763 -/
def readLine (line : Str) (data : Contactdata) : Bool × Contactdata :=
  let (ok1, start, nick) := tokenize line (some 0) data.nick
  let (ok2, start, host) := tokenize line start data.host
  let (ok3, start, port) := tokenize line start []
  let (ok4, start, contact) := tokenize line start data.contact
  let (ok5, start, vo) := tokenize line start data.vo
  let (verok, _, version) := tokenize line start []
  if ok1 && ok2 && ok3 && ok4 && ok5 then
    (true, ⟨nick, host, contact, vo, atoi port, if verok then atoi version else -1⟩)
  else (false, { data with nick := nick, host := host, contact := contact, vo := vo })

def formatError (filename line : Str) : Str :=
  "data format in file: ".toList ++ filename ++ " incorrect!\nLine: ".toList ++ line

def loadLines (filename : Str) :
    List Str → Contactdata → List Contactdata → VomsData → Bool × List Contactdata × VomsData
  | [], _, servers, s => (true, servers, s)
  | line :: lines, data, servers, s =>
    if empty line then loadLines filename lines data servers s
    else
      let (ok, data) := readLine line data
      if ok then loadLines filename lines data (servers ++ [data]) s
      else (false, servers, s.seterror .VERR_FORMAT (formatError filename line))

/-- `openFile` is `std::ifstream`.
mirrors src/api/ccapi/voms_api.cc:714-767 -/
def loadfile0 (openFile : Str → Option Str) (filename : Str) (servers : List Contactdata)
    (s : VomsData) : Bool × List Contactdata × VomsData :=
  if filename = [] then (false, servers, s.seterror .VERR_DIR "Filename unspecified.".toList)
  else match openFile filename with
    | none => (false, servers, s.seterror .VERR_DIR ("Cannot open file: ".toList ++ filename))
    | some text => loadLines filename (getlines '\n' text) .new servers s

/-! ## Fields -/

/-- The texts between the first two quotes, the next two, and so on. -/
def between : List Str → List Str
  | _ :: field :: next :: pieces => field :: between (next :: pieces)
  | _ => []

def fields (line : Str) : List Str := between (line.splitOn '"')

example : fields "x\"a\" \"b\"\"c".toList = ["a".toList, "b".toList] := by decide

theorem between_length : ∀ pieces : List Str, (between pieces).length = (pieces.length - 1) / 2
  | [] | [_] | [_, _] => by simp [between]
  | _ :: _ :: next :: pieces => by
    have ih := between_length (next :: pieces)
    rw [between, List.length_cons, ih]
    simp only [List.length_cons]
    omega

theorem splitOn_length (c : Char) (s : Str) : (s.splitOn c).length = s.count c + 1 := by
  induction s with
  | nil => rfl
  | cons d s ih =>
    rw [List.splitOn_cons_eq_if_modifyHead, List.count_cons]
    split
    · rw [List.length_cons, ih]
    · rw [List.length_modifyHead, ih]

/-- Two quotes make a field. -/
theorem fields_length (line : Str) : (fields line).length = line.count '"' / 2 := by
  rw [fields, between_length, splitOn_length, Nat.add_sub_cancel]

theorem fields_of_notMem {s : Str} (h : '"' ∉ s) : fields s = [] := by
  rw [fields, List.splitOn_eq_singleton h]
  rfl

theorem fields_of_one {a s : Str} (ha : '"' ∉ a) (h : '"' ∉ s) : fields (a ++ '"' :: s) = [] := by
  rw [fields, List.splitOn_append_cons_self_of_not_mem ha, List.splitOn_eq_singleton h]
  rfl

theorem fields_of_two {a b : Str} (ha : '"' ∉ a) (hb : '"' ∉ b) (s : Str) :
    fields (a ++ '"' :: (b ++ '"' :: s)) = b :: fields s := by
  rw [fields, List.splitOn_append_cons_self_of_not_mem ha,
    List.splitOn_append_cons_self_of_not_mem hb, fields]
  cases hs : s.splitOn '"' with
  | nil => exact absurd hs (List.splitOn_ne_nil _ _)
  | cons piece pieces => rfl

/-! ## The tokenizer -/

/-- What the tokenizer has not passed over yet. -/
def remaining (str : Str) : Option Nat → Str
  | none => []
  | some pos => str.drop pos

theorem find_eq_none {c : Char} {str : Str} {pos : Nat} :
    find c str pos = none ↔ c ∉ str.drop pos := by
  rw [find, Option.map_eq_none_iff, List.idxOf?_eq_none_iff]

theorem find_eq_some {c : Char} {str : Str} {pos n : Nat} (h : find c str pos = some n) :
    ∃ a, c ∉ a ∧ str.drop pos = a ++ c :: str.drop (n + 1) ∧ n = pos + a.length := by
  obtain ⟨m, hm, rfl⟩ := Option.map_eq_some_iff.mp h
  obtain ⟨a, b, hab, ha, rfl⟩ := idxOf_split hm
  refine ⟨a, ha, ?_, Nat.add_comm _ _⟩
  have hdrop : str.drop (a.length + pos + 1) = b := by
    rw [show a.length + pos + 1 = pos + (a.length + 1) by omega, ← List.drop_drop, hab,
      ← List.drop_drop, List.drop_left]
    rfl
  rw [hdrop, hab]

/-- One call takes one field. -/
theorem tokenize_fields (str : Str) (start : Option Nat) (value : Str) :
    ∃ start', tokenize str start value =
        (!(fields (remaining str start)).isEmpty, start', (fields (remaining str start)).headD value) ∧
      fields (remaining str start') = (fields (remaining str start)).tail := by
  cases start with
  | none => exact ⟨none, rfl, rfl⟩
  | some pos =>
    rw [tokenize, remaining]
    cases hfirst : find '"' str pos with
    | none =>
      have hnone := fields_of_notMem (find_eq_none.mp hfirst)
      rw [hnone]
      exact ⟨some pos, rfl, hnone⟩
    | some first =>
      obtain ⟨a, ha, hdrop, rfl⟩ := find_eq_some hfirst
      dsimp only
      cases hlast : find '"' str (pos + a.length + 1) with
      | none =>
        have hnone := fields_of_one ha (find_eq_none.mp hlast)
        rw [← hdrop] at hnone
        rw [hnone]
        exact ⟨some pos, rfl, hnone⟩
      | some last =>
        obtain ⟨b, hb, hdrop', rfl⟩ := find_eq_some hlast
        have hvalue : pos + a.length + 1 + b.length - (pos + a.length) - 1 = b.length := by omega
        dsimp only
        rw [hdrop, hdrop', fields_of_two ha hb, hvalue, List.take_left]
        refine ⟨_, rfl, ?_⟩
        split
        · next hend =>
          rw [remaining, List.drop_eq_nil_of_le hend]
          rfl
        · rfl

/-! ## Lines -/

/-- The record of a line. -/
def record (line : Str) : Option Contactdata :=
  match fields line with
  | nick :: host :: port :: contact :: vo :: more =>
    some ⟨nick, host, contact, vo, atoi port, (more.head?.map atoi).getD (-1)⟩
  | _ => none

theorem record_isSome (line : Str) : (record line).isSome = true ↔ 10 ≤ line.count '"' := by
  have hlen := fields_length line
  have hfive : (record line).isSome = true ↔ 5 ≤ (fields line).length := by
    rw [record]
    split
    · next h => rw [h]; simp
    · next h =>
      match hf : fields line with
      | [] | [_] | [_, _] | [_, _, _] | [_, _, _, _] => simp
      | nick :: host :: port :: contact :: vo :: more => exact absurd hf (h nick host port contact vo more)
  rw [hfive, hlen]
  omega

/-- A line is read exactly if it has a record. -/
theorem readLine_record (line : Str) (data : Contactdata) :
    match record line with
    | some r => readLine line data = (true, r)
    | none => (readLine line data).1 = false := by
  obtain ⟨s1, h1, f1⟩ := tokenize_fields line (some 0) data.nick
  obtain ⟨s2, h2, f2⟩ := tokenize_fields line s1 data.host
  obtain ⟨s3, h3, f3⟩ := tokenize_fields line s2 []
  obtain ⟨s4, h4, f4⟩ := tokenize_fields line s3 data.contact
  obtain ⟨s5, h5, f5⟩ := tokenize_fields line s4 data.vo
  obtain ⟨s6, h6, -⟩ := tokenize_fields line s5 []
  rw [f5, f4, f3, f2, f1] at h6
  rw [f4, f3, f2, f1] at h5
  rw [f3, f2, f1] at h4
  rw [f2, f1] at h3
  rw [f1] at h2
  rw [remaining, List.drop_zero] at h1 h2 h3 h4 h5 h6
  rw [record, readLine]
  simp only [h1, h2, h3, h4, h5, h6]
  generalize fields line = l
  rcases l with _ | ⟨nick, _ | ⟨host, _ | ⟨port, _ | ⟨contact, _ | ⟨vo, _ | ⟨version, l⟩⟩⟩⟩⟩⟩ <;>
    simp

/-! ## Files -/

/-- Blank, a comment, or with five fields. -/
def Accepted (line : Str) : Prop := empty line = true ∨ 10 ≤ line.count '"'

instance (line : Str) : Decidable (Accepted line) := inferInstanceAs (Decidable (_ ∨ _))

/-- What a line adds. -/
def recordOf (line : Str) : Option Contactdata := if empty line then none else record line

/-- The lines before the first one that is not accepted. -/
def loaded (lines : List Str) : List Str := lines.takeWhile fun line => Accepted line

def firstBad (lines : List Str) : Option Str := lines.find? fun line => ¬ Accepted line

theorem loadLines_eq (filename : Str) (lines : List Str) :
    ∀ (data : Contactdata) (servers : List Contactdata) (s : VomsData),
    loadLines filename lines data servers s =
      match firstBad lines with
      | none => (true, servers ++ (loaded lines).filterMap recordOf, s)
      | some line => (false, servers ++ (loaded lines).filterMap recordOf,
          s.seterror .VERR_FORMAT (formatError filename line)) := by
  induction lines with
  | nil =>
    intro data servers s
    rw [loadLines, loaded, List.takeWhile_nil, List.filterMap_nil, List.append_nil]
    rfl
  | cons line lines ih =>
    intro data servers s
    have hskip (h : Accepted line) : firstBad (line :: lines) = firstBad lines ∧
        loaded (line :: lines) = line :: loaded lines := by
      constructor
      · rw [firstBad, List.find?_cons_of_neg (by simpa using h), firstBad]
      · rw [loaded, List.takeWhile_cons_of_pos (by simpa using h), loaded]
    rw [loadLines]
    by_cases hempty : empty line = true
    · obtain ⟨hbad, hloaded⟩ := hskip (.inl hempty)
      have hnone : recordOf line = none := if_pos hempty
      rw [if_pos hempty, ih, hbad, hloaded, List.filterMap_cons_none hnone]
    · have hrecord : recordOf line = record line := if_neg hempty
      have hread := readLine_record line data
      have hsome := record_isSome line
      rw [if_neg hempty]
      cases hr : record line with
      | some r =>
        rw [hr] at hread hsome
        obtain ⟨hbad, hloaded⟩ := hskip (.inr (hsome.mp rfl))
        simp only [hread, if_true]
        rw [ih, hbad, hloaded, List.filterMap_cons_some (hrecord.trans hr), List.append_assoc,
          List.singleton_append]
      | none =>
        rw [hr] at hread hsome
        have hno : ¬ Accepted line := by
          rintro (h | h)
          · exact hempty h
          · exact absurd (hsome.mpr h) (by simp)
        have hbad : firstBad (line :: lines) = some line :=
          List.find?_cons_of_pos (by simpa using hno)
        have hloaded : loaded (line :: lines) = [] := List.takeWhile_cons_of_neg (by simpa using hno)
        simp only [hread, Bool.false_eq_true, if_false]
        rw [hbad, hloaded, List.filterMap_nil, List.append_nil]

theorem firstBad_eq_none {lines : List Str} :
    firstBad lines = none ↔ ∀ line ∈ lines, Accepted line := by
  simp [firstBad, List.find?_eq_none]

/-- **A file is loaded exactly if its lines are all accepted; the records of
the lines before the first other one are appended either way.** -/
theorem loadfile0_exact {openFile : Str → Option Str} {filename text : Str}
    (hname : filename ≠ []) (hopen : openFile filename = some text) (servers : List Contactdata) (s : VomsData) :
    ((loadfile0 openFile filename servers s).1 = true ↔ ∀ line ∈ getlines '\n' text, Accepted line) ∧
    (loadfile0 openFile filename servers s).2.1 =
      servers ++ (loaded (getlines '\n' text)).filterMap recordOf ∧
    (loadfile0 openFile filename servers s).2.2 =
      match firstBad (getlines '\n' text) with
      | none => s
      | some line => s.seterror .VERR_FORMAT (formatError filename line) := by
  have hload : loadfile0 openFile filename servers s =
      loadLines filename (getlines '\n' text) .new servers s := by
    rw [loadfile0, if_neg hname, hopen]
  rw [hload, loadLines_eq, ← firstBad_eq_none]
  cases firstBad (getlines '\n' text) <;> simp

namespace Sample

def vomses : Str :=
  "# the vo\n\"vo\" \"host.org\" \"15000\" \"/CN=host.org\" \"vo\" \"24\"\n".toList

def hostOrg : Contactdata :=
  ⟨"vo".toList, "host.org".toList, "/CN=host.org".toList, "vo".toList, 15000, 24⟩

end Sample

theorem loadfile0_exact_sample :
    (loadfile0 (fun _ => some Sample.vomses) "vomses".toList [] (.new [])).2.1 = [Sample.hostOrg] := by
  have hopen : (fun _ : Str => some Sample.vomses) "vomses".toList = some Sample.vomses := rfl
  have hexact := loadfile0_exact (by decide) hopen [] (.new [])
  exact hexact.2.1.trans (by decide +kernel)

/-! ## The format of the records -/

/-- What stands outside of the quotes. -/
def outside : List Str → List Str
  | text :: _ :: pieces => text :: outside pieces
  | pieces => pieces

/-- Five or six quoted fields, with nothing but blanks around them. -/
def WellFormed (line : Str) : Prop :=
  (line.count '"' = 10 ∨ line.count '"' = 12) ∧
    ∀ text ∈ outside (line.splitOn '"'), ∀ c ∈ text, isSpace c = true

instance (line : Str) : Decidable (WellFormed line) :=
  decidable_of_iff ((line.count '"' = 10 ∨ line.count '"' = 12) ∧
    ((outside (line.splitOn '"')).all fun text => text.all isSpace) = true)
    (by simp [WellFormed, List.all_eq_true])

/-- A file with a good line and a bad one leaves a record; a line with other
text in it is a record. -/
theorem loadfile0_lenient :
    let late := loadfile0 (fun _ => some (Sample.vomses ++ "vo".toList)) "vomses".toList [] (.new [])
    let stray := "vo\"vo\"\"host.org\"\"15000\"\"/CN=host.org\"\"vo\"".toList
    (late.1 = false ∧ late.2.1 = [Sample.hostOrg]) ∧
      empty stray = false ∧ ¬ WellFormed stray ∧
      (loadfile0 (fun _ => some stray) "vomses".toList [] (.new [])).1 = true := by
  decide +kernel

end Voms.L4
