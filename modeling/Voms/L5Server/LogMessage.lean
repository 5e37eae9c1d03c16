import Voms.Core.Decimal
import Voms.Core.Res

/-!
# The log format

`LogMessage` (`src/log/log.c`) goes through the format byte by byte. `mode` is
1 behind a percent sign, and `len` what `StringAdd` is told to add at most, -1
for everything.

* `GetLen` is called with the percent sign itself, so that no length is ever
  read, and its digits are output.
* `len` is 0 up to the first percent sign: the letters in front of it go lost.
* Only `%m`, `%p` and `%%` reset the mode: behind any other directive a letter
  is taken for one, and a percent sign is output.

`logMessage_faithful_iff`: for which formats every event is logged as the
documentation says.
-/
namespace Voms.L5

open Voms.Core

/-! ## Levels and types -/

inductive LogLevel where
  | error | warn | info | debug | none
  deriving DecidableEq, Repr

def LogLevel.toNat : LogLevel → Nat
  | .error => 0
  | .warn => 1
  | .info => 2
  | .debug => 3
  | .none => 4

inductive LogType where
  | pre | startup | request | result
  deriving DecidableEq, Repr

def LogType.toNat : LogType → Nat
  | .pre => 0
  | .startup => 1
  | .request => 2
  | .result => 4

def typenames : List Str := ["STARTUP".toList, "REQUEST".toList, "RESULT".toList]

def LogLevel.name : LogLevel → Str
  | .error => "LOG_ERROR".toList
  | .warn => "LOG_WARN".toList
  | .info => "LOG_INFO".toList
  | .debug => "LOG_DEBUG".toList
  | .none => "NONE".toList

/-- `type & (1 << i)` for the first `i`; without one the loop never ends. -/
def typeName (type : LogType) : Res Unit Str :=
  match (List.range 32).find? (type.toNat.testBit ·) with
  | none => .fault .diverge
  | some i =>
    match typenames[i]? with
    | none => .fault .outOfRange
    | some name => .ok name

/-! ## One message -/

/-- What `LogMessage` reads of `struct LogInfo`. -/
structure LogInfo where
  currlev : LogLevel
  currtype : Nat
  deftype : LogType
  format : Option Str
  service : Option Str
  deriving DecidableEq, Repr

structure LogEvent where
  lev : LogLevel
  type : LogType
  message : Str
  func : Option Str
  line : Int
  file : Option Str
  deriving DecidableEq, Repr

/-- `getpid` and `uname`. -/
structure LogHost where
  pid : Int
  nodename : Option Str
  deriving DecidableEq, Repr

/-- `isprint` in the C locale. -/
def isPrint (c : Char) : Bool := ' ' ≤ c && c ≤ '~'

/-- mirrors src/log/log.c:280-302 -/
def stringAdd (dest src : Option Str) (len : Int) : Option Str :=
  match src with
  | none => dest
  | some src => some (dest.getD [] ++ if len = -1 then src else src.take len.toNat)

/-- The length at the front of the text, and what follows it.
mirrors src/log/log.c:345-367 -/
def getLen (message : Str) : Res Unit (Int × Str) :=
  if message.takeWhile Char.isDigit = [] then .ok (-1, message)
  else
    let i := Nat.ofDigitChars 10 (message.takeWhile Char.isDigit) 0
    if i < 2 ^ 31 then .ok (i, message.dropWhile Char.isDigit) else .fault .outOfRange

/-- The letters that the `switch` has a case for. -/
inductive LogLetter where
  | message | date | pid | service | file | line | typeName | typeNumber | levelNumber | levelName
  | func | host
  deriving DecidableEq, Repr

def LogLetter.char : LogLetter → Char
  | .message => 'm'
  | .date => 'd'
  | .pid => 'p'
  | .service => 's'
  | .file => 'f'
  | .line => 'l'
  | .typeName => 'T'
  | .typeNumber => 't'
  | .levelNumber => 'v'
  | .levelName => 'V'
  | .func => 'F'
  | .host => 'h'

def LogLetter.all : List LogLetter :=
  [.message, .date, .pid, .service, .file, .line, .typeName, .typeNumber, .levelNumber, .levelName,
    .func, .host]

def letterOf (c : Char) : Option LogLetter := LogLetter.all.find? (fun l => l.char = c)

/-- The local variables of the loop. -/
structure FormatState where
  mode : Nat
  len : Int
  str : Option Str
  deriving DecidableEq, Repr

def FormatState.add (st : FormatState) (src : Option Str) : FormatState :=
  { st with str := stringAdd st.str src st.len }

/-- A case of the `switch`: `plain` in mode 0, `directive` in mode 1, else
`goto err`. -/
def letterCase (st : FormatState) (plain : Str) (directive : Res Unit FormatState) :
    Res Unit FormatState :=
  if st.mode = 0 then .ok (st.add (some plain))
  else if st.mode = 1 then directive
  else .err ()

/-- The cases for letters. `lev` and `type` are the ones in use, `message` is
`msgcopy`. -/
def formatLetter (host : LogHost) (li : LogInfo) (ev : LogEvent) (lev : LogLevel) (type : LogType)
    (message : Str) (st : FormatState) : LogLetter → Res Unit FormatState
  | .message => letterCase st "m".toList (.ok { st.add (some message) with mode := 0 })
  | .date => .ok (st.add (some "%d".toList))
  | .pid => letterCase st "p".toList (.ok { st.add (some (decimal host.pid)) with mode := 0 })
  | .service => letterCase st "s".toList (.ok (st.add li.service))
  | .file => letterCase st "f".toList (.ok (st.add ev.file))
  | .line => letterCase st "l".toList (.ok (st.add (some (decimal ev.line))))
  | .typeName => letterCase st "N".toList do
    let name ← typeName type
    pure (st.add (some name))
  | .typeNumber => letterCase st "n".toList (.ok (st.add (some (decimal type.toNat))))
  | .levelNumber => letterCase st "v".toList (.ok (st.add (some (decimal lev.toNat))))
  | .levelName => letterCase st "V".toList (.ok (st.add (some lev.name)))
  | .func => letterCase st "F".toList (.ok (st.add ev.func))
  | .host => letterCase st "h".toList do
    let nodename ← Res.require () host.nodename
    pure (st.add (some nodename))

/-- The `switch` on the first byte of the format. `GetLen` may move `format`.
mirrors src/log/log.c:406-570 -/
def formatChar (letter : FormatState → LogLetter → Res Unit FormatState) (c : Char) (rest : Str)
    (st : FormatState) : Res Unit (Str × FormatState) :=
  if c = '%' then
    if st.mode = 1 then .ok (c :: rest, { st.add (some "%".toList) with mode := 0 })
    else if st.mode = 0 then do
      let (len, format) ← getLen (c :: rest)
      pure (format, { st with len, mode := 1 })
    else .err ()
  else
    match letterOf c with
    | some l => do
      let st ← letter st l
      pure (c :: rest, st)
    | none => .ok (c :: rest, { st with str := stringAdd st.str (some [c]) (-1), mode := 0 })

/-- `while (*format)`; every turn takes a byte at least. -/
def formatLoop (letter : FormatState → LogLetter → Res Unit FormatState) :
    Nat → Str → FormatState → Res Unit FormatState
  | _, [], st => .ok st
  | 0, _ :: _, _ => .fault .diverge
  | fuel + 1, c :: rest, st => do
    let (format, st) ← formatChar letter c rest st
    formatLoop letter fuel (format.drop 1) st

/-- What is returned, the level the streamers are told, and what they are
given to output. -/
structure Logged where
  ret : Int
  level : Option Str
  output : Option Str
  deriving DecidableEq, Repr

/-- The level and the type in use. -/
def LogEvent.level (ev : LogEvent) : LogLevel :=
  if ev.lev.toNat ≥ LogLevel.none.toNat then .debug else ev.lev

def LogEvent.kind (ev : LogEvent) (li : LogInfo) : LogType :=
  if ev.type = .pre then li.deftype else ev.type

/-- Whether the event is output. -/
def LogInfo.logs (li : LogInfo) (ev : LogEvent) : Bool :=
  (li.currlev.toNat ≥ ev.level.toNat && li.currtype &&& (ev.kind li).toNat != 0) ||
    li.currlev = .debug

/-- mirrors src/log/log.c:369-585 -/
def logMessage (host : LogHost) (data : Option LogInfo) (ev : LogEvent) : Eval Logged :=
  match data with
  | none => pure ⟨1, none, none⟩
  | some li =>
    let level := some ev.level.name
    if li.logs ev then do
      let msgcopy := ev.message.map fun c => if isPrint c then c else '.'
      let format ← Res.deref li.format
      let letter := formatLetter host li ev ev.level (ev.kind li) msgcopy
      match formatLoop letter format.length format ⟨0, 0, none⟩ with
      | .ok st => pure ⟨1, level, stringAdd st.str (some "\n".toList) (-1)⟩
      | .err () => pure ⟨0, level, none⟩
      | .fault f => .fault f
    else pure ⟨1, level, none⟩

/-! ## What the format says -/

inductive Directive where
  | percent
  | letter (l : LogLetter)
  deriving DecidableEq, Repr

def Directive.char : Directive → Char
  | .percent => '%'
  | .letter l => l.char

/-- A byte that stands for itself, or a directive with the digits of its
length, if it has one. -/
inductive FormatPiece where
  | lit (c : Char) (plain : c ≠ '%' ∧ c ≠ '\x00')
  | dir (size : Str) (digits : size.all Char.isDigit = true) (x : Directive)

def FormatPiece.text : FormatPiece → Str
  | .lit c _ => [c]
  | .dir size _ x => '%' :: (size ++ [x.char])

def formatText (pieces : List FormatPiece) : Str := pieces.flatMap FormatPiece.text

def LogType.name : LogType → Str
  | .pre => []
  | .startup => "STARTUP".toList
  | .request => "REQUEST".toList
  | .result => "RESULT".toList

/-- The value of each letter; the date is put in by the streamers. -/
def LogEvent.value (ev : LogEvent) (host : LogHost) (li : LogInfo) : LogLetter → Str
  | .message => ev.message.map fun c => if isPrint c then c else '.'
  | .date => "%d".toList
  | .pid => decimal host.pid
  | .service => li.service.getD []
  | .file => ev.file.getD []
  | .line => decimal ev.line
  | .typeName => (ev.kind li).name
  | .typeNumber => decimal (ev.kind li).toNat
  | .levelNumber => decimal ev.level.toNat
  | .levelName => ev.level.name
  | .func => ev.func.getD []
  | .host => host.nodename.getD []

def Directive.value (V : LogLetter → Str) : Directive → Str
  | .percent => "%".toList
  | .letter l => V l

/-- At most as long as the size says. -/
def cutTo (size value : Str) : Str :=
  if size = [] then value else value.take (Nat.ofDigitChars 10 size 0)

def FormatPiece.expected (V : LogLetter → Str) : FormatPiece → Str
  | .lit c _ => [c]
  | .dir size _ x => cutTo size (x.value V)

def expectedText (V : LogLetter → Str) (pieces : List FormatPiece) : Str :=
  pieces.flatMap (FormatPiece.expected V)

/-- Every event that is logged is output as the format says. The type in use
is one of the three, and the host has a name. -/
def LogsAsWritten (pieces : List FormatPiece) : Prop :=
  ∀ (host : LogHost) (li : LogInfo) (ev : LogEvent), li.format = some (formatText pieces) →
    li.logs ev = true → ev.kind li ≠ .pre → host.nodename ≠ none →
    logMessage host (some li) ev = .ok ⟨1, some ev.level.name,
      some (expectedText (ev.value host li) pieces ++ "\n".toList)⟩

/-! ## The formatter as a machine -/

/-- Where the loop is: in front of the first percent sign, behind one with
mode 0, or with mode 1. -/
inductive FormatPlace where
  | start | plain | armed
  deriving DecidableEq, Repr

/-- What a letter adds in mode 0. -/
def LogLetter.plainText : LogLetter → Str
  | .date => "%d".toList
  | .typeName => "N".toList
  | .typeNumber => "n".toList
  | l => [l.char]

/-- Whether the directive sets the mode back to 0. -/
def LogLetter.resets : LogLetter → Bool
  | .message => true
  | .pid => true
  | _ => false

def Directive.after : Directive → FormatPlace
  | .percent => .plain
  | .letter l => if l.resets then .plain else .armed

/-- What one byte adds to the output, and where it leads. -/
def emitChar (V : LogLetter → Str) (c : Char) : FormatPlace → Str × FormatPlace
  | .start =>
    if c = '%' then ([], .armed)
    else if (letterOf c).isSome then ([], .start)
    else ([c], .start)
  | .plain =>
    if c = '%' then ([], .armed) else (((letterOf c).map LogLetter.plainText).getD [c], .plain)
  | .armed =>
    if c = '%' then (['%'], .plain)
    else ((letterOf c).map fun l => (V l, (Directive.letter l).after)).getD ([c], .plain)

def emit (V : LogLetter → Str) : FormatPlace → Str → Str
  | _, [] => []
  | place, c :: s => (emitChar V c place).1 ++ emit V (emitChar V c place).2 s

/-- The formats that come out right, from each place on. -/
def Fit : FormatPlace → List FormatPiece → Prop
  | _, [] => True
  | .start, .lit c _ :: pieces => letterOf c = none ∧ Fit .start pieces
  | .plain, .lit c _ :: pieces => c ∉ "dTt".toList ∧ Fit .plain pieces
  | .armed, .lit c _ :: pieces => letterOf c = none ∧ Fit .plain pieces
  | .start, .dir size _ x :: pieces => size = [] ∧ Fit x.after pieces
  | .plain, .dir size _ x :: pieces => size = [] ∧ Fit x.after pieces
  | .armed, .dir size _ x :: pieces => size = [] ∧ x = .percent ∧ Fit .armed pieces

instance Fit.decidable : ∀ place pieces, Decidable (Fit place pieces)
  | .start, [] => isTrue trivial
  | .plain, [] => isTrue trivial
  | .armed, [] => isTrue trivial
  | .start, .lit _ _ :: pieces => @instDecidableAnd _ _ inferInstance (Fit.decidable .start pieces)
  | .plain, .lit _ _ :: pieces => @instDecidableAnd _ _ inferInstance (Fit.decidable .plain pieces)
  | .armed, .lit _ _ :: pieces => @instDecidableAnd _ _ inferInstance (Fit.decidable .plain pieces)
  | .start, .dir _ _ x :: pieces => @instDecidableAnd _ _ inferInstance (Fit.decidable x.after pieces)
  | .plain, .dir _ _ x :: pieces => @instDecidableAnd _ _ inferInstance (Fit.decidable x.after pieces)
  | .armed, .dir _ _ _ :: pieces =>
    have := Fit.decidable .armed pieces
    inferInstanceAs (Decidable (_ ∧ _ ∧ _))

/-! ## The loop is the machine -/

theorem letterOf_char (l : LogLetter) : letterOf l.char = some l := by cases l <;> rfl

theorem char_of_letterOf {c : Char} {l : LogLetter} (h : letterOf c = some l) : l.char = c := by
  have hfound := List.find?_some h
  exact of_decide_eq_true hfound

theorem char_ne_percent (l : LogLetter) : l.char ≠ '%' := by cases l <;> decide

section

variable {V : LogLetter → Str} {letter : FormatState → LogLetter → Res Unit FormatState}

section

variable {c : Char} {l : LogLetter}

theorem emitChar_lit (hc : c ≠ '%') (h : letterOf c = none) {place : FormatPlace} :
    emitChar V c place = ([c], if place = .start then .start else .plain) := by
  cases place <;> simp [emitChar, hc, h]

theorem emitChar_start (hc : c ≠ '%') (h : letterOf c = some l) :
    emitChar V c .start = ([], .start) := by simp [emitChar, hc, h]

theorem emitChar_plain (hc : c ≠ '%') (h : letterOf c = some l) :
    emitChar V c .plain = (l.plainText, .plain) := by simp [emitChar, hc, h]

theorem emitChar_armed (hc : c ≠ '%') (h : letterOf c = some l) :
    emitChar V c .armed = (V l, (Directive.letter l).after) := by simp [emitChar, hc, h]

end

/-- The text put together so far. -/
def FormatState.out (st : FormatState) : Str := st.str.getD []

/-- The mode and the length at each place. -/
def FormatPlace.At : FormatPlace → FormatState → Prop
  | .start, st => st.mode = 0 ∧ st.len = 0
  | .plain, st => st.mode = 0 ∧ st.len = -1
  | .armed, st => st.mode = 1 ∧ st.len = -1

/-- The letters add their values in mode 1. -/
structure Evaluates (letter : FormatState → LogLetter → Res Unit FormatState)
    (V : LogLetter → Str) : Prop where
  plain : ∀ st l, st.mode = 0 → letter st l = .ok (st.add (some l.plainText))
  value : ∀ st l, st.mode = 1 → st.len = -1 → ∃ st', letter st l = .ok st' ∧
    (Directive.letter l).after.At st' ∧ st'.out = st.out ++ V l

theorem typeName_eq {type : LogType} (h : type ≠ .pre) : typeName type = .ok type.name := by
  cases type with
  | pre => exact absurd rfl h
  | startup => rfl
  | request => rfl
  | result => rfl

theorem FormatState.add_out {st : FormatState} (hlen : st.len = -1) (src : Option Str) :
    (st.add src).out = st.out ++ src.getD [] := by
  cases src with
  | none => exact (List.append_nil _).symm
  | some src => simp [FormatState.add, FormatState.out, stringAdd, hlen]

theorem letterCase_plain {st : FormatState} {plain : Str} {x : Res Unit FormatState}
    (hmode : st.mode = 0) : letterCase st plain x = .ok (st.add (some plain)) := if_pos hmode

theorem letterCase_directive {st : FormatState} {plain : Str} {x : Res Unit FormatState}
    (hmode : st.mode = 1) : letterCase st plain x = x := by
  rw [letterCase, hmode]
  rfl

theorem formatLetter_evaluates {host : LogHost} {li : LogInfo} {ev : LogEvent}
    (hkind : ev.kind li ≠ .pre) (hhost : host.nodename ≠ none) :
    Evaluates (formatLetter host li ev ev.level (ev.kind li)
      (ev.message.map fun c => if isPrint c then c else '.')) (ev.value host li) where
  plain st l hmode := by
    cases l with
    | date => rfl
    | _ => exact letterCase_plain hmode
  value st l hmode hlen := by
    obtain ⟨nodename, hnodename⟩ := Option.ne_none_iff_exists'.mp hhost
    have hkept : ∀ src, (st.add src).mode = 1 ∧ (st.add src).len = -1 := fun _ => ⟨hmode, hlen⟩
    cases l with
    | message =>
      exact ⟨_, letterCase_directive hmode, ⟨rfl, hlen⟩, FormatState.add_out hlen (some _)⟩
    | pid =>
      exact ⟨_, letterCase_directive hmode, ⟨rfl, hlen⟩, FormatState.add_out hlen (some _)⟩
    | date => exact ⟨_, rfl, hkept _, FormatState.add_out hlen _⟩
    | typeName =>
      refine ⟨st.add (some (ev.kind li).name), (letterCase_directive hmode).trans ?_, hkept _,
        FormatState.add_out hlen _⟩
      rw [typeName_eq hkind]
      rfl
    | host =>
      refine ⟨st.add (some nodename), (letterCase_directive hmode).trans ?_, hkept _, ?_⟩
      · rw [hnodename]
        rfl
      · rw [FormatState.add_out hlen, LogEvent.value, hnodename]
    | _ => exact ⟨_, letterCase_directive hmode, hkept _, FormatState.add_out hlen _⟩

/-- A turn that leads from the place to the next one and adds the text that the
machine adds. -/
def Turns (letter : FormatState → LogLetter → Res Unit FormatState) (V : LogLetter → Str)
    (place : FormatPlace) (st : FormatState) (c : Char) (rest : Str) : Prop :=
  ∃ st', formatChar letter c rest st = .ok (c :: rest, st') ∧ (emitChar V c place).2.At st' ∧
    st'.out = st.out ++ (emitChar V c place).1

section

variable {place : FormatPlace} {st : FormatState} {c : Char} {rest : Str}

/-- No length is found at the percent sign itself. -/
theorem getLen_percent (rest : Str) : getLen ('%' :: rest) = .ok (-1, '%' :: rest) := if_pos rfl

theorem turns_percent (hat : place.At st) : Turns letter V place st '%' rest := by
  cases place with
  | armed =>
    obtain ⟨hmode, hlen⟩ := hat
    refine ⟨{ st.add (some "%".toList) with mode := 0 }, ?_, ⟨rfl, hlen⟩,
      FormatState.add_out hlen (some _)⟩
    rw [formatChar, if_pos rfl, if_pos hmode]
  | _ =>
    refine ⟨{ st with mode := 1, len := -1 }, ?_, ⟨rfl, rfl⟩, (List.append_nil _).symm⟩
    rw [formatChar, if_pos rfl, if_neg (by rw [hat.1]; decide), if_pos hat.1, getLen_percent]
    rfl

/-- A byte that is none of the letters stands for itself everywhere. -/
theorem turns_other (hat : place.At st) (hc : c ≠ '%') (hletter : letterOf c = none) :
    Turns letter V place st c rest := by
  have hout : FormatState.out { st with str := stringAdd st.str (some [c]) (-1), mode := 0 } =
      st.out ++ [c] := rfl
  rw [Turns, formatChar, if_neg hc, hletter, emitChar_lit hc hletter]
  cases place with
  | start => exact ⟨_, rfl, ⟨rfl, hat.2⟩, hout⟩
  | plain => exact ⟨_, rfl, ⟨rfl, hat.2⟩, hout⟩
  | armed => exact ⟨_, rfl, ⟨rfl, hat.2⟩, hout⟩

theorem turns_letter (heval : Evaluates letter V) (hat : place.At st) (hc : c ≠ '%') {l : LogLetter}
    (hletter : letterOf c = some l) : Turns letter V place st c rest := by
  rw [Turns, formatChar, if_neg hc, hletter]
  cases place with
  | start =>
    obtain ⟨hmode, hlen⟩ := hat
    rw [emitChar_start hc hletter]
    simp only [heval.plain st l hmode, Res.ok_bind]
    refine ⟨_, rfl, ⟨hmode, hlen⟩, ?_⟩
    -- with the length 0 nothing is added
    simp [FormatState.add, FormatState.out, stringAdd, hlen]
  | plain =>
    obtain ⟨hmode, hlen⟩ := hat
    rw [emitChar_plain hc hletter]
    simp only [heval.plain st l hmode, Res.ok_bind]
    exact ⟨_, rfl, ⟨hmode, hlen⟩, FormatState.add_out hlen (some _)⟩
  | armed =>
    obtain ⟨hmode, hlen⟩ := hat
    obtain ⟨st', hst', hat', hout⟩ := heval.value st l hmode hlen
    rw [emitChar_armed hc hletter]
    simp only [hst', Res.ok_bind]
    exact ⟨st', rfl, hat', hout⟩

/-- One turn of the loop. -/
theorem formatChar_turns (heval : Evaluates letter V) (hat : place.At st) (c : Char) (rest : Str) :
    Turns letter V place st c rest := by
  by_cases hc : c = '%'
  · rw [hc]
    exact turns_percent hat
  · cases hletter : letterOf c with
    | none => exact turns_other hat hc hletter
    | some l => exact turns_letter heval hat hc hletter

end

theorem formatLoop_emits (heval : Evaluates letter V) : ∀ {s : Str} {place : FormatPlace}
    {st : FormatState} {fuel : Nat}, place.At st → s.length ≤ fuel → ∃ st',
      formatLoop letter fuel s st = .ok st' ∧ st'.out = st.out ++ emit V place s := by
  intro s
  induction s with
  | nil =>
    intro place st fuel _ _
    exact ⟨st, by cases fuel <;> rfl, (List.append_nil _).symm⟩
  | cons c s ih =>
    intro place st fuel hat hle
    obtain ⟨fuel, rfl⟩ : ∃ n, fuel = n + 1 := ⟨fuel - 1, by simp at hle; omega⟩
    obtain ⟨st₁, hchar, hat₁, hout₁⟩ := formatChar_turns heval hat c s
    obtain ⟨st₂, hloop, hout₂⟩ := ih hat₁ (Nat.le_of_succ_le_succ hle)
    refine ⟨st₂, ?_, by rw [hout₂, hout₁, List.append_assoc]; rfl⟩
    rw [formatLoop, hchar]
    exact hloop

/-- What is logged, for an event that is. -/
theorem logMessage_emits {host : LogHost} {li : LogInfo} {ev : LogEvent} {format : Str}
    (hformat : li.format = some format) (hlogs : li.logs ev = true) (hkind : ev.kind li ≠ .pre)
    (hhost : host.nodename ≠ none) : logMessage host (some li) ev =
      .ok ⟨1, some ev.level.name, some (emit (ev.value host li) .start format ++ "\n".toList)⟩ := by
  have hat : FormatPlace.start.At ⟨0, 0, none⟩ := ⟨rfl, rfl⟩
  obtain ⟨st, hloop, hout⟩ := formatLoop_emits (formatLetter_evaluates hkind hhost) hat
    (Nat.le_refl format.length)
  simp only [logMessage, hlogs, if_true, hformat, Res.deref_some, Res.ok_bind, hloop]
  have hend : stringAdd st.str (some "\n".toList) (-1) = some (st.out ++ "\n".toList) := rfl
  rw [hend, hout]
  rfl

end

/-! ## Formats that come out right -/

section

variable {V : LogLetter → Str}

/-- A directive without a length, in front of a percent sign's mode. -/
theorem emit_directive (x : Directive) (rest : Str) {place : FormatPlace}
    (hplace : place ≠ .armed) : emit V place ('%' :: x.char :: rest) = x.value V ++ emit V x.after rest := by
  have harmed : emitChar V '%' place = ([], .armed) := by
    cases place with
    | armed => exact absurd rfl hplace
    | start => rfl
    | plain => rfl
  rw [emit, harmed, List.nil_append, emit]
  cases x with
  | percent => rfl
  | letter l =>
    rw [Directive.char, emitChar_armed (char_ne_percent l) (letterOf_char l)]
    rfl

/-- Behind a letter that is no `d`, `T` or `t` stands that letter. -/
theorem emit_plain {c : Char} (hc : c ≠ '%') (h : c ∉ "dTt".toList) (rest : Str) :
    emit V .plain (c :: rest) = c :: emit V .plain rest := by
  rw [emit]
  cases hletter : letterOf c with
  | none =>
    rw [emitChar_lit hc hletter]
    rfl
  | some l =>
    rw [emitChar_plain hc hletter]
    obtain rfl := char_of_letterOf hletter
    cases l with
    | date => exact absurd h (by decide)
    | typeName => exact absurd h (by decide)
    | typeNumber => exact absurd h (by decide)
    | _ => rfl

theorem formatText_cons (piece : FormatPiece) (pieces : List FormatPiece) :
    formatText (piece :: pieces) = piece.text ++ formatText pieces := List.flatMap_cons

theorem expectedText_cons (piece : FormatPiece) (pieces : List FormatPiece) :
    expectedText V (piece :: pieces) = piece.expected V ++ expectedText V pieces :=
  List.flatMap_cons

/-- A format that fits comes out as it says, whatever the values. -/
theorem Fit.emit_eq : ∀ {pieces : List FormatPiece} {place : FormatPlace}, Fit place pieces →
    emit V place (formatText pieces) = expectedText V pieces := by
  intro pieces
  induction pieces with
  | nil => exact fun _ => by rfl
  | cons piece pieces ih =>
    intro place h
    rw [formatText_cons, expectedText_cons]
    cases piece with
    | lit c plain =>
      cases place with
      | start =>
        rw [← ih h.2]
        change emit V .start (c :: formatText pieces) = _
        rw [emit, emitChar_lit plain.1 h.1]
        rfl
      | plain =>
        rw [← ih h.2]
        exact emit_plain plain.1 h.1 _
      | armed =>
        rw [← ih h.2]
        change emit V .armed (c :: formatText pieces) = _
        rw [emit, emitChar_lit plain.1 h.1]
        rfl
    | dir size digits x =>
      cases place with
      | start =>
        obtain ⟨rfl, h⟩ := h
        rw [← ih h]
        exact emit_directive x _ (by decide)
      | plain =>
        obtain ⟨rfl, h⟩ := h
        rw [← ih h]
        exact emit_directive x _ (by decide)
      | armed =>
        obtain ⟨rfl, rfl, h⟩ := h
        rw [← ih h]
        rfl

end

/-! ## One event for all the others -/

/-- The values of an event with nothing but a mark where it can. -/
def markedValue : LogLetter → Str
  | .message => "!".toList
  | .date => "%d".toList
  | .pid => "1".toList
  | .service => "!".toList
  | .file => "!".toList
  | .line => "1".toList
  | .typeName => "STARTUP".toList
  | .typeNumber => "1".toList
  | .levelNumber => "0".toList
  | .levelName => "LOG_ERROR".toList
  | .func => "X".toList
  | .host => "!".toList

/-- What a text weighs: percent signs and capitals weigh nothing. -/
def heavy (c : Char) : Bool := !('A' ≤ c && c ≤ 'Z' || c = '_' || c = '%')

/-- Each letter weighs as much as its value, and as what it adds in mode 0. -/
theorem weight_letter (l : LogLetter) :
    (markedValue l).countP heavy = [l.char].countP heavy ∧
      l.plainText.countP heavy = [l.char].countP heavy := by
  cases l <;> decide

/-- Behind the first percent sign the output weighs as much as the format. -/
theorem emit_weight : ∀ {s : Str} {place : FormatPlace}, place ≠ .start →
    (emit markedValue place s).countP heavy = s.countP heavy := by
  intro s
  induction s with
  | nil => exact fun _ => rfl
  | cons c s ih =>
    intro place hplace
    have hchar : (emitChar markedValue c place).1.countP heavy = [c].countP heavy ∧
        (emitChar markedValue c place).2 ≠ .start := by
      by_cases hc : c = '%'
      · subst hc
        cases place with
        | start => exact absurd rfl hplace
        | plain => exact ⟨rfl, by decide⟩
        | armed => exact ⟨rfl, by decide⟩
      · cases hletter : letterOf c with
        | none =>
          rw [emitChar_lit hc hletter, if_neg hplace]
          exact ⟨rfl, nofun⟩
        | some l =>
          obtain rfl := char_of_letterOf hletter
          cases place with
          | start => exact absurd rfl hplace
          | plain =>
            rw [emitChar_plain hc hletter]
            exact ⟨(weight_letter l).2, nofun⟩
          | armed =>
            rw [emitChar_armed hc hletter]
            exact ⟨(weight_letter l).1, by cases l <;> decide⟩
    rw [emit, List.countP_append, hchar.1, ih hchar.2, ← List.countP_append]
    rfl

theorem heavy_digit {c : Char} (h : c.isDigit = true) : heavy c = true := by
  have hupper : ¬ 'A' ≤ c := by
    have hdigit : c.val.toNat ≤ 57 := UInt32.le_iff_toNat_le.mp (by
      simp only [Char.isDigit, Bool.and_eq_true, decide_eq_true_eq] at h
      exact h.2)
    intro hle
    have hA : 65 ≤ c.val.toNat := UInt32.le_iff_toNat_le.mp (Char.le_def.mp hle)
    omega
  have hunder : c ≠ '_' := by rintro rfl; exact absurd h (by decide)
  have hpercent : c ≠ '%' := by rintro rfl; exact absurd h (by decide)
  simp [heavy, hupper, hunder, hpercent]

theorem weight_value (x : Directive) :
    (x.value markedValue).countP heavy = [x.char].countP heavy := by
  cases x with
  | percent => rfl
  | letter l => exact (weight_letter l).1

theorem weight_dir {size : Str} (digits : size.all Char.isDigit = true) (x : Directive) :
    (FormatPiece.dir size digits x).text.countP heavy = size.length + [x.char].countP heavy := by
  have hsize : size.countP heavy = size.length :=
    List.countP_eq_length.mpr fun c hc => heavy_digit (List.all_eq_true.mp digits c hc)
  rw [FormatPiece.text, List.countP_cons_of_neg (by decide), List.countP_append, hsize]

/-- No piece weighs more than its text. -/
theorem weight_expected (pieces : List FormatPiece) :
    (expectedText markedValue pieces).countP heavy ≤ (formatText pieces).countP heavy := by
  induction pieces with
  | nil => exact Nat.le_refl 0
  | cons piece pieces ih =>
    rw [expectedText_cons, formatText_cons, List.countP_append, List.countP_append]
    refine Nat.add_le_add ?_ ih
    cases piece with
    | lit c plain => exact Nat.le_refl _
    | dir size digits x =>
      rw [weight_dir, ← weight_value, FormatPiece.expected, cutTo]
      split
      · omega
      · have := (List.take_sublist (Nat.ofDigitChars 10 size 0) (x.value markedValue)).countP_le
          (p := heavy)
        omega

/-- A length makes the output heavier. -/
theorem not_sized {size : Str} {digits : size.all Char.isDigit = true} {x : Directive}
    {pieces : List FormatPiece} {place : FormatPlace} (hplace : place ≠ .start)
    (h : emit markedValue place (formatText (.dir size digits x :: pieces)) =
      expectedText markedValue (.dir size digits x :: pieces)) : size = [] := by
  by_contra hsize
  have hpos : 0 < size.length := List.length_pos_iff.mpr hsize
  have hweight := congrArg (List.countP heavy) h
  have hle := weight_expected pieces
  rw [emit_weight hplace, formatText_cons, expectedText_cons, List.countP_append,
    List.countP_append, weight_dir, ← weight_value, FormatPiece.expected, cutTo, if_neg hsize]
    at hweight
  have := (List.take_sublist (Nat.ofDigitChars 10 size 0) (x.value markedValue)).countP_le
    (p := heavy)
  omega

/-- In front of the first percent sign, and in mode 1, the output never begins
with one of the letters. -/
theorem emit_head : ∀ {s : Str} {place : FormatPlace} {c : Char}, place ≠ .plain →
    (emit markedValue place s).head? = some c → letterOf c = none := by
  intro s
  induction s with
  | nil => exact fun _ h => by cases h
  | cons a s ih =>
    intro place c hplace h
    rw [emit] at h
    by_cases ha : a = '%'
    · subst ha
      cases place with
      | start => exact ih (by decide) h
      | plain => exact absurd rfl hplace
      | armed =>
        obtain rfl : '%' = c := Option.some.inj h
        rfl
    · cases hletter : letterOf a with
      | none =>
        rw [emitChar_lit ha hletter] at h
        obtain rfl : a = c := Option.some.inj h
        exact hletter
      | some l =>
        cases place with
        | start =>
          rw [emitChar_start ha hletter] at h
          exact ih hplace h
        | plain => exact absurd rfl hplace
        | armed =>
          rw [emitChar_armed ha hletter] at h
          cases l <;> exact Option.some.inj h ▸ rfl

/-- A letter of the set is no literal in front of the first percent sign, nor
in mode 1. -/
theorem lit_of_emit {c : Char} {s tail : Str} {place : FormatPlace} (hplace : place ≠ .plain)
    (h : emit markedValue place (c :: s) = c :: tail) : letterOf c = none :=
  emit_head hplace (congrArg List.head? h)

theorem markedValue_head {l : LogLetter} (hl : l ≠ .date) :
    ∃ c v, markedValue l = c :: v ∧ c ≠ '%' := by
  cases l with
  | date => exact absurd rfl hl
  | _ => exact ⟨_, _, rfl, by decide⟩

/-- Behind a directive that leaves the mode set only a percent sign is one. -/
theorem percent_of_emit {x : Directive} {s tail : Str}
    (h : emit markedValue .armed ('%' :: x.char :: s) = x.value markedValue ++ tail) :
    x = .percent := by
  cases x with
  | percent => rfl
  | letter l =>
    by_cases hl : l = .date
    · subst hl
      -- the value of the date begins with a percent sign too
      have hsecond : '%' = 'd' := Option.some.inj (congrArg (fun out => out[1]?) h)
      exact absurd hsecond (by decide)
    · obtain ⟨c, v, hvalue, hc⟩ := markedValue_head hl
      rw [Directive.value, hvalue] at h
      exact absurd (List.cons.inj h).1.symm hc

/-- What comes out right for the marked event fits. -/
theorem fit_of_emit : ∀ {pieces : List FormatPiece} {place : FormatPlace},
    emit markedValue place (formatText pieces) = expectedText markedValue pieces →
      Fit place pieces := by
  intro pieces
  induction pieces with
  | nil => exact fun _ => by rw [Fit]; trivial
  | cons piece pieces ih =>
    intro place h
    cases piece with
    | lit c plain =>
      change emit markedValue place (c :: formatText pieces) =
        c :: expectedText markedValue pieces at h
      cases place with
      | start =>
        have hletter := lit_of_emit (by decide) h
        rw [emit, emitChar_lit plain.1 hletter] at h
        exact ⟨hletter, ih (List.cons.inj h).2⟩
      | plain =>
        have hkept : c ∉ "dTt".toList := by
          intro hc
          simp only [String.reduceToList, List.mem_cons, List.not_mem_nil, or_false] at hc
          obtain rfl | rfl | rfl := hc
          · exact absurd ((List.cons.inj h).1 : '%' = 'd') (by decide)
          · exact absurd ((List.cons.inj h).1 : 'N' = 'T') (by decide)
          · exact absurd ((List.cons.inj h).1 : 'n' = 't') (by decide)
        rw [emit_plain plain.1 hkept] at h
        exact ⟨hkept, ih (List.cons.inj h).2⟩
      | armed =>
        have hletter := lit_of_emit (by decide) h
        rw [emit, emitChar_lit plain.1 hletter] at h
        exact ⟨hletter, ih (List.cons.inj h).2⟩
    | dir size digits x =>
      cases place with
      | start =>
        have hplain : FormatPlace.plain ≠ .start := by decide
        obtain rfl := not_sized hplain h
        exact ⟨rfl, ih (List.append_cancel_left ((emit_directive x _ (by decide)).symm.trans h))⟩
      | plain =>
        obtain rfl := not_sized (by decide) h
        exact ⟨rfl, ih (List.append_cancel_left ((emit_directive x _ (by decide)).symm.trans h))⟩
      | armed =>
        obtain rfl := not_sized (by decide) h
        obtain rfl := percent_of_emit h
        exact ⟨rfl, rfl, ih (List.cons.inj h).2⟩

/-! ## The formats that are output as they say -/

/-- The marked event. -/
def markedEvent : LogEvent := ⟨.error, .startup, "!".toList, some "X".toList, 1, some "!".toList⟩

def markedHost : LogHost := ⟨1, some "!".toList⟩

def markedInfo (format : Str) : LogInfo := ⟨.debug, 7, .startup, some format, some "!".toList⟩

theorem markedEvent_value (format : Str) :
    markedEvent.value markedHost (markedInfo format) = markedValue := by
  funext l
  cases l with
  | typeNumber => exact (by decide : decimal ((1 : Nat) : Int) = "1".toList)
  | _ => rfl

/-- A format is right for every event just if it fits. -/
theorem logMessage_faithful_iff (pieces : List FormatPiece) :
    LogsAsWritten pieces ↔ Fit .start pieces := by
  constructor
  · intro h
    have hlogs : (markedInfo (formatText pieces)).logs markedEvent = true := Bool.or_true _
    have hkind : markedEvent.kind (markedInfo (formatText pieces)) ≠ .pre := nofun
    have hhost : markedHost.nodename ≠ none := nofun
    have hout := h markedHost (markedInfo (formatText pieces)) markedEvent rfl hlogs hkind hhost
    rw [logMessage_emits rfl hlogs hkind hhost, markedEvent_value] at hout
    have htext := congrArg Logged.output (Res.ok.inj hout)
    exact fit_of_emit (List.append_cancel_right (Option.some.inj htext))
  · intro h host li ev hformat hlogs hkind hhost
    rw [logMessage_emits hformat hlogs hkind hhost, h.emit_eq]

/-- The format that vomsd logs with when it is told none fits. -/
example : Fit .start
    [.dir [] rfl (.letter .date), .lit ':' (by decide), .dir [] rfl (.letter .host),
      .lit ':' (by decide), .dir [] rfl (.letter .service), .lit '[' (by decide),
      .dir [] rfl (.letter .pid), .lit ']' (by decide), .lit ':' (by decide), .lit ' ' (by decide),
      .lit 'm' (by decide), .lit 's' (by decide), .lit 'g' (by decide), .lit '=' (by decide),
      .lit '"' (by decide), .dir [] rfl (.letter .levelName), .lit ':' (by decide),
      .dir [] rfl (.letter .typeName), .lit ':' (by decide), .dir [] rfl (.letter .func),
      .lit ' ' (by decide), .lit '(' (by decide), .dir [] rfl (.letter .file),
      .lit ':' (by decide), .dir [] rfl (.letter .line), .lit ')' (by decide),
      .lit ':' (by decide), .dir [] rfl (.letter .message), .lit '"' (by decide)] := by
  decide

/-- `vo%5m`: a letter in front of the first percent sign, and a length. -/
def sizedFormat : List FormatPiece :=
  [.lit 'v' (by decide), .lit 'o' (by decide), .dir "5".toList (by decide) (.letter .message)]

def sizedEvent : LogEvent := { markedEvent with message := "hello world".toList }

theorem logMessage_unfaithful :
    formatText sizedFormat = "vo%5m".toList ∧
    logMessage markedHost (some (markedInfo "vo%5m".toList)) sizedEvent =
      .ok ⟨1, some "LOG_ERROR".toList, some "o5m\n".toList⟩ ∧
    expectedText (sizedEvent.value markedHost (markedInfo "vo%5m".toList)) sizedFormat =
      "vohello".toList ∧
    ¬ LogsAsWritten sizedFormat := by
  have hlogged : logMessage markedHost (some (markedInfo "vo%5m".toList)) sizedEvent =
      .ok ⟨1, some "LOG_ERROR".toList, some "o5m\n".toList⟩ := by decide
  refine ⟨rfl, hlogged, by decide, fun h => ?_⟩
  have hexpected := h markedHost (markedInfo "vo%5m".toList) sizedEvent rfl rfl (by decide)
    (by decide)
  exact absurd (hlogged.symm.trans hexpected) (by decide)

end Voms.L5
