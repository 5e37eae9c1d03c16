import Voms.Core.Res
import Voms.Core.Str

/-!
# The XML messages between client and server

`src/common/xmlcc.cc`. Requests and answers are parsed by expat, which calls
a handler for every start tag, end tag and piece of text. `Wire.expat` is
what expat makes of a message: the calls, in order, and whether
`XML_Parse` succeeds. The handlers are modelled as they are; neither they
nor the decoders look at their own `error` flag once the parse is over.
-/
namespace Voms.L3

open Voms.Core

/-! ## Messages -/

/-- mirrors src/include/errors.h:30-33 -/
structure Errorp where
  num : Int
  message : Str
  deriving DecidableEq, Repr

/-- mirrors src/include/errors.h:35-48 -/
def ERROR_OFFSET : Int := 1000
def WARN_OFFSET : Int := 0
def WARN_NO_FIRST_SELECT : Int := WARN_OFFSET + 1
def WARN_SHORT_VALIDITY : Int := WARN_OFFSET + 2
def WARN_ATTR_SUBSET : Int := WARN_OFFSET + 3
def WARN_UNKNOWN_COMMAND : Int := WARN_OFFSET + 4
def ERR_NOT_MEMBER : Int := ERROR_OFFSET + 1
def ERR_ATTR_EMPTY : Int := ERROR_OFFSET + 2
def ERR_WITH_DB : Int := ERROR_OFFSET + 3
def ERR_SUSPENDED : Int := ERROR_OFFSET + 4
def ERR_NO_COMMAND : Int := ERROR_OFFSET + 5
def ERR_UNEXPECTED_ERROR : Int := ERROR_OFFSET + 6

/-- mirrors src/include/vomsxml.h:31-38 -/
structure Request where
  order : Str
  targets : Str
  command : List Str
  lifetime : Int
  base64 : Bool
  version : Int
  deriving DecidableEq, Repr

/-- mirrors src/include/vomsxml.h:40-46 -/
structure Answer where
  data : Str
  ac : Str
  errs : List Errorp
  version : Int
  deriving DecidableEq, Repr

/-- A call of one of the three handlers. -/
inductive XmlEvent where
  | start (name : Str)
  | stop (name : Str)
  | text (s : Str)
  deriving DecidableEq, Repr

/-- The libraries under the messages. -/
structure Wire where
  /-- The handler calls of `XML_Parse` and whether it succeeds. -/
  expat : Str → List XmlEvent × Bool
  /-- `BIO_f_base64`. -/
  base64Decode : Str → Str

/-! ## Requests -/

/-- mirrors src/common/xmlcc.cc:49-54 -/
structure ReqState where
  r : Request
  value : Str
  error : Bool
  depth : Nat
  deriving DecidableEq, Repr

/-- mirrors src/common/xmlcc.cc:416-430 -/
def startreq (d : ReqState) : ReqState :=
  if d.error then d
  else if d.depth = 2 then { d with error := true }
  else { d with depth := d.depth + 1, value := [] }

/-- The element that ends. mirrors src/common/xmlcc.cc:445-456 -/
def setField (r : Request) (name value : Str) : Request :=
  if name = "order".toList then { r with order := value }
  else if name = "targets".toList then { r with targets := value }
  else if name = "command".toList then { r with command := r.command ++ [value] }
  else if name = "lifetime".toList then { r with lifetime := atoi value }
  else if name = "base64".toList then { r with base64 := true }
  else if name = "version".toList then { r with version := atoi value }
  else r

/-- mirrors src/common/xmlcc.cc:432-458 -/
def endreq (d : ReqState) (name : Str) : ReqState :=
  if d.error then d
  else if d.depth = 0 then { d with error := true }
  else { d with depth := d.depth - 1, r := setField d.r name d.value, value := [] }

/-- Text replaces the text before it.
mirrors src/common/xmlcc.cc:522-533 -/
def handlerreq (d : ReqState) (s : Str) : ReqState :=
  if d.error then d else { d with value := s }

def ReqState.step (d : ReqState) : XmlEvent → ReqState
  | .start _ => startreq d
  | .stop name => endreq d name
  | .text s => handlerreq d s

def ReqState.new : ReqState := ⟨⟨[], [], [], 0, false, 0⟩, [], false, 0⟩

/-- mirrors src/common/xmlcc.cc:361-384 -/
def xmlReqDecode (X : Wire) (message : Str) : Option Request :=
  let (events, res) := X.expat message
  if res then some (events.foldl ReqState.step .new).r else none

/-- The pieces `getline` reads: nothing behind the last delimiter is no piece. -/
def getlines (c : Char) (s : Str) : List Str :=
  let l := s.splitOn c
  if l.getLast? = some [] then l.dropLast else l

/-- mirrors src/common/xmlcc.cc:267-299 -/
def xmlReqEncode (command order targets : Str) (lifetime : Int) : Str :=
  "<?xml version=\"1.0\" encoding=\"US-ASCII\"?><voms>".toList ++
    ((getlines ',' command).flatMap fun c =>
      "<command>".toList ++ c ++ "</command>".toList) ++
    (if order = [] then [] else "<order>".toList ++ order ++ "</order>".toList) ++
    (if targets = [] then [] else "<targets>".toList ++ targets ++ "</targets>".toList) ++
    "<base64>1</base64><version>4</version>".toList ++
    (if lifetime ≤ 0 then "<lifetime></lifetime>".toList
      else "<lifetime>".toList ++ (toString lifetime).toList ++ "</lifetime>".toList) ++
    "</voms>".toList

/-! ## Base 64 -/

/-- `trans2[(int)c]`; a `char` from 128 on is a negative index.
mirrors src/common/xmlcc.cc:69-84 -/
def trans2 (c : Char) : Eval Nat :=
  if 128 ≤ c.toNat then .fault .outOfRange
  else if c.isDigit then pure (c.toNat - '0'.toNat + 52)
  else if c.isUpper then pure (c.toNat - 'A'.toNat + 26)
  else if c.isLower then pure (c.toNat - 'a'.toNat)
  else if c = '[' then pure 62
  else if c = ']' then pure 63
  else pure 0

/-- The value of the character behind, 0 at the end. -/
def trans2Next : Str → Eval Nat
  | [] => pure 0
  | c :: _ => trans2 c

/-- Where the loop stands in a group of four characters. -/
inductive Bit where
  | zero | four | two
  deriving DecidableEq, Repr

/-- The loop of `MyDecode`. A byte counts only when another character
follows. mirrors src/common/xmlcc.cc:232-264 -/
def myDecode : Bit → Str → Eval Str
  | _, [] => pure []
  | bit, ch :: rest => do
    let c ← trans2 ch
    let c2 ← trans2Next rest
    let byte (n : Nat) : Str := if rest = [] then [] else [Char.ofNat (n % 256)]
    match bit with
    | .zero => do
      let out ← myDecode .four rest
      pure (byte ((c &&& 0x3f) <<< 2 ||| (c2 &&& 0x30) >>> 4) ++ out)
    | .four => do
      let out ← myDecode .two rest
      pure (byte ((c &&& 0x0f) <<< 4 ||| (c2 &&& 0x3c) >>> 2) ++ out)
    | .two =>
      match rest with
      | [] => pure []
      | _ :: rest' => do
        let out ← myDecode .zero rest'
        pure (byte ((c &&& 0x03) <<< 6 ||| (c2 &&& 0x3f)) ++ out)

/-- mirrors src/common/xmlcc.cc:148-166 -/
def decode (X : Wire) (data : Str) : Eval Str :=
  if '\n' ∈ data then pure (X.base64Decode data) else myDecode .zero data

/-! ## Answers -/

/-- `num` is not initialized. mirrors src/common/xmlcc.cc:56-63 -/
structure AnsState where
  a : Answer
  value : Str
  error : Bool
  depth : Nat
  num : Option Int
  message : Str
  deriving DecidableEq, Repr

/-- mirrors src/common/xmlcc.cc:404-414 -/
def startans (s : AnsState) : AnsState :=
  if s.depth = 4 then { s with error := true } else { s with depth := s.depth + 1, value := [] }

/-- The number that stands for a `code`.
mirrors src/common/xmlcc.cc:496-506 -/
def codeNumber (msg : Str) : Int :=
  if msg = "NoSuchUser".toList then ERR_NOT_MEMBER
  else if msg = "SuspendedUser".toList then ERR_SUSPENDED
  else if msg = "BadRequest".toList then ERR_WITH_DB
  else ERR_UNEXPECTED_ERROR

/-- The element that ends, once `depth` is decremented.
mirrors src/common/xmlcc.cc:473-510 -/
def setAnswer (X : Wire) (s : AnsState) (name : Str) : Eval AnsState :=
  if name = "ac".toList then do
    let ac ← decode X s.value
    pure { s with a := { s.a with ac }, error := ac.isEmpty }
  else if name = "bitstr".toList then do
    let data ← decode X s.value
    pure { s with a := { s.a with data }, error := data.isEmpty }
  else if name = "error".toList then
    match s.num with
    | none => .fault .uninit
    | some num => pure { s with a := { s.a with errs := s.a.errs ++ [⟨num, s.message⟩] } }
  else if name = "number".toList ∧ s.depth = 3 then pure { s with num := some (atoi s.value) }
  else if name = "message".toList ∧ s.depth = 3 then pure { s with message := s.value }
  else if name = "warning".toList then
    pure { s with a := { s.a with errs := s.a.errs ++ [⟨WARN_OFFSET, s.value⟩] } }
  else if name = "code".toList ∧ s.depth = 3 then
    pure { s with num := some (codeNumber (cStr s.value)) }
  else if name = "version".toList then pure { s with a := { s.a with version := atoi s.value } }
  else pure s

/-- mirrors src/common/xmlcc.cc:460-520 -/
def endans (X : Wire) (s : AnsState) (name : Str) : Eval AnsState :=
  if s.error ∨ s.depth = 0 then pure { s with error := true }
  else do
    let s ← setAnswer X { s with depth := s.depth - 1 } name
    pure { s with value := [] }

/-- mirrors src/common/xmlcc.cc:535-551 -/
def handlerans (s : AnsState) (str : Str) : AnsState :=
  if s.error then s else { s with value := s.value ++ str }

def AnsState.step (X : Wire) (s : AnsState) : XmlEvent → Eval AnsState
  | .start _ => pure (startans s)
  | .stop name => endans X s name
  | .text str => pure (handlerans s str)

def AnsState.new : AnsState := ⟨⟨[], [], [], 0⟩, [], false, 0, none, []⟩

/-- mirrors src/common/xmlcc.cc:386-401 -/
def xmlAnsDecode (X : Wire) (message : Str) : Eval (Option Answer) := do
  let (events, res) := X.expat message
  let s ← events.foldlM (AnsState.step X) .new
  pure (if res then some s.a else none)

end Voms.L3
