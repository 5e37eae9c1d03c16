import Voms.Core.Sort
import Voms.L2Ac.Write
import Voms.L3Wire.Xml
import Voms.L5Server.Request

/-!
# `makeAC`: from a request to an answer

`VOMSServer::makeAC` (`src/server/vomsd.cc`), in two halves.
`interpretRequest` decodes the request and has the database execute its
commands, one after the other, into one list of FQANs and one of generic
attributes. `issueAC` orders the FQANs, restricts them to what the client's
proxy already carries, and writes the AC.

The database is the plugin behind `sqliface::interface`: an operation is
given the list as it stands and leaves another, and succeeds or not. The
ACs of the proxy are given as the records that `Retrieve` left in
`vd.data`. `answer` and `written` of an outcome are not members of the
result: they record what the database had answered once it was released,
and the FQANs given to `createac`.
-/
namespace Voms.L5

open Voms.Core Voms.L1 Voms.L2 Voms.L3

/-! ## The result -/

/-- mirrors src/server/VOMSServer.h:41-82 -/
structure VomsResult where
  ac : Str
  data : Str
  errs : List Errorp
  base64 : Bool
  deriving DecidableEq, Repr

/-- mirrors src/server/VOMSServer.h:49 -/
def VomsResult.new : VomsResult := ⟨"A".toList, [], [], true⟩

def VomsResult.setError (vr : VomsResult) (num : Int) (message : Str) : VomsResult :=
  { vr with errs := vr.errs ++ [⟨num, message⟩] }

/-- The result `makeACREST` starts from; `Execute` starts from a new one.
mirrors src/server/vomsd-rest.cc:113-118 -/
def VomsResult.start (unknown : Bool) : VomsResult :=
  if unknown then
    VomsResult.new.setError WARN_UNKNOWN_COMMAND
      "Unknown parameters in the request were ignored!".toList
  else VomsResult.new

/-- What a call of `makeAC` does. -/
structure Outcome where
  ret : Bool
  vr : VomsResult
  answer : Option (List Str)
  written : Option (List Str)
  deriving DecidableEq, Repr

/-! ## The database -/

/-- mirrors src/include/dbwrap.h:62-71 -/
structure Gattrib where
  name : Str
  qualifier : Str
  value : Str
  deriving DecidableEq, Repr

/-- mirrors src/include/dbwrap.h:69-70 -/
def Gattrib.str (g : Gattrib) : Str := g.qualifier ++ "::".toList ++ g.name ++ "=".toList ++ g.value

/-- The operations on a list, with their arguments behind the list.
mirrors src/include/dbwrap.h:51-60 -/
inductive Operation where
  | GET_ALL (uid : Int)
  | GET_ROLE (uid : Int) (role : Option Str)
  | GET_GROUPS (uid : Int)
  | GET_GROUPS_AND_ROLE (uid : Int) (group role : Option Str)
  | GET_ALL_ATTRIBS (uid : Int)
  | GET_ROLE_ATTRIBS (uid : Int) (role : Option Str)
  | GET_GROUPS_ATTRIBS (uid : Int)
  | GET_GROUPS_AND_ROLE_ATTRIBS (uid : Int) (group role : Option Str)
  deriving DecidableEq, Repr

/-- A session, or none. The number of the command tells apart operations
that are asked for more than once. -/
structure Database where
  getSession : Bool
  getUser : Bool × Int
  error : Int
  errorMessage : Option Str
  operation : Nat → Operation → List Str → Bool × List Str
  operationAttribs : Nat → Operation → List Gattrib → Bool × List Gattrib

def ERR_NO_DB : Int := 9
def ERR_USER_SUSPENDED : Int := 11

/-! ## The server -/

/-- The options of the VO, the connection and the libraries. -/
structure Server extends Wire where
  voname : Str
  uri : Str
  validity : Int
  shortfqans : Bool
  newformat : Bool
  base64encoding : Bool
  ownStack : Option (List X509)
  signer : Signer
  /-- `get_serial()`. -/
  serial : Option Asn1Integer
  /-- `i2d_AC`. -/
  i2dAc : Ac → Str
  sorter : Sorter
  /-- `vd.data` after `Retrieve` of the client's chain. -/
  retrieved : List VomsRecord

/-- The arguments of `makeAC` but for the result and the message. -/
structure Party where
  key : EvpPKey
  issuer : X509
  holder : X509

/-- mirrors src/common/data.cc:128-143 -/
def stringify (i : Int) : Str := (toString i).toList

/-! ## The commands -/

/-- The lists as the database leaves them. -/
structure Lists where
  fqans : List Str
  attribs : List Gattrib
  deriving DecidableEq, Repr

/-- An operation on the FQANs and, if it succeeds, one on the attributes. -/
def Database.both (D : Database) (k : Nat) (op opAttribs : Operation) (l : Lists) :
    Bool × Lists :=
  let (result, fqans) := D.operation k op l.fqans
  if result then (true, ⟨fqans, (D.operationAttribs k opAttribs l.attribs).2⟩)
  else (false, ⟨fqans, l.attribs⟩)

/-- The attributes of the groups. -/
def Database.groupAttribs (D : Database) (k : Nat) (uid : Int) (l : Lists) : Lists :=
  { l with attribs := (D.operationAttribs k (.GET_GROUPS_ATTRIBS uid) l.attribs).2 }

/-- The `switch` over the letter of a command.
mirrors src/server/vomsd.cc:901-938 -/
def runCommand (D : Database) (k : Nat) (uid : Int) (c : Command) (l : Lists) :
    Eval (Bool × Lists) :=
  if c.comm = 'A' then pure (D.both k (.GET_ALL uid) (.GET_ALL_ATTRIBS uid) l)
  else if c.comm = 'R' then
    let (result, l) := D.both k (.GET_ROLE uid c.role) (.GET_ROLE_ATTRIBS uid c.role) l
    pure (result, D.groupAttribs k uid l)
  else if c.comm = 'G' then
    let (result, fqans) := D.operation k (.GET_GROUPS uid) l.fqans
    let l := { l with fqans }
    if result then do
      let group ← Res.deref c.group
      pure (if notIn group fqans then (false, l) else (true, D.groupAttribs k uid l))
    else pure (false, l)
  else if c.comm = 'B' then
    let (result, l) := D.both k (.GET_GROUPS_AND_ROLE uid c.group c.role)
      (.GET_GROUPS_AND_ROLE_ATTRIBS uid c.group c.role) l
    pure (result, D.groupAttribs k uid l)
  else if c.comm = 'N' then
    let (result, fqans) := D.operation k (.GET_ALL uid) l.fqans
    pure (result, { l with fqans })
  else pure (false, l)

/-- What the loop over the commands keeps; `command` is the last one. -/
structure Progress where
  lists : Lists
  order : Str
  command : Str
  deriving DecidableEq, Repr

/-- The loop over the commands, `k` of them done.
mirrors src/server/vomsd.cc:886-953 -/
def commandLoop (D : Database) (uid : Int) (setuporder : Bool) :
    Nat → List Str → Progress → Eval (Bool × Progress)
  | _, [], p => pure (true, p)
  | k, command :: rest, p => do
    let p := { p with command }
    match ← determineGroupAndRole command with
    | none => pure (false, p)
    | some c => do
      let (result, lists) ← runCommand D k uid c p.lists
      let p := { p with
        lists, order := if setuporder then addtoorder p.order c.group c.role else p.order }
      if result then commandLoop D uid setuporder (k + 1) rest p else pure (false, p)

/-! ## Interpreting the request -/

/-- The requested lifetime, shortened if need be.
mirrors src/server/vomsd.cc:846-855 -/
def shortenValidity (V : Server) (requested : Int) (vr : VomsResult) : Int × VomsResult :=
  if requested ≠ 0 then
    if requested = -1 then (V.validity, vr)
    else if V.validity < requested then
      (V.validity, vr.setError WARN_SHORT_VALIDITY
        (V.uri ++ ": The validity of this VOMS AC in your proxy is shortened to ".toList ++
          stringify V.validity ++ " seconds!".toList))
    else (requested, vr)
  else (requested, vr)

/-- `none` for a uid of -1. mirrors src/server/vomsd.cc:1429-1461 -/
def getUserid (V : Server) (D : Database) (vr : VomsResult) : Option Int × VomsResult :=
  let (found, uid) := D.getUser
  let uid := if uid = -1 then none else some uid
  if found then (uid, vr)
  else
    let message := D.errorMessage.getD "unknown".toList
    if D.error = ERR_USER_SUSPENDED then
      (uid, vr.setError ERR_SUSPENDED
        ("User is currently suspended!\nSuspension reason: ".toList ++ message))
    else if D.error ≠ ERR_NO_DB then
      (uid, vr.setError ERR_NOT_MEMBER (V.voname ++ ": User unknown to this VO.".toList))
    else
      (uid, vr.setError ERR_WITH_DB
        (V.voname ++ ": Problems in DB communication: ".toList ++ message))

/-- mirrors src/server/vomsd.cc:957-974 -/
def commandError (V : Server) (command : Str) (vr : VomsResult) : VomsResult :=
  vr.setError ERR_NOT_MEMBER
    (if command = "G/".toList ++ V.voname ∨ command = "/".toList ++ V.voname then
      V.voname ++ ": User unknown to this VO.".toList
    else V.voname ++ ": Unable to satisfy ".toList ++ command ++ " Request!".toList)

/-- A request whose commands were all executed. -/
structure Selection where
  comm : List Str
  targs : List Str
  requested : Int
  order : Str
  command : Str
  lists : Lists
  deriving DecidableEq, Repr

/-- The first half of `makeAC`. mirrors src/server/vomsd.cc:812-974 -/
def interpretRequest (V : Server) (D : Database) (vr : VomsResult) (message : Str) :
    Eval (Option Selection × VomsResult) :=
  match xmlReqDecode V.toWire message with
  | none =>
    pure (none, vr.setError ERR_NO_COMMAND ("Unable to intepret command: ".toList ++ message))
  | some r =>
    let vr := { vr with base64 := V.base64encoding || r.base64 }
    match r.command with
    | [] => .fault .outOfRange
    | first :: _ =>
      let (requested, vr) := shortenValidity V r.lifetime vr
      if D.getSession then
        match getUserid V D vr with
        | (none, vr) => pure (none, vr)
        | (some uid, vr) => do
          let (result, p) ← commandLoop D uid (r.order = []) 0 r.command ⟨⟨[], []⟩, r.order, first⟩
          pure (if result then
              (some ⟨r.command, parseTargets r.targets, requested, p.order, p.command, p.lists⟩, vr)
            else (none, commandError V p.command vr))
      else
        pure (none, vr.setError ERR_WITH_DB
          (V.voname ++ ": Problems in DB communication.".toList))

/-! ## Issuing the AC -/

/-- The duplicates go, and the FQANs of the ordering come to the front.
mirrors src/server/vomsd.cc:233-238, 981-992 -/
def orderFqans (V : Server) (ordering : Ordermap) (fqans : List Str) : List Str :=
  let fqans := (V.sorter.sort (fun a b => decide (a < b)) fqans).destutter (· ≠ ·)
  V.sorter.partialSort (compare ordering) (min ordering.length fqans.length) fqans

/-- mirrors src/server/vomsd.cc:985-988, src/server/attribute.cc:30-41 -/
def sortAttribs (V : Server) (attribs : List Gattrib) : List Gattrib :=
  (V.sorter.sort (fun a b => decide (a.str < b.str)) attribs).destutter (· ≠ ·)

/-- mirrors src/server/vomsd.cc:994-1001 -/
def warnFirst (firstfqan : Str) (fqans : List Str) (vr : VomsResult) : VomsResult :=
  match fqans with
  | [] => vr
  | i :: _ =>
    if firstfqan ≠ [] ∧ i ≠ firstfqan then
      vr.setError WARN_NO_FIRST_SELECT
        ("FQAN: ".toList ++ i ++ " is not the first selected!\n".toList)
    else vr

/-- The FQANs of this VO in the ACs of the proxy.
mirrors src/server/vomsd.cc:1010-1018 -/
def Server.existing (V : Server) : List Str :=
  (V.retrieved.filter (·.voname = V.voname)).flatMap (·.fqan)

/-- mirrors src/server/vomsd.cc:1030-1033 -/
def longFqan (fqan : Str) : Str :=
  if (strstr "/Role=".toList fqan).isSome then fqan ++ "/Capability=NULL".toList
  else fqan ++ "/Role=NULL/Capability=NULL".toList

/-- An FQAN of the database as this VO writes it. -/
def Server.form (V : Server) (fqan : Str) : Str := if V.shortfqans then fqan else longFqan fqan

/-- mirrors src/server/vomsd.cc:1424-1427 -/
def checkinside (g : Gattrib) (list : List Str) : Bool :=
  !g.qualifier.isEmpty && notIn g.qualifier list

/-- The FQANs that may be released, in the form they are written in.
mirrors src/server/vomsd.cc:1020-1049 -/
def restrict (V : Server) (fqans : List Str) : List Str :=
  let fqans := fqans.map V.form
  if V.existing = [] then fqans else fqans.filter fun fqan => !notIn fqan V.existing

/-- The AC is made, signed and encoded; `written` is set as `createac` is
called. mirrors src/server/vomsd.cc:1096-1144 -/
def writeAC (V : Server) (P : Party) (sel : Selection) (fqans : List Str) (attribs : List Gattrib)
    (vr : VomsResult) : Eval Outcome :=
  let dbError := fun vr : VomsResult => vr.setError ERR_NOT_MEMBER
    (": Unable to satisfy ".toList ++ sel.command ++ " request due to database error.".toList)
  match V.serial with
  | none => pure ⟨false, dbError vr, some sel.lists.fqans, none⟩
  | some serial =>
    match createac V.signer P.issuer V.ownStack P.holder P.key serial fqans sel.targs
        (attribs.map Gattrib.str) V.voname V.uri sel.requested (!V.newformat) none with
    | .fault f => .fault f
    | .err res =>
      pure ⟨false, dbError (vr.setError ERR_NOT_MEMBER (getError res)), some sel.lists.fqans,
        some fqans⟩
    | .ok a =>
      let codedac := V.i2dAc a
      if codedac = [] then pure ⟨false, dbError vr, some sel.lists.fqans, some fqans⟩
      else
        pure ⟨true, { vr with ac := codedac, data := [] }, some sel.lists.fqans, some fqans⟩

/-- The list of FQANs for the command `N`.
mirrors src/server/vomsd.cc:1146-1152 -/
def listData (fqans : List Str) : Str := fqans.flatMap fun fqan => cStr fqan ++ "\n".toList

/-- The second half of `makeAC`. mirrors src/server/vomsd.cc:976-1163 -/
def issueAC (V : Server) (P : Party) (sel : Selection) (vr : VomsResult) : Eval Outcome :=
  let (firstfqan, ordering) := parseOrder sel.order []
  let fqans := orderFqans V ordering sel.lists.fqans
  let attribs := sortAttribs V sel.lists.attribs
  let vr := warnFirst firstfqan fqans vr
  if fqans = [] then
    pure ⟨false, vr.setError ERR_NOT_MEMBER
      ("You are not a member of the ".toList ++ V.voname ++ " VO!".toList),
      some sel.lists.fqans, none⟩
  else
    let released := restrict V fqans
    let subset := released.length ≠ fqans.length
    let attribs := if subset then attribs.filter (!checkinside · released) else attribs
    let message := V.voname ++
      " : your certificate already contains attributes, only a subset of them can be issued.".toList
    if released = [] then
      pure ⟨false, vr.setError ERR_ATTR_EMPTY message, some sel.lists.fqans, none⟩
    else
      let vr := if subset then vr.setError WARN_ATTR_SUBSET message else vr
      match sel.comm with
      | [] => .fault .outOfRange
      | first :: _ =>
        if first = "N".toList then
          pure ⟨true, { vr with ac := [], data := listData released }, some sel.lists.fqans, none⟩
        else writeAC V P sel released attribs vr

/-- mirrors src/server/vomsd.cc:812-1164 -/
def makeAC (V : Server) (D : Database) (vr : VomsResult) (P : Party) (message : Str) :
    Eval Outcome := do
  match ← interpretRequest V D vr message with
  | (none, vr) => pure ⟨false, vr, none, none⟩
  | (some sel, vr) => issueAC V P sel vr

end Voms.L5
