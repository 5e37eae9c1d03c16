import Voms.L5Server.MakeAC

/-!
# What a client sends

A request comes as XML (`VOMSServer::Execute`) or as the URL of a GET
(`http_get`, `src/server/vomsd-rest.cc`). The URL is turned into the XML a
client would have sent, so both end in one call of `makeAC`.
-/
namespace Voms.L5

open Voms.Core Voms.L1 Voms.L2 Voms.L3

/-! ## Paths -/

/-- `hex2num(first)<<4 + hex2num(second)` shifts by the sum.
mirrors src/server/vomsd-rest.cc:260-292 -/
def canonicalizeString : Str → Str
  | '%' :: first :: second :: rest =>
    if isXdigit first && isXdigit second then
      Char.ofNat ((hex2num first <<< (4 + hex2num second)) % 256) :: canonicalizeString rest
    else '%' :: canonicalizeString (first :: second :: rest)
  | c :: rest => c :: canonicalizeString rest
  | [] => []

/-! ## Parameters -/

/-- mirrors src/server/vomsd-rest.cc:159-163 -/
structure RestParams where
  fqans : List Str
  lifetime : Int
  orderstring : Str
  targetstring : Str
  unknown : Bool
  deriving DecidableEq, Repr

def RestParams.new : RestParams := ⟨[], -1, [], [], false⟩

/-- mirrors src/server/vomsd-rest.cc:232-258 -/
def getParameter (path : Str) : Option (Str × Str) :=
  (strstr "=".toList path).map fun equal => (path.take equal, path.drop (equal + 1))

/-- mirrors src/server/vomsd-rest.cc:187-216 -/
def RestParams.set (q : RestParams) (cname cvalue : Str) : RestParams :=
  if cname = "lifetime".toList then { q with lifetime := atoi cvalue }
  else if cname = "fqans".toList then { q with fqans := q.fqans ++ cvalue.splitOn ',' }
  else if cname = "order".toList then
    { q with orderstring :=
        if q.orderstring = [] then cvalue else q.orderstring ++ ", ".toList ++ cvalue }
  else if cname = "targets".toList then { q with targetstring := cvalue }
  else { q with unknown := true }

/-- `none` when a part has no `=`. mirrors src/server/vomsd-rest.cc:165-217 -/
def parseParameters (s : Str) : Option RestParams :=
  if s = [] then none
  else (s.splitOn '&').foldlM (fun q path => (getParameter path).map fun (cname, cvalue) =>
    q.set cname cvalue) .new

/-- One turn of the loop over the parameters. -/
def RestParams.read (q : RestParams) (path : Str) : Option RestParams :=
  (getParameter path).map fun (cname, cvalue) => q.set cname cvalue

theorem parseParameters_eq {s : Str} (h : s ≠ []) :
    parseParameters s = (s.splitOn '&').foldlM RestParams.read .new := if_neg h

/-- `none` when the process ends. mirrors src/common/fqan.cc:49-79 -/
def fqanParse (fqan : Str) : Option Str :=
  if fqan = "all".toList ∨ fqan = "ALL".toList then some "A".toList
  else if (strstr "/Capability=".toList fqan).isSome then none
  else
    match strstr "/Role=".toList fqan with
    | some role_pos =>
      if 0 < role_pos then
        some ("B".toList ++ fqan.take role_pos ++ ":".toList ++ fqan.drop (role_pos + 6))
      else some ("R".toList ++ fqan.drop 6)
    | none => some (if fqan.head? = some '/' then "G".toList ++ fqan else fqan)

/-- mirrors src/common/fqan.cc:35-47 -/
def parseFqan (fqans : List Str) : Option Str := (fqans.mapM fqanParse).map (join ',')

/-! ## The handler -/

/-- What `http_get` comes to. -/
inductive RestCall where
  | status (code : Nat)
  | exit (code : Nat)
  | makeACREST (command orderstring targets : Str) (requested : Int) (unknown : Bool)
  deriving DecidableEq, Repr

/-- mirrors src/server/vomsd-rest.cc:133-230 -/
def httpGet (maingroup path : Str) : RestCall :=
  let path := cStr path
  let (path, s) :=
    match strstr "?".toList path with
    | none => (path, none)
    | some s => (path.take s, some (path.drop (s + 1)))
  if cStr (canonicalizeString path) ≠ "/generate-ac".toList then .status 404
  else
    match s.elim (some RestParams.new) parseParameters with
    | none => .status 404
    | some q =>
      match parseFqan (if q.fqans = [] then [maingroup] else q.fqans) with
      | none => .exit 1
      | some command => .makeACREST command q.orderstring q.targetstring q.lifetime q.unknown

/-! ## Both ways -/

/-- What the server reads from the socket. -/
inductive Arrival where
  | execute (message : Str)
  | get (path : Str)
  deriving DecidableEq, Repr

/-- The arguments of `makeAC`, if it is called.
mirrors src/server/vomsd.cc:1184-1185, src/server/vomsd-rest.cc:102-121 -/
def Server.arrival (V : Server) : Arrival → Option (VomsResult × Str)
  | .execute message => some (.start false, message)
  | .get path =>
    match httpGet ("/".toList ++ V.voname) path with
    | .makeACREST command orderstring targets requested unknown =>
      some (.start unknown, xmlReqEncode command orderstring targets requested)
    | _ => none

example : httpGet "/vo".toList "/generate-ac?fqans=/vo/Role=pilot&lifetime=60".toList =
    .makeACREST "B/vo:pilot".toList [] [] 60 false := by decide

end Voms.L5
