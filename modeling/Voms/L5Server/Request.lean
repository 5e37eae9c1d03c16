import Voms.Core.Res
import Voms.Core.Str

/-!
# The texts of a request

`src/server/vomsd.cc`: how the server takes a command apart, and the lists
separated by commas that give the order and the targets.

`determine_group_and_role` works on `char *`. A half of a pair that is not
there is a NULL pointer, and the function compares it, or moves it, before
it looks: these are the faults of `determineGroupAndRole`.
-/
namespace Voms.L5

open Voms.Core

/-! ## Characters -/

/-- mirrors src/common/data.cc:69-87 -/
def filter (c : Char) : Bool :=
  c.isDigit || c.isUpper || c.isLower || c = '_' || c = '/' || c = '-' || c = '.'

/-- NULL always passes. mirrors src/common/data.cc:104-115 -/
def acceptable (str : Option Str) : Bool := str.all (·.all filter)

/-! ## Commands -/

/-- What a command asks for. -/
structure Command where
  comm : Char
  group : Option Str
  role : Option Str
  deriving DecidableEq, Repr

/-- The text behind the first character of a command, as `strdup` copies it. -/
def commandText (command : Str) : Str := cStr (command.drop 1)

/-- The old syntax. For `B`, `(*role) = '\\0'` stores NULL into `role`
instead of a NUL into the text, and `(*role)++` advances it.
mirrors src/server/vomsd.cc:1345-1366 -/
def oldSyntax (comm : Char) (string : Str) : Eval Command :=
  if comm = 'R' then pure ⟨comm, some string, some string⟩
  else if comm = 'B' ∧ ':' ∈ string then .fault .nullDeref
  else pure ⟨comm, some string, none⟩

/-- Group and role of the syntax of FQANs.
mirrors src/server/vomsd.cc:1367-1401 -/
def fqanParts (string : Str) : Command :=
  match strstr "/Role=".toList string with
  | some divider =>
    if divider = 0 then ⟨'R', none, some (string.drop 6)⟩
    else ⟨'B', some (string.take divider), some (string.drop (divider + 6))⟩
  | none =>
    match strstr ":".toList string with
    | some divider2 =>
      if divider2 = 0 then ⟨'R', none, some (string.drop 1)⟩
      else ⟨'B', some (string.take divider2), some (string.drop (divider2 + 1))⟩
    | none => ⟨'G', some string, none⟩

/-- The two comparisons that follow. The first one compares a group that may
be NULL, the second one a group that the first may have set to NULL.
mirrors src/server/vomsd.cc:1402-1411 -/
def fqanSyntax (string : Str) : Eval Command :=
  let parts := fqanParts string
  match parts.group with
  | none => .fault .nullDeref
  | some group =>
    if group = "/".toList then .fault .nullDeref
    else if group = "//".toList then pure ⟨'N', none, none⟩
    else pure parts

/-- mirrors src/server/vomsd.cc:1329-1421 -/
def determineGroupAndRole (command : Str) : Eval (Option Command) :=
  match command with
  | [] => pure none
  | comm :: _ =>
    let string := commandText command
    if string = "all".toList then pure (some ⟨'A', none, none⟩)
    else do
      let c ← if string.head? = some '/' then fqanSyntax string else oldSyntax comm string
      pure (if acceptable c.group && acceptable c.role then some c else none)

/-- mirrors src/server/vomsd.cc:1463-1476 -/
def addtoorder (previous : Str) (group role : Option Str) : Str :=
  if group = none ∧ role = none then previous
  else
    (if previous = [] then [] else previous ++ ",".toList) ++
      (group.getD [] ++ (role.map ("/Role=".toList ++ ·)).getD [])

/-! ## Lists -/

/-- mirrors src/server/vomsd.cc:287-309 -/
def parseTargets (message : Str) : List Str := message.splitOn ','

/-- `ordermap`: each FQAN with its rank. -/
abbrev Ordermap := List (Str × Nat)

def Ordermap.find (ordering : Ordermap) (fqan : Str) : Option Nat :=
  (List.find? (·.1 == fqan) ordering).map (·.2)

/-- `insert` leaves an entry that exists alone. -/
def Ordermap.insert (ordering : Ordermap) (fqan : Str) (order : Nat) : Ordermap :=
  if (ordering.find fqan).isSome then ordering else ordering ++ [(fqan, order)]

/-- mirrors src/server/vomsd.cc:264-271 -/
def orderFqan (attrib : Str) : Str :=
  match strstr ":".toList attrib with
  | none => attrib
  | some divider => attrib.take divider ++ "/Role=".toList ++ attrib.drop (divider + 1)

/-- The loop of `parse_order`. -/
def parseOrderLoop : List Str → Nat → Ordermap → Ordermap
  | [], _, ordering => ordering
  | fqan :: fqans, order, ordering =>
    parseOrderLoop fqans (order + 1) (ordering.insert fqan order)

/-- The first FQAN that is not empty, and the ordering.
mirrors src/server/vomsd.cc:240-285 -/
def parseOrder (message : Str) (ordering : Ordermap) : Str × Ordermap :=
  let fqans := (message.splitOn ',').map orderFqan
  ((fqans.find? (· ≠ [])).getD [], parseOrderLoop fqans 0 ordering)

/-- mirrors src/server/vomsd.cc:215-231 -/
def compare (ordering : Ordermap) (lhs rhs : Str) : Bool :=
  match ordering.find lhs, ordering.find rhs with
  | none, _ => false
  | some _, none => true
  | some l, some r => l < r

/-- mirrors src/server/vomsd.cc:311-314 -/
def notIn (fqan : Str) (fqans : List Str) : Bool := !fqans.contains fqan

end Voms.L5
