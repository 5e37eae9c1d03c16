import Voms.Core.Str

/-!
# Distinguished names as text

`src/common/normalize.c`: the spellings of two attribute types are unified
before names are compared.
-/
namespace Voms.L1

open Voms.Core

/-- The `while (pos)` loop. The search for the next occurrence starts
behind the first `dst.length` bytes of the copy, wherever the last one was.
Each turn takes an occurrence of `src` out of the text, so there are fewer
turns than bytes. -/
def changeLoop (src dst : Str) : Nat → Str → Option Nat → Str
  | 0, copy, _ => copy
  | _ + 1, copy, none => copy
  | n + 1, copy, some pos =>
    let copy := copy.take pos ++ dst ++ copy.drop (pos + src.length)
    changeLoop src dst n copy ((strstr src (copy.drop dst.length)).map (· + dst.length))

/-- mirrors src/common/normalize.c:32-55 -/
def change (str src dst : Str) : Str := changeLoop src dst (str.length + 1) str (strstr src str)

/-- mirrors src/common/normalize.c:57-68 -/
def normalize (str : Str) : Str :=
  let tmp := change str "/USERID=".toList "/UID=".toList
  let tmp2 := change tmp "/emailAddress=".toList "/Email=".toList
  change tmp2 "/E=".toList "/Email=".toList

/-- mirrors src/api/ccapi/api_util.cc:86-100 -/
def dncompare (first second : Str) : Bool :=
  first == second || normalize first == normalize second

example : normalize "/O=x/E=a/emailAddress=b/USERID=c".toList = "/O=x/Email=a/Email=b/UID=c".toList := by
  decide

end Voms.L1
