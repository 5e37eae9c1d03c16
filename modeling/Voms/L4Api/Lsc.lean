import Voms.Core.Res
import Voms.L1Asn1.Dn
import Voms.L1Asn1.Types

/-!
# LSC files

`readdn` and the matching loop of `check_from_file`
(`src/api/ccapi/api_util.cc`). An LSC file lists, for each chain that may
sign the ACs of a server, the subject and issuer of every certificate;
chains are separated by a marker line.

The stream is the list of lines `getline` has still to deliver. A line that
does not fit the buffer sets `failbit` and ends the stream, as does the end
of the file.
-/
namespace Voms.L4

open Voms.Core Voms.L1

/-! ## Lines -/

/-- What successive `getline` calls deliver; nothing follows a final newline. -/
def fileLines (content : Str) : List Str :=
  let lines := content.splitOn '\n'
  if lines.getLast? = some [] then lines.dropLast else lines

/-- `while (len && isspace(buffer[len-1])) len--;` -/
def trimRight (s : Str) : Str := (s.reverse.dropWhile isSpace).reverse

/-- The scan for the closing quote from index `start` on: the index behind
it. A backslash sets `mode` to 2 for good, after which no quote closes; the
terminating NUL is not stepped over, so without a closing quote the loop
never ends.
mirrors src/api/ccapi/api_util.cc:562-589 -/
def closeQuote : Bool → Str → Nat → Option Nat
  | _, [], _ => none
  | mode2, c :: rest, start =>
    if c = '\\' then closeQuote true rest (start + 1)
    else if c = '"' then
      if mode2 then closeQuote mode2 rest (start + 1) else some (start + 1)
    else closeQuote mode2 rest (start + 1)

/-- The body of the loop of `readdn` on one line. `memmove` does not move the
terminating NUL, so behind the moved text the tail of the line is still
there for the scan to find; `len` cuts it off afterwards. An empty result
makes `readdn` read on.
mirrors src/api/ccapi/api_util.cc:538-597 -/
def lineDn (line : Str) : Eval Str :=
  let start := (line.takeWhile isSpace).length
  match line.drop start with
  | [] => pure []
  | '"' :: moved =>
    let len := moved.length
    let buffer := moved ++ line.drop len
    match closeQuote false buffer 0 with
    | none => .fault .diverge
    | some start => pure (trimRight ((buffer.set (start - 1) ' ').take len))
  | moved => pure (trimRight moved)

/-- `readdn` into a buffer of 999 bytes; `none` when the stream fails.
mirrors src/api/ccapi/api_util.cc:526-601 -/
def readdn : List Str → Eval (Option (Str × List Str))
  | [] => pure none
  | line :: file =>
    if line.length < 998 then do
      let dn ← lineDn (cStr line)
      if dn = [] then readdn file else pure (some (dn, file))
    else pure none

/-! ## Chains -/

/-- To behind the next marker; `none` when the stream ends before one.
mirrors src/api/ccapi/api_util.cc:645-648 -/
def nextChain : List Str → Option (List Str)
  | [] => none
  | line :: file =>
    if line.length < 999 then
      if cStr line = "------ NEXT CHAIN ------".toList then some file else nextChain file
    else none

/-- How the loop over the certificates ends: every certificate matched, the
stream failed, or a name differed and the file goes on with another chain. -/
inductive ChainMatch where
  | success
  | failed
  | next (file : List Str)
  deriving DecidableEq, Repr

/-- mirrors src/api/ccapi/api_util.cc:622-654 -/
def matchChain : List X509 → List Str → Eval ChainMatch
  | [], _ => pure .success
  | current :: certs, file => do
    match ← readdn file with
    | none => pure .failed
    | some (subjcandidate, file) =>
      match ← readdn file with
      | none => pure .failed
      | some (issuercandidate, file) =>
        if dncompare current.subject.oneline subjcandidate &&
            dncompare current.issuer.oneline issuercandidate then
          matchChain certs file
        else
          match nextChain file with
          | none => pure .failed
          | some file => pure (.next file)

/-- The outer loop: one turn for each chain of the file. Every turn but the
last consumes a marker line (`matchChain_shorter`), so there are at most as
many turns as lines.
mirrors src/api/ccapi/api_util.cc:619-659 -/
def matchFileLoop (certstack : List X509) : Nat → List Str → Eval Bool
  | 0, _ => .fault .diverge
  | turns + 1, file => do
    match ← matchChain certstack file with
    | .success => pure true
    | .failed => pure false
    | .next file => matchFileLoop certstack turns file

def matchFile (certstack : List X509) (file : List Str) : Eval Bool :=
  matchFileLoop certstack (file.length + 1) file

/-! ## Every turn consumes a line -/

theorem readdn_shorter : ∀ {file file' : List Str} {dn : Str},
    readdn file = .ok (some (dn, file')) → file'.length < file.length
  | [], _, _, h => by cases h
  | line :: file, file', dn, h => by
    unfold readdn at h
    split at h
    · obtain ⟨text, -, h⟩ := Res.bind_eq_ok.mp h
      split at h
      · have := readdn_shorter h
        simp only [List.length_cons]
        omega
      · cases h
        simp
    · cases h

theorem nextChain_shorter : ∀ {file file' : List Str},
    nextChain file = some file' → file'.length < file.length
  | [], _, h => by cases h
  | line :: file, file', h => by
    unfold nextChain at h
    split at h
    · split at h
      · cases h
        simp
      · have := nextChain_shorter h
        simp only [List.length_cons]
        omega
    · cases h

theorem matchChain_shorter : ∀ {certs : List X509} {file file' : List Str},
    matchChain certs file = .ok (.next file') → file'.length < file.length
  | [], _, _, h => by cases h
  | current :: certs, file, file', h => by
    unfold matchChain at h
    obtain ⟨r1, h1, h⟩ := Res.bind_eq_ok.mp h
    cases r1 with
    | none => cases h
    | some p1 =>
      obtain ⟨r2, h2, h⟩ := Res.bind_eq_ok.mp h
      have hlen1 := readdn_shorter h1
      cases r2 with
      | none => cases h
      | some p2 =>
        have hlen2 := readdn_shorter h2
        simp only at h
        split at h
        · have := matchChain_shorter h
          omega
        · split at h
          · cases h
          · next f hf =>
            cases h
            have := nextChain_shorter hf
            omega

/-- The bound on the number of turns is never reached. -/
theorem matchFileLoop_turns (certstack : List X509) : ∀ {n m : Nat} {file : List Str},
    file.length < n → file.length < m →
      matchFileLoop certstack n file = matchFileLoop certstack m file
  | 0, _, _, hn, _ => absurd hn (Nat.not_lt_zero _)
  | _, 0, _, _, hm => absurd hm (Nat.not_lt_zero _)
  | n + 1, m + 1, file, hn, hm => by
    unfold matchFileLoop
    cases h : matchChain certstack file with
    | err e => rfl
    | fault f => rfl
    | ok r =>
      cases r with
      | success => rfl
      | failed => rfl
      | next file' =>
        have := matchChain_shorter h
        exact matchFileLoop_turns certstack (by omega) (by omega)

end Voms.L4
