import Voms.Core.Run
import Voms.L3Trust.Proxy
import Voms.L3Wire.Xml
import Voms.L4Api.VerifyData

/-!
# The calls of a `vomsdata` object

`src/api/ccapi/voms_api.cc` and `api_util.cc`: the `Retrieve` variants,
`Import`, `Contact` and what they call, as functions of the object.

The network is part of a call: `Network` lists what each attempt to contact
the server brings back. The text of the request is left out; whatever the
server makes of it is one of the replies. Copies of certificates are taken
to succeed.
-/
namespace Voms.L4

open Voms.Core Voms.L1 Voms.L2 Voms.L3

/-- What a decoder leaves of its input. -/
structure Remains (buffer : Str) where
  rest : Str
  shorter : rest.length < buffer.length

/-- The libraries under the client. -/
structure Client extends Files, Wire where
  /-- `d2i_AC` and `d2i_X509` at the start of a buffer. -/
  d2iAcAt : (buffer : Str) → Option (Ac × Remains buffer)
  d2iX509At : (buffer : Str) → Option (X509 × Remains buffer)
  /-- The extension `acseq` and what `X509V3_EXT_d2i` makes of it. -/
  acseq : X509 → Option (Option (List Ac))
  /-- The extensions `incfile` and `vo`. -/
  incfile : X509 → Option Str
  vo : X509 → Option Str

/-! ## ACs in a list, and one in a message -/

/-- The loop of `evaluate`. mirrors src/api/ccapi/api_util.cc:112-126 -/
def evaluateLoop (F : Files) (holder : Option X509) :
    Bool → List Ac → VomsData → Eval (Bool × VomsData)
  | ok, [], s => pure (ok, s)
  | _, ac :: acs, s => do
    match ← verifydata F ac holder s with
    | (some v, s) => evaluateLoop F holder true acs { s with data := s.data ++ [v] }
    | (none, s) => pure (false, s)

/-- mirrors src/api/ccapi/api_util.cc:102-132 -/
def evaluate (F : Files) (acs : Option (List Ac)) (holder : Option X509) (s : VomsData) :
    Eval (Bool × VomsData) :=
  let s := { s with error := .VERR_FORMAT }
  match acs with
  | some acs => evaluateLoop F holder false acs s
  | none => pure (false, s.seterror .VERR_FORMAT "AC not present in credentials.".toList)

/-- `verifydata` of the AC at the start of a message, and `push_back` where
the caller does it. Gives what is left of the message.
mirrors src/api/ccapi/api_util.cc:274-304 -/
def verifymessage (C : Client) (message : Str) (holder : Option X509) (s : VomsData) :
    Eval (Bool × Str × VomsData) := do
  if message = [] then pure (false, message, { s with error := .VERR_PARAM })
  else
    let s := { s with error := .VERR_FORMAT }
    match C.d2iAcAt message with
    | none => pure (false, message, s)
    | some (tmp, remains) => do
      match ← verifydata C.toFiles tmp holder s with
      | (some v, s) => pure (true, remains.rest, { s with data := s.data ++ [v] })
      | (none, s) => pure (false, remains.rest, s)

/-! ## `retrieve`: the ACs of a proxy -/

/-- mirrors src/api/ccapi/voms_api.h:141-147 -/
inductive RecurseType where
  | RECURSE_CHAIN
  | RECURSE_NONE
  | RECURSE_DEEP
  deriving DecidableEq, Repr

/-- The loop of `get_real_cert`. mirrors src/common/credentials.c:76-83 -/
def firstReal : List X509 → Eval (Option X509)
  | [] => pure none
  | cert :: stk => do
    let proxy ← proxyCheckProxyName cert
    if proxy = 0 then pure (some cert) else firstReal stk

/-- mirrors src/common/credentials.c:65-85 -/
def getRealCert (base : X509) (stk : List X509) : Eval (Option X509) := firstReal (base :: stk)

/-- What `retrieve` has found so far. -/
structure Found where
  found : Bool
  listnew : Option (List Ac)

/-- A later list replaces an earlier one.
mirrors src/api/ccapi/api_util.cc:146-173 -/
def findexts (C : Client) (cert : X509) (f : Found) (s : VomsData) : Found × VomsData :=
  let f : Found :=
    match C.acseq cert with
    | some listnew => ⟨true, listnew⟩
    | none => f
  let (f, s) :=
    match C.incfile cert with
    | some extraData => ({ f with found := true }, { s with extraData })
    | none => (f, s)
  let s :=
    match C.vo cert with
    | some workvo => { s with workvo }
    | none => s
  (f, s)

/-- The loop over the chain; the flag tells whether it was left early.
mirrors src/api/ccapi/api_util.cc:226-246 -/
def searchChain (C : Client) (how : RecurseType) :
    List X509 → Found → VomsData → Bool × Found × VomsData
  | [], f, s => (false, f, s)
  | cert :: chain, f, s =>
    let (f, s) := findexts C cert f s
    if f.found ∧ how ≠ .RECURSE_DEEP then (true, f, s) else searchChain C how chain f s

/-- Gives the list and the holder. mirrors src/api/ccapi/api_util.cc:175-252 -/
def retrieve (C : Client) (cert : Option X509) (chain : Option (List X509)) (how : RecurseType)
    (s : VomsData) : Eval (Option (Option (List Ac) × X509) × VomsData) :=
  match cert with
  | none => pure (none, s.seterror .VERR_PARAM "Parameters unset!".toList)
  | some cert =>
    if chain = none ∧ how ≠ .RECURSE_NONE then
      pure (none, s.seterror .VERR_PARAM "Parameters unset!".toList)
    else do
      match ← getRealCert cert (chain.getD []) with
      | none =>
        pure (none, s.seterror .VERR_IDCHECK
          "Cannot discover holder from certificate chain!".toList)
      | some holder =>
        if cStr holder.issuer.oneline = [] ∨ cStr holder.subject.oneline = [] then
          pure (none, s.seterror .VERR_IDCHECK
            "Cannot discover CA name or DN from user's certificate.".toList)
        else
          let (f, s) := findexts C cert ⟨false, none⟩ s
          if f.found ∧ how ≠ .RECURSE_DEEP then pure (some (f.listnew, holder), s)
          else
            let (early, f, s) :=
              if how ≠ .RECURSE_NONE then searchChain C how (chain.getD []) f s else (false, f, s)
            let s := if early then s else s.seterror .VERR_NOEXT "VOMS extension not found!".toList
            pure (if f.found then some (f.listnew, holder) else none, s)

/-! ## `Retrieve` -/

/-- mirrors src/api/ccapi/voms_api.cc:505-524 -/
def retrieveCert (C : Client) (cert : Option X509) (chain : Option (List X509))
    (how : RecurseType) (s : VomsData) : Eval (Bool × VomsData) := do
  match ← retrieve C cert chain how s with
  | (some (acs, holder), s) => evaluate C.toFiles acs (some holder) s
  | (none, s) => pure (false, s)

/-- `(verify_type)((int)ver_type & (~VERIFY_ID))`. -/
def withoutId (valids : VerifyType) : VerifyType := valids &&& ~~~VERIFY_ID

/-- Of an extension, by what `X509V3_EXT_d2i` makes of it.
mirrors src/api/ccapi/voms_api.cc:477-487 -/
def retrieveExt (F : Files) (acs : Option (List Ac)) (s : VomsData) : Eval (Bool × VomsData) := do
  let v := s.verType
  let (ret, s) ← evaluate F acs none { s with verType := withoutId s.verType }
  pure (ret, { s with verType := v })

/-- The policy that was saved is not put back.
mirrors src/api/ccapi/voms_api.cc:489-503 -/
def retrieveAc (F : Files) (ac : Option Ac) (s : VomsData) : Eval (Bool × VomsData) :=
  let s := { s with verType := withoutId s.verType }
  match ac with
  | none => pure (false, { s with error := .VERR_PARAM })
  | some ac => do
    match ← verifydata F ac none s with
    | (some v, s) => pure (true, { s with data := s.data ++ [v] })
    | (none, s) => pure (false, s)

/-! ## `Import` -/

/-- The loop of `Import`. Every turn consumes some of the buffer.
mirrors src/api/ccapi/voms_api.cc:544-573 -/
def importLoop (C : Client) : Nat → Str → VomsData → Eval (Bool × VomsData)
  | 0, _, _ => .fault .diverge
  | turns + 1, buffer, s =>
    match C.d2iX509At buffer with
    | none => pure (false, s.seterror .VERR_NOIDENT "Cannot discovere AC issuer.".toList)
    | some (holder, remains) => do
      match ← verifymessage C remains.rest (some holder) s with
      | (false, _, s) => pure (false, s)
      | (true, rest, s) => if rest = [] then pure (true, s) else importLoop C turns rest s

/-- mirrors src/api/ccapi/voms_api.cc:526-577 -/
def importBuffer (C : Client) (buffer : Str) (s : VomsData) : Eval (Bool × VomsData) := do
  let buffer ← decode C.toWire buffer
  if buffer = [] then pure (false, s.seterror .VERR_FORMAT "Malformed input data.".toList)
  else importLoop C (buffer.length + 1) buffer s

/-! ## `Contact` -/

/-- `contact`: what the server sent, or the error that was set.
mirrors src/api/ccapi/api_util.cc:757-834 -/
inductive Reply where
  | received (buf : Str)
  | failed (err : VError) (message : Str)
  deriving DecidableEq, Repr

/-- What the attempts of one `Contact` meet, and the caller's own certificate. -/
structure Network where
  rest : Nat → Reply
  legacy : Nat → Reply
  own : Option X509

/-- The loop over the errors of an answer.
mirrors src/api/ccapi/voms_api.cc:239-247 -/
def noteErrors : List Errorp → Bool → VomsData → Bool × VomsData
  | [], result, s => (result, s)
  | e :: errs, result, s =>
    let s := { s with serverrors := s.serverrors ++ e.message }
    let s :=
      if e.num = WARN_NO_FIRST_SELECT then
        s.seterror .VERR_ORDER
          "Cannot put requested attributes in the specified order.".toList
      else s
    noteErrors errs (result && !decide (ERROR_OFFSET < e.num)) s

/-- The errors count only next to an AC.
mirrors src/api/ccapi/voms_api.cc:236-252 -/
def noteAnswer (a : Answer) (s : VomsData) : Bool × VomsData :=
  if a.ac = [] then (true, s) else noteErrors a.errs true s

/-- `output` keeps its value when the answer has neither AC nor data.
mirrors src/api/ccapi/voms_api.cc:230-265 -/
def interpretOutput (X : Wire) (message output : Str) (s : VomsData) :
    Eval (Bool × Str × VomsData) := do
  match ← xmlAnsDecode X message with
  | none =>
    pure (false, output,
      s.seterror .VERR_FORMAT "Server Answer was incorrectly formatted.".toList)
  | some a =>
    let (result, s) := noteAnswer a s
    let output := if a.ac ≠ [] then a.ac else if a.data ≠ [] then a.data else output
    if ¬ result ∧ s.verType ≠ 0 then
      pure (false, output, s.seterror .VERR_SERVERCODE "The server returned an error.".toList)
    else pure (true, output, s)

/-- mirrors src/api/ccapi/voms_api.cc:317-346 -/
def contactRESTRaw (X : Wire) (reply : Reply) (raw : Str) (s : VomsData) :
    Eval (Bool × Str × VomsData) :=
  match reply with
  | .failed err message => pure (false, raw, s.seterror err message)
  | .received output =>
    match strstr "<?xml".toList output with
    | none => pure (false, raw, s)
    | some pos => do
      let (ret, raw, s) ← interpretOutput X (output.drop pos) raw s
      pure (ret && output.take 12 == "HTTP/1.1 200".toList, raw, s)

/-- mirrors src/api/ccapi/voms_api.cc:267-302 -/
def contactRaw (X : Wire) (net : Network) (i : Nat) (raw : Str) (s : VomsData) :
    Eval (Bool × Str × VomsData) := do
  match ← contactRESTRaw X (net.rest i) raw s with
  | (true, raw, s) => pure (true, raw, s)
  | (false, raw, s) =>
    match net.legacy i with
    | .failed err message => pure (false, raw, s.seterror err message)
    | .received buffer => interpretOutput X buffer raw s

/-- The loop of `Contact`, `turns` attempts before its end.
mirrors src/api/ccapi/voms_api.cc:364-392 -/
def contactLoop (C : Client) (net : Network) (attempts : Nat) :
    Nat → Str → VomsData → Eval (Bool × VomsData)
  | 0, _, s => pure (false, s)
  | turns + 1, message, s => do
    match ← contactRaw C.toWire net (attempts - (turns + 1)) message s with
    | (false, message, s) => contactLoop C net attempts turns message s
    | (true, message, s) =>
      match net.own with
      | none => pure (false, s.seterror .VERR_NOIDENT "Cannot discover own credentials.".toList)
      | some holder => do
        let (result, _, s) ← verifymessage C message (some holder) { s with error := .VERR_NONE }
        pure (result, s)

/-- mirrors src/api/ccapi/voms_api.cc:354-398 -/
def contact (C : Client) (net : Network) (s : VomsData) : Eval (Bool × VomsData) :=
  contactLoop C net s.retryCount.toNat s.retryCount.toNat [] s

/-! ## Histories -/

/-- A call on the object. -/
inductive Call where
  | setVerificationType (t : VerifyType)
  | retrieveCert (cert : Option X509) (chain : Option (List X509)) (how : RecurseType)
  | retrieveExt (acs : Option (List Ac))
  | retrieveAc (ac : Option Ac)
  | importBuffer (buffer : Str)
  | contact (net : Network)

/-- What the call returns and makes of the object. -/
def Call.run (C : Client) (s : VomsData) : Call → Eval (Bool × VomsData)
  | .setVerificationType t => pure (true, { s with verType := t })
  | .retrieveCert cert chain how => L4.retrieveCert C cert chain how s
  | .retrieveExt acs => L4.retrieveExt C.toFiles acs s
  | .retrieveAc ac => L4.retrieveAc C.toFiles ac s
  | .importBuffer buffer => L4.importBuffer C buffer s
  | .contact net => L4.contact C net s

/-- The call returns. -/
def callStep (C : Client) (s : VomsData) (c : Call) (s' : VomsData) : Prop :=
  ∃ ret, c.run C s = .ok (ret, s')

/-- The object after a sequence of calls. -/
def runCalls (C : Client) : List Call → VomsData → Eval VomsData
  | [], s => pure s
  | c :: l, s => do
    let (_, s) ← c.run C s
    runCalls C l s

theorem run_of_runCalls {C : Client} : ∀ {l : List Call} {s s' : VomsData},
    runCalls C l s = .ok s' → Run (callStep C) s l s'
  | [], s, s', h => by
    cases h
    exact .nil s
  | c :: l, s, s', h => by
    obtain ⟨⟨ret, t⟩, hc, h⟩ := Res.bind_eq_ok.mp h
    exact .cons ⟨ret, hc⟩ (run_of_runCalls h)

end Voms.L4
