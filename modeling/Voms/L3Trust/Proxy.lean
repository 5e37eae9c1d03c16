import Voms.L3Trust.Evaluate

/-!
# The verify callback for proxy certificates

`proxy_verify_callback` (`src/sslutils/sslutils.c`) is called by
`X509_verify_cert` once for every error it finds (`ok = 0`, the error in
`ctx->error`) and once for every certificate it has verified (`ok = 1`,
from the end of the chain to the leaf). It may overrule an error; on
`ok = 1` it adds the checks of its own: the proxy naming rule, the CRL, the
policies of `Evaluate`, critical extensions and the path length.

A check that fails goes to `fail_verify` with a code in `ctx->error`, here
`Res.err` of that code. The messages it logs are left out, as is
`EXFLAG_PROXY`, which nothing in this file reads.
-/
namespace Voms.L3

open Voms.Core Voms.L1

/-! ## Names of proxies -/

/-- `X509_NAME_cmp_no_set(a, b) == 0`: values and object types, entry by
entry. mirrors src/sslutils/sslutils.c:244-296 -/
def nameCmpNoSet (a b : X509Name) : Bool := a.entries == b.entries

/-- With a proxyCertInfo the name is not looked at, and neither is the policy
language of the extension that was decoded.
mirrors src/sslutils/sslutils.c:1594-1744 -/
def proxyCheckProxyName (cert : X509) : Eval Int :=
  if cert.exts.any (fun e => e.type = .proxyCertInfoV3 || e.type = .proxyCertInfoV4) then pure 1
  else do
    let lastCn ← Res.deref cert.subject.entries.getLast?
    if lastCn.object = NID_commonName then
      let issuerName (cn : String) : X509Name :=
        { cert.issuer with entries := cert.issuer.entries ++ [⟨NID_commonName, cn.toList⟩] }
      if lastCn.data = "proxy".toList then
        pure (if nameCmpNoSet (issuerName "proxy") cert.subject then 1 else -1)
      else if lastCn.data = "limited proxy".toList then
        pure (if nameCmpNoSet (issuerName "limited proxy") cert.subject then 2 else -1)
      else pure 0
    else pure 0

/-- mirrors src/sslutils/sslutils.c:3955-4001 -/
def checkCriticalExtensions (cert : X509) (itsaproxy : Bool) : Bool :=
  cert.exts.all fun ex => !ex.critical ||
    match ex.type with
    | .basicConstraints | .keyUsage | .extKeyUsage | .netscapeCertType => true
    | .subjectKeyIdentifier | .authorityKeyIdentifier => true
    | .proxyCertInfoV3 | .proxyCertInfoV4 => itsaproxy
    | .other _ => false

/-! ## OpenSSL -/

/-- The codes of `ctx->error` that the callback tells apart or sets. -/
inductive VerifyError where
  | ok
  | unableToGetIssuerCert
  | unableToDecodeIssuerPublicKey
  | certSignatureFailure
  | certNotYetValid
  | certHasExpired
  | selfSignedCertInChain
  | unableToGetIssuerCertLocally
  | unableToVerifyLeafSignature
  | crlSignatureFailure
  | errorInCrlNextUpdateField
  | crlHasExpired
  | certRevoked
  | invalidCa
  | pathLengthExceeded
  | invalidPurpose
  | certUntrusted
  | certRejected
  | unhandledCriticalExtension
  | proxyCertificatesNotAllowed
  | other (code : Nat)
  deriving DecidableEq, Repr

/-- `X509_check_issued`. -/
inductive IssuedResult where
  | ok | akidSkidMismatch | keyusageNoCertsign | other
  deriving DecidableEq, Repr

/-- A CRL as the callback reads it. -/
structure Crl where
  /-- `X509_CRL_verify(crl, key) > 0`. -/
  verify : Option EvpPKey → Bool
  /-- `X509_cmp_current_time(nextUpdate)`. -/
  nextUpdateCmp : Int
  revoked : List Asn1Integer

/-- What the callback calls. -/
structure Store where
  matcher : Matcher
  checkIssued : X509 → X509 → IssuedResult
  crlBySubject : X509Name → Option Crl
  /-- `read_pathrestriction`: namespaces and signing policies of a chain. -/
  readPathrestriction : List X509 → Option Str → List Policy × List Policy
  /-- `getenv("X509_CERT_DIR")`. -/
  envCertDir : Option Str
  /-- `ASN1_UTCTIME_mktime`. -/
  mktime : Asn1Time → Int

/-- The members of `X509_STORE_CTX` the callback reads; `currentIsCert` is
the comparison of the pointers `current_cert` and `cert`. -/
structure StoreCtx where
  error : VerifyError
  errorDepth : Nat
  cert : X509
  currentCert : X509
  currentIssuer : X509
  currentIsCert : Bool
  chain : List X509

/-- mirrors src/sslutils/sslutils.h (`proxy_verify_desc`,
`proxy_verify_ctx_desc`) -/
structure ProxyVerifyDesc where
  magicOk : Bool
  proxyDepth : Int
  certDepth : Int
  limitedProxy : Bool
  multipleLimitedProxyOk : Bool
  certdir : Option Str
  goodtill : Int
  deriving DecidableEq, Repr

/-- One call: the argument `ok` and the context. -/
structure Call where
  ok : Bool
  ctx : StoreCtx

/-! ## Errors that are overruled -/

/-- mirrors src/sslutils/sslutils.c:1763-1805 -/
def proxyCheckIssued (S : Store) (x issuer : X509) : Eval Bool :=
  match S.checkIssued issuer x with
  | .ok => pure true
  | .akidSkidMismatch | .keyusageNoCertsign => do
    let ret ← proxyCheckProxyName x
    pure (decide (1 ≤ ret))
  | .other => pure false

/-- The value of `ok` after the switch on `ctx->error`. A return of -1 is
as true as any other in the test for the leaf signature.
mirrors src/sslutils/sslutils.c:1894-1963 -/
def overrule (S : Store) (ctx : StoreCtx) : Eval Bool :=
  match ctx.error with
  | .pathLengthExceeded => pure true
  | .unableToVerifyLeafSignature => do
    let ret ← proxyCheckProxyName ctx.cert
    pure (decide (ret ≠ 0) && ctx.cert == ctx.currentCert)
  | .invalidCa | .unableToGetIssuerCert => do
    let ret ← proxyCheckProxyName ctx.cert
    if 1 ≤ ret then proxyCheckIssued S ctx.cert ctx.currentCert else pure false
  | .unhandledCriticalExtension => do
    let ret ← proxyCheckProxyName ctx.cert
    pure (decide (1 ≤ ret) && checkCriticalExtensions ctx.cert true)
  | .unableToGetIssuerCertLocally | .certUntrusted => do
    let ret ← proxyCheckProxyName ctx.currentCert
    pure (decide (0 < ret))
  | .proxyCertificatesNotAllowed => pure true
  | _ => pure false

/-! ## Checks on a certificate that OpenSSL verified -/

/-- A step of the second half. -/
abbrev Verify := Res VerifyError

/-- The callee cannot fail, so its caller's codes do not matter. -/
def lift {α : Type} (x : Eval α) : Verify α := x.mapErr Empty.elim

/-- mirrors src/sslutils/sslutils.c:2009-2052 -/
def checkProxy (ctx : StoreCtx) (pvd : ProxyVerifyDesc) : Verify (ProxyVerifyDesc × Bool) := do
  let ret ← lift (proxyCheckProxyName ctx.currentCert)
  Res.guard (0 ≤ ret) .certSignatureFailure
  if 0 < ret then do
    let pvd := if ret = 2 then { pvd with limitedProxy := true } else pvd
    Res.guard (¬ (ret = 2 ∧ ctx.errorDepth ≠ 0 ∧ pvd.multipleLimitedProxyOk = false))
      .certSignatureFailure
    pure ({ pvd with proxyDepth := pvd.proxyDepth + 1 }, true)
  else pure (pvd, false)

/-- mirrors src/sslutils/sslutils.c:2076-2147 -/
def checkCrl (S : Store) (ctx : StoreCtx) : Verify Unit :=
  match S.crlBySubject ctx.currentIssuer.subject with
  | none => pure ()
  | some crl => do
    Res.guard (crl.verify ctx.currentIssuer.key = true) .crlSignatureFailure
    Res.guard (crl.nextUpdateCmp ≠ 0) .errorInCrlNextUpdateField
    Res.guard (0 ≤ crl.nextUpdateCmp) .crlHasExpired
    Res.guard (ctx.currentCert.serialNumber ∉ crl.revoked) .certRevoked

/-- mirrors src/sslutils/sslutils.c:2150-2199 -/
def checkPolicies (S : Store) (ctx : StoreCtx) (pvd : ProxyVerifyDesc) : Verify Unit :=
  Res.when (isselfsigned ctx.currentCert = false) do
    let certDir := if pvd.certdir.isSome then pvd.certdir else S.envCertDir
    let (namespaces, signings) := S.readPathrestriction ctx.chain certDir
    let result ← lift (restrictionEvaluate S.matcher ctx.chain namespaces signings)
    Res.guard (result = .permit) .invalidPurpose

/-- The certificate at index `i` exceeds the path length. The sum is one of
`long`, taken to wrap around.
mirrors src/sslutils/sslutils.c:2245-2248 -/
def pathTooLong (proxyDepth : Int) (cert : X509) (i : Nat) : Bool :=
  1 < (i : Int) - proxyDepth && cert.exPathlen ≠ -1 &&
    (cert.exPathlen + 1).toInt < (i : Int) - proxyDepth && cert.exBcons

/-- mirrors src/sslutils/sslutils.c:2009-2262 -/
def checkCert (S : Store) (ctx : StoreCtx) (pvd : ProxyVerifyDesc) : Verify ProxyVerifyDesc := do
  let (pvd, itsaproxy) ← checkProxy ctx pvd
  Res.when (itsaproxy = false) do
    checkCrl S ctx
    checkPolicies S ctx pvd
  let goodtill := S.mktime ctx.currentCert.notAfter
  let pvd := if pvd.goodtill = 0 ∨ goodtill < pvd.goodtill then { pvd with goodtill } else pvd
  let pvd := { pvd with certDepth := pvd.certDepth + 1 }
  Res.guard (checkCriticalExtensions ctx.currentCert itsaproxy = true) .certRejected
  Res.when (ctx.currentIsCert = true)
    (Res.guard (ctx.chain.zipIdx.all (fun p => !pathTooLong pvd.proxyDepth p.1 p.2) = true)
      .pathLengthExceeded)
  pure pvd

/-! ## The callback -/

/-- A callback that succeeds leaves the descriptor for the next; `err` is
a return of 0, with the code left in `ctx->error`. Without a descriptor
(the client's side) the checks on `ok = 1` are skipped.
mirrors src/sslutils/sslutils.c:1834-2330 -/
def proxyVerifyCallback (S : Store) (pvd : Option ProxyVerifyDesc) (call : Call) :
    Verify (Option ProxyVerifyDesc) := do
  Res.guard (pvd.all (·.magicOk) = true) call.ctx.error
  if call.ok then
    match pvd with
    | none => pure none
    | some pvd => do
      let pvd ← checkCert S call.ctx pvd
      pure (some pvd)
  else do
    let ok ← lift (overrule S call.ctx)
    Res.guard (ok = true) call.ctx.error
    pure pvd

end Voms.L3
