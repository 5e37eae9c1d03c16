import Voms.L2Ac.Validate
import Voms.L4Api.Lsc

/-!
# `verifydata`: from an attribute certificate to a record

`src/api/ccapi/api_util.cc` and `ccval.cc`. `check` selects the issuer of
an AC, by an LSC file against the certificates in the AC or else among the
certificates of the VO directory; `verifydata` runs it when a signature is
asked for and hands the issuer to `validate`.

A `vomsdata` object is the record `VomsData`; functions take it and give it
back. `used` is not a member of the class: it lists the policies under
which `verifydata` ran.
-/
namespace Voms.L4

open Voms.Core Voms.L1 Voms.L2

/-! ## The object -/

/-- mirrors src/api/ccapi/voms_api.h:166-191 -/
inductive VError where
  | VERR_NONE
  | VERR_NOSOCKET
  | VERR_NOIDENT
  | VERR_COMM
  | VERR_PARAM
  | VERR_NOEXT
  | VERR_NOINIT
  | VERR_TIME
  | VERR_IDCHECK
  | VERR_EXTRAINFO
  | VERR_FORMAT
  | VERR_NODATA
  | VERR_PARSE
  | VERR_DIR
  | VERR_SIGN
  | VERR_SERVER
  | VERR_MEM
  | VERR_VERIFY
  | VERR_TYPE
  | VERR_ORDER
  | VERR_SERVERCODE
  | VERR_NOTAVAIL
  | VERR_FILE
  deriving DecidableEq, Repr

/-- The members of `vomsdata` that retrieval and verification use. -/
structure VomsData where
  vomsCertDir : Str
  verType : VerifyType
  verificationtime : Int
  retryCount : Int
  error : VError
  errmessage : Str
  serverrors : Str
  workvo : Str
  extraData : Str
  data : List VomsRecord
  used : List VerifyType
  deriving DecidableEq, Repr

/-- A new object. mirrors src/api/ccapi/voms_api.cc:109-119 -/
def VomsData.new (vomsCertDir : Str) : VomsData :=
  ⟨vomsCertDir, VERIFY_FULL, 0, 1, .VERR_NONE, [], [], [], [], [], []⟩

/-- mirrors src/api/ccapi/voms_api.cc:98-102 -/
def VomsData.seterror (s : VomsData) (err : VError) (message : Str) : VomsData :=
  { s with error := err, errmessage := message }

/-- The file system, next to OpenSSL. -/
structure Files extends World where
  /-- `std::ifstream`; `none` when the file does not open. -/
  openFile : Str → Option Str
  /-- `opendir` and `readdir`. -/
  opendir : Str → Option (List Str)
  /-- `PEM_read_bio_X509` on the file. -/
  readPem : Str → Option X509

/-! ## Signature and chain -/

/-- mirrors src/api/ccapi/api_util.cc:359-378 -/
def checkSigAc (W : World) (cert : Option X509) (ac : Ac) (s : VomsData) : Bool × VomsData :=
  match cert with
  | none => (false, s)
  | some cert =>
    match cert.key with
    | none => (false, s)
    | some key =>
      let res := (W.acVerify ac (some key)).toInt
      (res = 1, if res = 0 then s.seterror .VERR_SIGN "Unable to verify AC signature".toList else s)

/-- Any result of `X509_verify_cert` but 0 counts as success.
mirrors src/api/ccapi/api_util.cc:708-755 -/
def checkCert (W : World) (stack : List X509) (s : VomsData) : Bool × VomsData :=
  let index := (W.x509VerifyCert stack).toInt
  (index ≠ 0, { s with error := .VERR_VERIFY })

/-! ## Selecting the issuer -/

def voError : Str := "Unable to extract vo name from AC.".toList

/-- VO and host name of an AC, from the policy authority `vo://host:port`.
The `std::string` is built from a `char *`, so it ends at a NUL. The name
is read as an IA5 string whatever it is.
mirrors src/api/ccapi/api_util.cc:385-437 -/
def voOfAc (ac : Ac) : Res Str (Str × Str) := do
  let info ← Res.deref ac.acinfo
  let caps ← Res.require voError ((info.attrib.getD []).find? (·.type == .idatcap))
  let capattr ← Res.require voError caps.ietfattr.head?
  let name ← Res.require voError capattr.names.head?
  let data ← name.ia5
  let voname := cStr data
  let cpos ← Res.require voError (strstr "://".toList voname)
  let cpos2 ← Res.require "Unable to determine hostname from AC.".toList
    ((strstr ":".toList (voname.drop (cpos + 1))).map (· + (cpos + 1)))
  pure (voname.take cpos, (voname.drop (cpos + 3)).take (cpos2 - cpos - 3))

/-- `X509v3_get_ext_by_NID(ac->acinfo->exts, certseq, -1)`. -/
def certseqExt (ac : Ac) : Option X509Ext :=
  extByNid ((ac.acinfo.bind (·.exts)).getD []) .certseq

/-- The end of `check_from_file`, for certificates that match the file. A
failed signature test leaves `cert` as it is, and it is returned.
mirrors src/api/ccapi/api_util.cc:664-688 -/
def judgeChain (W : World) (ac : Ac) (certstack : List X509) (voname : Str) (s : VomsData) :
    Option X509 × VomsData :=
  let cert := certstack.head?
  let (found, s) := checkSigAc W cert ac s
  if found then
    let (valid, s) := checkCert W certstack s
    if valid then (cert, s)
    else (none, s.seterror .VERR_SIGN "Unable to verify certificate chain.".toList)
  else
    (cert, s.seterror .VERR_SIGN ("Cannot find certificate of AC issuer for vo ".toList ++ voname))

/-- mirrors src/api/ccapi/api_util.cc:600-688 -/
def checkFromFile (F : Files) (ac : Ac) (file : Str) (voname filename : Str) (s : VomsData) :
    Eval (Option X509 × VomsData) := do
  let ext ← Res.deref (certseqExt ac)
  let certstack ← Res.deref ext.d2iCerts
  let success ← matchFile certstack (fileLines file)
  pure (if success then judgeChain F.toWorld ac certstack voname s
    else (none, s.seterror .VERR_SIGN
      ("Unable to match certificate chain against file: ".toList ++ filename)))

/-- The loop over the entries of a directory.
mirrors src/api/ccapi/api_util.cc:476-503 -/
def scanDirectory (F : Files) (ac : Ac) (directory : Str) :
    List Str → VomsData → Option X509 × VomsData
  | [], s => (none, s)
  | name :: rest, s =>
    match F.readPem (directory ++ "/".toList ++ name) with
    | none => scanDirectory F ac directory rest s
    | some x =>
      let (found, s) := checkSigAc F.toWorld (some x) ac s
      if found then (some x, s) else scanDirectory F ac directory rest s

/-- The loop over the two directories.
mirrors src/api/ccapi/api_util.cc:462-507 -/
def scanDirectories (F : Files) (ac : Ac) : List Str → VomsData → Option X509 × VomsData
  | [], s => (none, s)
  | directory :: rest, s =>
    match F.opendir directory with
    | none => scanDirectories F ac rest s
    | some names =>
      match scanDirectory F ac directory names s with
      | (some x, s) => (some x, s)
      | (none, s) => scanDirectories F ac rest s

/-- mirrors src/api/ccapi/api_util.cc:463 -/
def vomsDirectories (s : VomsData) (voname : Str) : List Str :=
  [s.vomsCertDir ++ "/".toList ++ voname, s.vomsCertDir]

/-- mirrors src/api/ccapi/api_util.cc:456-522 -/
def checkFromCerts (F : Files) (ac : Ac) (voname : Str) (s : VomsData) :
    Option X509 × VomsData :=
  match scanDirectories F ac (vomsDirectories s voname) s with
  | (some x, s) =>
    let (valid, s) := checkCert F.toWorld [x] s
    (if valid then some x else none, s)
  | (none, s) =>
    (none, s.seterror .VERR_SIGN
      ("Cannot find certificate of AC issuer for vo ".toList ++ voname))

/-- The LSC file of a VO and host, if the AC has certificates to match it.
mirrors src/api/ccapi/api_util.cc:439-449 -/
def lscFile (F : Files) (s : VomsData) (ac : Ac) (voname hostname : Str) : Option (Str × Str) :=
  let filecerts := s.vomsCertDir ++ "/".toList ++ voname ++ "/".toList ++ hostname ++ ".lsc".toList
  if (certseqExt ac).isSome then (F.openFile filecerts).map (·, filecerts) else none

/-- mirrors src/api/ccapi/api_util.cc:380-454 -/
def check (F : Files) (ac : Ac) (s : VomsData) : Eval (Option X509 × VomsData) :=
  let s := { s with error := .VERR_DIR }
  match voOfAc ac with
  | .fault f => .fault f
  | .err message => pure (none, s.seterror .VERR_DIR message)
  | .ok (voname, hostname) =>
    match lscFile F s ac voname hostname with
    | some (file, filecerts) => checkFromFile F ac file voname filecerts s
    | none => pure (checkFromCerts F ac voname s)

/-! ## Verification -/

/-- mirrors src/api/ccapi/ccval.cc:45-70 -/
def verifyac (F : Files) (cert issuer : Option X509) (ac : Ac) (s : VomsData) :
    Eval (Option VomsRecord × VomsData) :=
  match validate F.toWorld cert issuer ac VomsRecord.new s.verType s.verificationtime with
  | .ok v => pure (some v, s)
  | .err e => pure (none, s.seterror .VERR_VERIFY (getError e))
  | .fault f => .fault f

/-- mirrors src/api/ccapi/api_util.cc:254-272 -/
def verifyID (cert : X509) (server serverca : Str) : Bool :=
  cStr cert.subject.oneline == cStr server && cStr cert.issuer.oneline == cStr serverca

/-- The last part of `verifydata`: the comparison of the issuer with the
record that was filled from it. mirrors src/api/ccapi/api_util.cc:337-357 -/
def finishRecord (F : Files) (ac : Ac) (holder issuer : Option X509) (v : VomsRecord)
    (s : VomsData) : Eval (Option VomsRecord × VomsData) := do
  let v := { v with ac := F.acDup ac }
  if has s.verType VERIFY_ID then
    let iss ← Res.deref issuer
    if verifyID iss v.server v.serverca then pure (some { v with holder }, s)
    else
      pure (none, s.seterror .VERR_SERVER "Mismatch between AC signer and AC issuer".toList)
  else pure (some { v with holder }, s)

/-- `verifydata` once the issuer is known. -/
def verifyWith (F : Files) (ac : Ac) (holder issuer : Option X509) (s : VomsData) :
    Eval (Option VomsRecord × VomsData) := do
  match ← verifyac F holder issuer ac s with
  | (none, s) => pure (none, s)
  | (some v, s) => finishRecord F ac holder issuer v s

/-- The branch under `VERIFY_SIGN`. mirrors src/api/ccapi/api_util.cc:318-327 -/
def verifySigned (F : Files) (ac : Ac) (holder : Option X509) (s : VomsData) :
    Eval (Option VomsRecord × VomsData) := do
  match ← check F ac s with
  | (none, s) => pure (none, s.seterror .VERR_SIGN "Cannot verify AC signature!".toList)
  | (some issuer, s) => verifyWith F ac holder (some issuer) s

/-- mirrors src/api/ccapi/api_util.cc:306-357 -/
def verifydata (F : Files) (ac : Ac) (holder : Option X509) (s : VomsData) :
    Eval (Option VomsRecord × VomsData) :=
  let s := { s with used := s.used ++ [s.verType] }
  if holder = none ∧ has s.verType VERIFY_ID then pure (none, { s with error := .VERR_NOIDENT })
  else
    let s := { s with error := .VERR_FORMAT }
    if has s.verType VERIFY_SIGN then verifySigned F ac holder s
    else verifyWith F ac holder none s

/-! ## The record -/

/-- `AC_dup(NULL)` is NULL. mirrors src/api/ccapi/voms_api.cc:906-909 -/
def getAC (W : World) (v : VomsRecord) : Option Ac := v.ac.bind W.acDup

/-- The loop over the targets. mirrors src/api/ccapi/voms_api.cc:966-972 -/
def targetNames : List AcTarget → Eval (List Str)
  | [] => pure []
  | target :: rest => do
    let name ← Res.deref target.name
    let targets ← targetNames rest
    match name with
    | .uri d => pure (d :: targets)
    | _ => pure targets

/-- mirrors src/api/ccapi/voms_api.cc:951-980 -/
def getTargets (W : World) (v : VomsRecord) : Eval (List Str) := do
  let ac ← Res.deref (getAC W v)
  let info ← Res.deref ac.acinfo
  match (extByNid (info.exts.getD []) .idceTargets).bind (·.d2iTargets) with
  | some targets => targetNames targets
  | none => pure []

end Voms.L4
