import Voms.Core.Res
import Voms.Core.Str

/-!
# OpenSSL values and the attribute certificate in memory

The structures of `src/include/newformat.h` as the C code holds them: a
pointer the code can find NULL is an `Option`. The OpenSSL types are cut
down to what the modelled functions read of them.

A `STACK_OF(T)` is a list. `sk_num` of a NULL stack is -1 and `sk_value`
of it is NULL, so a test `sk_num(x) == n` (n ≥ 0) or `sk_value(x, 0)`
cannot tell a NULL stack from an empty one.
-/
namespace Voms.L1

open Voms.Core

/-! ## Strings, integers, names -/

/-- `ASN1_INTEGER`: the sign lives in `type`, the magnitude in `data`. -/
structure Asn1Integer where
  neg : Bool
  data : List UInt8
  deriving DecidableEq, Repr

/-- `ASN1_BIT_STRING`, by the bytes `ASN1_STRING_cmp` compares. -/
structure BitString where
  data : Str
  deriving DecidableEq, Repr

/-- `V_ASN1_UTCTIME`, `V_ASN1_GENERALIZEDTIME` or any other string type. -/
inductive TimeType where
  | utc | generalized | other
  deriving DecidableEq, Repr

/-- `ASN1_TIME`, `ASN1_UTCTIME` and `ASN1_GENERALIZEDTIME`: one type. -/
structure Asn1Time where
  type : TimeType
  data : Str
  deriving DecidableEq, Repr

/-- One component of a name: the NID of its object and its text. -/
structure NameEntry where
  object : Nat
  data : Str
  deriving DecidableEq, Repr

def NID_commonName : Nat := 13

/-- `X509_NAME`. `X509_NAME_cmp` compares the cached canonical encoding
`canonEnc`; `oneline` is the text `X509_NAME_oneline` prints. -/
structure X509Name where
  entries : List NameEntry
  canonEnc : List UInt8
  oneline : Str
  deriving DecidableEq, Repr

/-- `X509_NAME_cmp(a, b) == 0`. -/
def X509Name.same (a b : X509Name) : Bool := a.canonEnc == b.canonEnc

/-- `X509_ALGOR` (the algorithm, by number). -/
structure X509Algor where
  algorithm : Nat
  deriving DecidableEq, Repr

/-- `EVP_PKEY` (which key it is). -/
structure EvpPKey where
  id : Nat
  deriving DecidableEq, Repr

/-! ## GENERAL_NAME -/

/-- A choice: the tag `type` and the union `d` together. -/
inductive GeneralName where
  | otherName (d : Str)
  | email (d : Str)
  | dns (d : Str)
  | x400 (d : Str)
  | dirName (d : X509Name)
  | ediParty (d : Str)
  | uri (d : Str)
  | ipAdd (d : Str)
  | rid (d : Str)
  deriving DecidableEq, Repr

namespace GeneralName

def isDirName : GeneralName → Bool
  | .dirName _ => true
  | _ => false

def isUri : GeneralName → Bool
  | .uri _ => true
  | _ => false

/-- `name->d.dirn`. -/
def dirn {ε : Type} : GeneralName → Res ε X509Name
  | .dirName n => .ok n
  | _ => .fault .badChoice

/-- `name->d.ia5`, the member rfc822Name, dNSName and
uniformResourceIdentifier share. -/
def ia5 {ε : Type} : GeneralName → Res ε Str
  | .email d => .ok d
  | .dns d => .ok d
  | .uri d => .ok d
  | _ => .fault .badChoice

def isIa5 : GeneralName → Bool
  | .email _ => true
  | .dns _ => true
  | .uri _ => true
  | _ => false

theorem isDirName_iff {g : GeneralName} : g.isDirName = true ↔ ∃ n, g = .dirName n := by
  cases g <;> simp [isDirName]

theorem never_dirn {p : Fault → Prop} (hp : p .badChoice) {ε : Type} {g : GeneralName} :
    Res.Never p (g.dirn : Res ε X509Name) ↔ g.isDirName = true := by
  cases g <;> simp [dirn, isDirName, hp]

theorem never_ia5 {p : Fault → Prop} (hp : p .badChoice) {ε : Type} {g : GeneralName} :
    Res.Never p (g.ia5 : Res ε Str) ↔ g.isIa5 = true := by
  cases g <;> simp [ia5, isIa5, hp]

end GeneralName

/-! ## Public-key certificates -/

/-- Extension types of a certificate that the verify callback tells apart. -/
inductive CertExtType where
  | basicConstraints
  | keyUsage
  | extKeyUsage
  | netscapeCertType
  | subjectKeyIdentifier
  | authorityKeyIdentifier
  | proxyCertInfoV3
  | proxyCertInfoV4
  | other (oid : Nat)
  deriving DecidableEq, Repr

/-- The policy languages of src/include/myproxycertinfo.h:45-47. -/
inductive PolicyLanguage where
  | limited
  | other (oid : Nat)
  deriving DecidableEq, Repr

/-- `policyLanguage` is that of the `myPROXYCERTINFO` that `X509V3_EXT_d2i`
makes of the extension, if it is one and decodes. -/
structure CertExt where
  type : CertExtType
  critical : Bool
  policyLanguage : Option PolicyLanguage
  deriving DecidableEq, Repr

/-- `X509`: `serialNumber`, `issuerUID`, `signature`, `publicKey` and
`exts` are members of `cert_info`; `key` is what `X509_extract_key` gives,
NULL when the key cannot be decoded. `exPathlen`, a `long` (-1: no limit),
and `exBcons` (`EXFLAG_BCONS`) are OpenSSL's cached basic constraints. -/
structure X509 where
  subject : X509Name
  issuer : X509Name
  serialNumber : Asn1Integer
  issuerUID : Option BitString
  signature : X509Algor
  sigAlg : X509Algor
  publicKey : List UInt8
  key : Option EvpPKey
  notAfter : Asn1Time
  exts : List CertExt
  exPathlen : Int64
  exBcons : Bool
  deriving DecidableEq, Repr

/-! ## The attribute certificate -/

/-- mirrors src/include/newformat.h:54-58 -/
structure AcIs where
  issuer : Option (List GeneralName)
  serial : Option Asn1Integer
  uid : Option BitString
  deriving DecidableEq, Repr

/-- `AC_DIGEST_new` leaves `oid` NULL.
mirrors src/include/newformat.h:47-52 -/
structure AcDigest where
  type : Asn1Integer
  oid : Option Nat
  algor : X509Algor
  digest : BitString
  deriving DecidableEq, Repr

/-- mirrors src/include/newformat.h:60-64 -/
structure AcForm where
  names : Option (List GeneralName)
  is : Option AcIs
  digest : Option AcDigest
  deriving DecidableEq, Repr

/-- `name` is declared `STACK_OF(GENERAL_NAMES)`, a stack of stacks.
mirrors src/include/newformat.h:71-75 -/
structure AcHolder where
  baseid : Option AcIs
  name : Option (List (List GeneralName))
  digest : Option AcDigest
  deriving DecidableEq, Repr

/-- mirrors src/include/newformat.h:77-80 -/
structure AcVal where
  notBefore : Option Asn1Time
  notAfter : Option Asn1Time
  deriving DecidableEq, Repr

/-- `AC_IETFATTRVAL`: `d2i_AC_IETFATTRVAL` stores an octet string, an
object identifier or a UTF-8 string behind the same pointer type.
mirrors src/ac/newformat.c:164-176 -/
inductive AcIetfAttrVal where
  | octets (d : Str)
  | object (d : Str)
  | utf8 (d : Str)
  deriving DecidableEq, Repr

/-- mirrors src/include/newformat.h:84-87 -/
structure AcIetfAttr where
  names : List GeneralName
  values : List AcIetfAttrVal
  deriving DecidableEq, Repr

/-- The object identifier of an `AC_ATTR`. -/
inductive AttrType where
  | idatcap
  | other (oid : Nat)
  deriving DecidableEq, Repr

/-- mirrors src/include/newformat.h:99-104 -/
structure AcAttr where
  type : AttrType
  ietfattr : List AcIetfAttr
  deriving DecidableEq, Repr

/-- mirrors src/include/newformat.h:89-93 -/
structure AcTarget where
  name : Option GeneralName
  group : Option GeneralName
  cert : Option AcIs
  deriving DecidableEq, Repr

/-- `AC_ATTRIBUTE` of `src/include/attributes.h`. -/
structure AcAttribute where
  name : Str
  value : Str
  qualifier : Str
  deriving DecidableEq, Repr

/-- `AC_ATT_HOLDER` of `src/include/attributes.h`. -/
structure AcAttHolder where
  grantor : List GeneralName
  attributes : List AcAttribute
  deriving DecidableEq, Repr

/-- `AUTHORITY_KEYID`. -/
structure AuthorityKeyId where
  keyid : Option (List UInt8)
  issuer : Option (List GeneralName)
  serial : Option Asn1Integer
  deriving DecidableEq, Repr

/-- The extension types the code looks for, as `OBJ_txt2nid` names them. -/
inductive ExtType where
  | idcenoRevAvail
  | authorityKeyIdentifier
  | idceTargets
  | attributes
  | certseq
  | other (oid : Nat)
  deriving DecidableEq, Repr

/-- What the extension body decodes to; `raw` decodes as nothing. -/
inductive ExtBody where
  | null
  | keyId (k : AuthorityKeyId)
  | targets (l : List AcTarget)
  | fullAttributes (providers : List AcAttHolder)
  | certs (l : List X509)
  | raw (b : Str)
  deriving DecidableEq, Repr

/-- `X509_EXTENSION`. -/
structure X509Ext where
  type : ExtType
  critical : Bool
  body : ExtBody
  deriving DecidableEq, Repr

/-! `X509V3_EXT_d2i` with the method of the extension's own type: NULL
when the body is not an encoding of that type. -/

def X509Ext.d2iTargets (e : X509Ext) : Option (List AcTarget) :=
  match e.body with
  | .targets l => some l
  | _ => none

def X509Ext.d2iAttributes (e : X509Ext) : Option (List AcAttHolder) :=
  match e.body with
  | .fullAttributes l => some l
  | _ => none

def X509Ext.d2iCerts (e : X509Ext) : Option (List X509) :=
  match e.body with
  | .certs l => some l
  | _ => none

def X509Ext.d2iKeyId (e : X509Ext) : Option AuthorityKeyId :=
  match e.body with
  | .keyId k => some k
  | _ => none

/-- The extension `X509v3_get_ext_by_NID(exts, nid, -1)` finds: the first
of its type. -/
def extByNid (exts : List X509Ext) (t : ExtType) : Option X509Ext := exts.find? (·.type == t)

/-- mirrors src/include/newformat.h:108-118 -/
structure AcInfo where
  version : Option Asn1Integer
  holder : Option AcHolder
  form : Option AcForm
  alg : Option X509Algor
  serial : Option Asn1Integer
  validity : Option AcVal
  attrib : Option (List AcAttr)
  id : Option BitString
  exts : Option (List X509Ext)
  deriving DecidableEq, Repr

/-- mirrors src/include/newformat.h:120-124 -/
structure Ac where
  acinfo : Option AcInfo
  sigAlg : Option X509Algor
  signature : Option BitString
  deriving DecidableEq, Repr

/-! ## Oracles -/

/-- The results of `AC_verify` and `X509_verify_cert`: 1, 0 and -1. -/
inductive Verdict where
  | good | bad | error
  deriving DecidableEq, Repr

def Verdict.toInt : Verdict → Int
  | .good => 1
  | .bad => 0
  | .error => -1

theorem Verdict.toInt_eq_zero {r : Verdict} : r.toInt = 0 ↔ r = .bad := by
  cases r <;> simp [toInt]

/-- OpenSSL and the local machine, as the code calls them. -/
structure World where
  /-- `ASN1_verify(i2d_AC_INFO, alg, sig, acinfo, key)`. -/
  asn1Verify : Option X509Algor → Option BitString → Option AcInfo → Option EvpPKey → Verdict
  /-- `X509_verify_cert` on the chain of `check_cert`, against `ca_cert_dir`. -/
  x509VerifyCert : List X509 → Verdict
  /-- `BN_bn2hex(ASN1_INTEGER_to_BN(i))`. -/
  bn2hex : Asn1Integer → Str
  /-- `SHA1`. -/
  sha1 : List UInt8 → List UInt8
  /-- `X509_cmp_time`: negative when the time is not after the argument,
  positive when it is, 0 when the time is malformed. -/
  cmpTime : Asn1Time → Int → Int
  /-- `time(NULL)`. -/
  time : Int
  /-- `gethostname`, `getdomainname`; `none` when the call fails. -/
  hostname : Option Str
  domainname : Option Str
  /-- `AC_dup`: `ASN1_dup` over `i2d_AC` and `d2i_AC`, NULL when the copy
  does not decode. -/
  acDup : Ac → Option Ac

/-- `AC_verify`.
mirrors src/ac/newformat.c:598-601 -/
def World.acVerify (W : World) (ac : Ac) (key : Option EvpPKey) : Verdict :=
  W.asn1Verify ac.sigAlg ac.signature ac.acinfo key

/-! ## Certificates for examples -/

namespace Sample

def name (cn : String) (n : UInt8) : X509Name :=
  ⟨[⟨NID_commonName, cn.toList⟩], [n], ("/CN=" ++ cn).toList⟩

def caName : X509Name := name "ca" 1
def serverName : X509Name := name "voms" 2
def userName : X509Name := name "user" 3

/-- 2024-01-01, midnight and noon. -/
def dawn : Asn1Time := ⟨.generalized, "20240101000000Z".toList⟩
def noon : Asn1Time := ⟨.generalized, "20240101120000Z".toList⟩

/-- A certificate the CA issued. -/
def cert (subject : X509Name) (serial key : UInt8) : X509 :=
  ⟨subject, caName, ⟨false, [serial]⟩, none, ⟨1⟩, ⟨1⟩, [key], some ⟨key.toNat⟩, noon, [], -1, false⟩

def root : X509 := cert caName 1 1
def server : X509 := cert serverName 10 20
def user : X509 := cert userName 11 21

end Sample

end Voms.L1
