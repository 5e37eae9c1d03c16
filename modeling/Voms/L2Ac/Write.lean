import Voms.L2Ac.Validate

/-!
# `createac`: how the server makes an attribute certificate

`src/ac/create.cc` and `src/ac/write.c`. `createac` turns its vectors into
C strings, so each is cut at its first NUL, and joins the targets with
commas; `writeac` fills the structure that `AC_new` allocated and signs it.
Allocations succeed.

`X509V3_EXT_conf_nid` reads the text of an extension: a leading
`critical,` is dropped, a `DER:` or `ASN1:` text is taken as the encoding
of the body, anything else goes to the `s2i` function of `extensions.c`.
-/
namespace Voms.L2

open Voms.Core Voms.L1

/-- OpenSSL and the clock, as the server calls them. -/
structure Signer where
  /-- `time(&curtime)`. -/
  time : Int
  /-- `ASN1_GENERALIZEDTIME_set(NULL, t)`: NULL for a time it cannot write. -/
  generalizedTimeSet : Int → Option Asn1Time
  /-- `ASN1_sign` with the digest of the first argument: the algorithm it
  stores into both fields and the signature. -/
  asn1Sign : X509Algor → AcInfo → EvpPKey → X509Algor × BitString
  /-- `SHA1`. -/
  sha1 : List UInt8 → List UInt8
  /-- `v3_generic_extension` on a `DER:` or `ASN1:` text. -/
  genericExtension : Str → Option ExtBody

/-! ## Extensions -/

/-- `v3_check_critical`. -/
def checkCriticalText (value : Str) : Str :=
  if "critical,".toList.isPrefixOf value then (value.drop 9).dropWhile isSpace else value

/-- `v3_check_generic`. -/
def checkGeneric (value : Str) : Bool :=
  "DER:".toList.isPrefixOf value || "ASN1:".toList.isPrefixOf value

/-- mirrors src/ac/extensions.c:408-458 -/
def targets_s2i (data : Str) : List AcTarget :=
  (data.splitOn ',').map fun list => ⟨some (.uri list), none, none⟩

/-- `X509V3_EXT_conf_nid` for `idceTargets`. -/
def confTargets (S : Signer) (t : Str) : Option ExtBody :=
  let value := checkCriticalText t
  if checkGeneric value then S.genericExtension value else some (.targets (targets_s2i value))

/-- Only the key identifier is set.
mirrors src/ac/extensions.c:514-535 -/
def authkey_s2i (S : Signer) (cert : X509) : AuthorityKeyId :=
  ⟨some (S.sha1 cert.publicKey), none, none⟩

/-- mirrors src/ac/write.c:45-57 -/
def makeAndPushExt (exts : List X509Ext) (name : ExtType) (data : Option ExtBody)
    (critical : Bool) : Chk (List X509Ext) := do
  let body ← Res.require .AC_ERR_NO_EXTENSION data
  pure (exts ++ [⟨name, critical, body⟩])

/-- The copy loop runs over `proxyindex` and indexes with `i`.
mirrors src/ac/write.c:277-292 -/
def copyExtensions (exts extensions : List X509Ext) (i : Nat) : Nat → Chk (List X509Ext)
  | 0 => pure exts
  | proxyindex + 1 => do
    let ext ← Res.require .AC_ERR_UNKNOWN extensions[i]?
    copyExtensions (exts ++ [ext]) extensions i proxyindex

/-! ## Attributes -/

/-- `%s://%s`, as a list of names.
mirrors src/ac/write.c:59-82 -/
def makeUri (vo uri : Option Str) : List GeneralName :=
  if vo.isSome || uri.isSome then
    [.uri (vo.getD [] ++ "://".toList ++ uri.getD [])]
  else []

/-- One string `qualifier::name=value`. Without `::` the result of `strstr`
is NULL and `*tmp='\0'` writes through it.
mirrors src/ac/write.c:194-228 -/
def parseAttribute (vo : Option Str) (s : Str) : Chk AcAttribute := do
  let point ← Res.deref (strstr "::".toList s)
  let qual := if point = 0 then none else some (s.take point)
  let tmp := s.drop (point + 2)
  let tmp2 ← Res.require .AC_ERR_PARAMETERS (strstr "=".toList tmp)
  pure { name := tmp.take tmp2, value := tmp.drop (tmp2 + 1),
         qualifier := qual.getD (vo.getD []) }

/-- mirrors src/ac/write.c:182-231 -/
def parseAttributes (vo : Option Str) : List Str → Chk (List AcAttribute)
  | [] => pure []
  | s :: rest => do
    let a ← parseAttribute vo s
    let as ← parseAttributes vo rest
    pure (a :: as)

/-- The attribute that carries the FQANs.
mirrors src/ac/write.c:155-179 -/
def makeCapabilities (fqan : List Str) (vo uri : Option Str) : AcAttr :=
  { type := .idatcap
    ietfattr := if vo.isSome || uri.isSome then [⟨makeUri vo uri, fqan.map .octets⟩] else [] }

/-- The extensions in the order they are pushed.
mirrors src/ac/write.c:233-292 -/
def makeExtensions (S : Signer) (issuerc : X509) (issuerstack : Option (List X509))
    (t : Option Str) (attrs : List AcAttribute) (vo uri : Option Str)
    (extensions : Option (List X509Ext)) : Chk (List X509Ext) := do
  let exts ←
    (if attrs.isEmpty then pure []
      else makeAndPushExt [] .attributes (some (.fullAttributes [⟨makeUri vo uri, attrs⟩])) false)
  let exts ← makeAndPushExt exts .certseq (some (.certs (issuerstack.getD [] ++ [issuerc]))) false
  let exts ← makeAndPushExt exts .idcenoRevAvail (some .null) false
  let exts ← makeAndPushExt exts .authorityKeyIdentifier
    (some (.keyId (authkey_s2i S issuerc))) false
  let exts ←
    (match t with
      | some t => makeAndPushExt exts .idceTargets (confTargets S t) true
      | none => pure exts)
  let i := (issuerstack.map List.length).getD attrs.length
  let extensions := extensions.getD []
  copyExtensions exts extensions i extensions.length

/-! ## `writeac`, `createac` -/

/-- The fields of `a->acinfo` before the signature. The holder's unique
identifier is not copied into `holder->baseid`.
mirrors src/ac/write.c:127-131, 294-320 -/
def fillInfo (issuerc holder : X509) (s : Asn1Integer) (old : Bool) (time1 time2 : Asn1Time)
    (capabilities : AcAttr) (exts : List X509Ext) : AcInfo :=
  let name1 := issuerc.subject
  let name2 := if old then holder.subject else holder.issuer
  { version := some ⟨false, [1]⟩
    holder := some ⟨some ⟨some [.dirName name2], some holder.serialNumber, none⟩, none, none⟩
    form := some ⟨some [.dirName name1], none, none⟩
    alg := some issuerc.signature
    serial := some s
    validity := some ⟨some time1, some time2⟩
    attrib := some [capabilities]
    id := issuerc.issuerUID
    exts := some exts }

/-- mirrors src/ac/write.c:322-331 -/
def signInfo (S : Signer) (issuerc : X509) (pkey : EvpPKey) (info : AcInfo) : Ac :=
  let (alg, signature) := S.asn1Sign issuerc.sigAlg info pkey
  ⟨some { info with alg := some alg }, some alg, some signature⟩

/-- mirrors src/ac/write.c:84-333 -/
def writeac (S : Signer) (issuerc : X509) (issuerstack : Option (List X509)) (holder : X509)
    (pkey : EvpPKey) (s : Asn1Integer) (fqan : List Str) (t : Option Str)
    (attributes : List Str) (vo uri : Option Str) (valid : Int) (old : Bool) (startpast : Int)
    (extensions : Option (List X509Ext)) : Chk Ac := do
  let curtime := S.time
  let time1 ← Res.require .AC_ERR_MEMORY (S.generalizedTimeSet (curtime - startpast))
  let time2 ← Res.require .AC_ERR_MEMORY (S.generalizedTimeSet (curtime + valid - startpast))
  let attrs ← parseAttributes vo attributes
  let exts ← makeExtensions S issuerc issuerstack t attrs vo uri extensions
  let info := fillInfo issuerc holder s old time1 time2 (makeCapabilities fqan vo uri) exts
  pure (signInfo S issuerc pkey info)

/-- The targets, joined; NULL when nothing is left.
mirrors src/ac/create.cc:60-70 -/
def targetText (targets : List Str) : Option Str :=
  let complete := join ',' targets
  if complete = [] then none else some (cStr complete)

/-- mirrors src/ac/create.cc:50-80 -/
def createac (S : Signer) (issuerc : X509) (issuerstack : Option (List X509)) (holder : X509)
    (pkey : EvpPKey) (serial : Asn1Integer) (fqan targets attributes : List Str) (vo uri : Str)
    (valid : Int) (old : Bool) (extensions : Option (List X509Ext)) : Chk Ac :=
  writeac S issuerc issuerstack holder pkey serial (fqan.map cStr) (targetText targets)
    (attributes.map cStr) (some (cStr vo)) (some (cStr uri)) valid old 0 extensions

end Voms.L2
