import Voms.L1Asn1.Decode

/-!
# `validate`: what the client checks of an attribute certificate

`src/ac/validate.cc`, over the structures in memory. The function is cut at
its blank lines: the `CHECK` block, the signature, the names that go into
the record, the holder, the issuer, the dates, then `checkExtensions` and
`checkAttributes`. A `CHECK(p)` is `CHECK p`, every other use of a pointer
is a `Res.deref`, every `name->d.x` is a tagged read; so an AC for which a
pointer is used unchecked has the outcome `fault`.

`valids` is a bit mask. With `valids == 0` no field is checked at all.
-/
namespace Voms.L2

open Voms.Core Voms.L1

/-! ## Verification flags -/

/-- mirrors src/api/ccapi/voms_api.h:149-159 -/
abbrev VerifyType := BitVec 32

def VERIFY_FULL : VerifyType := 0xffffffff
def VERIFY_NONE : VerifyType := 0x00000000
def VERIFY_DATE : VerifyType := 0x00000001
def VERIFY_TARGET : VerifyType := 0x00000002
def VERIFY_KEY : VerifyType := 0x00000004
def VERIFY_SIGN : VerifyType := 0x00000008
def VERIFY_ID : VerifyType := 0x00000020

/-- `valids & f`, as a condition. -/
def has (valids f : VerifyType) : Prop := valids &&& f ≠ 0

instance (valids f : VerifyType) : Decidable (has valids f) := by unfold has; infer_instance

theorem ne_zero_of_has {valids f : VerifyType} (h : has valids f) : valids ≠ 0 := by
  rintro rfl
  exact h (by simp)

/-! ## Error codes -/

/-- mirrors src/ac/acerrors.h -/
inductive AcErr where
  | AC_ERR_UNSET
  | AC_ERR_SET
  | AC_ERR_SIGNATURE
  | AC_ERR_HOLDER_SERIAL
  | AC_ERR_HOLDER
  | AC_ERR_UID_MISMATCH
  | AC_ERR_ISSUER_NAME
  | AC_ERR_SERIAL
  | AC_ERR_DATES
  | AC_ERR_DATES2
  | AC_ERR_ATTRIBS
  | AC_ERR_ATTRIB_URI
  | AC_ERR_ATTRIB_FQAN
  | AC_ERR_EXTS_ABSENT
  | AC_ERR_MEMORY
  | AC_ERR_EXT_CRIT
  | AC_ERR_EXT_TARGET
  | AC_ERR_TARGET_NO_MATCH
  | AC_ERR_EXT_KEY
  | AC_ERR_UNKNOWN
  | AC_ERR_PARAMETERS
  | AC_ERR_NO_EXTENSION
  deriving DecidableEq, Repr

/-- mirrors src/ac/validate.cc:112-192 -/
def getError : AcErr → Str
  | .AC_ERR_UNSET => "AC structure got corrupted.".toList
  | .AC_ERR_SET => "AC structure got corrupted.".toList
  | .AC_ERR_SIGNATURE => "Failed to verify AC signature.".toList
  | .AC_ERR_HOLDER_SERIAL =>
    "AC has been granted to a different certificate than the passed one.".toList
  | .AC_ERR_HOLDER => "Cannot retrieve owner name from AC.".toList
  | .AC_ERR_UID_MISMATCH => "Incorrectly formatted owner name.".toList
  | .AC_ERR_ISSUER_NAME => "Cannot discover AC creator.".toList
  | .AC_ERR_SERIAL => "AC serial number too long.".toList
  | .AC_ERR_DATES => "AC not yet valid.".toList
  | .AC_ERR_DATES2 => "AC not valid anymore.".toList
  | .AC_ERR_ATTRIBS => "VOMS Attributes missing from AC.".toList
  | .AC_ERR_ATTRIB_URI => "VOMS Server contact data missing from AC.".toList
  | .AC_ERR_ATTRIB_FQAN => "VOMS Attributes absent or misformed.".toList
  | .AC_ERR_EXTS_ABSENT =>
    "Required AC extensions missing (NoRevAvail and AuthorityKeyIdentifier)".toList
  | .AC_ERR_MEMORY => "Out of memory.".toList
  | .AC_ERR_EXT_CRIT => "Unknown critical extension inside AC.".toList
  | .AC_ERR_EXT_TARGET => "Unable to parse Target extension.".toList
  | .AC_ERR_TARGET_NO_MATCH => "Cannot find match among allowed hosts.".toList
  | .AC_ERR_EXT_KEY => "AC issuer key unreadable or unverifiable.".toList
  | .AC_ERR_UNKNOWN => "Unknown error. (run for the hills!)".toList
  | .AC_ERR_PARAMETERS => "Parameter error (Internal error: run for the hills!)".toList
  | .AC_ERR_NO_EXTENSION => "Cannot create needed extensions.".toList

/-- A fallible step of this module. -/
abbrev Chk := Res AcErr

/-- `CHECK(a)`. -/
def CHECK {α : Type} (p : Option α) : Chk α := Res.require .AC_ERR_UNSET p

/-- `NCHECK(a)`. -/
def NCHECK {α : Type} (p : Option α) : Chk Unit := Res.guard (p = none) .AC_ERR_SET

@[simp] theorem CHECK_some {α : Type} (a : α) : CHECK (some a) = .ok a := rfl
@[simp] theorem CHECK_none {α : Type} : CHECK (none : Option α) = .err .AC_ERR_UNSET := rfl
@[simp] theorem NCHECK_none {α : Type} : NCHECK (none : Option α) = .ok () := rfl
@[simp] theorem NCHECK_some {α : Type} (a : α) : NCHECK (some a) = .err .AC_ERR_SET := rfl

/-! ## The record -/

/-- `struct data`: group, role, capability. -/
structure Data where
  group : Str
  role : Str
  cap : Str
  deriving DecidableEq, Repr

/-- `struct attribute`. -/
structure Attribute where
  name : Str
  qualifier : Str
  value : Str
  deriving DecidableEq, Repr

/-- `struct attributelist`. -/
structure AttributeList where
  grantor : Str
  attributes : List Attribute
  deriving DecidableEq, Repr

/-- `struct voms`; `attributes` and `ac` are the members of its
`struct realdata`. `stdType` is `type == TYPE_STD`.
mirrors src/api/ccapi/voms_api.h:116-144, src/api/ccapi/realdata.h -/
structure VomsRecord where
  version : Int
  siglen : Nat
  signature : Str
  user : Str
  userca : Str
  server : Str
  serverca : Str
  voname : Str
  uri : Str
  date1 : Str
  date2 : Str
  stdType : Bool
  std : List Data
  fqan : List Str
  serial : Str
  attributes : List AttributeList
  ac : Option Ac
  holder : Option X509
  deriving DecidableEq, Repr

/-- A record as the constructor and `verifyac` leave it.
mirrors src/api/ccapi/voms_api.cc:862-865, src/api/ccapi/ccval.cc:48-56 -/
def VomsRecord.new : VomsRecord :=
  ⟨0, 0, [], [], [], [], [], [], [], [], [], false, [], [], [], [], none, none⟩

/-! ## The parts of `validate` -/

/-- The block under `if (valids)`.
mirrors src/ac/validate.cc:216-235 -/
def checkFields (ac : Ac) : Chk Unit := do
  let info ← CHECK ac.acinfo
  let _ ← CHECK info.version
  let holder ← CHECK info.holder
  NCHECK holder.digest
  let form ← CHECK info.form
  let _ ← CHECK form.names
  NCHECK form.is
  NCHECK form.digest
  let _ ← CHECK info.serial
  let validity ← CHECK info.validity
  let _ ← CHECK info.alg
  let _ ← CHECK validity.notBefore
  let _ ← CHECK validity.notAfter
  let _ ← CHECK info.attrib
  let _ ← CHECK ac.sigAlg
  let _ ← CHECK ac.signature
  pure ()

/-- Only a result of 0 is refused.
mirrors src/ac/validate.cc:237-245 -/
def checkSignature (W : World) (issuer : Option X509) (ac : Ac) : Chk Unit := do
  let iss ← CHECK issuer
  Res.guard ((W.acVerify ac iss.key).toInt ≠ 0) .AC_ERR_SIGNATURE

/-- mirrors src/ac/validate.cc:247-254 -/
def fillSignature (W : World) (ac : Ac) (v : VomsRecord) : Chk VomsRecord := do
  let sig ← Res.deref ac.signature
  let info ← Res.deref ac.acinfo
  let serial ← Res.deref info.serial
  pure { v with
    version := 1
    siglen := sig.data.length
    signature := sig.data
    serial := W.bn2hex serial }

/-- mirrors src/ac/validate.cc:256-264 -/
def fillUser (valids : VerifyType) (cert : Option X509) (v : VomsRecord) : Chk VomsRecord :=
  match cert with
  | some c => pure { v with user := c.subject.oneline, userca := c.issuer.oneline }
  | none => do
    Res.guard (¬ has valids VERIFY_ID) .AC_ERR_HOLDER
    pure { v with user := [], userca := [] }

/-- mirrors src/ac/validate.cc:265-272 -/
def fillServer (issuer : Option X509) (ac : Ac) (v : VomsRecord) : Chk VomsRecord :=
  match issuer with
  | some i => pure { v with server := i.subject.oneline, serverca := i.issuer.oneline }
  | none => do
    let info ← Res.deref ac.acinfo
    let form ← Res.deref info.form
    let name ← Res.deref ((form.names.getD []).head?)
    let dn ← name.dirn
    pure { v with server := dn.oneline, serverca := "Unable to determine CA".toList }

/-- mirrors src/ac/validate.cc:278-303 -/
def checkBaseId (baseid : AcIs) (cert : X509) : Chk Unit := do
  let serial ← CHECK baseid.serial
  let names ← CHECK baseid.issuer
  Res.guard (serial = cert.serialNumber) .AC_ERR_HOLDER_SERIAL
  Res.guard (names.length = 1) .AC_ERR_HOLDER
  let name ← Res.require .AC_ERR_HOLDER names.head?
  Res.guard (name.isDirName = true) .AC_ERR_HOLDER
  let dn ← name.dirn
  Res.guard (dn.same cert.subject = true ∨ dn.same cert.issuer = true) .AC_ERR_HOLDER
  Res.guard (baseid.uid.isSome = cert.issuerUID.isSome) .AC_ERR_UID_MISMATCH
  match baseid.uid with
  | none => pure ()
  | some uid => do
    let issuerUID ← Res.deref cert.issuerUID
    Res.guard (uid = issuerUID) .AC_ERR_UID_MISMATCH

/-- `gname` is assigned only when the first operand of the `||` is false, so
with one element it is read unassigned; `name` is still NULL when `gname`
has exactly one element.
mirrors src/ac/validate.cc:306-319 -/
def checkEntityName (gnames : List (List GeneralName)) (cert : X509) : Chk Unit :=
  match gnames with
  | [] => pure ()
  | [_] => .fault .uninit
  | gname :: _ =>
    if gname.length = 1 then .fault .nullDeref
    else match gname.head? with
      | none => .fault .nullDeref
      | some name => do
        let dn ← name.dirn
        Res.guard (dn.same cert.issuer = true) .AC_ERR_UID_MISMATCH

/-- A holder with neither field passes.
mirrors src/ac/validate.cc:277-320 -/
def checkHolder (holder : AcHolder) (cert : X509) : Chk Unit :=
  match holder.baseid with
  | some baseid => checkBaseId baseid cert
  | none =>
    match holder.name with
    | some gnames => checkEntityName gnames cert
    | none => pure ()

/-- mirrors src/ac/validate.cc:323-336 -/
def checkIssuerName (valids : VerifyType) (issuer : Option X509) (info : AcInfo) : Chk Unit := do
  let form ← Res.deref info.form
  let names := form.names.getD []
  Res.guard (names.length = 1) .AC_ERR_ISSUER_NAME
  let name ← Res.require .AC_ERR_ISSUER_NAME names.head?
  Res.guard (name.isDirName = true) .AC_ERR_ISSUER_NAME
  Res.when (has valids VERIFY_ID) do
    let dn ← name.dirn
    let iss ← Res.deref issuer
    Res.guard (dn.same iss.subject = true) .AC_ERR_ISSUER_NAME
  let serial ← Res.deref info.serial
  Res.guard (serial.data.length ≤ 20) .AC_ERR_SERIAL

/-- The second `if (valids)`.
mirrors src/ac/validate.cc:274-337 -/
def checkNames (valids : VerifyType) (cert issuer : Option X509) (info : AcInfo) : Chk Unit := do
  Res.when (has valids VERIFY_ID) do
    let holder ← Res.deref info.holder
    let c ← Res.deref cert
    checkHolder holder c
  checkIssuerName valids issuer info

/-- A `vertime` of 0 stands for the present.
mirrors src/ac/validate.cc:347-352 -/
def verificationTime (W : World) (vertime : Int) : Int :=
  if vertime = 0 then W.time else vertime

/-- mirrors src/ac/validate.cc:345-366 -/
def checkDates (W : World) (valids : VerifyType) (vertime : Int) (a b : Asn1Time) : Chk Unit :=
  Res.when (has valids VERIFY_DATE) do
    let vertime := verificationTime W vertime
    let ctime := vertime + 300
    let dtime := ctime - 600
    Res.guard (a.type = .generalized ∧ b.type = .generalized) .AC_ERR_DATES
    Res.guard (¬ (0 ≤ W.cmpTime b vertime ∧ 0 ≤ W.cmpTime b ctime)) .AC_ERR_DATES
    Res.guard (¬ (W.cmpTime a dtime ≤ 0 ∧ W.cmpTime a dtime ≤ 0)) .AC_ERR_DATES2

/-! ## Extensions -/

/-- The host name is returned only from under the comparison with `(none)`.
mirrors src/ac/validate.cc:625-638 -/
def getfqdn (W : World) : Str :=
  match W.hostname, W.domainname with
  | some h, some d => if d = "(none)".toList then h else []
  | _, _ => []

/-- One target of the loop matches. `ASN1_STRING_cmp` is 0.
mirrors src/ac/validate.cc:522-531 -/
def targetMatches (fqdn : Str) (t : AcTarget) : Bool :=
  match t.name with
  | some (.uri d) => d == fqdn
  | _ => false

/-- mirrors src/ac/validate.cc:511-544 -/
def checkTargets (W : World) (ex : X509Ext) : Chk Unit :=
  match ex.d2iTargets with
  | some targets => Res.guard (targets.any (targetMatches (getfqdn W)) = true) .AC_ERR_TARGET_NO_MATCH
  | none => .err .AC_ERR_EXT_TARGET

/-- The loop over the critical extensions from position `pos` on; `pos4` is
the position of the first `idceTargets`.
mirrors src/ac/validate.cc:503-550 -/
def checkCritical (W : World) (valids : VerifyType) (pos4 : Option Nat) :
    Nat → List X509Ext → Chk Unit
  | _, [] => pure ()
  | pos, ex :: rest => do
    Res.when (ex.critical = true) do
      Res.guard (some pos = pos4) .AC_ERR_EXT_CRIT
      Res.when (has valids VERIFY_TARGET) (checkTargets W ex)
    checkCritical W valids pos4 (pos + 1) rest

/-- mirrors src/ac/validate.cc:654-660 -/
def readAttribute (at' : AcAttribute) : Attribute := ⟨at'.name, at'.qualifier, at'.value⟩

/-- One `AC_ATT_HOLDER`. The grantor is read as an IA5 string whatever it is.
mirrors src/ac/validate.cc:649-668 -/
def interpretHolder (h : AcAttHolder) : Chk AttributeList := do
  let gn ← Res.deref h.grantor.head?
  let grantor ← gn.ia5
  pure { grantor, attributes := h.attributes.map readAttribute }

/-- The loop over the providers. -/
def interpretHolders : List AcAttHolder → Chk (List AttributeList)
  | [] => pure []
  | h :: rest => do
    let al ← interpretHolder h
    let als ← interpretHolders rest
    pure (al :: als)

/-- The result is the flag returned and `rd->attributes`.
mirrors src/ac/validate.cc:641-678 -/
def interpretAttributes (providers : List AcAttHolder) (attributes : List AttributeList) :
    Chk (Bool × List AttributeList) := do
  let als ← interpretHolders providers
  let attributes := attributes ++ als
  pure (providers.isEmpty || !attributes.isEmpty, attributes)

/-- The block under `if (pos5 >= 0)` and the `if (ret)` after it.
mirrors src/ac/validate.cc:552-567 -/
def readAttributes (exts : List X509Ext) (attributes : List AttributeList) :
    Chk (List AttributeList) :=
  match (extByNid exts .attributes).bind (·.d2iAttributes) with
  | some providers => do
    let (ret, attributes) ← interpretAttributes providers attributes
    Res.guard (ret = true) .AC_ERR_ATTRIBS
    pure attributes
  | none => pure attributes

/-- `sk_GENERAL_NAME_value(key->issuer, 0)->d.dirn` is read whatever the
earlier tests found, as is `key->serial`. The type of an `ASN1_INTEGER` is
never `GEN_DIRNAME`. With a `keyid` whose length is not 20 the bytes
compared do not matter.
mirrors src/ac/validate.cc:569-618 -/
def checkKeyId (W : World) (valids : VerifyType) (iss : Option X509) (key : AuthorityKeyId) :
    Chk Unit :=
  match iss with
  | some iss =>
    match key.keyid with
    | some keyid =>
      Res.guard (¬ (keyid.length = 20 ∧ keyid ≠ W.sha1 iss.publicKey)) .AC_ERR_EXT_KEY
    | none => do
      let _ ← Res.deref key.serial
      let name ← Res.deref ((key.issuer.getD []).head?)
      let _ ← name.dirn
      .err .AC_ERR_EXT_KEY
  | none => Res.guard (has valids VERIFY_ID) .AC_ERR_EXT_KEY

/-- Gives the generic attributes read.
mirrors src/ac/validate.cc:483-623 -/
def checkExtensions (W : World) (exts : List X509Ext) (iss : Option X509) (valids : VerifyType)
    (attributes : List AttributeList) : Chk (List AttributeList) := do
  let _ ← Res.require .AC_ERR_EXTS_ABSENT (extByNid exts .idcenoRevAvail)
  let akid ← Res.require .AC_ERR_EXTS_ABSENT (extByNid exts .authorityKeyIdentifier)
  let pos4 := exts.findIdx? (·.type == .idceTargets)
  checkCritical W valids pos4 0 exts
  let attributes ← readAttributes exts attributes
  Res.when (has valids VERIFY_KEY) do
    let key ← Res.require .AC_ERR_EXT_KEY akid.d2iKeyId
    checkKeyId W valids iss key
  pure attributes

/-! ## Attributes -/

/-- `a - b` of two `size_t`. -/
def sizeSub (a b : Nat) : Nat := if b ≤ a then a - b else 2 ^ 64 + a - b

/-- With the markers the other way round the length of the role wraps, and
`substr` goes to the end.
mirrors src/ac/validate.cc:446-472 -/
def splitFqan (str : Str) : Data :=
  let rolestart := strstr "/Role=".toList str
  let capstart := strstr "/Capability=".toList str
  match capstart, rolestart with
  | some c, some r => ⟨str.take r, (str.drop (r + 6)).take (sizeSub c (r + 6)), str.drop (c + 12)⟩
  | some c, none => ⟨str.take c, [], str.drop (c + 12)⟩
  | none, some r => ⟨str.take r, str.drop (r + 6), []⟩
  | none, none => ⟨str, [], []⟩

/-- The loop over the values. `capname->type` of a value that is an object
identifier is not the type member of an `ASN1_STRING`.
mirrors src/ac/validate.cc:434-475 -/
def checkValues (v : VomsRecord) : List AcIetfAttrVal → Chk VomsRecord
  | [] => pure v
  | .octets str :: rest =>
    checkValues { v with fqan := v.fqan ++ [str], std := v.std ++ [splitFqan str] } rest
  | .utf8 _ :: _ => .err .AC_ERR_ATTRIB_FQAN
  | .object _ :: _ => .fault .badChoice

/-- The policy authority and the values of the only `AC_IETFATTR`.
mirrors src/ac/validate.cc:411-478 -/
def readCapattr (capattr : AcIetfAttr) (v : VomsRecord) : Chk VomsRecord := do
  Res.guard (capattr.names.length = 1) .AC_ERR_ATTRIB_URI
  let data ← Res.deref capattr.names.head?
  Res.guard (data.isUri = true) .AC_ERR_ATTRIB_URI
  let text ← data.ia5
  let point ← Res.require .AC_ERR_ATTRIB_URI (strstr "://".toList text)
  let v ← checkValues { v with voname := text.take point, uri := text.drop (point + 3) } capattr.values
  pure { v with stdType := true }

/-- mirrors src/ac/validate.cc:384-481 -/
def checkAttributes (atts : List AcAttr) (v : VomsRecord) : Chk VomsRecord := do
  let caps ← Res.require .AC_ERR_ATTRIBS (atts.find? (·.type == .idatcap))
  Res.guard (caps.ietfattr.length = 1) .AC_ERR_ATTRIB_URI
  let capattr ← Res.deref caps.ietfattr.head?
  readCapattr capattr v

/-! ## `validate` -/

/-- Everything after the signature test.
mirrors src/ac/validate.cc:247-382 -/
def validateRest (W : World) (cert issuer : Option X509) (ac : Ac) (v : VomsRecord)
    (valids : VerifyType) (vertime : Int) : Chk VomsRecord := do
  let v ← fillSignature W ac v
  let v ← fillUser valids cert v
  let v ← fillServer issuer ac v
  let info ← Res.deref ac.acinfo
  Res.when (valids ≠ 0) (checkNames valids cert issuer info)
  let validity ← Res.deref info.validity
  let b ← Res.deref validity.notBefore
  let a ← Res.deref validity.notAfter
  let v := { v with date1 := b.data, date2 := a.data }
  checkDates W valids vertime a b
  Res.when (valids ≠ 0) (Res.guard (info.attrib.getD [] ≠ []) .AC_ERR_ATTRIBS)
  let attributes ← checkExtensions W (info.exts.getD []) issuer valids v.attributes
  let v := { v with attributes }
  let v ←
    (match info.attrib with
      | some atts => checkAttributes atts v
      | none => pure v)
  pure { v with ac := some ac }

/-- mirrors src/ac/validate.cc:206-382 -/
def validate (W : World) (cert issuer : Option X509) (ac : Ac) (v : VomsRecord)
    (valids : VerifyType) (vertime : Int) : Chk VomsRecord := do
  Res.when (valids ≠ 0) (checkFields ac)
  Res.when (has valids VERIFY_SIGN) (checkSignature W issuer ac)
  validateRest W cert issuer ac v valids vertime

theorem validate_eq_ok {W : World} {cert issuer : Option X509} {ac : Ac} {v v' : VomsRecord}
    {valids : VerifyType} {vertime : Int} :
    validate W cert issuer ac v valids vertime = .ok v' ↔
      (valids ≠ 0 → checkFields ac = .ok ()) ∧
      (has valids VERIFY_SIGN → checkSignature W issuer ac = .ok ()) ∧
      validateRest W cert issuer ac v valids vertime = .ok v' := by
  simp [validate, Res.then_eq_ok]

/-- The record as it reaches `checkAttributes`. -/
def filledRecord (W : World) (cert issuer : X509) (sig : BitString) (serial : Asn1Integer)
    (b a : Asn1Time) (v : VomsRecord) : VomsRecord :=
  { v with
    version := 1, siglen := sig.data.length, signature := sig.data
    user := cert.subject.oneline, userca := cert.issuer.oneline
    server := issuer.subject.oneline, serverca := issuer.issuer.oneline
    date1 := b.data, date2 := a.data, serial := W.bn2hex serial }

/-- An AC without missing fields, checked against both certificates. -/
theorem validateRest_eq_ok {W : World} {cert issuer : X509} {ac : Ac} {v v' : VomsRecord}
    {valids : VerifyType} {vertime : Int} {info : AcInfo} {sig : BitString} {serial : Asn1Integer}
    {b a : Asn1Time} {atts : List AcAttr} (hinfo : ac.acinfo = some info)
    (hsig : ac.signature = some sig) (hserial : info.serial = some serial)
    (hval : info.validity = some ⟨some b, some a⟩) (hatts : info.attrib = some atts) :
    validateRest W (some cert) (some issuer) ac v valids vertime = .ok v' ↔
      (valids ≠ 0 → checkNames valids (some cert) (some issuer) info = .ok ()) ∧
      checkDates W valids vertime a b = .ok () ∧ (valids ≠ 0 → atts ≠ []) ∧
      ∃ als, checkExtensions W (info.exts.getD []) (some issuer) valids v.attributes = .ok als ∧
      ∃ v1, checkAttributes atts { filledRecord W cert issuer sig serial b a v with
        attributes := als } = .ok v1 ∧ v' = { v1 with ac := some ac } := by
  unfold validateRest fillSignature fillUser fillServer
  simp only [hinfo, hsig, hserial, hval, hatts, Res.deref_some, Res.ok_bind, Res.pure_eq,
    Res.then_eq_ok, Res.when_eq_ok, Res.guard_eq_ok, Option.getD_some, filledRecord]
  simp only [Res.bind_eq_ok, Res.ok.injEq, eq_comm (a := v')]

end Voms.L2
