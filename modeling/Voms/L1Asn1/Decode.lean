import Voms.L1Asn1.Types

/-!
# What `d2i_AC` leaves in memory

An attribute certificate as an ASN.1 value (`Der.Ac`: only the OPTIONAL
components of the syntax are optional) and the structure `d2i_AC` builds
from it.

The decoders are written with the `asn1_mac.h` macros over a structure the
matching `_new` function has filled first. A component that is absent from
the encoding therefore keeps what `_new` put there: `AC_HOLDER_new`
allocates `baseid`, `AC_INFO_new` allocates `form` and `exts`, while
`holder->name`, the digests, `baseid->uid` and `acinfo->id` start as NULL.
Mandatory components are always set, or the decoding fails as a whole.
-/
namespace Voms.L1

open Voms.Core

namespace Der

/-- `IssuerSerial` (RFC 3281 §4.1). -/
structure IssuerSerial where
  issuer : List GeneralName
  serial : Asn1Integer
  issuerUID : Option BitString
  deriving DecidableEq, Repr

/-- `ObjectDigestInfo`; `otherObjectTypeID` is not optional in the decoder. -/
structure ObjectDigestInfo where
  digestedObjectType : Asn1Integer
  otherObjectTypeID : Nat
  digestAlgorithm : X509Algor
  objectDigest : BitString
  deriving DecidableEq, Repr

/-- `Holder`. -/
structure Holder where
  baseCertificateID : Option IssuerSerial
  entityName : Option (List GeneralName)
  objectDigestInfo : Option ObjectDigestInfo
  deriving DecidableEq, Repr

/-- `V2Form`. -/
structure V2Form where
  issuerName : List GeneralName
  baseCertificateID : Option IssuerSerial
  objectDigestInfo : Option ObjectDigestInfo
  deriving DecidableEq, Repr

/-- `AttributeCertificateInfo`. -/
structure Info where
  version : Asn1Integer
  holder : Holder
  issuer : Option V2Form
  signature : X509Algor
  serialNumber : Asn1Integer
  notBefore : Asn1Time
  notAfter : Asn1Time
  attributes : List AcAttr
  issuerUniqueID : Option BitString
  extensions : Option (List X509Ext)
  deriving DecidableEq, Repr

/-- `AttributeCertificate`. -/
structure Ac where
  acinfo : Info
  signatureAlgorithm : X509Algor
  signatureValue : BitString
  deriving DecidableEq, Repr

end Der

/-- mirrors src/ac/newformat.c:257-267 -/
def d2iAcIs (d : Der.IssuerSerial) : AcIs := ⟨some d.issuer, some d.serial, d.issuerUID⟩

/-- mirrors src/ac/newformat.c:204-215 -/
def d2iAcDigest (d : Der.ObjectDigestInfo) : AcDigest :=
  ⟨d.digestedObjectType, some d.otherObjectTypeID, d.digestAlgorithm, d.objectDigest⟩

/-- mirrors src/ac/newformat.c:269-280 -/
def AcIs.new : AcIs := ⟨some [], some ⟨false, []⟩, none⟩

/-- `holder->name` receives the `GENERAL_NAMES` of the encoding although its
type is a stack of such stacks; each `GENERAL_NAME` stands where the type
says a stack is.
mirrors src/ac/newformat.c:358-381 -/
def d2iAcHolder (d : Der.Holder) : AcHolder :=
  { baseid := some ((d.baseCertificateID.map d2iAcIs).getD AcIs.new),
    name := d.entityName.map (·.map ([·])),
    digest := d.objectDigestInfo.map d2iAcDigest }

/-- mirrors src/ac/newformat.c:319-330 -/
def AcForm.new : AcForm := ⟨some [], none, none⟩

/-- mirrors src/ac/newformat.c:307-317 -/
def d2iAcForm (d : Der.V2Form) : AcForm :=
  ⟨some d.issuerName, d.baseCertificateID.map d2iAcIs, d.objectDigestInfo.map d2iAcDigest⟩

/-- mirrors src/ac/newformat.c:480-516 -/
def d2iAcInfo (d : Der.Info) : AcInfo :=
  { version := some d.version,
    holder := some (d2iAcHolder d.holder),
    form := some ((d.issuer.map d2iAcForm).getD AcForm.new),
    alg := some d.signature,
    serial := some d.serialNumber,
    validity := some ⟨some d.notBefore, some d.notAfter⟩,
    attrib := some d.attributes,
    id := d.issuerUniqueID,
    exts := some (d.extensions.getD []) }

/-- mirrors src/ac/newformat.c:550-573 -/
def d2iAc (d : Der.Ac) : Ac :=
  ⟨some (d2iAcInfo d.acinfo), some d.signatureAlgorithm, some d.signatureValue⟩

/-- The names `form->names` holds: empty when the issuer is absent. -/
def Der.Ac.formNames (d : Der.Ac) : List GeneralName :=
  (d.acinfo.issuer.map (·.issuerName)).getD []

theorem d2iAc_formNames (d : Der.Ac) :
    ((d.acinfo.issuer.map d2iAcForm).getD AcForm.new).names = some d.formNames := by
  unfold Der.Ac.formNames
  cases d.acinfo.issuer <;> rfl

end Voms.L1
