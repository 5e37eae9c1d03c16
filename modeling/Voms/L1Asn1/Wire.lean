import Voms.L1Asn1.Newformat

/-!
# The two models of `d2i_AC`

`Voms.L1.d2iAc` gives the structure in memory for an attribute certificate as
an ASN.1 value; `Newformat.d2iAc` is the decoder itself, member by member.
`d2iAc_wire`: on an encoding with the tags the decoder looks for, the decoder
gives that structure.
-/
namespace Voms.L1.Newformat

open Voms.Core Voms.Core.Tlv

variable (O : OpenSsl)

/-! ## Encodings -/

/-- `IssuerSerial`, with the unique identifier as a `BIT STRING`. -/
def wireIs (d : Der.IssuerSerial) : Body :=
  .cons [put O.generalNames (some d.issuer), put O.integer (some d.serial),
    putTagged (.universal 3) O.bitString d.issuerUID].flatten

def wireDigest (d : Der.ObjectDigestInfo) : Body :=
  .cons [put O.enumerated (some d.digestedObjectType), put O.oid (some d.otherObjectTypeID),
    put O.algor (some d.digestAlgorithm), put O.bitString (some d.objectDigest)].flatten

def wireForm (d : Der.V2Form) : Body :=
  .cons [put O.generalNames (some d.issuerName),
    member (.context 0) (wireIs O) d.baseCertificateID,
    member (.context 1) (wireDigest O) d.objectDigestInfo].flatten

def wireHolder (d : Der.Holder) : Body :=
  .cons [member (.context 0) (wireIs O) d.baseCertificateID,
    putTagged (.context 1) O.generalNames d.entityName,
    member (.context 2) (wireDigest O) d.objectDigestInfo].flatten

/-- An attribute, its set in the order of the list. -/
def wireAttr (a : AcAttr) : Item :=
  (.universal 16, .cons [put O.object (some a.type),
    putSet id (put (acIetfAttr O) ∘ some) (some a.ietfattr)].flatten)

def wireInfo (d : Der.Info) : Body :=
  .cons [put O.integer (some d.version), [(.universal 16, wireHolder O d.holder)],
    member (.context 0) (wireForm O) d.issuer, put O.algor (some d.signature),
    put O.integer (some d.serialNumber),
    put (acVal O) (some ⟨some d.notBefore, some d.notAfter⟩),
    [(.universal 16, .cons (d.attributes.map (wireAttr O)))],
    putTagged (.universal 3) O.bitString d.issuerUniqueID,
    putSeqOpt (put O.extension ∘ some) d.extensions].flatten

def wireAc (d : Der.Ac) : Item :=
  (.universal 16, .cons [[(.universal 16, wireInfo O d.acinfo)],
    put O.algor (some d.signatureAlgorithm), put O.bitString (some d.signatureValue)].flatten)

/-! ## What occurs in them -/

structure WireIsKept (d : Der.IssuerSerial) : Prop where
  issuer : O.generalNames.Keeps d.issuer
  serial : O.integer.Keeps d.serial
  uid : ∀ u, d.issuerUID = some u → O.bitString.Keeps u

structure WireDigestKept (d : Der.ObjectDigestInfo) : Prop where
  type : O.enumerated.Keeps d.digestedObjectType
  oid : O.oid.Keeps d.otherObjectTypeID
  algor : O.algor.Keeps d.digestAlgorithm
  digest : O.bitString.Keeps d.objectDigest

structure WireFormKept (d : Der.V2Form) : Prop where
  names : O.generalNames.Keeps d.issuerName
  is : ∀ is, d.baseCertificateID = some is → WireIsKept O is
  digest : ∀ x, d.objectDigestInfo = some x → WireDigestKept O x

structure WireHolderKept (d : Der.Holder) : Prop where
  baseid : ∀ is, d.baseCertificateID = some is → WireIsKept O is
  name : ∀ n, d.entityName = some n → O.generalNames.Keeps n
  digest : ∀ x, d.objectDigestInfo = some x → WireDigestKept O x

/-- The attributes are capabilities: no other can be read. -/
structure WireInfoKept (d : Der.Info) : Prop where
  version : O.integer.Keeps d.version
  holder : WireHolderKept O d.holder
  issuer : ∀ f, d.issuer = some f → WireFormKept O f
  signature : O.algor.Keeps d.signature
  serialNumber : O.integer.Keeps d.serialNumber
  notBefore : O.generalizedTime.Keeps d.notBefore
  notAfter : O.generalizedTime.Keeps d.notAfter
  attributes : ∀ a ∈ d.attributes, O.i2t a.type = some "idatcap".toList ∧ AttrKept O a
  uid : ∀ u, d.issuerUniqueID = some u → O.bitString.Keeps u
  extensions : ∀ e ∈ d.extensions.getD [], O.extension.Keeps e

structure WireKept (d : Der.Ac) : Prop where
  acinfo : WireInfoKept O d.acinfo
  signatureAlgorithm : O.algor.Keeps d.signatureAlgorithm
  signatureValue : O.bitString.Keeps d.signatureValue

/-! ## Reading them -/

variable {O}

theorem wireIs_read {d : Der.IssuerSerial} (h : WireIsKept O d) :
    Outcome ((acIs O).d2i (wireIs O d)) True (d2iAcIs d) := by
  simp only [acIs, wireIs, List.flatten_cons, List.flatten_nil]
  apply Outcome.congr
  · apply Reads.whole
    apply Reads.bind (Reads.must h.issuer)
    apply Reads.bind (Reads.must h.serial)
    apply Reads.bind (Reads.may h.uid notNext_nil)
    exact Reads.pure
  · simp

theorem wireDigest_read {d : Der.ObjectDigestInfo} (h : WireDigestKept O d) :
    Outcome ((acDigest O).d2i (wireDigest O d)) True (d2iAcDigest d) := by
  simp only [acDigest, wireDigest, List.flatten_cons, List.flatten_nil]
  apply Outcome.congr
  · apply Reads.whole
    apply Reads.bind (Reads.must h.type)
    apply Reads.bind (Reads.must h.oid)
    apply Reads.bind (Reads.must h.algor)
    apply Reads.bind (Reads.must h.digest)
    exact Reads.pure
  · simp

theorem wireForm_read {d : Der.V2Form} (h : WireFormKept O d) :
    Outcome ((acForm O).d2i (wireForm O d)) True (d2iAcForm d) := by
  simp only [acForm, wireForm, List.flatten_cons, List.flatten_nil]
  apply Outcome.congr
  · apply Reads.whole
    apply Reads.bind (Reads.must h.names)
    apply Reads.bind (Reads.tagged (fun x hx => wireIs_read (h.is x hx))
      (notNext_member (by decide) notNext_nil))
    apply Reads.bind (Reads.tagged (fun x hx => wireDigest_read (h.digest x hx)) notNext_nil)
    exact Reads.pure
  · simp

theorem wireHolder_read {d : Der.Holder} (h : WireHolderKept O d) :
    Outcome ((acHolder O).d2i (wireHolder O d)) True (d2iAcHolder d) := by
  simp only [acHolder, wireHolder, List.flatten_cons, List.flatten_nil]
  apply Outcome.congr
  · apply Reads.whole
    apply Reads.bind (Reads.tagged (fun x hx => wireIs_read (h.baseid x hx))
      (notNext_member (by decide) (notNext_member (by decide) notNext_nil)))
    apply Reads.bind (Reads.may h.name (notNext_member (by decide) notNext_nil))
    apply Reads.bind (Reads.tagged (fun x hx => wireDigest_read (h.digest x hx)) notNext_nil)
    exact Reads.pure
  · simp

/-- The set is read in the order it stands in. -/
theorem wireAttr_read {a : AcAttr} (h : AttrKept O a)
    (hcap : O.i2t a.type = some "idatcap".toList) : (acAttr O).element (wireAttr O a) = some a := by
  have hset := mapM_element fun i hi => (acIetfAttr_outcome (h.ietfattr i hi)).eq trivial
  unfold wireAttr
  rw [element_item]
  simp only [acAttr, List.flatten_cons, List.flatten_nil]
  apply Outcome.eq
  · apply Reads.whole
    apply Reads.bind (Reads.must h.type)
    apply Reads.bind (Reads.lift hcap)
    rw [if_pos rfl]
    apply Reads.bind (Reads.set (.of_eq hset))
    exact Reads.pure
  · simp

theorem wireInfo_read {d : Der.Info} (h : WireInfoKept O d) :
    Outcome ((acInfo O).d2i (wireInfo O d)) True (d2iAcInfo d) := by
  have hval : ValKept O ⟨some d.notBefore, some d.notAfter⟩ :=
    ⟨⟨_, rfl, h.notBefore⟩, ⟨_, rfl, h.notAfter⟩⟩
  have hatt : (d.attributes.map (wireAttr O)).mapM (acAttr O).element = some d.attributes :=
    mapM_map fun a ha => wireAttr_read (h.attributes a ha).2 (h.attributes a ha).1
  have hexts := mapM_element h.extensions
  simp only [acInfo, wireInfo, List.flatten_cons, List.flatten_nil]
  apply Outcome.congr
  · apply Reads.whole
    apply Reads.bind (Reads.must h.version)
    apply Reads.bind (Reads.get (wireHolder_read h.holder))
    apply Reads.bind (Reads.tagged (fun x hx => wireForm_read (h.issuer x hx))
      (notNext_member_some (by decide)))
    apply Reads.bind (Reads.must h.signature)
    apply Reads.bind (Reads.must h.serialNumber)
    apply Reads.bind (Reads.get (acVal_outcome hval))
    apply Reads.bind (Reads.list (.of_eq hatt))
    rw [List.append_nil]
    apply Reads.bind (Reads.may h.uid (notNext_putSeqOpt (by decide)))
    apply Reads.bind (Reads.seqOpt (.of_eq hexts))
    simp only [Reads.seqOpt_getD]
    exact Reads.pure
  · simp

/-- **The decoder gives the structure of `Voms.L1.d2iAc`.** -/
theorem d2iAc_wire {d : Der.Ac} (h : WireKept O d) :
    d2iAc O (wireAc O d) = some (L1.d2iAc d) := by
  unfold d2iAc wireAc
  rw [element_item]
  simp only [ac, List.flatten_cons, List.flatten_nil]
  apply Outcome.eq
  · apply Reads.whole
    apply Reads.bind (Reads.get (wireInfo_read h.acinfo))
    apply Reads.bind (Reads.must h.signatureAlgorithm)
    apply Reads.bind (Reads.must h.signatureValue)
    exact Reads.pure
  · simp

end Voms.L1.Newformat
