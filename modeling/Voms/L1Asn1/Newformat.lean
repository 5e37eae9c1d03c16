import Voms.Core.Tlv
import Voms.L1Asn1.Decode

/-!
# Writing and reading an attribute certificate

The `i2d` and `d2i` functions of `src/ac/newformat.c`, member by member. The
types that OpenSSL writes and reads itself are parameters (`OpenSsl`); what is
said about them is only that a value that occurs is read back as it was
written (`Leaves`).

`AC_IS` and `AC_INFO` write a unique identifier under the context tag 3 and
look for it under the universal one, so that nothing with a unique identifier
can be read back (`acIs_outcome`, `acInfo_outcome`). A holder without a
`baseCertificateID` is read back with the one `AC_HOLDER_new` allocated.
-/
namespace Voms.L1.Newformat

open Voms.Core Voms.Core.Tlv

/-- How OpenSSL writes and reads its own types. `objectString` is an object
identifier behind an `AC_IETFATTRVAL` pointer; `i2t` is `i2t_ASN1_OBJECT`, NULL
where it returns 0, and `idatcap` has been registered under that name;
`sortSet` is the order of a `SET OF`. -/
structure OpenSsl where
  integer : Codec (.universal 2) Asn1Integer
  bitString : Codec (.universal 3) BitString
  octetString : Codec (.universal 4) Str
  objectString : Codec (.universal 6) Str
  object : Codec (.universal 6) AttrType
  oid : Codec (.universal 6) Nat
  enumerated : Codec (.universal 10) Asn1Integer
  utf8String : Codec (.universal 12) Str
  algor : Codec (.universal 16) X509Algor
  generalNames : Codec (.universal 16) (List GeneralName)
  extension : Codec (.universal 16) X509Ext
  generalizedTime : Codec (.universal 24) Asn1Time
  i2t : AttrType → Option Str
  i2t_idatcap : i2t .idatcap = some "idatcap".toList
  sortSet : List Item → List Item
  sortSet_perm : ∀ items, (sortSet items).Perm items

variable (O : OpenSsl)

/-! ## The functions -/

/-- mirrors src/ac/newformat.c:154-162 -/
def i2dAcIetfAttrVal : AcIetfAttrVal → Item
  | .octets d => (.universal 4, O.octetString.i2d d)
  | .object d => (.universal 6, O.objectString.i2d d)
  | .utf8 d => (.universal 12, O.utf8String.i2d d)

/-- mirrors src/ac/newformat.c:164-176 -/
def d2iAcIetfAttrVal : Item → Option AcIetfAttrVal
  | (.universal 4, b) => (O.octetString.d2i b).map .octets
  | (.universal 6, b) => (O.objectString.d2i b).map .object
  | (.universal 12, b) => (O.utf8String.d2i b).map .utf8
  | _ => none

/-- mirrors src/ac/newformat.c:109-130 -/
def acIetfAttr : Codec (.universal 16) AcIetfAttr where
  i2d a := .cons [putTagged (.context 0) O.generalNames (some a.names),
    putSeq (fun v => [i2dAcIetfAttrVal O v]) (some a.values)].flatten
  d2i := sequence do
    let names ← getTagged (.context 0) O.generalNames
    let values ← getSeq (d2iAcIetfAttrVal O)
    pure ⟨names.getD [], values⟩

/-- The bodies of `i2d_AC_ATTR` and `d2i_AC_ATTR`.
mirrors src/ac/newformat.c:59-65, 69-86 -/
def acAttr : Codec (.universal 16) AcAttr where
  i2d a := .cons [put O.object (some a.type),
    putSet O.sortSet (put (acIetfAttr O) ∘ some) (some a.ietfattr)].flatten
  d2i := sequence do
    let type ← get O.object
    let text ← StateT.lift (O.i2t type)
    if text = "idatcap".toList then
      let ietfattr ← getSet (acIetfAttr O).element
      pure ⟨type, ietfattr⟩
    else pure ⟨type, []⟩

/-- Only these types are written at all.
mirrors src/ac/newformat.c:50-58 -/
def i2dAcAttr (a : AcAttr) : List Item :=
  if O.i2t a.type = some "idacagroup".toList ∨ O.i2t a.type = some "idatcap".toList then
    put (acAttr O) (some a)
  else []

/-- mirrors src/ac/newformat.c:188-215 -/
def acDigest : Codec (.universal 16) AcDigest where
  i2d a := .cons [put O.enumerated (some a.type), put O.oid a.oid, put O.algor (some a.algor),
    put O.bitString (some a.digest)].flatten
  d2i := sequence do
    let type ← get O.enumerated
    let oid ← get O.oid
    let algor ← get O.algor
    let digest ← get O.bitString
    pure ⟨type, some oid, algor, digest⟩

/-- The unique identifier is written under `[3]` and looked for as a
`BIT STRING`.
mirrors src/ac/newformat.c:243-267 -/
def acIs : Codec (.universal 16) AcIs where
  i2d a := .cons [put O.generalNames a.issuer, put O.integer a.serial,
    putTagged (.context 3) O.bitString a.uid].flatten
  d2i := sequence do
    let issuer ← get O.generalNames
    let serial ← get O.integer
    let uid ← getTagged (.universal 3) O.bitString
    pure ⟨some issuer, some serial, uid⟩

/-- mirrors src/ac/newformat.c:292-317 -/
def acForm : Codec (.universal 16) AcForm where
  i2d a := .cons [put O.generalNames a.names, putTagged (.context 0) (acIs O) a.is,
    putTagged (.context 1) (acDigest O) a.digest].flatten
  d2i := sequence do
    let names ← get O.generalNames
    let is ← getTagged (.context 0) (acIs O)
    let digest ← getTagged (.context 1) (acDigest O)
    pure ⟨some names, is, digest⟩

/-- `holder->name` is written and read as one `GENERAL_NAMES`.
mirrors src/ac/newformat.c:343-381 -/
def acHolder : Codec (.universal 16) AcHolder where
  i2d a := .cons [putTagged (.context 0) (acIs O) a.baseid,
    putTagged (.context 1) O.generalNames (a.name.map List.flatten),
    putTagged (.context 2) (acDigest O) a.digest].flatten
  d2i := sequence do
    let baseid ← getTagged (.context 0) (acIs O)
    let name ← getTagged (.context 1) O.generalNames
    let digest ← getTagged (.context 2) (acDigest O)
    pure ⟨some (baseid.getD AcIs.new), name.map (·.map ([·])), digest⟩

/-- mirrors src/ac/newformat.c:410-437 -/
def acVal : Codec (.universal 16) AcVal where
  i2d a := .cons [put O.generalizedTime a.notBefore, put O.generalizedTime a.notAfter].flatten
  d2i := sequence do
    let notBefore ← get O.generalizedTime
    let notAfter ← get O.generalizedTime
    pure ⟨some notBefore, some notAfter⟩

/-- The unique identifier is written under `[3]` and looked for as a
`BIT STRING`.
mirrors src/ac/newformat.c:453-516 -/
def acInfo : Codec (.universal 16) AcInfo where
  i2d a := .cons [put O.integer a.version, put (acHolder O) a.holder,
    putTagged (.context 0) (acForm O) a.form, put O.algor a.alg, put O.integer a.serial,
    put (acVal O) a.validity, putSeq (i2dAcAttr O) a.attrib,
    putTagged (.context 3) O.bitString a.id,
    putSeqOpt (put O.extension ∘ some) a.exts].flatten
  d2i := sequence do
    let version ← get O.integer
    let holder ← get (acHolder O)
    let form ← getTagged (.context 0) (acForm O)
    let alg ← get O.algor
    let serial ← get O.integer
    let validity ← get (acVal O)
    let attrib ← getSeq (acAttr O).element
    let id ← getTagged (.universal 3) O.bitString
    let exts ← getSeqOpt O.extension.element
    pure { version := some version, holder := some holder,
           form := some (form.getD AcForm.new), alg := some alg, serial := some serial,
           validity := some validity, attrib := some attrib, id := id,
           exts := some (exts.getD []) }

/-- `i2d_AC` and `d2i_AC`. mirrors src/ac/newformat.c:533-560 -/
def ac : Codec (.universal 16) Ac where
  i2d a := .cons [put (acInfo O) a.acinfo, put O.algor a.sigAlg,
    put O.bitString a.signature].flatten
  d2i := sequence do
    let acinfo ← get (acInfo O)
    let sigAlg ← get O.algor
    let signature ← get O.bitString
    pure ⟨some acinfo, some sigAlg, some signature⟩

/-- `i2d_AC`. -/
def i2dAc (a : Ac) : Item := (.universal 16, (ac O).i2d a)

/-- `d2i_AC`. -/
def d2iAc : Item → Option Ac := (ac O).element

/-! ## What occurs in an attribute certificate -/

/-- The members that must be there are, and OpenSSL reads back what it wrote. -/
structure IsKept (a : AcIs) : Prop where
  issuer : O.generalNames.Has a.issuer
  serial : O.integer.Has a.serial

structure DigestKept (a : AcDigest) : Prop where
  type : O.enumerated.Keeps a.type
  oid : ∀ oid, a.oid = some oid → O.oid.Keeps oid
  algor : O.algor.Keeps a.algor
  digest : O.bitString.Keeps a.digest

structure FormKept (a : AcForm) : Prop where
  names : O.generalNames.Has a.names
  is : ∀ is, a.is = some is → IsKept O is
  digest : ∀ d, a.digest = some d → DigestKept O d

/-- `name` holds what the functions read there, a `GENERAL_NAMES`. -/
structure HolderKept (a : AcHolder) : Prop where
  baseid : ∀ is, a.baseid = some is → IsKept O is
  name : ∀ n, a.name = some n → ∃ names, n = names.map ([·]) ∧ O.generalNames.Keeps names
  digest : ∀ d, a.digest = some d → DigestKept O d

structure ValKept (a : AcVal) : Prop where
  notBefore : O.generalizedTime.Has a.notBefore
  notAfter : O.generalizedTime.Has a.notAfter

def ValueKept : AcIetfAttrVal → Prop
  | .octets d => O.octetString.Keeps d
  | .object d => O.objectString.Keeps d
  | .utf8 d => O.utf8String.Keeps d

structure IetfAttrKept (a : AcIetfAttr) : Prop where
  names : O.generalNames.Keeps a.names
  values : ∀ v ∈ a.values, ValueKept O v

structure AttrKept (a : AcAttr) : Prop where
  type : O.object.Keeps a.type
  ietfattr : ∀ i ∈ a.ietfattr, IetfAttrKept O i

structure InfoKept (a : AcInfo) : Prop where
  version : O.integer.Has a.version
  holder : ∃ h, a.holder = some h ∧ HolderKept O h
  form : ∀ f, a.form = some f → FormKept O f
  alg : O.algor.Has a.alg
  serial : O.integer.Has a.serial
  validity : ∃ v, a.validity = some v ∧ ValKept O v
  attrib : ∃ l, a.attrib = some l ∧ ∀ x ∈ l, AttrKept O x
  exts : ∀ e ∈ a.exts.getD [], O.extension.Keeps e

structure AcKept (a : Ac) : Prop where
  acinfo : ∃ i, a.acinfo = some i ∧ InfoKept O i
  sigAlg : O.algor.Has a.sigAlg
  signature : O.bitString.Has a.signature

/-! ## What is read back -/

variable {O}

theorem acDigest_outcome {a : AcDigest} (h : DigestKept O a) :
    Outcome ((acDigest O).d2i ((acDigest O).i2d a)) (a.oid ≠ none) a := by
  obtain ⟨type, oid, algor, digest⟩ := a
  simp only [acDigest, List.flatten_cons, List.flatten_nil]
  cases oid with
  | none =>
    -- the algorithm stands where the object identifier is looked for
    have halgor : NotNext (.universal 6) (put O.algor (some algor) ++
        (put O.bitString (some digest) ++ [])) := notNext_member_some (by decide)
    apply Outcome.congr
    · apply Reads.whole
      apply Reads.bind (Reads.must h.type)
      exact Reads.absent halgor
    · simp
  | some oid =>
    apply Outcome.congr
    · apply Reads.whole
      apply Reads.bind (Reads.must h.type)
      apply Reads.bind (Reads.must (h.oid oid rfl))
      apply Reads.bind (Reads.must h.algor)
      apply Reads.bind (Reads.must h.digest)
      exact Reads.pure
    · simp

theorem acIs_outcome {a : AcIs} (h : IsKept O a) :
    Outcome ((acIs O).d2i ((acIs O).i2d a)) (a.uid = none) a := by
  obtain ⟨issuer, serial, uid⟩ := a
  obtain ⟨i, rfl, hi⟩ := h.issuer
  obtain ⟨s, rfl, hs⟩ := h.serial
  simp only [acIs, List.flatten_cons, List.flatten_nil]
  cases uid with
  | none =>
    apply Outcome.congr
    · apply Reads.whole
      apply Reads.bind (Reads.must hi)
      apply Reads.bind (Reads.must hs)
      apply Reads.bind (Reads.skip notNext_nil)
      exact Reads.pure
    · simp
  | some u =>
    -- the unique identifier is left
    refine ⟨fun hc => (nomatch hc), fun _ => ?_⟩
    apply Reads.left
    · apply Reads.bind (Reads.must hi)
      apply Reads.bind (Reads.must hs)
      apply Reads.bind (Reads.skip (notNext_member (by decide) notNext_nil))
      exact Reads.pure
    · exact List.cons_ne_nil _ _

/-- A form is read back if what it may hold is. -/
def FormReads (a : AcForm) : Prop :=
  (∀ is, a.is = some is → is.uid = none) ∧ ∀ d, a.digest = some d → d.oid ≠ none

theorem acForm_outcome {a : AcForm} (h : FormKept O a) :
    Outcome ((acForm O).d2i ((acForm O).i2d a)) (FormReads a) a := by
  obtain ⟨names, is, digest⟩ := a
  obtain ⟨n, rfl, hn⟩ := h.names
  simp only [acForm, List.flatten_cons, List.flatten_nil]
  apply Outcome.congr
  · apply Reads.whole
    apply Reads.bind (Reads.must hn)
    apply Reads.bind (Reads.tagged (fun x hx => acIs_outcome (h.is x hx))
      (notNext_member (by decide) notNext_nil))
    apply Reads.bind (Reads.tagged (fun x hx => acDigest_outcome (h.digest x hx)) notNext_nil)
    simp only [Option.map_id']
    exact Reads.pure
  · simp [FormReads]

/-- The holder `d2i_AC_HOLDER` gives: `AC_HOLDER_new` allocated `baseid`. -/
def readHolder (a : AcHolder) : AcHolder := { a with baseid := some (a.baseid.getD AcIs.new) }

/-- A holder is read at all if what it may hold is. -/
def HolderReads (a : AcHolder) : Prop :=
  (∀ is, a.baseid = some is → is.uid = none) ∧ ∀ d, a.digest = some d → d.oid ≠ none

/-- What `i2d_GENERAL_NAMES` reads in `holder->name`. -/
theorem flatten_singletons (names : List GeneralName) : (names.map ([·])).flatten = names := by
  induction names with
  | nil => rfl
  | cons g names ih => rw [List.map_cons, List.flatten_cons, ih, List.singleton_append]

theorem acHolder_outcome {a : AcHolder} (h : HolderKept O a) :
    Outcome ((acHolder O).d2i ((acHolder O).i2d a)) (HolderReads a) (readHolder a) := by
  obtain ⟨baseid, name, digest⟩ := a
  have hname : ∀ n, name.map List.flatten = some n → O.generalNames.Keeps n := by
    intro n hn
    obtain ⟨m, rfl, rfl⟩ := Option.map_eq_some_iff.mp hn
    obtain ⟨names, rfl, hk⟩ := h.name m rfl
    rw [flatten_singletons]
    exact hk
  have hback : (name.map List.flatten).map (·.map ([·])) = name := by
    cases name with
    | none => rfl
    | some m =>
      obtain ⟨names, rfl, _⟩ := h.name m rfl
      rw [Option.map_some, flatten_singletons, Option.map_some]
  simp only [acHolder, List.flatten_cons, List.flatten_nil]
  apply Outcome.congr
  · apply Reads.whole
    apply Reads.bind (Reads.tagged (fun x hx => acIs_outcome (h.baseid x hx))
      (notNext_member (by decide) (notNext_member (by decide) notNext_nil)))
    apply Reads.bind (Reads.may hname (notNext_member (by decide) notNext_nil))
    apply Reads.bind (Reads.tagged (fun x hx => acDigest_outcome (h.digest x hx)) notNext_nil)
    simp only [Option.map_id', hback]
    exact Reads.pure
  · simp [HolderReads]

theorem acVal_outcome {a : AcVal} (h : ValKept O a) :
    Outcome ((acVal O).d2i ((acVal O).i2d a)) True a := by
  obtain ⟨notBefore, notAfter⟩ := a
  obtain ⟨b, rfl, hb⟩ := h.notBefore
  obtain ⟨e, rfl, he⟩ := h.notAfter
  simp only [acVal, List.flatten_cons, List.flatten_nil]
  apply Outcome.congr
  · apply Reads.whole
    apply Reads.bind (Reads.must hb)
    apply Reads.bind (Reads.must he)
    exact Reads.pure
  · simp

/-! ## Attributes -/

theorem acIetfAttrVal_kept {v : AcIetfAttrVal} (h : ValueKept O v) :
    d2iAcIetfAttrVal O (i2dAcIetfAttrVal O v) = some v := by
  cases v with
  | octets d =>
    have hd : O.octetString.d2i (O.octetString.i2d d) = some d := h
    simp only [i2dAcIetfAttrVal, d2iAcIetfAttrVal, hd, Option.map_some]
  | object d =>
    have hd : O.objectString.d2i (O.objectString.i2d d) = some d := h
    simp only [i2dAcIetfAttrVal, d2iAcIetfAttrVal, hd, Option.map_some]
  | utf8 d =>
    have hd : O.utf8String.d2i (O.utf8String.i2d d) = some d := h
    simp only [i2dAcIetfAttrVal, d2iAcIetfAttrVal, hd, Option.map_some]

theorem acIetfAttr_outcome {a : AcIetfAttr} (h : IetfAttrKept O a) :
    Outcome ((acIetfAttr O).d2i ((acIetfAttr O).i2d a)) True a := by
  obtain ⟨names, values⟩ := a
  have hnames : ∀ n, some names = some n → O.generalNames.Keeps n := by
    intro n hn
    obtain rfl : names = n := Option.some.inj hn
    exact h.names
  have hvalues : Outcome ((values.flatMap fun v => [i2dAcIetfAttrVal O v]).mapM
      (d2iAcIetfAttrVal O)) True values := by
    rw [← List.map_eq_flatMap]
    exact .of_eq (mapM_map fun v hv => acIetfAttrVal_kept (h.values v hv))
  simp only [acIetfAttr, List.flatten_cons, List.flatten_nil]
  apply Outcome.congr
  · apply Reads.whole
    apply Reads.bind (Reads.may hnames (by simp [putSeq]))
    apply Reads.bind (Reads.seq hvalues)
    exact Reads.pure
  · simp

/-- The elements of the set come back in the order they were written in. -/
theorem ietfattr_outcome {l : List AcIetfAttr} (h : ∀ i ∈ l, IetfAttrKept O i) :
    ∃ l', l'.Perm l ∧ Outcome ((O.sortSet (l.flatMap (put (acIetfAttr O) ∘ some))).mapM
      (acIetfAttr O).element) True l' := by
  have hsort := O.sortSet_perm (l.flatMap (put (acIetfAttr O) ∘ some))
  rw [flatMap_put] at hsort ⊢
  have hread : ∀ i ∈ l, (acIetfAttr O).element (.universal 16, (acIetfAttr O).i2d i) = some i := by
    intro i hi
    rw [element_item, (acIetfAttr_outcome (h i hi)).eq trivial]
  obtain ⟨l', hperm, hl'⟩ := mapM_perm hread hsort
  exact ⟨l', hperm, .of_eq hl'⟩

/-- An attribute that is written is read back if it is `idatcap`; the set of
any other is left. -/
theorem acAttr_outcome {a : AcAttr} {text : Str} (h : AttrKept O a) (ht : O.i2t a.type = some text) :
    ∃ l', l'.Perm a.ietfattr ∧
      Outcome ((acAttr O).d2i ((acAttr O).i2d a)) (text = "idatcap".toList) ⟨a.type, l'⟩ := by
  obtain ⟨type, ietfattr⟩ := a
  obtain ⟨l', hperm, hl'⟩ := ietfattr_outcome h.ietfattr
  refine ⟨l', hperm, ?_⟩
  simp only [acAttr, List.flatten_cons, List.flatten_nil]
  by_cases hcap : text = "idatcap".toList
  · apply Outcome.congr
    · apply Reads.whole
      apply Reads.bind (Reads.must h.type)
      apply Reads.bind (Reads.lift ht)
      rw [if_pos hcap]
      apply Reads.bind (Reads.set hl')
      exact Reads.pure
    · simp [hcap]
  · refine ⟨fun hc => absurd hc hcap, fun _ => ?_⟩
    apply Reads.left
    · apply Reads.bind (Reads.must h.type)
      apply Reads.bind (Reads.lift ht)
      rw [if_neg hcap]
      exact Reads.pure
    · exact List.cons_ne_nil _ _

theorem perm_of_short {l l' : List AcIetfAttr} (h : l'.Perm l) (hlen : l.length ≤ 1) : l' = l := by
  match l, hlen with
  | [], _ => exact h.eq_nil
  | [i], _ => exact List.perm_singleton.mp h

/-- The attributes are read back unless one is of the type that is written
and not read. -/
def AttrsRead (O : OpenSsl) (l : List AcAttr) : Prop :=
  ∀ a ∈ l, O.i2t a.type ≠ some "idacagroup".toList

/-- Capabilities with at most one value: nothing is dropped or moved. -/
def Plain (O : OpenSsl) (l : List AcAttr) : Prop :=
  ∀ a ∈ l, O.i2t a.type = some "idatcap".toList ∧ a.ietfattr.length ≤ 1

theorem attrib_outcome {l : List AcAttr} (h : ∀ a ∈ l, AttrKept O a) :
    ∃ l', (Plain O l → l' = l) ∧
      Outcome ((l.flatMap (i2dAcAttr O)).mapM (acAttr O).element) (AttrsRead O l) l' := by
  unfold AttrsRead Plain
  induction l with
  | nil => exact ⟨[], fun _ => rfl, .congr (.of_eq rfl) (by simp)⟩
  | cons a l ih =>
    obtain ⟨l', hsame, hl'⟩ := ih fun b hb => h b (List.mem_cons_of_mem _ hb)
    rw [List.flatMap_cons]
    by_cases hw : O.i2t a.type = some "idacagroup".toList ∨ O.i2t a.type = some "idatcap".toList
    · obtain ⟨text, ht⟩ : ∃ text, O.i2t a.type = some text := by
        rcases hw with hw | hw
        · exact ⟨_, hw⟩
        · exact ⟨_, hw⟩
      obtain ⟨s, hperm, hs⟩ := acAttr_outcome (h a (List.mem_cons_self ..)) ht
      have helem : Outcome ((acAttr O).element (.universal 16, (acAttr O).i2d a))
          (text = "idatcap".toList) ⟨a.type, s⟩ := by
        rw [element_item]
        exact hs
      have hitem : i2dAcAttr O a = [(.universal 16, (acAttr O).i2d a)] := if_pos hw
      have htext : text = "idatcap".toList ↔ O.i2t a.type ≠ some "idacagroup".toList := by
        rw [ht] at hw ⊢
        rw [Option.some.injEq, Option.some.injEq] at hw
        rw [Ne, Option.some.injEq]
        refine ⟨fun hc hg => ?_, hw.resolve_left⟩
        rw [hc] at hg
        exact absurd hg (by decide)
      rw [hitem]
      refine ⟨⟨a.type, s⟩ :: l', fun hplain => ?_, (helem.cons hl').congr ?_⟩
      · have ha := hplain a (List.mem_cons_self ..)
        rw [hsame fun b hb => hplain b (List.mem_cons_of_mem _ hb), perm_of_short hperm ha.2]
      · rw [List.forall_mem_cons, htext]
    · have hitem : i2dAcAttr O a = [] := if_neg hw
      rw [hitem]
      refine ⟨l', fun hplain => ?_, hl'.congr ?_⟩
      · exact absurd (.inr (hplain a (List.mem_cons_self ..)).1) hw
      · rw [List.forall_mem_cons]
        exact ⟨fun hl => ⟨fun hg => hw (.inl hg), hl⟩, fun hl => hl.2⟩

/-! ## The certificate -/

/-- The certificate is read at all if its parts are and it has no unique
identifier. -/
def InfoReads (O : OpenSsl) (a : AcInfo) : Prop :=
  (∀ h, a.holder = some h → HolderReads h) ∧ (∀ f, a.form = some f → FormReads f) ∧
    (∀ l, a.attrib = some l → AttrsRead O l) ∧ a.id = none

/-- What `d2i_AC_INFO` gives: the members that `AC_INFO_new` allocated are
there. -/
def readInfo (a : AcInfo) (attrib : List AcAttr) : AcInfo :=
  { a with holder := a.holder.map readHolder, form := some (a.form.getD AcForm.new),
           attrib := some attrib, exts := some (a.exts.getD []) }

theorem acInfo_outcome {a : AcInfo} (h : InfoKept O a) :
    ∃ l', (∀ l, a.attrib = some l → Plain O l → l' = l) ∧
      Outcome ((acInfo O).d2i ((acInfo O).i2d a)) (InfoReads O a) (readInfo a l') := by
  obtain ⟨version, holder, form, alg, serial, validity, attrib, id, exts⟩ := a
  obtain ⟨ver, rfl, hver⟩ := h.version
  obtain ⟨hol, rfl, hhol⟩ := h.holder
  obtain ⟨al, rfl, hal⟩ := h.alg
  obtain ⟨ser, rfl, hser⟩ := h.serial
  obtain ⟨val, rfl, hval⟩ := h.validity
  obtain ⟨att, rfl, hatt⟩ := h.attrib
  obtain ⟨l', hsame, hl'⟩ := attrib_outcome hatt
  have hexts := mapM_element h.exts
  refine ⟨l', fun l hl => Option.some.inj hl ▸ hsame, ?_⟩
  simp only [acInfo, List.flatten_cons, List.flatten_nil]
  cases id with
  | none =>
    apply Outcome.congr
    · apply Reads.whole
      apply Reads.bind (Reads.must hver)
      apply Reads.bind (Reads.get (acHolder_outcome hhol))
      apply Reads.bind (Reads.tagged (fun x hx => acForm_outcome (h.form x hx))
        (notNext_member_some (by decide)))
      apply Reads.bind (Reads.must hal)
      apply Reads.bind (Reads.must hser)
      apply Reads.bind (Reads.get (acVal_outcome hval))
      apply Reads.bind (Reads.seq hl')
      simp only [member_none, List.append_nil]
      apply Reads.bind (Reads.skip (notNext_putSeqOpt (by decide)))
      apply Reads.bind (Reads.seqOpt (.of_eq hexts))
      simp only [Option.map_id', Reads.seqOpt_getD]
      exact Reads.pure
    · simp [InfoReads]
  | some u =>
    -- the unique identifier is left, and the extensions behind it
    refine ⟨fun hc => absurd hc.2.2.2 (Option.some_ne_none u), fun _ => ?_⟩
    apply Reads.left
    · apply Reads.bind (Reads.must hver)
      apply Reads.bind (Reads.get (acHolder_outcome hhol))
      apply Reads.bind (Reads.tagged (fun x hx => acForm_outcome (h.form x hx))
        (notNext_member_some (by decide)))
      apply Reads.bind (Reads.must hal)
      apply Reads.bind (Reads.must hser)
      apply Reads.bind (Reads.get (acVal_outcome hval))
      apply Reads.bind (Reads.seq hl')
      apply Reads.bind (Reads.skip (notNext_member_some (by decide)))
      apply Reads.bind (Reads.seqOpt_skip (notNext_member_some (by decide)))
      exact Reads.pure
    · exact List.cons_ne_nil _ _

/-- **What `d2i_AC` makes of what `i2d_AC` wrote.** -/
theorem ac_outcome {a : Ac} {i : AcInfo} (h : AcKept O a) (hi : a.acinfo = some i) :
    ∃ l', (∀ l, i.attrib = some l → Plain O l → l' = l) ∧
      Outcome (d2iAc O (i2dAc O a)) (InfoReads O i) { a with acinfo := some (readInfo i l') } := by
  obtain ⟨acinfo, sigAlg, signature⟩ := a
  obtain rfl : acinfo = some i := hi
  obtain ⟨j, hj, hinfo⟩ := h.acinfo
  obtain rfl : i = j := Option.some.inj hj
  obtain ⟨al, rfl, hal⟩ := h.sigAlg
  obtain ⟨si, rfl, hsi⟩ := h.signature
  obtain ⟨l', hsame, hl'⟩ := acInfo_outcome hinfo
  refine ⟨l', hsame, ?_⟩
  unfold d2iAc i2dAc
  rw [element_item]
  simp only [ac, List.flatten_cons, List.flatten_nil]
  apply Outcome.congr
  · apply Reads.whole
    apply Reads.bind (Reads.get hl')
    apply Reads.bind (Reads.must hal)
    apply Reads.bind (Reads.must hsi)
    exact Reads.pure
  · simp

end Voms.L1.Newformat
