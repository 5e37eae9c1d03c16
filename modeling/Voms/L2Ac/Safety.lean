import Voms.L2Ac.Validate

/-!
# Which attribute certificates `validate` can read

The AC comes from outside. `validate` tests most of what it reads, but not

* the form of the issuer name, and the issuer certificate itself under
  `VERIFY_ID`, when it is called without an issuer certificate;
* the grantor of a list of generic attributes;
* the issuer and serial of a key identifier without `keyid`;
* that an FQAN is not an object identifier.

`never_validate` says exactly when a decoded AC makes it dereference NULL or
read the wrong member of a union: `Started`, `NamesPassed` and
`CriticalPassed` are the tests it makes before.
-/
namespace Voms.L2

open Voms.Core Voms.L1

/-- A dereference of NULL, or a read of the wrong member of a union. -/
def BadRead : Fault → Prop
  | .nullDeref | .badChoice => True
  | _ => False

@[simp] theorem badRead_nullDeref : BadRead .nullDeref := trivial
@[simp] theorem badRead_badChoice : BadRead .badChoice := trivial
@[simp] theorem not_badRead_diverge : ¬ BadRead .diverge := id

variable {ε α : Type}

@[simp] theorem never_CHECK {p : Option α} : Res.Never BadRead (CHECK p) := Res.never_require

@[simp] theorem never_deref_iff {p : Option α} :
    Res.Never BadRead (Res.deref p : Res ε α) ↔ p ≠ none := Res.never_deref trivial

/-! ## Fields, signature, names -/

theorem never_checkFields (ac : Ac) : Res.Never BadRead (checkFields ac) := by
  simp [checkFields, NCHECK, Res.never_bind]

theorem never_checkSignature (W : World) (issuer : Option X509) (ac : Ac) :
    Res.Never BadRead (checkSignature W issuer ac) := by
  simp [checkSignature, Res.never_bind]

/-- The first name of a list is a directoryName. -/
def FirstIsDirName (names : List GeneralName) : Prop :=
  ∃ g, names.head? = some g ∧ g.isDirName = true

theorem never_headDirn {names : List GeneralName} {f : X509Name → Res ε α}
    (hf : ∀ dn, Res.Never BadRead (f dn)) :
    Res.Never BadRead (Res.deref names.head? >>= fun name => name.dirn >>= f) ↔
      FirstIsDirName names := by
  unfold FirstIsDirName
  cases names.head? with
  | none => simp
  | some g => simp [Res.never_bind, GeneralName.never_dirn, hf]

theorem fillSignature_d2i (W : World) (wire : Der.Ac) (v : VomsRecord) :
    ∃ v', fillSignature W (d2iAc wire) v = .ok v' ∧ v'.attributes = v.attributes := ⟨_, rfl, rfl⟩

theorem never_fillUser (valids : VerifyType) (cert : Option X509) (v : VomsRecord) :
    Res.Never BadRead (fillUser valids cert v) := by
  cases cert <;> simp [fillUser, Res.never_bind]

theorem fillUser_ok {valids : VerifyType} {cert : Option X509} {v : VomsRecord} :
    (∃ v', fillUser valids cert v = .ok v') ↔ (cert = none → ¬ has valids VERIFY_ID) := by
  cases cert <;> simp [fillUser, Res.then_eq_ok]

theorem fillUser_attributes {valids : VerifyType} {cert : Option X509} {v v' : VomsRecord}
    (h : fillUser valids cert v = .ok v') : v'.attributes = v.attributes := by
  cases cert with
  | some c =>
    cases h
    rfl
  | none =>
    obtain ⟨-, h⟩ := Res.then_eq_ok.mp h
    cases h
    rfl

theorem never_fillServer {issuer : Option X509} {wire : Der.Ac} {v : VomsRecord} :
    Res.Never BadRead (fillServer issuer (d2iAc wire) v) ↔
      (issuer = none → FirstIsDirName wire.formNames) := by
  unfold fillServer
  cases issuer with
  | some i => simp
  | none =>
    simp only [d2iAc, d2iAcInfo, Res.deref_some, Res.ok_bind, d2iAc_formNames, Option.getD_some,
      forall_const]
    exact never_headDirn fun dn => Res.never_ok _

theorem fillServer_attributes {issuer : Option X509} {ac : Ac} {v v' : VomsRecord}
    (h : fillServer issuer ac v = .ok v') : v'.attributes = v.attributes := by
  cases issuer with
  | some i =>
    cases h
    rfl
  | none =>
    obtain ⟨info, -, h⟩ := Res.bind_eq_ok.mp h
    obtain ⟨form, -, h⟩ := Res.bind_eq_ok.mp h
    obtain ⟨name, -, h⟩ := Res.bind_eq_ok.mp h
    obtain ⟨dn, -, h⟩ := Res.bind_eq_ok.mp h
    cases h
    rfl

theorem fillServer_ok {issuer : Option X509} {wire : Der.Ac} {v : VomsRecord}
    (h : issuer = none → FirstIsDirName wire.formNames) :
    ∃ v', fillServer issuer (d2iAc wire) v = .ok v' := by
  unfold fillServer
  cases issuer with
  | some i => exact ⟨_, rfl⟩
  | none =>
    obtain ⟨g, hg, hdir⟩ := h rfl
    obtain ⟨dn, rfl⟩ := GeneralName.isDirName_iff.mp hdir
    simp [d2iAc, d2iAcInfo, d2iAc_formNames, hg, GeneralName.dirn]

theorem never_checkBaseId (baseid : AcIs) (cert : X509) :
    Res.Never BadRead (checkBaseId baseid cert) := by
  unfold checkBaseId
  simp only [Res.never_bind, never_CHECK, Res.never_guard, Res.never_require, true_and]
  intro serial _ names _ _ _ _ _ name _ _ hdir
  refine ⟨(GeneralName.never_dirn trivial).mpr (Res.guard_eq_ok.mp hdir), fun dn _ _ _ _ huid => ?_⟩
  have hsome := Res.guard_eq_ok.mp huid
  cases hbase : baseid.uid with
  | none => simp
  | some uid =>
    rw [hbase] at hsome
    cases hc : cert.issuerUID with
    | none => simp [hc] at hsome
    | some w => simp

theorem never_checkHolder (holder : Der.Holder) (cert : X509) :
    Res.Never BadRead (checkHolder (d2iAcHolder holder) cert) := by
  unfold checkHolder
  simp only [d2iAcHolder]
  exact never_checkBaseId _ _

/-- A single directoryName. -/
def SingleDirName (names : List GeneralName) : Prop := ∃ dn, names = [.dirName dn]

theorem never_checkIssuerName {valids : VerifyType} {issuer : Option X509} {wire : Der.Ac} :
    Res.Never BadRead (checkIssuerName valids issuer (d2iAcInfo wire.acinfo)) ↔
      (has valids VERIFY_ID → SingleDirName wire.formNames → issuer ≠ none) := by
  unfold checkIssuerName SingleDirName
  simp only [d2iAcInfo, Res.deref_some, Res.ok_bind, d2iAc_formNames, Option.getD_some,
    Res.never_bind, Res.never_guard, Res.never_require, Res.never_when, true_and]
  constructor
  · intro h hid hsingle
    obtain ⟨dn, hnames⟩ := hsingle
    rw [hnames] at h
    have hread := (h () (Res.guard_pos rfl) _ rfl () (Res.guard_pos rfl)).1 hid
    exact never_deref_iff.mp ((hread.2 dn rfl).1)
  · intro h _ hlen name hname _ hdir
    refine ⟨fun hid => ?_, fun _ _ => trivial⟩
    have hdir := Res.guard_eq_ok.mp hdir
    refine ⟨(GeneralName.never_dirn trivial).mpr hdir, fun dn _ => ?_⟩
    obtain ⟨d, rfl⟩ := GeneralName.isDirName_iff.mp hdir
    obtain ⟨x, hx⟩ := List.length_eq_one_iff.mp (Res.guard_eq_ok.mp hlen)
    rw [hx] at hname
    have hsingle : wire.formNames = [.dirName d] := by
      rw [hx, Res.require_eq_ok.mp hname |> Option.some.inj]
    exact ⟨never_deref_iff.mpr (h hid ⟨d, hsingle⟩), fun _ _ => trivial⟩

/-- The holder matches and the issuer name is read, as `VERIFY_ID` asks. -/
def ReadsIssuer (valids : VerifyType) (cert : Option X509) (wire : Der.Ac) : Prop :=
  has valids VERIFY_ID ∧ SingleDirName wire.formNames ∧
    ∃ c, cert = some c ∧ checkHolder (d2iAcHolder wire.acinfo.holder) c = .ok ()

theorem never_checkNames {valids : VerifyType} {cert issuer : Option X509} {wire : Der.Ac}
    (hcert : cert = none → ¬ has valids VERIFY_ID) :
    Res.Never BadRead (checkNames valids cert issuer (d2iAcInfo wire.acinfo)) ↔
      (ReadsIssuer valids cert wire → issuer ≠ none) := by
  unfold checkNames ReadsIssuer
  rw [Res.never_bind, Res.never_when]
  simp only [Res.when_eq_ok, never_checkIssuerName, forall_const]
  cases cert with
  | none =>
    have hid : ¬ has valids VERIFY_ID := hcert rfl
    simp [hid]
  | some c =>
    have hholder : ∀ {β : Type} (f : AcHolder → Chk β),
        (Res.deref (d2iAcInfo wire.acinfo).holder >>= f) = f (d2iAcHolder wire.acinfo.holder) :=
      fun _ => rfl
    simp only [hholder, Res.deref_some, Res.ok_bind, never_checkHolder, implies_true, true_and,
      Option.some.injEq, exists_eq_left']
    constructor
    · intro h hread
      obtain ⟨hid, hsingle, hok⟩ := hread
      exact h (fun _ => hok) hid hsingle
    · intro h hok hid hsingle
      exact h ⟨hid, hsingle, hok hid⟩

/-! ## Extensions -/

theorem never_checkDates (W : World) (valids : VerifyType) (vertime : Int) (a b : Asn1Time) :
    Res.Never BadRead (checkDates W valids vertime a b) := by
  simp [checkDates, Res.never_bind]

theorem never_checkTargets (W : World) (ex : X509Ext) : Res.Never BadRead (checkTargets W ex) := by
  unfold checkTargets
  split <;> simp

theorem never_checkCritical (W : World) (valids : VerifyType) (pos4 : Option Nat) :
    ∀ (pos : Nat) (exts : List X509Ext), Res.Never BadRead (checkCritical W valids pos4 pos exts)
  | _, [] => Res.never_ok _
  | pos, ex :: rest => by
    unfold checkCritical
    simp [Res.never_bind, never_checkTargets, never_checkCritical W valids pos4 (pos + 1) rest]

/-- The first grantor is one that is stored as an IA5 string. -/
def GrantorOk (h : AcAttHolder) : Prop := ∃ g, h.grantor.head? = some g ∧ g.isIa5 = true

theorem never_interpretHolder {h : AcAttHolder} :
    Res.Never BadRead (interpretHolder h) ↔ GrantorOk h := by
  unfold interpretHolder GrantorOk
  cases h.grantor.head? with
  | none => simp
  | some g => simp [Res.never_bind, GeneralName.never_ia5]

theorem interpretHolder_ok {h : AcAttHolder} (hg : GrantorOk h) :
    ∃ al, interpretHolder h = .ok al := by
  obtain ⟨g, hg, hia5⟩ := hg
  unfold interpretHolder
  rw [hg]
  cases g <;> simp_all [GeneralName.ia5, GeneralName.isIa5]

theorem never_interpretHolders {providers : List AcAttHolder} :
    Res.Never BadRead (interpretHolders providers) ↔ ∀ h ∈ providers, GrantorOk h := by
  induction providers with
  | nil => simp [interpretHolders]
  | cons h rest ih =>
    simp only [interpretHolders, Res.never_bind, never_interpretHolder, ih, List.forall_mem_cons,
      Res.pure_eq, Res.never_ok, implies_true, and_true]
    refine and_congr_right fun hg => ?_
    obtain ⟨al, hal⟩ := interpretHolder_ok hg
    exact ⟨fun hrest => hrest al hal, fun hrest _ _ => hrest⟩

/-- The providers of the generic attributes, when that extension decodes. -/
def providersOf (exts : List X509Ext) : Option (List AcAttHolder) :=
  (extByNid exts .attributes).bind (·.d2iAttributes)

theorem never_readAttributes {exts : List X509Ext} {attributes : List AttributeList} :
    Res.Never BadRead (readAttributes exts attributes) ↔
      ∀ h ∈ (providersOf exts).getD [], GrantorOk h := by
  unfold readAttributes providersOf
  cases (extByNid exts .attributes).bind (·.d2iAttributes) with
  | none => simp
  | some providers =>
    simp [Res.never_bind, interpretAttributes, never_interpretHolders]

/-- The issuer and serial that are read when there is no `keyid`. -/
def KeyIdOk (key : AuthorityKeyId) : Prop :=
  key.keyid = none → key.serial ≠ none ∧ FirstIsDirName (key.issuer.getD [])

theorem never_checkKeyId {W : World} {valids : VerifyType} {iss : Option X509}
    {key : AuthorityKeyId} :
    Res.Never BadRead (checkKeyId W valids iss key) ↔ (iss ≠ none → KeyIdOk key) := by
  unfold checkKeyId KeyIdOk
  cases iss with
  | none => simp
  | some iss =>
    cases key.keyid with
    | some keyid => simp
    | none =>
      cases key.serial with
      | none => simp
      | some serial =>
        simp only [Res.deref_some, Res.ok_bind]
        rw [never_headDirn fun _ => Res.never_err _]
        simp

/-- `checkExtensions` gets past the critical extensions. -/
def CriticalPassed (W : World) (exts : List X509Ext) (valids : VerifyType) : Prop :=
  extByNid exts .idcenoRevAvail ≠ none ∧ extByNid exts .authorityKeyIdentifier ≠ none ∧
    checkCritical W valids (exts.findIdx? (·.type == .idceTargets)) 0 exts = .ok ()

/-- The key identifier that is read: `VERIFY_KEY` is asked for, there is an
issuer certificate, and the generic attributes were read. -/
def ReadsKeyId (exts : List X509Ext) (iss : Option X509) (valids : VerifyType)
    (attributes : List AttributeList) (key : AuthorityKeyId) : Prop :=
  has valids VERIFY_KEY ∧ iss ≠ none ∧
    (extByNid exts .authorityKeyIdentifier).bind (·.d2iKeyId) = some key ∧
    ∃ als, readAttributes exts attributes = .ok als

theorem never_checkExtensions {W : World} {exts : List X509Ext} {iss : Option X509}
    {valids : VerifyType} {attributes : List AttributeList} :
    Res.Never BadRead (checkExtensions W exts iss valids attributes) ↔
      (CriticalPassed W exts valids →
        (∀ h ∈ (providersOf exts).getD [], GrantorOk h) ∧
        ∀ key, ReadsKeyId exts iss valids attributes key → KeyIdOk key) := by
  unfold checkExtensions CriticalPassed ReadsKeyId
  cases hrev : extByNid exts .idcenoRevAvail with
  | none => simp
  | some rev =>
    cases hakid : extByNid exts .authorityKeyIdentifier with
    | none => simp
    | some akid =>
      simp only [Res.require_some, Res.ok_bind, Res.never_bind, never_checkCritical,
        never_readAttributes, Res.never_when, never_checkKeyId, Res.never_require, true_and,
        Res.pure_eq, Res.never_ok, implies_true, and_true, ne_eq, reduceCtorEq,
        not_false_eq_true, Res.require_eq_ok, Option.bind_some]
      constructor
      · intro h hcrit
        obtain ⟨hgrantor, hkey⟩ := h () hcrit
        refine ⟨hgrantor, fun key hread => ?_⟩
        obtain ⟨hv, hiss, hd2i, als, hals⟩ := hread
        exact hkey als hals hv key hd2i hiss
      · intro h _ hcrit
        obtain ⟨hgrantor, hkey⟩ := h hcrit
        exact ⟨hgrantor, fun als hals hv key hd2i hiss => hkey key ⟨hv, hiss, hd2i, als, hals⟩⟩

/-! ## Attributes -/

def isOctets : AcIetfAttrVal → Bool
  | .octets _ => true
  | _ => false

def isObject : AcIetfAttrVal → Bool
  | .object _ => true
  | _ => false

/-- The first value that is not an octet string is not an object identifier. -/
def ValuesOk (values : List AcIetfAttrVal) : Prop :=
  ∀ x, values.find? (!isOctets ·) = some x → isObject x = false

theorem never_checkValues : ∀ {values : List AcIetfAttrVal} {v : VomsRecord},
    Res.Never BadRead (checkValues v values) ↔ ValuesOk values
  | [], v => by simp [checkValues, ValuesOk]
  | .octets str :: rest, v => by
    unfold checkValues ValuesOk
    rw [never_checkValues, List.find?_cons_of_neg (by simp [isOctets])]
    rfl
  | .utf8 str :: rest, v => by simp [checkValues, ValuesOk, isOctets, isObject]
  | .object d :: rest, v => by simp [checkValues, ValuesOk, isOctets, isObject]

/-- The values that are read: those of the one attribute whose one policy
authority is a URI with a scheme. -/
def ReadsValues (atts : List AcAttr) (values : List AcIetfAttrVal) : Prop :=
  ∃ caps text, atts.find? (·.type == .idatcap) = some caps ∧
    caps.ietfattr = [⟨[.uri text], values⟩] ∧ strstr "://".toList text ≠ none

theorem never_readCapattr {capattr : AcIetfAttr} {v : VomsRecord} :
    Res.Never BadRead (readCapattr capattr v) ↔
      ∀ text, capattr.names = [.uri text] → strstr "://".toList text ≠ none →
        ValuesOk capattr.values := by
  unfold readCapattr
  by_cases hlen : capattr.names.length = 1
  · obtain ⟨g, hnames⟩ := List.length_eq_one_iff.mp hlen
    simp only [hnames, List.length_singleton, Res.guard_pos, Res.ok_bind, List.head?_cons,
      Res.deref_some, List.cons.injEq, and_true]
    cases g with
    | uri text =>
      simp only [GeneralName.isUri, GeneralName.ia5, Res.guard_pos, Res.ok_bind,
        GeneralName.uri.injEq, forall_eq']
      cases strstr "://".toList text with
      | none => simp
      | some point => simp [Res.never_bind, never_checkValues]
    | _ => simp [GeneralName.isUri, Res.guard_neg]
  · rw [Res.guard_neg hlen, Res.err_bind]
    refine ⟨fun _ text hnames => ?_, fun _ => Res.never_err _⟩
    simp [hnames] at hlen

theorem never_checkAttributes {atts : List AcAttr} {v : VomsRecord} :
    Res.Never BadRead (checkAttributes atts v) ↔
      ∀ values, ReadsValues atts values → ValuesOk values := by
  unfold checkAttributes ReadsValues
  cases hcaps : atts.find? (·.type == .idatcap) with
  | none => simp
  | some caps =>
    rw [Res.require_some, Res.ok_bind]
    by_cases hlen : caps.ietfattr.length = 1
    · obtain ⟨capattr, hattr⟩ := List.length_eq_one_iff.mp hlen
      rw [Res.guard_pos hlen, Res.ok_bind, hattr, List.head?_cons, Res.deref_some, Res.ok_bind,
        never_readCapattr]
      constructor
      · intro h values hread
        obtain ⟨caps', text, heq, hattr', hpoint⟩ := hread
        cases heq
        cases hattr.symm.trans hattr'
        exact h text rfl hpoint
      · intro h text hnames hpoint
        refine h capattr.values ⟨caps, text, rfl, ?_, hpoint⟩
        rw [hattr, ← hnames]
    · rw [Res.guard_neg hlen, Res.err_bind]
      refine ⟨fun _ values hread => ?_, fun _ => Res.never_err _⟩
      obtain ⟨caps', text, heq, hattr, -⟩ := hread
      cases heq
      simp [hattr] at hlen

/-! ## `validate` -/

/-- The checks of the fields and of the signature pass, and there is a
certificate where `VERIFY_ID` needs one. -/
def Started (W : World) (cert issuer : Option X509) (ac : Ac) (valids : VerifyType) : Prop :=
  (valids ≠ 0 → checkFields ac = .ok ()) ∧
    (has valids VERIFY_SIGN → checkSignature W issuer ac = .ok ()) ∧
    (cert = none → ¬ has valids VERIFY_ID)

/-- The checks of the names and dates pass too, and there are attributes. -/
def NamesPassed (W : World) (cert issuer : Option X509) (wire : Der.Ac) (valids : VerifyType)
    (vertime : Int) : Prop :=
  (valids ≠ 0 → checkNames valids cert issuer (d2iAcInfo wire.acinfo) = .ok ()) ∧
    checkDates W valids vertime wire.acinfo.notAfter wire.acinfo.notBefore = .ok () ∧
    (valids ≠ 0 → wire.acinfo.attributes ≠ [])

/-- Everything `validate` reads of an AC, where it gets that far, is there
and of the form it is read as. -/
structure Readable (W : World) (cert issuer : Option X509) (wire : Der.Ac)
    (attributes : List AttributeList) (valids : VerifyType) (vertime : Int) : Prop where
  formName : issuer = none → FirstIsDirName wire.formNames
  issuerCert : valids ≠ 0 → ReadsIssuer valids cert wire → issuer ≠ none
  grantors : NamesPassed W cert issuer wire valids vertime →
    CriticalPassed W (wire.acinfo.extensions.getD []) valids →
      ∀ h ∈ (providersOf (wire.acinfo.extensions.getD [])).getD [], GrantorOk h
  keyId : NamesPassed W cert issuer wire valids vertime →
    CriticalPassed W (wire.acinfo.extensions.getD []) valids →
      ∀ key, ReadsKeyId (wire.acinfo.extensions.getD []) issuer valids attributes key → KeyIdOk key
  values : NamesPassed W cert issuer wire valids vertime →
    (∃ als, checkExtensions W (wire.acinfo.extensions.getD []) issuer valids attributes = .ok als) →
      ∀ values, ReadsValues wire.acinfo.attributes values → ValuesOk values

theorem never_validateRest {W : World} {cert issuer : Option X509} {wire : Der.Ac}
    {v : VomsRecord} {valids : VerifyType} {vertime : Int}
    (hcert : cert = none → ¬ has valids VERIFY_ID) :
    Res.Never BadRead (validateRest W cert issuer (d2iAc wire) v valids vertime) ↔
      Readable W cert issuer wire v.attributes valids vertime := by
  obtain ⟨v1, hv1, hattr1⟩ := fillSignature_d2i W wire v
  obtain ⟨v2, hv2⟩ := (fillUser_ok (v := v1)).mpr hcert
  have hattr2 : v2.attributes = v.attributes := (fillUser_attributes hv2).trans hattr1
  have hinfo : (d2iAc wire).acinfo = some (d2iAcInfo wire.acinfo) := rfl
  have hval : (d2iAcInfo wire.acinfo).validity =
    some ⟨some wire.acinfo.notBefore, some wire.acinfo.notAfter⟩ := rfl
  have hexts : (d2iAcInfo wire.acinfo).exts = some (wire.acinfo.extensions.getD []) := rfl
  have hatts : (d2iAcInfo wire.acinfo).attrib = some wire.acinfo.attributes := rfl
  unfold validateRest
  rw [hv1, Res.ok_bind, hv2, Res.ok_bind, Res.never_bind, never_fillServer]
  simp only [hinfo, hval, hexts, hatts, Res.deref_some, Res.ok_bind, Option.getD_some,
    Res.never_bind, Res.never_when, Res.never_guard, never_checkNames hcert, never_checkDates,
    never_checkExtensions, never_checkAttributes, Res.pure_eq, Res.never_ok, implies_true,
    true_and, and_true, Res.when_eq_ok, Res.guard_eq_ok, forall_const]
  constructor
  · intro h
    obtain ⟨hform, h⟩ := h
    obtain ⟨v3, hv3⟩ := fillServer_ok (v := v2) hform
    have hattr3 : v3.attributes = v.attributes := (fillServer_attributes hv3).trans hattr2
    obtain ⟨hissuer, h⟩ := h v3 hv3
    rw [hattr3] at h
    refine ⟨hform, hissuer, ?_, ?_, ?_⟩
    · intro hnames hcrit
      obtain ⟨hn, hd, ha⟩ := hnames
      exact ((h hn () hd ha).1 hcrit).1
    · intro hnames hcrit
      obtain ⟨hn, hd, ha⟩ := hnames
      exact ((h hn () hd ha).1 hcrit).2
    · intro hnames hext
      obtain ⟨hn, hd, ha⟩ := hnames
      obtain ⟨als, hals⟩ := hext
      exact (h hn () hd ha).2 als hals
  · intro h
    refine ⟨h.formName, fun v3 hv3 => ⟨h.issuerCert, fun hn _ hd ha => ?_⟩⟩
    rw [(fillServer_attributes hv3).trans hattr2]
    have hnames : NamesPassed W cert issuer wire valids vertime := ⟨hn, hd, ha⟩
    exact ⟨fun hcrit => ⟨h.grantors hnames hcrit, h.keyId hnames hcrit⟩,
      fun als hals => h.values hnames ⟨als, hals⟩⟩

/-- **What `validate` reads.** A decoded AC makes `validate` dereference
NULL or read the wrong member of a union exactly if it gets past the first
checks and is not `Readable`. -/
theorem never_validate {W : World} {cert issuer : Option X509} {wire : Der.Ac} {v : VomsRecord}
    {valids : VerifyType} {vertime : Int} :
    Res.Never BadRead (validate W cert issuer (d2iAc wire) v valids vertime) ↔
      (Started W cert issuer (d2iAc wire) valids →
        Readable W cert issuer wire v.attributes valids vertime) := by
  unfold validate Started
  simp only [Res.never_bind, Res.never_when, never_checkFields, never_checkSignature,
    implies_true, true_and, Res.when_eq_ok, forall_const]
  by_cases hcert : cert = none → ¬ has valids VERIFY_ID
  · rw [never_validateRest hcert]
    exact ⟨fun h hstart => h hstart.1 hstart.2.1, fun h hfields hsign => h ⟨hfields, hsign, hcert⟩⟩
  · refine ⟨fun _ hstart => absurd hstart.2.2 hcert, fun _ _ _ => ?_⟩
    -- `fillUser` refuses before anything else is read
    obtain ⟨v1, hv1, -⟩ := fillSignature_d2i W wire v
    unfold validateRest
    rw [hv1, Res.ok_bind, Res.never_bind]
    exact ⟨never_fillUser valids cert v1, fun v2 hv2 => absurd (fillUser_ok.mp ⟨v2, hv2⟩) hcert⟩

end Voms.L2
