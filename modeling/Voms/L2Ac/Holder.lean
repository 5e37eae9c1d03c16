import Voms.L2Ac.Validate

/-!
# The holder of an accepted attribute certificate

With `VERIFY_ID`, `validate` accepts a decoded AC only for the certificate
its holder field names (`validate_ok_identifies`).

`Identifies` is stated over the encoding. In memory `holder->baseid` is
never NULL: `AC_HOLDER_new` allocates it and `d2i_AC_HOLDER` only replaces
it, so a holder without `baseCertificateID` is compared through the empty
`AC_IS` of `AC_IS_new` and fails on its empty issuer
(`checkHolder_noBaseId`). That is what keeps the `entityName` branch of
`validate` and its fall-through, which would accept, out of reach.
-/
namespace Voms.L2

open Voms.Core Voms.L1

/-- A single directoryName that is the certificate's subject or issuer. -/
def NamesCert (names : List GeneralName) (cert : X509) : Prop :=
  ∃ dn, names = [.dirName dn] ∧ (dn.same cert.subject = true ∨ dn.same cert.issuer = true)

/-- The holder field identifies the certificate. -/
def Identifies (holder : Der.Holder) (cert : X509) : Prop :=
  match holder.baseCertificateID with
  | some base =>
    base.serial = cert.serialNumber ∧ NamesCert base.issuer cert ∧
      base.issuerUID = cert.issuerUID
  | none => ∃ names, holder.entityName = some names ∧ NamesCert names cert

/-! ## The base certificate -/

/-- The two tests on unique identifiers together are equality. -/
theorem uid_eq_iff {uid issuerUID : Option BitString} :
    (uid.isSome = issuerUID.isSome ∧ ∀ u, uid = some u → issuerUID = some u) ↔
      uid = issuerUID := by
  constructor
  · rintro ⟨hs, hu⟩
    cases uid with
    | none => cases issuerUID with
      | none => rfl
      | some w => simp at hs
    | some u => exact (hu u rfl).symm
  · rintro rfl
    exact ⟨rfl, fun _ h => h⟩

theorem checkBaseId_eq_ok {baseid : AcIs} {cert : X509} :
    checkBaseId baseid cert = .ok () ↔
      baseid.serial = some cert.serialNumber ∧
      (∃ names, baseid.issuer = some names ∧ NamesCert names cert) ∧
      baseid.uid = cert.issuerUID := by
  unfold checkBaseId
  constructor
  · intro h
    simp only [Res.bind_eq_ok, Res.guard_eq_ok, CHECK, Res.require_eq_ok] at h
    obtain ⟨serial, hserial, names, hnames, _, hser, _, hlen, name, hname, _, hdir, dn, hdn, _,
      hsame, _, huid, hmatch⟩ := h
    obtain ⟨d, rfl⟩ := GeneralName.isDirName_iff.mp hdir
    cases hdn
    have hsingle : names = [.dirName dn] := by
      obtain ⟨x, rfl⟩ := List.length_eq_one_iff.mp hlen
      simpa using hname
    refine ⟨by rw [hserial, hser], ⟨names, hnames, dn, hsingle, hsame⟩, uid_eq_iff.mp ⟨huid, ?_⟩⟩
    intro u hu
    rw [hu] at hmatch
    cases hc : cert.issuerUID with
    | none => simp [hc] at hmatch
    | some w =>
      simp only [hc, Res.deref_some, Res.ok_bind, Res.guard_eq_ok] at hmatch
      rw [hmatch]
  · rintro ⟨hserial, ⟨names, hnames, dn, rfl, hsame⟩, huid⟩
    rw [hserial, hnames]
    simp only [CHECK_some, Res.ok_bind, List.length_singleton, List.head?_cons, Res.require_some,
      GeneralName.isDirName, GeneralName.dirn, Res.guard_pos, hsame, huid]
    cases cert.issuerUID with
    | none => rfl
    | some w => simp [Res.guard_pos]

/-! ## The whole holder -/

/-- Without `baseCertificateID` the holder is refused, `entityName` or not. -/
theorem checkHolder_noBaseId {holder : Der.Holder} (h : holder.baseCertificateID = none)
    (cert : X509) :
    checkHolder (d2iAcHolder holder) cert = .err .AC_ERR_HOLDER_SERIAL ∨
      checkHolder (d2iAcHolder holder) cert = .err .AC_ERR_HOLDER := by
  have hbase : (d2iAcHolder holder).baseid = some AcIs.new := by simp [d2iAcHolder, h]
  unfold checkHolder
  simp only [hbase, checkBaseId, AcIs.new, CHECK_some, Res.ok_bind]
  by_cases hs : (⟨false, []⟩ : Asn1Integer) = cert.serialNumber
  · rw [Res.guard_pos hs]
    exact Or.inr rfl
  · rw [Res.guard_neg hs]
    exact Or.inl rfl

theorem checkHolder_d2i {holder : Der.Holder} {cert : X509}
    (h : checkHolder (d2iAcHolder holder) cert = .ok ()) : Identifies holder cert := by
  cases hb : holder.baseCertificateID with
  | none =>
    rcases checkHolder_noBaseId hb cert with e | e <;> rw [e] at h <;> cases h
  | some base =>
    have hbase : (d2iAcHolder holder).baseid = some (d2iAcIs base) := by simp [d2iAcHolder, hb]
    simp only [checkHolder, hbase] at h
    obtain ⟨hserial, ⟨names, hnames, hcert⟩, huid⟩ := checkBaseId_eq_ok.mp h
    simp only [d2iAcIs, Option.some.injEq] at hserial hnames huid
    subst hnames
    simp only [Identifies, hb]
    exact ⟨hserial, hcert, huid⟩

/-! ## `validate` -/

/-- What `VERIFY_ID` adds to the name checks. -/
theorem checkNames_verifyId {valids : VerifyType} {cert issuer : Option X509} {info : AcInfo}
    (hid : has valids VERIFY_ID) (h : checkNames valids cert issuer info = .ok ()) :
    ∃ holder c, info.holder = some holder ∧ cert = some c ∧ checkHolder holder c = .ok () := by
  unfold checkNames at h
  rw [Res.when_pos hid] at h
  obtain ⟨_, h, -⟩ := Res.bind_eq_ok.mp h
  obtain ⟨holder, hholder, h⟩ := Res.bind_eq_ok.mp h
  obtain ⟨c, hc, h⟩ := Res.bind_eq_ok.mp h
  refine ⟨holder, c, ?_, ?_, h⟩
  · cases hi : info.holder <;> simp_all
  · cases hi : cert <;> simp_all

/-- The name checks are part of every `validate` that succeeds. -/
theorem validateRest_checkNames {W : World} {cert issuer : Option X509} {ac : Ac}
    {v v' : VomsRecord} {valids : VerifyType} {vertime : Int} (hv : valids ≠ 0)
    (h : validateRest W cert issuer ac v valids vertime = .ok v') :
    ∃ info, ac.acinfo = some info ∧ checkNames valids cert issuer info = .ok () := by
  unfold validateRest at h
  obtain ⟨_, -, h⟩ := Res.bind_eq_ok.mp h
  obtain ⟨_, -, h⟩ := Res.bind_eq_ok.mp h
  obtain ⟨_, -, h⟩ := Res.bind_eq_ok.mp h
  obtain ⟨info, hinfo, h⟩ := Res.bind_eq_ok.mp h
  obtain ⟨_, hnames, -⟩ := Res.bind_eq_ok.mp h
  refine ⟨info, ?_, Res.when_eq_ok.mp hnames hv⟩
  cases hi : ac.acinfo <;> simp_all

/-- **Holder binding.** `validate` with `VERIFY_ID` succeeds only for a
certificate that the holder of the AC identifies, and never on an AC whose
holder has neither field. -/
theorem validate_ok_identifies (W : World) (cert issuer : Option X509) (wire : Der.Ac)
    (v : VomsRecord) (valids : VerifyType) (vertime : Int) (hid : has valids VERIFY_ID) :
    (∀ v', validate W cert issuer (d2iAc wire) v valids vertime = .ok v' →
      ∃ c, cert = some c ∧ Identifies wire.acinfo.holder c) ∧
    (wire.acinfo.holder.baseCertificateID = none → wire.acinfo.holder.entityName = none →
      ∀ v', validate W cert issuer (d2iAc wire) v valids vertime ≠ .ok v') := by
  have main : ∀ v', validate W cert issuer (d2iAc wire) v valids vertime = .ok v' →
      ∃ c, cert = some c ∧ Identifies wire.acinfo.holder c := by
    intro v' h
    obtain ⟨-, -, h⟩ := validate_eq_ok.mp h
    obtain ⟨info, hinfo, hnames⟩ := validateRest_checkNames (ne_zero_of_has hid) h
    obtain ⟨holder, c, hholder, hc, hok⟩ := checkNames_verifyId hid hnames
    cases hinfo
    cases hholder
    exact ⟨c, hc, checkHolder_d2i hok⟩
  refine ⟨main, fun hbase hentity v' h => ?_⟩
  obtain ⟨c, -, hident⟩ := main v' h
  simp [Identifies, hbase, hentity] at hident

/-! ## A server, a user and the AC one issued to the other -/

namespace Sample

export Voms.L1.Sample (caName serverName userName dawn noon server user)

/-- One hour after `dawn`. A signature is good when its bytes are those of
the `Sample` ACs and the key is the server's; a chain when it ends in
`server`. -/
def world : World :=
  { asn1Verify := fun _ sig _ key =>
      if key = server.key ∧ sig = some ⟨"signed".toList⟩ then .good else .bad
    x509VerifyCert := fun chain => if chain = [server] then .good else .bad
    bn2hex := fun i => if i.data = [7] then "07".toList else "00".toList
    sha1 := fun b => b ++ List.replicate 19 0
    cmpTime := fun t u =>
      let s := if t = dawn then 1704067200 else 1704110400
      if s ≤ u then -1 else 1
    time := 1704070800
    hostname := some "host.example.org".toList
    domainname := some "(none)".toList
    acDup := some }

def fqan : Str := "/vo/Role=NULL/Capability=NULL".toList

def exts : List X509Ext :=
  [⟨.certseq, false, .certs [server]⟩, ⟨.idcenoRevAvail, false, .null⟩,
    ⟨.authorityKeyIdentifier, false, .keyId ⟨some (world.sha1 server.publicKey), none, none⟩⟩]

def info : Der.Info :=
  { version := ⟨false, [1]⟩
    holder := ⟨some ⟨[.dirName caName], ⟨false, [11]⟩, none⟩, none, none⟩
    issuer := some ⟨[.dirName serverName], none, none⟩
    signature := ⟨1⟩
    serialNumber := ⟨false, [7]⟩
    notBefore := dawn
    notAfter := noon
    attributes := [⟨.idatcap, [⟨[.uri "vo://host.example.org:15000".toList], [.octets fqan]⟩]⟩]
    issuerUniqueID := none
    extensions := some exts }

def ac : Der.Ac := ⟨info, ⟨1⟩, ⟨"signed".toList⟩⟩

/-- What `validate` makes of `ac`. -/
def record : VomsRecord :=
  { version := 1, siglen := 6, signature := "signed".toList, user := userName.oneline,
    userca := caName.oneline, server := serverName.oneline, serverca := caName.oneline,
    voname := "vo".toList, uri := "host.example.org:15000".toList, date1 := dawn.data,
    date2 := noon.data, stdType := true, std := [⟨"/vo".toList, "NULL".toList, "NULL".toList⟩],
    fqan := [fqan], serial := "07".toList, attributes := [], ac := some (d2iAc ac),
    holder := none }

end Sample

/-- `validate_ok_identifies` at an AC that passes. -/
theorem validate_ok_identifies_sample :
    validate Sample.world (some Sample.user) (some Sample.server) (d2iAc Sample.ac)
        VomsRecord.new VERIFY_FULL 0 = .ok Sample.record ∧
      ∃ c, some Sample.user = some c ∧ Identifies Sample.ac.acinfo.holder c := by
  have h : validate Sample.world (some Sample.user) (some Sample.server) (d2iAc Sample.ac)
      VomsRecord.new VERIFY_FULL 0 = .ok Sample.record := by decide
  exact ⟨h, (validate_ok_identifies Sample.world (some Sample.user) (some Sample.server) Sample.ac
    VomsRecord.new VERIFY_FULL 0 (by decide)).1 _ h⟩

end Voms.L2
