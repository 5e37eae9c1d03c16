import Voms.L2Ac.Holder
import Voms.L2Ac.Write
import Mathlib.Data.List.Forall2

/-!
# The client on what the server wrote

`createac` and `validate` are separate files that share no code. The main
result says when they agree (`createac_validate_iff`): with `VERIFY_FULL`,
the same certificates and a time inside the validity, the client accepts
the AC and reads back the same FQANs, VO name, uri and attributes exactly
when

* the holder certificate has no issuer unique identifier (`writeac` never
  writes `holder->baseid->uid`, `validate` compares it),
* the target list, if there is one, names what `getfqdn` returns (which is
  the empty string as soon as the machine has a domain name),
* the VO name does not contain `://`,
* no string contains a NUL (`createac` passes `c_str()`).
-/
namespace Voms.L2

open Voms.Core Voms.L1

/-! ## Generic attributes -/

/-- The string `s` states the attribute `a`; an empty qualifier stands for
the VO. -/
def States (vo s : Str) (a : Attribute) : Prop :=
  ∃ qual, s = qual ++ "::".toList ++ a.name ++ "=".toList ++ a.value ∧
    a.qualifier = if qual = [] then vo else qual

theorem parseAttribute_states {vo s : Str} {a : AcAttribute}
    (h : parseAttribute (some vo) s = .ok a) : States vo s (readAttribute a) := by
  unfold parseAttribute at h
  obtain ⟨point, hpoint, h⟩ := Res.bind_eq_ok.mp h
  obtain ⟨tmp2, htmp2, h⟩ := Res.bind_eq_ok.mp h
  have h1 : strstr "::".toList s = some point := by
    cases hp : strstr "::".toList s <;> simp_all
  have h2 := Res.require_eq_ok.mp htmp2
  cases h
  refine ⟨s.take point, ?_, ?_⟩
  · have e1 := strstr_split h1
    have e2 := strstr_split h2
    simp only [readAttribute]
    calc s = s.take point ++ "::".toList ++ s.drop (point + 2) := e1
      _ = _ := by
        conv_lhs => rw [e2]
        simp only [List.append_assoc]
        rfl
  · by_cases hz : point = 0
    · simp [readAttribute, hz]
    · have hne : s.take point ≠ [] := by
        intro hnil
        have hs : s = [] := by
          rcases List.take_eq_nil_iff.mp hnil with h0 | h0
          · exact absurd h0 hz
          · exact h0
        subst hs
        simp [strstr] at h1
      simp [readAttribute, hz, hne]

theorem parseAttributes_states {vo : Str} : ∀ {l : List Str} {as : List AcAttribute},
    parseAttributes (some vo) l = .ok as →
      List.Forall₂ (States vo) l (as.map readAttribute)
  | [], as, h => by
    cases h
    exact List.Forall₂.nil
  | s :: rest, as, h => by
    unfold parseAttributes at h
    obtain ⟨a, ha, h⟩ := Res.bind_eq_ok.mp h
    obtain ⟨as', has, h⟩ := Res.bind_eq_ok.mp h
    cases h
    exact List.Forall₂.cons (parseAttribute_states ha) (parseAttributes_states has)

/-- A string that states an attribute without NULs has none itself. -/
theorem States.noNul {vo s : Str} {a : Attribute} (h : States vo s a) (hn : '\x00' ∉ a.name)
    (hv : '\x00' ∉ a.value) (hq : '\x00' ∉ a.qualifier) : '\x00' ∉ s := by
  obtain ⟨qual, rfl, hqual⟩ := h
  have hqual' : '\x00' ∉ qual := by
    by_cases hnil : qual = []
    · simp [hnil]
    · rw [if_neg hnil] at hqual
      exact hqual ▸ hq
  simp only [List.mem_append, not_or]
  exact ⟨⟨⟨⟨hqual', by decide⟩, hn⟩, by decide⟩, hv⟩

/-- The parts of a string without NULs have none. -/
theorem States.parts_noNul {vo s : Str} {a : Attribute} (h : States vo s a) (hs : '\x00' ∉ s)
    (hvo : '\x00' ∉ vo) : '\x00' ∉ a.name ∧ '\x00' ∉ a.value ∧ '\x00' ∉ a.qualifier := by
  obtain ⟨qual, rfl, hqual⟩ := h
  simp only [List.mem_append, not_or] at hs
  refine ⟨hs.1.1.2, hs.2, ?_⟩
  rw [hqual]
  split
  · exact hvo
  · exact hs.1.1.1.1

/-! ## Extensions -/

/-- What the extensions of a written AC are, `targ` being the body of
`idceTargets` if there are targets. -/
def writtenExts (S : Signer) (issuerc : X509) (issuerstack : Option (List X509))
    (attrs : List AcAttribute) (vo uri : Str) (targ : Option ExtBody) : List X509Ext :=
  (if attrs.isEmpty then []
    else [⟨.attributes, false, .fullAttributes [⟨makeUri (some vo) (some uri), attrs⟩]⟩]) ++
  [⟨.certseq, false, .certs (issuerstack.getD [] ++ [issuerc])⟩, ⟨.idcenoRevAvail, false, .null⟩,
    ⟨.authorityKeyIdentifier, false, .keyId (authkey_s2i S issuerc)⟩] ++
  (targ.map fun b => ⟨.idceTargets, true, b⟩).toList

theorem makeExtensions_ok {S : Signer} {issuerc : X509} {issuerstack : Option (List X509)}
    {t : Option Str} {attrs : List AcAttribute} {vo uri : Str} {exts : List X509Ext}
    (h : makeExtensions S issuerc issuerstack t attrs (some vo) (some uri) none = .ok exts) :
    ∃ targ, t.map (confTargets S) = targ.map some ∧
      exts = writtenExts S issuerc issuerstack attrs vo uri targ := by
  unfold makeExtensions at h
  have hattr : (if attrs.isEmpty then (pure [] : Chk (List X509Ext))
      else makeAndPushExt [] .attributes
        (some (.fullAttributes [⟨makeUri (some vo) (some uri), attrs⟩])) false) =
      .ok (if attrs.isEmpty then []
        else [⟨.attributes, false, .fullAttributes [⟨makeUri (some vo) (some uri), attrs⟩]⟩]) := by
    split <;> rfl
  rw [hattr] at h
  simp only [makeAndPushExt, Res.ok_bind, Res.require_some, Res.pure_eq] at h
  obtain ⟨exts', htarg, h⟩ := Res.bind_eq_ok.mp h
  cases h
  cases t with
  | none =>
    cases htarg
    exact ⟨none, rfl, by simp [writtenExts]⟩
  | some t =>
    obtain ⟨body, hbody, htarg⟩ := Res.bind_eq_ok.mp htarg
    cases htarg
    refine ⟨some body, ?_, by simp [writtenExts]⟩
    simp only [Option.map_some, Option.some.injEq]
    exact Res.require_eq_ok.mp hbody

/-- The target check, on an AC that carries no other critical extension. -/
def TargetsPass (W : World) (targ : Option ExtBody) : Prop :=
  ∀ b, targ = some b → ∃ l, b = .targets l ∧ l.any (targetMatches (getfqdn W)) = true

theorem checkTargets_eq_ok {W : World} {b : ExtBody} :
    checkTargets W ⟨.idceTargets, true, b⟩ = .ok () ↔
      ∃ l, b = .targets l ∧ l.any (targetMatches (getfqdn W)) = true := by
  cases b <;> simp [checkTargets, X509Ext.d2iTargets]

/-- The attributes a written AC gives back. -/
def writtenAttributes (attrs : List AcAttribute) (vo uri : Str) : List AttributeList :=
  if attrs.isEmpty then []
  else [⟨vo ++ "://".toList ++ uri, attrs.map readAttribute⟩]

theorem readAttributes_written (S : Signer) (issuerc : X509) (issuerstack : Option (List X509))
    (attrs : List AcAttribute) (vo uri : Str) (targ : Option ExtBody) :
    readAttributes (writtenExts S issuerc issuerstack attrs vo uri targ) [] =
      .ok (writtenAttributes attrs vo uri) := by
  cases attrs with
  | nil => cases targ <;> rfl
  | cons a as => cases targ <;> rfl

theorem checkCritical_written (W : World) (S : Signer) (issuerc : X509)
    (issuerstack : Option (List X509)) (attrs : List AcAttribute) (vo uri : Str)
    (targ : Option ExtBody) :
    checkCritical W VERIFY_FULL
        ((writtenExts S issuerc issuerstack attrs vo uri targ).findIdx? (·.type == .idceTargets)) 0
        (writtenExts S issuerc issuerstack attrs vo uri targ) = .ok () ↔ TargetsPass W targ := by
  have hfull : has VERIFY_FULL VERIFY_TARGET := by decide
  unfold writtenExts TargetsPass
  cases targ with
  | none => cases attrs <;> simp [checkCritical, Res.when]
  | some b =>
    rw [show (∀ b', some b = some b' → ∃ l, b' = .targets l ∧
        l.any (targetMatches (getfqdn W)) = true) ↔ checkTargets W ⟨.idceTargets, true, b⟩ = .ok ()
      by simp [checkTargets_eq_ok]]
    cases attrs <;>
      simp [checkCritical, Res.when, Res.then_eq_ok, List.findIdx?_cons, hfull]

theorem checkExtensions_written {W : World} {S : Signer} (hsha : S.sha1 = W.sha1) {issuerc : X509}
    {issuerstack : Option (List X509)} {attrs : List AcAttribute} {vo uri : Str}
    {targ : Option ExtBody} {als : List AttributeList} :
    checkExtensions W (writtenExts S issuerc issuerstack attrs vo uri targ) (some issuerc)
        VERIFY_FULL [] = .ok als ↔
      TargetsPass W targ ∧ als = writtenAttributes attrs vo uri := by
  have hrev : ∃ e, extByNid (writtenExts S issuerc issuerstack attrs vo uri targ) .idcenoRevAvail =
      some e := by
    cases attrs <;> cases targ <;> exact ⟨_, rfl⟩
  have hakid : extByNid (writtenExts S issuerc issuerstack attrs vo uri targ)
      .authorityKeyIdentifier = some ⟨.authorityKeyIdentifier, false,
        .keyId (authkey_s2i S issuerc)⟩ := by
    cases attrs <;> cases targ <;> rfl
  have hkey : checkKeyId W VERIFY_FULL (some issuerc) (authkey_s2i S issuerc) = .ok () := by
    simp [checkKeyId, authkey_s2i, hsha]
  obtain ⟨e, hrev⟩ := hrev
  unfold checkExtensions
  rw [hrev, hakid, readAttributes_written]
  simp only [Res.require_some, Res.ok_bind, Res.then_eq_ok, checkCritical_written, X509Ext.d2iKeyId,
    hkey, Res.when_eq_ok]
  simp [eq_comm]

/-! ## FQANs, VO name, uri -/

theorem checkValues_octets : ∀ (l : List Str) (v : VomsRecord),
    checkValues v (l.map .octets) =
      .ok { v with fqan := v.fqan ++ l, std := v.std ++ l.map splitFqan }
  | [], v => by simp [checkValues]
  | str :: rest, v => by
    rw [List.map_cons, checkValues, checkValues_octets rest]
    simp [List.append_assoc]

theorem checkAttributes_written {fqan : List Str} {vo uri : Str} {v v' : VomsRecord} :
    checkAttributes [makeCapabilities fqan (some vo) (some uri)] v = .ok v' ↔
      ∃ point, strstr "://".toList (vo ++ "://".toList ++ uri) = some point ∧
        v' = { v with
          voname := (vo ++ "://".toList ++ uri).take point
          uri := (vo ++ "://".toList ++ uri).drop (point + 3)
          fqan := v.fqan ++ fqan
          std := v.std ++ fqan.map splitFqan
          stdType := true } := by
  have hfind : [makeCapabilities fqan (some vo) (some uri)].find? (·.type == .idatcap) =
      some (makeCapabilities fqan (some vo) (some uri)) := rfl
  have huri : makeUri (some vo) (some uri) = [.uri (vo ++ "://".toList ++ uri)] := rfl
  unfold checkAttributes readCapattr
  rw [hfind]
  simp only [Res.require_some, Res.ok_bind, makeCapabilities, huri, Option.isSome_some,
    Bool.or_self, if_true, List.length_singleton, List.head?_cons, Res.deref_some, Res.guard_pos,
    GeneralName.isUri, GeneralName.ia5, checkValues_octets, Res.bind_eq_ok, Res.require_eq_ok,
    Res.pure_eq, Res.ok.injEq]
  constructor
  · intro h
    obtain ⟨point, hpoint, rfl⟩ := h
    exact ⟨point, hpoint, rfl⟩
  · intro h
    obtain ⟨point, hpoint, rfl⟩ := h
    exact ⟨point, hpoint, rfl⟩

/-- No tail of `://` starts it. -/
theorem sep_drop : ∀ k, 0 < k → k < "://".toList.length →
    ¬ "://".toList.drop k <+: "://".toList := by
  intro k h0 h3
  have hk : k = 1 ∨ k = 2 := by
    have : "://".toList.length = 3 := rfl
    omega
  rcases hk with rfl | rfl <;> decide

/-- The uri comes back under its VO exactly when the VO name has no `://`. -/
theorem strstr_uri_iff {vo uri : Str} {point : Nat}
    (h : strstr "://".toList (vo ++ "://".toList ++ uri) = some point) :
    point = vo.length ↔ strstr "://".toList vo = none := by
  constructor
  · intro hp
    cases hvo : strstr "://".toList vo with
    | none => rfl
    | some n =>
      have hlt : n < vo.length := by
        obtain ⟨hn, hpre, -⟩ := strstr_eq_some.mp hvo
        have hlen := hpre.length_le
        simp only [List.length_drop] at hlen
        have h3 : "://".toList.length = 3 := rfl
        omega
      have hfound := strstr_append_left (b := "://".toList ++ uri) hvo
      rw [← List.append_assoc, h] at hfound
      cases hfound
      omega
  · intro hvo
    rw [strstr_append_self uri sep_drop hvo] at h
    cases h
    rfl

/-! ## Names, dates, signature -/

/-- `ASN1_GENERALIZEDTIME_set` and `X509_cmp_time` agree on what a time is. -/
def TimesAgree (S : Signer) (W : World) : Prop :=
  ∀ t a, S.generalizedTimeSet t = some a → a.type = .generalized ∧
    ∀ u, (t ≤ u → W.cmpTime a u < 0) ∧ (u < t → 0 < W.cmpTime a u)

/-- `ASN1_verify` with the issuer's key accepts what `ASN1_sign` signed. -/
def AcceptsSigned (S : Signer) (W : World) (issuerc : X509) (pkey : EvpPKey) : Prop :=
  ∀ info, W.acVerify (signInfo S issuerc pkey info) issuerc.key = .good

theorem checkDates_written {S : Signer} {W : World} (ht : TimesAgree S W) {valid vertime : Int}
    {time1 time2 : Asn1Time} (h1 : S.generalizedTimeSet S.time = some time1)
    (h2 : S.generalizedTimeSet (S.time + valid) = some time2)
    (hfrom : S.time ≤ verificationTime W vertime)
    (huntil : verificationTime W vertime ≤ S.time + valid) :
    checkDates W VERIFY_FULL vertime time2 time1 = .ok () := by
  obtain ⟨hg1, hc1⟩ := ht _ _ h1
  obtain ⟨hg2, hc2⟩ := ht _ _ h2
  have hb := (hc1 (verificationTime W vertime)).1 hfrom
  have ha := (hc2 (verificationTime W vertime + 300 - 600)).2 (by omega)
  unfold checkDates
  rw [Res.when_pos (by decide)]
  simp only [Res.then_eq_ok, Res.guard_eq_ok]
  exact ⟨⟨hg2, hg1⟩, fun h => by omega, fun h => by omega⟩

theorem checkNames_written {issuerc holder : X509} {s : Asn1Integer} (hs : s.data.length ≤ 20)
    {old : Bool} {time1 time2 : Asn1Time} {caps : AcAttr} {exts : List X509Ext}
    {alg : Option X509Algor} :
    checkNames VERIFY_FULL (some holder) (some issuerc)
        { fillInfo issuerc holder s old time1 time2 caps exts with alg } = .ok () ↔
      holder.issuerUID = none := by
  have hid : has VERIFY_FULL VERIFY_ID := by decide
  have hself : ∀ n : X509Name, n.same n = true := fun n => by simp [X509Name.same]
  have hnames : NamesCert [.dirName (if old then holder.subject else holder.issuer)] holder := by
    refine ⟨_, rfl, ?_⟩
    cases old with
    | true => exact Or.inl (hself _)
    | false => exact Or.inr (hself _)
  have hissuer : checkIssuerName VERIFY_FULL (some issuerc)
      { fillInfo issuerc holder s old time1 time2 caps exts with alg } = .ok () := by
    simp [checkIssuerName, fillInfo, GeneralName.isDirName, GeneralName.dirn, Res.when_pos hid,
      Res.guard_pos, hself, hs]
  unfold checkNames
  rw [Res.when_pos hid]
  simp only [Res.then_eq_ok, hissuer, and_true]
  simp only [fillInfo, Res.deref_some, Res.ok_bind, checkHolder, checkBaseId_eq_ok]
  constructor
  · intro h
    exact h.2.2.symm
  · intro h
    exact ⟨trivial, ⟨_, rfl, hnames⟩, h.symm⟩

theorem checkFields_written {S : Signer} {issuerc holder : X509} {pkey : EvpPKey} {s : Asn1Integer}
    {old : Bool} {time1 time2 : Asn1Time} {caps : AcAttr} {exts : List X509Ext} :
    checkFields (signInfo S issuerc pkey
      (fillInfo issuerc holder s old time1 time2 caps exts)) = .ok () := by
  simp [checkFields, signInfo, fillInfo]

/-! ## `validate` after `createac` -/

/-- What both sides agree on: the oracles belong together, and the
verification time lies inside the validity. -/
structure Setting (S : Signer) (W : World) (issuerc : X509) (pkey : EvpPKey)
    (valid vertime : Int) : Prop where
  sha1 : S.sha1 = W.sha1
  times : TimesAgree S W
  signed : AcceptsSigned S W issuerc pkey
  after : S.time ≤ verificationTime W vertime
  before : verificationTime W vertime ≤ S.time + valid

theorem validate_written {S : Signer} {W : World} {issuerc holder : X509} {pkey : EvpPKey}
    {valid vertime : Int} (hset : Setting S W issuerc pkey valid vertime) {s : Asn1Integer}
    (hs : s.data.length ≤ 20) {issuerstack : Option (List X509)} {fqan : List Str}
    {attrs : List AcAttribute} {vo uri : Str} {targ : Option ExtBody} {old : Bool}
    {time1 time2 : Asn1Time} (h1 : S.generalizedTimeSet S.time = some time1)
    (h2 : S.generalizedTimeSet (S.time + valid) = some time2) {ac : Ac}
    (hac : ac = signInfo S issuerc pkey (fillInfo issuerc holder s old time1 time2
      (makeCapabilities fqan (some vo) (some uri))
      (writtenExts S issuerc issuerstack attrs vo uri targ))) {v' : VomsRecord} :
    validate W (some holder) (some issuerc) ac VomsRecord.new VERIFY_FULL vertime = .ok v' ↔
      holder.issuerUID = none ∧ TargetsPass W targ ∧
      ∃ sig point, ac.signature = some sig ∧
        strstr "://".toList (vo ++ "://".toList ++ uri) = some point ∧
        v' = { filledRecord W holder issuerc sig s time1 time2 VomsRecord.new with
          voname := (vo ++ "://".toList ++ uri).take point
          uri := (vo ++ "://".toList ++ uri).drop (point + 3)
          stdType := true, std := fqan.map splitFqan, fqan := fqan
          attributes := writtenAttributes attrs vo uri, ac := some ac } := by
  have hfields : checkFields ac = .ok () := by
    rw [hac]
    exact checkFields_written
  have hsign : checkSignature W (some issuerc) ac = .ok () := by
    have hgood : W.acVerify ac issuerc.key = .good := by
      rw [hac]
      exact hset.signed _
    unfold checkSignature
    rw [CHECK_some, Res.ok_bind, hgood]
    rfl
  obtain ⟨sig, hsig⟩ : ∃ sig, ac.signature = some sig := ⟨_, by rw [hac]; rfl⟩
  obtain ⟨alg, hinfo⟩ : ∃ alg, ac.acinfo = some { fillInfo issuerc holder s old time1 time2
      (makeCapabilities fqan (some vo) (some uri))
      (writtenExts S issuerc issuerstack attrs vo uri targ) with alg } := ⟨_, by rw [hac]; rfl⟩
  have hdates := checkDates_written hset.times h1 h2 hset.after hset.before
  rw [validate_eq_ok, validateRest_eq_ok hinfo hsig rfl rfl rfl, checkNames_written hs, hdates]
  simp only [hfields, hsign, implies_true, true_and, ne_eq, List.cons_ne_self, not_false_eq_true,
    show VERIFY_FULL ≠ 0 by decide, forall_const]
  simp only [fillInfo, Option.getD_some, show VomsRecord.new.attributes = [] from rfl,
    checkExtensions_written hset.sha1, checkAttributes_written]
  constructor
  · intro h
    obtain ⟨huid, als, ⟨htarg, rfl⟩, v1, ⟨point, hpoint, rfl⟩, rfl⟩ := h
    exact ⟨huid, htarg, sig, point, hsig, hpoint, rfl⟩
  · intro h
    obtain ⟨huid, htarg, sig', point, hsig', hpoint, rfl⟩ := h
    rw [hsig] at hsig'
    cases hsig'
    exact ⟨huid, _, ⟨htarg, rfl⟩, _, ⟨point, hpoint, rfl⟩, rfl⟩

/-- `createac` without extensions of its own, inverted. -/
theorem createac_ok {S : Signer} {issuerc holder : X509} {issuerstack : Option (List X509)}
    {pkey : EvpPKey} {serial : Asn1Integer} {fqan targets attributes : List Str} {vo uri : Str}
    {valid : Int} {old : Bool} {ac : Ac}
    (h : createac S issuerc issuerstack holder pkey serial fqan targets attributes vo uri valid old
      none = .ok ac) :
    ∃ time1 time2 attrs targ, S.generalizedTimeSet S.time = some time1 ∧
      S.generalizedTimeSet (S.time + valid) = some time2 ∧
      parseAttributes (some (cStr vo)) (attributes.map cStr) = .ok attrs ∧
      (targetText targets).map (confTargets S) = targ.map some ∧
      ac = signInfo S issuerc pkey (fillInfo issuerc holder serial old time1 time2
        (makeCapabilities (fqan.map cStr) (some (cStr vo)) (some (cStr uri)))
        (writtenExts S issuerc issuerstack attrs (cStr vo) (cStr uri) targ)) := by
  unfold createac writeac at h
  simp only [Int.sub_zero] at h
  obtain ⟨time1, h1, h⟩ := Res.bind_eq_ok.mp h
  obtain ⟨time2, h2, h⟩ := Res.bind_eq_ok.mp h
  obtain ⟨attrs, hattrs, h⟩ := Res.bind_eq_ok.mp h
  obtain ⟨exts, hexts, h⟩ := Res.bind_eq_ok.mp h
  obtain ⟨targ, htarg, rfl⟩ := makeExtensions_ok hexts
  cases h
  exact ⟨time1, time2, attrs, targ, Res.require_eq_ok.mp h1, Res.require_eq_ok.mp h2, hattrs, htarg,
    rfl⟩

/-- The structure `createac` fills is one that `d2i_AC` gives back. -/
theorem createac_wire {S : Signer} {issuerc holder : X509} {issuerstack : Option (List X509)}
    {pkey : EvpPKey} {serial : Asn1Integer} {fqan targets attributes : List Str} {vo uri : Str}
    {valid : Int} {old : Bool} {ac : Ac}
    (h : createac S issuerc issuerstack holder pkey serial fqan targets attributes vo uri valid old
      none = .ok ac) : ∃ wire, d2iAc wire = ac := by
  obtain ⟨time1, time2, attrs, targ, -, -, -, -, rfl⟩ := createac_ok h
  let info := fillInfo issuerc holder serial old time1 time2
    (makeCapabilities (fqan.map cStr) (some (cStr vo)) (some (cStr uri)))
    (writtenExts S issuerc issuerstack attrs (cStr vo) (cStr uri) targ)
  let signed := S.asn1Sign issuerc.sigAlg info pkey
  let base : Der.IssuerSerial :=
    ⟨[.dirName (if old then holder.subject else holder.issuer)], holder.serialNumber, none⟩
  exact ⟨⟨{ version := ⟨false, [1]⟩
            holder := ⟨some base, none, none⟩
            issuer := some ⟨[.dirName issuerc.subject], none, none⟩
            signature := signed.1
            serialNumber := serial
            notBefore := time1, notAfter := time2
            attributes := info.attrib.getD []
            issuerUniqueID := issuerc.issuerUID
            extensions := info.exts }, signed.1, signed.2⟩, rfl⟩

/-- The client accepts the AC for this holder and reads back what the
server was given. -/
def ReadsBack (W : World) (issuerc holder : X509) (vertime : Int) (ac : Ac) (fqan : List Str)
    (attributes : List Str) (vo uri : Str) : Prop :=
  ∃ v, validate W (some holder) (some issuerc) ac VomsRecord.new VERIFY_FULL vertime = .ok v ∧
    v.fqan = fqan ∧ v.voname = vo ∧ v.uri = uri ∧
    List.Forall₂ (States vo) attributes (v.attributes.flatMap (·.attributes)) ∧
    ∀ al ∈ v.attributes, al.grantor = vo ++ "://".toList ++ uri

/-- The target list, if one is written, names the host as `getfqdn` knows it. -/
def ReachesHost (S : Signer) (W : World) (targets : List Str) : Prop :=
  ∀ t, targetText targets = some t →
    ∃ l, confTargets S t = some (.targets l) ∧ l.any (targetMatches (getfqdn W)) = true

/-- The strings a request is written with carry no NUL. -/
def NoNuls (fqan attributes : List Str) (vo uri : Str) : Prop :=
  (∀ f ∈ fqan, '\x00' ∉ f) ∧ (∀ a ∈ attributes, '\x00' ∉ a) ∧ '\x00' ∉ vo ∧ '\x00' ∉ uri

theorem reachesHost_iff {S : Signer} {W : World} {targets : List Str} {targ : Option ExtBody}
    (h : (targetText targets).map (confTargets S) = targ.map some) :
    ReachesHost S W targets ↔ TargetsPass W targ := by
  unfold ReachesHost TargetsPass
  cases ht : targetText targets with
  | none => cases targ <;> simp_all
  | some t => cases targ <;> simp_all

theorem map_cStr_eq_self {l : List Str} : l.map cStr = l ↔ ∀ f ∈ l, '\x00' ∉ f := by
  induction l with
  | nil => simp
  | cons f l ih => simp [ih, cStr_eq_self]

/-- The attributes read are the strings cut at their NULs. -/
theorem flatMap_writtenAttributes (attrs : List AcAttribute) (vo uri : Str) :
    (writtenAttributes attrs vo uri).flatMap (·.attributes) = attrs.map readAttribute := by
  cases attrs <;> simp [writtenAttributes]

/-- A string whose cut version states the same attribute was not cut. -/
theorem noNul_of_states {vo : Str} (hvo : '\x00' ∉ vo) : ∀ {l : List Str} {as : List Attribute},
    List.Forall₂ (States vo) l as → List.Forall₂ (States vo) (l.map cStr) as →
      ∀ s ∈ l, '\x00' ∉ s
  | [], _, _, _ => by simp
  | s :: l, _, .cons hs hl, .cons hs' hl' => by
    intro t ht
    rcases List.mem_cons.mp ht with rfl | ht
    · obtain ⟨hn, hv, hq⟩ := hs'.parts_noNul (noNul_cStr t) hvo
      exact hs.noNul hn hv hq
    · exact noNul_of_states hvo hl hl' t ht

/-- The text before the first `://` is the VO name only if that was neither
cut nor contains a `://` itself. -/
theorem voname_eq_iff {vo uri : Str} {point : Nat}
    (h : strstr "://".toList (cStr vo ++ "://".toList ++ cStr uri) = some point) :
    (cStr vo ++ "://".toList ++ cStr uri).take point = vo ↔
      '\x00' ∉ vo ∧ strstr "://".toList vo = none := by
  have hle : point ≤ (cStr vo).length := by
    by_contra hlt
    obtain ⟨-, -, hmin⟩ := strstr_eq_some.mp h
    refine hmin (cStr vo).length (by omega) ?_
    rw [List.append_assoc, List.drop_left]
    exact List.prefix_append _ _
  have htake : (cStr vo ++ "://".toList ++ cStr uri).take point = (cStr vo).take point := by
    rw [List.append_assoc, List.take_append_of_le_length hle]
  rw [htake]
  constructor
  · intro hvo
    have hlen : vo.length = point := by
      rw [← hvo, List.length_take]
      omega
    have hpoint : point = (cStr vo).length := by
      have := length_cStr_le vo
      omega
    have hself : cStr vo = vo := by
      rw [hpoint, List.take_length] at hvo
      exact hvo
    refine ⟨cStr_eq_self.mp hself, ?_⟩
    have hnone := (strstr_uri_iff h).mp hpoint
    rwa [hself] at hnone
  · intro hvo
    obtain ⟨hnul, hnone⟩ := hvo
    rw [cStr_of_noNul hnul] at h ⊢
    rw [(strstr_uri_iff h).mpr hnone, List.take_length]

/-- **When the client reads what the server wrote.** For an AC that
`createac` made, `validate` with `VERIFY_FULL`, the same certificates and a
time inside the validity gives back the FQANs, the VO name, the uri and the
attributes exactly when the holder certificate has no issuer unique
identifier, the targets name what `getfqdn` returns, the VO name has no
`://` and no string has a NUL. -/
theorem createac_validate_iff {S : Signer} {W : World} {issuerc holder : X509} {pkey : EvpPKey}
    {valid vertime : Int} (hset : Setting S W issuerc pkey valid vertime)
    (issuerstack : Option (List X509)) {serial : Asn1Integer} (hserial : serial.data.length ≤ 20)
    (fqan targets attributes : List Str) (vo uri : Str) (old : Bool) {ac : Ac}
    (h : createac S issuerc issuerstack holder pkey serial fqan targets attributes vo uri valid old
      none = .ok ac) :
    ReadsBack W issuerc holder vertime ac fqan attributes vo uri ↔
      holder.issuerUID = none ∧ ReachesHost S W targets ∧ strstr "://".toList vo = none ∧
        NoNuls fqan attributes vo uri := by
  obtain ⟨time1, time2, attrs, targ, h1, h2, hattrs, htarg, hac⟩ := createac_ok h
  have hstates := parseAttributes_states hattrs
  rw [reachesHost_iff htarg]
  constructor
  · intro hread
    obtain ⟨v, hv, hfqan, hvo, huri, hattributes, -⟩ := hread
    obtain ⟨huid, hpass, sig, point, -, hpoint, rfl⟩ :=
      (validate_written hset hserial h1 h2 hac).mp hv
    obtain ⟨hvonul, hvosep⟩ := (voname_eq_iff hpoint).mp hvo
    have hself := cStr_of_noNul hvonul
    have hlen : point = (cStr vo).length := by
      refine (strstr_uri_iff hpoint).mpr ?_
      rw [hself]
      exact hvosep
    have huri' : cStr uri = uri := by
      have : (cStr vo ++ "://".toList ++ cStr uri).drop (point + 3) = cStr uri := by
        rw [hlen]
        exact List.drop_left' (by simp)
      exact this.symm.trans huri
    refine ⟨huid, hpass, hvosep, map_cStr_eq_self.mp hfqan, ?_, hvonul, cStr_eq_self.mp huri'⟩
    simp only [flatMap_writtenAttributes] at hattributes
    rw [hself] at hstates
    exact noNul_of_states hvonul hattributes hstates
  · intro hcond
    obtain ⟨huid, hpass, hvosep, hfqan, hattributes, hvonul, hurinul⟩ := hcond
    have hcvo := cStr_of_noNul hvonul
    have hcuri := cStr_of_noNul hurinul
    rw [map_cStr_eq_self.mpr hattributes, hcvo] at hstates
    rw [hcvo, hcuri, map_cStr_eq_self.mpr hfqan] at hac
    have hpoint := strstr_append_self uri sep_drop hvosep
    obtain ⟨sig, hsig⟩ : ∃ sig, ac.signature = some sig := ⟨_, by rw [hac]; rfl⟩
    refine ⟨_, (validate_written hset hserial h1 h2 hac).mpr
      ⟨huid, hpass, sig, vo.length, hsig, hpoint, rfl⟩, rfl, ?_, ?_, ?_, ?_⟩
    · simp
    · exact List.drop_left' (by simp)
    · simp only [flatMap_writtenAttributes]
      exact hstates
    · intro al hal
      simp only [writtenAttributes] at hal
      split at hal
      · simp at hal
      · rw [List.mem_singleton.mp hal]

/-! ### Two holders -/

namespace Sample

/-- The server's side of `world`, at dawn; it can write two times. -/
def signer : Signer :=
  { time := 1704067200
    generalizedTimeSet := fun t =>
      if t = 1704067200 then some dawn else if t = 1704110400 then some noon else none
    asn1Sign := fun alg _ _ => (alg, ⟨"signed".toList⟩)
    sha1 := world.sha1
    genericExtension := fun _ => none }

def write (holder : X509) : Chk Ac :=
  createac signer server none holder ⟨20⟩ ⟨false, [7]⟩ [fqan] ["host.example.org".toList]
    ["::shoe=44".toList] "vo".toList "voms.example.org:15000".toList 43200 false none

/-- Both times are read as the numbers they were written for. -/
theorem cmpTime_eq {a : Asn1Time} {t : Int}
    (h : a = dawn ∧ t = 1704067200 ∨ a = noon ∧ t = 1704110400) (u : Int) :
    world.cmpTime a u = if t ≤ u then -1 else 1 := by
  rcases h with ⟨rfl, rfl⟩ | ⟨rfl, rfl⟩
  · rfl
  · rfl

theorem timesAgree : TimesAgree signer world := by
  intro t a h
  have hwhich : a = dawn ∧ t = 1704067200 ∨ a = noon ∧ t = 1704110400 := by
    simp only [signer] at h
    split at h
    · next ht => exact Or.inl ⟨(Option.some.inj h).symm, ht⟩
    · split at h
      · next ht => exact Or.inr ⟨(Option.some.inj h).symm, ht⟩
      · cases h
  refine ⟨?_, fun u => ⟨fun hu => ?_, fun hu => ?_⟩⟩
  · rcases hwhich with ⟨rfl, -⟩ | ⟨rfl, -⟩
    · rfl
    · rfl
  · rw [cmpTime_eq hwhich, if_pos hu]
    decide
  · rw [cmpTime_eq hwhich, if_neg (by omega)]
    decide

theorem setting : Setting signer world server ⟨20⟩ 43200 0 where
  sha1 := rfl
  times := timesAgree
  signed := fun info => rfl
  after := by decide
  before := by decide

/-- The same user, with a unique identifier for the issuer. -/
def uidUser : X509 := { user with issuerUID := some ⟨"ca-7".toList⟩ }

end Sample

/-- `createac_validate_iff` where the client accepts. -/
theorem createac_validate_sample :
    ∃ ac, Sample.write Sample.user = .ok ac ∧
      ReadsBack Sample.world Sample.server Sample.user 0 ac [Sample.fqan] ["::shoe=44".toList]
        "vo".toList "voms.example.org:15000".toList := by
  refine ⟨_, rfl, (createac_validate_iff Sample.setting none (by decide) [Sample.fqan]
    ["host.example.org".toList] ["::shoe=44".toList] "vo".toList "voms.example.org:15000".toList
    false rfl).mpr ⟨rfl, ?_, by decide, ?_⟩⟩
  · intro t ht
    cases ht
    exact ⟨_, rfl, by decide⟩
  · exact ⟨by decide, by decide, by decide, by decide⟩

/-- The server issues this AC, and the client it was issued to refuses it. -/
theorem createac_uid_refused :
    Setting Sample.signer Sample.world Sample.server ⟨20⟩ 43200 0 ∧
      Sample.world.hostname = some "host.example.org".toList ∧
      ∃ ac, Sample.write Sample.uidUser = .ok ac ∧
        validate Sample.world (some Sample.uidUser) (some Sample.server) ac VomsRecord.new
          VERIFY_FULL 0 = .err .AC_ERR_UID_MISMATCH ∧
        ¬ ReadsBack Sample.world Sample.server Sample.uidUser 0 ac [Sample.fqan]
          ["::shoe=44".toList] "vo".toList "voms.example.org:15000".toList := by
  refine ⟨Sample.setting, rfl, _, rfl, by decide, ?_⟩
  intro h
  obtain ⟨v, hv, -⟩ := h
  cases (show validate _ _ _ _ _ _ _ = .err .AC_ERR_UID_MISMATCH by decide).symm.trans hv

end Voms.L2
