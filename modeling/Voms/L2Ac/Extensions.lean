import Voms.L2Ac.Holder
import Voms.L2Ac.Safety

/-!
# What the extensions of an accepted AC say

`checkExtensions` (`src/ac/validate.cc`) should accept a key identifier only
if it names the issuer, and an AC with targets exactly on a host whose full
name is among them.

* A key identifier of any length but 20 is accepted without a comparison,
  and one without `keyid` is read as if it had an issuer and a serial
  (`keyBound_iff`).
* The targets are looked at only if their extension is critical, and the
  name they are compared with is empty unless there is no domain
  (`targetsHonoured_iff`).
-/
namespace Voms.L2

open Voms.Core Voms.L1

/-! ## What comes before -/

section

variable {W : World} {exts : List X509Ext} {iss : Option X509} {valids : VerifyType}
  {attributes : List AttributeList}

/-- The key identifier is reached: nothing before it is refused. -/
def Reached (W : World) (exts : List X509Ext) (valids : VerifyType)
    (attributes : List AttributeList) : Prop :=
  CriticalPassed W exts valids ∧ ∃ als, readAttributes exts attributes = .ok als

theorem reached_of_ok {als : List AttributeList}
    (h : checkExtensions W exts iss valids attributes = .ok als) :
    Reached W exts valids attributes := by
  unfold checkExtensions at h
  simp only [Res.bind_eq_ok, Res.require_eq_ok] at h
  obtain ⟨rev, hrev, akid, hakid, u, hcritical, als', hals, -⟩ := h
  exact ⟨⟨by simp [hrev], by simp [hakid], hcritical⟩, als', hals⟩

/-- From there only the key identifier counts. -/
theorem checkExtensions_of_reached {akid : X509Ext} {als : List AttributeList}
    (hakid : extByNid exts .authorityKeyIdentifier = some akid)
    (hcritical : CriticalPassed W exts valids) (hals : readAttributes exts attributes = .ok als) :
    checkExtensions W exts iss valids attributes =
      (Res.when (has valids VERIFY_KEY) (do
        let key ← Res.require .AC_ERR_EXT_KEY akid.d2iKeyId
        checkKeyId W valids iss key) >>= fun _ => pure als) := by
  obtain ⟨hrev, -, hloop⟩ := hcritical
  obtain ⟨rev, hrev⟩ := Option.ne_none_iff_exists'.mp hrev
  unfold checkExtensions
  simp only [hrev, hakid, hloop, hals, Res.require_some, Res.ok_bind]

end

/-! ## The key identifier -/

/-- By the hash of its key, or by its name and serial. -/
def NamesIssuer (W : World) (iss : X509) (key : AuthorityKeyId) : Prop :=
  (key.keyid = some (W.sha1 iss.publicKey) ∧ (W.sha1 iss.publicKey).length = 20) ∨
    (key.keyid = none ∧ key.serial = some iss.serialNumber ∧
      ∃ n, (key.issuer.getD []).head? = some (.dirName n) ∧ n.same iss.subject = true)

/-- What acceptance should say of the extension, and that any other is
refused without reading what is not there. -/
structure KeyBound (W : World) (exts : List X509Ext) (iss : X509) (valids : VerifyType)
    (attributes : List AttributeList) (akid : X509Ext) : Prop where
  accepted : ∀ als, checkExtensions W exts (some iss) valids attributes = .ok als →
    ∃ key, akid.d2iKeyId = some key ∧ NamesIssuer W iss key
  refused : Reached W exts valids attributes →
    (¬ ∃ key, akid.d2iKeyId = some key ∧ NamesIssuer W iss key) →
      ∃ e, checkExtensions W exts (some iss) valids attributes = .err e

/-- A `keyid` of 20 bytes, or an issuer with a directoryName and a serial. -/
structure KeyIdShape (key : AuthorityKeyId) : Prop where
  length : ∀ keyid, key.keyid = some keyid → keyid.length = 20
  parts : KeyIdOk key

theorem NamesIssuer.shape {W : World} {iss : X509} {key : AuthorityKeyId}
    (h : NamesIssuer W iss key) : KeyIdShape key := by
  rcases h with ⟨hkeyid, hlen⟩ | ⟨hkeyid, hserial, n, hn, -⟩
  · refine ⟨fun keyid h => ?_, fun h => ?_⟩
    · cases hkeyid.symm.trans h
      exact hlen
    · cases hkeyid.symm.trans h
  · refine ⟨fun keyid h => (nomatch hkeyid.symm.trans h), fun _ => ⟨by simp [hserial], ?_⟩⟩
    exact ⟨_, hn, rfl⟩

/-- A key identifier of the right shape is accepted only by its hash. -/
theorem checkKeyId_of_shape {W : World} {valids : VerifyType} {iss : X509}
    {key : AuthorityKeyId} (h : KeyIdShape key) :
    (checkKeyId W valids (some iss) key = .ok () ∧ NamesIssuer W iss key) ∨
      ∃ e, checkKeyId W valids (some iss) key = .err e := by
  unfold checkKeyId
  cases hkeyid : key.keyid with
  | some keyid =>
    have hlen := h.length keyid hkeyid
    by_cases hhash : keyid = W.sha1 iss.publicKey
    · exact Or.inl ⟨Res.guard_pos (fun hne => hne.2 hhash), Or.inl ⟨by rw [hkeyid, hhash],
        by rw [← hhash, hlen]⟩⟩
    · exact Or.inr ⟨_, Res.guard_neg (fun hne => hne ⟨hlen, hhash⟩)⟩
  | none =>
    obtain ⟨hserial, g, hg, hdir⟩ := h.parts hkeyid
    obtain ⟨serial, hserial⟩ := Option.ne_none_iff_exists'.mp hserial
    obtain ⟨n, rfl⟩ := GeneralName.isDirName_iff.mp hdir
    exact Or.inr ⟨.AC_ERR_EXT_KEY, by rw [hserial, hg]; rfl⟩

/-- One of another shape is accepted, or read where nothing is. -/
theorem checkKeyId_of_not_shape {W : World} {valids : VerifyType} {iss : X509}
    {key : AuthorityKeyId} (h : ¬ KeyIdShape key) :
    checkKeyId W valids (some iss) key = .ok () ∨
      ∃ f, checkKeyId W valids (some iss) key = .fault f := by
  by_cases hparts : KeyIdOk key
  · left
    have hlen : ∃ keyid, key.keyid = some keyid ∧ keyid.length ≠ 20 := by
      by_contra hnone
      refine h ⟨fun keyid hkeyid => ?_, hparts⟩
      by_contra hlen
      exact hnone ⟨keyid, hkeyid, hlen⟩
    obtain ⟨keyid, hkeyid, hlen⟩ := hlen
    unfold checkKeyId
    rw [hkeyid]
    exact Res.guard_pos fun hne => hlen hne.1
  · right
    by_contra hfault
    have hnever : Res.Never BadRead (checkKeyId W valids (some iss) key) :=
      fun f hf => absurd ⟨f, hf⟩ hfault
    exact hparts (never_checkKeyId.mp hnever (Option.some_ne_none iss))

/-- **When a key identifier binds the AC to its issuer**: exactly if, where
it is reached, it has a `keyid` of 20 bytes, or none but an issuer and a
serial. -/
theorem keyBound_iff {W : World} {exts : List X509Ext} {iss : X509} {valids : VerifyType}
    {attributes : List AttributeList} {akid : X509Ext} (hkey : has valids VERIFY_KEY)
    (hakid : extByNid exts .authorityKeyIdentifier = some akid) :
    KeyBound W exts iss valids attributes akid ↔
      (Reached W exts valids attributes → ∀ key, akid.d2iKeyId = some key → KeyIdShape key) := by
  have hrest {als : List AttributeList} {key : AuthorityKeyId}
      (hcritical : CriticalPassed W exts valids) (hals : readAttributes exts attributes = .ok als)
      (hd2i : akid.d2iKeyId = some key) :
      checkExtensions W exts (some iss) valids attributes =
        (checkKeyId W valids (some iss) key >>= fun _ => pure als) := by
    rw [checkExtensions_of_reached hakid hcritical hals, Res.when_pos hkey, hd2i,
      Res.require_some, Res.ok_bind]
  have hundecoded {als : List AttributeList} (hcritical : CriticalPassed W exts valids)
      (hals : readAttributes exts attributes = .ok als) (hd2i : akid.d2iKeyId = none) :
      checkExtensions W exts (some iss) valids attributes = .err .AC_ERR_EXT_KEY := by
    rw [checkExtensions_of_reached hakid hcritical hals, Res.when_pos hkey, hd2i]
    rfl
  constructor
  · intro h hreached key hd2i
    obtain ⟨hcritical, als, hals⟩ := hreached
    by_contra hshape
    have hunnamed : ¬ ∃ key, akid.d2iKeyId = some key ∧ NamesIssuer W iss key := by
      rintro ⟨key', hd2i', hnames⟩
      cases hd2i.symm.trans hd2i'
      exact hshape hnames.shape
    rcases checkKeyId_of_not_shape hshape with hok | ⟨f, hf⟩
    · exact hunnamed (h.accepted als (by rw [hrest hcritical hals hd2i, hok]; rfl))
    · obtain ⟨e, he⟩ := h.refused ⟨hcritical, als, hals⟩ hunnamed
      rw [hrest hcritical hals hd2i, hf] at he
      cases he
  · intro h
    constructor
    · intro als hok
      have hreached := reached_of_ok hok
      obtain ⟨hcritical, als', hals⟩ := id hreached
      cases hd2i : akid.d2iKeyId with
      | none =>
        rw [hundecoded hcritical hals hd2i] at hok
        cases hok
      | some key =>
        rcases checkKeyId_of_shape (h hreached key hd2i) with ⟨-, hnames⟩ | ⟨e, he⟩
        · exact ⟨key, rfl, hnames⟩
        · rw [hrest hcritical hals hd2i, he] at hok
          cases hok
    · intro hreached hunnamed
      obtain ⟨hcritical, als, hals⟩ := hreached
      cases hd2i : akid.d2iKeyId with
      | none => exact ⟨_, hundecoded hcritical hals hd2i⟩
      | some key =>
        rcases checkKeyId_of_shape (h ⟨hcritical, als, hals⟩ key hd2i) with
          ⟨-, hnames⟩ | ⟨e, he⟩
        · exact absurd ⟨key, hd2i, hnames⟩ hunnamed
        · rw [hrest hcritical hals hd2i, he]
          exact ⟨e, rfl⟩

namespace Sample

/-- The extensions of `Sample.exts` with another key identifier. -/
def keyed (key : AuthorityKeyId) : List X509Ext :=
  [⟨.idcenoRevAvail, false, .null⟩, ⟨.authorityKeyIdentifier, false, .keyId key⟩]

end Sample

/-- `keyBound_iff` for the hash of the server's key. -/
theorem keyBound_server :
    KeyBound Sample.world Sample.exts Sample.server VERIFY_FULL []
      ⟨.authorityKeyIdentifier, false,
        .keyId ⟨some (Sample.world.sha1 Sample.server.publicKey), none, none⟩⟩ := by
  refine (keyBound_iff (by decide) (by decide)).mpr fun _ key hkey => ?_
  cases hkey
  exact ⟨fun keyid h => by cases h; decide, nofun⟩

/-- One byte passes for the key of any issuer, and without a `keyid` a serial
is read that is not there. -/
theorem keyBound_fails :
    ¬ KeyBound Sample.world (Sample.keyed ⟨some [0], none, none⟩) Sample.server VERIFY_KEY []
        ⟨.authorityKeyIdentifier, false, .keyId ⟨some [0], none, none⟩⟩ ∧
      ¬ KeyBound Sample.world (Sample.keyed ⟨none, none, none⟩) Sample.server VERIFY_KEY []
        ⟨.authorityKeyIdentifier, false, .keyId ⟨none, none, none⟩⟩ := by
  have hreached (key : AuthorityKeyId) :
      Reached Sample.world (Sample.keyed key) VERIFY_KEY [] := ⟨⟨nofun, nofun, rfl⟩, [], rfl⟩
  have hunnamed {key : AuthorityKeyId} (h : ¬ KeyIdShape key) :
      ¬ ∃ key', X509Ext.d2iKeyId ⟨.authorityKeyIdentifier, false, .keyId key⟩ = some key' ∧
        NamesIssuer Sample.world Sample.server key' := by
    rintro ⟨key', hkey, hnames⟩
    cases hkey
    exact h hnames.shape
  constructor
  · intro h
    refine hunnamed (fun hshape => ?_) (h.accepted [] rfl)
    exact absurd (hshape.length [0] rfl) (by decide)
  · intro h
    obtain ⟨e, he⟩ := h.refused (hreached _) (hunnamed fun hshape => (hshape.parts rfl).1 rfl)
    cases he

/-! ## The targets -/

/-- The name of a host in a domain. -/
def fullName (host domain : Str) : Str :=
  if domain = "(none)".toList ∨ domain = [] then host
  else if domain.head? = some '.' then host ++ domain
  else host ++ '.' :: domain

/-- The extension decodes, and the URI is among its targets. -/
def Lists (ex : X509Ext) (name : Str) : Prop :=
  ∃ targets, ex.d2iTargets = some targets ∧ ∃ t ∈ targets, t.name = some (.uri name)

/-- What a restriction to hosts should mean for a host of this name. -/
structure Honoured (W : World) (exts : List X509Ext) (iss : Option X509) (valids : VerifyType)
    (attributes : List AttributeList) (ex : X509Ext) (name : Str) : Prop where
  accepted : (∃ als, checkExtensions W exts iss valids attributes = .ok als) → Lists ex name
  listed : Lists ex name →
    checkExtensions W exts iss valids attributes ≠ .err .AC_ERR_TARGET_NO_MATCH ∧
      checkExtensions W exts iss valids attributes ≠ .err .AC_ERR_EXT_TARGET

/-- The name that is looked for. -/
theorem getfqdn_eq {W : World} {host domain : Str} (hhost : W.hostname = some host)
    (hdomain : W.domainname = some domain) :
    getfqdn W = if domain = "(none)".toList then host else [] := by
  unfold getfqdn
  rw [hhost, hdomain]

theorem checkTargets_ok {W : World} {ex : X509Ext} :
    checkTargets W ex = .ok () ↔ Lists ex (getfqdn W) := by
  have hmatches (t : AcTarget) :
      targetMatches (getfqdn W) t = true ↔ t.name = some (.uri (getfqdn W)) := by
    unfold targetMatches
    split
    · next d hname => simp [hname]
    · next hname => exact ⟨nofun, fun h => (hname _ h).elim⟩
  unfold checkTargets Lists
  cases ex.d2iTargets with
  | none => simp
  | some targets => simp [List.any_eq_true, hmatches]

theorem checkTargets_err {W : World} {ex : X509Ext} (h : ¬ Lists ex (getfqdn W)) :
    checkTargets W ex = .err .AC_ERR_TARGET_NO_MATCH ∨
      checkTargets W ex = .err .AC_ERR_EXT_TARGET := by
  rw [← checkTargets_ok] at h
  unfold checkTargets at h ⊢
  split
  · next targets htargets =>
    rw [htargets] at h
    exact Or.inl (Res.guard_neg fun hany => h (Res.guard_pos hany))
  · exact Or.inr rfl

section

variable {W : World} {valids : VerifyType} {pos4 : Option Nat}

/-- A critical extension gets through as the first one of the targets. -/
theorem checkCritical_ok : ∀ {pos : Nat} {exts : List X509Ext},
    checkCritical W valids pos4 pos exts = .ok () → ∀ (i : Nat) (ex : X509Ext),
      exts[i]? = some ex → ex.critical = true → has valids VERIFY_TARGET → checkTargets W ex = .ok ()
  | _, [], _, _, _, hex, _, _ => by simp at hex
  | pos, ex' :: rest, h, i, ex, hex, hcritical, htarget => by
    unfold checkCritical at h
    obtain ⟨hhead, hrest⟩ := Res.then_eq_ok.mp h
    cases i with
    | zero =>
      cases hex
      obtain ⟨-, h⟩ := Res.then_eq_ok.mp (Res.when_eq_ok.mp hhead hcritical)
      exact Res.when_eq_ok.mp h htarget
    | succ i => exact checkCritical_ok hrest i ex (by simpa using hex) hcritical htarget

/-- An error about targets is one about those of the first extension. -/
theorem checkCritical_err {e : AcErr} (he : e ≠ .AC_ERR_EXT_CRIT) :
    ∀ {pos : Nat} {exts : List X509Ext}, checkCritical W valids pos4 pos exts = .err e →
      ∃ i ex, exts[i]? = some ex ∧ pos4 = some (pos + i) ∧ ex.critical = true ∧
        checkTargets W ex = .err e
  | _, [], h => by cases h
  | pos, ex :: rest, h => by
    unfold checkCritical at h
    rcases Res.bind_eq_err.mp h with h | ⟨u, -, h⟩
    · obtain ⟨hcritical, h⟩ := Res.when_eq_err.mp h
      rcases Res.bind_eq_err.mp h with h | ⟨u, hguard, h⟩
      · exact absurd (Res.guard_eq_err.mp h).2.symm he
      · obtain ⟨-, h⟩ := Res.when_eq_err.mp h
        exact ⟨0, ex, rfl, (Res.guard_eq_ok.mp hguard).symm, hcritical, h⟩
    · obtain ⟨i, ex', hex, hpos, hcritical, h⟩ := checkCritical_err he h
      refine ⟨i + 1, ex', by simpa using hex, ?_, hcritical, h⟩
      rw [hpos]
      congr 1
      omega

end

/-- The first extension of a type stands where it is found. -/
theorem extByNid_getElem? {t : ExtType} : ∀ {exts : List X509Ext} {i : Nat},
    exts.findIdx? (·.type == t) = some i → extByNid exts t = exts[i]?
  | [], _, h => by cases h
  | ex :: exts, i, h => by
    unfold extByNid
    rw [List.findIdx?_cons] at h
    rw [List.find?_cons]
    cases hex : ex.type == t with
    | true =>
      rw [if_pos hex] at h
      cases h
      rfl
    | false =>
      rw [if_neg (by simp [hex])] at h
      obtain ⟨i, hi, rfl⟩ := Option.map_eq_some_iff.mp h
      exact extByNid_getElem? hi

section

variable {W : World} {exts : List X509Ext} {iss : Option X509} {valids : VerifyType}
  {attributes : List AttributeList} {ex : X509Ext}

/-- The errors of a target that is not the host. -/
def TargetErr (e : AcErr) : Prop := e = .AC_ERR_TARGET_NO_MATCH ∨ e = .AC_ERR_EXT_TARGET

theorem interpretHolders_ne_err {e : AcErr} : ∀ {l : List AcAttHolder}, interpretHolders l ≠ .err e
  | [] => nofun
  | holder :: l => by
    intro h
    unfold interpretHolders at h
    rcases Res.bind_eq_err.mp h with h | ⟨al, -, h⟩
    · unfold interpretHolder at h
      rcases Res.bind_eq_err.mp h with h | ⟨gn, -, h⟩
      · cases hgn : holder.grantor.head? <;> simp [hgn] at h
      · cases gn <;> cases h
    · rcases Res.bind_eq_err.mp h with h | ⟨als, -, h⟩
      · exact interpretHolders_ne_err h
      · cases h

theorem readAttributes_err {e : AcErr} (h : readAttributes exts attributes = .err e) :
    e = .AC_ERR_ATTRIBS := by
  unfold readAttributes interpretAttributes at h
  split at h
  · rcases Res.bind_eq_err.mp h with h | ⟨a, -, h⟩
    · rcases Res.bind_eq_err.mp h with h | ⟨als, -, h⟩
      · exact absurd h interpretHolders_ne_err
      · cases h
    · rcases Res.bind_eq_err.mp h with h | ⟨u, -, h⟩
      · exact (Res.guard_eq_err.mp h).2.symm
      · cases h
  · cases h

theorem checkKeyId_err {e : AcErr} {key : AuthorityKeyId}
    (h : checkKeyId W valids iss key = .err e) : e = .AC_ERR_EXT_KEY := by
  unfold checkKeyId at h
  split at h
  · split at h
    · exact (Res.guard_eq_err.mp h).2.symm
    · rcases Res.bind_eq_err.mp h with h | ⟨serial, -, h⟩
      · cases hserial : key.serial <;> simp [hserial] at h
      · rcases Res.bind_eq_err.mp h with h | ⟨name, -, h⟩
        · cases hname : (key.issuer.getD []).head? <;> simp [hname] at h
        · rcases Res.bind_eq_err.mp h with h | ⟨n, -, h⟩
          · cases name <;> cases h
          · cases h
            rfl
  · exact (Res.guard_eq_err.mp h).2.symm

/-- Outside the loop over the critical extensions no error is about targets. -/
theorem checkExtensions_err {e : AcErr} (he : TargetErr e)
    (h : checkExtensions W exts iss valids attributes = .err e) :
    checkCritical W valids (exts.findIdx? (·.type == .idceTargets)) 0 exts = .err e := by
  have hother {p : Option X509Ext} (h : Res.require .AC_ERR_EXTS_ABSENT p = .err e) : False := by
    cases p <;> rcases he with rfl | rfl <;> cases h
  unfold checkExtensions at h
  rcases Res.bind_eq_err.mp h with h | ⟨rev, -, h⟩
  · exact (hother h).elim
  rcases Res.bind_eq_err.mp h with h | ⟨akid, -, h⟩
  · exact (hother h).elim
  rcases Res.bind_eq_err.mp h with h | ⟨u, -, h⟩
  · exact h
  rcases Res.bind_eq_err.mp h with h | ⟨als, -, h⟩
  · cases readAttributes_err h
    rcases he with he | he <;> cases he
  rcases Res.bind_eq_err.mp h with h | ⟨u, -, h⟩
  · obtain ⟨-, h⟩ := Res.when_eq_err.mp h
    rcases Res.bind_eq_err.mp h with h | ⟨key, -, h⟩
    · cases hkey : akid.d2iKeyId <;> rw [hkey] at h <;> cases h
      rcases he with he | he <;> cases he
    · cases checkKeyId_err h
      rcases he with he | he <;> cases he
  · cases h

end

/-- The errors of the loop about targets are those of a critical extension
that does not list the name looked for. -/
theorem checkExtensions_target_err {W : World} {exts : List X509Ext} {iss : Option X509}
    {valids : VerifyType} {attributes : List AttributeList} {ex : X509Ext} {e : AcErr}
    (hex : extByNid exts .idceTargets = some ex) (he : TargetErr e)
    (h : checkExtensions W exts iss valids attributes = .err e) :
    ex.critical = true ∧ ¬ Lists ex (getfqdn W) := by
  have hcrit : e ≠ .AC_ERR_EXT_CRIT := by rcases he with rfl | rfl <;> nofun
  obtain ⟨i, ex', hex', hpos, hcritical, htargets⟩ :=
    checkCritical_err hcrit (checkExtensions_err he h)
  rw [Nat.zero_add] at hpos
  have hsame : some ex = some ex' := by rw [← hex, extByNid_getElem? hpos, hex']
  cases hsame
  refine ⟨hcritical, fun hlists => ?_⟩
  rw [checkTargets_ok.mpr hlists] at htargets
  cases htargets

/-- A critical extension of an accepted AC lists the name looked for. -/
theorem checkExtensions_lists {W : World} {exts : List X509Ext} {iss : Option X509}
    {valids : VerifyType} {attributes als : List AttributeList} {ex : X509Ext}
    (hex : extByNid exts .idceTargets = some ex) (hcritical : ex.critical = true)
    (htarget : has valids VERIFY_TARGET)
    (h : checkExtensions W exts iss valids attributes = .ok als) : Lists ex (getfqdn W) := by
  obtain ⟨⟨-, -, hloop⟩, -⟩ := reached_of_ok h
  have hmem : ex ∈ exts := List.mem_of_find?_eq_some hex
  obtain ⟨i, hi⟩ := List.mem_iff_getElem?.mp hmem
  exact checkTargets_ok.mp (checkCritical_ok hloop i ex hi hcritical htarget)

namespace Sample

/-- An AC with nothing but its targets. -/
def targeted (ex : X509Ext) : List X509Ext :=
  [⟨.idcenoRevAvail, false, .null⟩, ⟨.authorityKeyIdentifier, false, .null⟩, ex]

/-- Nothing but the targets decides about it. -/
theorem checkExtensions_targeted {W : World} {critical : Bool} {body : ExtBody} :
    checkExtensions W (targeted ⟨.idceTargets, critical, body⟩) none VERIFY_TARGET [] =
      (Res.when (critical = true) (checkTargets W ⟨.idceTargets, critical, body⟩) >>=
        fun _ => .ok []) := by
  cases critical with
  | false => rfl
  | true =>
    cases h : checkTargets W ⟨.idceTargets, true, body⟩ <;>
      simp [checkExtensions, targeted, extByNid, checkCritical, readAttributes, Res.when, has,
        VERIFY_TARGET, VERIFY_KEY, Res.guard, List.findIdx?_cons, h]

end Sample

/-- **When a restriction to hosts means what it says**, whatever else the AC
holds: exactly if its extension is critical and the host has no domain (or
the list does not tell its full name from the empty one), or if it is not
critical and lists the host anyway. -/
theorem targetsHonoured_iff {W : World} {host domain : Str} (hhost : W.hostname = some host)
    (hdomain : W.domainname = some domain) (critical : Bool) (body : ExtBody) :
    (∀ exts iss valids attributes,
        extByNid exts .idceTargets = some ⟨.idceTargets, critical, body⟩ →
        has valids VERIFY_TARGET →
          Honoured W exts iss valids attributes ⟨.idceTargets, critical, body⟩
            (fullName host domain)) ↔
      critical = true ∧ (domain = "(none)".toList ∨
          (Lists ⟨.idceTargets, critical, body⟩ (fullName host domain) ↔
            Lists ⟨.idceTargets, critical, body⟩ [])) ∨
        critical = false ∧ Lists ⟨.idceTargets, critical, body⟩ (fullName host domain) := by
  -- the condition, with the name the code looks for
  have hsought : (domain = "(none)".toList ∨
      (Lists ⟨.idceTargets, critical, body⟩ (fullName host domain) ↔
        Lists ⟨.idceTargets, critical, body⟩ [])) ↔
      (Lists ⟨.idceTargets, critical, body⟩ (fullName host domain) ↔
        Lists ⟨.idceTargets, critical, body⟩ (getfqdn W)) := by
    rw [getfqdn_eq hhost hdomain]
    by_cases hnone : domain = "(none)".toList
    · have hfull : fullName host domain = host := if_pos (Or.inl hnone)
      rw [if_pos hnone, hfull]
      exact ⟨fun _ => Iff.rfl, fun _ => Or.inl hnone⟩
    · rw [if_neg hnone]
      exact ⟨fun h => h.resolve_left hnone, Or.inr⟩
  rw [hsought]
  constructor
  · intro h
    have hhonoured := h (Sample.targeted ⟨.idceTargets, critical, body⟩) none VERIFY_TARGET [] rfl
      (by decide)
    obtain ⟨haccepted, hlisted⟩ := hhonoured
    rw [Sample.checkExtensions_targeted] at haccepted hlisted
    cases critical with
    | false => exact Or.inr ⟨rfl, haccepted ⟨[], rfl⟩⟩
    | true =>
      refine Or.inl ⟨rfl, fun hlists => ?_, fun hlists => ?_⟩
      · by_contra hnot
        rw [Res.when_pos rfl] at hlisted
        rcases checkTargets_err hnot with herr | herr
        · exact (hlisted hlists).1 (by rw [herr]; rfl)
        · exact (hlisted hlists).2 (by rw [herr]; rfl)
      · rw [Res.when_pos rfl, checkTargets_ok.mpr hlists] at haccepted
        exact haccepted ⟨[], rfl⟩
  · rintro (⟨hcritical, hsame⟩ | ⟨hcritical, hlists⟩) exts iss valids attributes hex htarget
    · constructor
      · rintro ⟨als, hok⟩
        exact hsame.mpr (checkExtensions_lists hex hcritical htarget hok)
      · intro hlists
        exact ⟨fun herr => (checkExtensions_target_err hex (Or.inl rfl) herr).2 (hsame.mp hlists),
          fun herr => (checkExtensions_target_err hex (Or.inr rfl) herr).2 (hsame.mp hlists)⟩
    · constructor
      · exact fun _ => hlists
      · intro _
        have hnot {e : AcErr} (he : TargetErr e) :
            checkExtensions W exts iss valids attributes ≠ .err e := fun herr =>
          Bool.false_ne_true (hcritical.symm.trans (checkExtensions_target_err hex he herr).1)
        exact ⟨hnot (Or.inl rfl), hnot (Or.inr rfl)⟩

namespace Sample

/-- `Sample.world`, in a domain. -/
def domainWorld : World :=
  { world with hostname := some "host".toList, domainname := some "example.org".toList }

/-- Targets with one host. -/
def onlyHost (name : Str) : ExtBody := .targets [⟨some (.uri name), none, none⟩]

theorem lists_onlyHost {critical : Bool} {name name' : Str} :
    Lists ⟨.idceTargets, critical, onlyHost name⟩ name' ↔ name = name' := by
  simp [Lists, X509Ext.d2iTargets, onlyHost]

end Sample

/-- `targetsHonoured_iff` for a host without a domain. -/
theorem targetsHonoured_none :
    Honoured Sample.world
      (Sample.targeted ⟨.idceTargets, true, Sample.onlyHost "host.example.org".toList⟩) none
      VERIFY_TARGET [] ⟨.idceTargets, true, Sample.onlyHost "host.example.org".toList⟩
      (fullName "host.example.org".toList "(none)".toList) :=
  (targetsHonoured_iff (W := Sample.world) rfl rfl true _).mpr (Or.inl ⟨rfl, Or.inl rfl⟩)
    _ _ _ _ rfl (by decide)

/-- In a domain the host is refused where it is listed, and accepted where
another one is, if only the extension is not critical. -/
theorem targetsHonoured_fails :
    ¬ Honoured Sample.domainWorld
        (Sample.targeted ⟨.idceTargets, true, Sample.onlyHost "host.example.org".toList⟩) none
        VERIFY_TARGET [] ⟨.idceTargets, true, Sample.onlyHost "host.example.org".toList⟩
        (fullName "host".toList "example.org".toList) ∧
      ¬ Honoured Sample.domainWorld
        (Sample.targeted ⟨.idceTargets, false, Sample.onlyHost "other.org".toList⟩) none
        VERIFY_TARGET [] ⟨.idceTargets, false, Sample.onlyHost "other.org".toList⟩
        (fullName "host".toList "example.org".toList) := by
  constructor
  · intro h
    exact (h.listed (Sample.lists_onlyHost.mpr (by decide))).1 rfl
  · intro h
    exact absurd (Sample.lists_onlyHost.mp (h.accepted ⟨[], rfl⟩)) (by decide)

end Voms.L2
