import Voms.L4Api.Policy

/-!
# What a verification fills

`verifydata` reads of the object its directory, its verification flags and
its verification time, and fills a record from the AC, the holder's
certificate and the issuer. `verifydata_some` says which record, for an
object in any state. Two consequences: objects with the same `Settings`
agree on what they accept (`Settings.accepts`), and what is filled does not
depend on the rest of the flags (`verifydata_unique`).
-/
namespace Voms.L4

open Voms.Core Voms.L1 Voms.L2

/-! ## `validate` -/

variable {W : World} {cert issuer : Option X509} {ac : Ac} {v r r' : VomsRecord}
  {valids valids' : VerifyType} {vertime vertime' : Int}

theorem fillUser_unique (h : fillUser valids cert v = .ok r)
    (h' : fillUser valids' cert v = .ok r') : r = r' := by
  unfold fillUser at h h'
  cases cert with
  | some c => exact Res.ok.inj (h.symm.trans h')
  | none =>
    obtain ⟨-, h⟩ := Res.then_eq_ok.mp h
    obtain ⟨-, h'⟩ := Res.then_eq_ok.mp h'
    exact Res.ok.inj (h.symm.trans h')

theorem checkExtensions_unique {exts : List X509Ext} {attributes als als' : List AttributeList}
    (h : checkExtensions W exts issuer valids attributes = .ok als)
    (h' : checkExtensions W exts issuer valids' attributes = .ok als') : als = als' := by
  have hread : ∀ {valids : VerifyType} {als : List AttributeList},
      checkExtensions W exts issuer valids attributes = .ok als →
        readAttributes exts attributes = .ok als := by
    intro valids als h
    unfold checkExtensions at h
    obtain ⟨-, -, h⟩ := Res.bind_eq_ok.mp h
    obtain ⟨akid, -, h⟩ := Res.bind_eq_ok.mp h
    dsimp only at h
    obtain ⟨-, h⟩ := Res.then_eq_ok.mp h
    obtain ⟨als', hals, h⟩ := Res.bind_eq_ok.mp h
    obtain ⟨-, h⟩ := Res.then_eq_ok.mp h
    rw [hals, ← h]
    rfl
  exact Res.ok.inj ((hread h).symm.trans (hread h'))

/-- The flags and the time decide whether a record is filled, not how. -/
theorem validateRest_unique (h : validateRest W cert issuer ac v valids vertime = .ok r)
    (h' : validateRest W cert issuer ac v valids' vertime' = .ok r') : r = r' := by
  unfold validateRest at h h'
  obtain ⟨v1, hv1, h⟩ := Res.bind_eq_ok.mp h
  obtain ⟨v2, hv2, h⟩ := Res.bind_eq_ok.mp h
  obtain ⟨v3, hv3, h⟩ := Res.bind_eq_ok.mp h
  obtain ⟨info, hinfo, h⟩ := Res.bind_eq_ok.mp h
  obtain ⟨-, h⟩ := Res.then_eq_ok.mp h
  obtain ⟨validity, hvalidity, h⟩ := Res.bind_eq_ok.mp h
  obtain ⟨b, hb, h⟩ := Res.bind_eq_ok.mp h
  obtain ⟨a, ha, h⟩ := Res.bind_eq_ok.mp h
  obtain ⟨-, h⟩ := Res.then_eq_ok.mp h
  obtain ⟨-, h⟩ := Res.then_eq_ok.mp h
  obtain ⟨als, hals, h⟩ := Res.bind_eq_ok.mp h
  rw [hv1, Res.ok_bind] at h'
  obtain ⟨v2', hv2', h'⟩ := Res.bind_eq_ok.mp h'
  obtain rfl := fillUser_unique hv2 hv2'
  rw [hv3, Res.ok_bind, hinfo, Res.ok_bind] at h'
  obtain ⟨-, h'⟩ := Res.then_eq_ok.mp h'
  rw [hvalidity, Res.ok_bind, hb, Res.ok_bind, ha, Res.ok_bind] at h'
  obtain ⟨-, h'⟩ := Res.then_eq_ok.mp h'
  obtain ⟨-, h'⟩ := Res.then_eq_ok.mp h'
  obtain ⟨als', hals', h'⟩ := Res.bind_eq_ok.mp h'
  obtain rfl := checkExtensions_unique hals hals'
  exact Res.ok.inj (h.symm.trans h')

/-! ## `verifydata` -/

variable {F : Files} {holder : Option X509} {s s' t : VomsData} {w w' : VomsRecord}

/-- The issuer `verifydata` works with: the one `check` gives where a
signature is asked for, none elsewhere. -/
def IssuerOf (F : Files) (s : VomsData) (ac : Ac) (issuer : Option X509) : Prop :=
  if has s.verType VERIFY_SIGN then ∃ x chain, issuer = some x ∧ Selected F s ac x chain ∧
    accepted F.toWorld ac chain x = true
  else issuer = none

/-- The record that is filled, with a copy of the AC. -/
def Fills (F : Files) (s : VomsData) (ac : Ac) (holder issuer : Option X509) (w : VomsRecord) :
    Prop :=
  ∃ v, validate F.toWorld holder issuer ac .new s.verType s.verificationtime = .ok v ∧
    (has s.verType VERIFY_ID → ∃ iss, issuer = some iss ∧
      verifyID iss v.server v.serverca = true) ∧
    w = { v with ac := F.acDup ac, holder }

theorem pure_some_iff : (∃ s', (pure (some v, s) : Eval (Option VomsRecord × VomsData)) =
    .ok (some w, s')) ↔ w = v := by
  refine ⟨fun h => ?_, fun h => ?_⟩
  · obtain ⟨_, h⟩ := h
    cases h
    rfl
  · subst h
    exact ⟨s, rfl⟩

theorem finishRecord_some : (∃ s', finishRecord F ac holder issuer v s = .ok (some w, s')) ↔
    (has s.verType VERIFY_ID → ∃ iss, issuer = some iss ∧
      verifyID iss v.server v.serverca = true) ∧ w = { v with ac := F.acDup ac, holder } := by
  unfold finishRecord
  dsimp only
  by_cases hid : has s.verType VERIFY_ID
  · rw [if_pos hid, forall_prop_of_true hid]
    cases issuer with
    | none =>
      refine ⟨fun h => ?_, fun h => ?_⟩
      · obtain ⟨_, h⟩ := h
        cases h
      · obtain ⟨⟨_, h, -⟩, -⟩ := h
        cases h
    | some iss =>
      rw [Res.deref_some, Res.ok_bind]
      by_cases hver : verifyID iss v.server v.serverca = true
      · rw [if_pos hver, and_iff_right ⟨iss, rfl, hver⟩]
        exact pure_some_iff
      · rw [if_neg hver]
        refine ⟨fun h => ?_, fun h => ?_⟩
        · obtain ⟨_, h⟩ := h
          cases h
        · obtain ⟨⟨_, h, hver'⟩, -⟩ := h
          cases h
          exact absurd hver' hver
  · rw [if_neg hid, and_iff_right (fun h => absurd h hid)]
    exact pure_some_iff

theorem verifyWith_some : (∃ s', verifyWith F ac holder issuer s = .ok (some w, s')) ↔
    Fills F s ac holder issuer w := by
  unfold verifyWith verifyac Fills
  cases hv : validate F.toWorld holder issuer ac .new s.verType s.verificationtime with
  | err e => simp
  | fault f => simp
  | ok v =>
    simp only [Res.pure_eq, Res.ok_bind, Res.ok.injEq, exists_eq_left']
    exact finishRecord_some

/-- What is filled depends on the flags and the time only. -/
theorem Fills.congr (htype : s.verType = t.verType)
    (htime : s.verificationtime = t.verificationtime) :
    Fills F s ac holder issuer w ↔ Fills F t ac holder issuer w := by
  unfold Fills
  rw [htype, htime]

theorem OnlyErrors.fills (h : OnlyErrors s t) :
    Fills F s ac holder issuer w ↔ Fills F t ac holder issuer w := by
  obtain ⟨e, m, rfl⟩ := h
  exact Fills.congr rfl rfl

theorem verifySigned_some (hsign : has s.verType VERIFY_SIGN) :
    (∃ s', verifySigned F ac holder s = .ok (some w, s')) ↔
      ∃ issuer, IssuerOf F s ac issuer ∧ Fills F s ac holder issuer w := by
  unfold verifySigned IssuerOf
  simp only [if_pos hsign]
  constructor
  · intro h
    obtain ⟨s', h⟩ := h
    obtain ⟨⟨x, s1⟩, hcheck, h⟩ := Res.bind_eq_ok.mp h
    cases x with
    | none => cases h
    | some x =>
      obtain ⟨chain, hsel, hacc⟩ := check_some.mp ⟨s1, hcheck⟩
      exact ⟨some x, ⟨x, chain, rfl, hsel, hacc⟩,
        (check_frame hcheck).fills.mpr (verifyWith_some.mp ⟨s', h⟩)⟩
  · intro h
    obtain ⟨_, ⟨x, chain, rfl, hsel, hacc⟩, hfills⟩ := h
    obtain ⟨s1, hcheck⟩ := check_some.mpr ⟨chain, hsel, hacc⟩
    obtain ⟨s', h⟩ := verifyWith_some.mpr ((check_frame hcheck).fills.mp hfills)
    exact ⟨s', Res.bind_eq_ok.mpr ⟨_, hcheck, h⟩⟩

/-- The record `verifydata` gives, if it gives one. -/
theorem verifydata_some : (∃ s', verifydata F ac holder s = .ok (some w, s')) ↔
    (holder = none → ¬ has s.verType VERIFY_ID) ∧
      ∃ issuer, IssuerOf F s ac issuer ∧ Fills F s ac holder issuer w := by
  unfold verifydata
  by_cases hnone : holder = none ∧ has s.verType VERIFY_ID
  · simp [hnone]
  · have hid : holder = none → ¬ has s.verType VERIFY_ID := fun h h' => hnone ⟨h, h'⟩
    rw [if_neg hnone, and_iff_right hid]
    by_cases hsign : has s.verType VERIFY_SIGN
    · simp only [hsign, if_true]
      exact verifySigned_some hsign
    · simp only [hsign, if_false]
      have hissuer : ∀ issuer, IssuerOf F s ac issuer ↔ issuer = none := by
        intro issuer
        unfold IssuerOf
        rw [if_neg hsign]
      simp only [hissuer, exists_eq_left]
      exact verifyWith_some

/-! ## Settings -/

/-- Two objects that verify alike. -/
structure Settings (s t : VomsData) : Prop where
  vomsCertDir : s.vomsCertDir = t.vomsCertDir
  verType : s.verType = t.verType
  verificationtime : s.verificationtime = t.verificationtime

theorem Settings.refl (s : VomsData) : Settings s s := ⟨rfl, rfl, rfl⟩

theorem Settings.trans {s' : VomsData} (h : Settings s t) (h' : Settings t s') : Settings s s' :=
  ⟨h.1.trans h'.1, h.2.trans h'.2, h.3.trans h'.3⟩

theorem OnlyErrors.settings (h : OnlyErrors s t) : Settings s t := by
  obtain ⟨e, m, rfl⟩ := h
  exact ⟨rfl, rfl, rfl⟩

theorem Noted.settings (h : Noted s t) : Settings s t := by
  obtain ⟨e, m, x, w, rfl⟩ := h
  exact ⟨rfl, rfl, rfl⟩

/-- The issuer is looked up in the directory of the object. -/
theorem Selected.congr {chain : List X509} {x : X509} (hdir : s.vomsCertDir = t.vomsCertDir) :
    Selected F s ac x chain ↔ Selected F t ac x chain := by
  unfold Selected lscFile vomsDirectories
  rw [hdir]

theorem IssuerOf.congr (hdir : s.vomsCertDir = t.vomsCertDir)
    (hsign : has s.verType VERIFY_SIGN ↔ has t.verType VERIFY_SIGN) :
    IssuerOf F s ac issuer ↔ IssuerOf F t ac issuer := by
  unfold IssuerOf
  by_cases h : has s.verType VERIFY_SIGN
  · simp only [h, hsign.mp h, if_true, Selected.congr hdir]
  · simp only [h, mt hsign.mpr h, if_false]

theorem IssuerOf.unique {issuer' : Option X509} (h : IssuerOf F s ac issuer)
    (h' : IssuerOf F s ac issuer') : issuer = issuer' := by
  unfold IssuerOf at h h'
  split at h
  · rw [if_pos ‹_›] at h'
    obtain ⟨x, chain, rfl, hsel, -⟩ := h
    obtain ⟨x', chain', rfl, hsel', -⟩ := h'
    rw [(hsel.unique hsel').1]
  · rw [if_neg ‹_›] at h'
    exact h.trans h'.symm

/-- What one of them accepts the other accepts. -/
theorem Settings.accepts (h : Settings s t)
    (hs : ∃ s', verifydata F ac holder s = .ok (some w, s')) :
    ∃ t', verifydata F ac holder t = .ok (some w, t') := by
  obtain ⟨hid, issuer, hissuer, hfills⟩ := verifydata_some.mp hs
  rw [h.verType] at hid
  rw [IssuerOf.congr h.vomsCertDir (by rw [h.verType])] at hissuer
  rw [Fills.congr h.verType h.verificationtime] at hfills
  exact verifydata_some.mpr ⟨hid, issuer, hissuer, hfills⟩

/-- Objects with one directory that both ask for a signature, or both do
not, fill the same record. -/
theorem verifydata_unique (hdir : s.vomsCertDir = t.vomsCertDir)
    (hsign : has s.verType VERIFY_SIGN ↔ has t.verType VERIFY_SIGN)
    (hs : ∃ s', verifydata F ac holder s = .ok (some w, s'))
    (ht : ∃ t', verifydata F ac holder t = .ok (some w', t')) : w = w' := by
  obtain ⟨-, issuer, hissuer, v, hv, -, rfl⟩ := verifydata_some.mp hs
  obtain ⟨-, issuer', hissuer', v', hv', -, rfl⟩ := verifydata_some.mp ht
  rw [IssuerOf.congr hdir hsign] at hissuer
  obtain rfl := hissuer.unique hissuer'
  rw [validateRest_unique (validate_eq_ok.mp hv).2.2 (validate_eq_ok.mp hv').2.2]

/-- A verification leaves the settings as they are. -/
theorem verifydata_settings {o : Option VomsRecord}
    (h : verifydata F ac holder s = .ok (o, s')) : Settings s s' := by
  unfold verifydata at h
  simp only at h
  split at h
  · cases h
    exact ⟨rfl, rfl, rfl⟩
  · have hstart : Settings s
        { s with used := s.used ++ [s.verType], error := .VERR_FORMAT } := ⟨rfl, rfl, rfl⟩
    split at h
    · exact hstart.trans (verifySigned_frame h).settings
    · exact hstart.trans (verifyWith_frame h).settings

/-- It leaves the records too. -/
theorem verifydata_data {o : Option VomsRecord}
    (h : verifydata F ac holder s = .ok (o, s')) : s'.data = s.data := by
  unfold verifydata at h
  simp only at h
  split at h
  · cases h
    rfl
  · split at h
    · have hdata := (verifySigned_frame h).idle.data
      exact hdata
    · have hdata := (verifyWith_frame h).idle.data
      exact hdata

end Voms.L4
