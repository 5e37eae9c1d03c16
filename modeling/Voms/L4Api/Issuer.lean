import Voms.L2Ac.Holder
import Voms.L4Api.VerifyData

/-!
# Which issuer an accepted AC had, and what was verified of it

With `VERIFY_SIGN`, `verifydata` should accept an AC only if `AC_verify`
gave 1 with the key of the issuer `check` selected and `X509_verify_cert`
gave 1 on its chain. It does not look at the results that closely:

* `check_from_file` returns its certificate even when `check_sig_ac`
  failed, and then does not verify the chain at all;
* `check_cert` takes every result of `X509_verify_cert` but 0 for success;
* `validate`, the last barrier, takes every result of `AC_verify` but 0.

`verifydata_succeeds_iff` says what acceptance amounts to and
`verifydata_verified_iff` when it implies verification.
-/
namespace Voms.L4

open Voms.Core Voms.L1 Voms.L2

/-! ## Frame -/

/-- Nothing but the error state differs. -/
def OnlyErrors (s s' : VomsData) : Prop := ∃ e m, s' = { s with error := e, errmessage := m }

theorem OnlyErrors.refl (s : VomsData) : OnlyErrors s s := ⟨s.error, s.errmessage, rfl⟩

theorem OnlyErrors.trans {s s' s'' : VomsData} (h : OnlyErrors s s') (h' : OnlyErrors s' s'') :
    OnlyErrors s s'' := by
  obtain ⟨e, m, rfl⟩ := h
  obtain ⟨e', m', rfl⟩ := h'
  exact ⟨e', m', rfl⟩

theorem OnlyErrors.seterror (s : VomsData) (e : VError) (m : Str) : OnlyErrors s (s.seterror e m) :=
  ⟨e, m, rfl⟩

theorem OnlyErrors.error (s : VomsData) (e : VError) : OnlyErrors s { s with error := e } :=
  ⟨e, s.errmessage, rfl⟩

theorem OnlyErrors.setError {s s' : VomsData} (h : OnlyErrors s s') (e : VError) (m : Str) :
    OnlyErrors s (s'.seterror e m) := h.trans (.seterror s' e m)

theorem checkSigAc_frame (W : World) (cert : Option X509) (ac : Ac) (s : VomsData) :
    OnlyErrors s (checkSigAc W cert ac s).2 := by
  unfold checkSigAc
  split
  · exact .refl s
  · split
    · exact .refl s
    · simp only
      split
      · exact .seterror ..
      · exact .refl s

theorem scanDirectory_frame (F : Files) (ac : Ac) (directory : Str) :
    ∀ (names : List Str) (s : VomsData), OnlyErrors s (scanDirectory F ac directory names s).2
  | [], s => .refl s
  | name :: rest, s => by
    unfold scanDirectory
    split
    · exact scanDirectory_frame F ac directory rest s
    · next x _ =>
      have hsig := checkSigAc_frame F.toWorld (some x) ac s
      simp only
      split
      · exact hsig
      · exact hsig.trans (scanDirectory_frame F ac directory rest _)

theorem scanDirectories_frame (F : Files) (ac : Ac) :
    ∀ (dirs : List Str) (s : VomsData), OnlyErrors s (scanDirectories F ac dirs s).2
  | [], s => .refl s
  | directory :: rest, s => by
    unfold scanDirectories
    split
    · exact scanDirectories_frame F ac rest s
    · next names _ =>
      have hscan := scanDirectory_frame F ac directory names s
      split
      · next heq => rw [heq] at hscan; exact hscan
      · next heq => rw [heq] at hscan; exact hscan.trans (scanDirectories_frame F ac rest _)

/-! ## What the scan of the directories finds -/

/-- `AC_verify` gives 1 with this certificate's key. -/
def sigAcOk (W : World) (ac : Ac) (cert : X509) : Bool :=
  cert.key.isSome && W.acVerify ac cert.key == .good

theorem checkSigAc_fst (W : World) (cert : X509) (ac : Ac) (s : VomsData) :
    (checkSigAc W (some cert) ac s).1 = sigAcOk W ac cert := by
  unfold checkSigAc sigAcOk
  cases hk : cert.key with
  | none => simp only [hk, Option.isSome_none, Bool.false_and]
  | some key =>
    simp only [hk, Option.isSome_some, Bool.true_and]
    cases W.acVerify ac (some key) <;> rfl

/-- The certificates of a directory, in the order they are read. -/
def candidates (F : Files) (directory : Str) : List X509 :=
  ((F.opendir directory).getD []).filterMap fun name =>
    F.readPem (directory ++ "/".toList ++ name)

theorem scanDirectory_fst (F : Files) (ac : Ac) (directory : Str) :
    ∀ (names : List Str) (s : VomsData), (scanDirectory F ac directory names s).1 =
      (names.filterMap fun name => F.readPem (directory ++ "/".toList ++ name)).find?
        (sigAcOk F.toWorld ac)
  | [], s => rfl
  | name :: rest, s => by
    unfold scanDirectory
    cases hx : F.readPem (directory ++ "/".toList ++ name) with
    | none => simp only [List.filterMap_cons, hx, scanDirectory_fst F ac directory rest]
    | some x =>
      simp only [List.filterMap_cons, hx, List.find?_cons, checkSigAc_fst]
      cases sigAcOk F.toWorld ac x with
      | true => rfl
      | false => exact scanDirectory_fst F ac directory rest _

theorem scanDirectories_fst (F : Files) (ac : Ac) :
    ∀ (dirs : List Str) (s : VomsData), (scanDirectories F ac dirs s).1 =
      (dirs.flatMap (candidates F)).find? (sigAcOk F.toWorld ac)
  | [], s => rfl
  | directory :: rest, s => by
    rw [List.flatMap_cons, List.find?_append]
    unfold scanDirectories candidates
    cases hd : F.opendir directory with
    | none => exact scanDirectories_fst F ac rest s
    | some names =>
      have hscan := scanDirectory_fst F ac directory names s
      simp only [Option.getD_some]
      rw [← hscan]
      cases hr : scanDirectory F ac directory names s with
      | mk x s' =>
        cases x with
        | some x => rfl
        | none => exact scanDirectories_fst F ac rest s'

/-! ## Selection -/

/-- The issuer and the chain that `check` selects: the certificates of the
AC if there is an LSC file and they match it, else the first certificate of
the directories whose key verifies the AC. -/
def Selected (F : Files) (s : VomsData) (ac : Ac) (issuer : X509) (chain : List X509) : Prop :=
  ∃ voname hostname, voOfAc ac = .ok (voname, hostname) ∧
    match lscFile F s ac voname hostname with
    | some (file, _) => (certseqExt ac).bind (·.d2iCerts) = some chain ∧
      chain.head? = some issuer ∧ matchFile chain (fileLines file) = .ok true
    | none => chain = [issuer] ∧ ((vomsDirectories s voname).flatMap (candidates F)).find?
      (sigAcOk F.toWorld ac) = some issuer

/-- What `check` makes of the selected issuer: it is dropped only when its
signature was verified and its chain was not. -/
def accepted (W : World) (ac : Ac) (chain : List X509) (issuer : X509) : Bool :=
  !(sigAcOk W ac issuer && W.x509VerifyCert chain == .bad)

theorem toInt_ne_zero (r : Verdict) : decide (r.toInt ≠ 0) = !(r == .bad) := by
  cases r <;> rfl

theorem checkCert_fst (W : World) (stack : List X509) (s : VomsData) :
    (checkCert W stack s).1 = !(W.x509VerifyCert stack == .bad) := toInt_ne_zero _

theorem judgeChain_frame (W : World) (ac : Ac) (chain : List X509) (voname : Str) (s : VomsData) :
    OnlyErrors s (judgeChain W ac chain voname s).2 := by
  have hsig := checkSigAc_frame W chain.head? ac s
  unfold judgeChain
  simp only
  split
  · split
    · exact hsig.trans (.error ..)
    · exact (hsig.trans (.error ..)).setError _ _
  · exact hsig.setError _ _

theorem judgeChain_fst (W : World) (ac : Ac) (chain : List X509) (voname : Str) (s : VomsData) :
    (judgeChain W ac chain voname s).1 = chain.head?.filter (accepted W ac chain) := by
  unfold judgeChain
  cases hhead : chain.head? with
  | none => rfl
  | some c =>
    simp only [checkSigAc_fst, checkCert_fst, Option.filter_some, accepted]
    by_cases hsig : sigAcOk W ac c = true
    · by_cases hbad : (W.x509VerifyCert chain == .bad) = true <;> simp [hsig, hbad]
    · simp [hsig]

theorem checkFromFile_frame {F : Files} {ac : Ac} {file voname filename : Str}
    {s s' : VomsData} {r : Option X509}
    (h : checkFromFile F ac file voname filename s = .ok (r, s')) : OnlyErrors s s' := by
  unfold checkFromFile at h
  obtain ⟨ext, -, h⟩ := Res.bind_eq_ok.mp h
  obtain ⟨certs, -, h⟩ := Res.bind_eq_ok.mp h
  obtain ⟨success, -, h⟩ := Res.bind_eq_ok.mp h
  have hjudge := judgeChain_frame F.toWorld ac certs voname s
  cases success with
  | true =>
    rw [if_pos rfl] at h
    rw [show judgeChain F.toWorld ac certs voname s = (r, s') from Res.ok.inj h] at hjudge
    exact hjudge
  | false =>
    cases h
    exact .seterror ..

theorem checkFromFile_some {F : Files} {ac : Ac} {file voname filename : Str} {s : VomsData}
    {issuer : X509} :
    (∃ s', checkFromFile F ac file voname filename s = .ok (some issuer, s')) ↔
      ∃ chain, (certseqExt ac).bind (·.d2iCerts) = some chain ∧ chain.head? = some issuer ∧
        matchFile chain (fileLines file) = .ok true ∧ accepted F.toWorld ac chain issuer = true := by
  unfold checkFromFile
  simp only [Res.bind_eq_ok, Res.deref_eq_ok, Option.bind_eq_some_iff]
  constructor
  · intro h
    obtain ⟨s', ext, hext, chain, hchain, success, hmatch, h⟩ := h
    cases success with
    | false => cases h
    | true =>
      rw [if_pos rfl] at h
      have hfst := judgeChain_fst F.toWorld ac chain voname s
      rw [show judgeChain F.toWorld ac chain voname s = (some issuer, s') from Res.ok.inj h] at hfst
      obtain ⟨hhead, hacc⟩ := Option.filter_eq_some_iff.mp hfst.symm
      exact ⟨chain, ⟨ext, hext, hchain⟩, hhead, hmatch, hacc⟩
  · intro h
    obtain ⟨chain, ⟨ext, hext, hchain⟩, hhead, hmatch, hacc⟩ := h
    refine ⟨(judgeChain F.toWorld ac chain voname s).2, ext, hext, chain, hchain, true, hmatch, ?_⟩
    rw [if_pos rfl]
    refine congrArg Res.ok (Prod.ext ?_ rfl)
    rw [judgeChain_fst, hhead, Option.filter_some, if_pos hacc]

theorem checkFromCerts_frame (F : Files) (ac : Ac) (voname : Str) (s : VomsData) :
    OnlyErrors s (checkFromCerts F ac voname s).2 := by
  have hscan := scanDirectories_frame F ac (vomsDirectories s voname) s
  unfold checkFromCerts
  split
  · next heq =>
    rw [heq] at hscan
    exact hscan.trans (.error ..)
  · next heq =>
    rw [heq] at hscan
    exact hscan.setError _ _

theorem checkFromCerts_fst (F : Files) (ac : Ac) (voname : Str) (s : VomsData) :
    (checkFromCerts F ac voname s).1 = (((vomsDirectories s voname).flatMap (candidates F)).find?
      (sigAcOk F.toWorld ac)).filter (fun x => accepted F.toWorld ac [x] x) := by
  have hscan := scanDirectories_fst F ac (vomsDirectories s voname) s
  unfold checkFromCerts
  cases hr : scanDirectories F ac (vomsDirectories s voname) s with
  | mk x s' =>
    rw [hr] at hscan
    rw [← hscan]
    cases x with
    | none => rfl
    | some x =>
      have hsig : sigAcOk F.toWorld ac x = true := List.find?_some hscan.symm
      simp only [checkCert_fst, Option.filter_some, accepted, hsig, Bool.true_and]

theorem check_frame {F : Files} {ac : Ac} {s s' : VomsData} {r : Option X509}
    (h : check F ac s = .ok (r, s')) : OnlyErrors s s' := by
  have hdir := OnlyErrors.error s .VERR_DIR
  unfold check at h
  simp only at h
  split at h
  · cases h
  · cases h
    exact hdir.setError _ _
  · next voname hostname _ =>
    split at h
    · exact hdir.trans (checkFromFile_frame h)
    · have hcerts := checkFromCerts_frame F ac voname { s with error := .VERR_DIR }
      rw [Res.ok.inj h] at hcerts
      exact hdir.trans hcerts

/-- `check` gives an issuer exactly when it selects one and does not drop it. -/
theorem check_some {F : Files} {ac : Ac} {s : VomsData} {issuer : X509} :
    (∃ s', check F ac s = .ok (some issuer, s')) ↔
      ∃ chain, Selected F s ac issuer chain ∧ accepted F.toWorld ac chain issuer = true := by
  unfold check Selected
  simp only
  cases hvo : voOfAc ac with
  | fault f => simp
  | err message => simp
  | ok names =>
    obtain ⟨voname, hostname⟩ := names
    have hlsc : lscFile F { s with error := .VERR_DIR } ac voname hostname =
        lscFile F s ac voname hostname := rfl
    simp only [Res.ok.injEq, Prod.mk.injEq, hlsc]
    cases hfile : lscFile F s ac voname hostname with
    | some p =>
      obtain ⟨file, filecerts⟩ := p
      simp only
      rw [checkFromFile_some]
      constructor
      · intro h
        obtain ⟨chain, hchain, hhead, hmatch, hacc⟩ := h
        refine ⟨chain, ⟨voname, hostname, ⟨rfl, rfl⟩, ?_⟩, hacc⟩
        rw [hfile]
        exact ⟨hchain, hhead, hmatch⟩
      · intro h
        obtain ⟨chain, ⟨_, _, ⟨rfl, rfl⟩, hsel⟩, hacc⟩ := h
        rw [hfile] at hsel
        exact ⟨chain, hsel.1, hsel.2.1, hsel.2.2, hacc⟩
    | none =>
      have hfst := checkFromCerts_fst F ac voname { s with error := .VERR_DIR }
      constructor
      · intro h
        obtain ⟨s', h⟩ := h
        rw [Res.ok.inj h] at hfst
        obtain ⟨hfind, hacc⟩ := Option.filter_eq_some_iff.mp hfst.symm
        refine ⟨[issuer], ⟨voname, hostname, ⟨rfl, rfl⟩, ?_⟩, hacc⟩
        rw [hfile]
        exact ⟨rfl, hfind⟩
      · intro h
        obtain ⟨chain, ⟨_, _, ⟨rfl, rfl⟩, hsel⟩, hacc⟩ := h
        rw [hfile] at hsel
        obtain ⟨rfl, hfind⟩ := hsel
        refine ⟨_, congrArg Res.ok (Prod.ext ?_ rfl)⟩
        rw [hfst]
        exact Option.filter_eq_some_iff.mpr ⟨hfind, hacc⟩

/-- Only one issuer and one chain are selected. -/
theorem Selected.unique {F : Files} {s : VomsData} {ac : Ac} {issuer issuer' : X509}
    {chain chain' : List X509} (h : Selected F s ac issuer chain)
    (h' : Selected F s ac issuer' chain') : issuer = issuer' ∧ chain = chain' := by
  obtain ⟨voname, hostname, hvo, h⟩ := h
  obtain ⟨voname', hostname', hvo', h'⟩ := h'
  cases hvo.symm.trans hvo'
  cases hfile : lscFile F s ac voname hostname with
  | some p =>
    rw [hfile] at h h'
    obtain ⟨hchain, hhead, -⟩ := h
    obtain ⟨hchain', hhead', -⟩ := h'
    cases hchain.symm.trans hchain'
    exact ⟨Option.some.inj (hhead.symm.trans hhead'), rfl⟩
  | none =>
    rw [hfile] at h h'
    obtain ⟨rfl, hfind⟩ := h
    obtain ⟨rfl, hfind'⟩ := h'
    cases hfind.symm.trans hfind'
    exact ⟨rfl, rfl⟩

/-! ## Acceptance -/

/-- The AC passes everything in `verifydata` but the tests of its signature
and of the issuer's chain. -/
def Passes (F : Files) (s : VomsData) (ac : Ac) (holder : Option X509) (issuer : X509) : Prop :=
  (holder = none → ¬ has s.verType VERIFY_ID) ∧ checkFields ac = .ok () ∧
    ∃ v, validateRest F.toWorld holder (some issuer) ac VomsRecord.new s.verType
        s.verificationtime = .ok v ∧
      (has s.verType VERIFY_ID → verifyID issuer v.server v.serverca = true)

theorem finishRecord_succeeds {F : Files} {ac : Ac} {holder : Option X509} {issuer : X509}
    {v : VomsRecord} {s : VomsData} :
    (∃ v' s', finishRecord F ac holder (some issuer) v s = .ok (some v', s')) ↔
      (has s.verType VERIFY_ID → verifyID issuer v.server v.serverca = true) := by
  unfold finishRecord
  by_cases hid : has s.verType VERIFY_ID
  · rw [if_pos hid, Res.deref_some, Res.ok_bind]
    by_cases hver : verifyID issuer v.server v.serverca = true
    · rw [if_pos hver]
      exact ⟨fun _ _ => hver, fun _ => ⟨_, _, rfl⟩⟩
    · rw [if_neg hver]
      refine ⟨fun h => ?_, fun h => absurd (h hid) hver⟩
      obtain ⟨_, _, h⟩ := h
      cases congrArg Prod.fst (Res.ok.inj h)
  · rw [if_neg hid]
    exact ⟨fun _ h => absurd h hid, fun _ => ⟨_, _, rfl⟩⟩

theorem checkSignature_eq_ok {W : World} {issuer : X509} {ac : Ac} :
    checkSignature W (some issuer) ac = .ok () ↔ W.acVerify ac issuer.key ≠ .bad := by
  simp [checkSignature, CHECK, Verdict.toInt_eq_zero]

theorem verifyWith_succeeds {F : Files} {ac : Ac} {holder : Option X509} {issuer : X509}
    {s : VomsData} (hsign : has s.verType VERIFY_SIGN) :
    (∃ v s', verifyWith F ac holder (some issuer) s = .ok (some v, s')) ↔
      checkFields ac = .ok () ∧ F.acVerify ac issuer.key ≠ .bad ∧
      ∃ v, validateRest F.toWorld holder (some issuer) ac VomsRecord.new s.verType
          s.verificationtime = .ok v ∧
        (has s.verType VERIFY_ID → verifyID issuer v.server v.serverca = true) := by
  have hvalidate : ∀ v, validate F.toWorld holder (some issuer) ac VomsRecord.new s.verType
      s.verificationtime = .ok v ↔ checkFields ac = .ok () ∧ F.acVerify ac issuer.key ≠ .bad ∧
        validateRest F.toWorld holder (some issuer) ac VomsRecord.new s.verType
          s.verificationtime = .ok v := by
    intro v
    rw [validate_eq_ok, checkSignature_eq_ok]
    simp only [ne_zero_of_has hsign, hsign, ne_eq, not_false_eq_true, forall_const]
  unfold verifyWith verifyac
  constructor
  · intro h
    obtain ⟨v', s', h⟩ := h
    obtain ⟨⟨r, t⟩, hac, h⟩ := Res.bind_eq_ok.mp h
    split at hac
    · next v hv =>
      cases hac
      obtain ⟨hfields, hsig, hrest⟩ := (hvalidate v).mp hv
      exact ⟨hfields, hsig, v, hrest, finishRecord_succeeds.mp ⟨v', s', h⟩⟩
    · cases hac
      cases h
    · cases hac
  · intro h
    obtain ⟨hfields, hsig, v, hrest, hver⟩ := h
    obtain ⟨v', s', hfinish⟩ : ∃ v' s', finishRecord F ac holder (some issuer) v s =
        .ok (some v', s') := finishRecord_succeeds.mpr hver
    refine ⟨v', s', ?_⟩
    rw [(hvalidate v).mpr ⟨hfields, hsig, hrest⟩]
    exact hfinish

theorem verifySigned_succeeds {F : Files} {ac : Ac} {holder : Option X509} {s : VomsData}
    (hsign : has s.verType VERIFY_SIGN) :
    (∃ v s', verifySigned F ac holder s = .ok (some v, s')) ↔
      ∃ issuer chain, Selected F s ac issuer chain ∧ accepted F.toWorld ac chain issuer = true ∧
        checkFields ac = .ok () ∧ F.acVerify ac issuer.key ≠ .bad ∧
        ∃ v, validateRest F.toWorld holder (some issuer) ac VomsRecord.new s.verType
            s.verificationtime = .ok v ∧
          (has s.verType VERIFY_ID → verifyID issuer v.server v.serverca = true) := by
  unfold verifySigned
  constructor
  · intro h
    obtain ⟨v, s', h⟩ := h
    obtain ⟨⟨r, t⟩, hcheck, h⟩ := Res.bind_eq_ok.mp h
    cases r with
    | none => cases h
    | some issuer =>
      obtain ⟨chain, hsel, hacc⟩ := check_some.mp ⟨t, hcheck⟩
      obtain ⟨e, m, rfl⟩ := check_frame hcheck
      exact ⟨issuer, chain, hsel, hacc, (verifyWith_succeeds
        (s := { s with error := e, errmessage := m }) hsign).mp ⟨v, s', h⟩⟩
  · intro h
    obtain ⟨issuer, chain, hsel, hacc, hwith⟩ := h
    obtain ⟨t, hcheck⟩ := check_some.mpr ⟨chain, hsel, hacc⟩
    obtain ⟨e, m, rfl⟩ := check_frame hcheck
    obtain ⟨v, s', h⟩ := (verifyWith_succeeds
      (s := { s with error := e, errmessage := m }) hsign).mpr hwith
    exact ⟨v, s', Res.bind_eq_ok.mpr ⟨_, hcheck, h⟩⟩

/-- What it takes for `verifydata` to accept an AC when a signature is asked for. -/
theorem verifydata_succeeds_iff {F : Files} {ac : Ac} {holder : Option X509} {s : VomsData}
    (hsign : has s.verType VERIFY_SIGN) :
    (∃ v s', verifydata F ac holder s = .ok (some v, s')) ↔
      ∃ issuer chain, Selected F s ac issuer chain ∧ Passes F s ac holder issuer ∧
        accepted F.toWorld ac chain issuer = true ∧ F.acVerify ac issuer.key ≠ .bad := by
  unfold verifydata Passes
  by_cases hnone : holder = none ∧ has s.verType VERIFY_ID
  · simp only [hnone, and_self, if_true]
    constructor
    · intro h
      obtain ⟨_, _, h⟩ := h
      cases h
    · intro h
      obtain ⟨_, _, -, ⟨hid, -⟩, -⟩ := h
      exact absurd trivial (hid trivial)
  · have hid : holder = none → ¬ has s.verType VERIFY_ID := fun h h' => hnone ⟨h, h'⟩
    simp only [hnone, hsign, if_false, if_true]
    rw [verifySigned_succeeds (by exact hsign)]
    constructor
    · intro h
      obtain ⟨issuer, chain, hsel, hacc, hfields, hsig, hrest⟩ := h
      exact ⟨issuer, chain, hsel, ⟨hid, hfields, hrest⟩, hacc, hsig⟩
    · intro h
      obtain ⟨issuer, chain, hsel, ⟨-, hfields, hrest⟩, hacc, hsig⟩ := h
      exact ⟨issuer, chain, hsel, hacc, hfields, hsig, hrest⟩

/-! ## Verification -/

/-- `AC_verify` gave 1 with the issuer's key and `X509_verify_cert` gave 1
on the issuer's chain. -/
def Verified (W : World) (ac : Ac) (issuer : X509) (chain : List X509) : Prop :=
  sigAcOk W ac issuer = true ∧ W.x509VerifyCert chain = .good

/-- `AC_verify` gives 0, or it gives 1 with a key that can be read and
`X509_verify_cert` does not give -1. -/
def Sound (W : World) (ac : Ac) (issuer : X509) (chain : List X509) : Prop :=
  W.acVerify ac issuer.key = .bad ∨
    (sigAcOk W ac issuer = true ∧ W.x509VerifyCert chain ≠ .error)

theorem sound_iff {W : World} {ac : Ac} {issuer : X509} {chain : List X509} :
    Sound W ac issuer chain ↔ (accepted W ac chain issuer = true →
      W.acVerify ac issuer.key ≠ .bad → Verified W ac issuer chain) := by
  unfold Sound Verified accepted
  by_cases hsig : sigAcOk W ac issuer = true
  · have hgood : W.acVerify ac issuer.key = .good := by
      simp only [sigAcOk, Bool.and_eq_true, beq_iff_eq] at hsig
      exact hsig.2
    cases W.x509VerifyCert chain <;> simp [hsig, hgood]
  · by_cases hbad : W.acVerify ac issuer.key = .bad <;> simp [hsig, hbad]

/-- **What acceptance guarantees.** Where a signature is asked for, an
accepted AC was signed with the key of the selected issuer and the issuer's
chain was verified, exactly if the issuer an otherwise acceptable AC selects
is not one of those `verifydata` misjudges. -/
theorem verifydata_verified_iff (F : Files) (ac : Ac) (holder : Option X509) (s : VomsData)
    (hsign : has s.verType VERIFY_SIGN) :
    ((∃ v s', verifydata F ac holder s = .ok (some v, s')) →
        ∃ issuer chain, Selected F s ac issuer chain ∧ Verified F.toWorld ac issuer chain) ↔
      ∀ issuer chain, Selected F s ac issuer chain → Passes F s ac holder issuer →
        Sound F.toWorld ac issuer chain := by
  rw [verifydata_succeeds_iff hsign]
  constructor
  · intro h issuer chain hsel hpass
    refine sound_iff.mpr fun hacc hsig => ?_
    obtain ⟨issuer', chain', hsel', hver⟩ := h ⟨issuer, chain, hsel, hpass, hacc, hsig⟩
    obtain ⟨rfl, rfl⟩ := hsel.unique hsel'
    exact hver
  · intro h hsucc
    obtain ⟨issuer, chain, hsel, hpass, hacc, hsig⟩ := hsucc
    exact ⟨issuer, chain, hsel, sound_iff.mp (h issuer chain hsel hpass) hacc hsig⟩

/-! ### Two clients -/

namespace Sample

export Voms.L2.Sample (ac)

/-- A client whose VO directory holds nothing but the server's LSC file. -/
def files (verdict : Verdict) : Files :=
  { Voms.L2.Sample.world with
    asn1Verify := fun _ _ _ _ => verdict
    x509VerifyCert := fun _ => verdict
    openFile := fun path =>
      if path = "/etc/vomsdir/vo/host.example.org.lsc".toList then some "/CN=voms\n/CN=ca".toList
      else none
    opendir := fun _ => none
    readPem := fun _ => none }

def client : VomsData := .new "/etc/vomsdir".toList

/-- The client selects the certificate in the AC, whatever its libraries say. -/
theorem selected (verdict : Verdict) :
    Selected (files verdict) client (d2iAc ac) Voms.L2.Sample.server [Voms.L2.Sample.server] :=
  ⟨_, _, rfl, rfl, rfl, rfl⟩

end Sample

/-- `verifydata_verified_iff` where signature and chain are good. -/
theorem verifydata_verified_good :
    (∃ v s', verifydata (Sample.files .good) (d2iAc Sample.ac) (some Voms.L2.Sample.user)
        Sample.client = .ok (some v, s')) ∧
      ∃ issuer chain, Selected (Sample.files .good) Sample.client (d2iAc Sample.ac) issuer chain ∧
        Verified (Sample.files .good).toWorld (d2iAc Sample.ac) issuer chain := by
  have hrun : ∃ v s', verifydata (Sample.files .good) (d2iAc Sample.ac)
      (some Voms.L2.Sample.user) Sample.client = .ok (some v, s') := ⟨_, _, rfl⟩
  refine ⟨hrun, (verifydata_verified_iff _ _ _ _ (by decide)).mpr ?_ hrun⟩
  intro issuer chain hsel _
  obtain ⟨rfl, rfl⟩ := (Sample.selected .good).unique hsel
  exact Or.inr ⟨rfl, nofun⟩

/-- The libraries fail on both tests, and the AC is accepted. -/
theorem verifydata_error_accepted :
    has Sample.client.verType VERIFY_SIGN ∧
      (∃ v s', verifydata (Sample.files .error) (d2iAc Sample.ac) (some Voms.L2.Sample.user)
        Sample.client = .ok (some v, s')) ∧
      ¬ ∃ issuer chain, Selected (Sample.files .error) Sample.client (d2iAc Sample.ac) issuer
        chain ∧ Verified (Sample.files .error).toWorld (d2iAc Sample.ac) issuer chain := by
  refine ⟨by decide, ⟨_, _, rfl⟩, ?_⟩
  rintro ⟨issuer, chain, -, -, hchain⟩
  cases hchain

end Voms.L4
