import Voms.L4Api.Partial
import Voms.L4Api.Sequences

/-!
# voms-proxy-info

`test_proxy` and `print` (`src/utils/voms_proxy_info.cc`). The ACs of the
proxy are retrieved with signature and key verification; if that fails they
are retrieved again without, to have something to print. Both calls have
their result in `res`, and the second one decides.

`testProxy_exact`: the exit status and the warning are honest exactly if the
ACs of the proxy are not all accepted without verification while one of them
is refused with it (`OnlyUnverified`).

What is printed about the certificate is left out, and of what is printed
about an AC only that it is.
-/
namespace Voms.L6

open Voms.Core Voms.L1 Voms.L2 Voms.L3 Voms.L4

/-- The options that decide on the exit status or print about an AC.
mirrors src/utils/voms_proxy_info.cc:102-141 -/
structure Options where
  all : Bool
  vo : Bool
  fqan : Bool
  acsubject : Bool
  acissuer : Bool
  actimeleft : Bool
  serial : Bool
  targets : Bool
  printuri : Bool
  doesExist : Bool
  hours : Int
  minutes : Int
  bits : Int
  acexists : List Str
  dontVerifyAc : Bool
  deriving DecidableEq, Repr

/-- Those that need an AC. mirrors src/utils/voms_proxy_info.cc:646-648 -/
def Options.needsAc (o : Options) : Bool :=
  o.vo || o.acsubject || o.acissuer || o.actimeleft || o.fqan || o.serial || o.targets ||
    o.printuri

/-- The records that are printed about. -/
def Options.reported (o : Options) (d : VomsData) : List VomsRecord :=
  if o.all || o.needsAc then d.data else []

/-- `leftcert` and `totbits` are the rest of the certificate's lifetime and
the size of its key.
mirrors src/utils/voms_proxy_info.cc:489-728 -/
def print (o : Options) (leftcert totbits : Int) (vd : VomsData) : Bool :=
  let res := !(vd.data.isEmpty && o.needsAc)
  let res := res && vd.data.all fun v => !(o.fqan && v.fqan.isEmpty)
  let res := res && !(o.doesExist && (leftcert == 0 || leftcert < o.hours * 3600 + o.minutes * 60 ||
    totbits < o.bits))
  res && o.acexists.all fun i => vd.data.any fun v => v.voname == i

/-- What `test_proxy` leaves. The exit status is 0 if `res`. -/
structure Outcome where
  res : Bool
  warning : Option Str
  d : VomsData

def warningText (d : VomsData) : Str :=
  "WARNING: Unable to verify signature! Server certificate possibly not installed.\n".toList ++
    "Error: ".toList ++ d.errmessage

/-- Once the proxy has been read from the file.
mirrors src/utils/voms_proxy_info.cc:406-435 -/
def testProxy (C : Client) (o : Options) (dir : Str) (x : X509) (chain : Option (List X509))
    (leftcert totbits : Int) : Eval Outcome := do
  let d := VomsData.new dir
  let strict := { d with verType := VERIFY_SIGN ||| VERIFY_KEY }
  let (res, d) ←
    if o.dontVerifyAc then pure (false, d)
    else retrieveCert C (some x) chain .RECURSE_CHAIN strict
  let lax := { d with data := [], verType := VERIFY_NONE }
  let (res, d) ←
    if o.dontVerifyAc || !res || d.error == .VERR_NOEXT then do
      let (res, d) ← retrieveCert C (some x) chain .RECURSE_CHAIN lax
      pure (res || o.dontVerifyAc || d.error == .VERR_NOEXT, d)
    else pure (res, d)
  let warning := if res then none else some (warningText d)
  pure ⟨res && print o leftcert totbits d, warning, d⟩

/-! ## The error that stands for no extension -/

/-- An AC was looked at. -/
def Raised (s : VomsData) : Prop := s.error ≠ .VERR_NOEXT

section

variable {F : Files} {C : Client} {s s' t : VomsData} {ac : Ac} {holder issuer : Option X509}

theorem Raised.judgeChain {W : World} {chain : List X509} {voname : Str} :
    Raised (judgeChain W ac chain voname s).2 := by
  unfold L4.judgeChain
  dsimp only
  split
  · split <;> nofun
  · nofun

theorem Raised.checkFromFile {file voname filename : Str} {r : Option X509}
    (h : checkFromFile F ac file voname filename s = .ok (r, s')) : Raised s' := by
  unfold L4.checkFromFile at h
  obtain ⟨ext, -, h⟩ := Res.bind_eq_ok.mp h
  obtain ⟨certs, -, h⟩ := Res.bind_eq_ok.mp h
  obtain ⟨success, -, h⟩ := Res.bind_eq_ok.mp h
  cases success with
  | true =>
    rw [if_pos rfl] at h
    have hjudge : Raised (L4.judgeChain F.toWorld ac certs voname s).2 := .judgeChain
    rw [Res.ok.inj h] at hjudge
    exact hjudge
  | false =>
    cases h
    nofun

theorem Raised.checkFromCerts (voname : Str) : Raised (checkFromCerts F ac voname s).2 := by
  unfold L4.checkFromCerts
  split <;> nofun

theorem Raised.check {r : Option X509} (h : check F ac s = .ok (r, s')) : Raised s' := by
  unfold L4.check at h
  dsimp only at h
  split at h
  · cases h
  · cases h
    nofun
  · next voname hostname _ =>
    split at h
    · exact .checkFromFile h
    · have hcerts : Raised (L4.checkFromCerts F ac voname { s with error := .VERR_DIR }).2 :=
        .checkFromCerts voname
      rw [Res.ok.inj h] at hcerts
      exact hcerts

theorem Raised.finishRecord {v : VomsRecord} {o : Option VomsRecord} (hs : Raised s)
    (h : finishRecord F ac holder issuer v s = .ok (o, s')) : Raised s' := by
  unfold L4.finishRecord at h
  dsimp only at h
  split at h
  · obtain ⟨iss, -, h⟩ := Res.bind_eq_ok.mp h
    split at h
    · cases h
      exact hs
    · cases h
      nofun
  · cases h
    exact hs

theorem Raised.verifyWith {o : Option VomsRecord} (hs : Raised s)
    (h : verifyWith F ac holder issuer s = .ok (o, s')) : Raised s' := by
  unfold L4.verifyWith at h
  obtain ⟨⟨v, t⟩, hac, h⟩ := Res.bind_eq_ok.mp h
  have ht : Raised t := by
    unfold verifyac at hac
    split at hac
    · cases hac
      exact hs
    · cases hac
      nofun
    · cases hac
  cases v with
  | none =>
    cases h
    exact ht
  | some v => exact ht.finishRecord h

theorem Raised.verifydata {o : Option VomsRecord} (h : verifydata F ac holder s = .ok (o, s')) :
    Raised s' := by
  unfold L4.verifydata at h
  dsimp only at h
  split at h
  · cases h
    nofun
  · split at h
    · unfold verifySigned at h
      obtain ⟨⟨issuer, t⟩, hcheck, h⟩ := Res.bind_eq_ok.mp h
      cases issuer with
      | none =>
        cases h
        nofun
      | some issuer => exact (Raised.check hcheck).verifyWith h
    · have hformat : Raised { s with used := s.used ++ [s.verType], error := .VERR_FORMAT } := nofun
      exact hformat.verifyWith h

/-! ## What a retrieval does -/

/-- The AC is accepted under a policy. -/
def AcceptedUnder (F : Files) (s : VomsData) (policy : VerifyType) (holder : X509) (ac : Ac) :
    Prop :=
  ∃ w, Accepts F { s with verType := policy } (some holder, ac) w

theorem evaluateLoop_ret {ret : Bool} : ∀ {acs : List Ac} {ok : Bool} {s : VomsData}, Raised s →
    evaluateLoop F holder ok acs s = .ok (ret, s') →
    Raised s' ∧ Settings s s' ∧
      (ret = true ↔ (ok = true ∨ acs ≠ []) ∧ ∀ ac ∈ acs, ∃ w, Accepts F s (holder, ac) w)
  | [], ok, s, hs, h => by
    cases h
    exact ⟨hs, .refl _, by simp⟩
  | ac :: acs, ok, s, hs, h => by
    unfold evaluateLoop at h
    obtain ⟨⟨v, t⟩, hver, h⟩ := Res.bind_eq_ok.mp h
    have ht := Raised.verifydata hver
    have hset := verifydata_settings hver
    cases v with
    | none =>
      cases h
      refine ⟨ht, hset, iff_of_false Bool.false_ne_true fun h => ?_⟩
      obtain ⟨w, s1, haccepts⟩ := h.2 ac (List.mem_cons_self ..)
      rw [hver] at haccepts
      cases haccepts
    | some v =>
      have hpush : Settings s { t with data := t.data ++ [v] } := hset.trans ⟨rfl, rfl, rfl⟩
      have hnext : Raised { t with data := t.data ++ [v] } := ht
      obtain ⟨hraised, hset', hret⟩ := evaluateLoop_ret hnext h
      refine ⟨hraised, hpush.trans hset', hret.trans ?_⟩
      simp only [true_or, true_and, ne_eq, reduceCtorEq, not_false_eq_true, or_true,
        List.forall_mem_cons, hpush.accepts_iff]
      exact (and_iff_right ⟨v, (hpush.accepts_iff _ v).mp ⟨t, hver⟩⟩).symm

theorem evaluate_ret {acs : Option (List Ac)} {ret : Bool}
    (h : evaluate F acs holder s = .ok (ret, s')) :
    Raised s' ∧ Settings s s' ∧
      (ret = true ↔ acs.getD [] ≠ [] ∧ ∀ ac ∈ acs.getD [], ∃ w, Accepts F s (holder, ac) w) := by
  unfold evaluate at h
  cases acs with
  | none =>
    cases h
    exact ⟨nofun, ⟨rfl, rfl, rfl⟩, by simp⟩
  | some acs =>
    have hformat : Raised { s with error := .VERR_FORMAT } := nofun
    have herror : Settings s { s with error := .VERR_FORMAT } := ⟨rfl, rfl, rfl⟩
    obtain ⟨hraised, hset, hret⟩ := evaluateLoop_ret hformat h
    refine ⟨hraised, herror.trans hset, ?_⟩
    rw [hret]
    simp [herror.accepts_iff]

/-! ## Which ACs are retrieved -/

theorem searchChain_fst (how : RecurseType) : ∀ (chain : List X509) (f : Found) (s t : VomsData),
    (searchChain C how chain f s).1 = (searchChain C how chain f t).1 ∧
      (searchChain C how chain f s).2.1 = (searchChain C how chain f t).2.1
  | [], _, _, _ => ⟨rfl, rfl⟩
  | cert :: chain, f, s, t => by
    have hfst : (findexts C cert f s).1 = (findexts C cert f t).1 := by
      rw [findexts_fst, findexts_fst]
    unfold searchChain
    dsimp only
    rw [← hfst]
    split
    · exact ⟨rfl, rfl⟩
    · exact searchChain_fst how chain _ _ _

theorem search_fst (how : RecurseType) (chain : List X509) (f : Found) (s t : VomsData) :
    (if how ≠ .RECURSE_NONE then searchChain C how chain f s else (false, f, s)).2.1 =
      (if how ≠ .RECURSE_NONE then searchChain C how chain f t else (false, f, t)).2.1 := by
  split
  · exact (searchChain_fst how chain f s t).2
  · rfl

/-- They do not depend on the object. -/
theorem retrieve_found {cert : Option X509} {chain : Option (List X509)} {how : RecurseType}
    {found : Option (Option (List Ac) × X509)}
    (h : retrieve C cert chain how s = .ok (found, s')) (t : VomsData) :
    ∃ t', retrieve C cert chain how t = .ok (found, t') := by
  unfold retrieve at h ⊢
  cases cert with
  | none =>
    cases h
    exact ⟨_, rfl⟩
  | some cert =>
    dsimp only at h ⊢
    split at h
    · cases h
      next hunset => exact ⟨_, by rw [if_pos hunset]; rfl⟩
    · next hset =>
      rw [if_neg hset]
      obtain ⟨real, hreal, h⟩ := Res.bind_eq_ok.mp h
      rw [hreal, Res.ok_bind]
      cases real with
      | none =>
        cases h
        exact ⟨_, rfl⟩
      | some holder =>
        dsimp only at h ⊢
        split at h
        · next hempty =>
          cases h
          exact ⟨_, by rw [if_pos hempty]; rfl⟩
        · next hnames =>
          rw [if_neg hnames]
          have hfst : (findexts C cert ⟨false, none⟩ s).1 = (findexts C cert ⟨false, none⟩ t).1 := by
            rw [findexts_fst, findexts_fst]
          rw [← hfst]
          split at h
          · next hfound =>
            cases h
            exact ⟨_, by rw [if_pos hfound]; rfl⟩
          · next hfound =>
            rw [if_neg hfound]
            obtain ⟨heq, -⟩ := Prod.mk.inj (Res.ok.inj h)
            rw [search_fst how _ _ _ (findexts C cert ⟨false, none⟩ t).2] at heq
            exact ⟨_, congrArg Res.ok (Prod.ext heq rfl)⟩

/-- What comes of a call of `Retrieve`. -/
theorem retrieveCert_ret {cert : Option X509} {chain : Option (List X509)} {how : RecurseType}
    {ret : Bool} (h : retrieveCert C cert chain how s = .ok (ret, s')) :
    ∃ found s1, retrieve C cert chain how s = .ok (found, s1) ∧ Settings s s' ∧
      match found with
      | none => ret = false ∧ s'.data = s.data
      | some (acs, holder) => Raised s' ∧
        (ret = true ↔ acs.getD [] ≠ [] ∧
          ∀ ac ∈ acs.getD [], AcceptedUnder C.toFiles s s.verType holder ac) := by
  unfold retrieveCert at h
  obtain ⟨⟨found, s1⟩, hfound, h⟩ := Res.bind_eq_ok.mp h
  have hnoted := retrieve_frame hfound
  refine ⟨found, s1, hfound, ?_⟩
  cases found with
  | none =>
    cases h
    exact ⟨hnoted.settings, rfl, hnoted.idle.data⟩
  | some p =>
    obtain ⟨hraised, hset, hret⟩ := evaluate_ret h
    refine ⟨hnoted.settings.trans hset, hraised, hret.trans ?_⟩
    simp only [AcceptedUnder, hnoted.settings.accepts_iff]

end

/-! ## The exit status -/

section

variable {C : Client} {o : Options} {dir : Str} {x : X509} {chain : Option (List X509)}
  {leftcert totbits : Int} {out : Outcome}

/-- The policy of the first call. -/
def strictPolicy : VerifyType := VERIFY_SIGN ||| VERIFY_KEY

theorem strictPolicy_signs : has strictPolicy VERIFY_SIGN := by decide

/-- The ACs in the proxy, and whom they are for. -/
def ProxyAcs (C : Client) (dir : Str) (x : X509) (chain : Option (List X509)) (acs : List Ac)
    (holder : X509) : Prop :=
  ∃ found s, retrieve C (some x) chain .RECURSE_CHAIN (.new dir) = .ok (some (found, holder), s) ∧
    found.getD [] = acs

/-- An AC of the proxy is refused with verification. -/
def VerificationFails (C : Client) (dir : Str) (x : X509) (chain : Option (List X509)) : Prop :=
  ∃ acs holder, ProxyAcs C dir x chain acs holder ∧
    ∃ ac ∈ acs, ¬ AcceptedUnder C.toFiles (.new dir) strictPolicy holder ac

/-- And all of them are accepted without. -/
def OnlyUnverified (C : Client) (dir : Str) (x : X509) (chain : Option (List X509)) : Prop :=
  ∃ acs holder, ProxyAcs C dir x chain acs holder ∧
    (∃ ac ∈ acs, ¬ AcceptedUnder C.toFiles (.new dir) strictPolicy holder ac) ∧
    ∀ ac ∈ acs, AcceptedUnder C.toFiles (.new dir) VERIFY_NONE holder ac

/-- What the exit status and the warning should say. `d.verType` is the
policy under which the records were retrieved. -/
structure Honest (C : Client) (o : Options) (dir : Str) (x : X509) (chain : Option (List X509))
    (out : Outcome) : Prop where
  verified : out.res = true → o.reported out.d ≠ [] ∨ o.acexists ≠ [] →
    has out.d.verType VERIFY_SIGN
  refused : VerificationFails C dir x chain → out.res = false ∧ out.warning ≠ none

theorem print_empty {vd : VomsData} (h : vd.data = []) (hexists : o.acexists ≠ []) :
    print o leftcert totbits vd = false := by
  obtain ⟨i, rest, hi⟩ := List.exists_cons_of_ne_nil hexists
  simp [print, h, hi]

/-- The first call, and the second where it is made. -/
theorem testProxy_calls (hverify : o.dontVerifyAc = false)
    (h : testProxy C o dir x chain leftcert totbits = .ok out) :
    ∃ ret d, retrieveCert C (some x) chain .RECURSE_CHAIN
        { VomsData.new dir with verType := strictPolicy } = .ok (ret, d) ∧
      ((ret = true ∧ Raised d ∧ out = ⟨print o leftcert totbits d, none, d⟩) ∨
        ¬ (ret = true ∧ Raised d) ∧ ∃ ret' d', retrieveCert C (some x) chain .RECURSE_CHAIN
            { d with data := [], verType := VERIFY_NONE } = .ok (ret', d') ∧
          out.d = d' ∧ (ret' = true ∨ ¬ Raised d' →
            out.res = print o leftcert totbits d' ∧ out.warning = none) ∧
          (¬ (ret' = true ∨ ¬ Raised d') → out.res = false ∧ out.warning ≠ none)) := by
  unfold testProxy at h
  rw [hverify] at h
  simp only [Bool.false_eq_true, if_false, Bool.false_or] at h
  obtain ⟨⟨ret, d⟩, hfirst, h⟩ := Res.bind_eq_ok.mp h
  refine ⟨ret, d, hfirst, ?_⟩
  have hcond : (!ret || d.error == .VERR_NOEXT) = true ↔ ¬ (ret = true ∧ Raised d) := by
    rw [Bool.or_eq_true, Bool.not_eq_true', beq_iff_eq, Raised, not_and_or, not_not,
      Bool.not_eq_true]
  by_cases hdone : ret = true ∧ Raised d
  · rw [if_neg (fun hc => hcond.mp hc hdone)] at h
    obtain ⟨rfl, hraised⟩ := hdone
    exact .inl ⟨rfl, hraised, (Res.ok.inj h).symm⟩
  · rw [if_pos (hcond.mpr hdone)] at h
    obtain ⟨⟨ret', d'⟩, hsecond, h⟩ := Res.bind_eq_ok.mp h
    have hres : (ret' || false || d'.error == .VERR_NOEXT) = true ↔ ret' = true ∨ ¬ Raised d' := by
      rw [Bool.or_false, Bool.or_eq_true, beq_iff_eq, Raised, not_not]
    refine .inr ⟨hdone, ret', d', hsecond, ?_⟩
    dsimp only at h
    by_cases hlax : ret' = true ∨ ¬ Raised d'
    · rw [hres.mpr hlax] at h
      obtain rfl := Res.ok.inj h
      exact ⟨rfl, fun _ => ⟨Bool.true_and _, rfl⟩, fun hno => absurd hlax hno⟩
    · rw [Bool.eq_false_iff.mpr (mt hres.mp hlax)] at h
      obtain rfl := Res.ok.inj h
      exact ⟨rfl, fun hyes => absurd hyes hlax, fun _ => ⟨rfl, Option.some_ne_none _⟩⟩

/-- Every retrieval from the proxy finds the same. -/
theorem ProxyAcs.found {acs : List Ac} {holder : X509} {s s' : VomsData}
    {found : Option (Option (List Ac) × X509)} (hacs : ProxyAcs C dir x chain acs holder)
    (h : retrieve C (some x) chain .RECURSE_CHAIN s = .ok (found, s')) :
    ∃ l, found = some (l, holder) ∧ l.getD [] = acs := by
  obtain ⟨l, t, hfound, hl⟩ := hacs
  obtain ⟨t', h'⟩ := retrieve_found hfound s
  rw [h'] at h
  exact ⟨l, (Prod.mk.inj (Res.ok.inj h)).1.symm, hl⟩

/-- There is one list, for one holder. -/
theorem ProxyAcs.unique {acs acs' : List Ac} {holder holder' : X509}
    (h : ProxyAcs C dir x chain acs holder) (h' : ProxyAcs C dir x chain acs' holder') :
    acs' = acs ∧ holder' = holder := by
  obtain ⟨l, s, hfound, rfl⟩ := h
  obtain ⟨l', hl', rfl⟩ := h'.found hfound
  cases hl'
  exact ⟨rfl, rfl⟩

theorem ProxyAcs.verificationFails_iff {acs : List Ac} {holder : X509}
    (h : ProxyAcs C dir x chain acs holder) : VerificationFails C dir x chain ↔
      ∃ ac ∈ acs, ¬ AcceptedUnder C.toFiles (.new dir) strictPolicy holder ac := by
  refine ⟨fun hfails => ?_, fun hfails => ⟨acs, holder, h, hfails⟩⟩
  obtain ⟨acs', holder', h', hrefused⟩ := hfails
  obtain ⟨rfl, rfl⟩ := h.unique h'
  exact hrefused

theorem ProxyAcs.onlyUnverified_iff {acs : List Ac} {holder : X509}
    (h : ProxyAcs C dir x chain acs holder) : OnlyUnverified C dir x chain ↔
      VerificationFails C dir x chain ∧
        ∀ ac ∈ acs, AcceptedUnder C.toFiles (.new dir) VERIFY_NONE holder ac := by
  rw [h.verificationFails_iff]
  refine ⟨fun honly => ?_, fun honly => ⟨acs, holder, h, honly⟩⟩
  obtain ⟨acs', holder', h', hboth⟩ := honly
  obtain ⟨rfl, rfl⟩ := h.unique h'
  exact hboth

/-- Where nothing is found, nothing can be refused. -/
theorem not_verificationFails_of_none {s s' : VomsData}
    (h : retrieve C (some x) chain .RECURSE_CHAIN s = .ok (none, s')) :
    ¬ VerificationFails C dir x chain := by
  rintro ⟨acs, holder, hacs, -⟩
  obtain ⟨l, hl, -⟩ := hacs.found h
  cases hl

theorem OnlyUnverified.verificationFails (h : OnlyUnverified C dir x chain) :
    VerificationFails C dir x chain := by
  obtain ⟨acs, holder, hacs, hrefused, -⟩ := h
  exact ⟨acs, holder, hacs, hrefused⟩

/-- And nothing is reported. -/
theorem Honest.of_none {s s' : VomsData}
    (h : retrieve C (some x) chain .RECURSE_CHAIN s = .ok (none, s'))
    (hdata : out.d.data = []) (hres : out.res = true → print o leftcert totbits out.d = true) :
    Honest C o dir x chain out := by
  refine ⟨?_, fun hfails => absurd hfails (not_verificationFails_of_none h)⟩
  rintro htrue (hreported | hexists)
  · refine absurd ?_ hreported
    unfold Options.reported
    split
    · exact hdata
    · rfl
  · rw [print_empty hdata hexists] at hres
    cases hres htrue

/-- Both calls find nothing. -/
theorem honest_nothing {d s1 : VomsData} {ret : Bool}
    (hfound : retrieve C (some x) chain .RECURSE_CHAIN s1 = .ok (none, d))
    {s2 : VomsData} (hdata : s2.data = [])
    (hsecond : retrieveCert C (some x) chain .RECURSE_CHAIN s2 = .ok (ret, out.d))
    (hyes : ret = true ∨ ¬ Raised out.d → out.res = print o leftcert totbits out.d)
    (hno : ¬ (ret = true ∨ ¬ Raised out.d) → out.res = false) : Honest C o dir x chain out := by
  obtain ⟨found, s3, hfound', -, hret⟩ := retrieveCert_ret hsecond
  obtain ⟨t, ht⟩ := retrieve_found hfound s2
  rw [ht] at hfound'
  cases hfound'
  have hprinted : out.res = true → print o leftcert totbits out.d = true := fun htrue => by
    by_cases hlax : ret = true ∨ ¬ Raised out.d
    · rw [← hyes hlax, htrue]
    · rw [hno hlax] at htrue
      cases htrue
  exact .of_none hfound (hret.2.trans hdata) hprinted

/-- What comes of the second call. The object verifies like a new one. -/
theorem ProxyAcs.unverified {acs : List Ac} {holder : X509} {s s' : VomsData} {ret : Bool}
    (hacs : ProxyAcs C dir x chain acs holder)
    (hsame : Settings { VomsData.new dir with verType := VERIFY_NONE } s)
    (h : retrieveCert C (some x) chain .RECURSE_CHAIN s = .ok (ret, s')) :
    Raised s' ∧ (ret = true ↔
      acs ≠ [] ∧ ∀ ac ∈ acs, AcceptedUnder C.toFiles (.new dir) VERIFY_NONE holder ac) := by
  obtain ⟨found, s1, hfound, -, hret⟩ := retrieveCert_ret h
  obtain ⟨l, rfl, rfl⟩ := hacs.found hfound
  obtain ⟨hraised, hret⟩ := hret
  refine ⟨hraised, hret.trans (and_congr_right fun _ => forall₂_congr fun ac _ => ?_)⟩
  exact exists_congr fun w => hsame.symm.accepts_iff _ w

/-- The exit status and the warning are honest, unless only the retrieval
without verification succeeds. -/
theorem testProxy_exact (C : Client) (o : Options) (dir : Str) (x : X509)
    (chain : Option (List X509)) (leftcert totbits : Int) (out : Outcome)
    (hverify : o.dontVerifyAc = false)
    (h : testProxy C o dir x chain leftcert totbits = .ok out) :
    Honest C o dir x chain out ↔ ¬ OnlyUnverified C dir x chain := by
  obtain ⟨ret, d, hfirst, hcalls⟩ := testProxy_calls hverify h
  obtain ⟨found, s1, hfound, hset, hret⟩ := retrieveCert_ret hfirst
  cases found with
  | none =>
    have hnever : ¬ VerificationFails C dir x chain := not_verificationFails_of_none hfound
    refine iff_of_true ?_ fun honly => hnever honly.verificationFails
    obtain ⟨rfl, -⟩ := hret
    obtain ⟨hno, -, -⟩ | ⟨-, ret', d', hsecond, rfl, hyes, hno⟩ := hcalls
    · cases hno
    · exact honest_nothing hfound rfl hsecond (fun hlax => (hyes hlax).1) fun hlax => (hno hlax).1
  | some p =>
    obtain ⟨l, holder⟩ := p
    obtain ⟨hraised, hstrict⟩ := hret
    obtain ⟨t, ht⟩ := retrieve_found hfound (.new dir)
    have hproxy : ProxyAcs C dir x chain (l.getD []) holder := ⟨l, t, ht, rfl⟩
    rw [hproxy.onlyUnverified_iff]
    obtain ⟨hyes, -, rfl⟩ | ⟨hfails, ret', d', hsecond, rfl, hlax, hno⟩ := hcalls
    · have hnever : ¬ VerificationFails C dir x chain := by
        rw [hproxy.verificationFails_iff]
        push Not
        exact (hstrict.mp hyes).2
      have hsigned : has d.verType VERIFY_SIGN := hset.verType ▸ strictPolicy_signs
      exact iff_of_true ⟨fun _ _ => hsigned, fun hfails => absurd hfails hnever⟩
        fun honly => hnever honly.1
    · have hsame : Settings { VomsData.new dir with verType := VERIFY_NONE }
          { d with data := [], verType := VERIFY_NONE } :=
        ⟨hset.vomsCertDir, rfl, hset.verificationtime⟩
      obtain ⟨hraised', hret'⟩ := hproxy.unverified hsame hsecond
      by_cases hunverified : ret' = true
      · -- all ACs are accepted, so the first call has refused one
        obtain ⟨hne, haccepted⟩ := hret'.mp hunverified
        have hrefused : VerificationFails C dir x chain := by
          rw [hproxy.verificationFails_iff]
          by_contra hall
          push Not at hall
          exact hfails ⟨hstrict.mpr ⟨hne, hall⟩, hraised⟩
        refine iff_of_false (fun hhonest => ?_) (not_not_intro ⟨hrefused, haccepted⟩)
        exact (hhonest.refused hrefused).2 (hlax (.inl hunverified)).2
      · have hboth := hno (not_or_intro hunverified (not_not_intro hraised'))
        refine iff_of_true ⟨fun htrue => ?_, fun _ => hboth⟩ ?_
        · rw [hboth.1] at htrue
          cases htrue
        · rintro ⟨hrefused, haccepted⟩
          obtain ⟨ac, hac, -⟩ := hproxy.verificationFails_iff.mp hrefused
          exact hunverified (hret'.mpr ⟨List.ne_nil_of_mem hac, haccepted⟩)

end

/-! ### Two clients -/

namespace Sample

export Voms.L4.Sample (applications user files)

/-- `-acexists vo`. -/
def acexistsVo : Options :=
  ⟨false, false, false, false, false, false, false, false, false, false, 0, 0, 0, ["vo".toList],
    false⟩

/-- The signature of every AC is wrong. -/
def forged : Client := { applications with toFiles := files .bad }

end Sample

/-- `testProxy_exact` where the AC is verified. -/
theorem testProxy_exact_verified : ∃ out,
    testProxy Sample.applications Sample.acexistsVo "/etc/vomsdir".toList Sample.user (some [])
      3600 2048 = .ok out ∧ out.res = true ∧
    Honest Sample.applications Sample.acexistsVo "/etc/vomsdir".toList Sample.user (some []) out := by
  refine ⟨_, rfl, rfl, (testProxy_exact _ _ _ _ _ 3600 2048 _ rfl rfl).mpr ?_⟩
  rintro ⟨acs, holder, hacs, ⟨ac, hac, hrefused⟩, -⟩
  obtain ⟨l, hl, rfl⟩ := hacs.found (s := .new "/etc/vomsdir".toList) rfl
  cases hl
  obtain rfl := List.mem_singleton.mp hac
  exact hrefused ⟨_, _, rfl⟩

/-- The AC is refused, and `-acexists` succeeds without a warning. -/
theorem testProxy_confirms_unverified : ∃ out,
    testProxy Sample.forged Sample.acexistsVo "/etc/vomsdir".toList Sample.user (some [])
      3600 2048 = .ok out ∧ out.res = true ∧ out.warning = none ∧
    ¬ Honest Sample.forged Sample.acexistsVo "/etc/vomsdir".toList Sample.user (some []) out := by
  refine ⟨_, rfl, rfl, rfl, fun h => ?_⟩
  exact absurd (h.verified rfl (.inr (List.cons_ne_nil _ _))) (by decide)

end Voms.L6
