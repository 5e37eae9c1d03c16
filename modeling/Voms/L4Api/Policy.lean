import Voms.L4Api.Issuer
import Voms.L4Api.Session

/-!
# Which verifications a history of calls performs

The policy of an object is the argument of the last `SetVerificationType`.
`Retrieve` of an extension and `Retrieve` of an AC have no holder to compare
with and drop `VERIFY_ID` for the time of the call; the first puts the saved
policy back, the second does not. `run_follows_iff`: a history follows the
policy set last exactly if `Retrieve` of an AC is called only while that
policy is without `VERIFY_ID`.
-/
namespace Voms.L4

open Voms.Core Voms.L1 Voms.L2 Voms.L3

/-! ## One verification -/

/-- The policy is kept, and what was verified was verified under it. -/
def KeepsPolicy (s s' : VomsData) : Prop :=
  s'.verType = s.verType ∧ ∃ k, s'.used = s.used ++ List.replicate k s.verType

theorem KeepsPolicy.of_eq {s s' : VomsData} (h : s'.verType = s.verType) (hu : s'.used = s.used) :
    KeepsPolicy s s' := ⟨h, 0, by simp [hu]⟩

theorem KeepsPolicy.refl (s : VomsData) : KeepsPolicy s s := .of_eq rfl rfl

theorem KeepsPolicy.trans {s s' s'' : VomsData} (h : KeepsPolicy s s')
    (h' : KeepsPolicy s' s'') : KeepsPolicy s s'' := by
  obtain ⟨htype, k, hk⟩ := h
  obtain ⟨htype', k', hk'⟩ := h'
  refine ⟨htype'.trans htype, k + k', ?_⟩
  rw [hk', hk, htype, List.append_assoc, List.replicate_append_replicate]

theorem KeepsPolicy.seterror (s : VomsData) (e : VError) (m : Str) :
    KeepsPolicy s (s.seterror e m) := .of_eq rfl rfl

/-- Nothing is verified, and the policy and the records stay. -/
structure Idle (s s' : VomsData) : Prop where
  verType : s'.verType = s.verType
  used : s'.used = s.used
  data : s'.data = s.data

theorem Idle.refl (s : VomsData) : Idle s s := ⟨rfl, rfl, rfl⟩

theorem Idle.trans {s s' s'' : VomsData} (h : Idle s s') (h' : Idle s' s'') : Idle s s'' :=
  ⟨h'.verType.trans h.verType, h'.used.trans h.used, h'.data.trans h.data⟩

theorem Idle.seterror (s : VomsData) (e : VError) (m : Str) : Idle s (s.seterror e m) :=
  ⟨rfl, rfl, rfl⟩

theorem Idle.keepsPolicy {s s' : VomsData} (h : Idle s s') : KeepsPolicy s s' :=
  .of_eq h.verType h.used

theorem OnlyErrors.idle {s s' : VomsData} (h : OnlyErrors s s') : Idle s s' := by
  obtain ⟨e, m, rfl⟩ := h
  exact ⟨rfl, rfl, rfl⟩

theorem OnlyErrors.keepsPolicy {s s' : VomsData} (h : OnlyErrors s s') : KeepsPolicy s s' :=
  h.idle.keepsPolicy

/-- Only the errors and what a proxy says besides its ACs are noted. -/
def Noted (s s' : VomsData) : Prop :=
  ∃ e m x w, s' = { s with error := e, errmessage := m, extraData := x, workvo := w }

theorem Noted.refl (s : VomsData) : Noted s s :=
  ⟨s.error, s.errmessage, s.extraData, s.workvo, rfl⟩

theorem Noted.trans {s s' s'' : VomsData} (h : Noted s s') (h' : Noted s' s'') : Noted s s'' := by
  obtain ⟨e, m, x, w, rfl⟩ := h
  obtain ⟨e', m', x', w', rfl⟩ := h'
  exact ⟨e', m', x', w', rfl⟩

theorem Noted.seterror (s : VomsData) (e : VError) (m : Str) : Noted s (s.seterror e m) :=
  ⟨e, m, s.extraData, s.workvo, rfl⟩

theorem Noted.idle {s s' : VomsData} (h : Noted s s') : Idle s s' := by
  obtain ⟨e, m, x, w, rfl⟩ := h
  exact ⟨rfl, rfl, rfl⟩

theorem verifyac_frame {F : Files} {cert issuer : Option X509} {ac : Ac} {s s' : VomsData}
    {r : Option VomsRecord} (h : verifyac F cert issuer ac s = .ok (r, s')) : OnlyErrors s s' := by
  unfold verifyac at h
  split at h
  · cases h
    exact .refl s
  · cases h
    exact .seterror ..
  · cases h

theorem finishRecord_frame {F : Files} {ac : Ac} {holder issuer : Option X509} {v : VomsRecord}
    {s s' : VomsData} {r : Option VomsRecord}
    (h : finishRecord F ac holder issuer v s = .ok (r, s')) : OnlyErrors s s' := by
  unfold finishRecord at h
  simp only at h
  split at h
  · obtain ⟨iss, -, h⟩ := Res.bind_eq_ok.mp h
    split at h
    · cases h
      exact .refl s
    · cases h
      exact .seterror ..
  · cases h
    exact .refl s

theorem verifyWith_frame {F : Files} {ac : Ac} {holder issuer : Option X509} {s s' : VomsData}
    {r : Option VomsRecord} (h : verifyWith F ac holder issuer s = .ok (r, s')) :
    OnlyErrors s s' := by
  unfold verifyWith at h
  obtain ⟨⟨v, t⟩, hac, h⟩ := Res.bind_eq_ok.mp h
  cases v with
  | none =>
    cases h
    exact verifyac_frame hac
  | some v => exact (verifyac_frame hac).trans (finishRecord_frame h)

theorem verifySigned_frame {F : Files} {ac : Ac} {holder : Option X509} {s s' : VomsData}
    {r : Option VomsRecord} (h : verifySigned F ac holder s = .ok (r, s')) : OnlyErrors s s' := by
  unfold verifySigned at h
  obtain ⟨⟨issuer, t⟩, hcheck, h⟩ := Res.bind_eq_ok.mp h
  cases issuer with
  | none =>
    cases h
    exact (check_frame hcheck).setError _ _
  | some issuer => exact (check_frame hcheck).trans (verifyWith_frame h)

/-- `verifydata` verifies under the policy of the object. -/
theorem verifydata_keepsPolicy {F : Files} {ac : Ac} {holder : Option X509} {s s' : VomsData}
    {r : Option VomsRecord} (h : verifydata F ac holder s = .ok (r, s')) : KeepsPolicy s s' := by
  have hused : ∀ e, KeepsPolicy s { s with used := s.used ++ [s.verType], error := e } :=
    fun e => ⟨rfl, 1, rfl⟩
  unfold verifydata at h
  simp only at h
  split at h
  · cases h
    exact hused _
  · split at h
    · exact (hused _).trans (verifySigned_frame h).keepsPolicy
    · exact (hused _).trans (verifyWith_frame h).keepsPolicy

/-! ## The parts of a call -/

theorem evaluateLoop_keepsPolicy {F : Files} {holder : Option X509} :
    ∀ {acs : List Ac} {ok ret : Bool} {s s' : VomsData},
      evaluateLoop F holder ok acs s = .ok (ret, s') → KeepsPolicy s s'
  | [], _, _, s, s', h => by
    cases h
    exact .refl s
  | ac :: acs, _, _, s, s', h => by
    unfold evaluateLoop at h
    obtain ⟨⟨v, t⟩, hver, h⟩ := Res.bind_eq_ok.mp h
    have ht := verifydata_keepsPolicy hver
    cases v with
    | none =>
      cases h
      exact ht
    | some v =>
      have hpush : KeepsPolicy t { t with data := t.data ++ [v] } := .of_eq rfl rfl
      exact (ht.trans hpush).trans (evaluateLoop_keepsPolicy h)

theorem evaluate_keepsPolicy {F : Files} {acs : Option (List Ac)} {holder : Option X509}
    {ret : Bool} {s s' : VomsData} (h : evaluate F acs holder s = .ok (ret, s')) :
    KeepsPolicy s s' := by
  have herror : KeepsPolicy s { s with error := .VERR_FORMAT } := .of_eq rfl rfl
  unfold evaluate at h
  cases acs with
  | none =>
    cases h
    exact herror.trans (.seterror ..)
  | some acs => exact herror.trans (evaluateLoop_keepsPolicy h)

theorem verifymessage_keepsPolicy {C : Client} {message rest : Str} {holder : Option X509}
    {ret : Bool} {s s' : VomsData}
    (h : verifymessage C message holder s = .ok (ret, rest, s')) : KeepsPolicy s s' := by
  have herror : ∀ e, KeepsPolicy s { s with error := e } := fun _ => .of_eq rfl rfl
  unfold verifymessage at h
  simp only at h
  split at h
  · cases h
    exact herror _
  · split at h
    · cases h
      exact herror _
    · obtain ⟨⟨v, t⟩, hver, h⟩ := Res.bind_eq_ok.mp h
      have ht := (herror _).trans (verifydata_keepsPolicy hver)
      cases v with
      | none =>
        cases h
        exact ht
      | some v =>
        cases h
        exact ht.trans (.of_eq rfl rfl)

theorem findexts_frame (C : Client) (cert : X509) (f : Found) (s : VomsData) :
    Noted s (findexts C cert f s).2 := by
  unfold findexts
  cases C.incfile cert <;> cases C.vo cert <;> exact ⟨_, _, _, _, rfl⟩

theorem searchChain_frame (C : Client) (how : RecurseType) :
    ∀ (chain : List X509) (f : Found) (s : VomsData),
      Noted s (searchChain C how chain f s).2.2
  | [], _, s => .refl s
  | cert :: chain, f, s => by
    have hfind := findexts_frame C cert f s
    unfold searchChain
    simp only
    split
    · exact hfind
    · exact hfind.trans (searchChain_frame C how chain _ _)

theorem retrieve_frame {C : Client} {cert : Option X509} {chain : Option (List X509)}
    {how : RecurseType} {s s' : VomsData} {r : Option (Option (List Ac) × X509)}
    (h : retrieve C cert chain how s = .ok (r, s')) : Noted s s' := by
  unfold retrieve at h
  cases cert with
  | none =>
    cases h
    exact .seterror ..
  | some cert =>
    simp only at h
    split at h
    · cases h
      exact .seterror ..
    · obtain ⟨holder, -, h⟩ := Res.bind_eq_ok.mp h
      cases holder with
      | none =>
        cases h
        exact .seterror ..
      | some holder =>
        have hfind := findexts_frame C cert ⟨false, none⟩ s
        simp only at h
        split at h
        · cases h
          exact .seterror ..
        · split at h
          · cases h
            exact hfind
          · have hsearch := searchChain_frame C how (chain.getD [])
              (findexts C cert ⟨false, none⟩ s).1 (findexts C cert ⟨false, none⟩ s).2
            cases h
            split
            · split
              · exact hfind.trans hsearch
              · exact (hfind.trans hsearch).trans (.seterror ..)
            · exact hfind.trans (.seterror ..)

theorem retrieveCert_keepsPolicy {C : Client} {cert : Option X509}
    {chain : Option (List X509)} {how : RecurseType} {ret : Bool} {s s' : VomsData}
    (h : retrieveCert C cert chain how s = .ok (ret, s')) : KeepsPolicy s s' := by
  unfold retrieveCert at h
  obtain ⟨⟨r, t⟩, hret, h⟩ := Res.bind_eq_ok.mp h
  have ht := (retrieve_frame hret).idle.keepsPolicy
  cases r with
  | none =>
    cases h
    exact ht
  | some p => exact ht.trans (evaluate_keepsPolicy h)

theorem importLoop_keepsPolicy {C : Client} :
    ∀ {turns : Nat} {buffer : Str} {ret : Bool} {s s' : VomsData},
      importLoop C turns buffer s = .ok (ret, s') → KeepsPolicy s s'
  | 0, _, _, _, _, h => by cases h
  | turns + 1, buffer, ret, s, s', h => by
    unfold importLoop at h
    split at h
    · cases h
      exact .seterror ..
    · obtain ⟨⟨b, rest, t⟩, hver, h⟩ := Res.bind_eq_ok.mp h
      have ht := verifymessage_keepsPolicy hver
      cases b with
      | false =>
        cases h
        exact ht
      | true =>
        simp only at h
        split at h
        · cases h
          exact ht
        · exact ht.trans (importLoop_keepsPolicy h)

theorem importBuffer_keepsPolicy {C : Client} {buffer : Str} {ret : Bool} {s s' : VomsData}
    (h : importBuffer C buffer s = .ok (ret, s')) : KeepsPolicy s s' := by
  unfold importBuffer at h
  obtain ⟨text, -, h⟩ := Res.bind_eq_ok.mp h
  split at h
  · cases h
    exact .seterror ..
  · exact importLoop_keepsPolicy h

theorem noteErrors_keepsPolicy : ∀ (errs : List Errorp) (result : Bool) (s : VomsData),
    KeepsPolicy s (noteErrors errs result s).2
  | [], _, s => .refl s
  | e :: errs, result, s => by
    unfold noteErrors
    refine KeepsPolicy.trans ?_ (noteErrors_keepsPolicy errs _ _)
    split <;> exact .of_eq rfl rfl

theorem interpretOutput_keepsPolicy {X : Wire} {message output output' : Str} {ret : Bool}
    {s s' : VomsData} (h : interpretOutput X message output s = .ok (ret, output', s')) :
    KeepsPolicy s s' := by
  unfold interpretOutput at h
  obtain ⟨a, -, h⟩ := Res.bind_eq_ok.mp h
  cases a with
  | none =>
    cases h
    exact .seterror ..
  | some a =>
    have hnote : KeepsPolicy s (noteAnswer a s).2 := by
      unfold noteAnswer
      split
      · exact .refl s
      · exact noteErrors_keepsPolicy ..
    simp only at h
    split at h
    · cases h
      exact hnote.trans (.seterror ..)
    · cases h
      exact hnote

theorem contactRESTRaw_keepsPolicy {X : Wire} {reply : Reply} {raw raw' : Str} {ret : Bool}
    {s s' : VomsData} (h : contactRESTRaw X reply raw s = .ok (ret, raw', s')) :
    KeepsPolicy s s' := by
  unfold contactRESTRaw at h
  cases reply with
  | failed err message =>
    cases h
    exact .seterror ..
  | received output =>
    simp only at h
    split at h
    · cases h
      exact .refl s
    · obtain ⟨⟨b, r, t⟩, hint, h⟩ := Res.bind_eq_ok.mp h
      cases h
      exact interpretOutput_keepsPolicy hint

theorem contactRaw_keepsPolicy {X : Wire} {net : Network} {i : Nat} {raw raw' : Str} {ret : Bool}
    {s s' : VomsData} (h : contactRaw X net i raw s = .ok (ret, raw', s')) :
    KeepsPolicy s s' := by
  unfold contactRaw at h
  obtain ⟨⟨b, r, t⟩, hrest, h⟩ := Res.bind_eq_ok.mp h
  have ht := contactRESTRaw_keepsPolicy hrest
  cases b with
  | true =>
    cases h
    exact ht
  | false =>
    simp only at h
    split at h
    · cases h
      exact ht.trans (.seterror ..)
    · exact ht.trans (interpretOutput_keepsPolicy h)

theorem contactLoop_keepsPolicy {C : Client} {net : Network} {attempts : Nat} :
    ∀ {turns : Nat} {message : Str} {ret : Bool} {s s' : VomsData},
      contactLoop C net attempts turns message s = .ok (ret, s') → KeepsPolicy s s'
  | 0, _, _, s, s', h => by
    cases h
    exact .refl s
  | turns + 1, message, ret, s, s', h => by
    unfold contactLoop at h
    obtain ⟨⟨b, r, t⟩, hraw, h⟩ := Res.bind_eq_ok.mp h
    have ht := contactRaw_keepsPolicy hraw
    cases b with
    | false => exact ht.trans (contactLoop_keepsPolicy h)
    | true =>
      simp only at h
      split at h
      · cases h
        exact ht.trans (.seterror ..)
      · obtain ⟨⟨b, r', t'⟩, hver, h⟩ := Res.bind_eq_ok.mp h
        cases h
        have hnone : KeepsPolicy t { t with error := .VERR_NONE } := .of_eq rfl rfl
        exact (ht.trans hnone).trans (verifymessage_keepsPolicy hver)

/-! ## One call -/

/-- The policy a call should verify under. -/
def allowed (policy : VerifyType) : Call → VerifyType
  | .retrieveExt _ => withoutId policy
  | .retrieveAc _ => withoutId policy
  | _ => policy

/-- The policy a call should leave. -/
def policyAfter (policy : VerifyType) : Call → VerifyType
  | .setVerificationType t => t
  | _ => policy

/-- The policy a call does leave. -/
def leaves (policy : VerifyType) : Call → VerifyType
  | .setVerificationType t => t
  | .retrieveAc _ => withoutId policy
  | _ => policy

/-- What a call verifies under and what policy it leaves. -/
theorem callStep_cases {C : Client} {s s' : VomsData} {c : Call} (h : callStep C s c s') :
    (∃ k, s'.used = s.used ++ List.replicate k (allowed s.verType c)) ∧
      s'.verType = leaves s.verType c := by
  obtain ⟨ret, h⟩ := h
  cases c with
  | setVerificationType t =>
    cases h
    exact ⟨⟨0, by simp⟩, rfl⟩
  | retrieveCert cert chain how => exact (retrieveCert_keepsPolicy h).symm
  | retrieveExt acs =>
    simp only [Call.run, retrieveExt] at h
    obtain ⟨⟨b, t⟩, heval, h⟩ := Res.bind_eq_ok.mp h
    cases h
    exact ⟨(evaluate_keepsPolicy heval).2, rfl⟩
  | retrieveAc ac =>
    simp only [Call.run, retrieveAc] at h
    cases ac with
    | none =>
      cases h
      exact ⟨⟨0, by simp⟩, rfl⟩
    | some ac =>
      obtain ⟨⟨v, t⟩, hver, h⟩ := Res.bind_eq_ok.mp h
      have ht := verifydata_keepsPolicy hver
      cases v with
      | none =>
        cases h
        exact ht.symm
      | some v =>
        cases h
        exact ht.symm
  | importBuffer buffer => exact (importBuffer_keepsPolicy h).symm
  | contact net => exact (contactLoop_keepsPolicy h).symm

theorem and_not_eq_self {w : Nat} {a b : BitVec w} : a &&& ~~~b = a ↔ a &&& b = 0 := by
  constructor
  · intro h
    rw [← h, BitVec.and_assoc]
    simp
  · intro h
    refine BitVec.eq_of_getLsbD_eq fun i hi => ?_
    have hbit : (a &&& b).getLsbD i = false := by simp [h]
    rw [BitVec.getLsbD_and] at hbit
    rw [BitVec.getLsbD_and, BitVec.getLsbD_not]
    cases ha : a.getLsbD i with
    | false => simp
    | true => simpa [ha, hi] using hbit

/-- Dropping `VERIFY_ID` changes a policy exactly if it has it. -/
theorem withoutId_eq_self {policy : VerifyType} :
    withoutId policy = policy ↔ ¬ has policy VERIFY_ID :=
  and_not_eq_self.trans not_not.symm

theorem not_has_withoutId (policy : VerifyType) : ¬ has (withoutId policy) VERIFY_ID := by
  have hbits : ~~~VERIFY_ID &&& VERIFY_ID = 0 := by decide
  unfold has withoutId
  rw [BitVec.and_assoc, hbits]
  simp

/-! ## Histories -/

/-- A call made under `policy` that verifies and leaves what it should. -/
structure Obeys (policy : VerifyType) (c : Call) (s s' : VomsData) : Prop where
  used : ∃ k, s'.used = s.used ++ List.replicate k (allowed policy c)
  stored : s'.verType = policyAfter s.verType c

/-- A run each of whose calls obeys the policy set last before it. -/
inductive Follows (C : Client) : VerifyType → VomsData → List Call → VomsData → Prop where
  | nil (policy : VerifyType) (s : VomsData) : Follows C policy s [] s
  | cons {policy : VerifyType} {s s' s'' : VomsData} {c : Call} {l : List Call}
      (h : callStep C s c s') (obeys : Obeys policy c s s')
      (t : Follows C (policyAfter policy c) s' l s'') : Follows C policy s (c :: l) s''

/-- `Retrieve` of an AC is called only while the policy set last is without
`VERIFY_ID`. -/
def IdOffAtRetrieveAc (policy : VerifyType) : List Call → Prop
  | [] => True
  | c :: l => ((∃ ac, c = .retrieveAc ac) → ¬ has policy VERIFY_ID) ∧
      IdOffAtRetrieveAc (policyAfter policy c) l

/-- A call leaves what it should exactly if it is not a `Retrieve` of an AC
under a policy with `VERIFY_ID`. -/
theorem leaves_eq_policyAfter {policy : VerifyType} {c : Call} :
    leaves policy c = policyAfter policy c ↔
      ((∃ ac, c = .retrieveAc ac) → ¬ has policy VERIFY_ID) := by
  cases c with
  | retrieveAc ac =>
    rw [← withoutId_eq_self]
    exact ⟨fun h _ => h, fun h => h ⟨ac, rfl⟩⟩
  | _ => simp [leaves, policyAfter]

theorem callStep_unique {C : Client} {s s' s'' : VomsData} {c : Call} (h : callStep C s c s')
    (h' : callStep C s c s'') : s' = s'' := by
  obtain ⟨ret, h⟩ := h
  obtain ⟨ret', h'⟩ := h'
  cases h.symm.trans h'
  rfl

/-- **The policy of a history.** Every call of a run verifies under the
policy set last and leaves it as it is, exactly if `Retrieve` of an AC is
called only while that policy is without `VERIFY_ID`. -/
theorem run_follows_iff {C : Client} {s s' : VomsData} {l : List Call}
    (h : Run (callStep C) s l s') :
    Follows C s.verType s l s' ↔ IdOffAtRetrieveAc s.verType l := by
  induction h with
  | nil s => exact ⟨fun _ => trivial, fun _ => .nil _ s⟩
  | @cons s s1 s' c l hstep _ ih =>
    obtain ⟨hused, hleaves⟩ := callStep_cases hstep
    constructor
    · intro h
      cases h with
      | cons hstep' hobeys ht =>
        obtain rfl := callStep_unique hstep hstep'
        have hstored := hobeys.stored
        rw [← hstored] at ht
        refine ⟨leaves_eq_policyAfter.mp (hleaves.symm.trans hstored), ?_⟩
        rw [← hstored]
        exact ih.mp ht
    · intro h
      obtain ⟨hid, hl⟩ := h
      have hstored : s1.verType = policyAfter s.verType c :=
        hleaves.trans (leaves_eq_policyAfter.mpr hid)
      rw [← hstored] at hl
      refine .cons hstep ⟨hused, hstored⟩ ?_
      rw [← hstored]
      exact ih.mpr hl

/-- While `SetVerificationType` is not called, `VERIFY_ID` is all a policy
can lose. -/
theorem run_weakens {C : Client} {s s' : VomsData} {l : List Call} (h : Run (callStep C) s l s')
    (hset : ∀ c ∈ l, ∀ t, c ≠ .setVerificationType t) :
    s'.verType = s.verType ∨ s'.verType = withoutId s.verType := by
  have hkeeps : Run.Keeps (callStep C) (fun c => ∀ t, c ≠ .setVerificationType t)
      (fun x => x.verType = s.verType ∨ x.verType = withoutId s.verType) := by
    intro x c y hc hx hstep
    rw [(callStep_cases hstep).2]
    cases c with
    | setVerificationType t => exact absurd rfl (hc t)
    | retrieveAc ac =>
      refine Or.inr ?_
      rcases hx with hx | hx
      · rw [← hx]
        rfl
      · rw [← withoutId_eq_self.mpr (not_has_withoutId s.verType), ← hx]
        rfl
    | _ => exact hx
  exact h.invariant hkeeps hset (Or.inl rfl)

/-! ### Two histories -/

namespace Sample

export Voms.L2.Sample (user server)

/-- `Sample.ac` is in every certificate. -/
def applications : Client :=
  { files .good with
    expat := fun _ => ([], false)
    base64Decode := id
    d2iAcAt := fun _ => none
    d2iX509At := fun _ => none
    acseq := fun _ => some (some [d2iAc ac])
    incfile := fun _ => none
    vo := fun _ => none }

end Sample

/-- `run_follows_iff` where `Retrieve` of an AC is called without `VERIFY_ID`. -/
theorem run_follows_sample : ∃ s', Follows Sample.applications VERIFY_FULL Sample.client
    [.setVerificationType VERIFY_SIGN, .retrieveAc (some (d2iAc Sample.ac)),
      .retrieveCert (some Sample.user) none .RECURSE_NONE] s' := by
  obtain ⟨s', h⟩ := Res.isOk_iff.mp (show (runCalls Sample.applications
    [.setVerificationType VERIFY_SIGN, .retrieveAc (some (d2iAc Sample.ac)),
      .retrieveCert (some Sample.user) none .RECURSE_NONE] Sample.client).isOk = true by decide)
  refine ⟨s', (run_follows_iff (run_of_runCalls h)).mpr ⟨?_, ?_, ?_, trivial⟩⟩
  · intro h
    obtain ⟨_, h⟩ := h
    cases h
  · exact fun _ => by decide
  · intro h
    obtain ⟨_, h⟩ := h
    cases h

/-- After `Retrieve` of an AC the object takes the user's AC for the server's. -/
theorem retrieveAc_keeps_id_off : ∃ s', Run (callStep Sample.applications) Sample.client
      [.retrieveAc (some (d2iAc Sample.ac)), .retrieveCert (some Sample.server) none .RECURSE_NONE]
      s' ∧
    s'.used = [withoutId VERIFY_FULL, withoutId VERIFY_FULL] ∧
    s'.data.map (·.holder) = [none, some Sample.server] ∧
    ¬ Follows Sample.applications VERIFY_FULL Sample.client
      [.retrieveAc (some (d2iAc Sample.ac)),
        .retrieveCert (some Sample.server) none .RECURSE_NONE] s' := by
  refine ⟨_, run_of_runCalls rfl, by decide, by decide, fun h => ?_⟩
  cases h with
  | cons hstep hobeys _ =>
    have hstored := hobeys.stored.symm.trans (callStep_cases hstep).2
    exact absurd hstored (by decide)

end Voms.L4
