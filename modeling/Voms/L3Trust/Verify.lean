import Voms.Core.Run
import Voms.L3Trust.Proxy

/-!
# What a verified chain is worth

One verification is the list of calls that `X509_verify_cert` makes to
`proxy_verify_callback` while nothing stops it. `Contract` is what OpenSSL
promises about the list; it aborts when a call returns 0, so a chain is let
through exactly when the callback accepts every call of the list
(`LetThrough`, a `Run` whose state is the verify descriptor).

* `callback_signatureError`: a bad signature is never overruled.
* `callback_trustError`: a missing or untrusted issuer is overruled exactly
  when the certificate in question looks like a proxy (`ProxyExcuse`).
* `letThrough_sound`: with no such excuse in the run, the chain ends in a
  trusted certificate and all its signatures were verified.

The excuse asks nobody who issued the proxy: a certificate that its own
bearer made, named like a proxy, passes with no issuer at all
(`letThrough_selfMade`).
-/
namespace Voms.L3

open Voms.Core Voms.L1

/-- One verification. -/
structure Verification where
  /-- The chain OpenSSL could build, leaf first. -/
  chain : List X509
  /-- The certificate is in the trust store. -/
  trusted : X509 → Bool
  /-- `X509_verify` of the first with the key of the second succeeded. -/
  signedBy : X509 → X509 → Bool
  /-- The calls to the callback, if none of them returns 0. -/
  calls : List Call

/-- The errors for a chain whose end nobody vouches for. -/
def IsTrustError : VerifyError → Prop
  | .unableToGetIssuerCert | .unableToGetIssuerCertLocally => True
  | .certUntrusted | .unableToVerifyLeafSignature => True
  | _ => False

/-- The errors for a signature that could not be verified. -/
def IsSignatureError (e : VerifyError) : Prop :=
  e = .certSignatureFailure ∨ e = .unableToDecodeIssuerPublicKey

/-- Neighbours in the chain: a certificate and its issuer. -/
def Adjacent (chain : List X509) (x y : X509) : Prop :=
  ∃ before after, chain = before ++ x :: y :: after

/-- The chain ends in a trusted certificate. -/
def Verification.Anchored (V : Verification) : Prop :=
  ∃ t, V.chain.getLast? = some t ∧ V.trusted t = true

/-- Every certificate is signed with the key of the next. -/
def Verification.Signed (V : Verification) : Prop :=
  ∀ x y, Adjacent V.chain x y → V.signedBy x y = true

/-- OpenSSL reports what it could not verify. -/
structure Contract (V : Verification) : Prop where
  trust : ¬ V.Anchored → ∃ call ∈ V.calls, call.ok = false ∧ IsTrustError call.ctx.error
  signature : ∀ x y, Adjacent V.chain x y → V.signedBy x y = false →
    ∃ call ∈ V.calls, call.ok = false ∧ IsSignatureError call.ctx.error

/-- The callback returned non-zero. -/
def callbackStep (S : Store) (pvd : Option ProxyVerifyDesc) (call : Call)
    (pvd' : Option ProxyVerifyDesc) : Prop := proxyVerifyCallback S pvd call = .ok pvd'

/-- Verification succeeds. -/
def LetThrough (S : Store) (pvd : Option ProxyVerifyDesc) (V : Verification) : Prop :=
  ∃ pvd', Run (callbackStep S) pvd V.calls pvd'

/-- The condition under which a trust error is overruled. -/
def ProxyExcuse (S : Store) (ctx : StoreCtx) : Prop :=
  match ctx.error with
  | .unableToVerifyLeafSignature =>
    (∃ ret, proxyCheckProxyName ctx.cert = .ok ret ∧ ret ≠ 0) ∧ ctx.cert = ctx.currentCert
  | .unableToGetIssuerCert =>
    (∃ ret, proxyCheckProxyName ctx.cert = .ok ret ∧ 1 ≤ ret) ∧
      proxyCheckIssued S ctx.cert ctx.currentCert = .ok true
  | .unableToGetIssuerCertLocally | .certUntrusted =>
    ∃ ret, proxyCheckProxyName ctx.currentCert = .ok ret ∧ 0 < ret
  | _ => False

/-! ## One call -/

theorem lift_eq_ok {α : Type} {x : Eval α} {a : α} : lift x = .ok a ↔ x = .ok a := by
  simp [lift]

/-- An error call is accepted when it is overruled, and changes nothing. -/
theorem callback_error_eq_ok {S : Store} {pvd pvd' : Option ProxyVerifyDesc} {call : Call}
    (hok : call.ok = false) : proxyVerifyCallback S pvd call = .ok pvd' ↔
      pvd.all (·.magicOk) = true ∧ overrule S call.ctx = .ok true ∧ pvd' = pvd := by
  unfold proxyVerifyCallback
  simp only [hok, Bool.false_eq_true, if_false, Res.then_eq_ok, Res.guard_eq_ok]
  refine and_congr_right fun _ => ?_
  simp only [Res.bind_eq_ok, lift_eq_ok]
  constructor
  · intro h
    obtain ⟨ok, hover, h⟩ := h
    obtain ⟨_, hguard, hpvd⟩ := h
    cases hpvd
    rw [Res.guard_eq_ok] at hguard
    exact ⟨hguard ▸ hover, rfl⟩
  · intro h
    obtain ⟨hover, rfl⟩ := h
    exact ⟨true, hover, (), Res.guard_pos rfl, rfl⟩

theorem callback_signatureError {S : Store} {pvd pvd' : Option ProxyVerifyDesc} {call : Call}
    (hok : call.ok = false) (herr : IsSignatureError call.ctx.error) :
    proxyVerifyCallback S pvd call ≠ .ok pvd' := by
  intro h
  obtain ⟨-, hover, -⟩ := (callback_error_eq_ok hok).mp h
  rcases herr with e | e <;> simp [overrule, e] at hover

/-- A trust error is overruled exactly for want of looking at the issuer. -/
theorem overrule_trustError {S : Store} {ctx : StoreCtx} (herr : IsTrustError ctx.error) :
    overrule S ctx = .ok true ↔ ProxyExcuse S ctx := by
  unfold overrule ProxyExcuse
  cases he : ctx.error with
  | unableToVerifyLeafSignature =>
    simp only [Res.bind_eq_ok, Res.pure_eq, Res.ok.injEq, Bool.and_eq_true, decide_eq_true_eq,
      beq_iff_eq]
    constructor
    · intro h
      obtain ⟨ret, hret, hne, hcert⟩ := h
      exact ⟨⟨ret, hret, hne⟩, hcert⟩
    · intro h
      obtain ⟨⟨ret, hret, hne⟩, hcert⟩ := h
      exact ⟨ret, hret, hne, hcert⟩
  | unableToGetIssuerCert =>
    simp only [Res.bind_eq_ok]
    constructor
    · intro h
      obtain ⟨ret, hret, h⟩ := h
      by_cases hge : 1 ≤ ret
      · rw [if_pos hge] at h
        exact ⟨⟨ret, hret, hge⟩, h⟩
      · rw [if_neg hge] at h
        cases h
    · intro h
      obtain ⟨⟨ret, hret, hge⟩, hissued⟩ := h
      exact ⟨ret, hret, by rw [if_pos hge]; exact hissued⟩
  | unableToGetIssuerCertLocally => simp [Res.bind_eq_ok]
  | certUntrusted => simp [Res.bind_eq_ok]
  | _ => simp [he, IsTrustError] at herr

theorem callback_trustError {S : Store} {pvd pvd' : Option ProxyVerifyDesc} {call : Call}
    (hok : call.ok = false) (herr : IsTrustError call.ctx.error) :
    proxyVerifyCallback S pvd call = .ok pvd' ↔
      pvd.all (·.magicOk) = true ∧ ProxyExcuse S call.ctx ∧ pvd' = pvd := by
  rw [callback_error_eq_ok hok, overrule_trustError herr]

/-! ## A whole verification -/

/-- Every call of a verification that is let through was accepted. -/
theorem letThrough_accepts {S : Store} {pvd : Option ProxyVerifyDesc} {V : Verification}
    (h : LetThrough S pvd V) {call : Call} (hc : call ∈ V.calls) :
    ∃ p p', proxyVerifyCallback S p call = .ok p' := by
  obtain ⟨pvd', hrun⟩ := h
  have hkeeps : Run.Keeps (callbackStep S) (fun _ => True) (fun _ => True) :=
    fun _ _ _ _ _ _ => trivial
  obtain ⟨p, p', -, hstep⟩ := Run.step_of_mem hkeeps hrun (fun _ _ => trivial) trivial hc
  exact ⟨p, p', hstep⟩

/-- The signatures of a chain that is let through were all verified. -/
theorem letThrough_signed {S : Store} {pvd : Option ProxyVerifyDesc} {V : Verification}
    (hV : Contract V) (h : LetThrough S pvd V) : V.Signed := by
  intro x y hadj
  by_contra hsig
  obtain ⟨call, hmem, hok, herr⟩ := hV.signature x y hadj (by simpa using hsig)
  obtain ⟨p, p', hacc⟩ := letThrough_accepts h hmem
  exact callback_signatureError hok herr hacc

/-- **Soundness of the callback.** A verification that is let through, in
which no missing or untrusted issuer was excused by the looks of a proxy,
is of a chain that ends in a trusted certificate and whose signatures were
all verified. -/
theorem letThrough_sound {S : Store} {pvd : Option ProxyVerifyDesc} {V : Verification}
    (hV : Contract V) (hexcuse : ∀ call ∈ V.calls, call.ok = false → ¬ ProxyExcuse S call.ctx)
    (h : LetThrough S pvd V) : V.Anchored ∧ V.Signed := by
  refine ⟨?_, letThrough_signed hV h⟩
  by_contra hanchor
  obtain ⟨call, hmem, hok, herr⟩ := hV.trust hanchor
  obtain ⟨p, p', hacc⟩ := letThrough_accepts h hmem
  obtain ⟨-, hex, -⟩ := (callback_trustError hok herr).mp hacc
  exact hexcuse call hmem hok hex

/-! ### Two verifications -/

namespace Sample

export Voms.L1.Sample (root user)

def store : Store :=
  { matcher := matcher
    checkIssued := fun issuer x => if issuer.subject.same x.issuer then .ok else .other
    crlBySubject := fun _ => none
    readPathrestriction := fun _ _ => ([], [])
    envCertDir := none
    mktime := fun t => if t = Voms.L1.Sample.noon then 1704110400 else 0 }

def pvd : ProxyVerifyDesc := ⟨true, 0, 0, false, false, none, 0⟩

def ctx (error : VerifyError) (depth : Nat) (current issuer : X509) (chain : List X509) :
    StoreCtx := ⟨error, depth, chain.headD current, current, issuer, depth = 0, chain⟩

/-- A user certificate and the root that issued it. -/
def honest : Verification :=
  { chain := [user, root]
    trusted := fun x => x == root
    signedBy := fun x y => x.issuer == y.subject && y == root
    calls := [⟨true, ctx .ok 1 root root [user, root]⟩, ⟨true, ctx .ok 0 user root [user, root]⟩] }

def nobody : X509Name := ⟨[⟨NID_commonName, "nobody".toList⟩], [9], "/CN=nobody".toList⟩

/-- `/CN=nobody/CN=proxy`, issued by `/CN=nobody`; no such issuer exists. -/
def selfMade : X509 :=
  { Voms.L1.Sample.user with
    subject := ⟨nobody.entries ++ [⟨NID_commonName, "proxy".toList⟩], [9, 9],
      "/CN=nobody/CN=proxy".toList⟩
    issuer := nobody }

/-- Its verification: no issuer is found while the chain is built, and none
to check the signature with. -/
def lonely : Verification :=
  { chain := [selfMade]
    trusted := fun x => x == root
    signedBy := fun _ _ => false
    calls := [⟨false, ctx .unableToGetIssuerCertLocally 0 selfMade selfMade [selfMade]⟩,
      ⟨false, ctx .unableToVerifyLeafSignature 0 selfMade selfMade [selfMade]⟩] }

end Sample

/-- `letThrough_sound` where a user certificate passes. -/
theorem letThrough_honest : Sample.honest.Anchored ∧ Sample.honest.Signed := by
  have hcalls : ∀ call ∈ Sample.honest.calls, call.ok = true := by
    simp [Sample.honest]
  have hanchored : Sample.honest.Anchored := ⟨Voms.L1.Sample.root, rfl, by decide⟩
  have hcontract : Contract Sample.honest := by
    refine ⟨fun h => absurd hanchored h, fun x y hadj hsig => ?_⟩
    obtain ⟨before, after, heq⟩ := hadj
    rcases before with - | ⟨a, - | ⟨b, before⟩⟩
    · cases heq
      exact absurd hsig (by decide)
    · cases heq
    · simp [Sample.honest] at heq
  have hthrough : LetThrough Sample.store (some Sample.pvd) Sample.honest :=
    ⟨_, .cons rfl (.cons rfl (.nil _))⟩
  exact letThrough_sound hcontract
    (fun call hc hok => absurd (hcalls call hc) (by simp [hok])) hthrough

/-- A certificate that its bearer made is let through: its chain has no
trusted end and no signature was verified. -/
theorem letThrough_selfMade : Contract Sample.lonely ∧
    LetThrough Sample.store (some Sample.pvd) Sample.lonely ∧
    ¬ (Sample.lonely.Anchored ∧ Sample.lonely.Signed) := by
  refine ⟨⟨fun _ => ?_, fun x y hadj => ?_⟩, ?_, ?_⟩
  · exact ⟨_, List.mem_cons_self .., rfl, trivial⟩
  · obtain ⟨before, after, heq⟩ := hadj
    rcases before with - | ⟨a, before⟩
    · simp [Sample.lonely] at heq
    · simp [Sample.lonely] at heq
  · exact ⟨_, .cons rfl (.cons rfl (.nil _))⟩
  · intro h
    obtain ⟨⟨t, ht, htrust⟩, -⟩ := h
    cases ht
    exact absurd htrust (by decide)

end Voms.L3
