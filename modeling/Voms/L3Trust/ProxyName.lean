import Voms.L3Trust.Proxy

/-!
# What passes for a proxy

`proxy_check_proxy_name` (`src/sslutils/sslutils.c`) should answer 1 or 2
only for a certificate whose subject is its issuer's name with one common
name behind it, and 2 for every limited one. It holds old-style proxies to
that; a certificate with a proxyCertInfo extension gets 1 as it is
(`namedRight_iff`).
-/
namespace Voms.L3

open Voms.Core Voms.L1

/-- The subject is the issuer's name with one common name behind it. -/
def Appended (cert : X509) : Prop :=
  ∃ cn, cert.subject.entries = cert.issuer.entries ++ [⟨NID_commonName, cn⟩]

/-- A proxyCertInfo of the draft or of the RFC. -/
def CertExt.isProxyCertInfo (e : CertExt) : Bool :=
  e.type = .proxyCertInfoV3 || e.type = .proxyCertInfoV4

/-- By its last common name or by the policy language of an extension. -/
def Limited (cert : X509) : Prop :=
  cert.subject.entries.getLast? = some ⟨NID_commonName, "limited proxy".toList⟩ ∨
    ∃ e ∈ cert.exts, CertExt.isProxyCertInfo e = true ∧ e.policyLanguage = some .limited

/-- What the answer about a certificate should be. -/
structure NamedRight (cert : X509) : Prop where
  defined : ∃ ret, proxyCheckProxyName cert = .ok ret
  appended : ∀ ret, proxyCheckProxyName cert = .ok ret → ret = 1 ∨ ret = 2 → Appended cert
  limited : Appended cert → Limited cert → proxyCheckProxyName cert = .ok 2

section

variable {cert : X509}

/-- With an extension the answer is 1. -/
theorem proxyCheckProxyName_ext (h : cert.exts.any CertExt.isProxyCertInfo = true) :
    proxyCheckProxyName cert = .ok 1 := if_pos h

/-- Without one the last component of the name is read. -/
theorem proxyCheckProxyName_nameless (h : cert.exts.any CertExt.isProxyCertInfo = false)
    (hsubject : cert.subject.entries = []) : proxyCheckProxyName cert = .fault .nullDeref := by
  have hname : proxyCheckProxyName cert = _ := if_neg (Bool.eq_false_iff.mp h)
  rw [hname, hsubject]
  rfl

/-- The issuer's name with one component more, against a subject that ends in it. -/
theorem issuerName_cmp {front : List NameEntry} {last : NameEntry}
    (hsubject : cert.subject.entries = front ++ [last]) :
    nameCmpNoSet { cert.issuer with entries := cert.issuer.entries ++ [last] } cert.subject =
      decide (cert.issuer.entries = front) := by
  unfold nameCmpNoSet
  rw [hsubject, Bool.eq_iff_iff, beq_iff_eq, decide_eq_true_eq]
  exact ⟨List.append_cancel_right, fun h => by rw [h]⟩

/-- The answer about an old-style proxy, by its last component. -/
theorem proxyCheckProxyName_old {front : List NameEntry} {last : NameEntry}
    (h : cert.exts.any CertExt.isProxyCertInfo = false)
    (hsubject : cert.subject.entries = front ++ [last]) :
    proxyCheckProxyName cert = .ok
      (if last = ⟨NID_commonName, "proxy".toList⟩ then
        if cert.issuer.entries = front then 1 else -1
      else if last = ⟨NID_commonName, "limited proxy".toList⟩ then
        if cert.issuer.entries = front then 2 else -1
      else 0) := by
  have hname : proxyCheckProxyName cert = _ := if_neg (Bool.eq_false_iff.mp h)
  have hobject {cn : Str} (h : last.object ≠ NID_commonName) : last ≠ ⟨NID_commonName, cn⟩ :=
    fun e => h (congrArg NameEntry.object e)
  have hdata {cn : Str} (h : last.data ≠ cn) : last ≠ ⟨NID_commonName, cn⟩ :=
    fun e => h (congrArg NameEntry.data e)
  rw [hname, hsubject, List.getLast?_concat, Res.deref_some, Res.ok_bind]
  by_cases hcn : last.object = NID_commonName
  · have hlast {cn : Str} (h : last.data = cn) : last = ⟨NID_commonName, cn⟩ := by
      rw [← hcn, ← h]
    have hcmp {cn : Str} (h : last.data = cn) :
        nameCmpNoSet { cert.issuer with
          entries := cert.issuer.entries ++ [⟨NID_commonName, cn⟩] } cert.subject =
            decide (cert.issuer.entries = front) := by
      rw [← hlast h]
      exact issuerName_cmp hsubject
    rw [if_pos hcn]
    by_cases hproxy : last.data = "proxy".toList
    · rw [if_pos hproxy, if_pos (hlast hproxy)]
      simp only [hcmp hproxy, decide_eq_true_eq, Res.pure_eq]
    · rw [if_neg hproxy, if_neg (hdata hproxy)]
      by_cases hlimited : last.data = "limited proxy".toList
      · rw [if_pos hlimited, if_pos (hlast hlimited)]
        simp only [hcmp hlimited, decide_eq_true_eq, Res.pure_eq]
      · rw [if_neg hlimited, if_neg (hdata hlimited)]
        rfl
  · rw [if_neg hcn, if_neg (hobject hcn), if_neg (hobject hcn)]
    rfl

theorem limited_iff_old (h : cert.exts.any CertExt.isProxyCertInfo = false) : Limited cert ↔
    cert.subject.entries.getLast? = some ⟨NID_commonName, "limited proxy".toList⟩ := by
  refine or_iff_left fun ⟨e, he, hinfo, _⟩ => ?_
  exact Bool.eq_false_iff.mp h (List.any_eq_true.mpr ⟨e, he, hinfo⟩)

end

/-- **When the answer is right**: with a proxyCertInfo exactly if the name is
that of a proxy and nothing says that it is limited, without one exactly if
the subject is not empty. -/
theorem namedRight_iff (cert : X509) : NamedRight cert ↔
    if cert.exts.any CertExt.isProxyCertInfo = true then Appended cert ∧ ¬ Limited cert
    else cert.subject.entries ≠ [] := by
  by_cases hext : cert.exts.any CertExt.isProxyCertInfo = true
  · have hone := proxyCheckProxyName_ext hext
    rw [if_pos hext]
    constructor
    · intro h
      have happended := h.appended 1 hone (Or.inl rfl)
      refine ⟨happended, fun hlimited => ?_⟩
      cases hone.symm.trans (h.limited happended hlimited)
    · intro ⟨happended, hlimited⟩
      exact ⟨⟨1, hone⟩, fun _ _ _ => happended, fun _ h => absurd h hlimited⟩
  · have hext : cert.exts.any CertExt.isProxyCertInfo = false := by simpa using hext
    rw [if_neg (by simp [hext])]
    constructor
    · intro h hsubject
      obtain ⟨ret, hret⟩ := h.defined
      rw [proxyCheckProxyName_nameless hext hsubject] at hret
      cases hret
    · intro hsubject
      obtain ⟨front, last, hfront⟩ := (List.eq_nil_or_concat' cert.subject.entries).resolve_left
        hsubject
      have hret := proxyCheckProxyName_old hext hfront
      refine ⟨⟨_, hret⟩, fun ret h hproxy => ?_, fun happended hlimited => ?_⟩
      · rw [hret, Res.ok.injEq] at h
        split at h
        · next hlast =>
          split at h
          · next hissuer => exact ⟨_, by rw [hfront, hissuer, hlast]⟩
          · omega
        · split at h
          · next hlast =>
            split at h
            · next hissuer => exact ⟨_, by rw [hfront, hissuer, hlast]⟩
            · omega
          · omega
      · obtain ⟨cn, happended⟩ := happended
        rw [limited_iff_old hext, hfront, List.getLast?_concat, Option.some.injEq] at hlimited
        rw [hfront, hlimited] at happended
        have hissuer : cert.issuer.entries = front :=
          (List.append_inj_left' happended rfl).symm
        rw [hret, hlimited, if_neg (by decide), if_pos rfl, if_pos hissuer]

namespace Sample

def proxyInfo (language : PolicyLanguage) : CertExt := ⟨.proxyCertInfoV4, true, some language⟩

/-- A certificate that is named like no proxy of its issuer. -/
def impostor : X509 := { Voms.L1.Sample.user with exts := [proxyInfo (.other 1)] }

/-- A limited proxy of the user. -/
def limitedProxy : X509 :=
  { Voms.L1.Sample.user with
    subject := ⟨Voms.L1.Sample.userName.entries ++ [⟨NID_commonName, "1234".toList⟩], [3, 3],
      "/CN=user/CN=1234".toList⟩
    issuer := Voms.L1.Sample.userName
    exts := [proxyInfo .limited] }

def nameless : X509 := { Voms.L1.Sample.user with subject := ⟨[], [], []⟩ }

end Sample

/-- The CA's `/CN=user` passes for a proxy, a limited proxy for a full one,
and of an empty name the last component is read. -/
theorem namedRight_fails :
    ¬ NamedRight Sample.impostor ∧ ¬ NamedRight Sample.limitedProxy ∧
      ¬ NamedRight Sample.nameless := by
  refine ⟨fun h => ?_, fun h => ?_, fun h => ?_⟩
  · obtain ⟨cn, happended⟩ := h.appended 1 rfl (Or.inl rfl)
    cases congrArg List.length happended
  · have htwo := h.limited ⟨_, rfl⟩ (Or.inr ⟨_, List.mem_singleton_self _, rfl, rfl⟩)
    exact absurd htwo (by decide)
  · obtain ⟨ret, hret⟩ := h.defined
    cases hret

end Voms.L3
