import Voms.L3Trust.PathLength
import Voms.L3Trust.ProxyName

/-!
# What the verification of a chain leaves

`proxy_verify_callback` (`src/sslutils/sslutils.c`) keeps a descriptor while
it is shown the certificates of a chain, root first: how many there were, how
many of them proxies, whether one was limited, and when the first of them
ends. Callers read it once the chain is verified.

* `run_noted`: after any calls it is what the certificates shown make of it,
  one after the other; errors that were overruled leave no trace.
* `descent_exact`: for a whole chain, and times that are read as positive
  numbers, it tells the number of certificates and of proxies, the earliest
  end, and whether the leaf is a limited proxy; no other certificate is one.
-/
namespace Voms.L3

open Voms.Core Voms.L1

/-- The callback takes the certificate for a limited proxy. -/
def isLimited (cert : X509) : Bool :=
  match proxyCheckProxyName cert with
  | .ok ret => decide (ret = 2)
  | _ => false

/-- The descriptor before the first certificate; the directory is its
owner's. mirrors src/sslutils/sslutils.c:1484-1524 -/
def proxyVerifyInit (certdir : Option Str) : ProxyVerifyDesc :=
  ⟨true, 0, 0, false, false, certdir, 0⟩

/-- The earlier of two ends, 0 standing for none.
mirrors src/sslutils/sslutils.c:2201-2206 -/
def earlier (goodtill t : Int) : Int := if goodtill = 0 ∨ t < goodtill then t else goodtill

/-- The descriptor after a certificate. -/
def noted (S : Store) (pvd : ProxyVerifyDesc) (cert : X509) : ProxyVerifyDesc :=
  { pvd with
    proxyDepth := depthAfter pvd cert
    certDepth := pvd.certDepth + 1
    limitedProxy := pvd.limitedProxy || isLimited cert
    goodtill := earlier pvd.goodtill (S.mktime cert.notAfter) }

/-! ## One certificate -/

section

variable {S : Store} {ctx : StoreCtx} {pvd pvd' : ProxyVerifyDesc}

theorem checkProxy_noted {itsaproxy : Bool} (h : checkProxy ctx pvd = .ok (pvd', itsaproxy)) :
    pvd' = { pvd with
      proxyDepth := depthAfter pvd ctx.currentCert
      limitedProxy := pvd.limitedProxy || isLimited ctx.currentCert } ∧
    (isLimited ctx.currentCert = true →
      ctx.errorDepth = 0 ∨ pvd.multipleLimitedProxyOk = true) := by
  unfold checkProxy at h
  obtain ⟨ret, hret, h⟩ := Res.bind_eq_ok.mp h
  obtain ⟨-, h⟩ := Res.then_eq_ok.mp h
  have hproxy : isProxy ctx.currentCert = decide (0 < ret) := by
    unfold isProxy
    rw [lift_eq_ok.mp hret]
  have hlimited : isLimited ctx.currentCert = decide (ret = 2) := by
    unfold isLimited
    rw [lift_eq_ok.mp hret]
  unfold depthAfter
  rw [hproxy, hlimited]
  split at h
  · next hpos =>
    obtain ⟨hguard, h⟩ := Res.then_eq_ok.mp h
    rw [Res.guard_eq_ok] at hguard
    cases h
    by_cases htwo : ret = 2
    · simp only [htwo] at hguard ⊢
      refine ⟨by simp, fun _ => ?_⟩
      by_contra hnot
      rw [not_or, Bool.not_eq_true] at hnot
      exact hguard ⟨trivial, hnot⟩
    · simp [htwo, hpos]
  · next hpos =>
    cases h
    have htwo : ret ≠ 2 := by omega
    simp [hpos, htwo]

theorem checkCert_noted (h : checkCert S ctx pvd = .ok pvd') :
    pvd' = noted S pvd ctx.currentCert ∧ (isLimited ctx.currentCert = true →
      ctx.errorDepth = 0 ∨ pvd.multipleLimitedProxyOk = true) := by
  unfold checkCert at h
  obtain ⟨⟨pvd1, itsaproxy⟩, hproxy, h⟩ := Res.bind_eq_ok.mp h
  obtain ⟨rfl, hlimited⟩ := checkProxy_noted hproxy
  simp only [Res.then_eq_ok, Res.when_eq_ok, Res.guard_eq_ok] at h
  obtain ⟨-, -, -, h⟩ := h
  cases h
  refine ⟨?_, hlimited⟩
  unfold noted earlier
  split <;> rfl

end

/-- A call that is accepted notes the certificate it is about. -/
theorem callback_noted {S : Store} {pvd : ProxyVerifyDesc} {call : Call}
    {st : Option ProxyVerifyDesc} (h : proxyVerifyCallback S (some pvd) call = .ok st) :
    st = some (if call.ok then noted S pvd call.ctx.currentCert else pvd) ∧
      (call.ok = true → isLimited call.ctx.currentCert = true →
        call.ctx.errorDepth = 0 ∨ pvd.multipleLimitedProxyOk = true) := by
  cases hok : call.ok with
  | false =>
    obtain ⟨-, -, rfl⟩ := (callback_error_eq_ok hok).mp h
    exact ⟨rfl, nofun⟩
  | true =>
    unfold proxyVerifyCallback at h
    obtain ⟨-, h⟩ := Res.then_eq_ok.mp h
    rw [if_pos hok] at h
    obtain ⟨pvd', hcert, h⟩ := Res.bind_eq_ok.mp h
    cases h
    obtain ⟨rfl, hlimited⟩ := checkCert_noted hcert
    exact ⟨rfl, fun _ => hlimited⟩

/-! ## A run -/

theorem certsShown_cons (call : Call) (calls : List Call) : certsShown (call :: calls) =
    if call.ok then call.ctx.currentCert :: certsShown calls else certsShown calls := by
  unfold certsShown
  cases hok : call.ok with
  | false => rw [List.filter_cons_of_neg (by simp [hok]), if_neg Bool.false_ne_true]
  | true => rw [List.filter_cons_of_pos hok, List.map_cons, if_pos rfl]

/-- The certificates shown are noted, one after the other, and the limited
proxies among them are shown as leaves, unless others are let through. -/
theorem run_noted {S : Store} {calls : List Call} : ∀ {pvd : ProxyVerifyDesc}
    {st : Option ProxyVerifyDesc}, Run (callbackStep S) (some pvd) calls st →
      st = some ((certsShown calls).foldl (noted S) pvd) ∧
        ∀ call ∈ calls, call.ok = true → isLimited call.ctx.currentCert = true →
          call.ctx.errorDepth = 0 ∨ pvd.multipleLimitedProxyOk = true := by
  induction calls with
  | nil =>
    intro pvd st h
    cases h
    exact ⟨rfl, fun call hcall => absurd hcall List.not_mem_nil⟩
  | cons call calls ih =>
    intro pvd st h
    cases h with
    | cons hstep hrun =>
      obtain ⟨rfl, hlimited⟩ := callback_noted hstep
      rw [certsShown_cons]
      cases hok : call.ok with
      | false =>
        rw [hok] at hrun
        obtain ⟨rfl, hrest⟩ := ih hrun
        refine ⟨rfl, fun c hc hcok => ?_⟩
        rcases List.mem_cons.mp hc with rfl | hc
        · rw [hok] at hcok
          cases hcok
        · exact hrest c hc hcok
      | true =>
        rw [hok] at hrun
        obtain ⟨rfl, hrest⟩ := ih hrun
        refine ⟨rfl, fun c hc hcok => ?_⟩
        rcases List.mem_cons.mp hc with rfl | hc
        · exact hlimited hcok
        · exact hrest c hc hcok

/-! ## A chain -/

section

variable {S : Store}

theorem foldl_noted : ∀ {certs : List X509} {pvd : ProxyVerifyDesc},
    certs.foldl (noted S) pvd = { pvd with
      proxyDepth := pvd.proxyDepth + certs.countP isProxy
      certDepth := pvd.certDepth + certs.length
      limitedProxy := pvd.limitedProxy || certs.any isLimited
      goodtill := (certs.map (S.mktime ·.notAfter)).foldl earlier pvd.goodtill }
  | [], pvd => by simp
  | cert :: certs, pvd => by
    rw [List.foldl_cons, foldl_noted]
    simp only [noted, depthAfter, List.countP_cons, List.length_cons, List.any_cons,
      List.map_cons, List.foldl_cons, Bool.or_assoc]
    congr 1
    · push_cast
      split <;> omega
    · push_cast
      omega

/-- Of ends that are positive numbers the earliest is left. -/
theorem foldl_earlier : ∀ {ends : List Int} {goodtill : Int}, 0 < goodtill → (∀ t ∈ ends, 0 < t) →
    ends.foldl earlier goodtill ∈ goodtill :: ends ∧
      ∀ t ∈ goodtill :: ends, ends.foldl earlier goodtill ≤ t
  | [], goodtill, _, _ => by simp
  | t :: ends, goodtill, hpos, hall => by
    have hearlier : earlier goodtill t = min goodtill t := by
      unfold earlier
      split <;> omega
    have ht := hall t (.head _)
    obtain ⟨hmem, hle⟩ := foldl_earlier (show 0 < earlier goodtill t by omega) fun u hu =>
      hall u (.tail _ hu)
    rw [List.foldl_cons]
    have hfirst := hle _ (.head _)
    refine ⟨?_, fun u hu => ?_⟩
    · rcases List.mem_cons.mp hmem with heq | hmem
      · rw [heq, hearlier]
        rcases min_choice goodtill t with hmin | hmin
        · rw [hmin]
          exact .head _
        · rw [hmin]
          exact .tail _ (.head _)
      · exact .tail _ (.tail _ hmem)
    · rcases List.mem_cons.mp hu with rfl | hu
      · omega
      · rcases List.mem_cons.mp hu with rfl | hu
        · omega
        · exact hle u (.tail _ hu)

/-- What a descriptor says about a chain. -/
structure Describes (S : Store) (pvd : ProxyVerifyDesc) (leaf : X509) (rest : List X509) :
    Prop where
  certs : pvd.certDepth = (leaf :: rest).length
  proxies : pvd.proxyDepth = (leaf :: rest).countP isProxy
  limited : pvd.limitedProxy = isLimited leaf
  /-- A limited proxy signs no proxy. -/
  behind : ∀ c ∈ rest, isLimited c = false
  goodtill : ∃ c ∈ leaf :: rest, pvd.goodtill = S.mktime c.notAfter
  least : ∀ c ∈ leaf :: rest, pvd.goodtill ≤ S.mktime c.notAfter

/-- Behind the leaf of a chain that is let through nothing is limited. -/
theorem Presented.behind {chain : List X509} {calls : List Call} {pvd : ProxyVerifyDesc}
    {st : Option ProxyVerifyDesc} (h : Presented chain calls)
    (hmultiple : pvd.multipleLimitedProxyOk = false)
    (hrun : Run (callbackStep S) (some pvd) calls st) :
    ∀ c ∈ chain.tail, isLimited c = false := by
  intro c hc
  obtain ⟨-, hleaf⟩ := run_noted hrun
  obtain ⟨i, hi⟩ := List.getElem?_of_mem hc
  rw [List.getElem?_tail] at hi
  have hmem : (c, i + 1, false, chain) ∈ (calls.filter (·.ok)).map Call.shown := by
    rw [h]
    refine List.mem_map.mpr ⟨(c, i + 1), List.mem_reverse.mpr ?_, rfl⟩
    exact List.mk_mem_zipIdx_iff_getElem?.mpr hi
  obtain ⟨call, hcall, hshown⟩ := List.mem_map.mp hmem
  obtain ⟨hcall, hok⟩ := List.mem_filter.mp hcall
  have hcert : call.ctx.currentCert = c := congrArg (·.1) hshown
  have hdepth : call.ctx.errorDepth = i + 1 := congrArg (·.2.1) hshown
  rw [← hcert]
  by_contra hlimited
  rcases hleaf call hcall hok (by simpa using hlimited) with hzero | htrue
  · omega
  · rw [hmultiple] at htrue
    cases htrue

/-- **What the verification of a chain leaves.** -/
theorem descent_exact {certdir : Option Str} {st : Option ProxyVerifyDesc} {calls : List Call}
    {leaf : X509} {rest : List X509} (hcalls : Presented (leaf :: rest) calls)
    (htimes : ∀ c ∈ leaf :: rest, 0 < S.mktime c.notAfter)
    (hrun : Run (callbackStep S) (some (proxyVerifyInit certdir)) calls st) :
    ∃ pvd, st = some pvd ∧ Describes S pvd leaf rest := by
  have hbehind := hcalls.behind rfl hrun
  obtain ⟨rfl, -⟩ := run_noted hrun
  refine ⟨_, rfl, ?_⟩
  rw [hcalls.certs, foldl_noted]
  have hends : ∀ t ∈ ((leaf :: rest).reverse.map (S.mktime ·.notAfter)), 0 < t := by
    intro t ht
    obtain ⟨c, hc, rfl⟩ := List.mem_map.mp ht
    exact htimes c (List.mem_reverse.mp hc)
  -- the first end takes the place of the 0
  obtain ⟨hgood, hleast⟩ : (((leaf :: rest).reverse.map (S.mktime ·.notAfter)).foldl earlier 0) ∈
        (leaf :: rest).reverse.map (S.mktime ·.notAfter) ∧
      ∀ t ∈ (leaf :: rest).reverse.map (S.mktime ·.notAfter),
        ((leaf :: rest).reverse.map (S.mktime ·.notAfter)).foldl earlier 0 ≤ t := by
    have hne : (leaf :: rest).reverse.map (S.mktime ·.notAfter) ≠ [] := by simp
    obtain ⟨first, ends, heq⟩ := List.exists_cons_of_ne_nil hne
    rw [heq] at hends ⊢
    have hzero : earlier 0 first = first := if_pos (.inl rfl)
    rw [List.foldl_cons, hzero]
    exact foldl_earlier (hends first (.head _)) fun t ht => hends t (.tail _ ht)
  have hmem : ∀ c ∈ leaf :: rest,
      S.mktime c.notAfter ∈ (leaf :: rest).reverse.map (S.mktime ·.notAfter) := fun c hc =>
    List.mem_map.mpr ⟨c, List.mem_reverse.mpr hc, rfl⟩
  exact
    { certs := by simp [proxyVerifyInit]
      proxies := by
        rw [List.countP_reverse]
        exact Int.zero_add _
      limited := by
        have hnone : rest.any isLimited = false :=
          List.any_eq_false.mpr fun c hc => Bool.eq_false_iff.mp (hbehind c hc)
        simp [proxyVerifyInit, hnone]
      behind := hbehind
      goodtill := by
        obtain ⟨c, hc, heq⟩ := List.mem_map.mp hgood
        exact ⟨c, List.mem_reverse.mp hc, heq.symm⟩
      least := fun c hc => hleast _ (hmem c hc) }

end

/-- `descent_exact` for the proxy of a member. -/
theorem descent_exact_proxy : ∃ pvd,
    Run (callbackStep Sample.store) (some (proxyVerifyInit none)) (Sample.descent
      [Sample.memberProxy, Sample.member, Sample.inner, Sample.limitedRoot 1]) (some pvd) ∧
    Describes Sample.store pvd Sample.memberProxy
      [Sample.member, Sample.inner, Sample.limitedRoot 1] := by
  have hrun : Run (callbackStep Sample.store) (some (proxyVerifyInit none)) (Sample.descent
      [Sample.memberProxy, Sample.member, Sample.inner, Sample.limitedRoot 1]) _ :=
    .cons rfl (.cons rfl (.cons rfl (.cons rfl (.nil _))))
  obtain ⟨pvd, hpvd, hdescribes⟩ := descent_exact (Sample.descent_presented _) (by decide) hrun
  exact ⟨pvd, hpvd ▸ hrun, hdescribes⟩

end Voms.L3
