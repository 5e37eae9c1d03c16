import Voms.L3Trust.Verify

/-!
# The path length with proxies

OpenSSL counts proxies against the path lengths of the CAs.
`proxy_verify_callback` overrules its error, counts the proxies it is shown
and, at the leaf, goes over the chain again with that number taken off the
positions.

The chain is `proxies ++ rest`, leaf first: behind the proxies stands the
end-entity certificate, and then the CAs, `rest.tail`. `Presented` is what
OpenSSL promises about the calls. `recount_exact`: a chain that is let
through respects the path lengths, and one that does is not refused for
them, as long as no path length leaves its sum in a `long`.
-/
namespace Voms.L3

open Voms.Core Voms.L1

/-- The callback takes the certificate for a proxy. -/
def isProxy (cert : X509) : Bool :=
  match proxyCheckProxyName cert with
  | .ok ret => decide (0 < ret)
  | _ => false

/-- The part of a call that says which certificate it is about. -/
def Call.shown (call : Call) : X509 × Nat × Bool × List X509 :=
  (call.ctx.currentCert, call.ctx.errorDepth, call.ctx.currentIsCert, call.ctx.chain)

/-- The certificates that calls with `ok` are about. -/
def certsShown (calls : List Call) : List X509 :=
  (calls.filter (·.ok)).map (·.ctx.currentCert)

/-- One call with `ok` for each certificate of the chain, root first. -/
def Presented (chain : List X509) (calls : List Call) : Prop :=
  (calls.filter (·.ok)).map Call.shown =
    chain.zipIdx.reverse.map fun p => (p.1, p.2, decide (p.2 = 0), chain)

/-- Between a CA with a path length and the end-entity certificate there are
at most as many CAs. -/
def Respected (cas : List X509) : Prop :=
  ∀ between cert above (n : Nat), cas = between ++ cert :: above → cert.exBcons = true →
    cert.exPathlen.toInt = (n : Int) → between.length ≤ n

/-- No limit, or one to which 1 can be added. -/
def Fits (cert : X509) : Prop := -1 ≤ cert.exPathlen ∧ cert.exPathlen < Int64.maxValue

/-! ## One call -/

section

variable {S : Store} {ctx : StoreCtx} {pvd pvd' : ProxyVerifyDesc}

/-- How far the counter is after the certificate. -/
def depthAfter (pvd : ProxyVerifyDesc) (cert : X509) : Int :=
  pvd.proxyDepth + if isProxy cert then 1 else 0

theorem checkProxy_ok {itsaproxy : Bool} (h : checkProxy ctx pvd = .ok (pvd', itsaproxy)) :
    pvd'.proxyDepth = depthAfter pvd ctx.currentCert ∧ pvd'.magicOk = pvd.magicOk := by
  unfold checkProxy at h
  obtain ⟨ret, hret, h⟩ := Res.bind_eq_ok.mp h
  obtain ⟨-, h⟩ := Res.then_eq_ok.mp h
  have hproxy : isProxy ctx.currentCert = decide (0 < ret) := by
    unfold isProxy
    rw [lift_eq_ok.mp hret]
  unfold depthAfter
  split at h
  · next hpos =>
    obtain ⟨-, h⟩ := Res.then_eq_ok.mp h
    cases h
    rw [hproxy, decide_eq_true hpos]
    split <;> exact ⟨rfl, rfl⟩
  · next hpos =>
    cases h
    rw [hproxy, decide_eq_false hpos]
    exact ⟨(Int.add_zero _).symm, rfl⟩

/-- What is checked at the leaf. -/
def recount (depth : Int) (chain : List X509) : Bool :=
  chain.zipIdx.all fun p => !pathTooLong depth p.1 p.2

theorem goodtill_frame (pvd : ProxyVerifyDesc) (t : Int) (c : Prop) [Decidable c] :
    (if c then { pvd with goodtill := t } else pvd).proxyDepth = pvd.proxyDepth ∧
      (if c then { pvd with goodtill := t } else pvd).magicOk = pvd.magicOk := by
  split <;> exact ⟨rfl, rfl⟩

theorem checkCert_ok (h : checkCert S ctx pvd = .ok pvd') :
    pvd'.proxyDepth = depthAfter pvd ctx.currentCert ∧ pvd'.magicOk = pvd.magicOk ∧
      (ctx.currentIsCert = true → recount pvd'.proxyDepth ctx.chain = true) := by
  unfold checkCert at h
  obtain ⟨⟨pvd1, itsaproxy⟩, hproxy, h⟩ := Res.bind_eq_ok.mp h
  obtain ⟨-, h⟩ := Res.then_eq_ok.mp h
  obtain ⟨hdepth, hmagic⟩ := checkProxy_ok hproxy
  simp only [Res.then_eq_ok, Res.when_eq_ok, Res.guard_eq_ok] at h
  obtain ⟨-, hrecount, h⟩ := h
  cases h
  obtain ⟨hsameDepth, hsameMagic⟩ := goodtill_frame pvd1 (S.mktime ctx.currentCert.notAfter)
    (pvd1.goodtill = 0 ∨ S.mktime ctx.currentCert.notAfter < pvd1.goodtill)
  exact ⟨hsameDepth.trans hdepth, hsameMagic.trans hmagic, hrecount⟩

theorem lift_ne_err {α : Type} {x : Eval α} {e : VerifyError} : lift x ≠ .err e := by
  cases x with
  | ok a => exact nofun
  | err e => exact e.elim
  | fault f => exact nofun

/-- Only the check at the leaf refuses a chain for its path lengths. -/
theorem checkCert_err (h : checkCert S ctx pvd = .err .pathLengthExceeded) :
    ctx.currentIsCert = true ∧
      recount (depthAfter pvd ctx.currentCert) ctx.chain = false := by
  unfold checkCert at h
  rcases Res.bind_eq_err.mp h with h | ⟨⟨pvd1, itsaproxy⟩, hproxy, h⟩
  · unfold checkProxy at h
    rcases Res.bind_eq_err.mp h with h | ⟨ret, -, h⟩
    · exact absurd h lift_ne_err
    · rcases Res.bind_eq_err.mp h with h | ⟨u, -, h⟩
      · simp at h
      · split at h
        · rcases Res.bind_eq_err.mp h with h | ⟨u, -, h⟩
          · simp at h
          · cases h
        · cases h
  · obtain ⟨hdepth, -⟩ := checkProxy_ok hproxy
    rcases Res.bind_eq_err.mp h with h | ⟨u, -, h⟩
    · obtain ⟨-, h⟩ := Res.when_eq_err.mp h
      rcases Res.bind_eq_err.mp h with h | ⟨u, -, h⟩
      · unfold checkCrl at h
        split at h
        · cases h
        · simp [Res.bind_eq_err] at h
      · obtain ⟨-, h⟩ := Res.when_eq_err.mp h
        simp [Res.bind_eq_err, lift_ne_err] at h
    · simp only [Res.bind_eq_err, Res.guard_eq_err, Res.when_eq_err, reduceCtorEq, and_false,
        false_or, Res.pure_eq, exists_false, or_false, Bool.not_eq_true] at h
      obtain ⟨-, -, hleaf, hrecount, -⟩ := h
      rw [(goodtill_frame pvd1 _ _).1, hdepth] at hrecount
      exact ⟨hleaf, hrecount⟩

end

/-- A call that is accepted counts the proxy it is about. -/
theorem callback_ok {S : Store} {pvd : ProxyVerifyDesc} {call : Call}
    {st : Option ProxyVerifyDesc} (h : proxyVerifyCallback S (some pvd) call = .ok st) :
    ∃ pvd', st = some pvd' ∧ pvd'.magicOk = pvd.magicOk ∧
      (call.ok = false → pvd'.proxyDepth = pvd.proxyDepth) ∧
      (call.ok = true → pvd'.proxyDepth = depthAfter pvd call.ctx.currentCert ∧
        (call.ctx.currentIsCert = true → recount pvd'.proxyDepth call.ctx.chain = true)) := by
  cases hok : call.ok with
  | false =>
    obtain ⟨-, -, rfl⟩ := (callback_error_eq_ok hok).mp h
    exact ⟨pvd, rfl, rfl, fun _ => rfl, nofun⟩
  | true =>
    unfold proxyVerifyCallback at h
    obtain ⟨-, h⟩ := Res.then_eq_ok.mp h
    rw [if_pos hok] at h
    obtain ⟨pvd', hcert, h⟩ := Res.bind_eq_ok.mp h
    cases h
    obtain ⟨hdepth, hmagic, hrecount⟩ := checkCert_ok hcert
    exact ⟨pvd', rfl, hmagic, nofun, fun _ => ⟨hdepth, hrecount⟩⟩

/-- A call that is refused for a path length is the one about the leaf. -/
theorem callback_err {S : Store} {pvd : ProxyVerifyDesc} {call : Call}
    (hmagic : pvd.magicOk = true)
    (h : proxyVerifyCallback S (some pvd) call = .err .pathLengthExceeded) :
    call.ok = true ∧ call.ctx.currentIsCert = true ∧
      recount (depthAfter pvd call.ctx.currentCert) call.ctx.chain = false := by
  unfold proxyVerifyCallback at h
  rw [Res.guard_pos (by simpa using hmagic), Res.ok_bind] at h
  by_cases hok : call.ok = true
  · rw [if_pos hok] at h
    have h : (checkCert S call.ctx pvd >>= fun pvd => pure (some pvd)) =
      .err .pathLengthExceeded := h
    rcases Res.bind_eq_err.mp h with h | ⟨pvd', -, h⟩
    · exact ⟨hok, checkCert_err h⟩
    · cases h
  · rw [if_neg hok] at h
    rcases Res.bind_eq_err.mp h with h | ⟨ok, hover, h⟩
    · exact absurd h lift_ne_err
    · rcases Res.bind_eq_err.mp h with h | ⟨u, -, h⟩
      · -- OpenSSL's own error of that kind is overruled
        obtain ⟨hok, herr⟩ := Res.guard_eq_err.mp h
        rw [lift_eq_ok, overrule, herr] at hover
        cases hover
        exact absurd rfl hok
      · cases h

/-! ## A run -/

/-- The proxies that a run of calls is about are counted. -/
theorem run_counts {S : Store} : ∀ {calls : List Call} {pvd : ProxyVerifyDesc}
    {st : Option ProxyVerifyDesc}, Run (callbackStep S) (some pvd) calls st →
      ∃ pvd', st = some pvd' ∧ pvd'.magicOk = pvd.magicOk ∧
        pvd'.proxyDepth = pvd.proxyDepth + (certsShown calls).countP isProxy
  | [], pvd, _, .nil _ => ⟨pvd, rfl, rfl, by simp [certsShown]⟩
  | call :: calls, pvd, st, .cons hstep hrun => by
    obtain ⟨pvd1, rfl, hmagic1, herror, hok⟩ := callback_ok hstep
    obtain ⟨pvd', rfl, hmagic, hdepth⟩ := run_counts hrun
    refine ⟨pvd', rfl, hmagic.trans hmagic1, ?_⟩
    rw [hdepth]
    cases h : call.ok with
    | false => rw [herror h, certsShown, certsShown, List.filter_cons_of_neg (by simp [h])]
    | true =>
      have hcons : certsShown (call :: calls) = call.ctx.currentCert :: certsShown calls := by
        simp [certsShown, h]
      rw [(hok h).1, hcons, List.countP_cons, depthAfter]
      split <;> push_cast <;> omega

/-- An element with a property that nothing in front of the last one has is
the last one. -/
theorem eq_nil_of_append {α : Type} {p : α → Prop} {a b init : List α} {x last : α}
    (h : a ++ x :: b = init ++ [last]) (hx : p x) (hinit : ∀ y ∈ init, ¬ p y) : b = [] := by
  rcases List.eq_nil_or_concat' b with rfl | ⟨b, y, rfl⟩
  · rfl
  · rw [← List.cons_append, ← List.append_assoc] at h
    have hmem : x ∈ init := by
      rw [← (List.append_inj' h rfl).1]
      exact List.mem_append_right _ (List.mem_cons_self ..)
    exact absurd hx (hinit x hmem)

section

variable {chain : List X509} {calls : List Call}

theorem Presented.certs (h : Presented chain calls) : certsShown calls = chain.reverse := by
  have hfst := congrArg (List.map Prod.fst) h
  rw [List.map_map, List.map_map] at hfst
  refine Eq.trans (List.map_congr_left fun _ _ => rfl) (hfst.trans ?_)
  rw [List.map_reverse]
  congr 1
  exact List.zipIdx_map_fst 0 chain

theorem Presented.chain_eq (h : Presented chain calls) {call : Call} (hmem : call ∈ calls)
    (hok : call.ok = true) : call.ctx.chain = chain := by
  have hshown : call.shown ∈ (calls.filter (·.ok)).map Call.shown :=
    List.mem_map_of_mem (List.mem_filter.mpr ⟨hmem, hok⟩)
  rw [h] at hshown
  obtain ⟨p, -, hp⟩ := List.mem_map.mp hshown
  exact (congrArg (fun t => t.2.2.2) hp).symm

/-- The calls end with the one about the leaf. -/
theorem Presented.ends {c : X509} {cs : List X509} (h : Presented (c :: cs) calls) :
    ∃ init last, calls.filter (·.ok) = init ++ [last] ∧ last.ctx.currentIsCert = true ∧
      ∀ call ∈ init, call.ctx.currentIsCert = false := by
  unfold Presented at h
  rw [List.zipIdx_cons, List.reverse_cons, List.map_append] at h
  obtain ⟨init, l, hl, hinit, hlast⟩ := List.map_eq_append_iff.mp h
  obtain ⟨last, rfl, hlast⟩ := List.map_eq_singleton_iff.mp hlast
  have hlast : last.shown = (c, 0, true, c :: cs) := by simpa using hlast
  refine ⟨init, last, hl, congrArg (fun t => t.2.2.1) hlast, fun call hcall => ?_⟩
  have hshown := List.mem_map_of_mem (f := Call.shown) hcall
  rw [hinit] at hshown
  obtain ⟨⟨cert, i⟩, hp, hcall⟩ := List.mem_map.mp hshown
  have hpos : 0 < i := (List.mem_zipIdx (List.mem_reverse.mp hp)).1
  have hleaf : decide (i = 0) = call.ctx.currentIsCert := congrArg (fun t => t.2.2.1) hcall
  rw [← hleaf]
  simp
  omega

/-- Up to the call about the leaf all certificates have been shown. -/
theorem Presented.leaf {before after : List Call} {call : Call} (h : Presented chain calls)
    (hcalls : calls = before ++ call :: after) (hok : call.ok = true)
    (hleaf : call.ctx.currentIsCert = true) :
    certsShown before ++ [call.ctx.currentCert] = chain.reverse := by
  have hfilter : calls.filter (·.ok) =
      before.filter (·.ok) ++ call :: after.filter (·.ok) := by
    rw [hcalls, List.filter_append, List.filter_cons_of_pos hok]
  have hcerts := h.certs
  unfold certsShown at hcerts
  cases chain with
  | nil =>
    rw [hfilter] at hcerts
    simp at hcerts
  | cons c cs =>
    obtain ⟨init, last, hlast, -, hinit⟩ := h.ends
    have hafter : after.filter (·.ok) = [] :=
      eq_nil_of_append (p := fun call => call.ctx.currentIsCert = true)
        (hfilter.symm.trans hlast) hleaf fun y hy => by simp [hinit y hy]
    rw [hfilter, hafter, List.map_append] at hcerts
    exact hcerts

end

/-! ## The second count -/

theorem toInt_add_one (x : Int64) : (x + 1).toInt =
    if x.toInt = 9223372036854775807 then -9223372036854775808 else x.toInt + 1 := by
  have hlt := x.toInt_lt
  have hle := x.le_toInt
  rw [Int64.toInt_add, Int64.toInt_one, Int.bmod_def]
  split <;> split <;> omega

section

variable {k j : Nat} {cert : X509}

/-- A CA with more CAs in front of it than its path length is refused. -/
theorem pathTooLong_of {n : Nat} (hbcons : cert.exBcons = true) (hn : cert.exPathlen.toInt = n)
    (hlt : n < j) : pathTooLong k cert (k + (j + 1)) = true := by
  have hne : cert.exPathlen ≠ -1 := by
    intro h
    rw [h] at hn
    cases hn
  have hsum := toInt_add_one cert.exPathlen
  unfold pathTooLong
  simp only [Bool.and_eq_true, decide_eq_true_eq, hbcons, and_true]
  refine ⟨⟨by omega, hne⟩, ?_⟩
  split at hsum <;> omega

/-- What is refused is a CA, and if its path length fits, rightly. -/
theorem pathTooLong_imp {i : Nat} (h : pathTooLong k cert i = true) : ∃ j, i = k + (j + 1) ∧
    0 < j ∧ cert.exBcons = true ∧
      (Fits cert → ∃ n : Nat, cert.exPathlen.toInt = n ∧ n < j) := by
  unfold pathTooLong at h
  simp only [Bool.and_eq_true, decide_eq_true_eq] at h
  obtain ⟨⟨⟨hpos, hne⟩, hlt⟩, hbcons⟩ := h
  refine ⟨i - k - 1, by omega, by omega, hbcons, fun hfits => ?_⟩
  have hlow : (-1 : Int) ≤ cert.exPathlen.toInt := Int64.le_iff_toInt_le.mp hfits.1
  have hhigh : cert.exPathlen.toInt < 9223372036854775807 := Int64.lt_iff_toInt_lt.mp hfits.2
  have hne : cert.exPathlen.toInt ≠ -1 := fun h => hne (Int64.toInt_inj.mp h)
  rw [toInt_add_one, if_neg (by omega)] at hlt
  exact ⟨cert.exPathlen.toInt.toNat, by omega, by omega⟩

end

section

variable {proxies rest : List X509}

/-- The places behind the end-entity certificate. -/
theorem getElem?_cas {j : Nat} :
    (proxies ++ rest)[proxies.length + (j + 1)]? = rest.tail[j]? := by
  rw [List.getElem?_append_right (by omega), List.getElem?_tail]
  congr 1
  omega

/-- What the second count lets through respects the path lengths. -/
theorem respected_of_recount (h : recount proxies.length (proxies ++ rest) = true) :
    Respected rest.tail := by
  intro between cert above n hcas hbcons hn
  by_contra hlt
  have hget : (proxies ++ rest)[proxies.length + (between.length + 1)]? = some cert := by
    rw [getElem?_cas, hcas]
    simp
  have hmem : (cert, proxies.length + (between.length + 1)) ∈ (proxies ++ rest).zipIdx :=
    List.mem_zipIdx_iff_getElem?.mpr hget
  have hpassed := List.all_eq_true.mp h _ hmem
  rw [pathTooLong_of hbcons hn (by omega)] at hpassed
  cases hpassed

/-- And what respects those that fit is let through. -/
theorem recount_of_respected (h : Respected rest.tail)
    (hfits : ∀ c ∈ rest.tail.tail, c.exBcons = true → Fits c) :
    recount proxies.length (proxies ++ rest) = true := by
  refine List.all_eq_true.mpr fun ⟨cert, i⟩ hmem => ?_
  have hmem : (proxies ++ rest)[i]? = some cert := List.mem_zipIdx_iff_getElem?.mp hmem
  rw [Bool.not_eq_true']
  by_contra hlong
  have hlong : pathTooLong proxies.length cert i = true := by simpa using hlong
  obtain ⟨j, rfl, hpos, hbcons, hexceeds⟩ := pathTooLong_imp hlong
  rw [getElem?_cas] at hmem
  obtain ⟨hj, hcert⟩ := List.getElem?_eq_some_iff.mp hmem
  have hcas : rest.tail = rest.tail.take j ++ cert :: rest.tail.drop (j + 1) := by
    rw [← hcert, ← List.drop_eq_getElem_cons hj, List.take_append_drop]
  have htail : cert ∈ rest.tail.tail := by
    obtain ⟨i, rfl⟩ := Nat.exists_eq_succ_of_ne_zero (by omega : j ≠ 0)
    rw [← List.getElem?_tail] at hmem
    exact List.mem_of_getElem? hmem
  obtain ⟨n, hn, hlt⟩ := hexceeds (hfits cert htail hbcons)
  have := h _ cert _ n hcas hbcons hn
  rw [List.length_take] at this
  omega

end

/-- **The path lengths, recounted.** For a chain of proxies, the end-entity
certificate and CAs, shown to the callback from its root: if it is let
through it respects the path lengths of its CAs; if it does, and those of
the CAs behind the first fit, no call is refused for them. -/
theorem recount_exact {S : Store} {pvd : ProxyVerifyDesc} {calls : List Call}
    {proxies rest : List X509} (hmagic : pvd.magicOk = true) (hfresh : pvd.proxyDepth = 0)
    (hcalls : Presented (proxies ++ rest) calls)
    (hproxies : ∀ c ∈ proxies, isProxy c = true) (hrest : ∀ c ∈ rest, isProxy c = false)
    (hfits : ∀ c ∈ rest.tail.tail, c.exBcons = true → Fits c) :
    ((∃ st, Run (callbackStep S) (some pvd) calls st) → Respected rest.tail) ∧
      (Respected rest.tail → ∀ before call after st, calls = before ++ call :: after →
        Run (callbackStep S) (some pvd) before st →
          proxyVerifyCallback S st call ≠ .err .pathLengthExceeded) := by
  have hcount : (proxies ++ rest).reverse.countP isProxy = proxies.length := by
    rw [List.countP_reverse, List.countP_append, List.countP_eq_length.mpr hproxies,
      List.countP_eq_zero.mpr fun c hc => by simp [hrest c hc]]
    rfl
  -- the counter at the leaf
  have hleaf {before after : List Call} {call : Call} {pvd1 : ProxyVerifyDesc}
      (heq : calls = before ++ call :: after) (hok : call.ok = true)
      (hcert : call.ctx.currentIsCert = true)
      (hdepth : pvd1.proxyDepth = pvd.proxyDepth + (certsShown before).countP isProxy) :
      depthAfter pvd1 call.ctx.currentCert = proxies.length := by
    have hall := congrArg (List.countP isProxy) (hcalls.leaf heq hok hcert)
    rw [hcount, List.countP_append, List.countP_singleton] at hall
    rw [depthAfter, hdepth, hfresh, ← hall]
    split <;> push_cast <;> omega
  constructor
  · intro ⟨st, hrun⟩
    cases hchain : proxies ++ rest with
    | nil =>
      obtain ⟨-, rfl⟩ := List.append_eq_nil_iff.mp hchain
      intro between cert above n hcas
      simp at hcas
    | cons c cs =>
      obtain ⟨init, last, hfilter, hcert, -⟩ := (hchain ▸ hcalls).ends
      have hmem : last ∈ calls.filter (·.ok) := by rw [hfilter]; simp
      obtain ⟨hmem, hok⟩ := List.mem_filter.mp hmem
      obtain ⟨before, after, heq⟩ := List.append_of_mem hmem
      obtain ⟨t, hbefore, hafter⟩ := Run.append_iff.mp (heq ▸ hrun)
      obtain ⟨pvd1, rfl, -, hdepth⟩ := run_counts hbefore
      cases hafter with
      | cons hstep _ =>
        obtain ⟨pvd2, -, -, -, haccepted⟩ := callback_ok hstep
        obtain ⟨hdepth2, hrecount⟩ := haccepted hok
        have hpassed := hrecount hcert
        rw [hdepth2, hleaf heq hok hcert hdepth, hcalls.chain_eq hmem hok] at hpassed
        exact respected_of_recount hpassed
  · intro hrespected before call after st heq hrun herr
    obtain ⟨pvd1, rfl, hmagic1, hdepth⟩ := run_counts hrun
    obtain ⟨hok, hcert, hrefused⟩ := callback_err (hmagic1.trans hmagic) herr
    have hmem : call ∈ calls := by rw [heq]; simp
    rw [hleaf heq hok hcert hdepth, hcalls.chain_eq hmem hok,
      recount_of_respected hrespected hfits] at hrefused
    cases hrefused

namespace Sample

/-- A CA that the root issued, and a member it issued. -/
def inner : X509 :=
  { Voms.L1.Sample.cert (Voms.L1.Sample.name "inner" 6) 14 24 with exBcons := true }

def member : X509 :=
  { Voms.L1.Sample.cert (Voms.L1.Sample.name "member" 7) 15 25 with issuer := inner.subject }

def memberProxy : X509 :=
  { member with
    subject := ⟨member.subject.entries ++ [⟨NID_commonName, "proxy".toList⟩], [7, 7],
      "/CN=member/CN=proxy".toList⟩
    issuer := member.subject }

/-- The root with a path length. -/
def limitedRoot (n : Int64) : X509 := { Voms.L1.Sample.root with exBcons := true, exPathlen := n }

/-- The call for one certificate, without errors. -/
def verified (chain : List X509) (p : X509 × Nat) : Call := ⟨true, ctx .ok p.2 p.1 p.1 chain⟩

def descent (chain : List X509) : List Call := chain.zipIdx.reverse.map (verified chain)

/-- A chain whose root allows as many CAs as a `long` can count. -/
def tall : List X509 := [member, inner, limitedRoot Int64.maxValue]

theorem descent_presented (chain : List X509) : Presented chain (descent chain) := by
  have hall : (descent chain).filter (·.ok) = descent chain :=
    List.filter_eq_self.mpr fun call hcall => by
      obtain ⟨p, -, rfl⟩ := List.mem_map.mp hcall
      rfl
  unfold Presented
  rw [hall, descent, List.map_map]
  rfl

end Sample

/-- `recount_exact` for a proxy under a root with a path length of one. -/
theorem recount_exact_proxy :
    Respected [Sample.inner, Sample.limitedRoot 1] ∧
      ∀ before call after st,
        Sample.descent [Sample.memberProxy, Sample.member, Sample.inner, Sample.limitedRoot 1] =
            before ++ call :: after →
          Run (callbackStep Sample.store) (some Sample.pvd) before st →
            proxyVerifyCallback Sample.store st call ≠ .err .pathLengthExceeded := by
  have hcalls := Sample.descent_presented
    ([Sample.memberProxy] ++ [Sample.member, Sample.inner, Sample.limitedRoot 1])
  have hfits : ∀ c ∈ [Sample.limitedRoot 1], c.exBcons = true → Fits c := by
    intro c hc _
    obtain rfl := List.mem_singleton.mp hc
    exact ⟨by decide, by decide⟩
  have h := recount_exact (S := Sample.store) (show Sample.pvd.magicOk = true from rfl) rfl hcalls
    (by decide) (by decide) hfits
  have hrespected := h.1 ⟨_, .cons rfl (.cons rfl (.cons rfl (.cons rfl (.nil _))))⟩
  exact ⟨hrespected, h.2 hrespected⟩

/-- A root that allows 2^63 - 1 CAs refuses one. -/
theorem recount_overflows :
    ¬ ∀ (S : Store) (pvd : ProxyVerifyDesc) (calls : List Call) (proxies rest : List X509),
      pvd.magicOk = true → pvd.proxyDepth = 0 → Presented (proxies ++ rest) calls →
      (∀ c ∈ proxies, isProxy c = true) → (∀ c ∈ rest, isProxy c = false) →
      Respected rest.tail → ∀ before call after st, calls = before ++ call :: after →
        Run (callbackStep S) (some pvd) before st →
          proxyVerifyCallback S st call ≠ .err .pathLengthExceeded := by
  intro h
  have hrespected : Respected [Sample.inner, Sample.limitedRoot Int64.maxValue] := by
    intro between cert above n hcas _ hn
    rcases between with - | ⟨a, - | ⟨b, between⟩⟩
    · exact Nat.zero_le n
    · cases hcas
      have hmax : (Sample.limitedRoot Int64.maxValue).exPathlen.toInt = 9223372036854775807 := rfl
      rw [hmax] at hn
      simp only [List.length_singleton]
      omega
    · simp at hcas
  have hrefused := h Sample.store Sample.pvd (Sample.descent Sample.tall) [] Sample.tall rfl rfl
    (Sample.descent_presented _) nofun (by decide) hrespected
    [Sample.verified Sample.tall (Sample.limitedRoot Int64.maxValue, 2),
      Sample.verified Sample.tall (Sample.inner, 1)]
    (Sample.verified Sample.tall (Sample.member, 0)) [] _ rfl (.cons rfl (.cons rfl (.nil _)))
  exact hrefused rfl

end Voms.L3
