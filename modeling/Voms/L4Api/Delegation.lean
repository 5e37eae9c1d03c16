import Voms.L3Trust.Descent
import Voms.L3Trust.MakeProxy
import Voms.L4Api.Policy

/-!
# Proxies of proxies

`VOMS_MakeProxy` (`src/sslutils/proxy.c`) signs a proxy with a certificate,
and that certificate may be a proxy itself. `Extends` puts any number of such
calls on a chain, each with its own arguments, library and clock.

* `retrieveCert_extends`: whoever is shown the longer chain finds the holder
  and the records of the one below, so delegation neither loses nor changes
  attributes.
* `end_extends`: the proxy on top ends when the first certificate below it
  does, or the first lifetime asked for on the way.
* `extends_verified`: if the longer chain is let through, its links are
  counted, and what they start from is not a limited proxy.
-/
namespace Voms.L4.Delegation

open Voms.Core Voms.L1 Voms.L3 Voms.L3.MakeProxy Voms.L3.ProxyCertInfo Voms.L4

/-! ## Links and chains -/

/-- One call of `VOMS_MakeProxy`. -/
structure Link where
  library : Library
  args : ProxyArguments

def Link.ssl (l : Link) : Ssl := l.library.ssl

/-- The lifetime that is asked for. mirrors src/sslutils/proxy.c:541 -/
def Link.seconds (l : Link) : Int32 := l.args.hours * 60 * 60 + l.args.minutes * 60

/-- The certificate that was signed, read again. `isInfo` tells the types of
extensions that hold the information of a proxy. -/
structure Reads (isInfo : ExtType → Bool) (c : NewCert) (x : X509) : Prop where
  subject : x.subject = c.info.subject
  issuer : x.issuer = c.info.issuer
  notAfter : x.notAfter = c.info.notAfter
  exts : x.exts.any CertExt.isProxyCertInfo =
    (c.info.extensions.getD []).any fun e => isInfo e.type

/-- What OpenSSL does for `VOMS_MakeProxy`. -/
structure Works (isInfo : ExtType → Bool) (P : Library) : Prop where
  addEntry : ∀ name entry name', P.ssl.addEntry name entry = some name' →
    name'.entries = name.entries ++ [entry]
  info : ∀ type value ex, P.confProxyCertInfo type value = some ex → isInfo ex.type = true

/-- The holder of `x` signs `y`, under its own name. -/
structure Delegates (isInfo : ExtType → Bool) (l : Link) (x y : X509) : Prop where
  works : Works isInfo l.library
  cert : l.args.cert = some x
  newsubject : l.args.newsubject = none
  newissuer : l.args.newissuer = none
  selfsigned : l.args.selfsigned = false
  makes : ∃ proxy warning, makeProxy l.library l.args = .ok (proxy, warning) ∧
    Reads isInfo proxy.cert y

/-- The chain behind the links, last link first, that starts from `base`. -/
inductive Extends (isInfo : ExtType → Bool) (base : List X509) : List Link → List X509 → Prop where
  | nil : Extends isInfo base [] base
  | cons {l : Link} {links : List Link} {x y : X509} {rest : List X509} :
      Extends isInfo base links (x :: rest) → Delegates isInfo l x y →
      Extends isInfo base (l :: links) (y :: x :: rest)

/-! ## One link -/

section

variable {isInfo : ExtType → Bool} {l : Link} {x y : X509}

/-- A call that succeeds, down to `proxy_sign_ext`. -/
theorem makeProxy_ok {P : Library} {args : ProxyArguments} {proxy : VomsProxy}
    {warning : ProxyWarning} (h : makeProxy P args = .ok (proxy, warning)) :
    ∃ req npkey exts own warning', ownExtensions P args req = .ok (own, warning') ∧
      signProxy P args req npkey (exts ++ own) = .ok proxy.cert ∧
      proxy.cert.info.extensions = some (exts ++ own) := by
  unfold makeProxy at h
  obtain ⟨⟨req, npkey⟩, -, h⟩ := Res.bind_eq_ok.mp h
  obtain ⟨exts, -, h⟩ := Res.bind_eq_ok.mp h
  obtain ⟨⟨own, warning'⟩, hown, h⟩ := Res.bind_eq_ok.mp h
  obtain ⟨ncert, hncert, h⟩ := Res.bind_eq_ok.mp h
  cases h
  have hsign := Res.mapErr_eq_ok.mp hncert
  exact ⟨req, npkey, exts, own, warning, hown, hsign, extensions_of_signProxy hsign⟩

/-- From version 3 on the information of the proxy is there. -/
theorem ownExtensions_info {P : Library} (hP : Works isInfo P) {args : ProxyArguments}
    {req : X509Req} {own : List X509Ext} {warning : ProxyWarning} (hver : 3 ≤ args.proxyversion)
    (h : ownExtensions P args req = .ok (own, warning)) :
    own.any (fun e => isInfo e.type) = true := by
  unfold ownExtensions at h
  obtain ⟨voms, -, h⟩ := Res.bind_eq_ok.mp h
  obtain ⟨incfile, -, h⟩ := Res.bind_eq_ok.mp h
  obtain ⟨acseq, -, h⟩ := Res.bind_eq_ok.mp h
  obtain ⟨usage, -, h⟩ := Res.bind_eq_ok.mp h
  obtain ⟨netscape, -, h⟩ := Res.bind_eq_ok.mp h
  obtain ⟨exkusage, -, h⟩ := Res.bind_eq_ok.mp h
  obtain ⟨constraints, -, h⟩ := Res.bind_eq_ok.mp h
  obtain ⟨vo, -, h⟩ := Res.bind_eq_ok.mp h
  obtain ⟨keyIds, -, h⟩ := Res.bind_eq_ok.mp h
  obtain ⟨⟨pci, w⟩, hpci, h⟩ := Res.bind_eq_ok.mp h
  cases h
  suffices hsome : ∃ ex ∈ pci, isInfo ex.type = true by
    obtain ⟨ex, hex, hinfo⟩ := hsome
    exact List.any_eq_true.mpr ⟨ex, List.mem_append_right _ hex, hinfo⟩
  unfold pciExtension at hpci
  rw [if_neg (by omega)] at hpci
  obtain ⟨policy, -, hpci⟩ := Res.bind_eq_ok.mp hpci
  obtain ⟨language, -, hpci⟩ := Res.bind_eq_ok.mp hpci
  obtain ⟨value, -, hpci⟩ := Res.bind_eq_ok.mp hpci
  obtain ⟨exts, hexts, hpci⟩ := Res.bind_eq_ok.mp hpci
  cases hpci
  unfold added at hexts
  obtain ⟨ex, hex, hexts⟩ := Res.bind_eq_ok.mp hexts
  cases hexts
  refine ⟨ex, List.mem_singleton_self ex, ?_⟩
  have hex := Res.require_eq_ok.mp hex
  split at hex
  · obtain ⟨ex', hex', rfl⟩ := Option.map_eq_some_iff.mp hex
    have hinfo : isInfo ex'.type = true := hP.info _ _ _ hex'
    exact hinfo
  · exact hP.info _ _ _ hex

/-- The names of a proxy: the subject of its signer, and that with one common
name more. -/
theorem signProxy_names {P : Library} (hP : Works isInfo P) {args : ProxyArguments}
    {req : X509Req} {npkey : Option EvpPKey} {exts : List X509Ext} {cert : NewCert}
    (hcert : args.cert = some x) (hsubject : args.newsubject = none)
    (hissuer : args.newissuer = none) (hself : args.selfsigned = false)
    (h : signProxy P args req npkey exts = .ok cert) :
    cert.info.issuer = x.subject ∧ ∃ newcn,
      cert.info.subject.entries = x.subject.entries ++ [⟨NID_commonName, newcn⟩] ∧
      (args.proxyversion < 3 →
        newcn = if args.limited then "limited proxy".toList else "proxy".toList) := by
  unfold signProxy at h
  rw [hself, hcert, hsubject, hissuer] at h
  simp only [Bool.false_eq_true, if_false] at h
  unfold proxySign at h
  obtain ⟨newcn, hnewcn, h⟩ := Res.bind_eq_ok.mp h
  obtain ⟨subject, hconstruct, h⟩ := Res.bind_eq_ok.mp h
  obtain ⟨name, hname, hconstruct⟩ := Res.bind_eq_ok.mp hconstruct
  cases hconstruct
  have hentries := hP.addEntry _ _ _ (Res.require_eq_ok.mp hname)
  unfold proxySignExt at h
  obtain ⟨pubkey, -, h⟩ := Res.bind_eq_ok.mp h
  obtain ⟨newKey, -, h⟩ := Res.bind_eq_ok.mp h
  obtain ⟨-, h⟩ := Res.then_eq_ok.mp h
  obtain ⟨-, h⟩ := Res.then_eq_ok.mp h
  obtain ⟨serialNumber, -, h⟩ := Res.bind_eq_ok.mp h
  obtain ⟨issuerName, hissuerName, h⟩ := Res.bind_eq_ok.mp h
  obtain ⟨notAfter, -, h⟩ := Res.bind_eq_ok.mp h
  obtain ⟨signature, -, h⟩ := Res.bind_eq_ok.mp h
  cases h
  cases hissuerName
  refine ⟨rfl, newcn, hentries, fun hver => ?_⟩
  unfold newCommonName at hnewcn
  rw [if_neg (by omega)] at hnewcn
  cases hnewcn
  rfl

/-- A proxy that was made is taken for one. -/
theorem Delegates.proxy (h : Delegates isInfo l x y) :
    proxyCheckProxyName y = .ok 1 ∨ proxyCheckProxyName y = .ok 2 := by
  obtain ⟨proxy, warning, hmakes, hreads⟩ := h.makes
  obtain ⟨req, npkey, exts, own, warning', hown, hsign, hexts⟩ := makeProxy_ok hmakes
  obtain ⟨hissuer, newcn, hentries, hold⟩ :=
    signProxy_names h.works h.cert h.newsubject h.newissuer h.selfsigned hsign
  have hany := hreads.exts
  rw [hexts, Option.getD_some, List.any_append] at hany
  cases hinfo : y.exts.any CertExt.isProxyCertInfo with
  | true => exact .inl (proxyCheckProxyName_ext hinfo)
  | false =>
    rw [hinfo] at hany
    have hver : l.args.proxyversion < 3 := by
      by_contra hver
      rw [ownExtensions_info h.works (by omega) hown, Bool.or_true] at hany
      cases hany
    rw [← hreads.subject] at hentries
    rw [proxyCheckProxyName_old hinfo hentries, hreads.issuer, hissuer, hold hver]
    cases l.args.limited with
    | true =>
      refine .inr ?_
      rw [if_pos rfl, if_neg (by decide), if_pos rfl, if_pos rfl]
    | false =>
      refine .inl ?_
      rw [if_neg Bool.false_ne_true, if_pos rfl, if_pos rfl]

end

/-! ## The holder and the records -/

/-- The certificate has nothing `retrieve` looks for. -/
structure Bare (C : Client) (x : X509) : Prop where
  acseq : C.acseq x = none
  incfile : C.incfile x = none
  vo : C.vo x = none

section

variable {isInfo : ExtType → Bool} {base chain : List X509} {links : List Link} {C : Client}
  {s : VomsData} {how : RecurseType}

/-- The proxies on top of a chain are passed over. -/
theorem firstReal_extends (h : Extends isInfo base links chain) :
    firstReal chain = firstReal base := by
  induction h with
  | nil => rfl
  | @cons l links x y rest _ hlink ih =>
    rw [← ih]
    unfold firstReal
    rcases hlink.proxy with hname | hname <;>
      · rw [hname]
        rfl

theorem findexts_bare {x : X509} (h : Bare C x) (f : Found) : findexts C x f s = (f, s) := by
  unfold findexts
  rw [h.acseq, h.incfile, h.vo]

/-- Nothing is found in the proxies on top. -/
theorem searchChain_bare {top : List X509} (h : ∀ x ∈ top, Bare C x) (below : List X509) :
    searchChain C how (top ++ below) ⟨false, none⟩ s =
      searchChain C how below ⟨false, none⟩ s := by
  induction top with
  | nil => rfl
  | cons x top ih =>
    rw [List.cons_append]
    conv_lhs => unfold searchChain
    rw [findexts_bare (h x (.head _))]
    exact ih fun y hy => h y (.tail _ hy)

/-- The search starts with the certificate itself. -/
theorem retrieve_eq {x : X509} {rest : List X509} (hhow : how ≠ .RECURSE_NONE) :
    retrieve C (some x) (some rest) how s = (firstReal (x :: rest) >>= fun real =>
      match real with
      | none =>
        pure (none, s.seterror .VERR_IDCHECK
          "Cannot discover holder from certificate chain!".toList)
      | some holder =>
        if cStr holder.issuer.oneline = [] ∨ cStr holder.subject.oneline = [] then
          pure (none, s.seterror .VERR_IDCHECK
            "Cannot discover CA name or DN from user's certificate.".toList)
        else
          let (early, f, s) := searchChain C how (x :: rest) ⟨false, none⟩ s
          let s := if early then s else s.seterror .VERR_NOEXT "VOMS extension not found!".toList
          pure (if f.found then some (f.listnew, holder) else none, s)) := by
  unfold retrieve getRealCert
  simp only [reduceCtorEq, false_and, if_false, Option.getD_some, if_pos hhow]
  refine bind_congr fun real => ?_
  cases real with
  | none => rfl
  | some holder =>
    dsimp only
    split
    · rfl
    · conv_rhs => unfold searchChain
      generalize findexts C x ⟨false, none⟩ s = found
      obtain ⟨⟨found, listnew⟩, s⟩ := found
      cases found with
      | true => cases how <;> rfl
      | false => cases how <;> rfl

/-- **Delegation keeps the holder and the records.** Whoever is shown a chain
with more proxies on top, none of which has an extension of its own, finds the
holder of the chain below, and the same records. -/
theorem retrieveCert_extends {x y : X509} {below rest top : List X509}
    (h : Extends isInfo (x :: below) links (y :: rest)) (hchain : y :: rest = top ++ x :: below)
    (hbare : ∀ c ∈ top, Bare C c) (hhow : how ≠ .RECURSE_NONE) (s : VomsData) :
    getRealCert y rest = getRealCert x below ∧
      retrieveCert C (some y) (some rest) how s = retrieveCert C (some x) (some below) how s := by
  have hreal : firstReal (y :: rest) = firstReal (x :: below) := firstReal_extends h
  refine ⟨hreal, ?_⟩
  unfold retrieveCert
  rw [retrieve_eq hhow, retrieve_eq hhow, hreal, hchain, searchChain_bare hbare]

end

/-! ## The end -/

/-- A clock whose time a UTCTime names, and a lifetime that is counted from
now. -/
structure Clocked (l : Link) : Prop where
  now : 0 ≤ l.ssl.time ∧ l.ssl.time < 2524608000
  pastproxy : l.args.pastproxy = 0
  seconds : 0 ≤ l.seconds.toInt
  writes : WritesTime l.ssl (l.ssl.time + l.seconds.toInt)
  utc : WritesUtcTime l.ssl l.ssl.time

/-- The end that is asked for. -/
def Link.till (l : Link) : Int := l.ssl.time + l.seconds.toInt

/-- The end behind the links, last link first. -/
def endBehind (e : Int) (links : List Link) : Int := links.foldr (fun l e => min e l.till) e

section

variable {isInfo : ExtType → Bool} {l : Link} {x y : X509} {e : Int}

/-- One link: the earlier of both ends. -/
theorem Delegates.notAfter (h : Delegates isInfo l x y) (hclock : Clocked l)
    (hx : instant x.notAfter = some e) (he : 0 ≤ e) :
    instant y.notAfter = some (min e l.till) := by
  obtain ⟨proxy, warning, hmakes, hreads⟩ := h.makes
  obtain ⟨req, npkey, exts, own, -, -, hsign, -⟩ := makeProxy_ok hmakes
  have hsub : l.ssl.time - l.args.pastproxy.toInt = l.ssl.time := by
    rw [hclock.pastproxy]
    exact Int.sub_zero _
  have hread : utcReading l.ssl.time = l.ssl.time := by
    have hnow := hclock.now
    unfold utcReading
    omega
  have hend : chooseNotAfter l.ssl (some x) l.seconds l.args.pastproxy false =
      .ok proxy.cert.info.notAfter := by
    unfold signProxy at hsign
    rw [h.selfsigned, h.cert] at hsign
    unfold proxySign at hsign
    obtain ⟨newcn, -, hsign⟩ := Res.bind_eq_ok.mp hsign
    obtain ⟨subject, -, hsign⟩ := Res.bind_eq_ok.mp hsign
    exact (proxySignExt_ok hsign).1
  rw [chooseNotAfter_eq hclock.seconds (by rw [hclock.pastproxy]; decide) hx he
    (by rw [hsub]; exact hclock.utc), hsub, hread, hclock.pastproxy, Res.ok.injEq] at hend
  obtain ⟨t, ht, hinstant⟩ := hclock.writes
  rw [hreads.notAfter, ← hend]
  have hzero : l.ssl.time + l.seconds.toInt - (0 : Int32).toInt = l.till := Int.sub_zero _
  rw [hzero]
  split
  · next hlt =>
    rw [ht, Option.getD_some, hinstant, min_eq_right (le_of_lt hlt)]
    rfl
  · next hge => rw [hx, min_eq_left (not_lt.mp hge)]

theorem endBehind_nonneg (he : 0 ≤ e) : ∀ {links : List Link}, (∀ l ∈ links, Clocked l) →
    0 ≤ endBehind e links
  | [], _ => he
  | l :: links, h => by
    have hrest := endBehind_nonneg he fun l' hl' => h l' (.tail _ hl')
    have hl := h l (.head _)
    have htill : 0 ≤ l.till := by
      unfold Link.till
      have hnow := hl.now
      have hseconds := hl.seconds
      omega
    exact le_min hrest htill

/-- **A proxy does not outlive what it was made from.** On clocks that can be
read, the proxy behind any links ends when the certificate they start from
does, or the first of the lifetimes asked for on the way. -/
theorem end_extends {below : List X509} {links : List Link} {chain : List X509}
    (h : Extends isInfo (x :: below) links chain) (hx : instant x.notAfter = some e) (he : 0 ≤ e)
    (hclocks : ∀ l ∈ links, Clocked l) :
    ∃ y rest, chain = y :: rest ∧ instant y.notAfter = some (endBehind e links) := by
  induction h with
  | nil => exact ⟨x, below, rfl, hx⟩
  | @cons l links x' y rest _ hlink ih =>
    have hclocks' : ∀ l' ∈ links, Clocked l' := fun l' hl' => hclocks l' (.tail _ hl')
    obtain ⟨_, _, heq, hend⟩ := ih hclocks'
    cases heq
    exact ⟨y, _, rfl, hlink.notAfter (hclocks l (.head _)) hend (endBehind_nonneg he hclocks')⟩

end

/-! ## Verification -/

section

variable {isInfo : ExtType → Bool} {base chain : List X509} {links : List Link}

/-- One proxy for each link. -/
theorem Extends.top (h : Extends isInfo base links chain) :
    ∃ top, chain = top ++ base ∧ top.length = links.length ∧ ∀ c ∈ top, isProxy c = true := by
  induction h with
  | nil => exact ⟨[], rfl, rfl, nofun⟩
  | @cons l links x y rest _ hlink ih =>
    obtain ⟨top, hchain, hlen, hproxies⟩ := ih
    refine ⟨y :: top, by rw [hchain]; rfl, by rw [List.length_cons, hlen]; rfl, fun c hc => ?_⟩
    rcases List.mem_cons.mp hc with rfl | hc
    · unfold isProxy
      rcases hlink.proxy with hname | hname
      · rw [hname]
        rfl
      · rw [hname]
        rfl
    · exact hproxies c hc

/-- **What is verified of delegated proxies.** A chain behind links that is
let through has one proxy for each, and none of the certificates they start
from is a limited proxy. -/
theorem extends_verified {S : Store} {certdir : Option Str} {calls : List L3.Call}
    {st : Option ProxyVerifyDesc} (h : Extends isInfo base links chain)
    (hcalls : Presented chain calls)
    (hrun : Run (callbackStep S) (some (proxyVerifyInit certdir)) calls st) :
    (links ≠ [] → ∀ c ∈ base, isLimited c = false) ∧
      ∃ pvd, st = some pvd ∧ pvd.proxyDepth = links.length + base.countP isProxy := by
  obtain ⟨top, rfl, hlen, hproxies⟩ := h.top
  have hbehind := hcalls.behind rfl hrun
  obtain ⟨rfl, -⟩ := run_noted hrun
  refine ⟨fun hne c hc => hbehind c ?_, _, rfl, ?_⟩
  · have htop : top ≠ [] := by
      intro hnil
      rw [hnil] at hlen
      exact hne (List.length_eq_zero_iff.mp hlen.symm)
    rw [List.tail_append_of_ne_nil htop]
    exact List.mem_append_right _ hc
  · rw [hcalls.certs, foldl_noted, List.countP_reverse, List.countP_append,
      List.countP_eq_length.mpr hproxies, hlen]
    push_cast
    exact Int.zero_add _

end

/-! ### A proxy of a proxy -/

namespace Sample

open Voms.L1.Sample (user)

/-- A proxy of `x`, for as long. -/
def proxyOf (x : X509) : X509 :=
  { x with
    subject := ⟨x.subject.entries ++ [⟨NID_commonName, "proxy".toList⟩], x.subject.canonEnc,
      x.subject.oneline⟩
    issuer := x.subject }

def linkOf (x : X509) : Link :=
  ⟨MakeProxy.Sample.library, { MakeProxy.Sample.arguments [] with cert := some x }⟩

theorem works : Works (fun _ => false) MakeProxy.Sample.library where
  addEntry name entry name' h := by
    cases h
    rfl
  info type value ex h := nomatch h

theorem first : Delegates (fun _ => false) (linkOf user) user (proxyOf user) :=
  ⟨works, rfl, rfl, rfl, rfl, _, _, rfl, rfl, rfl, rfl, rfl⟩

theorem second : Delegates (fun _ => false) (linkOf (proxyOf user)) (proxyOf user)
    (proxyOf (proxyOf user)) :=
  ⟨works, rfl, rfl, rfl, rfl, _, _, rfl, rfl, rfl, rfl, rfl⟩

theorem chain : Extends (fun _ => false) [user] [linkOf (proxyOf user), linkOf user]
    [proxyOf (proxyOf user), proxyOf user, user] :=
  .cons (.cons .nil first) second

theorem clocked (x : X509) : Clocked (linkOf x) := by
  have htime : (linkOf x).ssl.time = 1704109550 := rfl
  have hseconds : (linkOf x).seconds.toInt = 3600 := by
    have heq : (linkOf x).seconds = 1 * 60 * 60 + 0 * 60 := rfl
    rw [heq]
    decide
  have hwrites : WritesTime Voms.L3.Sample.ssl (1704109550 + 3600) := ⟨_, rfl, rfl⟩
  have hutc : WritesUtcTime Voms.L3.Sample.ssl 1704109550 :=
    ⟨fun _ _ => ⟨_, rfl, rfl, by decide⟩, fun h => absurd h (by decide)⟩
  refine ⟨?_, rfl, ?_, ?_, ?_⟩
  · rw [htime]
    exact ⟨by decide, by decide⟩
  · rw [hseconds]
    decide
  · rw [htime, hseconds]
    exact hwrites
  · rw [htime]
    exact hutc

/-- The first proxy has an AC. -/
def client : Client :=
  { L4.Sample.applications with
    acseq := fun x => if x = proxyOf user then some (some [d2iAc L4.Sample.ac]) else none }

end Sample

/-- `retrieveCert_extends` for the second proxy: its holder is the user, and the AC
is that of the first. -/
theorem retrieveCert_extends_second : ∃ s' w,
    getRealCert (Sample.proxyOf (Sample.proxyOf L1.Sample.user))
      [Sample.proxyOf L1.Sample.user, L1.Sample.user] = .ok (some L1.Sample.user) ∧
    retrieveCert Sample.client (some (Sample.proxyOf (Sample.proxyOf L1.Sample.user)))
      (some [Sample.proxyOf L1.Sample.user, L1.Sample.user]) .RECURSE_CHAIN L4.Sample.client =
        .ok (true, s') ∧ s'.data = [w] := by
  have hextends : Extends (fun _ => false) [Sample.proxyOf L1.Sample.user, L1.Sample.user]
      [Sample.linkOf (Sample.proxyOf L1.Sample.user)]
      [Sample.proxyOf (Sample.proxyOf L1.Sample.user), Sample.proxyOf L1.Sample.user,
        L1.Sample.user] := .cons .nil Sample.second
  have hbare : ∀ c ∈ [Sample.proxyOf (Sample.proxyOf L1.Sample.user)], Bare Sample.client c := by
    intro c hc
    rw [List.mem_singleton.mp hc]
    exact ⟨by decide, rfl, rfl⟩
  obtain ⟨hreal, hretrieve⟩ := retrieveCert_extends hextends (by rfl) hbare
    (show RecurseType.RECURSE_CHAIN ≠ .RECURSE_NONE by decide) L4.Sample.client
  rw [hreal, hretrieve]
  exact ⟨_, _, rfl, rfl, rfl⟩

/-- `end_extends` for the second proxy: noon, when the user's certificate ends. -/
theorem end_extends_second :
    endBehind 1704110400 [Sample.linkOf (Sample.proxyOf L1.Sample.user),
      Sample.linkOf L1.Sample.user] = 1704110400 ∧
    ∃ y rest, [Sample.proxyOf (Sample.proxyOf L1.Sample.user), Sample.proxyOf L1.Sample.user,
      L1.Sample.user] = y :: rest ∧ instant y.notAfter = some (endBehind 1704110400
        [Sample.linkOf (Sample.proxyOf L1.Sample.user), Sample.linkOf L1.Sample.user]) := by
  refine ⟨by decide, end_extends Sample.chain (by decide) (by decide) fun l hl => ?_⟩
  rcases List.mem_cons.mp hl with rfl | hl
  · exact Sample.clocked _
  · rw [List.mem_singleton.mp hl]
    exact Sample.clocked _

/-- `extends_verified` for a proxy of the user under the root. -/
theorem extends_verified_first : ∃ pvd,
    Run (callbackStep L3.Sample.store) (some (proxyVerifyInit none)) (L3.Sample.descent
      [Sample.proxyOf L1.Sample.user, L1.Sample.user, L3.Sample.limitedRoot 1]) (some pvd) ∧
    pvd.proxyDepth = 1 := by
  have hextends : Extends (fun _ => false) [L1.Sample.user, L3.Sample.limitedRoot 1]
      [Sample.linkOf L1.Sample.user]
      [Sample.proxyOf L1.Sample.user, L1.Sample.user, L3.Sample.limitedRoot 1] :=
    .cons .nil Sample.first
  have hrun : Run (callbackStep L3.Sample.store) (some (proxyVerifyInit none)) (L3.Sample.descent
      [Sample.proxyOf L1.Sample.user, L1.Sample.user, L3.Sample.limitedRoot 1]) _ :=
    .cons rfl (.cons rfl (.cons rfl (.nil _)))
  obtain ⟨-, pvd, hpvd, hdepth⟩ :=
    extends_verified hextends (L3.Sample.descent_presented _) hrun
  exact ⟨pvd, hpvd ▸ hrun, hdepth⟩

end Voms.L4.Delegation
