import Voms.L3Trust.Mktime
import Voms.Core.Decimal

/-!
# `proxy_sign`: signing a proxy certificate

`proxy_sign_ext` and `proxy_sign` of `src/sslutils/sslutils.c`. Allocations
succeed, and the clock does not move during a call.

The end of the proxy should be the earlier of the end of the user's
certificate and `now - pastproxy + seconds`, and the former for zero
seconds. The comparison that decides has `pastproxy` on both sides, so that
it compares with `now - 2 * pastproxy + seconds`, and does not look at zero
seconds at all; a moment before 1970 comes back from its UTCTime a century
late, and one that a UTCTime cannot name comes back as 0 (`EndRight`).

* `notAfter_iff`: when the end is right.
* `endRight_iff`: the condition for a clock that is read back correctly.

What OpenSSL writes for a time enters as `WritesTime` and `WritesUtcTime`.
-/
namespace Voms.L3

open Voms.Core Voms.L1

/-! ## What is signed and who helps -/

/-- `EVP_MD`. -/
structure EvpMd where
  id : Nat
  deriving DecidableEq, Repr

/-- `X509_REQ`; `pubkey` is what `req_info->pubkey` holds, NULL also when
something on the way to its data is, and `key` is `X509_REQ_get_pubkey`. -/
structure X509Req where
  sigAlg : X509Algor
  pubkey : Option (List UInt8)
  key : Option EvpPKey
  deriving DecidableEq, Repr

/-- `X509_CINF` of the new certificate, as it is signed. -/
structure NewCertInfo where
  version : Asn1Integer
  serialNumber : Asn1Integer
  subject : X509Name
  issuer : X509Name
  notBefore : Asn1Time
  notAfter : Asn1Time
  key : List UInt8
  extensions : Option (List X509Ext)
  deriving DecidableEq, Repr

structure NewCert where
  info : NewCertInfo
  signature : BitString
  deriving DecidableEq, Repr

/-- OpenSSL and the clock, and `make_DN`. -/
structure Ssl where
  time : Int
  /-- `X509_gmtime_adj` on the field of a certificate and on a UTCTime, for
  the time it amounts to; `none` leaves the time as it is. -/
  timeAdj : Int → Option Asn1Time
  utctimeAdj : Int → Option Asn1Time
  /-- `X509_REQ_verify`. -/
  reqVerify : X509Req → EvpPKey → Int
  /-- `EVP_get_digestbyobj`, `EVP_sha1`. -/
  digestByObj : X509Algor → Option EvpMd
  sha1 : EvpMd
  /-- `ASN1_digest` of a public key. -/
  digest : EvpMd → EvpPKey → List UInt8
  /-- `BN_to_ASN1_INTEGER` of what `BN_hex2bn` reads. -/
  hexInteger : Str → Option Asn1Integer
  /-- `X509_NAME_add_entry`, and the text of a name as a name. -/
  addEntry : X509Name → NameEntry → Option X509Name
  makeDN : Str → Option X509Name
  /-- `X509_sign`. -/
  x509Sign : NewCertInfo → Option EvpPKey → EvpMd → Option BitString

/-- The reasons `proxy_sign` and `proxy_sign_ext` push. -/
inductive PrxyErr where
  | PRXYERR_R_PROCESS_SIGN
  | PRXYERR_R_MALFORM_REQ
  | PRXYERR_R_SIG_VERIFY
  | PRXYERR_R_SIG_BAD
  | PRXYERR_R_PROCESS_SIGNC
  deriving DecidableEq, Repr

abbrev Sign := Res PrxyErr

/-- `X509_new` has an empty name, serial number and validity. -/
def emptyName : X509Name := ⟨[], [], []⟩
def emptySerial : Asn1Integer := ⟨false, []⟩
def emptyTime : Asn1Time := ⟨.other, []⟩

/-- `ASN1_UTCTIME_new`. -/
def emptyUtcTime : Asn1Time := ⟨.utc, []⟩

/-! ## `proxy_sign_ext` -/

/-- `SHA_DIGEST_LENGTH` bytes hold the digest, and so many are copied. -/
def digestBuffer (S : Ssl) (sigAlgo : EvpMd) (key : EvpPKey) : Sign (List UInt8) :=
  let md := S.digest sigAlgo key
  if md.length ≤ 20 then pure md else .fault .outOfRange

/-- mirrors src/sslutils/sslutils.c:1104-1159 -/
def chooseSerial (S : Ssl) (userCert : Option X509) (sigAlgo : EvpMd) (key : EvpPKey)
    (proxyver : Int) (newserial : Option Str) (selfsigned : Bool) : Sign Asn1Integer :=
  match newserial with
  | some hex => pure ((S.hexInteger hex).getD emptySerial)
  | none =>
    if 2 < proxyver then do
      let md ← digestBuffer S sigAlgo key
      if md.length = 20 then pure ⟨false, md⟩ else .fault .outOfRange
    else if selfsigned then pure ⟨false, [1]⟩
    else do
      let cert ← Res.deref userCert
      pure cert.serialNumber

/-- Both arguments are `int`, and so is their difference where no `long` is
asked for.
mirrors src/sslutils/sslutils.c:1189-1208 -/
def chooseNotAfter (S : Ssl) (userCert : Option X509) (seconds pastproxy : Int32)
    (selfsigned : Bool) : Eval Asn1Time :=
  let adjusted := (S.timeAdj (S.time + (seconds.toInt - pastproxy.toInt))).getD emptyTime
  if selfsigned then pure adjusted
  else do
    let asn1Time := (S.utctimeAdj (S.time + (-pastproxy).toInt)).getD emptyUtcTime
    let timeNow ← asn1UtctimeMktime asn1Time
    let cert ← Res.deref userCert
    let timeAfter ← asn1UtctimeMktime cert.notAfter
    let timeDiff := timeAfter - timeNow
    if (seconds - pastproxy).toInt < timeDiff then pure adjusted else pure cert.notAfter

/-- The extensions are copied in their order.
mirrors src/sslutils/sslutils.c:1016-1315 -/
def proxySignExt (S : Ssl) (userCert : Option X509) (userPrivateKey : Option EvpPKey)
    (method : EvpMd) (req : X509Req) (subjectName issuerName : Option X509Name) (seconds : Int32)
    (extensions : Option (List X509Ext)) (proxyver : Int) (pastproxy : Int32)
    (newserial : Option Str) (selfsigned : Bool) : Sign NewCert := do
  let sigAlgo := (S.digestByObj req.sigAlg).getD S.sha1
  let pubkey ← Res.require .PRXYERR_R_MALFORM_REQ req.pubkey
  let newPublicKey ← Res.require .PRXYERR_R_MALFORM_REQ req.key
  Res.guard (0 ≤ S.reqVerify req newPublicKey) .PRXYERR_R_SIG_VERIFY
  Res.guard (S.reqVerify req newPublicKey ≠ 0) .PRXYERR_R_SIG_BAD
  let serialNumber ← chooseSerial S userCert sigAlgo newPublicKey proxyver newserial selfsigned
  let issuer ← (match issuerName with
    | some name => pure name
    | none => do
      let cert ← Res.deref userCert
      pure cert.subject)
  let notBefore := (S.timeAdj (S.time + (-300 - pastproxy).toInt)).getD emptyTime
  let notAfter ← (chooseNotAfter S userCert seconds pastproxy selfsigned).mapErr Empty.elim
  let info : NewCertInfo :=
    { version := ⟨false, [2]⟩, serialNumber, subject := subjectName.getD emptyName, issuer,
      notBefore, notAfter, key := pubkey, extensions }
  let signature ← Res.require .PRXYERR_R_PROCESS_SIGNC (S.x509Sign info userPrivateKey method)
  pure ⟨info, signature⟩

/-! ## `proxy_sign` -/

/-- mirrors src/sslutils/sslutils.c:1342-1396 -/
def proxyConstructName (S : Ssl) (cert : Option X509) (newcn : Str) : Sign X509Name := do
  let cert ← Res.deref cert
  Res.require .PRXYERR_R_PROCESS_SIGN (S.addEntry cert.subject ⟨NID_commonName, newcn⟩)

/-- The common name that is appended.
mirrors src/sslutils/sslutils.c:901-922 -/
def newCommonName (S : Ssl) (userCert : Option X509) (sigAlgo : EvpMd) (limitedProxy : Bool)
    (proxyver : Int) : Sign Str :=
  if 3 ≤ proxyver then do
    let cert ← Res.deref userCert
    -- without a key nothing is digested
    let md ← (match cert.key with
      | some key => digestBuffer S sigAlgo key
      | none => pure [])
    match md with
    | m0 :: m1 :: m2 :: m3 :: _ =>
      pure (decimal (m0.toNat + (m1.toNat + (m2.toNat + (m3.toNat >>> 1) * 256) * 256) * 256 : Nat))
    | _ => .fault .uninit
  else pure (if limitedProxy then "limited proxy".toList else "proxy".toList)

/-- mirrors src/sslutils/sslutils.c:870-970 -/
def proxySign (S : Ssl) (userCert : Option X509) (userPrivateKey : Option EvpPKey) (req : X509Req)
    (seconds : Int32) (extensions : Option (List X509Ext)) (limitedProxy : Bool) (proxyver : Int)
    (newdn newissuer : Option Str) (pastproxy : Int32) (newserial : Option Str)
    (selfsigned : Bool) : Sign NewCert := do
  let sigAlgo := (S.digestByObj req.sigAlg).getD S.sha1
  let newcn ← newCommonName S userCert sigAlgo limitedProxy proxyver
  let subjectName ← (match newdn with
    | some dn => pure (S.makeDN dn)
    | none => do
      let name ← proxyConstructName S userCert newcn
      pure (some name))
  let issuerName := newissuer.bind S.makeDN
  proxySignExt S userCert userPrivateKey sigAlgo req subjectName issuerName seconds extensions
    proxyver pastproxy newserial selfsigned

/-! ## The end of the proxy -/

/-- `X509_gmtime_adj` writes the time. -/
def WritesTime (S : Ssl) (t : Int) : Prop := ∃ x, S.timeAdj t = some x ∧ instant x = some t

/-- A UTCTime is written for the years 1950 to 2049, and for no others. -/
structure WritesUtcTime (S : Ssl) (t : Int) : Prop where
  inside : -631152000 ≤ t → t < 2524608000 →
    ∃ x, S.utctimeAdj t = some x ∧ x.type = .utc ∧ instant x = some t
  outside : ¬ (-631152000 ≤ t ∧ t < 2524608000) → S.utctimeAdj t = none

/-- What `ASN1_UTCTIME_mktime` makes of the UTCTime. -/
def utcReading (t : Int) : Int :=
  if -631152000 ≤ t ∧ t < 2524608000 then (if t < 0 then t + 3155760000 else t) else 0

theorem mktime_utctimeAdj {S : Ssl} {t : Int} (h : WritesUtcTime S t) :
    asn1UtctimeMktime ((S.utctimeAdj t).getD emptyUtcTime) = .ok (utcReading t) := by
  unfold utcReading
  by_cases hin : -631152000 ≤ t ∧ t < 2524608000
  · obtain ⟨x, hx, htype, hinstant⟩ := h.inside hin.1 hin.2
    rw [if_pos hin, hx]
    by_cases hneg : t < 0
    · rw [if_pos hneg]
      exact mktime_of_instant_neg htype hinstant hneg
    · rw [if_neg hneg]
      exact mktime_of_instant hinstant (by omega)
  · rw [if_neg hin, h.outside hin]
    rfl

/-- The end by the documentation of the function. -/
def documentedEnd (now pastproxy seconds userEnd : Int) : Int :=
  if 0 < seconds then min userEnd (now - pastproxy + seconds) else userEnd

/-- Where the end of the proxy is right: by the branch that is taken. -/
def EndRight (now pastproxy seconds userEnd : Int) : Prop :=
  if utcReading (now - pastproxy) + seconds - pastproxy < userEnd
  then 0 < seconds ∧ now - pastproxy + seconds ≤ userEnd
  else seconds = 0 ∨ userEnd ≤ now - pastproxy + seconds

/-- For a clock that is read back: not if the certificate ends in the last
`pastproxy` seconds before the proxy would, and never for zero seconds. -/
theorem endRight_iff {now pastproxy seconds userEnd : Int} (hseconds : 0 ≤ seconds)
    (hpast : 0 ≤ pastproxy) (hlives : now < userEnd) (hlo : pastproxy ≤ now)
    (hhi : now - pastproxy < 2524608000) : EndRight now pastproxy seconds userEnd ↔
      0 < seconds ∧ (userEnd ≤ now - 2 * pastproxy + seconds ∨
        now - pastproxy + seconds ≤ userEnd) := by
  have hread : utcReading (now - pastproxy) = now - pastproxy := by
    unfold utcReading
    omega
  unfold EndRight
  rw [hread]
  split <;> omega

section

variable {S : Ssl} {user : X509} {seconds pastproxy : Int32} {userEnd : Int}

theorem toInt_sub_of_nonneg {a b : Int32} (ha : 0 ≤ a.toInt) (hb : 0 ≤ b.toInt) :
    (a - b).toInt = a.toInt - b.toInt := by
  have halt := a.toInt_lt
  have hblt := b.toInt_lt
  rw [Int32.toInt_sub]
  exact Int.bmod_eq_of_le (by omega) (by omega)

theorem toInt_neg_of_nonneg {a : Int32} (ha : 0 ≤ a.toInt) : (-a).toInt = -a.toInt := by
  have halt := a.toInt_lt
  rw [Int32.toInt_neg]
  exact Int.bmod_eq_of_le (by omega) (by omega)

/-- The end that is chosen. -/
theorem chooseNotAfter_eq (hseconds : 0 ≤ seconds.toInt) (hpast : 0 ≤ pastproxy.toInt)
    (huser : instant user.notAfter = some userEnd) (huserEnd : 0 ≤ userEnd)
    (hutc : WritesUtcTime S (S.time - pastproxy.toInt)) :
    chooseNotAfter S (some user) seconds pastproxy false = .ok
      (if utcReading (S.time - pastproxy.toInt) + seconds.toInt - pastproxy.toInt < userEnd
        then (S.timeAdj (S.time - pastproxy.toInt + seconds.toInt)).getD emptyTime
        else user.notAfter) := by
  have hnow := mktime_utctimeAdj hutc
  have hafter := mktime_of_instant huser huserEnd
  have hadj : S.time + (seconds.toInt - pastproxy.toInt) =
      S.time - pastproxy.toInt + seconds.toInt := by omega
  have hlt (r : Int) : seconds.toInt - pastproxy.toInt < userEnd - r ↔
      r + seconds.toInt - pastproxy.toInt < userEnd := by omega
  simp only [chooseNotAfter, Bool.false_eq_true, if_false, toInt_neg_of_nonneg hpast,
    toInt_sub_of_nonneg hseconds hpast, hnow, hafter, Res.ok_bind, Res.deref_some, hadj, hlt,
    ← Int.sub_eq_add_neg]
  split <;> rfl

end

/-- What a signed certificate has of the arguments. -/
theorem proxySignExt_ok {S : Ssl} {userCert : Option X509} {key : Option EvpPKey}
    {method : EvpMd} {req : X509Req} {subject issuer : Option X509Name} {seconds : Int32}
    {extensions : Option (List X509Ext)} {ver : Int} {past : Int32} {serial : Option Str}
    {selfsigned : Bool} {cert : NewCert}
    (h : proxySignExt S userCert key method req subject issuer seconds extensions ver past serial
      selfsigned = .ok cert) :
    chooseNotAfter S userCert seconds past selfsigned = .ok cert.info.notAfter ∧
      cert.info.extensions = extensions := by
  unfold proxySignExt at h
  obtain ⟨pubkey, -, h⟩ := Res.bind_eq_ok.mp h
  obtain ⟨newKey, -, h⟩ := Res.bind_eq_ok.mp h
  obtain ⟨-, h⟩ := Res.then_eq_ok.mp h
  obtain ⟨-, h⟩ := Res.then_eq_ok.mp h
  obtain ⟨serialNumber, -, h⟩ := Res.bind_eq_ok.mp h
  obtain ⟨issuerName, -, h⟩ := Res.bind_eq_ok.mp h
  obtain ⟨notAfter, hnotAfter, h⟩ := Res.bind_eq_ok.mp h
  obtain ⟨signature, -, h⟩ := Res.bind_eq_ok.mp h
  cases h
  exact ⟨Res.mapErr_eq_ok.mp hnotAfter, rfl⟩

/-- **The end of the proxy** is the documented one exactly under `EndRight`. -/
theorem notAfter_iff (S : Ssl) (user : X509) (key : Option EvpPKey) (method : EvpMd)
    (req : X509Req) (subject issuer : Option X509Name) (seconds : Int32)
    (extensions : Option (List X509Ext)) (ver : Int) (pastproxy : Int32) (serial : Option Str)
    (userEnd : Int) (cert : NewCert) (hseconds : 0 ≤ seconds.toInt) (hpast : 0 ≤ pastproxy.toInt)
    (hclock : 0 ≤ S.time) (huser : instant user.notAfter = some userEnd)
    (hlives : S.time < userEnd)
    (hend : WritesTime S (S.time - pastproxy.toInt + seconds.toInt))
    (hutc : WritesUtcTime S (S.time - pastproxy.toInt))
    (h : proxySignExt S (some user) key method req subject issuer seconds extensions ver pastproxy
      serial false = .ok cert) :
    instant cert.info.notAfter =
        some (documentedEnd S.time pastproxy.toInt seconds.toInt userEnd) ↔
      EndRight S.time pastproxy.toInt seconds.toInt userEnd := by
  have hchosen := (proxySignExt_ok h).1
  rw [chooseNotAfter_eq hseconds hpast huser (by omega) hutc, Res.ok.injEq] at hchosen
  obtain ⟨x, hx, hinstant⟩ := hend
  rw [← hchosen, hx]
  unfold EndRight documentedEnd
  split
  · rw [Option.getD_some, hinstant, Option.some.injEq]
    omega
  · rw [huser, Option.some.injEq]
    omega

namespace Sample

def twoDigitText (n : Int) : Str := [Nat.digitChar (n.toNat / 10), Nat.digitChar (n.toNat % 10)]

/-- The times of 1 January 2024. -/
def newYearText (t : Int) : Option Asn1Time :=
  let s := t - 1704067200
  if 0 ≤ s ∧ s < 86400 then
    some ⟨.utc, "240101".toList ++ twoDigitText (s / 3600) ++ twoDigitText (s / 60 % 60) ++
      twoDigitText (s % 60) ++ ['Z']⟩
  else none

/-- 850 seconds before noon. -/
def ssl : Ssl where
  time := 1704109550
  timeAdj := newYearText
  utctimeAdj := newYearText
  reqVerify _ _ := 1
  digestByObj _ := none
  sha1 := ⟨1⟩
  digest _ _ := List.replicate 20 1
  hexInteger _ := none
  addEntry name entry := some ⟨name.entries ++ [entry], name.canonEnc, name.oneline⟩
  makeDN _ := none
  x509Sign _ _ _ := some ⟨[]⟩

def request : X509Req := ⟨⟨1⟩, some [7], some ⟨7⟩⟩

/-- The proxy of the user, whose certificate ends at noon. -/
def signed (seconds pastproxy : Int32) : Sign NewCert :=
  proxySignExt ssl (some Voms.L1.Sample.user) (some ⟨21⟩) ⟨1⟩ request none none seconds none 2
    pastproxy none false

end Sample

/-- 1000 seconds, of which 100 have passed, are 50 more than the certificate
has left, and the proxy gets them. -/
theorem notAfter_outlives :
    ¬ ∀ (S : Ssl) (user : X509) (key : Option EvpPKey) (method : EvpMd) (req : X509Req)
      (subject issuer : Option X509Name) (seconds : Int32) (extensions : Option (List X509Ext))
      (ver : Int) (pastproxy : Int32) (serial : Option Str) (userEnd : Int) (cert : NewCert),
      0 ≤ seconds.toInt → 0 ≤ pastproxy.toInt → 0 ≤ S.time →
      instant user.notAfter = some userEnd → S.time < userEnd →
      WritesTime S (S.time - pastproxy.toInt + seconds.toInt) →
      WritesUtcTime S (S.time - pastproxy.toInt) →
      proxySignExt S (some user) key method req subject issuer seconds extensions ver pastproxy
        serial false = .ok cert →
      instant cert.info.notAfter =
        some (documentedEnd S.time pastproxy.toInt seconds.toInt userEnd) := by
  intro h
  have hoclock := h Sample.ssl Voms.L1.Sample.user (some ⟨21⟩) ⟨1⟩ Sample.request none none 1000
    none 2 100 none 1704110400 _ (by decide) (by decide) (by decide) (by decide) (by decide)
    ⟨_, rfl, by decide⟩ ⟨fun _ _ => ⟨_, rfl, rfl, by decide⟩, fun h => absurd h (by decide)⟩ rfl
  exact absurd hoclock (by decide)

theorem notAfter_iff_thousand :
    ∃ cert, Sample.signed 1000 0 = .ok cert ∧
      (instant cert.info.notAfter = some (documentedEnd 1704109550 0 1000 1704110400) ↔
        EndRight 1704109550 0 1000 1704110400) := by
  refine ⟨_, rfl, ?_⟩
  exact notAfter_iff Sample.ssl Voms.L1.Sample.user (some ⟨21⟩) ⟨1⟩ Sample.request none none 1000
    none 2 0 none 1704110400 _ (by decide) (by decide) (by decide) (by decide) (by decide)
    ⟨_, rfl, by decide⟩ ⟨fun _ _ => ⟨_, rfl, rfl, by decide⟩, fun h => absurd h (by decide)⟩ rfl

end Voms.L3
