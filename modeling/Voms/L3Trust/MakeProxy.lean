import Voms.L2Ac.Write
import Voms.L3Trust.ProxySign
import Voms.L3Trust.ProxyCertInfo

/-!
# `VOMS_MakeProxy` and the extensions it is given

`src/sslutils/proxy.c`. The extensions of the caller come first, then those
the function makes itself; `proxy_sign` copies the list as it is. A step
that fails ends the call with NULL and with what `warning` and `additional`
then hold (`Report`).

Two functions copy a caller's extensions: this one, and `writeac` behind the
extensions of the attribute certificate. Both count with `proxyindex` and
take the element `i`, which no loop moves: it is 0 here and, in `writeac`,
what the last loop before left in it.

* `extensions_kept_iff`: when the extensions arrive as they were given.
-/
namespace Voms.L3.MakeProxy

open Voms.Core Voms.L1 Voms.L2 Voms.L3 Voms.L3.ProxyCertInfo

/-! ## Arguments and results -/

/-- mirrors src/sslutils/vomsproxy.h:89-97 -/
inductive ProxyWarning where
  | PROXY_NO_ERROR
  | PROXY_ERROR_OPEN_FILE
  | PROXY_ERROR_STAT_FILE
  | PROXY_ERROR_OUT_OF_MEMORY
  | PROXY_ERROR_FILE_READ
  | PROXY_ERROR_UNKNOWN_BIT
  | PROXY_ERROR_UNKNOWN_EXTENDED_BIT
  | PROXY_WARNING_GSI_ASSUMED
  | PROXY_WARNING_GENERIC_LANGUAGE_ASSUMED
  deriving DecidableEq, Repr

/-- `*warning` and `*additional`. -/
structure Report where
  warning : ProxyWarning
  additional : Option Str
  deriving DecidableEq, Repr

def noError : Report := ⟨.PROXY_NO_ERROR, none⟩

abbrev Make := Res Report

/-- `data` is the first `datalen` bytes.
mirrors src/sslutils/vomsproxy.h:39-70 -/
structure ProxyArguments where
  proxyrequest : Option X509Req
  filename : Option Str
  aclist : Option (List Ac)
  proxyversion : Int
  data : Str
  newsubject : Option Str
  cert : Option X509
  key : Option EvpPKey
  bits : Int
  policyfile : Option Str
  policylang : Option Str
  policytext : Option Str
  pathlength : Int
  hours : Int32
  minutes : Int32
  limited : Bool
  voID : Option Str
  extensions : Option (List X509Ext)
  chain : List X509
  pastproxy : Int32
  keyusage : Option Str
  netscape : Option Str
  exkusage : Option Str
  newissuer : Option Str
  newserial : Option Str
  selfsigned : Bool
  deriving DecidableEq, Repr

/-- mirrors src/sslutils/vomsproxy.h:72-76 -/
structure VomsProxy where
  cert : NewCert
  chain : List X509
  key : Option EvpPKey
  deriving DecidableEq, Repr

/-- What `X509V3_EXT_conf_nid` is given for the information of a proxy: a
structure, or a text. -/
inductive PciValue where
  | info (a : MyProxyCertInfo)
  | text (s : Str)
  deriving DecidableEq, Repr

/-- What the function calls: OpenSSL, files and `proxy_genreq`. -/
structure Library where
  ssl : Ssl
  genreq : Option X509 → Int → Option Str → Option (X509Req × EvpPKey)
  /-- `readfromfile`: the contents, or the warning it sets. -/
  readfromfile : Str → Except ProxyWarning Str
  /-- `OBJ_nid2obj` of `OBJ_txt2nid`, or `OBJ_txt2obj`. -/
  txt2obj : Str → Option ExtType
  /-- `OBJ_nid2obj` of `OBJ_sn2nid`, after `OBJ_create`. -/
  sn2obj : Str → Option Nat
  asn1IntegerSet : Int → Asn1Integer
  proxynative : Bool
  /-- `X509V3_EXT_conf_nid` for the type of extension and its text. -/
  conf : CertExtType → Str → Option X509Ext
  confAcseq : List Ac → Option X509Ext
  confProxyCertInfo : CertExtType → PciValue → Option X509Ext
  confSubjectKeyId : X509Req → Option X509Ext
  /-- The key identifier of an issuer, and of a certificate that has nothing
  but the key of the request. -/
  confAuthorityKeyId : X509 → Option X509Ext
  confAuthorityKeyIdOfKey : X509Req → Option X509Ext
  /-- `X509_get_ext_d2i` and `X509V3_EXT_i2d` for the key usage. -/
  keyUsage : X509 → Option (List UInt8)
  keyUsageExt : List UInt8 → Option X509Ext

/-! ## The extensions the function makes -/

/-- mirrors src/sslutils/proxy.c:621-665 -/
def createProxyExtension (P : Library) (name data : Str) (crit : Bool) : Option X509Ext :=
  (P.txt2obj name).map fun obj => ⟨obj, crit, .raw data⟩

/-- `X509_EXTENSION_set_critical(ex, 1)`. -/
def setCritical (ex : X509Ext) : X509Ext := { ex with critical := true }

/-- `if (!ex) goto err;` and `SET_EXT(ex)`. -/
def added (report : Report) (ex : Option X509Ext) : Make (List X509Ext) := do
  let ex ← Res.require report ex
  pure [ex]

/-- mirrors src/sslutils/proxy.c:200-210 -/
def vomsExtension (P : Library) (args : ProxyArguments) : Make (List X509Ext) :=
  if args.data = [] then pure []
  else added noError (createProxyExtension P "voms".toList args.data false)

/-- mirrors src/sslutils/proxy.c:212-234 -/
def includeExtension (P : Library) (args : ProxyArguments) : Make (List X509Ext) :=
  match args.filename with
  | none => pure []
  | some file =>
    match P.readfromfile file with
    | .error warning => .err ⟨warning, some file⟩
    | .ok filedata => added noError (createProxyExtension P "incfile".toList filedata false)

/-- mirrors src/sslutils/proxy.c:236-247 -/
def acExtension (P : Library) (args : ProxyArguments) : Make (List X509Ext) :=
  match args.aclist with
  | none => pure []
  | some aclist => added noError (P.confAcseq aclist)

/-- The bit name in front and what is behind its comma.
mirrors src/sslutils/proxy.c:779-800 -/
def getBitName (s : Str) : Option (Str × Str) :=
  if s = [] then none else some (s.takeWhile (· ≠ ','), (s.dropWhile (· ≠ ',')).drop 1)

/-- mirrors src/sslutils/proxy.c:802-824 -/
def getBitValue (bitname : Str) : BitVec 32 :=
  if bitname = "digitalSignature".toList then 0x0080
  else if bitname = "nonRepudiation".toList then 0x0040
  else if bitname = "keyEncipherment".toList then 0x0020
  else if bitname = "dataEncipherment".toList then 0x0010
  else if bitname = "keyAgreement".toList then 0x0008
  else if bitname = "keyCertSign".toList then 0x0004
  else if bitname = "cRLSign".toList then 0x0002
  else if bitname = "encipherOnly".toList then 0x0001
  else if bitname = "decipherOnly".toList then 0x8000
  else 0

theorem getBitName_length {s rest bitname : Str} (h : getBitName s = some (bitname, rest)) :
    rest.length < s.length := by
  unfold getBitName at h
  split at h
  · cases h
  · next hne =>
    cases h
    have hpos := List.length_pos_iff.mpr hne
    have hle := (List.dropWhile_suffix (l := s) (· ≠ ',')).length_le
    rw [List.length_drop]
    omega

/-- mirrors src/sslutils/proxy.c:827-844 -/
def convertMethod (bits : Str) (total : BitVec 32) : Make (BitVec 32) :=
  match _hname : getBitName bits with
  | none => pure total
  | some (bitname, rest) =>
    if getBitValue bitname = 0 then .err ⟨.PROXY_ERROR_UNKNOWN_BIT, some bitname⟩
    else convertMethod rest (total ||| getBitValue bitname)
termination_by bits.length
decreasing_by exact getBitName_length ‹_›

/-- mirrors src/sslutils/proxy.c:761-777 -/
def getKeyUsageFlags (P : Library) (cert : X509) : BitVec 32 :=
  match P.keyUsage cert with
  | some (lo :: hi :: _) => BitVec.ofNat 32 lo.toNat ||| BitVec.ofNat 32 hi.toNat <<< 8
  | some [lo] => BitVec.ofNat 32 lo.toNat
  | _ => 0

/-- mirrors src/sslutils/proxy.c:722-746 -/
def setKeyUsageFlags (P : Library) (flags : BitVec 32) : Option X509Ext :=
  let data0 := UInt8.ofNat (flags &&& 0x00ff).toNat
  let data1 := UInt8.ofNat ((flags &&& 0xff00) >>> 8).toNat
  P.keyUsageExt (if data1 ≠ 0 then [data0, data1] else [data0])

/-- Of the user's own bits a proxy has not those for signing certificates and
for non-repudiation.
mirrors src/sslutils/proxy.c:251-270 -/
def keyUsageFlags (P : Library) (args : ProxyArguments) : Make (BitVec 32) :=
  match args.keyusage with
  | some keyusage => convertMethod keyusage 0
  | none =>
    if args.selfsigned then pure (0x0080 ||| 0x0004 ||| 0x0002)
    else do
      let cert ← Res.deref args.cert
      pure (getKeyUsageFlags P cert &&& ~~~0x0004 &&& ~~~0x0040)

/-- mirrors src/sslutils/proxy.c:249-281 -/
def keyUsageExtension (P : Library) (args : ProxyArguments) : Make (List X509Ext) := do
  let kuFlags ← keyUsageFlags P args
  if kuFlags = 0 then pure []
  else added noError ((setKeyUsageFlags P kuFlags).map setCritical)

/-- mirrors src/sslutils/proxy.c:283-293 -/
def netscapeExtension (P : Library) (args : ProxyArguments) : Make (List X509Ext) :=
  match args.netscape with
  | none => pure []
  | some netscape => added noError (P.conf .netscapeCertType netscape)

/-- mirrors src/sslutils/proxy.c:295-307 -/
def exkusageExtension (P : Library) (args : ProxyArguments) : Make (List X509Ext) :=
  match args.exkusage with
  | none => pure []
  | some exkusage =>
    added ⟨.PROXY_ERROR_UNKNOWN_EXTENDED_BIT, some exkusage⟩ (P.conf .extKeyUsage exkusage)

/-- mirrors src/sslutils/proxy.c:309-319 -/
def basicConstraintsExtension (P : Library) (args : ProxyArguments) : Make (List X509Ext) :=
  added noError ((P.conf .basicConstraints
    (if args.selfsigned then "CA:true".toList else "CA:false".toList)).map setCritical)

/-- mirrors src/sslutils/proxy.c:321-331 -/
def voExtension (P : Library) (args : ProxyArguments) : Make (List X509Ext) := do
  let voID ← Res.deref args.voID
  if voID = [] then pure []
  else added noError (createProxyExtension P "vo".toList voID false)

/-- `SET_EXT` has set `ex13` to NULL when it is added to `tmpcert`.
mirrors src/sslutils/proxy.c:333-376 -/
def keyIdExtensions (P : Library) (args : ProxyArguments) (req : X509Req) :
    Make (List X509Ext) :=
  if args.selfsigned then do
    let subject ← added noError (P.confSubjectKeyId req)
    let authority ← added noError (P.confAuthorityKeyIdOfKey req)
    pure (subject ++ authority)
  else added noError (args.cert.bind P.confAuthorityKeyId)

/-! ### The information of a proxy -/

/-- The contents of the policy file.
mirrors src/sslutils/proxy.c:397-413 -/
def policyOf (P : Library) (args : ProxyArguments) : Make (Option Str) :=
  match args.policyfile with
  | none => pure none
  | some file =>
    match P.readfromfile file with
    | .error warning => .err ⟨warning, some file⟩
    | .ok policy => pure (some policy)

/-- The policy language, and the warning about one that was not given.
mirrors src/sslutils/proxy.c:415-438 -/
def policyLanguageOf (args : ProxyArguments) : Str × ProxyWarning :=
  let (policylang, warning) :=
    match args.policylang with
    | none =>
      if args.policyfile.isNone then
        ("1.3.6.1.5.5.7.21.1".toList, ProxyWarning.PROXY_WARNING_GSI_ASSUMED)
      else
        ("1.3.6.1.4.1.3536.1.1.1.8".toList, .PROXY_WARNING_GENERIC_LANGUAGE_ASSUMED)
    | some policylang =>
      if policylang = "IMPERSONATION_PROXY".toList then
        ("1.3.6.1.5.5.7.21.1".toList, .PROXY_NO_ERROR)
      else if policylang = "INDEPENDENT_PROXY".toList then
        ("1.3.6.1.5.5.7.21.2".toList, .PROXY_NO_ERROR)
      else (policylang, .PROXY_NO_ERROR)
  (if args.limited then "1.3.6.1.4.1.3536.1.1.1.9".toList else policylang, warning)

/-- The policy as `%s` prints it: nothing ends what was read from the file.
mirrors src/sslutils/proxy.c:479-500 -/
def policyText (args : ProxyArguments) (policy : Option Str) : Make Str :=
  match policy, args.policytext with
  | some policy, _ =>
    if '\x00' ∈ policy then pure (",policy:text:".toList ++ cStr policy) else .fault .outOfRange
  | none, some policytext => pure (",policy:text:".toList ++ policytext)
  | none, none => pure []

/-- mirrors src/sslutils/proxy.c:447-501 -/
def pciValue (P : Library) (args : ProxyArguments) (policy : Option Str) (policylang : Str)
    (policyLanguage : Nat) : Make PciValue :=
  if args.proxyversion = 3 ∨ args.proxyversion = 4 ∧ P.proxynative = false then
    pure (.info
      { pathLength := if 0 ≤ args.pathlength then some (P.asn1IntegerSet args.pathlength) else none
        proxypolicy := some ⟨some policyLanguage, policy.or args.policytext⟩
        version := args.proxyversion })
  else do
    let text ← policyText args policy
    let pathlen :=
      if args.pathlength ≠ -1 then ",pathlen:".toList ++ decimal args.pathlength else []
    pure (.text ("language:".toList ++ policylang ++ pathlen ++ text))

/-- The extension, and what `*warning` then holds.
mirrors src/sslutils/proxy.c:394-539 -/
def pciExtension (P : Library) (args : ProxyArguments) : Make (List X509Ext × ProxyWarning) :=
  if args.proxyversion < 3 then pure ([], .PROXY_NO_ERROR)
  else do
    let policy ← policyOf P args
    let (policylang, warning) := policyLanguageOf args
    let policyLanguage ← Res.require ⟨warning, none⟩ (P.sn2obj policylang)
    let value ← pciValue P args policy policylang policyLanguage
    let type : CertExtType :=
      if args.proxyversion = 3 then .proxyCertInfoV3 else .proxyCertInfoV4
    let ex7 := P.confProxyCertInfo type value
    let exts ← added ⟨warning, none⟩ (if args.proxyversion = 4 then ex7.map setCritical else ex7)
    pure (exts, warning)

/-- All of them, in the order they are pushed.
mirrors src/sslutils/proxy.c:198-539 -/
def ownExtensions (P : Library) (args : ProxyArguments) (req : X509Req) :
    Make (List X509Ext × ProxyWarning) := do
  let voms ← vomsExtension P args
  let incfile ← includeExtension P args
  let acseq ← acExtension P args
  let usage ← keyUsageExtension P args
  let netscape ← netscapeExtension P args
  let exkusage ← exkusageExtension P args
  let constraints ← basicConstraintsExtension P args
  let vo ← voExtension P args
  let keyIds ← keyIdExtensions P args req
  let (pci, warning) ← pciExtension P args
  pure (voms ++ incfile ++ acseq ++ usage ++ netscape ++ exkusage ++ constraints ++ vo ++ keyIds ++
    pci, warning)

/-! ## `VOMS_MakeProxy` -/

/-- The loop that copies what the caller gave: one copy of the element `i`
for each value of `proxyindex`. -/
def copyAt {ε : Type} (e : ε) (exts extensions : List X509Ext) (i : Nat) :
    Nat → Res ε (List X509Ext)
  | 0 => pure exts
  | proxyindex + 1 => do
    let ext ← Res.require e extensions[i]?
    copyAt e (exts ++ [ext]) extensions i proxyindex

/-- The request and the key that was made for it.
mirrors src/sslutils/proxy.c:162-170 -/
def requestOf (P : Library) (args : ProxyArguments) : Make (X509Req × Option EvpPKey) :=
  match args.proxyrequest with
  | some req => pure (req, none)
  | none => do
    let (req, npkey) ← Res.require noError (P.genreq args.cert args.bits args.newsubject)
    pure (req, some npkey)

/-- mirrors src/sslutils/proxy.c:541-574 -/
def signProxy (P : Library) (args : ProxyArguments) (req : X509Req) (npkey : Option EvpPKey)
    (extensions : List X509Ext) : Sign NewCert :=
  let seconds := args.hours * 60 * 60 + args.minutes * 60
  if args.selfsigned then
    proxySign P.ssl none npkey req seconds (some extensions) args.limited 0 args.newsubject
      args.newsubject args.pastproxy none args.selfsigned
  else
    proxySign P.ssl args.cert args.key req seconds (some extensions) args.limited
      args.proxyversion args.newsubject args.newissuer args.pastproxy args.newserial
      args.selfsigned

/-- `i` is still 0 in the loop over `args->extensions`.
mirrors src/sslutils/proxy.c:126-619 -/
def makeProxy (P : Library) (args : ProxyArguments) : Make (VomsProxy × ProxyWarning) := do
  let (req, npkey) ← requestOf P args
  let passed := args.extensions.getD []
  let exts ← copyAt noError [] passed 0 passed.length
  let (own, warning) ← ownExtensions P args req
  let ncert ← (signProxy P args req npkey (exts ++ own)).mapErr fun _ => ⟨warning, none⟩
  pure (⟨ncert, args.cert.toList ++ args.chain, npkey⟩, warning)

/-! ## What the loop copies -/

/-- The arguments of `writeac`, without the extensions. -/
structure AcArguments where
  issuerc : X509
  issuerstack : Option (List X509)
  holder : X509
  pkey : EvpPKey
  s : Asn1Integer
  fqan : List Str
  t : Option Str
  attributes : List Str
  vo : Option Str
  uri : Option Str
  valid : Int
  old : Bool
  startpast : Int

def AcArguments.write (a : AcArguments) (S : Signer) (extensions : Option (List X509Ext)) :
    Chk Ac :=
  writeac S a.issuerc a.issuerstack a.holder a.pkey a.s a.fqan a.t a.attributes a.vo a.uri a.valid
    a.old a.startpast extensions

/-- What is left in `i`: the number of certificates of the chain, or, when
there is none, of attributes. -/
def AcArguments.leftover (a : AcArguments) : Nat :=
  (a.issuerstack.map List.length).getD a.attributes.length

/-- Every extension is that of the index. -/
def AllAt (extensions : List X509Ext) (i : Nat) : Prop :=
  ∀ e ∈ extensions, extensions[i]? = some e

/-- The certificate without the extensions, and the one that has them behind
its own. -/
def AcKeeps (S : Signer) (a : AcArguments) (extensions : List X509Ext) : Prop :=
  ∃ ac ac' info info' own, a.write S none = .ok ac ∧ a.write S (some extensions) = .ok ac' ∧
    ac.acinfo = some info ∧ ac'.acinfo = some info' ∧ info.exts = some own ∧
    info'.exts = some (own ++ extensions)

/-- The proxy has the extensions, and behind them what the function makes. -/
def ProxyKeeps (P : Library) (args : ProxyArguments) (extensions : List X509Ext)
    (proxy : VomsProxy) : Prop :=
  ∃ req npkey own warning, requestOf P args = .ok (req, npkey) ∧
    ownExtensions P args req = .ok (own, warning) ∧
    proxy.cert.info.extensions = some (extensions ++ own)

section

variable {ε : Type} {e : ε} {exts extensions out : List X509Ext} {i n : Nat}

theorem copyExtensions_eq_copyAt : ∀ {n : Nat} {exts : List X509Ext},
    copyExtensions exts extensions i n = copyAt .AC_ERR_UNKNOWN exts extensions i n
  | 0, _ => rfl
  | n + 1, exts => by
    unfold copyExtensions copyAt
    cases extensions[i]? with
    | none => rfl
    | some ext => exact copyExtensions_eq_copyAt

/-- All copies are of the one element. -/
theorem copyAt_eq_ok : copyAt e exts extensions i n = .ok out ↔
    n = 0 ∧ out = exts ∨ ∃ ext, extensions[i]? = some ext ∧ out = exts ++ List.replicate n ext := by
  induction n generalizing exts with
  | zero => simp [copyAt, eq_comm]
  | succ n ih =>
    unfold copyAt
    cases hget : extensions[i]? with
    | none => simp
    | some ext =>
      simp only [Res.require_some, Res.ok_bind, ih, hget, List.replicate_succ, Option.some.injEq,
        exists_eq_left', List.append_assoc, List.singleton_append]
      constructor
      · rintro (⟨rfl, rfl⟩ | rfl)
        · exact Or.inr rfl
        · exact Or.inr rfl
      · rintro (⟨hzero, -⟩ | rfl)
        · exact absurd hzero (Nat.succ_ne_zero n)
        · exact Or.inr rfl

/-- The copies are what was given exactly if all of it is the one element. -/
theorem copyAt_self_iff :
    copyAt e exts extensions i extensions.length = .ok (exts ++ extensions) ↔
      AllAt extensions i := by
  rw [copyAt_eq_ok]
  unfold AllAt
  constructor
  · rintro (⟨hnil, -⟩ | ⟨ext, hext, heq⟩) e he
    · rw [List.length_eq_zero_iff.mp hnil] at he
      cases he
    · rw [hext, (List.eq_replicate_iff.mp (List.append_cancel_left heq)).2 e he]
  · intro h
    cases hcases : extensions with
    | nil => simp
    | cons ext rest =>
      have hext := h ext (by simp [hcases])
      rw [hcases] at hext h
      refine Or.inr ⟨ext, hext, congrArg (exts ++ ·) (List.eq_replicate_iff.mpr ⟨rfl, ?_⟩)⟩
      intro e he
      exact Option.some.inj ((h e he).symm.trans hext)

end

/-! ## `writeac` -/

section

variable {S : Signer} {a : AcArguments} {extensions : List X509Ext}

theorem parseAttributes_length {vo : Option Str} : ∀ {l : List Str} {attrs : List AcAttribute},
    parseAttributes vo l = .ok attrs → attrs.length = l.length
  | [], _, h => by
    cases h
    rfl
  | s :: rest, _, h => by
    unfold parseAttributes at h
    obtain ⟨attr, -, h⟩ := Res.bind_eq_ok.mp h
    obtain ⟨attrs, hattrs, h⟩ := Res.bind_eq_ok.mp h
    cases h
    exact congrArg Nat.succ (parseAttributes_length hattrs)

/-- The given extensions are copied behind the others. -/
theorem makeExtensions_some {issuerc : X509} {issuerstack : Option (List X509)} {t : Option Str}
    {attrs : List AcAttribute} {vo uri : Option Str} {own : List X509Ext}
    (h : makeExtensions S issuerc issuerstack t attrs vo uri none = .ok own) :
    makeExtensions S issuerc issuerstack t attrs vo uri (some extensions) =
      copyExtensions own extensions ((issuerstack.map List.length).getD attrs.length)
        extensions.length := by
  unfold makeExtensions at h ⊢
  obtain ⟨exts1, h1, h⟩ := Res.bind_eq_ok.mp h
  obtain ⟨exts2, h2, h⟩ := Res.bind_eq_ok.mp h
  obtain ⟨exts3, h3, h⟩ := Res.bind_eq_ok.mp h
  obtain ⟨exts4, h4, h⟩ := Res.bind_eq_ok.mp h
  obtain ⟨exts5, h5, h⟩ := Res.bind_eq_ok.mp h
  cases h
  simp only [h1, Res.ok_bind, h2, h3, h4, h5, Option.getD_some]

/-- **The certificate** has what it was given exactly if all of it is the
extension that `i` still points at. -/
theorem acKeeps_iff {ac : Ac} (h : a.write S none = .ok ac) :
    AcKeeps S a extensions ↔ AllAt extensions a.leftover := by
  have hwrite := h
  unfold AcArguments.write writeac at h
  obtain ⟨time1, htime1, h⟩ := Res.bind_eq_ok.mp h
  obtain ⟨time2, htime2, h⟩ := Res.bind_eq_ok.mp h
  obtain ⟨attrs, hattrs, h⟩ := Res.bind_eq_ok.mp h
  obtain ⟨own, hown, h⟩ := Res.bind_eq_ok.mp h
  cases h
  have hsome : a.write S (some extensions) = (do
      let exts ← copyAt AcErr.AC_ERR_UNKNOWN own extensions a.leftover extensions.length
      pure (signInfo S a.issuerc a.pkey (fillInfo a.issuerc a.holder a.s a.old time1 time2
        (makeCapabilities a.fqan a.vo a.uri) exts))) := by
    simp only [AcArguments.write, writeac, htime1, htime2, hattrs, Res.ok_bind,
      makeExtensions_some hown, parseAttributes_length hattrs, copyExtensions_eq_copyAt,
      AcArguments.leftover]
  rw [← copyAt_self_iff]
  unfold AcKeeps
  rw [hsome]
  constructor
  · rintro ⟨ac, ac', info, info', own', hac, hac', hinfo, hinfo', hexts, hexts'⟩
    obtain ⟨exts, hcopy, hac'⟩ := Res.bind_eq_ok.mp hac'
    cases hwrite.symm.trans hac
    cases hinfo
    cases hac'
    cases hinfo'
    cases hexts
    cases hexts'
    exact hcopy
  · intro hcopy
    exact ⟨_, _, _, _, own, hwrite, by rw [hcopy]; rfl, rfl, rfl, rfl, rfl⟩

end

/-! ## `VOMS_MakeProxy` -/

section

variable {P : Library} {args : ProxyArguments}

theorem extensions_of_proxySign {S : Ssl} {userCert : Option X509} {key : Option EvpPKey}
    {req : X509Req} {seconds : Int32} {extensions : Option (List X509Ext)} {limited : Bool}
    {ver : Int} {newdn newissuer : Option Str} {past : Int32} {serial : Option Str}
    {selfsigned : Bool} {cert : NewCert}
    (h : proxySign S userCert key req seconds extensions limited ver newdn newissuer past serial
      selfsigned = .ok cert) : cert.info.extensions = extensions := by
  unfold proxySign at h
  obtain ⟨newcn, -, h⟩ := Res.bind_eq_ok.mp h
  obtain ⟨subjectName, -, h⟩ := Res.bind_eq_ok.mp h
  exact (proxySignExt_ok h).2

theorem extensions_of_signProxy {req : X509Req} {npkey : Option EvpPKey} {exts : List X509Ext}
    {cert : NewCert} (h : signProxy P args req npkey exts = .ok cert) :
    cert.info.extensions = some exts := by
  unfold signProxy at h
  dsimp only at h
  split at h
  · exact extensions_of_proxySign h
  · exact extensions_of_proxySign h

/-- **The proxy** has what it was given exactly if all of it is the first
extension. -/
theorem proxyKeeps_iff {extensions : List X509Ext} {proxy : VomsProxy} {warning : ProxyWarning}
    (hargs : args.extensions = some extensions)
    (h : makeProxy P args = .ok (proxy, warning)) :
    ProxyKeeps P args extensions proxy ↔ AllAt extensions 0 := by
  unfold makeProxy at h
  obtain ⟨⟨req, npkey⟩, hreq, h⟩ := Res.bind_eq_ok.mp h
  obtain ⟨exts, hexts, h⟩ := Res.bind_eq_ok.mp h
  obtain ⟨⟨own, warning'⟩, hown, h⟩ := Res.bind_eq_ok.mp h
  obtain ⟨ncert, hncert, h⟩ := Res.bind_eq_ok.mp h
  cases h
  have hcert := extensions_of_signProxy (Res.mapErr_eq_ok.mp hncert)
  rw [hargs, Option.getD_some] at hexts
  have hself : copyAt noError [] extensions 0 extensions.length = .ok ([] ++ extensions) ↔
      AllAt extensions 0 := copyAt_self_iff
  rw [hexts, Res.ok.injEq, List.nil_append] at hself
  rw [← hself]
  constructor
  · rintro ⟨req', npkey', own', warning'', hreq', hown', hkept⟩
    cases hreq.symm.trans hreq'
    cases hown.symm.trans hown'
    rw [hcert] at hkept
    exact List.append_cancel_right (Option.some.inj hkept)
  · rintro rfl
    exact ⟨req, npkey, own, _, hreq, hown, hcert⟩

end

/-- **Given extensions arrive**, each once and in their order, exactly if
they are all the one extension that the stale index points at: the element
with the number of certificates of the chain (or of attributes) for
`writeac`, the first for `VOMS_MakeProxy`. -/
theorem extensions_kept_iff (S : Signer) (a : AcArguments) (P : Library) (args : ProxyArguments)
    (extensions : List X509Ext) (ac : Ac) (proxy : VomsProxy) (warning : ProxyWarning)
    (hac : a.write S none = .ok ac) (hargs : args.extensions = some extensions)
    (hproxy : makeProxy P args = .ok (proxy, warning)) :
    (AcKeeps S a extensions ↔ AllAt extensions a.leftover) ∧
      (ProxyKeeps P args extensions proxy ↔ AllAt extensions 0) :=
  ⟨acKeeps_iff hac, proxyKeeps_iff hargs hproxy⟩

namespace Sample

def library : Library where
  ssl := Voms.L3.Sample.ssl
  genreq _ _ _ := some (Voms.L3.Sample.request, ⟨7⟩)
  readfromfile _ := .error .PROXY_ERROR_OPEN_FILE
  txt2obj _ := none
  sn2obj _ := none
  asn1IntegerSet _ := ⟨false, []⟩
  proxynative := true
  conf type _ := if type = .basicConstraints then some ⟨.other 19, false, .raw ['0', '\x00']⟩ else none
  confAcseq _ := none
  confProxyCertInfo _ _ := none
  confSubjectKeyId _ := none
  confAuthorityKeyId _ := some ⟨.authorityKeyIdentifier, false, .keyId ⟨none, none, none⟩⟩
  confAuthorityKeyIdOfKey _ := none
  keyUsage _ := none
  keyUsageExt _ := none

/-- A proxy of the old kind for the user, for an hour. -/
def arguments (extensions : List X509Ext) : ProxyArguments where
  proxyrequest := none
  filename := none
  aclist := none
  proxyversion := 2
  data := []
  newsubject := none
  cert := some Voms.L1.Sample.user
  key := some ⟨21⟩
  bits := 1024
  policyfile := none
  policylang := none
  policytext := none
  pathlength := -1
  hours := 1
  minutes := 0
  limited := false
  voID := some []
  extensions := some extensions
  chain := []
  pastproxy := 0
  keyusage := none
  netscape := none
  exkusage := none
  newissuer := none
  newserial := none
  selfsigned := false

def extra (oid : Nat) : X509Ext := ⟨.other oid, false, .raw []⟩

def acArguments : AcArguments where
  issuerc := Voms.L1.Sample.server
  issuerstack := none
  holder := Voms.L1.Sample.user
  pkey := ⟨20⟩
  s := ⟨false, [1]⟩
  fqan := ["/vo".toList]
  t := none
  attributes := []
  vo := some "vo".toList
  uri := some "host:1".toList
  valid := 43200
  old := false
  startpast := 0

end Sample

/-- Of two extensions the first arrives twice. -/
theorem extensions_lost :
    ¬ ∀ (S : Signer) (a : AcArguments) (P : Library) (args : ProxyArguments)
      (extensions : List X509Ext) (ac : Ac) (proxy : VomsProxy) (warning : ProxyWarning),
      a.write S none = .ok ac → args.extensions = some extensions →
      makeProxy P args = .ok (proxy, warning) →
      AcKeeps S a extensions ∧ ProxyKeeps P args extensions proxy := by
  intro h
  have hkept := h Voms.L2.Sample.signer Sample.acArguments Sample.library
    (Sample.arguments [Sample.extra 1, Sample.extra 2]) [Sample.extra 1, Sample.extra 2] _ _ _
    rfl rfl rfl
  obtain ⟨ac, ac', info, info', own, hac, hac', hinfo, hinfo', hexts, hexts'⟩ := hkept.1
  cases hac
  cases hac'
  cases hinfo
  cases hinfo'
  cases hexts
  exact absurd hexts' (by decide)

theorem extensions_kept_iff_one :
    ∃ ac proxy warning, Sample.acArguments.write Voms.L2.Sample.signer none = .ok ac ∧
      makeProxy Sample.library (Sample.arguments [Sample.extra 1]) = .ok (proxy, warning) ∧
      (AcKeeps Voms.L2.Sample.signer Sample.acArguments [Sample.extra 1] ↔
        AllAt [Sample.extra 1] Sample.acArguments.leftover) ∧
      (ProxyKeeps Sample.library (Sample.arguments [Sample.extra 1]) [Sample.extra 1] proxy ↔
        AllAt [Sample.extra 1] 0) := by
  refine ⟨_, _, _, rfl, rfl, ?_⟩
  exact extensions_kept_iff Voms.L2.Sample.signer Sample.acArguments Sample.library
    (Sample.arguments [Sample.extra 1]) [Sample.extra 1] _ _ _ rfl rfl rfl

end Voms.L3.MakeProxy
