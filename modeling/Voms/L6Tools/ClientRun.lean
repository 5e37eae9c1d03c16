import Voms.L3Trust.Mktime
import Voms.L3Trust.ProxyFile
import Voms.L3Trust.SigningPolicy
import Voms.L4Api.Answers
import Voms.L4Api.Policy
import Voms.L4Api.Vomses
import Voms.L5Server.Rest

/-!
# A run of `voms-proxy-init`

`Client::Run` (`src/client/vomsclient.cc`) merges the requests for one VO, asks
the servers of each VO until one answers with an AC, and writes a proxy with
all of them. For each server it makes a temporary proxy, whose file it removes.

* `run_zero`: what exit status 0 says about the requests, the servers that
  were asked, the ACs and the proxy.
* `run_outfile`: the output changes only when every VO was served.
* `temporary_removed`: the file of the temporary proxy does not stay, unless
  the program ends in `FQANParse`.

The servers are any: each call of `ContactRaw` has its own answer, and the list
of servers is shuffled. The options are as the constructor leaves them, the
environment is left out, `listadd` succeeds, and what is printed is not
modelled. An answer without an AC leaves the buffer as it was, so that the AC
that is read may have come with an error of an earlier server.
-/
namespace Voms.L6.ClientRun

open Voms.Core Voms.L1 Voms.L2 Voms.L3 Voms.L3.MakeProxy Voms.L3.ProxyFile Voms.L4 Voms.L5

/-! ## The requests -/

/-- mirrors src/client/contact.hpp:28-69 -/
structure Contact where
  vo : Str
  fqan : Str
  nick : Str
  deriving DecidableEq, Repr

/-- mirrors src/client/contact.hpp:33-48 -/
def Contact.new (s : Str) : Contact :=
  if ':' ∈ s then
    let vo := s.takeWhile (· ≠ ':')
    ⟨vo, (s.dropWhile (· ≠ ':')).drop 1, vo⟩
  else ⟨[], [], s⟩

/-- What is asked for, by default the group of the VO.
mirrors src/client/vomsclient.cc:669, 686 -/
def Contact.request (c : Contact) (vo : Str) : Str := if c.fqan = [] then '/' :: vo else c.fqan

/-- mirrors src/api/ccapi/voms_api.cc:806-819 -/
def findByAlias (servers : List Contactdata) (nick : Str) : List Contactdata :=
  servers.filter fun server => server.nick = nick

/-- The later requests for the same VO, and what is left of the list, in which
each of them is made empty. mirrors src/client/vomsclient.cc:679-689 -/
def merge (vo nick : Str) : List Str → List Str × List Str
  | [] => ([], [])
  | item :: rest =>
    let tmp := Contact.new item
    let (fqans, left) := merge vo nick rest
    if tmp.vo = vo ∨ tmp.nick = nick then (tmp.request vo :: fqans, [] :: left)
    else (fqans, item :: left)

/-! ## The run -/

/-- The options, and the credentials of the user. -/
structure Settings where
  vomses : List Str
  listing : Bool
  noregen : Bool
  ignorewarn : Bool
  failonwarn : Bool
  dontverifyac : Bool
  separate : Str
  acfile : Str
  incfile : Str
  outfile : Str
  bits : Int
  hours : Int32
  minutes : Int32
  proxyver : Int
  policyfile : Str
  policylang : Str
  pathlength : Int
  limited : Bool
  voID : Str
  ucert : X509
  certChain : List X509
  privateKey : EvpPKey

/-- What is around the program. The servers answer the n-th call of
`ContactRaw` as they like; each call of `CreateProxy` has its own key and
system calls. -/
structure System where
  client : L4.Client
  servers : List Contactdata
  shuffle : Nat → List Contactdata → List Contactdata
  shuffle_perm : ∀ n l, (shuffle n l).Perm l
  network : Contactdata → Str → Network
  library : Nat → Library
  calls : Nat → Calls
  x509 : NewCert → X509
  reader : Reader
  tmpname : Str
  unlinks : Nat → Bool
  /-- `BIO_write_filename` or `ofstream`, the mode of a file they make, and the
  writes of ACs. -/
  opens : Str → Bool
  mode : Nat
  acWrites : Nat → Bool
  now : Int
  /-- `proxy_verify_cert_chain`. -/
  verifyCertChain : Option X509 → Option (List X509) → Bool

/-- The members that change. `asked` is what `ContactRaw` was called with. -/
structure State where
  v : VomsData
  aclist : Option (List Ac)
  data : Str
  disk : Disk
  asked : List (Contactdata × Str)
  created : Nat

section

variable (Y : System) (c : Settings)

/-- mirrors src/client/vomsclient.cc:852-888 -/
def proxyArguments (data : Str) (aclist : Option (List Ac)) (version : Int) (hours : Int32) :
    ProxyArguments where
  proxyrequest := none
  filename := if c.incfile = [] then none else some c.incfile
  aclist := aclist
  proxyversion := version
  data := data
  newsubject := none
  cert := some c.ucert
  key := some c.privateKey
  bits := c.bits
  policyfile := if c.policyfile = [] then none else some c.policyfile
  policylang := if c.policylang = [] then none else some c.policylang
  policytext := none
  pathlength := c.pathlength
  hours := hours
  minutes := c.minutes
  limited := c.limited
  voID := some c.voID
  extensions := none
  chain := c.certChain
  pastproxy := 0
  keyusage := none
  netscape := none
  exkusage := none
  newissuer := none
  newserial := none
  selfsigned := false

/-- The result is only whether the file cannot be written: a proxy that cannot
be made, or a file that is not written to its end, is no failure.
mirrors src/client/vomsclient.cc:850-916 -/
def createProxy (proxyfile data : Str) (aclist : Option (List Ac)) (version : Int) (hours : Int32)
    (s : State) : Eval (Bool × State) :=
  let after := { s with created := s.created + 1 }
  match makeProxy (Y.library s.created) (proxyArguments c data aclist version hours) with
  | .fault f => .fault f
  | .err _ => pure (false, after)
  | .ok (proxy, _) => do
    let (ret, disk) ← writeProxy (Y.calls s.created) Y.x509 proxyfile proxy s.disk
    pure (ret = -1,
      { after with disk := disk, aclist := if aclist = s.aclist then none else s.aclist })

/-- `unlink` of the temporary proxy, unless the old one is used. -/
def unlinkTemporary (s : State) : State :=
  if c.noregen ∨ !Y.unlinks s.created then s
  else { s with disk := Function.update s.disk Y.tmpname none }

/-- mirrors src/client/vomsclient.cc:1200-1217 -/
def getAC (data : Str) : Option Ac := (Y.client.d2iAcAt data).map Prod.fst

/-- How the loop over the servers of a VO ends, and the loop over the VOs. -/
inductive Ended where
  | served
  | stopped (code : Int)
  deriving DecidableEq, Repr

/-- The temporary proxy for a server; it lasts an hour, and the minutes.
mirrors src/client/vomsclient.cc:703-712 -/
def temporaryProxy (server : Contactdata) (s : State) : Eval (Bool × State) :=
  if c.noregen then pure (false, s)
  else createProxy Y c Y.tmpname [] none
    (if server.version = -1 then c.proxyver else server.version.tdiv 10) 1 s

/-- The call of `ContactRaw`; `ServerErrors` empties what it returns, and a
warning may end the program (the second component).
mirrors src/client/vomsclient.cc:719-722, 1279-1321 -/
def contactServer (server : Contactdata) (command buffer : Str) (s : State) :
    Eval (Bool × Bool × Str × State) := do
  let (status, buffer, v) ←
    contactRaw Y.client.toWire (Y.network server command) s.asked.length buffer s.v
  let warned := status && v.serverrors ≠ [] && !c.ignorewarn && c.failonwarn
  pure (status, warned, buffer,
    { s with v := { v with serverrors := [] }, asked := s.asked ++ [(server, command)] })

/-- With `-list`, an AC is read for its attributes.
mirrors src/client/vomsclient.cc:729-737 -/
def listAttributes (ac : Ac) (s : State) : Eval State := do
  let (_, v) ← retrieveAc Y.client.toFiles (some ac) s.v
  match v.data with
  | vv :: _ => pure { s with v := v, data := s.data ++ vv.fqan.flatMap (· ++ ['\n']) }
  | [] =>
    let v := v.seterror .VERR_NOEXT "No VOMS extensions have been processed.".toList
    pure { s with v := v }

/-- The loop over the servers of a VO.
mirrors src/client/vomsclient.cc:700-773 -/
def contactServers (command : Str) : List Contactdata → Str → State → Eval (Ended × State)
  | [], _, s => pure (.served, s)
  | server :: rest, buffer, s => do
    let (failed, s) ← temporaryProxy Y c server s
    if failed then pure (.stopped 1, s)
    else do
      let (status, warned, buffer, s) ← contactServer Y c server command buffer s
      let next : Eval (Ended × State) :=
        if rest = [] then pure (.stopped 1, unlinkTemporary Y c s)
        else contactServers command rest buffer s
      if warned then pure (.stopped 1, unlinkTemporary Y c s)
      else if status then
        match getAC Y buffer with
        | some ac =>
          if c.listing then do
            let s ← listAttributes Y ac s
            pure (.served, s)
          else pure (.served, { s with aclist := listadd s.aclist (some ac) })
        | none =>
          if c.listing then pure (.served, { s with data := s.data ++ buffer })
          else next
      else next

/-- What is asked for one VO: the command, and the list of requests that is
left. mirrors src/client/vomsclient.cc:665-692 -/
def commandFor (contact : Contact) (servers : List Contactdata) (rest : List Str) :
    Eval (Option Str × List Str) :=
  do
    let vo ←
      (if contact.vo = [] then do
        match servers with
        | server :: _ => pure server.vo
        | [] => .fault .outOfRange
      else pure contact.vo)
    if c.listing then pure (some ['A'], rest)
    else
      let (fqans, rest) := merge vo contact.nick rest
      pure (parseFqan (contact.request vo :: fqans), rest)

/-- The loop over the requests, with at most `turns` of them; a capability in
one of them ends the program. mirrors src/client/vomsclient.cc:650-774 -/
def contactVos : Nat → List Str → State → Eval (Ended × State)
  | 0, _, s => pure (.served, s)
  | _ + 1, [], s => pure (.served, s)
  | turns + 1, item :: rest, s =>
    if item = [] then contactVos turns rest s
    else do
      let contact := Contact.new item
      let servers := Y.shuffle s.asked.length (findByAlias Y.servers contact.nick)
      match ← commandFor c contact servers rest with
      | (none, _) => pure (.stopped 1, s)
      | (some command, rest) => do
        let s := if c.listing then { s with v := { s.v with verType := 0 } } else s
        match ← contactServers Y c command servers [] s with
        | (.served, s) => contactVos turns rest s
        | (.stopped code, s) => pure (.stopped code, s)

/-! ## The end of the run -/

/-- A file that is opened for writing keeps its owner and mode. -/
def overwrite (disk : Disk) (name : Str) (pieces : List PemPiece) : Disk :=
  Function.update disk name (some (match disk name with
    | some file => { file with pieces := pieces }
    | none => ⟨Y.reader.uid, Y.mode, pieces⟩))

/-- `PEM_ASN1_write_bio` for each AC, up to the first that fails. -/
def writeAcs : Nat → List Ac → Bool × List PemPiece
  | _, [] => (true, [])
  | n, ac :: acs =>
    if Y.acWrites n then
      let (ok, pieces) := writeAcs (n + 1) acs
      (ok, .attributeCertificate (some ac) :: pieces)
    else (false, [])

/-- The ACs, then the data. mirrors src/client/vomsclient.cc:949-998 -/
def writeSeparate (s : State) : Bool × State :=
  let acfilename := c.separate ++ (if s.data = [] then [] else ".ac".toList)
  let (ok, s) :=
    match s.aclist with
    | none => (true, s)
    | some acs =>
      if Y.opens acfilename then
        let (ok, pieces) := writeAcs Y 0 acs
        (ok, { s with disk := overwrite Y s.disk acfilename pieces })
      else (false, s)
  if !ok then (false, s)
  else if s.data = [] then (true, s)
  else
    let datafilename := c.separate ++ ".data".toList
    if Y.opens datafilename then
      (true, { s with disk := overwrite Y s.disk datafilename [.text s.data] })
    else (false, s)

/-- mirrors src/client/vomsclient.cc:931-947 -/
def readSeparate (disk : Disk) (file : Str) : Option Ac := do
  let file ← disk file
  readBlock PemPiece.ac? file.pieces

/-- The certificate has expired, or will before the proxy.
mirrors src/client/vomsclient.cc:1049-1083 -/
def test : Eval Bool := do
  let timeAfter ← asn1UtctimeMktime c.ucert.notAfter
  let timeDiff := timeAfter - Y.now
  let length := c.hours * 60 * 60 + c.minutes * 60
  pure (timeDiff < 0 || c.hours ≠ 0 && timeDiff < length.toInt)

/-- mirrors src/client/vomsclient.cc:1000-1047 -/
def verify (s : State) : Eval (Int × State) := do
  let read ← loadCredentials Y.reader s.disk (some c.outfile) (some c.outfile) true false
  let cert := read.map Credentials.cert
  let chain := read.bind Credentials.stack
  if Y.verifyCertChain cert chain then
    if c.dontverifyac then pure (0, s)
    else do
      let (ok, v) ← retrieveCert Y.client cert chain .RECURSE_CHAIN s.v
      pure (if ok || v.error = .VERR_NOEXT then 0 else 1, { s with v := v })
  else pure (1, s)

/-- The AC of `-includeac` is added to those of the servers.
mirrors src/client/vomsclient.cc:801-809 -/
def includeAc (s : State) : Option State :=
  if c.acfile = [] then some s
  else (readSeparate s.disk c.acfile).map fun ac => { s with aclist := listadd s.aclist (some ac) }

/-- mirrors src/client/vomsclient.cc:778-839 -/
def finish (s : State) : Eval (Int × State) :=
  if c.separate ≠ [] ∧ (s.data ≠ [] ∨ s.aclist.isSome) then
    let (ok, s) := writeSeparate Y c s
    pure (if ok then 0 else 1, s)
  else if c.listing then pure (0, s)
  else
    match includeAc c s with
    | none => pure (1, s)
    | some s => do
      let (failed, s) ← createProxy Y c c.outfile s.data s.aclist c.proxyver c.hours s
      if failed then pure (1, s)
      else if ← test Y c then pure (1, s)
      else verify Y c s

/-- mirrors src/client/vomsclient.cc:624-848 -/
def run (s : State) : Eval (Int × State) := do
  match ← contactVos Y c c.vomses.length c.vomses s with
  | (.served, s) => finish Y c (unlinkTemporary Y c s)
  | (.stopped code, s) => pure (code, s)

/-- The VOs that are looked at have a server.
mirrors src/client/vomsclient.cc:575-592 -/
def preliminary : Bool :=
  (if c.listing then c.vomses.take 1 else c.vomses).all fun item =>
    let contact := Contact.new item
    findByAlias Y.servers (if contact.vo = [] then contact.nick else contact.vo) ≠ []

end

/-! ## One proxy -/

section

variable {Y : System} {c : Settings} {s s' : State}

/-- Nothing has changed but the file of that name, and how many proxies were
created. -/
structure Touches (name : Str) (s s' : State) : Prop where
  disk : ∀ p, p ≠ name → s'.disk p = s.disk p
  v : s'.v = s.v
  data : s'.data = s.data
  asked : s'.asked = s.asked

theorem createProxy_eq {file data : Str} {aclist : Option (List Ac)} {version : Int} {hours : Int32}
    {failed : Bool} (h : createProxy Y c file data aclist version hours s = .ok (failed, s')) :
    let made := makeProxy (Y.library s.created) (proxyArguments c data aclist version hours)
    (∃ report, made = .err report ∧ failed = false ∧ s' = { s with created := s.created + 1 }) ∨
    ∃ proxy warning ret disk, made = .ok (proxy, warning) ∧
      writeProxy (Y.calls s.created) Y.x509 file proxy s.disk = .ok (ret, disk) ∧
      failed = decide (ret = -1) ∧ s' = { s with
        created := s.created + 1
        disk := disk
        aclist := if aclist = s.aclist then none else s.aclist } := by
  intro made
  unfold createProxy at h
  dsimp only at h
  rcases hmade : made with ⟨proxy, warning⟩ | report | f
  all_goals
    rw [show makeProxy _ _ = made from rfl, hmade] at h
    dsimp only at h
  · obtain ⟨⟨ret, disk⟩, hwrite, h⟩ := Res.bind_eq_ok.mp h
    obtain ⟨rfl, rfl⟩ := Prod.mk.inj (Res.ok.inj h)
    exact .inr ⟨proxy, warning, ret, disk, rfl, hwrite, rfl, rfl⟩
  · obtain ⟨rfl, rfl⟩ := Prod.mk.inj (Res.ok.inj h)
    exact .inl ⟨report, rfl, rfl, rfl⟩
  · cases h

theorem createProxy_touches {file data : Str} {aclist : Option (List Ac)} {version : Int}
    {hours : Int32} {failed : Bool}
    (h : createProxy Y c file data aclist version hours s = .ok (failed, s')) :
    Touches file s s' := by
  rcases createProxy_eq h with ⟨-, -, -, rfl⟩ | ⟨proxy, -, ret, disk, -, hwrite, -, rfl⟩
  · exact ⟨fun _ _ => rfl, rfl, rfl, rfl⟩
  · exact ⟨(writeProxy_private hwrite).1, rfl, rfl, rfl⟩

theorem temporaryProxy_touches {server : Contactdata} {failed : Bool}
    (h : temporaryProxy Y c server s = .ok (failed, s')) :
    Touches Y.tmpname s s' ∧ s'.aclist = s.aclist := by
  unfold temporaryProxy at h
  split at h
  · obtain ⟨-, rfl⟩ := Prod.mk.inj (Res.ok.inj h)
    exact ⟨⟨fun _ _ => rfl, rfl, rfl, rfl⟩, rfl⟩
  · refine ⟨createProxy_touches h, ?_⟩
    rcases createProxy_eq h with ⟨-, -, -, rfl⟩ | ⟨-, -, -, -, -, -, -, rfl⟩
    · rfl
    · dsimp only
      split
      · next hnone => exact hnone
      · rfl

theorem unlinkTemporary_touches (s : State) : Touches Y.tmpname s (unlinkTemporary Y c s) ∧
    (unlinkTemporary Y c s).aclist = s.aclist := by
  unfold unlinkTemporary
  split
  · exact ⟨⟨fun _ _ => rfl, rfl, rfl, rfl⟩, rfl⟩
  · exact ⟨⟨fun p hp => Function.update_of_ne hp _ _, rfl, rfl, rfl⟩, rfl⟩

theorem Touches.trans {name : Str} {s'' : State} (h : Touches name s s')
    (h' : Touches name s' s'') : Touches name s s'' :=
  ⟨fun p hp => (h'.disk p hp).trans (h.disk p hp), h'.v.trans h.v, h'.data.trans h.data,
    h'.asked.trans h.asked⟩

/-! ## The servers of one VO -/

/-- The AC that is in the buffer after the call with this number, if the call
succeeds. -/
def Answers (Y : System) (n : Nat) (server : Contactdata) (command : Str) (answer : Option Ac) :
    Prop :=
  ∃ buffer v v' status message,
    contactRaw Y.client.toWire (Y.network server command) n buffer v = .ok (status, message, v') ∧
    answer = if status then getAC Y message else none

/-- The servers of a list are asked from call `n` on, and the one behind it is
the first that gives an AC. -/
inductive Tried (Y : System) (command : Str) (server : Contactdata) (ac : Ac) :
    Nat → List Contactdata → Prop where
  | answered {n} (h : Answers Y n server command (some ac)) : Tried Y command server ac n []
  | refused {n other refused} (h : Answers Y n other command none)
      (rest : Tried Y command server ac (n + 1) refused) :
      Tried Y command server ac n (other :: refused)

/-- Nothing has changed but the temporary proxy and `v`, and what was asked. -/
structure Contacted (Y : System) (command : Str) (servers : List Contactdata) (s s' : State) :
    Prop where
  disk : ∀ p, p ≠ Y.tmpname → s'.disk p = s.disk p
  data : s'.data = s.data
  asked : s'.asked = s.asked ++ servers.map fun server => (server, command)

theorem contactServer_eq {server : Contactdata} {command buffer buffer' : Str}
    {status warned : Bool}
    (h : contactServer Y c server command buffer s = .ok (status, warned, buffer', s')) :
    Answers Y s.asked.length server command (if status then getAC Y buffer' else none) ∧
    s'.disk = s.disk ∧ s'.data = s.data ∧ s'.aclist = s.aclist ∧ s'.created = s.created ∧
    s'.asked = s.asked ++ [(server, command)] := by
  obtain ⟨⟨status', message, v⟩, hraw, h⟩ := Res.bind_eq_ok.mp h
  simp only [Res.pure_eq, Res.ok.injEq, Prod.mk.injEq] at h
  obtain ⟨rfl, -, rfl, rfl⟩ := h
  exact ⟨⟨_, _, _, _, _, hraw, rfl⟩, rfl, rfl, rfl, rfl, rfl⟩

theorem Contacted.cons {server : Contactdata} {command : Str} {servers : List Contactdata}
    {s1 s2 : State} (htemp : Touches Y.tmpname s s1) (hdisk : s2.disk = s1.disk)
    (hdata : s2.data = s1.data) (hasked : s2.asked = s1.asked ++ [(server, command)])
    (h : Contacted Y command servers s2 s') : Contacted Y command (server :: servers) s s' where
  disk := fun p hp => (h.disk p hp).trans ((congrFun hdisk p).trans (htemp.disk p hp))
  data := h.data.trans (hdata.trans htemp.data)
  asked := by
    rw [h.asked, hasked, htemp.asked, List.append_assoc]
    rfl

theorem Contacted.nil {command : Str} (h : Touches Y.tmpname s s') :
    Contacted Y command [] s s' :=
  ⟨h.disk, h.data, by rw [h.asked, List.map_nil, List.append_nil]⟩

/-- The servers of a VO are asked in order until one gives an AC; or else the
program stops, and nothing has been written. -/
theorem contactServers_eq {command : Str} (hlisting : c.listing = false) :
    ∀ {servers : List Contactdata} {buffer : Str} {s s' : State} {ended : Ended}, servers ≠ [] →
      contactServers Y c command servers buffer s = .ok (ended, s') →
      (∃ refused server ac, ended = .served ∧ refused ++ [server] <+: servers ∧
        Tried Y command server ac s.asked.length refused ∧
        Contacted Y command (refused ++ [server]) s s' ∧
        s'.aclist = listadd s.aclist (some ac)) ∨
      ∃ asked, ended = .stopped 1 ∧ asked <+: servers ∧ Contacted Y command asked s s'
  | [], _, _, _, _, hne, _ => absurd rfl hne
  | server :: rest, buffer, s, s', ended, _, h => by
    unfold contactServers at h
    obtain ⟨⟨failed, s1⟩, htemp, h⟩ := Res.bind_eq_ok.mp h
    obtain ⟨htouch, hacs⟩ := temporaryProxy_touches htemp
    dsimp only at h
    split at h
    · obtain ⟨rfl, rfl⟩ := Prod.mk.inj (Res.ok.inj h)
      exact .inr ⟨[], rfl, List.nil_prefix, .nil htouch⟩
    obtain ⟨⟨status, warned, buffer', s2⟩, hcontact, h⟩ := Res.bind_eq_ok.mp h
    obtain ⟨hanswer, hdisk, hdata, hacs2, -, hasked⟩ := contactServer_eq hcontact
    rw [htouch.asked] at hanswer
    have hcons : ∀ {servers s'}, Contacted Y command servers s2 s' →
        Contacted Y command (server :: servers) s s' := .cons htouch hdisk hdata hasked
    -- the next server, if there is one
    have hnext : ∀ {ended s'}, (if status then getAC Y buffer' else none) = none →
        (if rest = [] then pure (.stopped 1, unlinkTemporary Y c s2)
          else contactServers Y c command rest buffer' s2) = Res.ok (ended, s') →
        (∃ refused server' ac, ended = .served ∧ refused ++ [server'] <+: server :: rest ∧
          Tried Y command server' ac s.asked.length refused ∧
          Contacted Y command (refused ++ [server']) s s' ∧
          s'.aclist = listadd s.aclist (some ac)) ∨
        ∃ asked, ended = .stopped 1 ∧ asked <+: server :: rest ∧
          Contacted Y command asked s s' := by
      intro ended s' hnone h
      split at h
      · obtain ⟨rfl, rfl⟩ := Prod.mk.inj (Res.ok.inj h)
        exact .inr ⟨[server], rfl, by simp, hcons (.nil (unlinkTemporary_touches s2).1)⟩
      · next hrest =>
        rcases contactServers_eq hlisting hrest h with
          ⟨refused, server', ac, rfl, hpre, htried, hcontacted, hlist⟩ |
          ⟨asked, rfl, hpre, hcontacted⟩
        · refine .inl ⟨server :: refused, server', ac, rfl, ?_, .refused (hnone ▸ hanswer) ?_,
            hcons hcontacted, ?_⟩
          · exact List.cons_prefix_cons.mpr ⟨rfl, hpre⟩
          · rwa [hasked, htouch.asked, List.length_append] at htried
          · rw [hlist, hacs2, hacs]
        · exact .inr ⟨server :: asked, rfl, List.cons_prefix_cons.mpr ⟨rfl, hpre⟩, hcons hcontacted⟩
    dsimp only at h
    rw [hlisting] at h
    split at h
    · -- a warning that is an error
      obtain ⟨rfl, rfl⟩ := Prod.mk.inj (Res.ok.inj h)
      exact .inr ⟨[server], rfl, by simp, hcons (.nil (unlinkTemporary_touches s2).1)⟩
    · cases status with
      | false => exact hnext rfl h
      | true =>
        rcases hac : getAC Y buffer' with _ | ac
        all_goals
          rw [hac] at h hanswer
        · exact hnext hac h
        · obtain ⟨rfl, rfl⟩ := Prod.mk.inj (Res.ok.inj h)
          refine .inl ⟨[], server, ac, rfl, by simp, .answered hanswer, ?_, ?_⟩
          · exact hcons ⟨fun _ _ => rfl, rfl, by simp⟩
          · rw [← hacs, ← hacs2]

/-! ## The requests of one VO -/

/-- The request is for the VO. -/
def Same (vo nick : Str) (item : Str) : Prop :=
  (Contact.new item).vo = vo ∨ (Contact.new item).nick = nick

instance (vo nick : Str) : DecidablePred (Same vo nick) :=
  fun _ => inferInstanceAs (Decidable (_ ∨ _))

theorem merge_eq (vo nick : Str) : ∀ items : List Str, merge vo nick items =
    ((items.filter (Same vo nick ·)).map fun item => (Contact.new item).request vo,
      items.map fun item => if Same vo nick item then [] else item)
  | [] => rfl
  | item :: rest => by
    unfold merge
    rw [merge_eq vo nick rest, List.map_cons]
    by_cases h : Same vo nick item
    · rw [List.filter_cons_of_pos (by simpa using h), if_pos h]
      exact if_pos h
    · rw [List.filter_cons_of_neg (by simpa using h), if_neg h]
      exact if_neg h

theorem not_same_nil {vo nick : Str} (hvo : vo ≠ []) (hnick : nick ≠ []) : ¬ Same vo nick [] := by
  rintro (h | h)
  · exact hvo h.symm
  · exact hnick h.symm

/-- What is left is the rest. -/
theorem left_eq {vo nick : Str} (items : List Str) :
    (items.map fun item => if Same vo nick item then [] else item).filter (· ≠ []) =
      (items.filter (· ≠ [])).filter (¬ Same vo nick ·) := by
  induction items with
  | nil => rfl
  | cons item items ih =>
    rw [List.map_cons]
    by_cases h : Same vo nick item
    · rw [if_pos h, List.filter_cons_of_neg (by simp), ih]
      by_cases hnil : item = []
      · rw [List.filter_cons_of_neg (by simpa using hnil)]
      · rw [List.filter_cons_of_pos (by simpa using hnil),
          List.filter_cons_of_neg (by simpa using h)]
    · rw [if_neg h]
      by_cases hnil : item = []
      · rw [List.filter_cons_of_neg (by simpa using hnil),
          List.filter_cons_of_neg (by simpa using hnil), ih]
      · rw [List.filter_cons_of_pos (by simpa using hnil),
          List.filter_cons_of_pos (by simpa using hnil),
          List.filter_cons_of_pos (by simpa using h), ih]

/-- The requests for a VO, and how it was served: the servers that were asked
first, and the one that gave the AC. -/
structure Group where
  vo : Str
  first : Str
  others : List Str
  command : Str
  refused : List Contactdata
  server : Contactdata
  ac : Ac

def Group.items (g : Group) : List Str := g.first :: g.others

def Group.servers (g : Group) : List Contactdata := g.refused ++ [g.server]

def Group.asked (g : Group) : List (Contactdata × Str) :=
  g.servers.map fun server => (server, g.command)

/-- From call `n` on the VO is served: its servers, those with the alias of
the first request, were asked in the order they were shuffled into, for all
that is requested of the VO. -/
structure Group.Served (Y : System) (n : Nat) (g : Group) : Prop where
  vo : g.vo = (Contact.new g.first).vo ∨ ∃ server ∈ Y.servers,
    server.nick = (Contact.new g.first).nick ∧ g.vo = server.vo
  others : ∀ item ∈ g.others, Same g.vo (Contact.new g.first).nick item
  command : parseFqan (g.items.map fun item => (Contact.new item).request g.vo) = some g.command
  order : g.servers <+: Y.shuffle n (findByAlias Y.servers (Contact.new g.first).nick)
  tried : Tried Y g.command g.server g.ac n g.refused

/-- The groups are served one after the other, and what is requested later is
for another VO. -/
inductive Serves (Y : System) : Nat → List Group → Prop where
  | nil {n} : Serves Y n []
  | cons {n g gs} (served : g.Served Y n) (rest : Serves Y (n + g.servers.length) gs)
      (apart : ∀ g' ∈ gs, ∀ item ∈ g'.items, ¬ Same g.vo (Contact.new g.first).nick item) :
      Serves Y n (g :: gs)

theorem commandFor_eq {contact : Contact} {servers : List Contactdata} {rest rest' : List Str}
    {command : Option Str} (hlisting : c.listing = false)
    (h : commandFor c contact servers rest = .ok (command, rest')) :
    ∃ vo, ((contact.vo ≠ [] ∧ vo = contact.vo) ∨ ∃ server ∈ servers, vo = server.vo) ∧
      command = parseFqan (contact.request vo ::
        (rest.filter (Same vo contact.nick ·)).map fun item => (Contact.new item).request vo) ∧
      rest' = rest.map fun item => if Same vo contact.nick item then [] else item := by
  unfold commandFor at h
  obtain ⟨vo, hvo, h⟩ := Res.bind_eq_ok.mp h
  rw [hlisting, merge_eq] at h
  obtain ⟨rfl, rfl⟩ := Prod.mk.inj (Res.ok.inj h)
  refine ⟨vo, ?_, rfl, rfl⟩
  split at hvo
  · cases servers with
    | nil => cases hvo
    | cons server servers => exact .inr ⟨server, List.mem_cons_self, (Res.ok.inj hvo).symm⟩
  · next hne => exact .inl ⟨hne, (Res.ok.inj hvo).symm⟩

/-- One turn of the loop over the requests. -/
theorem contactVos_cons {turns : Nat} {item : Str} {rest : List Str} {ended : Ended}
    (hlisting : c.listing = false) (hitem : item ≠ [])
    (h : contactVos Y c (turns + 1) (item :: rest) s = .ok (ended, s')) :
    let contact := Contact.new item
    let servers := Y.shuffle s.asked.length (findByAlias Y.servers contact.nick)
    ∃ command rest', commandFor c contact servers rest = .ok (command, rest') ∧
      ((command = none ∧ ended = .stopped 1 ∧ s' = s) ∨
      ∃ text ended' s1, command = some text ∧
        contactServers Y c text servers [] s = .ok (ended', s1) ∧
        ((ended' = .served ∧ contactVos Y c turns rest' s1 = .ok (ended, s')) ∨
          (ended' ≠ .served ∧ ended = ended' ∧ s' = s1))) := by
  intro contact servers
  unfold contactVos at h
  rw [if_neg hitem] at h
  obtain ⟨⟨command, rest'⟩, hcommand, h⟩ := Res.bind_eq_ok.mp h
  refine ⟨command, rest', hcommand, ?_⟩
  cases command with
  | none =>
    obtain ⟨rfl, rfl⟩ := Prod.mk.inj (Res.ok.inj h)
    exact .inl ⟨rfl, rfl, rfl⟩
  | some text =>
    dsimp only at h
    rw [hlisting] at h
    obtain ⟨⟨ended', s1⟩, hservers, h⟩ := Res.bind_eq_ok.mp h
    refine .inr ⟨text, ended', s1, rfl, hservers, ?_⟩
    cases ended' with
    | served => exact .inl ⟨rfl, h⟩
    | stopped code =>
      obtain ⟨rfl, rfl⟩ := Prod.mk.inj (Res.ok.inj h)
      exact .inr ⟨nofun, rfl, rfl⟩

/-- Every alias has a name and a VO, and every request that is left has a
server. -/
structure Known (Y : System) (items : List Str) : Prop where
  named : ∀ server ∈ Y.servers, server.nick ≠ [] ∧ server.vo ≠ []
  servers : ∀ item ∈ items, item ≠ [] → findByAlias Y.servers (Contact.new item).nick ≠ []

theorem mem_findByAlias {servers : List Contactdata} {nick : Str} {server : Contactdata} :
    server ∈ findByAlias servers nick ↔ server ∈ servers ∧ server.nick = nick := by
  simp [findByAlias]

theorem Known.nick_ne {items : List Str} {item : Str} (h : Known Y items) (hmem : item ∈ items)
    (hne : item ≠ []) : (Contact.new item).nick ≠ [] := by
  intro hnick
  obtain ⟨server, hserver⟩ := List.exists_mem_of_ne_nil _ (h.servers item hmem hne)
  rw [hnick, mem_findByAlias] at hserver
  exact (h.named server hserver.1).1 hserver.2

theorem Known.vo_ne {items : List Str} {contact : Contact} {nick vo : Str} {n : Nat}
    (h : Known Y items) (hvo : (contact.vo ≠ [] ∧ vo = contact.vo) ∨
      ∃ server ∈ Y.shuffle n (findByAlias Y.servers nick), vo = server.vo) : vo ≠ [] := by
  rcases hvo with ⟨hne, rfl⟩ | ⟨server, hmem, rfl⟩
  · exact hne
  · exact (h.named server (mem_findByAlias.mp ((Y.shuffle_perm _ _).subset hmem)).1).2

theorem Known.left {items : List Str} {vo nick : Str} (h : Known Y items) :
    Known Y (items.map fun item => if Same vo nick item then [] else item) where
  named := h.named
  servers := by
    intro item hitem hne
    obtain ⟨item', hmem, rfl⟩ := List.mem_map.mp hitem
    split at hne
    · exact absurd rfl hne
    · next hnot =>
      rw [if_neg hnot]
      exact h.servers item' hmem hne

theorem Known.tail {item : Str} {rest : List Str} (h : Known Y (item :: rest)) : Known Y rest :=
  ⟨h.named, fun item' hmem => h.servers item' (List.mem_cons_of_mem _ hmem)⟩

/-! ## All the VOs -/

/-- Every request is in one of the groups, each group has its requests in the
order they were given, and there is one AC for each group. -/
structure Serving (Y : System) (items : List Str) (s s' : State) (groups : List Group) : Prop where
  serves : Serves Y s.asked.length groups
  requests : (groups.flatMap Group.items).Perm (items.filter (· ≠ []))
  inOrder : ∀ g ∈ groups, g.items.Sublist (items.filter (· ≠ []))
  asked : s'.asked = s.asked ++ groups.flatMap Group.asked
  acs : s'.aclist = groups.foldl (fun list g => listadd list (some g.ac)) s.aclist
  data : s'.data = s.data
  disk : ∀ p, p ≠ Y.tmpname → s'.disk p = s.disk p

theorem filter_same {vo nick : Str} (hnil : ¬ Same vo nick []) (items : List Str) :
    items.filter (Same vo nick ·) = (items.filter (· ≠ [])).filter (Same vo nick ·) := by
  rw [List.filter_filter]
  refine List.filter_congr fun item _ => ?_
  by_cases h : Same vo nick item
  · have hne : item ≠ [] := fun h' => hnil (h' ▸ h)
    simp [h, hne]
  · simp [h]

theorem Serving.cons {g : Group} {rest : List Str} {s1 : State} {groups : List Group}
    (hfirst : g.first ≠ []) (hvo : g.vo ≠ []) (hnick : (Contact.new g.first).nick ≠ [])
    (hserved : g.Served Y s.asked.length)
    (hothers : g.others = rest.filter (Same g.vo (Contact.new g.first).nick ·))
    (hcontacted : Contacted Y g.command g.servers s s1)
    (hacs : s1.aclist = listadd s.aclist (some g.ac))
    (h : Serving Y
      (rest.map fun item => if Same g.vo (Contact.new g.first).nick item then [] else item)
      s1 s' groups) : Serving Y (g.first :: rest) s s' (g :: groups) := by
  have hnil := not_same_nil hvo hnick
  have hrequests := h.requests
  have hinOrder := h.inOrder
  rw [left_eq] at hrequests hinOrder
  rw [filter_same hnil] at hothers
  have hitems : (g.first :: rest).filter (· ≠ []) = g.first :: rest.filter (· ≠ []) :=
    List.filter_cons_of_pos (by simpa using hfirst)
  refine ⟨.cons hserved ?_ ?_, ?_, ?_, ?_, ?_, h.data.trans hcontacted.data, ?_⟩
  · have hserves := h.serves
    rwa [hcontacted.asked, List.length_append, List.length_map] at hserves
  · intro g' hg' item hitem
    have hmem := hrequests.subset (List.mem_flatMap.mpr ⟨g', hg', hitem⟩)
    simpa using (List.mem_filter.mp hmem).2
  · rw [hitems, List.flatMap_cons, Group.items, hothers, List.cons_append]
    refine .cons _ ((hrequests.append_left _).trans ?_)
    have hperm := List.filter_append_perm (Same g.vo (Contact.new g.first).nick ·)
      (rest.filter (· ≠ []))
    simpa using hperm
  · intro g' hg'
    rw [hitems]
    rcases List.mem_cons.mp hg' with rfl | hg'
    · rw [Group.items, hothers]
      exact List.filter_sublist.cons_cons _
    · exact (hinOrder g' hg').trans (List.filter_sublist.trans (List.sublist_cons_self _ _))
  · rw [h.asked, hcontacted.asked, List.flatMap_cons, List.append_assoc]
    rfl
  · rw [h.acs, hacs]
    rfl
  · exact fun p hp => (h.disk p hp).trans (hcontacted.disk p hp)

theorem Serving.of_nil {turns : Nat} (h : contactVos Y c turns [] s = .ok (.served, s')) :
    Serving Y [] s s' [] := by
  have hnil : contactVos Y c turns [] s = .ok (.served, s) := by
    cases turns <;> rfl
  obtain ⟨-, rfl⟩ := Prod.mk.inj (Res.ok.inj (hnil.symm.trans h))
  exact {
    serves := .nil
    requests := List.Perm.refl []
    inOrder := by simp
    asked := by simp
    acs := rfl
    data := rfl
    disk := fun _ _ => rfl }

/-- **One AC for each VO, and every request in one command**: when the loop
over the requests ends well. -/
theorem contactVos_serves (hlisting : c.listing = false) {turns : Nat} {items : List Str}
    (hknown : Known Y items) (hturns : items.length ≤ turns)
    (h : contactVos Y c turns items s = .ok (.served, s')) :
    ∃ groups, Serving Y items s s' groups := by
  induction turns generalizing items s with
  | zero =>
    obtain rfl := List.eq_nil_of_length_eq_zero (Nat.le_zero.mp hturns)
    exact ⟨[], .of_nil h⟩
  | succ turns ih =>
    cases items with
    | nil => exact ⟨[], .of_nil h⟩
    | cons item rest =>
      have hlen : rest.length ≤ turns := Nat.le_of_succ_le_succ hturns
      by_cases hitem : item = []
      · rw [contactVos, if_pos hitem] at h
        obtain ⟨groups, hgroups⟩ := ih hknown.tail hlen h
        have hfilter : (item :: rest).filter (· ≠ []) = rest.filter (· ≠ []) :=
          List.filter_cons_of_neg (by simpa using hitem)
        exact ⟨groups, { hgroups with
          requests := hfilter ▸ hgroups.requests
          inOrder := hfilter ▸ hgroups.inOrder }⟩
      obtain ⟨command, rest', hcommand,
        ⟨-, hended, -⟩ | ⟨text, ended', s1, rfl, hservers, hturn⟩⟩ :=
        contactVos_cons hlisting hitem h
      · cases hended
      obtain ⟨vo, hvo, htext, rfl⟩ := commandFor_eq hlisting hcommand
      obtain ⟨rfl, hrest⟩ | ⟨hne, hended, -⟩ := hturn
      swap
      · exact absurd hended.symm hne
      have hnick := hknown.nick_ne List.mem_cons_self hitem
      have hperm := Y.shuffle_perm s.asked.length (findByAlias Y.servers (Contact.new item).nick)
      have hsome : Y.shuffle s.asked.length (findByAlias Y.servers (Contact.new item).nick) ≠ [] :=
        fun hnil => hknown.servers item List.mem_cons_self hitem
          (List.Perm.eq_nil (hnil ▸ hperm).symm)
      rcases contactServers_eq hlisting hsome hservers with
        ⟨refused, server, ac, -, hpre, htried, hcontacted, hacs⟩ | ⟨-, hended, -⟩
      swap
      · cases hended
      obtain ⟨groups, hgroups⟩ := ih hknown.tail.left (by rwa [List.length_map]) hrest
      refine ⟨_, Serving.cons (g := ⟨vo, item,
        rest.filter (Same vo (Contact.new item).nick ·), text, refused, server, ac⟩)
        hitem (hknown.vo_ne hvo) hnick ⟨?_, ?_, htext.symm, hpre, htried⟩ rfl hcontacted hacs
        hgroups⟩
      · rcases hvo with ⟨-, rfl⟩ | ⟨server', hmem, rfl⟩
        · exact .inl rfl
        · have hserver := mem_findByAlias.mp (hperm.subset hmem)
          exact .inr ⟨server', hserver.1, hserver.2, rfl⟩
      · intro item' hitem'
        simpa using (List.mem_filter.mp hitem').2

/-! ## The file of the proxy -/

/-- The chain of the file verifies, and so do its ACs unless there are none or
nobody asks. -/
def Verified (Y : System) (c : Settings) (v : VomsData) (disk : Disk) : Prop :=
  ∃ read, loadCredentials Y.reader disk (some c.outfile) (some c.outfile) true false = .ok read ∧
    Y.verifyCertChain (read.map Credentials.cert) (read.bind Credentials.stack) = true ∧
    (c.dontverifyac = true ∨ ∃ ok v', retrieveCert Y.client (read.map Credentials.cert)
      (read.bind Credentials.stack) .RECURSE_CHAIN v = .ok (ok, v') ∧
      (ok = true ∨ v'.error = .VERR_NOEXT))

theorem verify_eq {code : Int} (h : verify Y c s = .ok (code, s')) :
    s'.disk = s.disk ∧ (code = 0 → Verified Y c s.v s.disk) := by
  unfold verify at h
  obtain ⟨read, hread, h⟩ := Res.bind_eq_ok.mp h
  dsimp only at h
  split at h
  · next hchain =>
    split at h
    · next hdont =>
      obtain ⟨rfl, rfl⟩ := Prod.mk.inj (Res.ok.inj h)
      exact ⟨rfl, fun _ => ⟨read, hread, hchain, .inl hdont⟩⟩
    · obtain ⟨⟨ok, v⟩, hretrieve, h⟩ := Res.bind_eq_ok.mp h
      obtain ⟨rfl, rfl⟩ := Prod.mk.inj (Res.ok.inj h)
      refine ⟨rfl, fun hcode => ⟨read, hread, hchain, .inr ⟨ok, v, hretrieve, ?_⟩⟩⟩
      by_contra hnot
      rw [if_neg (by simpa using hnot)] at hcode
      cases hcode
  · obtain ⟨rfl, rfl⟩ := Prod.mk.inj (Res.ok.inj h)
    exact ⟨rfl, nofun⟩

theorem includeAc_eq (h : includeAc c s = some s') :
    s' = { s with aclist := s'.aclist } ∧ s'.aclist.getD [] = s.aclist.getD [] ++
      (if c.acfile = [] then [] else (readSeparate s.disk c.acfile).toList) ∧
    (s.aclist ≠ some [] → s'.aclist ≠ some []) := by
  unfold includeAc at h
  split at h
  · next hnone =>
    cases h
    exact ⟨rfl, by rw [if_pos hnone, List.append_nil], id⟩
  · next hsome =>
    obtain ⟨ac, hac, rfl⟩ := Option.map_eq_some_iff.mp h
    refine ⟨rfl, ?_, fun _ => by simp [listadd]⟩
    rw [if_neg hsome, hac]
    rfl

/-- The end of a run that is no listing and writes no ACs to a file. -/
theorem finish_eq {code : Int} (hlisting : c.listing = false) (hseparate : c.separate = [])
    (h : finish Y c s = .ok (code, s')) :
    (code = 1 ∧ s' = s) ∨ ∃ s1 failed s2, includeAc c s = some s1 ∧
      createProxy Y c c.outfile s1.data s1.aclist c.proxyver c.hours s1 = .ok (failed, s2) ∧
      s'.disk = s2.disk ∧
      (code = 0 → failed = false ∧ test Y c = .ok false ∧ Verified Y c s2.v s2.disk) := by
  unfold finish at h
  rw [if_neg (fun hnot => hnot.1 hseparate), hlisting] at h
  rcases hinclude : includeAc c s with _ | s1
  all_goals
    rw [hinclude] at h
    dsimp only at h
  · obtain ⟨rfl, rfl⟩ := Prod.mk.inj (Res.ok.inj h)
    exact .inl ⟨rfl, rfl⟩
  · obtain ⟨⟨failed, s2⟩, hcreate, h⟩ := Res.bind_eq_ok.mp h
    refine .inr ⟨s1, failed, s2, rfl, hcreate, ?_⟩
    dsimp only at h
    split at h
    · obtain ⟨rfl, rfl⟩ := Prod.mk.inj (Res.ok.inj h)
      exact ⟨rfl, nofun⟩
    · next hnot =>
      obtain ⟨ended, htest, h⟩ := Res.bind_eq_ok.mp h
      split at h
      · obtain ⟨rfl, rfl⟩ := Prod.mk.inj (Res.ok.inj h)
        exact ⟨rfl, nofun⟩
      · next hended =>
        obtain ⟨hdisk, hverified⟩ := verify_eq h
        rw [Bool.not_eq_true] at hnot hended
        exact ⟨hdisk, fun hcode => ⟨hnot, hended ▸ htest, hverified hcode⟩⟩

theorem contactServers_frame {command buffer : Str} {servers : List Contactdata} {ended : Ended}
    (hlisting : c.listing = false)
    (h : contactServers Y c command servers buffer s = .ok (ended, s')) :
    (∀ p, p ≠ Y.tmpname → s'.disk p = s.disk p) ∧ (ended ≠ .served → ended = .stopped 1) := by
  by_cases hnil : servers = []
  · rw [hnil] at h
    obtain ⟨rfl, rfl⟩ := Prod.mk.inj (Res.ok.inj h)
    exact ⟨fun _ _ => rfl, fun hne => absurd rfl hne⟩
  · rcases contactServers_eq hlisting hnil h with
      ⟨_, _, _, rfl, -, -, hcontacted, -⟩ | ⟨_, rfl, -, hcontacted⟩
    · exact ⟨hcontacted.disk, fun hne => absurd rfl hne⟩
    · exact ⟨hcontacted.disk, fun _ => rfl⟩

/-- Until all the VOs are served no file changes but the temporary proxy. -/
theorem contactVos_frame (hlisting : c.listing = false) {turns : Nat} {items : List Str}
    {ended : Ended} (h : contactVos Y c turns items s = .ok (ended, s')) :
    (∀ p, p ≠ Y.tmpname → s'.disk p = s.disk p) ∧ (ended ≠ .served → ended = .stopped 1) := by
  induction turns generalizing items s with
  | zero =>
    obtain ⟨rfl, rfl⟩ := Prod.mk.inj (Res.ok.inj h)
    exact ⟨fun _ _ => rfl, fun hne => absurd rfl hne⟩
  | succ turns ih =>
    cases items with
    | nil =>
      obtain ⟨rfl, rfl⟩ := Prod.mk.inj (Res.ok.inj h)
      exact ⟨fun _ _ => rfl, fun hne => absurd rfl hne⟩
    | cons item rest =>
      by_cases hitem : item = []
      · rw [contactVos, if_pos hitem] at h
        exact ih h
      obtain ⟨command, rest', -, ⟨-, rfl, rfl⟩ | ⟨text, ended', s1, -, hservers, hturn⟩⟩ :=
        contactVos_cons hlisting hitem h
      · exact ⟨fun _ _ => rfl, fun _ => rfl⟩
      obtain ⟨hdisk, hstopped⟩ := contactServers_frame hlisting hservers
      obtain ⟨rfl, hrest⟩ | ⟨hne, rfl, rfl⟩ := hturn
      · obtain ⟨hdisk', hstopped'⟩ := ih hrest
        exact ⟨fun p hp => (hdisk' p hp).trans (hdisk p hp), hstopped'⟩
      · exact ⟨hdisk, hstopped⟩

theorem acs_foldl (groups : List Group) (list : Option (List Ac)) (hlist : list ≠ some []) :
    let acs := groups.foldl (fun list g => listadd list (some g.ac)) list
    acs.getD [] = list.getD [] ++ groups.map Group.ac ∧ acs ≠ some [] := by
  induction groups generalizing list with
  | nil => exact ⟨(List.append_nil _).symm, hlist⟩
  | cons g groups ih =>
    obtain ⟨hacs, hne⟩ := ih (listadd list (some g.ac)) (by simp [listadd])
    refine ⟨hacs.trans ?_, hne⟩
    rw [List.map_cons, List.append_cons]
    rfl

theorem eq_ite_of_getD {list : Option (List Ac)} {acs : List Ac} (h : list.getD [] = acs)
    (hne : list ≠ some []) : list = if acs = [] then none else some acs := by
  subst h
  cases list with
  | none => rfl
  | some l =>
    rw [Option.getD_some, if_neg fun hnil => hne (congrArg some hnil)]

/-- What is asked of `VOMS_MakeProxy` when all the VOs are served: the ACs of
the groups, and the one of `-includeac`. -/
def lastArguments (c : Settings) (disk : Disk) (groups : List Group) : ProxyArguments :=
  let acs := groups.map Group.ac ++
    (if c.acfile = [] then [] else (readSeparate disk c.acfile).toList)
  proxyArguments c [] (if acs = [] then none else some acs) c.proxyver c.hours

/-- The end of a run: a VO is not served, or the file with an AC cannot be read,
and nothing happens; or all the VOs are served. -/
theorem run_cases {code : Int} (hlisting : c.listing = false) (hseparate : c.separate = [])
    (hknown : Known Y c.vomses) (hacs : s.aclist = none) (hdata : s.data = [])
    (hacfile : c.acfile ≠ Y.tmpname) (h : run Y c s = .ok (code, s')) :
    (code = 1 ∧ ∀ p, p ≠ Y.tmpname → s'.disk p = s.disk p) ∨
    ∃ groups s1 n disk v, Serving Y c.vomses s s1 groups ∧
      (∀ p, p ≠ Y.tmpname → disk p = s.disk p) ∧
      let made := makeProxy (Y.library n) (lastArguments c s.disk groups)
      ((∃ report, made = .err report ∧ s'.disk = disk) ∨
        ∃ proxy warning ret, made = .ok (proxy, warning) ∧ (code = 0 → ret ≠ -1) ∧
          writeProxy (Y.calls n) Y.x509 c.outfile proxy disk = .ok (ret, s'.disk)) ∧
      (code = 0 → test Y c = .ok false ∧ Verified Y c v s'.disk) := by
  obtain ⟨⟨ended, s1⟩, hvos, h⟩ := Res.bind_eq_ok.mp h
  obtain ⟨hframe, hstopped⟩ := contactVos_frame hlisting hvos
  cases ended with
  | stopped n =>
    obtain ⟨rfl, rfl⟩ := Prod.mk.inj (Res.ok.inj h)
    cases hstopped nofun
    exact .inl ⟨rfl, hframe⟩
  | served =>
    obtain ⟨groups, hserving⟩ := contactVos_serves hlisting hknown (Nat.le_refl _) hvos
    obtain ⟨htouch, htouchAcs⟩ := unlinkTemporary_touches (Y := Y) (c := c) s1
    have hdisk : ∀ p, p ≠ Y.tmpname → (unlinkTemporary Y c s1).disk p = s.disk p :=
      fun p hp => (htouch.disk p hp).trans (hframe p hp)
    rcases finish_eq hlisting hseparate h with
      ⟨rfl, rfl⟩ | ⟨s2, failed, s3, hinclude, hcreate, hlast, hzero⟩
    · exact .inl ⟨rfl, hdisk⟩
    right
    obtain ⟨hs2, hs2acs, hs2ne⟩ := includeAc_eq hinclude
    have hread : readSeparate (unlinkTemporary Y c s1).disk c.acfile =
        readSeparate s.disk c.acfile := by
      rw [readSeparate, readSeparate, hdisk _ hacfile]
    obtain ⟨hgroups, hgroupsNe⟩ := acs_foldl groups s.aclist (by rw [hacs]; nofun)
    have haclist : s2.aclist = if _ = [] then none else some _ :=
      eq_ite_of_getD hs2acs (hs2ne (by rw [htouchAcs, hserving.acs]; exact hgroupsNe))
    rw [hread, htouchAcs, hserving.acs, hgroups, hacs] at haclist
    have hdata2 : s2.data = [] := by
      rw [hs2]
      exact htouch.data.trans (hserving.data.trans hdata)
    have hdisk2 : s2.disk = (unlinkTemporary Y c s1).disk := by rw [hs2]
    rw [hdata2, haclist] at hcreate
    refine ⟨groups, s1, s2.created, s2.disk, s3.v, hserving,
      fun p hp => by rw [hdisk2, hdisk p hp], ?_, ?_⟩
    · rcases createProxy_eq hcreate with
        ⟨report, hmade, -, rfl⟩ | ⟨proxy, warning, ret, disk, hmade, hwrite, hfailed, rfl⟩
      · exact .inl ⟨report, hmade, hlast⟩
      · refine .inr ⟨proxy, warning, ret, hmade, fun hcode => ?_, hlast ▸ hwrite⟩
        have hret := hfailed.symm.trans (hzero hcode).1
        simpa using hret
    · intro hcode
      obtain ⟨-, htest, hverified⟩ := hzero hcode
      exact ⟨htest, hlast ▸ hverified⟩

/-- **Exit status 0**: every request went to the servers of its VO in one
command, there is one AC for each VO, and the file that verifies is that of the
proxy with these ACs and that of `-includeac`. Only where `VOMS_MakeProxy` made
no proxy, it is the file that was there before. -/
theorem run_zero (hlisting : c.listing = false) (hseparate : c.separate = [])
    (hknown : Known Y c.vomses) (hacs : s.aclist = none) (hdata : s.data = [])
    (hacfile : c.acfile ≠ Y.tmpname) (houtfile : c.outfile ≠ Y.tmpname)
    (h : run Y c s = .ok (0, s')) :
    ∃ groups s1 n v, Serving Y c.vomses s s1 groups ∧
      let made := makeProxy (Y.library n) (lastArguments c s.disk groups)
      ((∃ report, made = .err report ∧ s'.disk c.outfile = s.disk c.outfile) ∨
        ∃ proxy warning ret disk, made = .ok (proxy, warning) ∧ ret ≠ -1 ∧
          writeProxy (Y.calls n) Y.x509 c.outfile proxy disk = .ok (ret, s'.disk)) ∧
      test Y c = .ok false ∧ Verified Y c v s'.disk := by
  rcases run_cases hlisting hseparate hknown hacs hdata hacfile h with
    ⟨hcode, -⟩ | ⟨groups, s1, n, disk, v, hserving, hdisk, hmade, hzero⟩
  · cases hcode
  refine ⟨groups, s1, n, v, hserving, ?_, hzero rfl⟩
  rcases hmade with ⟨report, hreport, hlast⟩ | ⟨proxy, warning, ret, hproxy, hret, hwrite⟩
  · exact .inl ⟨report, hreport, by rw [hlast, hdisk _ houtfile]⟩
  · exact .inr ⟨proxy, warning, ret, disk, hproxy, hret rfl, hwrite⟩

/-- **No proxy without all the ACs**: however the run ends, no file but the
temporary proxy and the output changes, and the output only when every VO was
served and the proxy was made with all the ACs. -/
theorem run_outfile {code : Int} (hlisting : c.listing = false) (hseparate : c.separate = [])
    (hknown : Known Y c.vomses) (hacs : s.aclist = none) (hdata : s.data = [])
    (hacfile : c.acfile ≠ Y.tmpname) (houtfile : c.outfile ≠ Y.tmpname)
    (h : run Y c s = .ok (code, s')) :
    (∀ p, p ≠ Y.tmpname → p ≠ c.outfile → s'.disk p = s.disk p) ∧
    (s'.disk c.outfile ≠ s.disk c.outfile → ∃ groups s1 n proxy warning ret disk,
      Serving Y c.vomses s s1 groups ∧
      makeProxy (Y.library n) (lastArguments c s.disk groups) = .ok (proxy, warning) ∧
      writeProxy (Y.calls n) Y.x509 c.outfile proxy disk = .ok (ret, s'.disk)) := by
  rcases run_cases hlisting hseparate hknown hacs hdata hacfile h with
    ⟨-, hdisk⟩ | ⟨groups, s1, n, disk, v, hserving, hdisk, hmade, -⟩
  · exact ⟨fun p hp _ => hdisk p hp, fun hne => absurd (hdisk _ houtfile) hne⟩
  rcases hmade with ⟨report, -, hlast⟩ | ⟨proxy, warning, ret, hproxy, -, hwrite⟩
  · rw [hlast]
    exact ⟨fun p hp _ => hdisk p hp, fun hne => absurd (hdisk _ houtfile) hne⟩
  · exact ⟨fun p hp hout => ((writeProxy_private hwrite).1 p hout).trans (hdisk p hp),
      fun _ => ⟨groups, s1, n, proxy, warning, ret, disk, hserving, hproxy, hwrite⟩⟩

/-! ## The temporary proxy -/

/-- Files can be unlinked, and nobody else uses the name of the temporary
proxy. -/
structure Alone (Y : System) : Prop where
  unlinks : ∀ n, Y.unlinks n = true
  each : ∀ k n, (Y.calls k).unlinks n = true ∧ (Y.calls k).meanwhile n none = none

/-- No key is left in the temporary proxy. -/
def Clean (Y : System) (s : State) : Prop :=
  ∀ file, s.disk Y.tmpname = some file → file.pieces = []

theorem unlinkTemporary_clean (halone : Alone Y) (hregen : c.noregen = false) (s : State) :
    Clean Y (unlinkTemporary Y c s) := by
  intro file hfile
  simp [unlinkTemporary, hregen, halone.unlinks] at hfile

theorem temporaryProxy_clean (halone : Alone Y) (hregen : c.noregen = false) {server : Contactdata}
    (h : temporaryProxy Y c server s = .ok (true, s')) : Clean Y s' := by
  intro file hfile
  rw [temporaryProxy, hregen] at h
  rcases createProxy_eq h with ⟨-, -, hfailed, -⟩ | ⟨proxy, -, ret, disk, -, hwrite, hfailed, rfl⟩
  · cases hfailed
  have hret : ret = -1 := by simpa using hfailed
  rcases (writeProxy_private hwrite).2 file hfile with
    ⟨hne, -⟩ | ⟨-, hempty | ⟨n, found, hfound, hmean⟩⟩
  · exact absurd hret hne
  · exact hempty
  · obtain ⟨hunlinks, hnone⟩ := halone.each s.created n
    rw [hfound hunlinks, hnone] at hmean
    cases hmean

theorem contactServers_clean (halone : Alone Y) (hregen : c.noregen = false)
    (hlisting : c.listing = false) {command : Str} : ∀ {servers : List Contactdata} {buffer : Str}
      {s s' : State} {code : Int},
      contactServers Y c command servers buffer s = .ok (.stopped code, s') → Clean Y s'
  | [], _, _, _, _, h => by cases h
  | server :: rest, buffer, s, s', code, h => by
    unfold contactServers at h
    obtain ⟨⟨failed, s1⟩, htemp, h⟩ := Res.bind_eq_ok.mp h
    cases failed with
    | true =>
      obtain ⟨-, rfl⟩ := Prod.mk.inj (Res.ok.inj h)
      exact temporaryProxy_clean halone hregen htemp
    | false =>
      obtain ⟨⟨status, warned, buffer', s2⟩, hcontact, h⟩ := Res.bind_eq_ok.mp h
      have hunlinked := unlinkTemporary_clean halone hregen s2
      have hnext : (if rest = [] then pure (.stopped 1, unlinkTemporary Y c s2)
          else contactServers Y c command rest buffer' s2) = Res.ok (.stopped code, s') →
          Clean Y s' := by
        intro h
        split at h
        · obtain ⟨-, rfl⟩ := Prod.mk.inj (Res.ok.inj h)
          exact hunlinked
        · exact contactServers_clean halone hregen hlisting h
      dsimp only at h
      rw [hlisting] at h
      split at h
      · obtain ⟨-, rfl⟩ := Prod.mk.inj (Res.ok.inj h)
        exact hunlinked
      · cases status with
        | false => exact hnext h
        | true =>
          rcases hac : getAC Y buffer' with _ | ac
          all_goals rw [hac] at h
          · exact hnext h
          · cases (Prod.mk.inj (Res.ok.inj h)).1

/-- A capability is requested. -/
def Capability (item : Str) : Prop := ∃ vo, fqanParse ((Contact.new item).request vo) = none

theorem parseFqan_none {fqans : List Str} (h : parseFqan fqans = none) :
    ∃ fqan ∈ fqans, fqanParse fqan = none := by
  by_contra hnone
  push Not at hnone
  have hmap : ∃ texts, fqans.mapM fqanParse = some texts := by
    clear h
    induction fqans with
    | nil => exact ⟨[], rfl⟩
    | cons fqan fqans ih =>
      obtain ⟨text, htext⟩ := Option.ne_none_iff_exists'.mp (hnone fqan List.mem_cons_self)
      obtain ⟨texts, htexts⟩ := ih fun f hf => hnone f (List.mem_cons_of_mem _ hf)
      exact ⟨text :: texts, by simp [htext, htexts]⟩
  obtain ⟨texts, htexts⟩ := hmap
  rw [parseFqan, htexts] at h
  cases h

theorem contactVos_clean (halone : Alone Y) (hregen : c.noregen = false)
    (hlisting : c.listing = false) {turns : Nat} {items : List Str} {code : Int}
    (hknown : Known Y items) (h : contactVos Y c turns items s = .ok (.stopped code, s')) :
    Clean Y s' ∨ ∃ item ∈ items, item ≠ [] ∧ Capability item := by
  induction turns generalizing items s with
  | zero => cases (Prod.mk.inj (Res.ok.inj h)).1
  | succ turns ih =>
    cases items with
    | nil => cases (Prod.mk.inj (Res.ok.inj h)).1
    | cons item rest =>
      by_cases hitem : item = []
      · rw [contactVos, if_pos hitem] at h
        refine (ih hknown.tail h).imp_right fun ⟨item', hmem, hne, hcap⟩ => ?_
        exact ⟨item', List.mem_cons_of_mem _ hmem, hne, hcap⟩
      obtain ⟨command, rest', hcommand, hturn⟩ := contactVos_cons hlisting hitem h
      obtain ⟨vo, hvo, htext, rfl⟩ := commandFor_eq hlisting hcommand
      have hnil := not_same_nil (hknown.vo_ne hvo) (hknown.nick_ne List.mem_cons_self hitem)
      rcases hturn with ⟨rfl, -, -⟩ | ⟨text, ended', s1, -, hservers, ⟨-, hrest⟩ | ⟨-, rfl, rfl⟩⟩
      · -- the program ends while a command is made
        obtain ⟨fqan, hfqan, hcap⟩ := parseFqan_none htext.symm
        rcases List.mem_cons.mp hfqan with rfl | hfqan
        · exact .inr ⟨item, List.mem_cons_self, hitem, vo, hcap⟩
        · obtain ⟨item', hmem, rfl⟩ := List.mem_map.mp hfqan
          obtain ⟨hmem, hsame⟩ := List.mem_filter.mp hmem
          have hsame : Same vo (Contact.new item).nick item' := by simpa using hsame
          exact .inr ⟨item', List.mem_cons_of_mem _ hmem, fun h => hnil (h ▸ hsame), vo, hcap⟩
      · refine (ih hknown.tail.left hrest).imp_right fun ⟨item', hmem, hne, hcap⟩ => ?_
        obtain ⟨other, hother, rfl⟩ := List.mem_map.mp hmem
        split at hne
        · exact absurd rfl hne
        · next hnot =>
          rw [if_neg hnot] at hcap
          exact ⟨other, List.mem_cons_of_mem _ hother, hne, hcap⟩
      · exact .inl (contactServers_clean halone hregen hlisting hservers)

/-- **The key of the temporary proxy does not outlive the program**, whatever
the servers answer and however the run ends, unless a capability is requested:
then `FQANParse` ends the program. -/
theorem temporary_removed {code : Int} (halone : Alone Y) (hregen : c.noregen = false)
    (hlisting : c.listing = false) (hseparate : c.separate = []) (houtfile : c.outfile ≠ Y.tmpname)
    (hknown : Known Y c.vomses) (h : run Y c s = .ok (code, s')) :
    Clean Y s' ∨ ∃ item ∈ c.vomses, item ≠ [] ∧ Capability item := by
  obtain ⟨⟨ended, s1⟩, hvos, h⟩ := Res.bind_eq_ok.mp h
  cases ended with
  | stopped n =>
    obtain ⟨rfl, rfl⟩ := Prod.mk.inj (Res.ok.inj h)
    exact contactVos_clean halone hregen hlisting hknown hvos
  | served =>
    have hunlinked := unlinkTemporary_clean halone hregen s1
    rcases finish_eq hlisting hseparate h with
      ⟨-, rfl⟩ | ⟨s2, failed, s3, hinclude, hcreate, hlast, -⟩
    · exact .inl hunlinked
    · have hdisk : s'.disk Y.tmpname = (unlinkTemporary Y c s1).disk Y.tmpname := by
        rw [hlast, (createProxy_touches hcreate).disk _ (Ne.symm houtfile),
          (includeAc_eq hinclude).1]
      exact .inl fun file hfile => hunlinked file (hdisk ▸ hfile)

end

namespace Sample

def issued : Ac := d2iAc L4.Sample.ac

/-- Every message is an AC. -/
def client : L4.Client :=
  { L4.Sample.applications with
    toWire := L4.Sample.answers
    d2iAcAt := fun buffer =>
      if h : buffer = [] then none else some (issued, ⟨[], List.length_pos_of_ne_nil h⟩) }

def down : Contactdata := ⟨"vo".toList, "down".toList, [], "vo".toList, 15000, -1⟩
def up : Contactdata := ⟨"vo".toList, "up".toList, [], "vo".toList, 15001, -1⟩
def lost : Contactdata := ⟨"lost".toList, "far".toList, [], "lost".toList, 15002, -1⟩

def answer : Str :=
  L4.Sample.restProlog ++ render (element "voms".toList (leaf "ac".toList "ywe".toList))

def tmpname : Str := "/tmp/tmp_x509up_u500_7".toList

/-- Of the two servers of one VO one is down, and that of the other. -/
def system : System where
  client := client
  servers := [down, up, lost]
  shuffle _ l := l
  shuffle_perm _ _ := List.Perm.refl _
  network server _ :=
    { rest := fun _ => .failed .VERR_COMM []
      legacy := fun _ => if server = up then .received answer else .failed .VERR_COMM []
      own := none }
  library _ := { MakeProxy.Sample.library with
    confAcseq := fun _ => some ⟨.other 30, false, .raw []⟩ }
  calls _ := { ProxyFile.Sample.raced with meanwhile := fun _ found => found }
  x509 := ProxyFile.Sample.x509
  reader := ProxyFile.Sample.reader
  tmpname := tmpname
  unlinks _ := true
  opens _ := true
  mode := 0o644
  acWrites _ := true
  now := 1704067200
  verifyCertChain cert _ := cert.isSome

/-- A group and a role are asked for. -/
def settings (vomses : List Str) : Settings where
  vomses := vomses
  listing := false
  noregen := false
  ignorewarn := false
  failonwarn := false
  dontverifyac := true
  separate := []
  acfile := []
  incfile := []
  outfile := ProxyFile.Sample.path
  bits := 1024
  hours := 1
  minutes := 0
  proxyver := 2
  policyfile := []
  policylang := []
  pathlength := -1
  limited := false
  voID := []
  ucert := Voms.L1.Sample.user
  certChain := []
  privateKey := ⟨21⟩

def state : State := ⟨.new [], none, [], fun _ => none, [], 0⟩

theorem known (vomses : List Str) (h : ∀ item ∈ vomses, item ≠ [] →
    findByAlias [down, up, lost] (Contact.new item).nick ≠ []) : Known system vomses where
  named := by decide
  servers := h

theorem alone : Alone system := ⟨fun _ => rfl, fun _ _ => ⟨rfl, rfl⟩⟩

def requests : List Str := ["vo:/vo/a".toList, "vo:/vo/b/Role=c".toList]

/-- Then something of the other VO. -/
def both : List Str := ["vo:/vo/a".toList, "lost".toList]

end Sample

/-- The two requests are one command, and the second server answers it. -/
theorem run_zero_sample : ∃ (s' : State) (groups : List Group),
    run Sample.system (Sample.settings Sample.requests) Sample.state = .ok (0, s') ∧
    s'.asked = [(Sample.down, "G/vo/a,B/vo/b:c".toList), (Sample.up, "G/vo/a,B/vo/b:c".toList)] ∧
    (groups.flatMap Group.items).Perm Sample.requests := by
  obtain ⟨groups, s1, n, v, hserving, -⟩ := run_zero (Y := Sample.system)
    (c := Sample.settings Sample.requests) (s := Sample.state) rfl rfl
    (Sample.known _ (by decide)) rfl rfl (by decide) (by decide) (by rfl)
  exact ⟨_, groups, rfl, rfl, hserving.requests⟩

/-- The second VO is not served, and there is no proxy. -/
theorem run_outfile_sample : ∃ s',
    run Sample.system (Sample.settings Sample.both) Sample.state = .ok (1, s') ∧
    (∀ p, p ≠ Sample.tmpname → p ≠ ProxyFile.Sample.path → s'.disk p = none) ∧
    s'.disk ProxyFile.Sample.path = none := by
  have h := run_outfile (Y := Sample.system) (c := Sample.settings Sample.both)
    (s := Sample.state) rfl rfl (Sample.known _ (by decide)) rfl rfl (by decide) (by decide)
    (by rfl)
  exact ⟨_, rfl, h.1, rfl⟩

theorem temporary_removed_sample : ∃ s',
    run Sample.system (Sample.settings Sample.both) Sample.state = .ok (1, s') ∧
    (Clean Sample.system s' ∨ ∃ item ∈ Sample.both, item ≠ [] ∧ Capability item) :=
  ⟨_, rfl, temporary_removed (c := Sample.settings Sample.both) (s := Sample.state) Sample.alone
    rfl rfl rfl (by decide) (Sample.known _ (by decide)) (by rfl)⟩

/-- With a capability in the second request the key stays. -/
example : ∃ s' file, run Sample.system
    (Sample.settings ["vo:/vo/a".toList, "lost:/lost/Capability=x".toList]) Sample.state =
      .ok (1, s') ∧
    s'.disk Sample.tmpname = some file ∧ .privateKey (some ⟨7⟩) ∈ file.pieces :=
  ⟨_, _, rfl, rfl, by decide⟩

end Voms.L6.ClientRun
