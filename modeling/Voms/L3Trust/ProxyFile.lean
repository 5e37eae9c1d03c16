import Voms.L3Trust.MakeProxy
import Voms.L3Trust.Proxy

/-!
# The file of a proxy

`VOMS_WriteProxy` (`src/sslutils/proxy.c`) puts a proxy into a file that it
makes itself, and `load_credentials` (`src/sslutils/sslutils.c`) reads the
same file back: the certificate, the key and the certificates behind it. A
file is the list of its PEM blocks, with its owner and its mode.

* `writeProxy_private`: the key goes to a new file that only its owner can
  read, whatever was there before and whatever other processes put there.
* `load_written`: what is read from a proxy that was written is the proxy,
  less the certificates of the chain that `proxy_marshal_bp` leaves out. From a
  file that was not written to its end it is the same with a shorter chain, or
  nothing.

The error queue of OpenSSL is empty before a file is read, there are no smart
cards, and PKCS12 files are a parameter.
-/
namespace Voms.L3.ProxyFile

open Voms.Core Voms.L1 Voms.L3.MakeProxy

/-! ## Files -/

/-- A part of a file: a PEM block, by what is decoded from it, or text in which
no block begins. -/
inductive PemPiece where
  | certificate (x : Option X509)
  | privateKey (key : Option EvpPKey)
  | attributeCertificate (ac : Option Ac)
  | text (s : Str)
  deriving DecidableEq, Repr

structure PemFile where
  owner : Nat
  mode : Nat
  pieces : List PemPiece
  deriving DecidableEq, Repr

abbrev Disk : Type := Str → Option PemFile

/-- What the system calls of one `VOMS_WriteProxy` give; the attempts count
down to 0. -/
structure Calls where
  uid : Nat
  umask : Nat
  unlinks : Nat → Bool
  /-- What other processes make of the name between `unlink` and `open`. -/
  meanwhile : Nat → Option PemFile → Option PemFile
  creates : Nat → Bool
  fchmod : Bool
  bioNewFd : Bool
  /-- What the write of a block leaves when it fails. -/
  fails : Nat → Option (List PemPiece)

/-- mirrors src/sslutils/sslutils.c:529-563 -/
def checkstat (uid : Nat) : Option PemFile → Int
  | none => 1
  | some file =>
    if file.owner ≠ uid then 2
    else if file.mode &&& 0o66 ≠ 0 then 3
    else if file.pieces = [] then 4
    else 0

/-! ## Writing -/

/-- The certificate of the chain is written.
mirrors src/sslutils/sslutils.c:1455-1460 -/
def keeps (ncert : X509) (ucert : Option X509) (cert : X509) : Bool :=
  !(nameCmpNoSet cert.subject ncert.subject ||
    ucert.any (fun x => nameCmpNoSet cert.subject x.subject) ||
    nameCmpNoSet cert.subject cert.issuer)

/-- The blocks one after the other, each with what is returned when it cannot
be written. -/
def writeBlocks (K : Calls) : Nat → List (Int × PemPiece) → Int × List PemPiece
  | _, [] => (0, [])
  | n, (code, piece) :: rest =>
    match K.fails n with
    | some torn => (code, torn)
    | none =>
      let (ret, pieces) := writeBlocks K (n + 1) rest
      (ret, piece :: pieces)

/-- mirrors src/sslutils/sslutils.c:1412-1472 -/
def proxyMarshalBp (K : Calls) (ncert : X509) (npkey : Option EvpPKey) (ucert : Option X509)
    (chain : Option (List X509)) : Eval (Int × List PemPiece) := do
  let npkey ← Res.deref npkey
  pure (writeBlocks K 0 (
    [(1, .certificate (some ncert)), (2, .privateKey (some npkey))] ++
    ucert.toList.map (fun x => (3, .certificate (some x))) ++
    ((chain.getD []).filter (keeps ncert ucert)).map fun x => (4, .certificate (some x))))

/-- `retry` attempts are left. mirrors src/sslutils/proxy.c:90-94 -/
def openNew (K : Calls) (filename : Str) : Nat → Disk → Bool × Disk
  | 0, disk => (false, disk)
  | retry + 1, disk =>
    let left := if K.unlinks retry then none else disk filename
    let found := K.meanwhile retry left
    if found = none ∧ K.creates retry then
      (true, Function.update disk filename (some ⟨K.uid, 0o600 &&& (0o777 ^^^ K.umask), []⟩))
    else openNew K filename retry (Function.update disk filename found)

/-- `x509` is the certificate as OpenSSL reads it again.
mirrors src/sslutils/proxy.c:83-114 -/
def writeProxy (K : Calls) (x509 : NewCert → X509) (filename : Str) (proxy : VomsProxy)
    (disk : Disk) : Eval (Int × Disk) :=
  match openNew K filename 3 disk with
  | (false, disk) => pure (-1, disk)
  | (true, disk) =>
    if !K.fchmod then pure (-1, disk)
    else if !K.bioNewFd then
      pure (-1, Function.update disk filename (some ⟨K.uid, 0o600, []⟩))
    else do
      let (ret, pieces) ← proxyMarshalBp K (x509 proxy.cert) proxy.key none (some proxy.chain)
      pure (ret, Function.update disk filename (some ⟨K.uid, 0o600, pieces⟩))

/-! ## Reading -/

/-- The block, if it is a certificate, a key or an attribute certificate. -/
def PemPiece.x509? : PemPiece → Option (Option X509)
  | .certificate x => some x
  | _ => none

def PemPiece.key? : PemPiece → Option (Option EvpPKey)
  | .privateKey key => some key
  | _ => none

def PemPiece.ac? : PemPiece → Option (Option Ac)
  | .attributeCertificate ac => some ac
  | _ => none

/-- The next block of a kind, decoded: `PEM_read_X509`, `PEM_read_PrivateKey`
and `PEM_ASN1_read_bio`. -/
def readBlock {α : Type} (block : PemPiece → Option (Option α)) (pieces : List PemPiece) :
    Option α :=
  (pieces.findSome? block).join

/-- The loop, after `count` certificates; `none` is the return value -1.
mirrors src/sslutils/sslutils.c:605-636 -/
def loadChain : List PemPiece → Nat → List X509 → Option (List X509)
  | [], count, chain => if 0 < count then some chain else none
  | .certificate none :: _, _, _ => none
  | .certificate (some x) :: rest, count, chain =>
    loadChain rest (count + 1) (if count = 0 then chain else chain ++ [x])
  | _ :: rest, count, chain => loadChain rest count chain

/-- mirrors src/sslutils/sslutils.c:580-649 -/
def proxyLoadUserProxy (disk : Disk) (file : Str) : Option (List X509) := do
  let file ← disk file
  loadChain file.pieces 0 []

/-- Of a key: its type, and the modulus of an RSA key. -/
structure KeyParts where
  type : EvpPKey → Nat
  modulus : EvpPKey → Option Nat

def EVP_PKEY_RSA : Nat := 6

/-- A private key without a modulus takes the one of the certificate.
mirrors src/sslutils/sslutils.c:3352-3407 -/
def mismatch (P : KeyParts) (ucert : X509) (privateKey : EvpPKey) : Bool :=
  match ucert.key with
  | none => true
  | some ucertpkey =>
    if P.type ucertpkey = P.type privateKey then
      P.type ucertpkey == EVP_PKEY_RSA &&
        match P.modulus ucertpkey, P.modulus privateKey with
        | some n, some n' => n != n'
        | _, _ => false
    else true

/-- The files, who reads them, and what is a parameter. -/
structure Reader where
  uid : Nat
  keyParts : KeyParts
  pkcs12 : Option PemFile → Option (X509 × Option (List X509) × EvpPKey)

/-- The name of a smart card. -/
def isCard (name : Str) : Prop := "SC:".toList <+: name

instance (name : Str) : Decidable (isCard name) := inferInstanceAs (Decidable (_ <+: _))

/-- mirrors src/sslutils/sslutils.c:3049-3163 -/
def proxyLoadUserCert (disk : Disk) (userCert : Str) : Option X509 := do
  guard ¬ isCard userCert
  let file ← disk userCert
  readBlock PemPiece.x509? file.pieces

/-- mirrors src/sslutils/sslutils.c:3180-3421 -/
def proxyLoadUserKey (R : Reader) (disk : Disk) (ucert : X509) (userKey : Str) :
    Option EvpPKey := do
  guard ¬ isCard userKey
  let file ← disk userKey
  guard (checkstat R.uid (some file) = 0)
  let key ← readBlock PemPiece.key? file.pieces
  guard (mismatch R.keyParts ucert key = false)
  some key

structure Credentials where
  cert : X509
  stack : Option (List X509)
  key : Option EvpPKey
  deriving DecidableEq, Repr

/-- mirrors src/sslutils/sslutils.c:3680-3686 -/
def loadKey (R : Reader) (disk : Disk) (cert : X509) (keyname : Option Str) (wantKey : Bool) :
    Option (Option EvpPKey) :=
  match keyname with
  | none => some none
  | some keyname =>
    if wantKey then (proxyLoadUserKey R disk cert keyname).map some else some none

/-- mirrors src/sslutils/sslutils.c:3688-3693 -/
def loadStack (disk : Disk) (certname : Str) (keyname : Option Str) (wantStack : Bool) :
    Option (Option (List X509)) :=
  if wantStack ∧ ¬ isCard certname ∧ keyname.getD certname = certname then
    (proxyLoadUserProxy disk certname).map some
  else some none

/-- `wantStack` and `wantKey`: the pointers `stack` and `key` are not NULL.
mirrors src/sslutils/sslutils.c:3658-3714 -/
def loadCredentials (R : Reader) (disk : Disk) (certname keyname : Option Str)
    (wantStack wantKey : Bool) : Eval (Option Credentials) :=
  match certname with
  | none => pure none
  | some certname =>
    if certname.length < 4 then .fault .outOfRange
    else if certname.drop (certname.length - 4) ≠ ".p12".toList then pure do
      let cert ← proxyLoadUserCert disk certname
      let key ← loadKey R disk cert keyname wantKey
      let stack ← loadStack disk certname keyname wantStack
      some ⟨cert, stack, key⟩
    else pure do
      let (cert, stack, key) ← R.pkcs12 (disk certname)
      some ⟨cert, if wantStack then stack else none, if wantKey then some key else none⟩

/-! ## What is written -/

section

variable {K : Calls} {filename : Str} {disk disk' : Disk}

/-- A file that is opened is new; if none is, the name is as others made it. -/
theorem openNew_eq : ∀ {retry : Nat} {disk disk' : Disk} {opened : Bool},
    openNew K filename retry disk = (opened, disk') → (∀ p, p ≠ filename → disk' p = disk p) ∧
      (opened = true → ∃ mode, disk' filename = some ⟨K.uid, mode, []⟩) ∧
      (opened = false → (retry = 0 ∧ disk' = disk) ∨ ∃ n found,
        (K.unlinks n = true → found = none) ∧ disk' filename = K.meanwhile n found)
  | 0, disk, disk', opened, h => by
    obtain ⟨rfl, rfl⟩ := Prod.mk.inj h
    exact ⟨fun _ _ => rfl, nofun, fun _ => .inl ⟨rfl, rfl⟩⟩
  | retry + 1, disk, disk', opened, h => by
    unfold openNew at h
    dsimp only at h
    generalize hfound : K.meanwhile retry (if K.unlinks retry then none else disk filename) = found
      at h
    split at h
    · obtain ⟨rfl, rfl⟩ := Prod.mk.inj h
      exact ⟨fun p hp => Function.update_of_ne hp _ _, fun _ => ⟨_, Function.update_self ..⟩, nofun⟩
    · obtain ⟨hframe, hopened, hleft⟩ := openNew_eq h
      refine ⟨fun p hp => (hframe p hp).trans (Function.update_of_ne hp _ _), hopened,
        fun hno => ?_⟩
      rcases hleft hno with ⟨-, rfl⟩ | hleft
      · exact .inr ⟨retry, _, fun hunlinks => if_pos hunlinks,
          (Function.update_self ..).trans hfound.symm⟩
      · exact .inr hleft

/-- What is written is all the blocks, or the first of them and what the write
that failed left. -/
theorem writeBlocks_eq : ∀ (n : Nat) (blocks : List (Int × PemPiece)),
    writeBlocks K n blocks = (0, blocks.map Prod.snd) ∨
    ∃ front code piece rest torn, blocks = front ++ (code, piece) :: rest ∧
      K.fails (n + front.length) = some torn ∧
      writeBlocks K n blocks = (code, front.map Prod.snd ++ torn)
  | n, [] => .inl rfl
  | n, (code, piece) :: rest => by
    rcases hfails : K.fails n with _ | torn
    · have hstep : writeBlocks K n ((code, piece) :: rest) =
          ((writeBlocks K (n + 1) rest).1, piece :: (writeBlocks K (n + 1) rest).2) := by
        simp only [writeBlocks, hfails]
      rcases writeBlocks_eq (n + 1) rest with
        hall | ⟨front, code', piece', rest', torn, rfl, ht, heq⟩
      · exact .inl (by rw [hstep, hall]; rfl)
      · refine .inr ⟨(code, piece) :: front, code', piece', rest', torn, rfl, ?_, ?_⟩
        · rw [← ht, List.length_cons, Nat.add_assoc, Nat.add_comm 1]
        · rw [hstep, heq]
          rfl
    · exact .inr ⟨[], code, piece, rest, torn, rfl, hfails, by simp only [writeBlocks, hfails]; rfl⟩

/-- The blocks of a proxy. -/
def blocks (ncert : X509) (key : EvpPKey) (chain : List X509) : List PemPiece :=
  .certificate (some ncert) :: .privateKey (some key) :: chain.map fun x => .certificate (some x)

theorem marshal_eq {ncert : X509} {npkey : Option EvpPKey} {chain : List X509} {ret : Int}
    {pieces : List PemPiece}
    (h : proxyMarshalBp K ncert npkey none (some chain) = .ok (ret, pieces)) :
    ∃ key, npkey = some key ∧
      ((ret = 0 ∧ pieces = blocks ncert key (chain.filter (keeps ncert none))) ∨
        (0 < ret ∧ ∃ k n torn, K.fails n = some torn ∧
          pieces = (blocks ncert key (chain.filter (keeps ncert none))).take k ++ torn)) := by
  obtain ⟨key, hkey, h⟩ := Res.bind_eq_ok.mp h
  refine ⟨key, Res.deref_eq_ok.mp hkey, ?_⟩
  let all : List (Int × PemPiece) :=
    [(1, .certificate (some ncert)), (2, .privateKey (some key))] ++
    (chain.filter (keeps ncert none)).map fun x => (4, .certificate (some x))
  have hall : all.map Prod.snd = blocks ncert key (chain.filter (keeps ncert none)) := by
    simp [all, blocks]
  have hwrite : writeBlocks K 0 all = (ret, pieces) := Res.ok.inj h
  rcases writeBlocks_eq (K := K) 0 all with heq | ⟨front, code, piece, rest, torn, hfront, ht, heq⟩
  · obtain ⟨rfl, rfl⟩ := Prod.mk.inj (hwrite.symm.trans heq)
    exact .inl ⟨rfl, hall⟩
  · obtain ⟨rfl, rfl⟩ := Prod.mk.inj (hwrite.symm.trans heq)
    have hcode : ∀ b ∈ all, 0 < b.1 := by
      intro b hb
      simp only [all, List.cons_append, List.nil_append, List.mem_cons, List.mem_map] at hb
      rcases hb with rfl | rfl | ⟨x, -, rfl⟩ <;> simp
    refine .inr ⟨hcode (ret, piece) (hfront ▸ by simp), front.length, _, torn, ht, ?_⟩
    rw [← hall, hfront]
    simp

/-- What `VOMS_WriteProxy` does, when it gets that far. -/
theorem writeProxy_eq {x509 : NewCert → X509} {proxy : VomsProxy} {ret : Int}
    (h : writeProxy K x509 filename proxy disk = .ok (ret, disk')) :
    (∀ p, p ≠ filename → disk' p = disk p) ∧
    ((ret = -1 ∧ ((∃ mode, disk' filename = some ⟨K.uid, mode, []⟩) ∨
        ∃ n found, (K.unlinks n = true → found = none) ∧ disk' filename = K.meanwhile n found)) ∨
      ∃ pieces, proxyMarshalBp K (x509 proxy.cert) proxy.key none (some proxy.chain) =
          .ok (ret, pieces) ∧ disk' filename = some ⟨K.uid, 0o600, pieces⟩) := by
  unfold writeProxy at h
  rcases hopen : openNew K filename 3 disk with ⟨opened, disk1⟩
  obtain ⟨hframe, hopened, hleft⟩ := openNew_eq hopen
  rw [hopen] at h
  cases opened with
  | false =>
    obtain ⟨rfl, rfl⟩ := Prod.mk.inj (Res.ok.inj h)
    exact ⟨hframe, .inl ⟨rfl, .inr ((hleft rfl).resolve_left fun h => absurd h.1 (by decide))⟩⟩
  | true =>
    dsimp only at h
    split at h
    · obtain ⟨rfl, rfl⟩ := Prod.mk.inj (Res.ok.inj h)
      exact ⟨hframe, .inl ⟨rfl, .inl (hopened rfl)⟩⟩
    split at h
    · obtain ⟨rfl, rfl⟩ := Prod.mk.inj (Res.ok.inj h)
      exact ⟨fun p hp => (Function.update_of_ne hp _ _).trans (hframe p hp),
        .inl ⟨rfl, .inl ⟨_, Function.update_self ..⟩⟩⟩
    obtain ⟨⟨ret', pieces⟩, hmarshal, h⟩ := Res.bind_eq_ok.mp h
    obtain ⟨rfl, rfl⟩ := Prod.mk.inj (Res.ok.inj h)
    exact ⟨fun p hp => (Function.update_of_ne hp _ _).trans (hframe p hp),
      .inr ⟨pieces, hmarshal, Function.update_self ..⟩⟩

/-- **The key of a proxy is in a private file.** Nothing but the file of that
name changes, and the file is a new one of the user with mode 0600; or else
nothing is written, and what has the name is empty, or could not be unlinked, or
was put there by another process. -/
theorem writeProxy_private {x509 : NewCert → X509} {proxy : VomsProxy} {ret : Int}
    (h : writeProxy K x509 filename proxy disk = .ok (ret, disk')) :
    (∀ p, p ≠ filename → disk' p = disk p) ∧ ∀ file, disk' filename = some file →
      (ret ≠ -1 ∧ file.owner = K.uid ∧ file.mode = 0o600) ∨
      (ret = -1 ∧ (file.pieces = [] ∨
        ∃ n found, (K.unlinks n = true → found = none) ∧ K.meanwhile n found = some file)) := by
  obtain ⟨hframe, ⟨rfl, hleft⟩ | ⟨pieces, hmarshal, hfile⟩⟩ := writeProxy_eq h
  · refine ⟨hframe, fun file hfile => .inr ⟨rfl, ?_⟩⟩
    rcases hleft with ⟨mode, hempty⟩ | ⟨n, found, hunlinked, hfound⟩
    · rw [hempty] at hfile
      cases hfile
      exact .inl rfl
    · exact .inr ⟨n, found, hunlinked, hfound.symm.trans hfile⟩
  · refine ⟨hframe, fun file hfile' => ?_⟩
    rw [hfile] at hfile'
    cases hfile'
    obtain ⟨-, -, ⟨rfl, -⟩ | ⟨hpos, -⟩⟩ := marshal_eq hmarshal
    · exact .inl ⟨by decide, rfl, rfl⟩
    · exact .inl ⟨by omega, rfl, rfl⟩

end

/-! ## What is read back -/

/-- The name of a PEM file. -/
structure Plain (name : Str) : Prop where
  long : 4 ≤ name.length
  noCard : ¬ isCard name
  noPkcs12 : name.drop (name.length - 4) ≠ ".p12".toList

/-- No block is complete in what a write leaves that fails. -/
def Torn (torn : List PemPiece) : Prop :=
  ∀ p ∈ torn, (∃ s, p = .text s) ∨ p = .certificate none ∨ p = .privateKey none

section

variable {R : Reader} {disk : Disk} {name : Str} {file : PemFile} {wantKey : Bool}

theorem loadChain_certs : ∀ {certs : List X509} {rest : List PemPiece} {count : Nat}
    {chain : List X509}, 0 < count →
      loadChain (certs.map (fun x => .certificate (some x)) ++ rest) count chain =
        loadChain rest (count + certs.length) (chain ++ certs)
  | [], rest, count, chain, _ => by simp
  | x :: certs, rest, count, chain, hcount => by
    rw [List.map_cons, List.cons_append, loadChain, if_neg (Nat.ne_of_gt hcount),
      loadChain_certs (Nat.succ_pos count), List.length_cons, List.append_assoc]
    congr 1
    omega

theorem loadChain_torn : ∀ (torn : List PemPiece) (count : Nat) (chain : List X509), Torn torn →
    0 < count → loadChain torn count chain = none ∨ loadChain torn count chain = some chain
  | [], count, chain, _, hcount => .inr (if_pos hcount)
  | p :: torn, count, chain, htorn, hcount => by
    have hrest : Torn torn := fun q hq => htorn q (List.mem_cons_of_mem _ hq)
    rcases htorn p List.mem_cons_self with ⟨s, rfl⟩ | rfl | rfl
    · exact loadChain_torn torn count chain hrest hcount
    · exact .inl rfl
    · exact loadChain_torn torn count chain hrest hcount

theorem readBlock_torn {α : Type} {block : PemPiece → Option (Option α)} {torn : List PemPiece}
    (h : ∀ p ∈ torn, block p = none ∨ block p = some none) : readBlock block torn = none := by
  unfold readBlock
  rcases hfound : torn.findSome? block with _ | x
  · rfl
  · obtain ⟨p, hp, hx⟩ := List.exists_of_findSome?_eq_some hfound
    rcases h p hp with hnone | hnone
    · rw [hx] at hnone
      cases hnone
    · rw [hx] at hnone
      cases hnone
      rfl

/-- The key of a private file that has the certificate. -/
def ownKey (R : Reader) (cert : X509) (pieces : List PemPiece) : Option EvpPKey := do
  let key ← readBlock PemPiece.key? pieces
  guard (mismatch R.keyParts cert key = false)
  some key

/-- Certificate, key and chain from one private file. -/
theorem loadCredentials_file (hname : Plain name) (hfile : disk name = some file)
    (hpieces : file.pieces ≠ []) (howner : file.owner = R.uid) (hmode : file.mode = 0o600) :
    loadCredentials R disk (some name) (some name) true wantKey = .ok (do
      let cert ← readBlock PemPiece.x509? file.pieces
      let key ← (if wantKey then (ownKey R cert file.pieces).map some else some none)
      let chain ← loadChain file.pieces 0 []
      some ⟨cert, some chain, key⟩) := by
  have hstat : checkstat R.uid (some file) = 0 := by
    simp [checkstat, howner, hmode, hpieces]
  have hcert : proxyLoadUserCert disk name = readBlock PemPiece.x509? file.pieces := by
    simp [proxyLoadUserCert, hname.noCard, hfile]
  have hkey : ∀ cert, proxyLoadUserKey R disk cert name = ownKey R cert file.pieces := by
    intro cert
    simp [proxyLoadUserKey, ownKey, hname.noCard, hfile, hstat]
  have hchain : loadStack disk name (some name) true = (loadChain file.pieces 0 []).map some := by
    simp [loadStack, proxyLoadUserProxy, hname.noCard, hfile]
  simp only [loadCredentials, if_neg (Nat.not_lt.mpr hname.long), if_pos hname.noPkcs12, loadKey,
    hcert, hkey, hchain, Res.pure_eq]
  simp only [Option.bind_eq_bind, Option.bind_map, Function.comp_def]

/-- Nothing is read without a certificate. -/
theorem loadCredentials_none (hname : Plain name) (hfile : disk name = some file)
    (hcert : readBlock PemPiece.x509? file.pieces = none) (wantStack : Bool) :
    loadCredentials R disk (some name) (some name) wantStack wantKey = .ok none := by
  have hload : proxyLoadUserCert disk name = none := by
    simp [proxyLoadUserCert, hname.noCard, hfile, hcert]
  simp only [loadCredentials, if_neg (Nat.not_lt.mpr hname.long), if_pos hname.noPkcs12, hload]
  rfl

theorem Torn.noCert {torn : List PemPiece} (h : Torn torn) : readBlock PemPiece.x509? torn = none :=
  readBlock_torn fun p hp => by rcases h p hp with ⟨s, rfl⟩ | rfl | rfl <;> simp [PemPiece.x509?]

theorem Torn.noKey {torn : List PemPiece} (h : Torn torn) : readBlock PemPiece.key? torn = none :=
  readBlock_torn fun p hp => by rcases h p hp with ⟨s, rfl⟩ | rfl | rfl <;> simp [PemPiece.key?]

theorem ownKey_self {cert : X509} {key : EvpPKey} (hkey : cert.key = some key)
    (pieces : List PemPiece) (x : X509) :
    ownKey R cert (.certificate (some x) :: .privateKey (some key) :: pieces) = some key := by
  have hmatch : mismatch R.keyParts cert key = false := by
    unfold mismatch
    rw [hkey]
    cases hmod : R.keyParts.modulus key <;> simp [hmod]
  have hread : readBlock PemPiece.key? (.certificate (some x) :: .privateKey (some key) :: pieces) =
      some key := rfl
  simp [ownKey, hread, hmatch]

/-- What is read from the first blocks of a proxy. -/
theorem loadCredentials_blocks {cert : X509} {key : EvpPKey} (hname : Plain name)
    (hkey : cert.key = some key) (certs : List X509) {torn : List PemPiece}
    (hfile : disk name = some ⟨R.uid, 0o600, blocks cert key certs ++ torn⟩) :
    loadCredentials R disk (some name) (some name) true wantKey = .ok (
      (loadChain torn (certs.length + 1) certs).map fun chain =>
        ⟨cert, some chain, if wantKey then some key else none⟩) := by
  rw [loadCredentials_file hname hfile (by simp [blocks]) rfl rfl]
  have hcert : readBlock PemPiece.x509? (blocks cert key certs ++ torn) = some cert := rfl
  have hown : ownKey R cert (blocks cert key certs ++ torn) = some key := ownKey_self hkey _ cert
  have hchain : loadChain (blocks cert key certs ++ torn) 0 [] =
      loadChain torn (certs.length + 1) certs := by
    have hskip : loadChain (blocks cert key certs ++ torn) 0 [] =
        loadChain (certs.map (fun x => .certificate (some x)) ++ torn) 1 [] := rfl
    rw [hskip, loadChain_certs Nat.one_pos, List.nil_append, Nat.add_comm]
  simp only [hcert, hchain, Option.bind_eq_bind, Option.bind_some, hown]
  cases wantKey <;> cases loadChain torn (certs.length + 1) certs <;> rfl

/-- What is read from a certificate without its key. -/
theorem loadCredentials_cert {cert : X509} {torn : List PemPiece} (wantKey : Bool)
    (hname : Plain name) (htorn : Torn torn)
    (hfile : disk name = some ⟨R.uid, 0o600, .certificate (some cert) :: torn⟩) :
    loadCredentials R disk (some name) (some name) true wantKey = .ok none ∨
      (wantKey = false ∧ loadCredentials R disk (some name) (some name) true wantKey =
        .ok (some ⟨cert, some [], none⟩)) := by
  rw [loadCredentials_file hname hfile nofun rfl rfl]
  have hcert : readBlock PemPiece.x509? (.certificate (some cert) :: torn) = some cert := rfl
  have hkey : ownKey R cert (.certificate (some cert) :: torn) = none := by
    have hread : readBlock PemPiece.key? (.certificate (some cert) :: torn) =
        readBlock PemPiece.key? torn := rfl
    simp [ownKey, hread, htorn.noKey]
  have hchain : loadChain (.certificate (some cert) :: torn) 0 [] = loadChain torn 1 [] := rfl
  simp only [hcert, hchain, Option.bind_eq_bind, Option.bind_some, hkey]
  cases wantKey with
  | true => exact .inl rfl
  | false =>
    rcases loadChain_torn torn 1 [] htorn Nat.one_pos with h | h
    · exact .inl (by rw [h]; rfl)
    · exact .inr ⟨rfl, by rw [h]; rfl⟩

/-- **What was written is what is read.** After `VOMS_WriteProxy` the user reads
from the file the certificate and the key of the proxy, and of the certificates
behind it those that are neither named like it nor by themselves. When the file
could not be written to its end the chain is shorter, or nothing is read. -/
theorem load_written {K : Calls} {x509 : NewCert → X509} {proxy : VomsProxy} {ret : Int}
    {disk' : Disk} (hname : Plain name) (huid : R.uid = K.uid)
    (htorn : ∀ n torn, K.fails n = some torn → Torn torn)
    (hkey : (x509 proxy.cert).key = proxy.key)
    (hwrite : writeProxy K x509 name proxy disk = .ok (ret, disk')) (hret : ret ≠ -1)
    (wantKey : Bool) :
    let chain := proxy.chain.filter (keeps (x509 proxy.cert) none)
    let read := loadCredentials R disk' (some name) (some name) true wantKey
    let shown := fun chain =>
      some ⟨x509 proxy.cert, some chain, if wantKey then proxy.key else none⟩
    (ret = 0 → read = .ok (shown chain)) ∧
      (read = .ok none ∨ ∃ k, read = .ok (shown (chain.take k))) := by
  intro chain read shown
  obtain ⟨-, ⟨rfl, -⟩ | ⟨pieces, hmarshal, hfile⟩⟩ := writeProxy_eq hwrite
  · exact absurd rfl hret
  obtain ⟨key, hproxy, hpieces⟩ := marshal_eq hmarshal
  rw [hproxy] at hkey
  rw [← huid] at hfile
  have hshown : ∀ l, shown l =
      some ⟨x509 proxy.cert, some l, if wantKey then some key else none⟩ := by
    intro l
    simp only [shown, hproxy]
  rcases hpieces with ⟨rfl, rfl⟩ | ⟨hpos, k, n, torn, hfails, rfl⟩
  · have hall : read = .ok (shown chain) := by
      rw [← List.append_nil (blocks _ _ _)] at hfile
      refine (loadCredentials_blocks hname hkey chain hfile).trans ?_
      rw [hshown]
      rfl
    exact ⟨fun _ => hall, .inr ⟨chain.length, by rw [List.take_length]; exact hall⟩⟩
  · refine ⟨fun h => absurd h (Int.ne_of_gt hpos), ?_⟩
    have ht := htorn n torn hfails
    match k with
    | 0 => exact .inl (loadCredentials_none hname hfile ht.noCert true)
    | 1 =>
      rcases loadCredentials_cert wantKey hname ht hfile with hnone | ⟨rfl, hcert⟩
      · exact .inl hnone
      · exact .inr ⟨0, hcert⟩
    | k + 2 =>
      have hblocks : (blocks (x509 proxy.cert) key chain).take (k + 2) =
          blocks (x509 proxy.cert) key (chain.take k) := by
        simp [blocks, List.map_take]
      rw [hblocks] at hfile
      have hread : read = _ := loadCredentials_blocks hname hkey (chain.take k) hfile
      rcases loadChain_torn torn ((chain.take k).length + 1) (chain.take k) ht (Nat.succ_pos _) with
        h | h
      · exact .inl (by rw [hread, h]; rfl)
      · exact .inr ⟨k, by rw [hread, h, hshown]; rfl⟩

end

namespace Sample

def proxyName : X509Name :=
  ⟨Voms.L1.Sample.userName.entries ++ [⟨NID_commonName, "proxy".toList⟩], [3, 1],
    "/CN=proxy".toList⟩

def proxy : VomsProxy where
  cert := ⟨⟨⟨false, [2]⟩, ⟨false, [11]⟩, proxyName, Voms.L1.Sample.userName, ⟨.utc, []⟩, ⟨.utc, []⟩,
    [7], none⟩, ⟨[]⟩⟩
  chain := [Voms.L1.Sample.user, Voms.L1.Sample.root]
  key := some ⟨7⟩

def x509 (c : NewCert) : X509 :=
  { Voms.L1.Sample.user with subject := c.info.subject, issuer := c.info.issuer, key := some ⟨7⟩ }

/-- Another process is there first with a file that anybody can read. -/
def raced : Calls where
  uid := 500
  umask := 0o22
  unlinks _ := true
  meanwhile n found := if n = 2 then some ⟨501, 0o644, []⟩ else found
  creates _ := true
  fchmod := true
  bioNewFd := true
  fails _ := none

def reader : Reader := ⟨500, ⟨fun _ => EVP_PKEY_RSA, fun key => some key.id⟩, fun _ => none⟩

def path : Str := "/tmp/x509up_u500".toList

theorem path_plain : Plain path := ⟨by decide, by decide, by decide⟩

end Sample

theorem writeProxy_private_raced : ∃ disk',
    writeProxy Sample.raced Sample.x509 Sample.path Sample.proxy (fun _ => none) = .ok (0, disk') ∧
      ∀ file, disk' Sample.path = some file → file.mode = 0o600 := by
  obtain ⟨disk', hwrite⟩ : ∃ disk', writeProxy Sample.raced Sample.x509 Sample.path Sample.proxy
      (fun _ => none) = .ok (0, disk') := ⟨_, rfl⟩
  refine ⟨disk', hwrite, fun file hfile => ?_⟩
  obtain ⟨-, -, hmode⟩ | ⟨hret, -⟩ := (writeProxy_private hwrite).2 file hfile
  · exact hmode
  · cases hret

/-- The root is named by itself, and stays out. -/
theorem load_written_raced : ∃ disk',
    writeProxy Sample.raced Sample.x509 Sample.path Sample.proxy (fun _ => none) = .ok (0, disk') ∧
      loadCredentials Sample.reader disk' (some Sample.path) (some Sample.path) true true =
        .ok (some ⟨Sample.x509 Sample.proxy.cert, some [Voms.L1.Sample.user], some ⟨7⟩⟩) := by
  refine ⟨_, rfl, ?_⟩
  exact (load_written (R := Sample.reader) (K := Sample.raced) Sample.path_plain rfl nofun rfl rfl
    (by decide) true).1 rfl

end Voms.L3.ProxyFile
