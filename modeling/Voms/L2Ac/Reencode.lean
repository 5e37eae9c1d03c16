import Voms.L1Asn1.Newformat
import Voms.L2Ac.RoundTrip

/-!
# What survives being written and read

`i2d_AC` and `d2i_AC` on the certificates of `writeac` and on any other. A
certificate of `writeac` comes back as it was unless the issuer's certificate
has a unique identifier, which `writeac` copies into `acinfo->id`; then it
cannot be read at all. The holder of a certificate comes back as it was if
the certificate can be read and the holder has a `baseCertificateID`.

`i2dAc_d2iAc` says both, with the exact conditions.
-/
namespace Voms.L2

open Voms.Core Voms.Core.Tlv Voms.L1 Voms.L1.Newformat

/-- `writeac`, inverted. -/
theorem writeac_ok {S : Signer} {issuerc holder : X509} {issuerstack : Option (List X509)}
    {pkey : EvpPKey} {s : Asn1Integer} {fqan attributes : List Str} {t vo uri : Option Str}
    {valid startpast : Int} {old : Bool} {extensions : Option (List X509Ext)} {ac : Ac}
    (h : writeac S issuerc issuerstack holder pkey s fqan t attributes vo uri valid old startpast
      extensions = .ok ac) :
    ∃ time1 time2 exts, ac = signInfo S issuerc pkey
      (fillInfo issuerc holder s old time1 time2 (makeCapabilities fqan vo uri) exts) := by
  unfold writeac at h
  obtain ⟨time1, -, h⟩ := Res.bind_eq_ok.mp h
  obtain ⟨time2, -, h⟩ := Res.bind_eq_ok.mp h
  obtain ⟨attrs, -, h⟩ := Res.bind_eq_ok.mp h
  obtain ⟨exts, -, h⟩ := Res.bind_eq_ok.mp h
  cases h
  exact ⟨time1, time2, exts, rfl⟩

/-- The one attribute of `writeac` is the kind that comes back as it was. -/
theorem plain_capabilities (O : OpenSsl) (fqan : List Str) (vo uri : Option Str) :
    Plain O [makeCapabilities fqan vo uri] := by
  intro a ha
  obtain rfl := List.mem_singleton.mp ha
  refine ⟨O.i2t_idatcap, ?_⟩
  unfold makeCapabilities
  split <;> simp

/-- Of what `writeac` fills in only the unique identifier can be in the way. -/
theorem infoReads_written (O : OpenSsl) (S : Signer) (issuerc holder : X509) (pkey : EvpPKey)
    (s : Asn1Integer) (old : Bool) (time1 time2 : Asn1Time) (fqan : List Str)
    (vo uri : Option Str) (exts : List X509Ext) {info : AcInfo}
    (hinfo : (signInfo S issuerc pkey (fillInfo issuerc holder s old time1 time2
      (makeCapabilities fqan vo uri) exts)).acinfo = some info) :
    InfoReads O info ↔ issuerc.issuerUID = none := by
  cases hinfo
  refine ⟨fun h => h.2.2.2, fun huid => ⟨?_, ?_, ?_, huid⟩⟩
  · intro h hh
    cases hh
    exact ⟨fun is his => by cases his; rfl, fun d hd => (nomatch hd)⟩
  · intro f hf
    cases hf
    exact ⟨fun is his => (nomatch his), fun d hd => (nomatch hd)⟩
  · intro l hl
    cases hl
    intro a ha hgroup
    rw [(plain_capabilities O fqan vo uri a ha).1, Option.some.injEq] at hgroup
    exact absurd hgroup (by decide)

/-- What `writeac` filled in is read back as it was if there is no unique
identifier, and not at all if there is one. -/
theorem writeac_outcome {O : OpenSsl} {S : Signer} {issuerc holder : X509} {pkey : EvpPKey}
    {s : Asn1Integer} {old : Bool} {time1 time2 : Asn1Time} {fqan : List Str}
    {vo uri : Option Str} {exts : List X509Ext} {ac : Ac}
    (hac : ac = signInfo S issuerc pkey
      (fillInfo issuerc holder s old time1 time2 (makeCapabilities fqan vo uri) exts))
    (hk : AcKept O ac) :
    Outcome (d2iAc O (i2dAc O ac)) (issuerc.issuerUID = none) ac := by
  subst hac
  obtain ⟨l', hsame, hl'⟩ := ac_outcome hk rfl
  obtain rfl := hsame _ rfl (plain_capabilities O fqan vo uri)
  exact hl'.congr
    (infoReads_written O S issuerc holder pkey s old time1 time2 fqan vo uri exts rfl)

/-- **What comes back.** A certificate that `writeac` built is read back
field by field exactly if the issuer's certificate has no unique identifier.
Any certificate is read back with the holder it had exactly if it can be read
and the holder has a `baseCertificateID`: no unique identifier in the
certificate, the holder or the form, an object identifier in every digest, no
attribute of the type that is written and not read. -/
theorem i2dAc_d2iAc (O : OpenSsl) :
    (∀ (S : Signer) (issuerc : X509) (issuerstack : Option (List X509)) (holder : X509)
      (pkey : EvpPKey) (s : Asn1Integer) (fqan : List Str) (t : Option Str)
      (attributes : List Str) (vo uri : Option Str) (valid : Int) (old : Bool)
      (startpast : Int) (extensions : Option (List X509Ext)) (ac : Ac),
      writeac S issuerc issuerstack holder pkey s fqan t attributes vo uri valid old startpast
        extensions = .ok ac → AcKept O ac →
      (d2iAc O (i2dAc O ac) = some ac ↔ issuerc.issuerUID = none)) ∧
    (∀ (ac : Ac) (info : AcInfo) (holder : AcHolder), AcKept O ac → ac.acinfo = some info →
      info.holder = some holder →
      ((∃ ac' info', d2iAc O (i2dAc O ac) = some ac' ∧ ac'.acinfo = some info' ∧
        info'.holder = some holder) ↔ InfoReads O info ∧ holder.baseid ≠ none)) := by
  refine ⟨?_, ?_⟩
  · intro S issuerc issuerstack holder pkey s fqan t attributes vo uri valid old startpast
      extensions ac h hk
    obtain ⟨time1, time2, exts, hac⟩ := writeac_ok h
    rw [(writeac_outcome hac hk).eq_some_iff]
    exact and_iff_left rfl
  · intro ac info holder hk hinfo hholder
    obtain ⟨l', -, hl'⟩ := ac_outcome hk hinfo
    have hread : (readInfo info l').holder = some (readHolder holder) := by
      unfold readInfo
      rw [hholder, Option.map_some]
    refine ⟨fun h => ?_, fun h => ?_⟩
    · obtain ⟨ac', info', hdec, hinfo', hholder'⟩ := h
      obtain ⟨hreads, rfl⟩ := hl'.eq_some_iff.mp hdec
      cases hinfo'
      rw [hread, Option.some.injEq] at hholder'
      refine ⟨hreads, fun hnone => ?_⟩
      rw [← hholder'] at hnone
      exact absurd hnone (Option.some_ne_none _)
    · obtain ⟨hreads, hbase⟩ := h
      refine ⟨_, _, hl'.1 hreads, rfl, ?_⟩
      rw [hread]
      unfold readHolder
      cases hb : holder.baseid with
      | none => exact absurd hb hbase
      | some is =>
        rw [Option.getD_some, ← hb]

/-! ### Two issuers -/

namespace Sample

/-- A codec that knows the values of a table. -/
def table {α : Type} [DecidableEq α] (t : Tag) (l : List α) : Codec t α where
  i2d a := .prim [.ofNat (l.idxOf a)]
  d2i
    | .prim [n] => l[n.toNat]?
    | _ => none

theorem table_keeps {α : Type} [DecidableEq α] {t : Tag} {l : List α} {a : α} (h : a ∈ l)
    (hlen : l.length ≤ 256) : (table t l).Keeps a := by
  have hidx := List.idxOf_lt_length_of_mem h
  have hn : (UInt8.ofNat (l.idxOf a)).toNat = l.idxOf a := by
    rw [UInt8.toNat_ofNat']
    omega
  show l[(UInt8.ofNat (l.idxOf a)).toNat]? = some a
  rw [hn, List.getElem?_idxOf h]

def bytesOf (s : Str) : List UInt8 := s.map fun c => .ofNat c.toNat

/-- The bytes of a text. -/
def text (t : Tag) : Codec t Str where
  i2d s := .prim (bytesOf s)
  d2i
    | .prim b => some (b.map fun c => Char.ofNat c.toNat)
    | .cons _ => none

/-- A positive number. -/
def number (t : Tag) : Codec t Asn1Integer where
  i2d a := .prim a.data
  d2i
    | .prim b => some ⟨false, b⟩
    | .cons _ => none

/-- The names and the extensions by table. -/
def openSsl (names : List (List GeneralName)) (exts : List X509Ext) : OpenSsl where
  integer := number _
  bitString :=
    ⟨fun a => .prim (0 :: bytesOf a.data), fun
      | .prim (_ :: b) => some ⟨b.map fun c => Char.ofNat c.toNat⟩
      | _ => none⟩
  octetString := text _
  objectString := text _
  object := table _ [.idatcap]
  oid := table _ []
  enumerated := number _
  utf8String := text _
  algor := table _ [⟨1⟩]
  generalNames := table _ names
  extension := table _ exts
  generalizedTime :=
    ⟨fun a => .prim (bytesOf a.data), fun
      | .prim b => some ⟨.generalized, b.map fun c => Char.ofNat c.toNat⟩
      | .cons _ => none⟩
  i2t
    | .idatcap => some "idatcap".toList
    | .other _ => none
  i2t_idatcap := rfl
  sortSet := id
  sortSet_perm := fun _ => .refl _

/-- The server, with a unique identifier or without. -/
def serverWith (uid : Option BitString) : X509 := { server with issuerUID := uid }

def madeExts (issuerc : X509) : List X509Ext :=
  writtenExts signer issuerc none [] "vo".toList "voms.example.org:15000".toList none

/-- What that server writes for `user`. -/
def made (uid : Option BitString) : Ac :=
  signInfo signer (serverWith uid) ⟨20⟩ (fillInfo (serverWith uid) user ⟨false, [7]⟩ false dawn noon
    (makeCapabilities [fqan] (some "vo".toList) (some "voms.example.org:15000".toList))
    (madeExts (serverWith uid)))

theorem made_eq (uid : Option BitString) :
    writeac signer (serverWith uid) none user ⟨20⟩ ⟨false, [7]⟩ [fqan] none [] (some "vo".toList)
      (some "voms.example.org:15000".toList) 43200 false 0 none = .ok (made uid) := rfl

def madeNames : List (List GeneralName) :=
  [[.dirName caName], [.dirName serverName],
    makeUri (some "vo".toList) (some "voms.example.org:15000".toList)]

/-- OpenSSL for that certificate. -/
def madeSsl (uid : Option BitString) : OpenSsl := openSsl madeNames (madeExts (serverWith uid))

theorem names_kept {uid : Option BitString} {n : List GeneralName} (h : n ∈ madeNames) :
    (madeSsl uid).generalNames.Keeps n := table_keeps h (by decide)

theorem made_kept (uid : Option BitString) : AcKept (madeSsl uid) (made uid) where
  acinfo := by
    refine ⟨_, rfl, ?_⟩
    refine ⟨⟨_, rfl, rfl⟩, ⟨_, rfl, ?_, ?_, ?_⟩, ?_, ⟨_, rfl, rfl⟩, ⟨_, rfl, rfl⟩,
      ⟨_, rfl, ⟨_, rfl, rfl⟩, ⟨_, rfl, rfl⟩⟩, ⟨_, rfl, ?_⟩, ?_⟩
    · intro is his
      cases his
      exact ⟨⟨_, rfl, names_kept (.head _)⟩, ⟨_, rfl, rfl⟩⟩
    · exact fun n hn => (nomatch hn)
    · exact fun d hd => (nomatch hd)
    · intro f hf
      cases hf
      exact ⟨⟨_, rfl, names_kept (.tail _ (.head _))⟩, fun is his => (nomatch his),
        fun d hd => (nomatch hd)⟩
    · intro a ha
      obtain rfl := List.mem_singleton.mp ha
      refine ⟨rfl, fun i hi => ?_⟩
      obtain rfl := List.mem_singleton.mp hi
      refine ⟨names_kept (.tail _ (.tail _ (.head _))), fun v hv => ?_⟩
      obtain rfl := List.mem_singleton.mp hv
      rfl
    · intro e he
      have hlen : (madeExts (serverWith uid)).length = 3 := rfl
      exact table_keeps he (by omega)
  sigAlg := ⟨_, rfl, rfl⟩
  signature := ⟨_, rfl, rfl⟩

end Sample

/-- `i2dAc_d2iAc` for a server without a unique identifier. -/
theorem i2dAc_d2iAc_sample :
    d2iAc (Sample.madeSsl none) (i2dAc (Sample.madeSsl none) (Sample.made none)) =
      some (Sample.made none) ∧
    ∃ ac' info', d2iAc (Sample.madeSsl none) (i2dAc (Sample.madeSsl none) (Sample.made none)) =
      some ac' ∧ ac'.acinfo = some info' ∧
        info'.holder = some ⟨some ⟨some [.dirName Sample.caName], some ⟨false, [11]⟩, none⟩,
          none, none⟩ := by
  refine ⟨((i2dAc_d2iAc (Sample.madeSsl none)).1 _ _ _ _ _ _ _ _ _ _ _ _ _ _ _ _
    (Sample.made_eq none) (Sample.made_kept none)).mpr rfl, ?_⟩
  refine ((i2dAc_d2iAc (Sample.madeSsl none)).2 _ _ _ (Sample.made_kept none) rfl rfl).mpr
    ⟨?_, Option.some_ne_none _⟩
  exact (infoReads_written _ Sample.signer _ _ ⟨20⟩ _ _ _ _ _ _ _ _ rfl).mpr rfl

/-- With one, what was written cannot be read. -/
theorem i2dAc_d2iAc_fails :
    ¬ ∀ (O : OpenSsl) (S : Signer) (issuerc : X509) (issuerstack : Option (List X509))
      (holder : X509) (pkey : EvpPKey) (s : Asn1Integer) (fqan : List Str) (t : Option Str)
      (attributes : List Str) (vo uri : Option Str) (valid : Int) (old : Bool)
      (startpast : Int) (extensions : Option (List X509Ext)) (ac : Ac),
      writeac S issuerc issuerstack holder pkey s fqan t attributes vo uri valid old startpast
        extensions = .ok ac → AcKept O ac → d2iAc O (i2dAc O ac) = some ac := by
  intro h
  let uid : Option BitString := some ⟨"voms-7".toList⟩
  have hback := h (Sample.madeSsl uid) _ _ _ _ _ _ _ _ _ _ _ _ _ _ _ _ (Sample.made_eq uid)
    (Sample.made_kept uid)
  have hnone := (writeac_outcome rfl (Sample.made_kept uid)).2 (Option.some_ne_none _)
  exact (nomatch hnone.symm.trans hback)

end Voms.L2
