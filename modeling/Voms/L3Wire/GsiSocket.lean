import Mathlib.Data.List.Basic
import Mathlib.Data.UInt
import Voms.Core.Bits
import Voms.Core.Frames
import Voms.Core.Run

/-!
# The framing of a GSI socket

`globusf_read` and `globusf_write` of `src/socklib/Server.cpp` stand between
OpenSSL and the socket. A GSI client sends tokens, each behind its length in
four bytes; the writer puts the length before what it writes and the reader
takes it off, with two statics for the state: the kind of the stream (`mode`)
and the bytes that are still to come of the current token (`expected`).

A read of the socket returns what has arrived, so a call may find a header
cut in two, or the end of one token and the beginning of the next. The reader
assumes neither happens: it looks for a header only in a read of four bytes
or more, at the start of it, and only when nothing is pending. `Fits` is this
assumption on one call, and `globusfRead_payload` says that in a run of calls
that all fit, what is delivered is the payload and `expected` counts what is
pending. `fitting_iff_sound`: the first call that does not fit delivers a
header, or leaves `expected` negative.
-/
namespace Voms.L3.GsiSocket

open Voms.Core

/-! ## The statics and the socket -/

/-- mirrors src/socklib/Server.cpp:79 -/
inductive Mode where
  | unknown | gsi | ssl2 | tls | sslGlobus
  deriving DecidableEq, Repr

/-- The two statics. mirrors src/socklib/Server.cpp:81-83 -/
structure Framing where
  mode : Mode
  expected : Int
  deriving DecidableEq, Repr

/-- A value as an `int` holds it. -/
def int32 (x : Int) : Int := Int.bmod x 4294967296

theorem int32_id {x : Int} (h0 : -2147483648 ≤ x) (h1 : x < 2147483648) : int32 x = x :=
  Int.bmod_eq_of_le (by omega) (by omega)

/-- The size of a buffer. -/
abbrev Size := Fin 2147483648

/-- What a read returns, and what it leaves in the buffer. -/
structure Recv where
  ret : Int
  out : List UInt8
  whole : out.length = ret.toNat

/-- The socket: what the peer has sent and nobody has read, and what the
reads to come find: a number of bytes that have arrived, or a failure. -/
structure Net where
  unread : List UInt8
  reads : List Int
  deriving DecidableEq, Repr

/-- `BIO` reading of the socket: at most `outl` of the bytes that are there. -/
def readb (net : Net) (outl : Size) : Recv × Net :=
  match net.reads with
  | [] => (⟨-1, [], rfl⟩, net)
  | k :: reads =>
    if hk : k ≤ 0 then (⟨k, [], by simp [Int.toNat_of_nonpos hk]⟩, ⟨net.unread, reads⟩)
    else (⟨(net.unread.take (min k.toNat outl)).length, net.unread.take (min k.toNat outl), rfl⟩,
      ⟨net.unread.drop (min k.toNat outl), reads⟩)

theorem readb_unread {net net' : Net} {outl : Size} {ret : Recv}
    (hr : readb net outl = (ret, net')) : ret.out ++ net'.unread = net.unread := by
  unfold readb at hr
  split at hr
  · obtain ⟨rfl, rfl⟩ := Prod.mk.inj hr
    rfl
  · split at hr
    · obtain ⟨rfl, rfl⟩ := Prod.mk.inj hr
      rfl
    · obtain ⟨rfl, rfl⟩ := Prod.mk.inj hr
      exact List.take_append_drop ..

theorem readb_le {net net' : Net} {outl : Size} {ret : Recv}
    (hr : readb net outl = (ret, net')) : ret.ret < 2147483648 := by
  have ho := outl.isLt
  unfold readb at hr
  split at hr
  · obtain ⟨rfl, rfl⟩ := Prod.mk.inj hr
    decide
  · split at hr
    · rename_i k _ _ hk
      obtain ⟨rfl, rfl⟩ := Prod.mk.inj hr
      show k < 2147483648
      omega
    · obtain ⟨rfl, rfl⟩ := Prod.mk.inj hr
      show ((List.take _ _).length : Int) < _
      rw [List.length_take]
      omega

/-! ## The reader -/

/-- mirrors src/socklib/Server.cpp:85-110 -/
def detectMode (beginning : UInt8) : Mode :=
  if 20 ≤ beginning ∧ beginning ≤ 23 then .tls
  else if beginning = 26 then .sslGlobus
  else if beginning &&& 0x80 ≠ 0 then .ssl2
  else .gsi

/-- The four bytes at the start of the buffer, as one number.
mirrors src/socklib/Server.cpp:127-130 -/
def fourBytes (out : List UInt8) : Nat :=
  ((((((out.getD 0 0).toNat <<< 8) + (out.getD 1 0).toNat) <<< 8) +
    (out.getD 2 0).toNat) <<< 8) + (out.getD 3 0).toNat

/-- The buffer without its first four bytes.
mirrors src/socklib/Server.cpp:131-132 -/
def Recv.dropHeader (r : Recv) : Recv :=
  ⟨r.ret - 4, r.out.drop 4, by rw [List.length_drop, r.whole]; omega⟩

/-- mirrors src/socklib/Server.cpp:115-152 -/
def globusfRead (f : Framing) (net : Net) (outl : Size) : Framing × Net × Recv :=
  let (ret, net) := readb net outl
  if 4 ≤ ret.ret then
    let f := if f.mode = .unknown then { f with mode := detectMode (ret.out.getD 0 0) } else f
    if f.mode = .gsi then
      let (f, ret) :=
        if f.expected = 0 then ({ f with expected := int32 (fourBytes ret.out) }, ret.dropHeader)
        else (f, ret)
      let f := { f with expected := int32 (f.expected - ret.ret) }
      if ret.ret = 0 then
        -- only the length was there, so the read is made again
        let (again, net) := readb net outl
        if 0 < again.ret then
          ({ f with expected := int32 (f.expected - again.ret) }, net, again)
        else (f, net, again)
      else (f, net, ret)
    else (f, net, ret)
  else if 0 < ret.ret ∧ f.mode = .gsi ∧ 0 < f.expected then
    ({ f with expected := int32 (f.expected - ret.ret) }, net, ret)
  else (f, net, ret)

/-! ## The writer -/

/-- mirrors src/socklib/Server.cpp:161-165 -/
def lengthBytes (inl : Nat) : List UInt8 :=
  [.ofNat ((inl &&& 0xff000000) >>> 24), .ofNat ((inl &&& 0x00ff0000) >>> 16),
   .ofNat ((inl &&& 0x0000ff00) >>> 8), .ofNat (inl &&& 0x000000ff)]

/-- mirrors src/socklib/Server.cpp:154-171 -/
def globusfWrite (mode : Mode) (data : List UInt8) : List UInt8 :=
  if mode ≠ .gsi then data else lengthBytes data.length ++ data

/-- The payload of a token: what four bytes can give the length of. -/
abbrev Token := { p : List UInt8 // p.length < 4294967296 }

/-- The tokens as frames. -/
def frames (tokens : List Token) : List (Frames.Frame UInt8) :=
  tokens.map fun p => (lengthBytes p.1.length, p.1)

theorem fourBytes_lengthBytes {n : Nat} (h : n < 4294967296) (tl : List UInt8) :
    fourBytes (lengthBytes n ++ tl) = n := by
  have h3 : (n &&& 0xff000000) >>> 24 = n / 2 ^ 24 % 2 ^ 8 := field_eq n 24 8
  have h2 : (n &&& 0x00ff0000) >>> 16 = n / 2 ^ 16 % 2 ^ 8 := field_eq n 16 8
  have h1 : (n &&& 0x0000ff00) >>> 8 = n / 2 ^ 8 % 2 ^ 8 := field_eq n 8 8
  have h0 : n &&& 0x000000ff = n % 2 ^ 8 := Nat.and_two_pow_sub_one_eq_mod n 8
  show (((((UInt8.ofNat ((n &&& 0xff000000) >>> 24)).toNat <<< 8 +
    (UInt8.ofNat ((n &&& 0x00ff0000) >>> 16)).toNat) <<< 8) +
    (UInt8.ofNat ((n &&& 0x0000ff00) >>> 8)).toNat) <<< 8) +
    (UInt8.ofNat (n &&& 0x000000ff)).toNat = n
  rw [h3, h2, h1, h0]
  simp only [UInt8.toNat_ofNat', Nat.shiftLeft_eq, Nat.mod_mod]
  exact bytes4_eq h

theorem wire_frames (tokens : List Token) :
    Frames.wire (frames tokens) = tokens.flatMap fun p => globusfWrite .gsi p.1 := by
  unfold Frames.wire frames
  rw [List.flatMap_map]
  rfl

/-! ## What a call does -/

variable {f : Framing} {net net' : Net} {outl : Size} {ret : Recv}

theorem Recv.out_nil (h : ret.ret ≤ 0) : ret.out = [] := by
  have hw := ret.whole
  rw [Int.toNat_of_nonpos h] at hw
  exact List.eq_nil_of_length_eq_zero hw

theorem Recv.ret_eq (h : 0 ≤ ret.ret) : ret.ret = ret.out.length := by
  rw [ret.whole, Int.toNat_of_nonneg h]

/-- The socket gave nothing. -/
theorem globusfRead_nothing (hr : readb net outl = (ret, net')) (h : ret.ret ≤ 0) :
    globusfRead f net outl = (f, net', ret) := by
  have h4 : ¬ 4 ≤ ret.ret := by omega
  have h0 : ¬ (0 < ret.ret ∧ f.mode = .gsi ∧ 0 < f.expected) := fun hc => by omega
  unfold globusfRead
  simp only [hr, if_neg h4, if_neg h0]

/-- In a token, everything is payload. -/
theorem globusfRead_pending (hr : readb net outl = (ret, net')) (h : 0 < ret.ret)
    (hm : f.mode = .gsi) (he : 0 < f.expected) :
    globusfRead f net outl =
      ({ f with expected := int32 (f.expected - ret.ret) }, net', ret) := by
  have hu : ¬ f.mode = .unknown := by simp [hm]
  have hne : ¬ f.expected = 0 := by omega
  have hr0 : ¬ ret.ret = 0 := by omega
  unfold globusfRead
  simp only [hr]
  by_cases h4 : 4 ≤ ret.ret
  · simp only [if_pos h4, if_neg hu, if_pos hm, if_neg hne, if_neg hr0]
  · simp only [if_neg h4, if_pos (show 0 < ret.ret ∧ f.mode = .gsi ∧ 0 < f.expected from ⟨h, hm, he⟩)]

/-- The stream is known for GSI, or looks like it. -/
def LooksGsi (f : Framing) (beginning : UInt8) : Prop :=
  f.mode = .gsi ∨ f.mode = .unknown ∧ detectMode beginning = .gsi

theorem LooksGsi.mode (h : LooksGsi f (ret.out.getD 0 0)) :
    (if f.mode = .unknown then { f with mode := detectMode (ret.out.getD 0 0) } else f) =
      ({ f with mode := .gsi } : Framing) := by
  rcases h with h | ⟨hu, hd⟩
  · rw [if_neg (by simp [h]), ← h]
  · rw [if_pos hu, hd]

/-- Less than a header, with nothing pending: it is taken for payload. -/
theorem globusfRead_short (hr : readb net outl = (ret, net')) (h : ret.ret < 4)
    (he : f.expected = 0) : globusfRead f net outl = (f, net', ret) := by
  have h4 : ¬ 4 ≤ ret.ret := by omega
  have h0 : ¬ (0 < ret.ret ∧ f.mode = .gsi ∧ 0 < f.expected) := fun hc => by omega
  unfold globusfRead
  simp only [hr, if_neg h4, if_neg h0]

/-- A stream taken for another kind: nothing is taken off. -/
theorem globusfRead_other (hr : readb net outl = (ret, net')) (h : 4 ≤ ret.ret)
    (hm : f.mode = .unknown) (hd : detectMode (ret.out.getD 0 0) ≠ .gsi) :
    globusfRead f net outl =
      ({ f with mode := detectMode (ret.out.getD 0 0) }, net', ret) := by
  unfold globusfRead
  simp only [hr, if_pos h, if_pos hm, if_neg hd]

/-- A header and payload behind it. -/
theorem globusfRead_header (hr : readb net outl = (ret, net')) (h : 4 < ret.ret)
    (hm : LooksGsi f (ret.out.getD 0 0)) (he : f.expected = 0) :
    globusfRead f net outl =
      (⟨.gsi, int32 (int32 (fourBytes ret.out) - (ret.ret - 4))⟩, net', ret.dropHeader) := by
  have h4 : 4 ≤ ret.ret := by omega
  have hr0 : ¬ ret.ret - 4 = 0 := by omega
  unfold globusfRead
  simp only [hr, if_pos h4, hm.mode, if_pos he, Recv.dropHeader, if_neg hr0, if_true]

/-- A header alone: the read is made again. -/
theorem globusfRead_again {again : Recv} {net'' : Net} (hr : readb net outl = (ret, net'))
    (ha : readb net' outl = (again, net'')) (h : ret.ret = 4)
    (hm : LooksGsi f (ret.out.getD 0 0)) (he : f.expected = 0) :
    globusfRead f net outl =
      (⟨.gsi, if 0 < again.ret then int32 (int32 (int32 (fourBytes ret.out) - 0) - again.ret)
        else int32 (int32 (fourBytes ret.out) - 0)⟩, net'', again) := by
  have h4 : 4 ≤ ret.ret := by omega
  have hr0 : ret.ret - 4 = 0 := by omega
  unfold globusfRead
  simp only [hr, if_pos h4, hm.mode, if_pos he, Recv.dropHeader, hr0, if_true, ha]
  split <;> rfl

/-! ## A connection -/

/-- The statics, the socket, and what OpenSSL has been given. -/
structure Conn where
  framing : Framing
  net : Net
  delivered : List UInt8
  deriving DecidableEq, Repr

/-- A call of `globusf_read` with a buffer of `outl` bytes. -/
def Conn.call (w : Conn) (outl : Size) : Conn :=
  let (f, net, ret) := globusfRead w.framing w.net outl
  ⟨f, net, w.delivered ++ ret.out⟩

theorem Conn.call_eq {w : Conn} (h : globusfRead w.framing w.net outl = (f, net, ret)) :
    w.call outl = ⟨f, net, w.delivered ++ ret.out⟩ := by
  unfold Conn.call
  rw [h]

/-- The peer has sent the tokens, and the reads will cut them as `reads` says. -/
def start (tokens : List Token) (mode : Mode) (reads : List Int) : Conn :=
  ⟨⟨mode, 0⟩, ⟨tokens.flatMap fun p => globusfWrite .gsi p.1, reads⟩, []⟩

/-- The next read stays within a token: if one is pending it does not go past
its end; if none is, and anything is read, it has the whole header, of a
length that is an `int`, and does not go past the end of the token behind it,
neither at once nor when only the header was there and the read is made
again. In a stream not yet known the header looks like GSI. -/
def Conn.Fits (w : Conn) (outl : Size) : Prop :=
  let (ret, net) := readb w.net outl
  if w.framing.expected = 0 then
    0 < ret.ret →
      4 ≤ ret.ret ∧ fourBytes ret.out < 2147483648 ∧ ret.ret ≤ 4 + fourBytes ret.out ∧
      (ret.ret = 4 → (readb net outl).1.ret ≤ fourBytes ret.out) ∧
      LooksGsi w.framing (ret.out.getD 0 0)
  else ret.ret ≤ w.framing.expected

theorem Conn.fits_begin {w : Conn} (hr : readb w.net outl = (ret, net'))
    (he : w.framing.expected = 0) : w.Fits outl ↔ (0 < ret.ret →
      4 ≤ ret.ret ∧ fourBytes ret.out < 2147483648 ∧ ret.ret ≤ 4 + fourBytes ret.out ∧
      (ret.ret = 4 → (readb net' outl).1.ret ≤ fourBytes ret.out) ∧
      LooksGsi w.framing (ret.out.getD 0 0)) := by
  unfold Conn.Fits
  simp only [hr, if_pos he]

theorem Conn.fits_pending {w : Conn} (hr : readb w.net outl = (ret, net'))
    (he : ¬ w.framing.expected = 0) : w.Fits outl ↔ ret.ret ≤ w.framing.expected := by
  unfold Conn.Fits
  simp only [hr, if_neg he]

instance (f : Framing) (b : UInt8) : Decidable (LooksGsi f b) := by
  unfold LooksGsi
  infer_instance

instance (w : Conn) (outl : Size) : Decidable (w.Fits outl) := by
  unfold Conn.Fits
  infer_instance

/-- Any call. -/
def step (w : Conn) (outl : Size) (w' : Conn) : Prop := w' = w.call outl

/-- A call whose reads stay within a token. -/
def fitting (w : Conn) (outl : Size) (w' : Conn) : Prop := w.Fits outl ∧ w' = w.call outl

/-- What has been delivered is the payload of what has been read, and
`expected` is not negative. -/
structure Sound (tokens : List Token) (w : Conn) : Prop where
  delivered : ∃ n ≤ (Frames.wire (frames tokens)).length,
    w.net.unread = (Frames.wire (frames tokens)).drop n ∧
      w.delivered = Frames.content (frames tokens) n
  expected : 0 ≤ w.framing.expected

/-! ## The invariant -/

/-- `n` bytes have been read and `cur` is pending. -/
structure Inv (tokens : List Token) (n : Nat) (cur : List UInt8)
    (rest : List (Frames.Frame UInt8)) (w : Conn) : Prop where
  position : Frames.Position (frames tokens) n cur rest
  unread : w.net.unread = cur ++ Frames.wire rest
  delivered : w.delivered = Frames.content (frames tokens) n
  expected : w.framing.expected = cur.length
  small : cur.length < 2147483648
  mode : w.framing.mode = .gsi ∨ w.framing.mode = .unknown ∧ cur = []

variable {tokens : List Token} {n : Nat} {cur : List UInt8}
  {rest : List (Frames.Frame UInt8)} {w : Conn}

theorem Inv.sound (h : Inv tokens n cur rest w) : Sound tokens w := by
  refine ⟨⟨n, h.position.le, ?_, h.delivered⟩, ?_⟩
  · rw [h.position.drop, h.unread]
  · have he := h.expected
    omega

theorem start_inv {mode : Mode} (hmode : mode = .unknown ∨ mode = .gsi) (reads : List Int) :
    Inv tokens 0 [] (frames tokens) (start tokens mode reads) := by
  refine ⟨.start _, ?_, (Frames.content_zero _).symm, rfl, by decide, ?_⟩
  · exact (wire_frames tokens).symm
  · rcases hmode with h | h
    · exact .inr ⟨h, rfl⟩
    · exact .inl h

/-- Nothing was read. -/
theorem Inv.nothing (h : Inv tokens n cur rest w) (hr : readb w.net outl = (ret, net'))
    (h0 : ret.ret ≤ 0) : Inv tokens n cur rest (w.call outl) := by
  have hout := ret.out_nil h0
  have hcut := readb_unread hr
  rw [hout, List.nil_append, h.unread] at hcut
  rw [Conn.call_eq (globusfRead_nothing hr h0), hout, List.append_nil]
  exact ⟨h.position, hcut, h.delivered, h.expected, h.small, h.mode⟩

/-- A piece of the pending token was read. -/
theorem Inv.pending (h : Inv tokens n cur rest w) (hr : readb w.net outl = (ret, net'))
    (h0 : 0 < ret.ret) (hne : cur ≠ []) (hfit : ret.ret ≤ cur.length) :
    ∃ n' cur', Inv tokens n' cur' rest (w.call outl) := by
  have hlen := ret.ret_eq (by omega)
  have hpos : 0 < cur.length := List.length_pos_iff.mpr hne
  have hm : w.framing.mode = .gsi := h.mode.resolve_right fun hu => hne hu.2
  have hexp := h.expected
  have hsmall := h.small
  have hcut := readb_unread hr
  rw [h.unread] at hcut
  obtain ⟨cur', rfl, hunread⟩ := Frames.cut hcut (by omega)
  obtain ⟨hp, hc⟩ := Frames.Position.read h.position
  rw [List.length_append] at hexp hsmall
  have hint : int32 (w.framing.expected - ret.ret) = cur'.length := by
    rw [int32_id (by omega) (by omega)]
    omega
  rw [Conn.call_eq (globusfRead_pending hr h0 hm (by omega)), h.delivered, hint]
  exact ⟨_, cur', hp, hunread, hc.symm, rfl, by omega, .inl hm⟩

/-- With nothing pending, four bytes are the header of the next token. -/
theorem Inv.header (h : Inv tokens n [] rest w) (hr : readb w.net outl = (ret, net'))
    (h4 : 4 ≤ ret.ret) : ∃ (p : Token) (rest' : List (Frames.Frame UInt8)) (a : List UInt8),
      p ∈ tokens ∧ rest = (lengthBytes p.1.length, p.1) :: rest' ∧ ret.out = lengthBytes p.1.length ++ a ∧
        p.1 ++ Frames.wire rest' = a ++ net'.unread := by
  have hlen := ret.ret_eq (by omega)
  have hcut := readb_unread hr
  rw [h.unread, List.nil_append] at hcut
  cases rest with
  | nil =>
    have hnil : ret.out = [] := (List.append_eq_nil_iff.mp hcut).1
    rw [hnil, List.length_nil] at hlen
    omega
  | cons fr rest' =>
    obtain ⟨p, hp, rfl⟩ := List.mem_map.mp (h.position.mem (List.mem_cons_self ..))
    rw [Frames.wire_cons] at hcut
    have h4' : (lengthBytes p.1.length).length ≤ ret.out.length := by
      show 4 ≤ ret.out.length
      omega
    obtain ⟨a, ha, hrest⟩ := Frames.cut hcut.symm h4'
    exact ⟨p, rest', a, hp, rfl, ha, hrest⟩

/-- The header of the next token was read, and `a` of its payload. -/
theorem Inv.token {p : Token} {a : List UInt8}
    (h : Inv tokens n [] ((lengthBytes p.1.length, p.1) :: rest) w)
    (hsmall : p.1.length < 2147483648) (ha : a.length ≤ p.1.length)
    (hcut : p.1 ++ Frames.wire rest = a ++ net'.unread) :
    ∃ n' cur', Inv tokens n' cur' rest
      ⟨⟨.gsi, (p.1.length : Int) - a.length⟩, net', w.delivered ++ a⟩ := by
  obtain ⟨cur', hp, hunread⟩ := Frames.cut hcut.symm ha
  obtain ⟨hpos, hc⟩ := h.position.next hp
  have hlen : p.1.length = a.length + cur'.length := by rw [hp, List.length_append]
  refine ⟨_, cur', hpos, hunread, ?_, ?_, by omega, .inl rfl⟩
  · rw [hc, ← h.delivered]
  · show (p.1.length : Int) - a.length = cur'.length
    omega

/-- The header came with payload behind it. -/
theorem Inv.together {p : Token} {a : List UInt8}
    (h : Inv tokens n [] ((lengthBytes p.1.length, p.1) :: rest) w)
    (hr : readb w.net outl = (ret, net')) (h4 : 4 < ret.ret)
    (hout : ret.out = lengthBytes p.1.length ++ a)
    (hcut : p.1 ++ Frames.wire rest = a ++ net'.unread)
    (hlook : LooksGsi w.framing (ret.out.getD 0 0)) (hsmall : p.1.length < 2147483648)
    (hle : ret.ret ≤ 4 + (p.1.length : Int)) :
    ∃ n' cur', Inv tokens n' cur' rest (w.call outl) := by
  have hfour : fourBytes ret.out = p.1.length := by rw [hout, fourBytes_lengthBytes p.2]
  have h4' : (lengthBytes p.1.length).length = 4 := rfl
  have hlen := ret.ret_eq (by omega)
  rw [hout, List.length_append, h4'] at hlen
  have hval : int32 (int32 p.1.length - (ret.ret - 4)) = (p.1.length : Int) - a.length := by
    rw [int32_id (x := p.1.length) (by omega) (by omega), int32_id (by omega) (by omega)]
    omega
  have hdrop : ret.dropHeader.out = a := by
    show ret.out.drop 4 = a
    rw [hout, ← h4', List.drop_left]
  rw [Conn.call_eq (globusfRead_header hr h4 hlook h.expected), hfour, hval, hdrop]
  exact h.token hsmall (by omega) hcut

/-- The header came alone, and the read was made again. -/
theorem Inv.alone {p : Token} (h : Inv tokens n [] ((lengthBytes p.1.length, p.1) :: rest) w)
    (hr : readb w.net outl = (ret, net')) (h4 : ret.ret = 4)
    (hout : ret.out = lengthBytes p.1.length)
    (hcut : p.1 ++ Frames.wire rest = net'.unread)
    (hlook : LooksGsi w.framing (ret.out.getD 0 0)) (hsmall : p.1.length < 2147483648)
    (hle : (readb net' outl).1.ret ≤ (p.1.length : Int)) :
    ∃ n' cur', Inv tokens n' cur' rest (w.call outl) := by
  have hfour : fourBytes ret.out = p.1.length := by
    rw [hout, ← List.append_nil (lengthBytes _), fourBytes_lengthBytes p.2]
  rcases ha : readb net' outl with ⟨again, net''⟩
  simp only [ha] at hle
  have hint : int32 (int32 p.1.length - 0) = p.1.length := by
    rw [Int.sub_zero, int32_id (x := p.1.length) (by omega) (by omega),
      int32_id (by omega) (by omega)]
  have hval : (if 0 < again.ret then int32 (int32 (int32 p.1.length - 0) - again.ret)
      else int32 (int32 p.1.length - 0)) = (p.1.length : Int) - again.out.length := by
    rw [hint]
    split
    · rename_i hpos
      rw [int32_id (by omega) (by omega), again.ret_eq (by omega)]
    · rename_i hpos
      rw [again.out_nil (by omega), List.length_nil]
      omega
  have hlen := again.whole
  have hcut2 := readb_unread ha
  rw [Conn.call_eq (globusfRead_again hr ha h4 hlook h.expected), hfour, hval]
  exact h.token hsmall (by omega) (hcut.trans hcut2.symm)

/-- **One call.** A call whose reads stay within a token keeps the invariant. -/
theorem Inv.call (h : Inv tokens n cur rest w) (hfit : w.Fits outl) :
    ∃ n' cur' rest', Inv tokens n' cur' rest' (w.call outl) := by
  rcases hr : readb w.net outl with ⟨ret, net'⟩
  by_cases h0 : ret.ret ≤ 0
  · exact ⟨n, cur, rest, h.nothing hr h0⟩
  have hexp := h.expected
  by_cases he : w.framing.expected = 0
  · obtain ⟨h4, hint, hle, hagain, hlook⟩ := (Conn.fits_begin hr he).mp hfit (by omega)
    have hcur : cur = [] := List.eq_nil_of_length_eq_zero (by omega)
    subst hcur
    obtain ⟨p, rest', a, _, rfl, hout, hcut⟩ := h.header hr h4
    have hfour : fourBytes ret.out = p.1.length := by rw [hout, fourBytes_lengthBytes p.2]
    rw [hfour] at hint hle hagain
    rcases Int.lt_or_eq_of_le h4 with h4 | h4
    · obtain ⟨n', cur', h'⟩ := h.together hr h4 hout hcut hlook hint hle
      exact ⟨n', cur', rest', h'⟩
    · have ha : a = [] := by
        have hlen := ret.ret_eq (by omega)
        rw [hout, List.length_append, show (lengthBytes p.1.length).length = 4 from rfl] at hlen
        exact List.eq_nil_of_length_eq_zero (by omega)
      subst ha
      rw [List.append_nil] at hout
      obtain ⟨n', cur', h'⟩ := h.alone hr h4.symm hout hcut hlook hint (hagain h4.symm)
      exact ⟨n', cur', rest', h'⟩
  · have hne : cur ≠ [] := by
      intro hnil
      rw [hnil, List.length_nil] at hexp
      exact he hexp
    have hle := (Conn.fits_pending hr he).mp hfit
    obtain ⟨n', cur', h'⟩ := h.pending hr (by omega) hne (by omega)
    exact ⟨n', cur', rest, h'⟩

/-- When everything has been read, everything has been delivered. -/
theorem Inv.all (h : Inv tokens n cur rest w) (hread : w.net.unread = []) :
    w.delivered = tokens.flatMap Subtype.val := by
  have hn : n = (Frames.wire (frames tokens)).length := by
    have hdrop := h.position.drop
    have hle := h.position.le
    rw [← h.unread, hread] at hdrop
    have hlen := List.drop_eq_nil_iff.mp hdrop
    omega
  rw [h.delivered, hn, Frames.content_all]
  unfold Frames.payload frames
  rw [List.flatMap_map]

/-! ## Calls that go wrong -/

/-- A header delivered as payload. -/
theorem Inv.raw {g : Framing} (h : Inv tokens n [] rest w)
    (hr : readb w.net outl = (ret, net')) (h0 : 0 < ret.ret)
    (hcall : globusfRead w.framing w.net outl = (g, net', ret)) :
    ¬ Sound tokens (w.call outl) := by
  intro hs
  obtain ⟨n', hn', hunread', hdel'⟩ := hs.delivered
  rw [Conn.call_eq hcall] at hunread' hdel'
  have hlen := ret.ret_eq (by omega)
  have hcut := readb_unread hr
  rw [h.unread, ← h.position.drop] at hcut
  have hle := h.position.le
  -- the position is the number of bytes read
  have hn : n' = n + ret.out.length := by
    have h1 := congrArg List.length hcut
    have h2 := congrArg List.length hunread'
    simp only [List.length_append, List.length_drop] at h1 h2
    omega
  rw [hn, h.position.content_add, h.delivered] at hdel'
  have hcontent := List.append_cancel_left hdel'
  have hgain : ret.out.length = (Frames.content (([], []) :: rest) ret.out.length).length := by
    rw [← hcontent]
  rw [Frames.content_cons] at hgain
  simp only [List.take_nil, List.nil_append, List.length_nil, Nat.sub_zero] at hgain
  cases hrest : rest with
  | nil =>
    rw [hrest] at hgain
    have hnone : (Frames.content ([] : List (Frames.Frame UInt8)) ret.out.length).length = 0 := rfl
    omega
  | cons fr rest' =>
    obtain ⟨p, _, rfl⟩ := List.mem_map.mp (h.position.mem (hrest ▸ List.mem_cons_self ..))
    rw [hrest] at hgain
    have hlt : (Frames.content ((lengthBytes p.1.length, p.1) :: rest') ret.out.length).length <
        ret.out.length := Frames.content_header (Nat.zero_lt_succ _) (by omega)
    omega

/-- More was read than was pending. -/
theorem Inv.overrun (h : Inv tokens n cur rest w) (hr : readb w.net outl = (ret, net'))
    (hne : cur ≠ []) (hfit : (cur.length : Int) < ret.ret) : ¬ Sound tokens (w.call outl) := by
  intro hs
  have hnonneg := hs.expected
  have hpos : 0 < cur.length := List.length_pos_iff.mpr hne
  have hm : w.framing.mode = .gsi := h.mode.resolve_right fun hu => hne hu.2
  have hexp := h.expected
  have hlt := readb_le hr
  rw [Conn.call_eq (globusfRead_pending hr (by omega) hm (by omega)), hexp] at hnonneg
  simp only at hnonneg
  rw [int32_id (by omega) (by omega)] at hnonneg
  omega

/-- More was read with the header than its token has. -/
theorem Inv.overrunHeader {L : Nat} (h : Inv tokens n [] rest w)
    (hr : readb w.net outl = (ret, net')) (hlook : LooksGsi w.framing (ret.out.getD 0 0))
    (hfour : fourBytes ret.out = L) (hsmall : L < 2147483648) (hfit : (4 + L : Int) < ret.ret) :
    ¬ Sound tokens (w.call outl) := by
  intro hs
  have hnonneg := hs.expected
  have hlt := readb_le hr
  rw [Conn.call_eq (globusfRead_header hr (by omega) hlook h.expected), hfour] at hnonneg
  simp only at hnonneg
  rw [int32_id (x := L) (by omega) (by omega), int32_id (by omega) (by omega)] at hnonneg
  omega

/-- More was read after the header than its token has. -/
theorem Inv.overrunAgain {L : Nat} (h : Inv tokens n [] rest w)
    (hr : readb w.net outl = (ret, net')) (h4 : ret.ret = 4)
    (hlook : LooksGsi w.framing (ret.out.getD 0 0)) (hfour : fourBytes ret.out = L)
    (hsmall : L < 2147483648) (hfit : (L : Int) < (readb net' outl).1.ret) :
    ¬ Sound tokens (w.call outl) := by
  intro hs
  have hnonneg := hs.expected
  rcases ha : readb net' outl with ⟨again, net''⟩
  have hlt := readb_le ha
  simp only [ha] at hfit
  rw [Conn.call_eq (globusfRead_again hr ha h4 hlook h.expected), hfour] at hnonneg
  simp only at hnonneg
  rw [if_pos (by omega), Int.sub_zero, int32_id (x := L) (by omega) (by omega),
    int32_id (x := L) (by omega) (by omega), int32_id (by omega) (by omega)] at hnonneg
  omega

/-- **Exactly these calls.** With tokens whose length is an `int`, a call keeps
what is delivered right only if its reads stay within a token. -/
theorem Inv.fits_of_sound (h : Inv tokens n cur rest w)
    (hint : ∀ p ∈ tokens, p.1.length < 2147483648) (hs : Sound tokens (w.call outl)) :
    w.Fits outl := by
  rcases hr : readb w.net outl with ⟨ret, net'⟩
  have hexp := h.expected
  by_cases he : w.framing.expected = 0
  · refine (Conn.fits_begin hr he).mpr fun h0 => ?_
    have hcur : cur = [] := List.eq_nil_of_length_eq_zero (by omega)
    subst hcur
    by_cases h4 : 4 ≤ ret.ret
    · by_cases hlook : LooksGsi w.framing (ret.out.getD 0 0)
      · obtain ⟨p, rest', a, hp, rfl, hout, hcut⟩ := h.header hr h4
        have hfour : fourBytes ret.out = p.1.length := by rw [hout, fourBytes_lengthBytes p.2]
        have hsmall := hint p hp
        rw [hfour]
        refine ⟨h4, hsmall, ?_, ?_, hlook⟩
        · exact Int.not_lt.mp fun hc => h.overrunHeader hr hlook hfour hsmall hc hs
        · intro h4'
          exact Int.not_lt.mp fun hc => h.overrunAgain hr h4' hlook hfour hsmall hc hs
      · have hm : w.framing.mode = .unknown := by
          rcases h.mode with hm | ⟨hm, _⟩
          · exact absurd (.inl hm) hlook
          · exact hm
        have hd : detectMode (ret.out.getD 0 0) ≠ .gsi := fun hd => hlook (.inr ⟨hm, hd⟩)
        exact absurd hs (h.raw hr h0 (globusfRead_other hr h4 hm hd))
    · exact absurd hs (h.raw hr h0 (globusfRead_short hr (by omega) he))
  · have hne : cur ≠ [] := by
      intro hnil
      rw [hnil, List.length_nil] at hexp
      exact he hexp
    refine (Conn.fits_pending hr he).mpr (Int.not_lt.mp fun hc => ?_)
    exact h.overrun hr hne (by omega) hs

/-! ## Runs -/

/-- A run of calls that fit keeps the invariant. -/
theorem Inv.run {calls : List Size} {w' : Conn} (h : Inv tokens n cur rest w)
    (hrun : Run fitting w calls w') : ∃ n' cur' rest', Inv tokens n' cur' rest' w' := by
  have hkeeps : Run.Keeps fitting (fun _ => True)
      (fun w => ∃ n cur rest, Inv tokens n cur rest w) := by
    intro w outl w' _ hinv hstep
    obtain ⟨n, cur, rest, hinv⟩ := hinv
    obtain ⟨hfit, rfl⟩ := hstep
    exact hinv.call hfit
  exact Run.invariant hkeeps hrun (fun _ _ => trivial) ⟨n, cur, rest, h⟩

/-- **Only the payload, and all of it.** In a run of calls whose reads all
stay within a token, what has been delivered is the payload of what has been
read, `expected` is not negative, and once everything has been read every
token has been delivered. -/
theorem globusfRead_payload (tokens : List Token) {mode : Mode}
    (hmode : mode = .unknown ∨ mode = .gsi) (reads : List Int) {calls : List Size} {w : Conn}
    (h : Run fitting (start tokens mode reads) calls w) :
    Sound tokens w ∧ (w.net.unread = [] → w.delivered = tokens.flatMap Subtype.val) := by
  obtain ⟨n, cur, rest, hinv⟩ := (start_inv hmode reads).run h
  exact ⟨hinv.sound, hinv.all⟩

/-- `[1]` and `[2]`. -/
def twoTokens : List Token := [⟨[1], by decide⟩, ⟨[2], by decide⟩]

/-- A header on its own, its payload, and the other token in one read. -/
theorem globusfRead_payload_sample :
    Sound twoTokens (((start twoTokens .unknown [4, 1, 5]).call 100).call 100) ∧
      ((((start twoTokens .unknown [4, 1, 5]).call 100).call 100).net.unread = [] →
        (((start twoTokens .unknown [4, 1, 5]).call 100).call 100).delivered =
          twoTokens.flatMap Subtype.val) := by
  have hrun : Run fitting (start twoTokens .unknown [4, 1, 5]) [100, 100]
      (((start twoTokens .unknown [4, 1, 5]).call 100).call 100) :=
    .cons ⟨by decide +kernel, rfl⟩ (.cons ⟨by decide +kernel, rfl⟩ (.nil _))
  exact globusfRead_payload twoTokens (.inl rfl) [4, 1, 5] hrun

/-- Both tokens in one read: five bytes of the second are counted as payload
of the first. -/
theorem globusfRead_fails : ¬ ∀ (tokens : List Token) (reads : List Int) (calls : List Size)
    (w : Conn), Run step (start tokens .gsi reads) calls w →
      Sound tokens w ∧ (w.net.unread = [] → w.delivered = tokens.flatMap Subtype.val) := by
  intro h
  have hs := (h twoTokens [10] [100] _ (.cons rfl (.nil _))).1.expected
  have hneg : ((start twoTokens .gsi [10]).call 100).framing.expected = -5 := by decide +kernel
  rw [hneg] at hs
  omega

/-- A run whose states are all sound has only such calls. -/
theorem Inv.fitting_of_sound (hint : ∀ p ∈ tokens, p.1.length < 2147483648) {calls : List Size}
    {w w' : Conn} (h : Run step w calls w') :
    ∀ {n : Nat} {cur : List UInt8} {rest : List (Frames.Frame UInt8)}, Inv tokens n cur rest w →
      (∀ calls1 calls2 w1, calls = calls1 ++ calls2 → Run step w calls1 w1 → Sound tokens w1) →
      Run fitting w calls w' := by
  induction h with
  | nil => exact fun _ _ => .nil _
  | @cons w w1 w2 outl calls hstep _ ih =>
    intro n cur rest hinv hsound
    have hs := hsound [outl] calls w1 rfl (.cons hstep (.nil _))
    obtain rfl : w1 = w.call outl := hstep
    have hfit := hinv.fits_of_sound hint hs
    obtain ⟨n', cur', rest', hinv'⟩ := hinv.call hfit
    refine .cons ⟨hfit, rfl⟩ (ih hinv' fun calls1 calls2 w3 hcalls hrun => ?_)
    exact hsound (outl :: calls1) calls2 w3 (by rw [hcalls, List.cons_append])
      (.cons rfl hrun)

/-- The beginning of a run of calls that fit. -/
theorem fitting_front {calls1 calls2 : List Size} {w w1 w2 : Conn} (h1 : Run step w calls1 w1)
    (h2 : Run fitting w (calls1 ++ calls2) w2) : Run fitting w calls1 w1 := by
  induction h1 with
  | nil => exact .nil _
  | @cons w w1 w3 outl calls hstep _ ih =>
    cases h2 with
    | cons hfit ht =>
      obtain ⟨hfits, rfl⟩ := hfit
      obtain rfl : w1 = w.call outl := hstep
      exact .cons ⟨hfits, rfl⟩ (ih ht)

/-- **Exactly these runs.** With tokens whose length is an `int`, every state
a run goes through is sound exactly if each of its calls fits. -/
theorem fitting_iff_sound (hint : ∀ p ∈ tokens, p.1.length < 2147483648) {mode : Mode}
    (hmode : mode = .unknown ∨ mode = .gsi) (reads : List Int) {calls : List Size} {w : Conn}
    (h : Run step (start tokens mode reads) calls w) :
    Run fitting (start tokens mode reads) calls w ↔
      ∀ calls1 calls2 w1, calls = calls1 ++ calls2 →
        Run step (start tokens mode reads) calls1 w1 → Sound tokens w1 := by
  refine ⟨fun hfit calls1 calls2 w1 hcalls hrun => ?_, fun hsound => ?_⟩
  · subst hcalls
    obtain ⟨n, cur, rest, hinv⟩ := (start_inv hmode reads).run (fitting_front hrun hfit)
    exact hinv.sound
  · exact (start_inv hmode reads).fitting_of_sound hint h hsound

end Voms.L3.GsiSocket
