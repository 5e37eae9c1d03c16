import Voms.Core.Bits
import Voms.L3Wire.Document

/-!
# The codes of binary data

`Encode` and `Decode` of `src/common/xmlcc.cc`. `MyEncode` writes six bits a
character in an alphabet of its own, without padding or line ends;
`BIO_f_base64` ends its last line, and that is how `Decode` tells the two
apart. `decode_encode`: what one writes the other reads.
-/
namespace Voms.L3

open Voms.Core

/-! ## `MyEncode` -/

/-- mirrors src/common/xmlcc.cc:66-68 -/
def trans (n : Nat) : Char :=
  "abcdefghijklmnopqrstuvwxyzABCDEFGHIJKLMNOPQRSTUVWXYZ0123456789[]".toList.getD n 'a'

/-- Where the loop stands in a group of three bytes. At the first byte it
makes two turns. -/
inductive Turn where
  | first | second | third
  deriving DecidableEq, Repr

/-- The value of the byte behind, 0 at the end. -/
def byteNext : Str → Nat
  | [] => 0
  | c :: _ => c.toNat

/-- The loop of `MyEncode`. mirrors src/common/xmlcc.cc:167-218 -/
def myEncode : Turn → Str → Str
  | _, [] => []
  | .first, c :: rest =>
    trans ((c.toNat &&& 0xfc) >>> 2) ::
      trans ((c.toNat &&& 0x03) <<< 4 ||| (byteNext rest &&& 0xf0) >>> 4) :: myEncode .second rest
  | .second, c :: rest =>
    trans ((c.toNat &&& 0x0f) <<< 2 ||| (byteNext rest &&& 0xc0) >>> 6) :: myEncode .third rest
  | .third, c :: rest => trans (c.toNat &&& 0x3f) :: myEncode .first rest

/-- mirrors src/common/xmlcc.cc:301-318 -/
def encode (base64Encode : Str → Str) (data : Str) (base64 : Bool) : Str :=
  if base64 then base64Encode data else myEncode .first data

/-- Every `char` is a byte. -/
def Bytes (s : Str) : Prop := ∀ c ∈ s, c.toNat < 256

instance (s : Str) : Decidable (Bytes s) := List.decidableBAll (fun c : Char => c.toNat < 256) s

/-! ## The alphabet -/

theorem trans2_trans : ∀ n < 64, trans2 (trans n) = .ok n := by decide +kernel

/-- No character of the alphabet is markup or ends a line. -/
theorem trans_text : ∀ n < 64, printable (trans n) = true ∧ trans n ≠ '<' ∧ trans n ≠ '&' ∧
    trans n ≠ '>' ∧ trans n ≠ '\n' := by decide +kernel

/-! ## There and back -/

theorem byteNext_lt {s : Str} (h : Bytes s) : byteNext s < 256 := by
  cases s with
  | nil => decide
  | cons c s => exact h c (List.mem_cons_self ..)

/-- The two characters of the first byte, by arithmetic. -/
theorem myEncode_first {c : Char} {rest : Str} (hc : c.toNat < 256) (hrest : Bytes rest) :
    myEncode .first (c :: rest) =
      trans (c.toNat / 4) :: trans (c.toNat % 4 * 16 + byteNext rest / 16) ::
        myEncode .second rest := by
  have hnext := byteNext_lt hrest
  have hhigh : (c.toNat &&& 0xfc) >>> 2 = c.toNat / 4 % 64 := field_eq _ 2 6
  have hlow : (c.toNat &&& 0x03) <<< 4 = c.toNat % 4 * 16 := lowest_eq _ 4 2
  have hbehind : (byteNext rest &&& 0xf0) >>> 4 = byteNext rest / 16 % 16 := field_eq _ 4 4
  have hjoin : c.toNat % 4 * 16 ||| byteNext rest / 16 % 16 =
      c.toNat % 4 * 16 + byteNext rest / 16 % 16 := join_eq _ 4 (by omega)
  rw [myEncode, hhigh, hlow, hbehind, hjoin, Nat.mod_eq_of_lt (by omega : c.toNat / 4 < 64),
    Nat.mod_eq_of_lt (by omega : byteNext rest / 16 < 16)]

theorem myEncode_second {c : Char} {rest : Str} (hrest : Bytes rest) :
    myEncode .second (c :: rest) =
      trans (c.toNat % 16 * 4 + byteNext rest / 64) :: myEncode .third rest := by
  have hnext := byteNext_lt hrest
  have hlow : (c.toNat &&& 0x0f) <<< 2 = c.toNat % 16 * 4 := lowest_eq _ 2 4
  have hbehind : (byteNext rest &&& 0xc0) >>> 6 = byteNext rest / 64 % 4 := field_eq _ 6 2
  have hjoin : c.toNat % 16 * 4 ||| byteNext rest / 64 % 4 =
      c.toNat % 16 * 4 + byteNext rest / 64 % 4 := join_eq _ 2 (by omega)
  rw [myEncode, hlow, hbehind, hjoin, Nat.mod_eq_of_lt (by omega : byteNext rest / 64 < 4)]

theorem myEncode_third (c : Char) (rest : Str) :
    myEncode .third (c :: rest) = trans (c.toNat % 64) :: myEncode .first rest := by
  have hlow : c.toNat &&& 0x3f = c.toNat % 64 := Nat.and_two_pow_sub_one_eq_mod _ 6
  rw [myEncode, hlow]

/-- A byte of which the higher six bits and the lower two are known. -/
theorem myDecode_zero {m n : Nat} (hm : m < 64) (hn : n < 64) (rest : Str) :
    myDecode .zero (trans m :: trans n :: rest) =
      myDecode .four (trans n :: rest) >>= fun out =>
        .ok (Char.ofNat ((m * 4 + n / 16) % 256) :: out) := by
  have hfirst : (m &&& 0x3f) <<< 2 = m % 64 * 4 := lowest_eq _ 2 6
  have hsecond : (n &&& 0x30) >>> 4 = n / 16 % 4 := field_eq _ 4 2
  have hjoin : m * 4 ||| n / 16 = m * 4 + n / 16 := join_eq _ 2 (by omega)
  rw [myDecode, trans2Next, trans2_trans m hm, trans2_trans n hn]
  simp only [Res.ok_bind, hfirst, hsecond, hjoin, Nat.mod_eq_of_lt hm,
    Nat.mod_eq_of_lt (by omega : n / 16 < 4)]
  rfl

theorem myDecode_four {m n : Nat} (hm : m < 64) (hn : n < 64) (rest : Str) :
    myDecode .four (trans m :: trans n :: rest) =
      myDecode .two (trans n :: rest) >>= fun out =>
        .ok (Char.ofNat ((m % 16 * 16 + n / 4) % 256) :: out) := by
  have hfirst : (m &&& 0x0f) <<< 4 = m % 16 * 16 := lowest_eq _ 4 4
  have hsecond : (n &&& 0x3c) >>> 2 = n / 4 % 16 := field_eq _ 2 4
  have hjoin : m % 16 * 16 ||| n / 4 = m % 16 * 16 + n / 4 := join_eq _ 4 (by omega)
  rw [myDecode, trans2Next, trans2_trans m hm, trans2_trans n hn]
  simp only [Res.ok_bind, hfirst, hsecond, hjoin, Nat.mod_eq_of_lt (by omega : n / 4 < 16)]
  rfl

theorem myDecode_two {m n : Nat} (hm : m < 64) (hn : n < 64) (rest : Str) :
    myDecode .two (trans m :: trans n :: rest) =
      myDecode .zero rest >>= fun out =>
        .ok (Char.ofNat ((m % 4 * 64 + n) % 256) :: out) := by
  have hfirst : (m &&& 0x03) <<< 6 = m % 4 * 64 := lowest_eq _ 6 2
  have hsecond : n &&& 0x3f = n % 64 := Nat.and_two_pow_sub_one_eq_mod _ 6
  have hjoin : m % 4 * 64 ||| n = m % 4 * 64 + n := join_eq _ 6 (by omega)
  rw [myDecode, trans2Next, trans2_trans m hm, trans2_trans n hn]
  simp only [Res.ok_bind, hfirst, hsecond, hjoin, Nat.mod_eq_of_lt hn]
  rfl

/-- A last character adds no byte. -/
theorem myDecode_last {m : Nat} (hm : m < 64) {bit : Bit} (hbit : bit ≠ .zero) :
    myDecode bit [trans m] = .ok [] := by
  rw [myDecode.eq_def]
  simp only [trans2Next, trans2_trans m hm, Res.ok_bind]
  cases bit with
  | zero => exact absurd rfl hbit
  | four => rfl
  | two => rfl

theorem ofNat_eq {c : Char} {n : Nat} (h : n = c.toNat) : Char.ofNat n = c := by
  rw [h, Char.ofNat_toNat]

/-- `MyDecode` reads what `MyEncode` writes, three bytes at a time. -/
theorem myDecode_myEncode : ∀ s : Str, Bytes s → myDecode .zero (myEncode .first s) = .ok s
  | [], _ => rfl
  | [a], h => by
    have ha : a.toNat < 256 := h a (by simp)
    rw [myEncode_first ha (by simp [Bytes]), myDecode_zero (by omega) (by simp [byteNext]; omega),
      myEncode, myDecode_last (by simp [byteNext]; omega) (by decide), Res.ok_bind]
    simp only [byteNext]
    rw [@ofNat_eq a _ (by omega)]
  | [a, b], h => by
    have ha : a.toNat < 256 := h a (by simp)
    have hb : b.toNat < 256 := h b (by simp)
    rw [myEncode_first ha (by simpa [Bytes] using hb), myEncode_second (by simp [Bytes]),
      myEncode]
    simp only [byteNext]
    rw [myDecode_zero (by omega) (by omega), myDecode_four (by omega) (by omega),
      myDecode_last (by omega) (by decide)]
    simp only [Res.ok_bind]
    rw [@ofNat_eq a _ (by omega), @ofNat_eq b _ (by omega)]
  | a :: b :: c :: rest, h => by
    have ha : a.toNat < 256 := h a (by simp)
    have hb : b.toNat < 256 := h b (by simp)
    have hc : c.toNat < 256 := h c (by simp)
    have hrest : Bytes rest := fun d hd => h d (by simp [hd])
    rw [myEncode_first ha (fun d hd => h d (List.mem_cons_of_mem _ hd)),
      myEncode_second (fun d hd => h d (List.mem_cons_of_mem _ (List.mem_cons_of_mem _ hd))),
      myEncode_third]
    simp only [byteNext]
    rw [myDecode_zero (by omega) (by omega), myDecode_four (by omega) (by omega),
      myDecode_two (by omega) (by omega), myDecode_myEncode rest hrest]
    simp only [Res.ok_bind]
    rw [@ofNat_eq a _ (by omega), @ofNat_eq b _ (by omega), @ofNat_eq c _ (by omega)]

/-- Everything written is in the alphabet. -/
theorem mem_myEncode : ∀ {turn : Turn} {s : Str}, Bytes s → ∀ c ∈ myEncode turn s,
    ∃ n < 64, c = trans n
  | _, [], _, _, hc => by simp [myEncode] at hc
  | .first, a :: rest, h, c, hc => by
    have ha : a.toNat < 256 := h a (by simp)
    have hrest : Bytes rest := fun d hd => h d (by simp [hd])
    have := byteNext_lt hrest
    rw [myEncode_first ha hrest, List.mem_cons, List.mem_cons] at hc
    rcases hc with rfl | rfl | hc
    · exact ⟨_, by omega, rfl⟩
    · exact ⟨_, by omega, rfl⟩
    · exact mem_myEncode hrest c hc
  | .second, a :: rest, h, c, hc => by
    have ha : a.toNat < 256 := h a (by simp)
    have hrest : Bytes rest := fun d hd => h d (by simp [hd])
    have := byteNext_lt hrest
    rw [myEncode_second hrest, List.mem_cons] at hc
    rcases hc with rfl | hc
    · exact ⟨_, by omega, rfl⟩
    · exact mem_myEncode hrest c hc
  | .third, a :: rest, h, c, hc => by
    have ha : a.toNat < 256 := h a (by simp)
    have hrest : Bytes rest := fun d hd => h d (by simp [hd])
    rw [myEncode_third, List.mem_cons] at hc
    rcases hc with rfl | hc
    · exact ⟨_, by omega, rfl⟩
    · exact mem_myEncode hrest c hc

theorem myEncode_ne_nil {s : Str} (h : s ≠ []) : myEncode .first s ≠ [] := by
  cases s with
  | nil => exact absurd rfl h
  | cons c s => simp [myEncode]

/-! ## Both codes -/

/-- What `BIO_f_base64` does with a text: it reads back what it writes, in
lines of which the last one is ended too, and writes no markup. -/
structure Base64 (base64Encode base64Decode : Str → Str) (s : Str) : Prop where
  inverse : base64Decode (base64Encode s) = s
  empty : s = [] → base64Encode s = []
  lines : s ≠ [] → '\n' ∈ base64Encode s
  text : ∀ c ∈ base64Encode s, printable c = true ∧ c ≠ '<' ∧ c ≠ '&' ∧ c ≠ '>'

variable {X : Wire} {base64Encode : Str → Str} {s : Str} {base64 : Bool}

/-- What is written is a text for XML. -/
theorem charData_encode (hs : Bytes s) (h : Base64 base64Encode X.base64Decode s) :
    charData (encode base64Encode s base64) = true := by
  refine charData_of_noGt fun c hc => ?_
  unfold encode at hc
  cases base64 with
  | true => exact h.text c hc
  | false =>
    obtain ⟨n, hn, rfl⟩ := mem_myEncode hs c hc
    obtain ⟨hp, hlt, hamp, hgt, -⟩ := trans_text n hn
    exact ⟨hp, hlt, hamp, hgt⟩

theorem encode_eq_nil (h : Base64 base64Encode X.base64Decode s) :
    encode base64Encode s base64 = [] ↔ s = [] := by
  unfold encode
  by_cases hnil : s = []
  · refine iff_of_true ?_ hnil
    cases base64 with
    | true => exact h.empty hnil
    | false => rw [hnil]; rfl
  · refine iff_of_false ?_ hnil
    cases base64 with
    | true => exact List.ne_nil_of_mem (h.lines hnil)
    | false => exact myEncode_ne_nil hnil

/-- What `MyEncode` writes has no line end, and goes to `MyDecode`. -/
theorem decode_myEncode (hs : Bytes s) : decode X (myEncode .first s) = .ok s := by
  have hline : '\n' ∉ myEncode .first s := by
    intro hc
    obtain ⟨n, hn, heq⟩ := mem_myEncode hs _ hc
    exact (trans_text n hn).2.2.2.2 heq.symm
  unfold decode
  rw [if_neg hline, myDecode_myEncode s hs]

/-- **What `Encode` writes `Decode` reads, in either code.** -/
theorem decode_encode (hs : Bytes s) (h : Base64 base64Encode X.base64Decode s) (hne : s ≠ []) :
    decode X (encode base64Encode s base64) = .ok s := by
  unfold encode
  cases base64 with
  | true =>
    unfold decode
    rw [if_pos rfl, if_pos (h.lines hne), h.inverse]
    rfl
  | false => exact decode_myEncode hs

end Voms.L3
