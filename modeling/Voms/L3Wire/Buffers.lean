import Voms.Core.Block
import Voms.L3Wire.Codec

/-!
# The buffers of the codes

`MyEncode` and `MyDecode` of `src/common/xmlcc.cc` once more, this time with
the blocks they allocate, the `int` sizes they compute and every index they
use. `calloc` and `malloc` refuse a negative size, which they take for a huge
one, and have memory for any other.

* `myEncodeLoop_ok`, `myDecodeLoop_ok`: with room enough the loops leave in
  their block what the `myEncode` and `myDecode` of lists compute.
* `decode_inBounds`: exactly which texts `Decode` reads without an index
  outside of the table or a block; a byte above 127 is not in the table.
* `decode_of_encode`: what `Encode` writes is read back exactly, as long as
  the sizes are `int`s.
-/
namespace Voms.L3.Buffer

open Voms.Core Voms.Core.Block

/-! ## Blocks -/

/-- The bytes of a new block. -/
def calloc (size : Int32) : Option Str :=
  if size < 0 then none else some (List.replicate size.toInt.toNat '\x00')

/-- The text of the block a code returns, `""` without one. -/
def contents : Option (Str × Nat) → Eval Str
  | some (res, j) => copy res j
  | none => pure []

/-! ## `MyDecode` -/

/-- `size` is positive where the loop runs at all. The `i` of the source
overflows only at 2^31 - 1 characters, long after the end of the block.
mirrors src/common/xmlcc.cc:232-262 -/
def myDecodeLoop (data : Str) (size : Nat) (bit : Bit) (i : Nat) (res : Str) (n : Nat) :
    Eval (Str × Nat) :=
  if _h : i < size then do
    let c ← load data i >>= trans2
    let c2 ← (if i + 1 < size then load data (i + 1) >>= trans2 else pure 0)
    let next := if i + 1 < size then n + 1 else n
    match bit with
    | .zero => do
      let res ← store res n (Char.ofNat (((c &&& 0x3f) <<< 2 ||| (c2 &&& 0x30) >>> 4) % 256))
      myDecodeLoop data size .four (i + 1) res next
    | .four => do
      let res ← store res n (Char.ofNat (((c &&& 0x0f) <<< 4 ||| (c2 &&& 0x3c) >>> 2) % 256))
      myDecodeLoop data size .two (i + 1) res next
    | .two => do
      let res ← store res n (Char.ofNat (((c &&& 0x03) <<< 6 ||| (c2 &&& 0x3f)) % 256))
      myDecodeLoop data size .zero (i + 2) res next
  else pure (res, n)
termination_by size - i

/-- The block and the number of its bytes that count, if there is a block.
mirrors src/common/xmlcc.cc:220-265 -/
def myDecode (data : Str) (size : Int32) : Eval (Option (Str × Nat)) :=
  if size = 0 then pure none
  else
    match calloc (size * 3 / 4 + 2) with
    | none => pure none
    | some res => do
      let out ← myDecodeLoop data size.toInt.toNat .zero 0 res 0
      pure (some out)

/-- `bioRead` is what the base64 filter of OpenSSL puts into a block of the
given size. mirrors src/common/xmlcc.cc:126-146 -/
def base64Decode (bioRead : Str → Nat → Str) (data : Str) (size : Int32) :
    Eval (Option (Str × Nat)) :=
  match calloc size with
  | none => pure none
  | some res =>
    let read := bioRead (data.take size.toInt.toNat) size.toInt.toNat
    if read.length ≤ res.length then
      pure (some (read ++ res.drop read.length, read.length))
    else .fault .outOfRange

/-- mirrors src/common/xmlcc.cc:148-165 -/
def decode (bioRead : Str → Nat → Str) (data : Str) : Eval Str := do
  let tmp ←
    (if '\n' ∈ data then base64Decode bioRead data (Int32.ofNat data.length)
    else myDecode data (Int32.ofNat data.length))
  contents tmp

/-! ## `MyEncode` -/

/-- The 64 characters and the NUL behind them. A `char` above 127 is
negative as an index. mirrors src/common/xmlcc.cc:66-68 -/
def transAt (c : Char) : Eval Char :=
  if c.toNat < 64 then pure (trans c.toNat)
  else if c.toNat = 64 then pure '\x00'
  else .fault .outOfRange

/-- `res[j] = n; res[j] = trans[(int)res[j]];` -/
def put (res : Str) (j n : Nat) : Eval Str := do
  let res ← store res j (Char.ofNat (n % 256))
  let c ← load res j >>= transAt
  store res j c

/-- The values `bit` takes in `MyEncode`. -/
inductive Shift where
  | zero | two | four | six
  deriving DecidableEq, Repr

/-- mirrors src/common/xmlcc.cc:182-213 -/
def myEncodeLoop (data : Str) (size : Nat) (bit : Shift) (i : Nat) (res : Str) (j : Nat) :
    Eval (Str × Nat) :=
  if _h : i < size then do
    let c ← load data i
    let c2 ← (if i < size - 1 then load data (i + 1) else pure '\x00')
    match bit with
    | .zero => do
      let res ← put res j ((c.toNat &&& 0xfc) >>> 2)
      myEncodeLoop data size .two i res (j + 1)
    | .two => do
      let res ← put res j ((c.toNat &&& 0x03) <<< 4 ||| (c2.toNat &&& 0xf0) >>> 4)
      myEncodeLoop data size .four (i + 1) res (j + 1)
    | .four => do
      let res ← put res j ((c.toNat &&& 0x0f) <<< 2 ||| (c2.toNat &&& 0xc0) >>> 6)
      myEncodeLoop data size .six (i + 1) res (j + 1)
    | .six => do
      let res ← put res j (c.toNat &&& 0x3f)
      myEncodeLoop data size .zero (i + 1) res (j + 1)
  else pure (res, j)
termination_by 2 * (size - i) + if bit = .zero then 1 else 0
decreasing_by
  all_goals simp
  all_goals omega

/-- mirrors src/common/xmlcc.cc:167-218 -/
def myEncode (data : Str) (size : Int32) : Eval (Option (Str × Nat)) :=
  if size = 0 then pure none
  else
    match calloc (size * 4 / 3 + 2) with
    | none => pure none
    | some res => do
      let (res, j) ← myEncodeLoop data size.toInt.toNat .zero 0 res 0
      let res ← store res j '\x00'
      pure (some (res, j))

/-- `Encode(data, 0)`. mirrors src/common/xmlcc.cc:301-318 -/
def encode (data : Str) : Eval Str := do
  let tmp ← myEncode data (Int32.ofNat data.length)
  contents tmp

/-! ## One turn of `MyDecode` -/

def Bit.next : Bit → Bit
  | .zero => .four
  | .four => .two
  | .two => .zero

/-- How far `i` goes. -/
def Bit.width : Bit → Nat
  | .two => 2
  | _ => 1

/-- The byte of two characters. -/
def Bit.byte : Bit → Nat → Nat → Nat
  | .zero, c, c2 => (c &&& 0x3f) <<< 2 ||| (c2 &&& 0x30) >>> 4
  | .four, c, c2 => (c &&& 0x0f) <<< 4 ||| (c2 &&& 0x3c) >>> 2
  | .two, c, c2 => (c &&& 0x03) <<< 6 ||| (c2 &&& 0x3f)

/-- The turns of the loop on so many characters. -/
def Bit.turns : Bit → Nat → Nat
  | .zero, m => (3 * m + 3) / 4
  | .four, m => (3 * m + 2) / 4
  | .two, m => (3 * m + 1) / 4

theorem turns_succ (bit : Bit) (m : Nat) :
    Bit.turns bit (m + 1) = Bit.turns (Bit.next bit) (m - (Bit.width bit - 1)) + 1 := by
  cases bit <;> simp only [Bit.turns, Bit.next, Bit.width] <;> omega

section
variable {data : Str} {size i : Nat} {c : Char} {rest : Str}

/-- What stands at `i` and behind it. -/
theorem drop_eq_cons (h : (data.take size).drop i = c :: rest) :
    i < size ∧ data[i]? = some c ∧ (data.take size).drop (i + 1) = rest := by
  have hget : (data.take size)[i]? = some c := by
    rw [← List.head?_drop, h, List.head?_cons]
  rw [List.getElem?_take] at hget
  split at hget
  · next hi =>
    refine ⟨hi, hget, ?_⟩
    rw [← List.drop_drop, h, List.drop_one, List.tail_cons]
  · cases hget

theorem load_eq (h : (data.take size).drop i = c :: rest) : load data i = .ok c := by
  simp only [load, (drop_eq_cons h).2.1, Res.pure_eq]

/-- The character behind is in the text if `i + 1` is. -/
theorem rest_eq_nil (hsize : size ≤ data.length) (h : (data.take size).drop i = c :: rest) :
    rest = [] ↔ ¬ i + 1 < size := by
  rw [← (drop_eq_cons h).2.2, List.drop_eq_nil_iff, List.length_take]
  omega

theorem load_next (hsize : size ≤ data.length) (h : (data.take size).drop i = c :: rest) :
    (if i + 1 < size then load data (i + 1) >>= trans2 else pure 0) = trans2Next rest := by
  cases rest with
  | nil => rw [if_neg ((rest_eq_nil hsize h).mp rfl), trans2Next]
  | cons d rest =>
    have hnext : i + 1 < size := by
      by_contra hn
      exact absurd ((rest_eq_nil hsize h).mpr hn) (by simp)
    rw [if_pos hnext, load_eq (drop_eq_cons h).2.2, trans2Next, Res.ok_bind]

theorem myDecodeLoop_cons (hsize : size ≤ data.length) (h : (data.take size).drop i = c :: rest)
    (bit : Bit) (res : Str) (n : Nat) :
    myDecodeLoop data size bit i res n =
      trans2 c >>= fun v => trans2Next rest >>= fun w =>
        store res n (Char.ofNat (Bit.byte bit v w % 256)) >>= fun res =>
          myDecodeLoop data size (Bit.next bit) (i + Bit.width bit) res
            (if rest = [] then n else n + 1) := by
  have hcond : (if i + 1 < size then n + 1 else n) = if rest = [] then n else n + 1 := by
    by_cases hnil : rest = []
    · rw [if_neg ((rest_eq_nil hsize h).mp hnil), if_pos hnil]
    · rw [if_pos (by rw [rest_eq_nil hsize h] at hnil; omega), if_neg hnil]
  rw [myDecodeLoop, dif_pos (drop_eq_cons h).1, load_next hsize h, load_eq h, Res.ok_bind, hcond]
  cases bit <;> rfl

theorem myDecodeLoop_nil (hi : size ≤ i) (bit : Bit) (res : Str) (n : Nat) :
    myDecodeLoop data size bit i res n = .ok (res, n) := by
  rw [myDecodeLoop, dif_neg (by omega)]
  rfl

end

theorem myDecode_cons (bit : Bit) (c : Char) (rest : Str) :
    L3.myDecode bit (c :: rest) =
      trans2 c >>= fun v => trans2Next rest >>= fun w =>
        L3.myDecode (Bit.next bit) (rest.drop (Bit.width bit - 1)) >>= fun out =>
          pure ((if rest = [] then [] else [Char.ofNat (Bit.byte bit v w % 256)]) ++ out) := by
  cases bit with
  | zero => rfl
  | four => rfl
  | two =>
    cases rest with
    | nil => rfl
    | cons d rest => rfl

/-! ## The whole loop of `MyDecode` -/

theorem turns_zero (bit : Bit) : Bit.turns bit 0 = 0 := by cases bit <;> rfl

section
variable {data : Str} {size : Nat}

theorem drop_eq_nil (hsize : size ≤ data.length) {i : Nat} (h : (data.take size).drop i = []) :
    size ≤ i := by
  rw [List.drop_eq_nil_iff, List.length_take] at h
  omega

theorem drop_width {i : Nat} {c : Char} {rest : Str} (h : (data.take size).drop i = c :: rest)
    (bit : Bit) :
    (data.take size).drop (i + Bit.width bit) = rest.drop (Bit.width bit - 1) := by
  rw [← List.drop_drop, h]
  cases bit <;> rfl

/-- With room for every turn the loop leaves in the block what `myDecode`
computes. -/
theorem myDecodeLoop_ok (hsize : size ≤ data.length) : ∀ {l : Str} {bit : Bit} {i n : Nat}
    {res s : Str}, (data.take size).drop i = l → L3.myDecode bit l = .ok s →
    n + Bit.turns bit l.length ≤ res.length →
    ∃ r, myDecodeLoop data size bit i res n = .ok (r, n + s.length) ∧ r.length = res.length ∧
      r.take (n + s.length) = res.take n ++ s
  | [], bit, i, n, res, s, hl, hs, _ => by
    cases bit <;> cases hs <;>
      exact ⟨res, myDecodeLoop_nil (drop_eq_nil hsize hl) _ res n, rfl, by simp⟩
  | c :: rest, bit, i, n, res, s, hl, hs, hroom => by
    rw [myDecode_cons] at hs
    obtain ⟨v, hv, hs⟩ := Res.bind_eq_ok.mp hs
    obtain ⟨w, hw, hs⟩ := Res.bind_eq_ok.mp hs
    obtain ⟨out, hout, hs⟩ := Res.bind_eq_ok.mp hs
    cases hs
    rw [List.length_cons, turns_succ] at hroom
    have hn : n < res.length := by omega
    rw [myDecodeLoop_cons hsize hl, hv, Res.ok_bind, hw, Res.ok_bind, store_ok hn, Res.ok_bind]
    by_cases hnil : rest = []
    · subst hnil
      have hend : (data.take size).drop (i + Bit.width bit) = [] := by
        rw [drop_width hl, List.drop_nil]
      rw [List.drop_nil] at hout
      have hempty : out = [] := by cases bit <;> cases hout <;> rfl
      subst hempty
      refine ⟨_, myDecodeLoop_nil (drop_eq_nil hsize hend) _ _ _, List.length_set, ?_⟩
      simp [List.take_set_of_le]
    · simp only [if_neg hnil, List.singleton_append, List.length_cons]
      have hroom' : n + 1 + Bit.turns (Bit.next bit) (rest.drop (Bit.width bit - 1)).length ≤
          (res.set n (Char.ofNat (Bit.byte bit v w % 256))).length := by
        rw [List.length_drop, List.length_set]
        omega
      obtain ⟨r, hr, hlen, htake⟩ := myDecodeLoop_ok hsize (drop_width hl bit) hout hroom'
      have hcount : n + 1 + out.length = n + (out.length + 1) := by omega
      rw [hcount] at hr htake
      refine ⟨r, hr, by rw [hlen, List.length_set], ?_⟩
      rw [htake, take_set_succ hn, List.append_assoc]
      rfl
termination_by l => l.length
decreasing_by
  rw [List.length_drop, List.length_cons]
  omega

/-- A loop that ends had room for every turn, and characters the table has. -/
theorem myDecodeLoop_room (hsize : size ≤ data.length) : ∀ {l : Str} {bit : Bit} {i n : Nat}
    {res : Str} {out : Str × Nat}, (data.take size).drop i = l →
    myDecodeLoop data size bit i res n = .ok out →
    (∃ s, L3.myDecode bit l = .ok s) ∧ (l = [] ∨ n + Bit.turns bit l.length ≤ res.length)
  | [], bit, i, n, res, out, _, _ => by
    cases bit <;> exact ⟨⟨[], rfl⟩, Or.inl rfl⟩
  | c :: rest, bit, i, n, res, out, hl, h => by
    rw [myDecodeLoop_cons hsize hl] at h
    obtain ⟨v, hv, h⟩ := Res.bind_eq_ok.mp h
    obtain ⟨w, hw, h⟩ := Res.bind_eq_ok.mp h
    obtain ⟨res', hstore, h⟩ := Res.bind_eq_ok.mp h
    obtain ⟨hn, rfl⟩ := store_eq_ok.mp hstore
    obtain ⟨⟨s, hs⟩, hroom⟩ := myDecodeLoop_room hsize (drop_width hl bit) h
    rw [myDecode_cons, hv, Res.ok_bind, hw, Res.ok_bind, hs, Res.ok_bind]
    refine ⟨⟨_, rfl⟩, Or.inr ?_⟩
    rw [List.length_cons, turns_succ, ← List.length_drop]
    rcases hroom with hempty | hroom
    · rw [hempty, List.length_nil, turns_zero]
      omega
    · rw [List.length_set] at hroom
      split at hroom
      · next hnil =>
        rw [hnil, List.drop_nil, List.length_nil, turns_zero]
        omega
      · omega
termination_by l => l.length
decreasing_by
  rw [List.length_drop, List.length_cons]
  omega

end

/-! ## The block of `MyDecode` -/

theorem tdiv_four (p : Int) : p.tdiv 4 = if 0 ≤ p then p / 4 else -(-p / 4) := by
  split
  · next h => exact Int.tdiv_eq_ediv_of_nonneg h
  · next h => rw [← Int.tdiv_eq_ediv_of_nonneg (by omega : 0 ≤ -p), Int.neg_tdiv, Int.neg_neg]

theorem toInt_block (size : Int32) :
    (size * 3 / 4 + 2).toInt = ((size.toInt * 3).bmod (2 ^ 32)).tdiv 4 + 2 := by
  have hlow := @Int.le_bmod (size.toInt * 3) (2 ^ 32) (by decide)
  have hhigh := @Int.bmod_lt (size.toInt * 3) (2 ^ 32) (by decide)
  have h3 : (3 : Int32).toInt = 3 := rfl
  have h4 : (4 : Int32).toInt = 4 := rfl
  have h2 : (2 : Int32).toInt = 2 := rfl
  rw [Int32.toInt_add, Int32.toInt_div, Int32.toInt_mul, h2, h3, h4]
  generalize (size.toInt * 3).bmod (2 ^ 32) = p at hlow hhigh
  have hquarter : -(2 ^ 30) ≤ p.tdiv 4 ∧ p.tdiv 4 < 2 ^ 30 := by
    rw [tdiv_four]
    split <;> omega
  generalize p.tdiv 4 = q at hquarter
  have hq : q.bmod (2 ^ 32) = q := Int.bmod_eq_of_le (by omega) (by omega)
  rw [hq]
  exact Int.bmod_eq_of_le (by omega) (by omega)

/-- Without an overflow the block has what the formula says. -/
theorem block_fits {size : Int32} (h0 : 0 < size.toInt) (h : 3 * size.toInt < 2 ^ 31) :
    (size * 3 / 4 + 2).toInt = 3 * size.toInt / 4 + 2 := by
  rw [toInt_block, Int.bmod_eq_of_le (by omega) (by omega), tdiv_four, if_pos (by omega)]
  omega

/-- An overflow makes the size negative at first. -/
theorem block_negative {size : Int32} (hlow : 2 ^ 31 ≤ 3 * size.toInt)
    (hhigh : 3 * size.toInt ≤ 2 ^ 32 - 12) :
    (size * 3 / 4 + 2).toInt < 0 := by
  rw [toInt_block, Int.bmod_def, Int.emod_eq_of_lt (by omega) (by omega), if_neg (by omega),
    tdiv_four, if_neg (by omega)]
  omega

/-- Past 2^32 the block is far too small. -/
theorem block_small {size : Int32} (hlow : 2 ^ 32 - 12 < 3 * size.toInt) :
    0 ≤ (size * 3 / 4 + 2).toInt ∧ (size * 3 / 4 + 2).toInt < (3 * size.toInt + 3) / 4 := by
  have := size.toInt_lt
  have hwrap : (size.toInt * 3).bmod (2 ^ 32) = 3 * size.toInt - 2 ^ 32 := by
    rw [Int.bmod_def]
    split <;> omega
  rw [toInt_block, hwrap, tdiv_four]
  split <;> omega

theorem calloc_eq_some {size : Int32} {res : Str} : calloc size = some res ↔
    0 ≤ size.toInt ∧ res = List.replicate size.toInt.toNat '\x00' := by
  have hzero : (0 : Int32).toInt = 0 := rfl
  unfold calloc
  simp only [Int32.lt_iff_toInt_lt, hzero]
  split
  · next h => exact iff_of_false (by simp) (by omega)
  · next h =>
    rw [Option.some.injEq, eq_comm]
    exact (and_iff_right (by omega)).symm

theorem calloc_eq_none {size : Int32} : calloc size = none ↔ size.toInt < 0 := by
  have hzero : (0 : Int32).toInt = 0 := rfl
  unfold calloc
  simp only [Int32.lt_iff_toInt_lt, hzero]
  split <;> simp [*]

/-! ## The characters of `MyDecode` -/

theorem trans2_isOk {c : Char} : (∃ v, trans2 c = .ok v) ↔ c.toNat < 128 := by
  unfold trans2
  split
  · next h => exact iff_of_false (by simp) (by omega)
  · next h =>
    refine iff_of_true ?_ (by omega)
    split_ifs <;> exact ⟨_, rfl⟩

theorem trans2Next_ok {l : Str} (h : ∀ c ∈ l, c.toNat < 128) : ∃ v, trans2Next l = .ok v := by
  cases l with
  | nil => exact ⟨0, rfl⟩
  | cons c l => exact trans2_isOk.mpr (h c (List.mem_cons_self ..))

/-- Exactly the characters of the table are decoded. -/
theorem myDecode_isOk : ∀ {bit : Bit} {l : Str},
    (∃ s, L3.myDecode bit l = .ok s) ↔ ∀ c ∈ l, c.toNat < 128
  | bit, [] => iff_of_true (by cases bit <;> exact ⟨[], rfl⟩) (by simp)
  | bit, c :: rest => by
    have ih := @myDecode_isOk (Bit.next bit) (rest.drop (Bit.width bit - 1))
    rw [myDecode_cons, List.forall_mem_cons]
    constructor
    · intro ⟨s, hs⟩
      obtain ⟨v, hv, hs⟩ := Res.bind_eq_ok.mp hs
      obtain ⟨w, hw, hs⟩ := Res.bind_eq_ok.mp hs
      obtain ⟨out, hout, hs⟩ := Res.bind_eq_ok.mp hs
      have hbehind := ih.mp ⟨out, hout⟩
      refine ⟨trans2_isOk.mp ⟨v, hv⟩, fun d hd => ?_⟩
      -- the character behind is read here, whether or not the next turn starts there
      cases rest with
      | nil => cases hd
      | cons e rest =>
        rcases List.mem_cons.mp hd with rfl | hd
        · exact trans2_isOk.mp ⟨w, hw⟩
        · refine hbehind d ?_
          cases bit with
          | zero => exact List.mem_cons_of_mem _ hd
          | four => exact List.mem_cons_of_mem _ hd
          | two => exact hd
    · intro ⟨hc, hrest⟩
      obtain ⟨v, hv⟩ := trans2_isOk.mpr hc
      obtain ⟨w, hw⟩ := trans2Next_ok hrest
      obtain ⟨out, hout⟩ := ih.mpr fun d hd => hrest d (List.mem_of_mem_drop hd)
      rw [hv, Res.ok_bind, hw, Res.ok_bind, hout]
      exact ⟨_, rfl⟩
termination_by _ l => l.length
decreasing_by
  rw [List.length_drop, List.length_cons]
  omega

/-! ## `Decode` -/

theorem toInt_zero : (0 : Int32).toInt = 0 := rfl

section
variable {data s : Str} {size : Int32}

theorem myDecode_block (hne : size.toInt ≠ 0) : myDecode data size =
    match calloc (size * 3 / 4 + 2) with
    | none => .ok none
    | some res =>
      myDecodeLoop data size.toInt.toNat .zero 0 res 0 >>= fun out => .ok (some out) := by
  rw [myDecode, if_neg fun h => hne (by rw [h, toInt_zero])]
  rfl

/-- With a block as large as the formula says, the block holds the result. -/
theorem myDecode_fits (hpos : 0 < size.toInt) (hfits : 3 * size.toInt < 2 ^ 31)
    (hsize : size.toInt ≤ data.length)
    (hs : L3.myDecode .zero (data.take size.toInt.toNat) = .ok s) :
    ∃ res, myDecode data size = .ok (some (res, s.length)) ∧ copy res s.length = .ok s := by
  have hblock := block_fits hpos hfits
  have hcalloc := (@calloc_eq_some (size * 3 / 4 + 2) _).mpr ⟨by omega, rfl⟩
  have hroom : 0 + Bit.turns .zero (data.take size.toInt.toNat).length ≤
      (List.replicate (size * 3 / 4 + 2).toInt.toNat '\x00').length := by
    rw [List.length_take, List.length_replicate, hblock, Bit.turns]
    omega
  obtain ⟨res, hloop, -, htake⟩ := myDecodeLoop_ok (by omega) List.drop_zero hs hroom
  rw [Nat.zero_add] at hloop htake
  rw [List.take_zero, List.nil_append] at htake
  refine ⟨res, ?_, ?_⟩
  · rw [myDecode_block (by omega), hcalloc]
    simp only [hloop, Res.ok_bind]
  · have hlen : s.length ≤ res.length := by
      rw [← htake, List.length_take]
      omega
    rw [copy, if_pos hlen, htake]
    rfl

/-- The converse: a block and a result mean room for every turn. -/
theorem myDecode_room {tmp : Option (Str × Nat)} (hpos : 0 < size.toInt)
    (hblock : 0 ≤ (size * 3 / 4 + 2).toInt) (hsize : size.toInt ≤ data.length)
    (h : myDecode data size = .ok tmp) :
    (∃ s, L3.myDecode .zero (data.take size.toInt.toNat) = .ok s) ∧
      (3 * size.toInt + 3) / 4 ≤ (size * 3 / 4 + 2).toInt := by
  have hcalloc := (@calloc_eq_some (size * 3 / 4 + 2) _).mpr ⟨hblock, rfl⟩
  rw [myDecode_block (by omega), hcalloc] at h
  obtain ⟨out, hloop, -⟩ := Res.bind_eq_ok.mp h
  obtain ⟨hs, hroom⟩ := myDecodeLoop_room (by omega) List.drop_zero hloop
  refine ⟨hs, ?_⟩
  rcases hroom with hnil | hroom
  · have hlen := congrArg List.length hnil
    rw [List.length_take, List.length_nil] at hlen
    omega
  · rw [List.length_take, List.length_replicate, Bit.turns] at hroom
    omega

/-- A size that is not positive reads nothing. -/
theorem myDecode_nothing (h : size.toInt ≤ 0) :
    (myDecode data size >>= contents) = .ok [] := by
  by_cases hzero : size = 0
  · rw [myDecode, if_pos hzero]
    rfl
  · rw [myDecode_block fun hz => hzero (Int32.toInt_inj.mp hz)]
    cases calloc (size * 3 / 4 + 2) with
    | none => rfl
    | some res =>
      simp only [myDecodeLoop_nil (by omega : size.toInt.toNat ≤ 0), Res.ok_bind]
      rw [contents, copy, if_pos (Nat.zero_le _), List.take_zero]
      rfl

/-- Where `MyDecode` stays inside the table and its blocks: there is nothing
to read, or no block for it, or the block is large enough and the table has
every character. -/
def Readable (data : Str) (size : Int) : Prop :=
  size ≤ 0 ∨ (2 ^ 31 ≤ 3 * size ∧ 3 * size ≤ 2 ^ 32 - 12) ∨
    (3 * size < 2 ^ 31 ∧ ∀ c ∈ data.take size.toNat, c.toNat < 128)

theorem myDecode_of_readable (hsize : size.toInt ≤ data.length)
    (h : Readable data size.toInt) : ∃ text, (myDecode data size >>= contents) = .ok text := by
  by_cases hpos : 0 < size.toInt
  · rcases h with hnothing | ⟨hlow, hhigh⟩ | ⟨hfits, hchars⟩
    · omega
    · rw [myDecode_block (by omega), calloc_eq_none.mpr (block_negative hlow hhigh)]
      exact ⟨[], rfl⟩
    · obtain ⟨s, hs⟩ := myDecode_isOk.mpr hchars
      obtain ⟨res, hres, hcopy⟩ := myDecode_fits hpos hfits hsize hs
      rw [hres]
      exact ⟨s, hcopy⟩
  · exact ⟨[], myDecode_nothing (by omega)⟩

theorem readable_of_myDecode (hsize : size.toInt ≤ data.length) {text : Str}
    (h : (myDecode data size >>= contents) = .ok text) : Readable data size.toInt := by
  obtain ⟨tmp, htmp, -⟩ := Res.bind_eq_ok.mp h
  by_contra hnot
  simp only [Readable, not_or, not_and, not_le] at hnot
  obtain ⟨hpos, hsome, hchars⟩ := hnot
  by_cases hfits : 3 * size.toInt < 2 ^ 31
  · have hblock := block_fits hpos hfits
    obtain ⟨hs, -⟩ := myDecode_room hpos (by omega) hsize htmp
    exact hchars hfits (myDecode_isOk.mp hs)
  · have hblock := block_small (hsome (by omega))
    obtain ⟨-, hroom⟩ := myDecode_room hpos hblock.1 hsize htmp
    omega

end

/-- The filter puts no more into a block than it is told. -/
theorem base64Decode_ok {bioRead : Str → Nat → Str} (hread : ∀ s n, (bioRead s n).length ≤ n)
    (data : Str) (size : Int32) :
    ∃ text, (base64Decode bioRead data size >>= contents) = .ok text := by
  unfold base64Decode
  split
  · exact ⟨[], rfl⟩
  · next res hres =>
    obtain ⟨-, rfl⟩ := calloc_eq_some.mp hres
    have hlen := hread (data.take size.toInt.toNat) size.toInt.toNat
    simp only [List.length_replicate, if_pos hlen, Res.pure_eq, Res.ok_bind, contents]
    exact ⟨_, if_pos (by rw [List.length_append]; omega)⟩

/-- **Exactly the texts of the base64 code and the `Readable` ones are
decoded inside the table and the blocks.** -/
theorem decode_inBounds {bioRead : Str → Nat → Str}
    (hread : ∀ s n, (bioRead s n).length ≤ n) (data : Str) :
    (∃ text, decode bioRead data = .ok text) ↔
      '\n' ∈ data ∨ Readable data (Int32.ofNat data.length).toInt := by
  unfold decode
  by_cases hline : '\n' ∈ data
  · rw [if_pos hline]
    exact iff_of_true (base64Decode_ok hread _ _) (Or.inl hline)
  · rw [if_neg hline, or_iff_right hline]
    constructor
    · intro ⟨text, h⟩
      exact readable_of_myDecode (toInt_ofNat_le data.length) h
    · exact myDecode_of_readable (toInt_ofNat_le data.length)

namespace Sample

/-- One line of base64. -/
def line : Str := "YQ==\n".toList

/-- The filter on that line. -/
def bioRead (s : Str) (n : Nat) : Str := if s = line then ['a'].take n else []

end Sample

theorem decode_inBounds_line :
    (∃ text, decode Sample.bioRead Sample.line = .ok text) ↔
      '\n' ∈ Sample.line ∨ Readable Sample.line (Int32.ofNat Sample.line.length).toInt := by
  refine decode_inBounds (fun s n => ?_) Sample.line
  unfold Sample.bioRead
  split
  · exact List.length_take_le n _
  · exact Nat.zero_le n

/-- A single byte 0x80 is an index behind the table, or before it where
`char` has a sign. -/
theorem decode_highByte : Bytes [Char.ofNat 0x80] ∧
    ∀ bioRead, decode bioRead [Char.ofNat 0x80] = .fault .outOfRange := by
  refine ⟨by decide, fun bioRead => ?_⟩
  have hblock : calloc (Int32.ofNat [Char.ofNat 0x80].length * 3 / 4 + 2) =
      some ['\x00', '\x00'] := by decide
  have htable : trans2 (Char.ofNat 0x80) = .fault .outOfRange := by decide
  have hloop : myDecodeLoop [Char.ofNat 0x80] 1 .zero 0 ['\x00', '\x00'] 0 =
      .fault .outOfRange := by
    rw [myDecodeLoop]
    simp only [Nat.zero_lt_one, dif_pos, load, List.getElem?_cons_zero, Res.pure_eq,
      Res.ok_bind, htable, Res.fault_bind]
  have hsize : (Int32.ofNat [Char.ofNat 0x80].length).toInt.toNat = 1 := by decide
  rw [decode, if_neg (by decide), myDecode_block (by decide), hblock]
  simp only [hsize, hloop, Res.fault_bind]

/-! ## One turn of `MyEncode` -/

def Shift.next : Shift → Shift
  | .zero => .two
  | .two => .four
  | .four => .six
  | .six => .zero

/-- The first turn on a byte stays there. -/
def Shift.width : Shift → Nat
  | .zero => 0
  | _ => 1

/-- The index into `trans`, from a byte and the one behind. -/
def Shift.index : Shift → Nat → Nat → Nat
  | .zero, c, _ => (c &&& 0xfc) >>> 2
  | .two, c, c2 => (c &&& 0x03) <<< 4 ||| (c2 &&& 0xf0) >>> 4
  | .four, c, c2 => (c &&& 0x0f) <<< 2 ||| (c2 &&& 0xc0) >>> 6
  | .six, c, _ => c &&& 0x3f

/-- Every index is in the alphabet. -/
theorem index_lt (bit : Shift) (c c2 : Nat) : Shift.index bit c c2 < 64 := by
  cases bit with
  | zero =>
    have hfield : (c &&& 0xfc) >>> 2 = c / 4 % 64 := field_eq _ 2 6
    rw [Shift.index, hfield]
    omega
  | two =>
    have hlow : (c &&& 0x03) <<< 4 = c % 4 * 16 := lowest_eq _ 4 2
    have hbehind : (c2 &&& 0xf0) >>> 4 = c2 / 16 % 16 := field_eq _ 4 4
    have hjoin : c % 4 * 16 ||| c2 / 16 % 16 = c % 4 * 16 + c2 / 16 % 16 :=
      join_eq _ 4 (by omega)
    rw [Shift.index, hlow, hbehind, hjoin]
    omega
  | four =>
    have hlow : (c &&& 0x0f) <<< 2 = c % 16 * 4 := lowest_eq _ 2 4
    have hbehind : (c2 &&& 0xc0) >>> 6 = c2 / 64 % 4 := field_eq _ 6 2
    have hjoin : c % 16 * 4 ||| c2 / 64 % 4 = c % 16 * 4 + c2 / 64 % 4 := join_eq _ 2 (by omega)
    rw [Shift.index, hlow, hbehind, hjoin]
    omega
  | six =>
    have hlow : c &&& 0x3f = c % 64 := Nat.and_two_pow_sub_one_eq_mod _ 6
    rw [Shift.index, hlow]
    omega

/-- What is still to be written for some bytes. -/
def Shift.text : Shift → Str → Str
  | .zero, l => L3.myEncode .first l
  | .two, [] => []
  | .two, c :: rest => trans (Shift.index .two c.toNat (byteNext rest)) :: L3.myEncode .second rest
  | .four, l => L3.myEncode .second l
  | .six, l => L3.myEncode .third l

theorem text_nil (bit : Shift) : Shift.text bit [] = [] := by cases bit <;> rfl

theorem text_cons (bit : Shift) (c : Char) (rest : Str) : Shift.text bit (c :: rest) =
    trans (Shift.index bit c.toNat (byteNext rest)) ::
      Shift.text (Shift.next bit) ((c :: rest).drop (Shift.width bit)) := by
  cases bit <;> rfl

theorem put_ok {res : Str} {j n : Nat} (hj : j < res.length) (hn : n < 64) :
    put res j n = .ok (res.set j (trans n)) := by
  have hlen : j < (res.set j (Char.ofNat n)).length := by rwa [List.length_set]
  rw [put, Nat.mod_eq_of_lt (by omega), store_ok hj, Res.ok_bind, load_set hj, Res.ok_bind, transAt,
    toNat_ofNat_byte (by omega), if_pos hn, Res.pure_eq, Res.ok_bind, store_ok hlen, List.set_set]

section
variable {data : Str} {size : Nat}

theorem load_behind (hsize : size ≤ data.length) {i : Nat} {c : Char} {rest : Str}
    (h : (data.take size).drop i = c :: rest) :
    ∃ c2, (if i < size - 1 then load data (i + 1) else pure '\x00') = .ok c2 ∧
      c2.toNat = byteNext rest := by
  have hi := (drop_eq_cons h).1
  cases rest with
  | nil =>
    have hlast := (rest_eq_nil hsize h).mp rfl
    exact ⟨'\x00', if_neg (by omega), rfl⟩
  | cons d rest =>
    have hnext : i + 1 < size := by
      by_contra hn
      exact absurd ((rest_eq_nil hsize h).mpr hn) (by simp)
    exact ⟨d, by rw [if_pos (by omega), load_eq (drop_eq_cons h).2.2], rfl⟩

theorem myEncodeLoop_cons (hsize : size ≤ data.length) {i : Nat} {c : Char} {rest : Str}
    (h : (data.take size).drop i = c :: rest) (bit : Shift) (res : Str) (j : Nat) :
    myEncodeLoop data size bit i res j =
      put res j (Shift.index bit c.toNat (byteNext rest)) >>= fun res =>
        myEncodeLoop data size (Shift.next bit) (i + Shift.width bit) res (j + 1) := by
  obtain ⟨c2, hc2, hbehind⟩ := load_behind hsize h
  rw [myEncodeLoop, dif_pos (drop_eq_cons h).1, load_eq h, Res.ok_bind, hc2, Res.ok_bind,
    ← hbehind]
  cases bit <;> rfl

/-- With room for the text the loop leaves it in the block. -/
theorem myEncodeLoop_ok (hsize : size ≤ data.length) (hdata : Bytes data) : ∀ {l : Str}
    {bit : Shift} {i j : Nat} {res : Str}, (data.take size).drop i = l →
    j + (Shift.text bit l).length ≤ res.length →
    ∃ r, myEncodeLoop data size bit i res j = .ok (r, j + (Shift.text bit l).length) ∧
      r.length = res.length ∧
      r.take (j + (Shift.text bit l).length) = res.take j ++ Shift.text bit l
  | [], bit, i, j, res, hl, _ => by
    refine ⟨res, ?_, rfl, by simp [text_nil]⟩
    rw [myEncodeLoop, dif_neg (by have := drop_eq_nil hsize hl; omega), text_nil]
    rfl
  | c :: rest, bit, i, j, res, hl, hroom => by
    have hc : c.toNat < 256 :=
      hdata c (List.mem_of_getElem? (drop_eq_cons hl).2.1)
    rw [text_cons, List.length_cons] at hroom
    have hj : j < res.length := by omega
    rw [myEncodeLoop_cons hsize hl, put_ok hj (index_lt ..), Res.ok_bind]
    have hbehind : (data.take size).drop (i + Shift.width bit) =
        (c :: rest).drop (Shift.width bit) := by rw [← List.drop_drop, hl]
    have hroom' : j + 1 + (Shift.text (Shift.next bit) ((c :: rest).drop (Shift.width bit))).length ≤
        (res.set j (trans (Shift.index bit c.toNat (byteNext rest)))).length := by
      rw [List.length_set]
      omega
    obtain ⟨r, hr, hlen, htake⟩ := myEncodeLoop_ok hsize hdata hbehind hroom'
    have hcount : j + 1 + (Shift.text (Shift.next bit) ((c :: rest).drop (Shift.width bit))).length =
        j + ((Shift.text (Shift.next bit) ((c :: rest).drop (Shift.width bit))).length + 1) := by
      omega
    rw [hcount] at hr htake
    rw [text_cons, List.length_cons]
    refine ⟨r, hr, by rw [hlen, List.length_set], ?_⟩
    rw [htake, take_set_succ hj, List.append_assoc]
    rfl
termination_by l bit => 2 * l.length + if bit = .zero then 1 else 0
decreasing_by
  cases bit <;> simp +arith [Shift.width, Shift.next]

end

theorem length_myEncode : ∀ (turn : Turn) (s : Str), (L3.myEncode turn s).length =
    match turn with
    | .first => (4 * s.length + 2) / 3
    | .second => 4 * s.length / 3
    | .third => (4 * s.length + 1) / 3
  | turn, [] => by cases turn <;> rfl
  | .first, c :: rest => by
    have ih := length_myEncode .second rest
    simp only [L3.myEncode, List.length_cons, ih]
    omega
  | .second, c :: rest => by
    have ih := length_myEncode .third rest
    simp only [L3.myEncode, List.length_cons, ih]
    omega
  | .third, c :: rest => by
    have ih := length_myEncode .first rest
    simp only [L3.myEncode, List.length_cons, ih]
    omega

/-! ## `Encode` and back -/

theorem toInt_ofNat {n : Nat} (h : n < 2 ^ 31) : (Int32.ofNat n).toInt = n :=
  Int32.toInt_ofNat_of_lt h

theorem encode_block {size : Int32} (h0 : 0 ≤ size.toInt) (h : 4 * size.toInt < 2 ^ 31) :
    (size * 4 / 3 + 2).toInt = 4 * size.toInt / 3 + 2 := by
  have h4 : (4 : Int32).toInt = 4 := rfl
  have h3 : (3 : Int32).toInt = 3 := rfl
  have h2 : (2 : Int32).toInt = 2 := rfl
  have hproduct : (size.toInt * 4).bmod (2 ^ 32) = 4 * size.toInt := by
    rw [Int.mul_comm]
    exact Int.bmod_eq_of_le (by omega) (by omega)
  have hquotient : (4 * size.toInt / 3).bmod (2 ^ 32) = 4 * size.toInt / 3 :=
    Int.bmod_eq_of_le (by omega) (by omega)
  rw [Int32.toInt_add, Int32.toInt_div, Int32.toInt_mul, h2, h3, h4, hproduct,
    Int.tdiv_eq_ediv_of_nonneg (by omega), hquotient]
  exact Int.bmod_eq_of_le (by omega) (by omega)

/-- Within `int` the block holds the text and its NUL. -/
theorem encode_eq {x : Str} (hx : Bytes x) (hint : 4 * x.length < 2 ^ 31) :
    encode x = .ok (L3.myEncode .first x) := by
  have hsize : (Int32.ofNat x.length).toInt = x.length := toInt_ofNat (by omega)
  by_cases hnil : x = []
  · subst hnil
    rfl
  have hne : ¬ Int32.ofNat x.length = 0 := by
    intro hz
    rw [hz, toInt_zero] at hsize
    exact hnil (List.eq_nil_of_length_eq_zero (by omega))
  have hblock := @encode_block (Int32.ofNat x.length) (by omega) (by omega)
  have hcalloc := (@calloc_eq_some (Int32.ofNat x.length * 4 / 3 + 2) _).mpr ⟨by omega, rfl⟩
  have hlen : (L3.myEncode .first x).length = (4 * x.length + 2) / 3 := length_myEncode .first x
  have hroom : 0 + (Shift.text .zero x).length ≤
      (List.replicate (Int32.ofNat x.length * 4 / 3 + 2).toInt.toNat '\x00').length := by
    rw [List.length_replicate, hblock, Shift.text, hlen]
    omega
  obtain ⟨res, hloop, hreslen, htake⟩ := myEncodeLoop_ok (Nat.le_refl x.length) hx
    (by rw [List.take_length, List.drop_zero]) hroom
  rw [Nat.zero_add, Shift.text] at hloop htake
  rw [List.take_zero, List.nil_append] at htake
  have hend : (L3.myEncode .first x).length < res.length := by
    rw [hreslen, List.length_replicate, hblock, hlen]
    omega
  have hcopy : copy (res.set (L3.myEncode .first x).length '\x00') (L3.myEncode .first x).length =
      .ok (L3.myEncode .first x) := by
    rw [copy, if_pos (by rw [List.length_set]; omega), List.take_set_of_le (Nat.le_refl _), htake]
    rfl
  rw [encode, myEncode, if_neg hne, hcalloc]
  simp only [hsize, Int.toNat_natCast, hloop, Res.ok_bind, store_ok hend, Res.pure_eq, contents,
    hcopy]

theorem decode_eq {t s : Str} (hline : '\n' ∉ t) (hint : 3 * t.length < 2 ^ 31)
    (hs : L3.myDecode .zero t = .ok s) (bioRead : Str → Nat → Str) :
    decode bioRead t = .ok s := by
  have hsize : (Int32.ofNat t.length).toInt = t.length := toInt_ofNat (by omega)
  have htake : t.take (Int32.ofNat t.length).toInt.toNat = t := by
    rw [hsize, Int.toNat_natCast, List.take_length]
  rw [decode, if_neg hline]
  by_cases hnil : t = []
  · subst hnil
    cases hs
    rfl
  · have hpos := List.length_pos_iff.mpr hnil
    obtain ⟨res, hres, hcopy⟩ := @myDecode_fits t s (Int32.ofNat t.length) (by omega) (by omega)
      (by omega) (by rw [htake]; exact hs)
    rw [hres]
    exact hcopy

/-- **Within `int` `Decode` reads exactly what `Encode` wrote, every index is
in its array, and the text is never taken for base64.** -/
theorem decode_of_encode {x : Str} (hx : Bytes x) (hint : 4 * x.length < 2 ^ 31) :
    ∃ text, encode x = .ok text ∧ '\n' ∉ text ∧ ∀ bioRead, decode bioRead text = .ok x := by
  have hline : '\n' ∉ L3.myEncode .first x := by
    intro hc
    obtain ⟨n, hn, heq⟩ := mem_myEncode hx _ hc
    exact (trans_text n hn).2.2.2.2 heq.symm
  have hlen : (L3.myEncode .first x).length = (4 * x.length + 2) / 3 := length_myEncode .first x
  refine ⟨L3.myEncode .first x, encode_eq hx hint, hline, ?_⟩
  exact decode_eq hline (by omega) (myDecode_myEncode x hx)

theorem decode_of_encode_ends : ∃ text, encode [Char.ofNat 0, Char.ofNat 255] = .ok text ∧
    '\n' ∉ text ∧ ∀ bioRead, decode bioRead text = .ok [Char.ofNat 0, Char.ofNat 255] :=
  decode_of_encode (by decide) (by decide)

end Voms.L3.Buffer
