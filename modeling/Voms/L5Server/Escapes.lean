import Voms.Core.Block
import Voms.L3Wire.Codec
import Voms.L5Server.Rest

/-!
# Escapes in paths

`canonicalize_string` of `src/server/vomsd-rest.cc` decodes `%XX` in place,
with one position to read and one to write. `canonicalize` is that loop on
the buffer of a C string, with every access checked; `canonicalize_ok`
connects it to the `canonicalizeString` of lists.

`hex2num(first)<<4 + hex2num(second)` is `hex2num(first) << (4 +
hex2num(second))`: only an escape that ends in 0 gives its byte.

* `canonicalize_exact`: the encodings that are decoded right, and that the
  loop never leaves its buffer.
-/
namespace Voms.L5

open Voms.Core Voms.Core.Block Voms.L3

/-! ## In place -/

/-- The loop, with the positions of `currentin` and `currentout`. Every turn
moves `currentin`, so the length of the buffer is fuel enough.
mirrors src/server/vomsd-rest.cc:262-290 -/
def canonicalizeLoop : Nat → Str → Nat → Nat → Eval Str
  | 0, _, _, _ => .fault .diverge
  | fuel + 1, buf, i, o => do
    let c ← load buf i
    if c = '\x00' then store buf o '\x00'
    else if c ≠ '%' then do
      let buf ← store buf o c
      canonicalizeLoop fuel buf (i + 1) (o + 1)
    else do
      let first ← load buf (i + 1)
      let second ← (if first ≠ '\x00' then load buf (i + 2) else pure '\x00')
      if first ≠ '\x00' ∧ second ≠ '\x00' ∧ isXdigit first ∧ isXdigit second then do
        let buf ← store buf o (Char.ofNat ((hex2num first <<< (4 + hex2num second)) % 256))
        canonicalizeLoop fuel buf (i + 3) (o + 1)
      else do
        let buf ← store buf o c
        canonicalizeLoop fuel buf (i + 1) (o + 1)

/-- The text in the buffer afterwards.
mirrors src/server/vomsd-rest.cc:260-292 -/
def canonicalize (original : Str) : Eval Str := do
  let buf := original ++ ['\x00']
  let buf ← canonicalizeLoop buf.length buf 0 0
  pure (cStr buf)

/-- What is written goes before what is still to be read. -/
theorem drop_set_le {buf : Str} {o i : Nat} {c : Char} (h : o < i) :
    (buf.set o c).drop i = buf.drop i := by
  rw [List.drop_set_of_lt h]

/-- Without an escape at the front the first character is kept. -/
theorem canonicalizeString_keep {c : Char} {rest : Str}
    (h : ∀ first second t, c = '%' → rest = first :: second :: t →
      ¬ (isXdigit first = true ∧ isXdigit second = true)) :
    canonicalizeString (c :: rest) = c :: canonicalizeString rest := by
  rw [canonicalizeString.eq_def]
  split
  · next first second t heq =>
    obtain ⟨rfl, rfl⟩ := List.cons.inj heq
    rw [if_neg (by simpa using h first second t rfl rfl)]
  · next d t _ heq =>
    obtain ⟨rfl, rfl⟩ := List.cons.inj heq
    rfl
  · next heq => cases heq

theorem canonicalizeString_escape {first second : Char} {rest : Str}
    (h : isXdigit first = true ∧ isXdigit second = true) :
    canonicalizeString ('%' :: first :: second :: rest) =
      Char.ofNat ((hex2num first <<< (4 + hex2num second)) % 256) :: canonicalizeString rest := by
  rw [canonicalizeString, if_pos (by simp [h])]

/-- What the loop leaves of a buffer: `o` characters are written and `rest`
is still to be read. -/
def Leaves (run : Eval Str) (buf : Str) (o : Nat) (out : Str) : Prop :=
  ∃ tail, run = .ok (buf.take o ++ out ++ '\x00' :: tail)

/-- One character is written, and the loop goes on behind what it stands for. -/
theorem Leaves.write {fuel o j : Nat} {buf rest : Str} {d : Char} (ho : o < buf.length)
    (hj : o < j) (hrest : buf.drop j = rest ++ ['\x00'])
    (ih : ∀ {buf : Str}, buf.drop j = rest ++ ['\x00'] →
      Leaves (canonicalizeLoop fuel buf j (o + 1)) buf (o + 1) (canonicalizeString rest)) :
    Leaves (store buf o d >>= fun buf => canonicalizeLoop fuel buf j (o + 1)) buf o
      (d :: canonicalizeString rest) := by
  obtain ⟨tail, hrun⟩ := ih ((drop_set_le hj).trans hrest)
  refine ⟨tail, ?_⟩
  rw [store_ok ho, Res.ok_bind, hrun, take_set_succ ho]
  simp

/-- Does an escape follow? -/
def Escapes (rest : Str) : Prop :=
  ∃ first second t, rest = first :: second :: t ∧ isXdigit first = true ∧ isXdigit second = true

/-- The test behind a `%` reads no further than the NUL. -/
theorem escape_test {buf rest : Str} {i : Nat} (hrest : buf.drop i = rest ++ ['\x00'])
    (hnul : '\x00' ∉ rest) : ∃ first second, load buf i = .ok first ∧
      (if first ≠ '\x00' then load buf (i + 1) else pure '\x00') = .ok second ∧
      ((first ≠ '\x00' ∧ second ≠ '\x00' ∧ isXdigit first ∧ isXdigit second) ↔ Escapes rest) ∧
      (Escapes rest → ∃ t, rest = first :: second :: t) := by
  have hnext : buf.drop (i + 1) = (rest ++ ['\x00']).drop 1 := by rw [← List.drop_drop, hrest]
  match rest, hrest, hnul, hnext with
  | [], hrest, _, _ =>
    have hno : ¬ Escapes [] := nofun
    exact ⟨'\x00', '\x00', load_drop hrest, rfl, iff_of_false (by simp) hno, fun h => absurd h hno⟩
  | [first], hrest, hnul, hnext =>
    have hno : ¬ Escapes [first] := nofun
    have hfirst : first ≠ '\x00' := by simpa [eq_comm] using hnul
    exact ⟨first, '\x00', load_drop hrest, by rw [if_pos hfirst, load_drop hnext],
      iff_of_false (by simp) hno, fun h => absurd h hno⟩
  | first :: second :: t, hrest, hnul, hnext =>
    simp only [List.mem_cons, not_or] at hnul
    refine ⟨first, second, load_drop hrest, by rw [if_pos (Ne.symm hnul.1), load_drop hnext], ?_,
      fun _ => ⟨t, rfl⟩⟩
    constructor
    · intro ⟨_, _, hf, hs⟩
      exact ⟨first, second, t, rfl, hf, hs⟩
    · rintro ⟨_, _, _, heq, hf, hs⟩
      cases heq
      exact ⟨Ne.symm hnul.1, Ne.symm hnul.2.1, hf, hs⟩

/-- The loop ends, inside its buffer, with the text of `canonicalizeString`. -/
theorem canonicalizeLoop_leaves : ∀ (fuel : Nat) {rest buf : Str} {i o : Nat}, rest.length < fuel →
    buf.drop i = rest ++ ['\x00'] → '\x00' ∉ rest → o ≤ i →
    Leaves (canonicalizeLoop fuel buf i o) buf o (canonicalizeString rest)
  | 0, _, _, _, _, hfuel, _, _, _ => absurd hfuel (Nat.not_lt_zero _)
  | fuel + 1, [], buf, i, o, _, hrest, _, ho => by
    have hlen := congrArg List.length hrest
    rw [List.length_drop, List.nil_append, List.length_singleton] at hlen
    have hlt : o < buf.length := by omega
    refine ⟨buf.drop (o + 1), ?_⟩
    rw [canonicalizeLoop, load_drop hrest, Res.ok_bind, if_pos rfl, store_ok hlt,
      List.set_eq_take_append_cons_drop, if_pos hlt, canonicalizeString, List.append_nil]
  | fuel + 1, c :: rest, buf, i, o, hfuel, hrest, hnul, ho => by
    rw [List.mem_cons, not_or] at hnul
    rw [List.length_cons] at hfuel
    have hlen := congrArg List.length hrest
    rw [List.length_drop, List.length_append, List.length_cons, List.length_singleton] at hlen
    have hlt : o < buf.length := by omega
    have hnext : buf.drop (i + 1) = rest ++ ['\x00'] := by
      rw [← List.drop_drop, hrest]
      rfl
    have hkeep : Leaves (store buf o c >>= fun buf => canonicalizeLoop fuel buf (i + 1) (o + 1))
        buf o (c :: canonicalizeString rest) :=
      Leaves.write hlt (by omega) hnext fun h =>
        canonicalizeLoop_leaves fuel (by omega) h hnul.2 (by omega)
    rw [canonicalizeLoop, load_drop hrest, Res.ok_bind, if_neg (Ne.symm hnul.1)]
    by_cases hc : c = '%'
    · obtain ⟨first, second, hfirst, hsecond, htest, hform⟩ := escape_test hnext hnul.2
      rw [if_neg (not_not_intro hc), hfirst, Res.ok_bind, hsecond, Res.ok_bind]
      by_cases hescape : Escapes rest
      · obtain ⟨t, rfl⟩ := hform hescape
        obtain ⟨-, -, hdigits⟩ := htest.mpr hescape
        rw [if_pos (htest.mpr hescape), hc, canonicalizeString_escape hdigits]
        have hbehind : buf.drop (i + 3) = t ++ ['\x00'] := by
          rw [← List.drop_drop, hrest]
          rfl
        simp only [List.length_cons] at hfuel
        simp only [List.mem_cons, not_or] at hnul
        exact Leaves.write hlt (by omega) hbehind fun h =>
          canonicalizeLoop_leaves fuel (by omega) h hnul.2.2.2 (by omega)
      · rw [if_neg (mt htest.mp hescape), canonicalizeString_keep fun first second t _ heq hdigits =>
          hescape ⟨first, second, t, heq, hdigits.1, hdigits.2⟩]
        exact hkeep
    · rw [if_pos hc, canonicalizeString_keep fun _ _ _ h => absurd h hc]
      exact hkeep

/-- The loop on the list is the loop in the buffer. -/
theorem canonicalize_ok {t : Str} (h : '\x00' ∉ t) :
    canonicalize t = .ok (cStr (canonicalizeString t)) := by
  obtain ⟨tail, hrun⟩ := canonicalizeLoop_leaves (t ++ ['\x00']).length
    (by rw [List.length_append, List.length_singleton]; omega) List.drop_zero h (Nat.le_refl 0)
  rw [canonicalize]
  simp only [hrun, Res.ok_bind, List.take_zero, List.nil_append, cStr_append]
  rfl

/-! ## Encodings -/

/-- A digit of an escape, of either case. -/
def hexDigit (upper : Bool) (n : Nat) : Char :=
  (if upper then "0123456789ABCDEF" else "0123456789abcdef").toList.getD n '0'

/-- The text is an encoding of the bytes: each as it is or as `%XX`, and the
percent sign always as `%XX`. -/
inductive Encodes : Str → Str → Prop where
  | nil : Encodes [] []
  | plain {c : Char} {s t : Str} (hc : c ≠ '%') (h : Encodes s t) : Encodes (c :: s) (c :: t)
  | escaped {c : Char} {s t : Str} (upper upper' : Bool) (h : Encodes s t) :
    Encodes (c :: s)
      ('%' :: hexDigit upper (c.toNat / 16) :: hexDigit upper' (c.toNat % 16) :: t)

/-- Every escape ends in the digit 0. -/
def roundEscapes : Str → Bool
  | '%' :: _ :: second :: t => second = '0' && roundEscapes t
  | _ :: t => roundEscapes t
  | [] => true

theorem hexDigit_read : ∀ upper, ∀ n < 16,
    isXdigit (hexDigit upper n) = true ∧ hex2num (hexDigit upper n) = n ∧
      (hexDigit upper n = '0' ↔ n = 0) := by
  decide

/-- The shifted sum is the byte only for a second digit of 0. -/
theorem shift_eq_iff : ∀ m < 16, ∀ n < 16, (m <<< (4 + n)) % 256 = m * 16 + n ↔ n = 0 := by
  decide

theorem canonicalizeString_plain {c : Char} {t : Str} (hc : c ≠ '%') :
    canonicalizeString (c :: t) = c :: canonicalizeString t :=
  canonicalizeString_keep fun _ _ _ h => absurd h hc

theorem canonicalizeString_text {s : Str} (h : '%' ∉ s) : canonicalizeString s = s := by
  induction s with
  | nil => rfl
  | cons c s ih =>
    rw [List.mem_cons, not_or] at h
    rw [canonicalizeString_plain (Ne.symm h.1), ih h.2]

theorem roundEscapes_plain {c : Char} {t : Str} (hc : c ≠ '%') :
    roundEscapes (c :: t) = roundEscapes t := by
  rw [roundEscapes.eq_def]
  split
  · next heq => exact absurd (List.cons.inj heq).1 hc
  · next heq => rw [(List.cons.inj heq).2]
  · next heq => cases heq

theorem Encodes.noNul {s t : Str} (h : Encodes s t) (hs : Bytes s) (hnul : '\x00' ∉ s) :
    '\x00' ∉ t := by
  induction h with
  | nil => exact hnul
  | plain _ _ ih =>
    rw [List.mem_cons, not_or] at hnul ⊢
    exact ⟨hnul.1, ih (fun d hd => hs d (List.mem_cons_of_mem _ hd)) hnul.2⟩
  | @escaped c s t upper upper' _ ih =>
    have hc : c.toNat < 256 := hs c (List.mem_cons_self ..)
    have hzero : ¬ isXdigit '\x00' = true := by decide
    simp only [List.mem_cons, not_or] at hnul ⊢
    refine ⟨by decide, fun h => ?_, fun h => ?_,
      ih (fun d hd => hs d (List.mem_cons_of_mem _ hd)) hnul.2⟩
    · exact hzero (h ▸ (hexDigit_read upper _ (by omega)).1)
    · exact hzero (h ▸ (hexDigit_read upper' _ (by omega)).1)

/-- Every byte is decoded to one, and to itself exactly if its escape ends in 0. -/
theorem Encodes.decoded {s t : Str} (h : Encodes s t) (hs : Bytes s) :
    (canonicalizeString t).length = s.length ∧ (canonicalizeString t = s ↔ roundEscapes t = true) := by
  induction h with
  | nil => exact ⟨rfl, iff_of_true rfl rfl⟩
  | plain hc _ ih =>
    obtain ⟨hlen, hiff⟩ := ih fun d hd => hs d (List.mem_cons_of_mem _ hd)
    rw [canonicalizeString_plain hc, roundEscapes_plain hc, List.cons.injEq, and_iff_right rfl]
    exact ⟨by rw [List.length_cons, List.length_cons, hlen], hiff⟩
  | @escaped c s t upper upper' _ ih =>
    obtain ⟨hlen, hiff⟩ := ih fun d hd => hs d (List.mem_cons_of_mem _ hd)
    have hc : c.toNat < 256 := hs c (List.mem_cons_self ..)
    obtain ⟨hfirst, hhigh, -⟩ := hexDigit_read upper (c.toNat / 16) (by omega)
    obtain ⟨hsecond, hlow, hzero⟩ := hexDigit_read upper' (c.toNat % 16) (by omega)
    have hshift := shift_eq_iff (c.toNat / 16) (by omega) (c.toNat % 16) (by omega)
    rw [canonicalizeString_escape ⟨hfirst, hsecond⟩, hhigh, hlow, roundEscapes, List.cons.injEq,
      hiff, Bool.and_eq_true, decide_eq_true_eq, hzero, ← hshift]
    refine ⟨by rw [List.length_cons, List.length_cons, hlen], and_congr_left fun _ => ?_⟩
    rw [← Char.toNat_inj, toNat_ofNat_byte (Nat.mod_lt _ (by decide))]
    omega

/-- **An encoding is decoded to its bytes exactly if every escape ends in 0;
text without escapes is kept, and no text makes the loop leave its buffer.** -/
theorem canonicalize_exact (s t : Str) :
    (Bytes s → '\x00' ∉ s → Encodes s t → (canonicalize t = .ok s ↔ roundEscapes t = true)) ∧
    ('\x00' ∉ s → '%' ∉ s → canonicalize s = .ok s) ∧
    ('\x00' ∉ t → ∃ u, canonicalize t = .ok u) := by
  refine ⟨fun hs hnul h => ?_, fun hnul hplain => ?_, fun hnul => ?_⟩
  · obtain ⟨hlen, hiff⟩ := h.decoded hs
    rw [canonicalize_ok (h.noNul hs hnul), ← hiff]
    constructor
    · intro heq
      have htext : cStr (canonicalizeString t) = s := by simpa using heq
      have hwhole : cStr (canonicalizeString t) = canonicalizeString t :=
        (List.takeWhile_prefix _).eq_of_length
          (show (cStr (canonicalizeString t)).length = _ by rw [htext, hlen])
      rw [← hwhole, htext]
    · intro heq
      rw [heq, cStr_of_noNul hnul]
  · rw [canonicalize_ok hnul, canonicalizeString_text hplain, cStr_of_noNul hnul]
  · exact ⟨_, canonicalize_ok hnul⟩

theorem canonicalize_exact_blank : canonicalize "a%20b".toList = .ok "a b".toList :=
  ((canonicalize_exact "a b".toList "a%20b".toList).1 (by decide) (by decide)
    (.plain (by decide) (.escaped false false (.plain (by decide) .nil)))).mpr rfl

/-- The percent sign ends the text, and an exclamation mark becomes an `@`. -/
theorem canonicalize_fails :
    (Encodes "%a".toList "%25a".toList ∧ canonicalize "%25a".toList = .ok []) ∧
    (Encodes "!a".toList "%21a".toList ∧ canonicalize "%21a".toList = .ok "@a".toList) :=
  ⟨⟨.escaped false false (.plain (by decide) .nil), rfl⟩,
    .escaped false false (.plain (by decide) .nil), rfl⟩

end Voms.L5
