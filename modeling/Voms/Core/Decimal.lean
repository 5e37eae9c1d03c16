import Voms.Core.Str

/-!
# Decimal numbers

What is printed with `%d` and read back by `atoi`: `atoi_decimal` for every
`int`, and `atoi_decimal_suffix`, by which a positive number that has lost
leading digits is another number.
-/
namespace Voms.Core

/-- `%d`. -/
def decimal (n : Int) : Str := (toString n).toList

theorem decimal_ofNat (n : Nat) : decimal (n : Int) = Nat.toDigits 10 n := by
  unfold decimal
  rw [show toString (n : Int) = n.repr from rfl, Nat.toList_repr]

theorem decimal_negSucc (n : Nat) : decimal (Int.negSucc n) = '-' :: Nat.toDigits 10 (n + 1) := by
  unfold decimal
  rw [show toString (Int.negSucc n) = "-" ++ (n + 1).repr from rfl, String.toList_append,
    Nat.toList_repr]
  rfl

theorem isDigit_of_mem_decimal {n : Nat} {c : Char} (h : c ∈ decimal (n : Int)) :
    c.isDigit = true := by
  rw [decimal_ofNat] at h
  exact Nat.isDigit_of_mem_toDigits (by decide) (by decide) h

/-! ## `atoi` on digits -/

theorem isSpace_of_isDigit {c : Char} (h : c.isDigit = true) : isSpace c = false := by
  by_contra hs
  simp only [isSpace, Bool.not_eq_false, Bool.or_eq_true, decide_eq_true_eq] at hs
  rcases hs with ((((rfl | rfl) | rfl) | rfl) | rfl) | rfl <;> exact absurd h (by decide)

theorem dropWhile_isSpace {t : Str} (h : ∀ c ∈ t, c.isDigit = true) :
    t.dropWhile isSpace = t := by
  cases t with
  | nil => rfl
  | cons c t => simp [isSpace_of_isDigit (h c (List.mem_cons_self ..))]

theorem takeWhile_isDigit {t : Str} (h : ∀ c ∈ t, c.isDigit = true) :
    t.takeWhile Char.isDigit = t := List.takeWhile_eq_self_iff.mpr h

/-- The 32-bit value of an `int` is itself. -/
theorem toInt_ofInt32 {v : Int} (hlo : -2 ^ 31 ≤ v) (hhi : v < 2 ^ 31) :
    (BitVec.ofInt 32 v).toInt = v := by
  rw [BitVec.toInt_ofInt]
  exact Int.bmod_eq_of_le (by omega) (by omega)

theorem atoi_lt (s : Str) : atoi s < 2 ^ 31 := by
  have hlt : ∀ v : BitVec 32, v.toInt < 2 ^ 31 := fun v => BitVec.toInt_lt
  exact hlt _

theorem atoi_digits {t : Str} (h : ∀ c ∈ t, c.isDigit = true)
    (hlt : Nat.ofDigitChars 10 t 0 < 2 ^ 31) : atoi t = Nat.ofDigitChars 10 t 0 := by
  have hsign : ∀ c s, t = c :: s → c ≠ '-' ∧ c ≠ '+' := by
    intro c s hs
    have hc := h c (by simp [hs])
    exact ⟨by rintro rfl; exact absurd hc (by decide), by rintro rfl; exact absurd hc (by decide)⟩
  unfold atoi
  rw [dropWhile_isSpace h]
  dsimp only
  split
  · next s => exact absurd rfl (hsign _ _ rfl).1
  · next s => exact absurd rfl (hsign _ _ rfl).2
  · simp only [Bool.false_eq_true, if_false, takeWhile_isDigit h]
    rw [← Nat.ofDigitChars_eq_foldl, min_eq_left (by omega)]
    exact toInt_ofInt32 (by omega) (by omega)

theorem atoi_minus_digits {t : Str} (h : ∀ c ∈ t, c.isDigit = true)
    (hlt : Nat.ofDigitChars 10 t 0 ≤ 2 ^ 31) :
    atoi ('-' :: t) = -(Nat.ofDigitChars 10 t 0 : Int) := by
  unfold atoi
  rw [List.dropWhile_cons_of_neg (by decide)]
  simp only [if_true, takeWhile_isDigit h]
  rw [← Nat.ofDigitChars_eq_foldl, max_eq_left (by omega)]
  exact toInt_ofInt32 (by omega) (by omega)

/-- `atoi` reads what `%d` prints. -/
theorem atoi_decimal {n : Int} (hlo : -2 ^ 31 ≤ n) (hhi : n < 2 ^ 31) : atoi (decimal n) = n := by
  cases n with
  | ofNat n =>
    have hval : Nat.ofDigitChars 10 (decimal (n : Int)) 0 = n := by
      rw [decimal_ofNat, Nat.ofDigitChars_ten_toDigits]
    have hread := @atoi_digits (decimal (n : Int)) (fun c hc => isDigit_of_mem_decimal hc)
      (by rw [hval]; simp only [Int.ofNat_eq_natCast] at hhi; omega)
    rw [hval] at hread
    exact hread
  | negSucc n =>
    rw [decimal_negSucc, atoi_minus_digits
      (fun c hc => Nat.isDigit_of_mem_toDigits (by decide) (by decide) hc)
      (by rw [Nat.ofDigitChars_ten_toDigits]; omega), Nat.ofDigitChars_ten_toDigits]
    rfl

/-! ## Leading digits -/

/-- No positive number is printed with a leading zero. -/
theorem head_toDigits {n : Nat} (hn : 0 < n) :
    ∃ c t, Nat.toDigits 10 n = c :: t ∧ c.isDigit = true ∧ 0 < c.toNat - '0'.toNat := by
  induction n using Nat.strongRecOn with
  | ind n ih =>
    by_cases hlt : n < 10
    · refine ⟨n.digitChar, [], Nat.toDigits_of_lt_base hlt, ?_, ?_⟩
      · exact Nat.isDigit_of_mem_toDigits (by decide) (by decide)
          (show n.digitChar ∈ Nat.toDigits 10 n by simp [Nat.toDigits_of_lt_base hlt])
      · have := Nat.toNat_digitChar_sub_48_of_lt_ten hlt
        rw [show '0'.toNat = 48 from rfl]
        omega
    · obtain ⟨c, t, ht, hc⟩ := ih (n / 10) (by omega) (by omega)
      exact ⟨c, t ++ [(n % 10).digitChar],
        by rw [Nat.toDigits_of_base_le (by decide) (by omega), ht]; rfl, hc⟩

theorem ofDigitChars_pos {c : Char} {t : Str} (h : 0 < c.toNat - '0'.toNat) :
    0 < Nat.ofDigitChars 10 (c :: t) 0 := by
  rw [Nat.ofDigitChars_cons, Nat.ofDigitChars_eq_ofDigitChars_zero]
  have := Nat.mul_pos (Nat.pow_pos (by decide) : 0 < 10 ^ t.length)
    (show 0 < 10 * 0 + (c.toNat - '0'.toNat) by omega)
  omega

/-- Without its leading digits a positive number is another one. -/
theorem atoi_decimal_suffix {n : Int} (hn : 0 < n) (hhi : n < 2 ^ 31) {front t : Str}
    (h : front ++ t = decimal n) (hfront : front ≠ []) : atoi t ≠ n := by
  lift n to Nat using hn.le
  have hdigit : ∀ c ∈ t, c.isDigit = true := fun c hc =>
    @isDigit_of_mem_decimal n c (h ▸ List.mem_append_right _ hc)
  rw [decimal_ofNat] at h
  obtain ⟨c, rest, hhead, -, hpos⟩ := head_toDigits (by omega : 0 < n)
  have hlead : 0 < Nat.ofDigitChars 10 front 0 := by
    cases front with
    | nil => exact absurd rfl hfront
    | cons d front =>
      rw [hhead, List.cons_append] at h
      rw [(List.cons.inj h).1]
      exact ofDigitChars_pos hpos
  have hval : Nat.ofDigitChars 10 t 0 < n := by
    have hsum : Nat.ofDigitChars 10 (front ++ t) 0 = n := by
      rw [h, Nat.ofDigitChars_ten_toDigits]
    rw [Nat.ofDigitChars_append, Nat.ofDigitChars_eq_ofDigitChars_zero] at hsum
    have := Nat.mul_pos (Nat.pow_pos (by decide) : 0 < 10 ^ t.length) hlead
    omega
  rw [atoi_digits hdigit (by omega)]
  omega

end Voms.Core
