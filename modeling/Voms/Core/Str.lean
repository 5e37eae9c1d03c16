import Mathlib.Algebra.Order.Ring.Int
import Mathlib.Data.List.TakeWhile

/-!
# Byte strings of C and C++

A `char` is a `Char` whose code is its byte. `std::string` is a list of
them; a `char *` is what is left of one up to its first NUL (`cStr`).
`strstr` is both the C function and `std::string::find`: the offset of the
first occurrence. Up to `commonLength` two texts are the same for `strncmp`.
-/
namespace Voms.Core

abbrev Str := List Char

/-- A `std::string` read through `c_str()`. -/
def cStr (s : Str) : Str := s.takeWhile (· ≠ '\x00')

theorem cStr_of_noNul {s : Str} (h : '\x00' ∉ s) : cStr s = s := by
  unfold cStr
  rw [List.takeWhile_eq_self_iff]
  intro c hc
  simpa using fun e : c = '\x00' => h (e ▸ hc)

theorem noNul_cStr (s : Str) : '\x00' ∉ cStr s := by
  intro h
  simpa using List.mem_takeWhile_imp h

theorem cStr_eq_self {s : Str} : cStr s = s ↔ '\x00' ∉ s :=
  ⟨fun h => h ▸ noNul_cStr s, cStr_of_noNul⟩

theorem cStr_cStr (s : Str) : cStr (cStr s) = cStr s := cStr_of_noNul (noNul_cStr s)

theorem cStr_append (s t : Str) : cStr (s ++ '\x00' :: t) = cStr s := by
  unfold cStr
  induction s with
  | nil => simp
  | cons c s ih =>
    rw [List.cons_append, List.takeWhile_cons, List.takeWhile_cons, ih]

/-- A byte is a character. -/
theorem toNat_ofNat_byte {n : Nat} (h : n < 256) : (Char.ofNat n).toNat = n := by
  rw [Char.ofNat, dif_pos (Or.inl (by omega))]
  rfl

theorem length_cStr_le (s : Str) : (cStr s).length ≤ s.length :=
  (List.takeWhile_prefix _).length_le

/-- `isspace` in the C locale. -/
def isSpace (c : Char) : Bool :=
  c = ' ' || c = '\t' || c = '\n' || c = '\x0b' || c = '\x0c' || c = '\r'

/-- `isxdigit` in the C locale. -/
def isXdigit (c : Char) : Bool :=
  c.isDigit || ('a' ≤ c && c ≤ 'f') || ('A' ≤ c && c ≤ 'F')

/-- mirrors src/common/data.cc:265-277 -/
def hex2num (c : Char) : Nat :=
  if c.isDigit then c.toNat - '0'.toNat
  else if 'a' ≤ c.toLower ∧ c.toLower ≤ 'f' then c.toLower.toNat - 'a'.toNat + 10
  else 0

/-! ## Searching -/

/-- Offset of the first occurrence of `p` in `s`. -/
def strstr (p : Str) : Str → Option Nat
  | [] => if p = [] then some 0 else none
  | c :: s => if p.isPrefixOf (c :: s) then some 0 else (strstr p s).map (· + 1)

theorem strstr_of_start {p s : Str} (h : p <+: s) : strstr p s = some 0 := by
  cases s with
  | nil => simp [strstr, List.prefix_nil.mp h]
  | cons c s => simp [strstr, List.isPrefixOf_iff_prefix.mpr h]

theorem strstr_cons_of_not {p s : Str} {c : Char} (h : ¬ p <+: c :: s) :
    strstr p (c :: s) = (strstr p s).map (· + 1) := by
  have h' : ¬ p.isPrefixOf (c :: s) = true := fun e => h (List.isPrefixOf_iff_prefix.mp e)
  simp [strstr, h']

/-- At the offset found the text is the pattern, and nowhere before it. -/
theorem strstr_eq_some {p s : Str} {n : Nat} :
    strstr p s = some n ↔ n ≤ s.length ∧ p <+: s.drop n ∧ ∀ i < n, ¬ p <+: s.drop i := by
  induction s generalizing n with
  | nil =>
    by_cases hp : p = []
    · subst hp
      simp only [strstr, if_true, Option.some.injEq, List.length_nil, Nat.le_zero,
        List.nil_prefix, not_true, true_and]
      exact ⟨fun h => ⟨h.symm, fun i hi => by omega⟩, fun h => h.1.symm⟩
    · simp [strstr, hp]
  | cons c s ih =>
    by_cases hpre : p <+: c :: s
    · rw [strstr_of_start hpre]
      constructor
      · rintro ⟨⟩; exact ⟨by simp, by simpa using hpre, by simp⟩
      · rintro ⟨-, -, hmin⟩
        cases n with
        | zero => rfl
        | succ n => exact absurd (by simpa using hpre) (hmin 0 (Nat.succ_pos n))
    · rw [strstr_cons_of_not hpre]
      cases n with
      | zero =>
        simp only [Option.map_eq_some_iff, Nat.add_eq_zero_iff, Nat.succ_ne_self, and_false,
          exists_false, false_iff, not_and, List.drop_zero]
        exact fun _ h => absurd h hpre
      | succ n =>
        simp only [Option.map_eq_some_iff, Nat.add_right_cancel_iff, exists_eq_right, ih,
          List.length_cons, Nat.add_le_add_iff_right, List.drop_succ_cons]
        constructor
        · rintro ⟨h1, h2, h3⟩
          refine ⟨h1, h2, fun i hi => ?_⟩
          cases i with
          | zero => simpa using hpre
          | succ i => simpa using h3 i (by omega)
        · rintro ⟨h1, h2, h3⟩
          exact ⟨h1, h2, fun i hi => by simpa using h3 (i + 1) (by omega)⟩

theorem strstr_eq_none {p s : Str} : strstr p s = none ↔ ¬ p <:+: s := by
  induction s with
  | nil => simp [strstr]
  | cons c s ih =>
    rw [List.infix_cons_iff, not_or]
    by_cases hpre : p <+: c :: s
    · simp [strstr_of_start hpre, hpre]
    · simp [strstr_cons_of_not hpre, hpre, ih]

theorem strstr_isSome {p s : Str} : (strstr p s).isSome = true ↔ p <:+: s := by
  rw [Option.isSome_iff_ne_none, ne_eq, strstr_eq_none, not_not]

/-- The text around the first occurrence. -/
theorem strstr_split {p s : Str} {n : Nat} (h : strstr p s = some n) :
    s = s.take n ++ p ++ s.drop (n + p.length) := by
  obtain ⟨-, ⟨t, ht⟩, -⟩ := strstr_eq_some.mp h
  have hdrop : s.drop (n + p.length) = t := by
    rw [← List.drop_drop, ← ht, List.drop_left]
  rw [hdrop, List.append_assoc, ht, List.take_append_drop]

/-- An occurrence in the first part is found there. -/
theorem strstr_append_left {p a b : Str} {n : Nat} (h : strstr p a = some n) :
    strstr p (a ++ b) = some n := by
  obtain ⟨hn, hp, hmin⟩ := strstr_eq_some.mp h
  refine strstr_eq_some.mpr ⟨by simp; omega, ?_, fun i hi hc => ?_⟩
  · rw [List.drop_append_of_le_length hn]
    exact hp.trans (List.prefix_append _ _)
  · rw [List.drop_append_of_le_length (by omega)] at hc
    have hlen : p.length ≤ (a.drop i).length := by
      have := hp.length_le
      simp only [List.length_drop] at this ⊢
      omega
    exact hmin i hi (List.prefix_of_prefix_length_le hc (List.prefix_append _ _) hlen)

/-- What is found behind the first part is not in it. -/
theorem not_infix_of_strstr {p a b : Str} (hp : p ≠ []) (h : strstr p (a ++ b) = some a.length) :
    ¬ p <:+: a := by
  intro hin
  cases hfind : strstr p a with
  | none => exact strstr_eq_none.mp hfind hin
  | some n =>
    obtain ⟨-, hprefix, -⟩ := strstr_eq_some.mp hfind
    rw [strstr_append_left hfind, Option.some.injEq] at h
    rw [h, List.drop_length] at hprefix
    exact hp (List.prefix_nil.mp hprefix)

/-- A separator that overlaps itself nowhere is found where it was put, if
the first part does not contain it. -/
theorem strstr_append_self {p a : Str} (b : Str)
    (hp : ∀ k, 0 < k → k < p.length → ¬ p.drop k <+: p) (ha : strstr p a = none) :
    strstr p (a ++ p ++ b) = some a.length := by
  rw [strstr_eq_none] at ha
  refine strstr_eq_some.mpr ⟨by simp, ?_, fun i hi hc => ?_⟩
  · rw [List.append_assoc, List.drop_left]
    exact List.prefix_append _ _
  · rw [List.append_assoc, List.drop_append_of_le_length (by omega)] at hc
    by_cases hfit : p.length ≤ (a.drop i).length
    · -- the occurrence lies inside `a`
      have h1 := List.prefix_of_prefix_length_le hc (List.prefix_append _ _) hfit
      exact ha (h1.isInfix.trans (List.drop_suffix _ _).isInfix)
    · -- it straddles the border, so a tail of `p` starts `p`
      obtain ⟨t, ht⟩ := hc
      have hk := congrArg (List.drop (a.drop i).length) ht
      rw [List.drop_left, List.drop_append_of_le_length (by omega)] at hk
      have h2 : p.drop (a.drop i).length <+: p ++ b := ⟨t, hk⟩
      refine hp (a.drop i).length (by simp; omega) (by omega) ?_
      exact List.prefix_of_prefix_length_le h2 (List.prefix_append _ _) (by simp)

/-- A pattern without the separator lies on one side of it. -/
theorem infix_append_cons {α : Type} {p a b : List α} {d : α} (hd : d ∉ p)
    (h : p <:+: a ++ d :: b) : p <:+: a ∨ p <:+: b := by
  obtain ⟨u, v, h⟩ := h
  rcases List.append_eq_append_iff.mp h with ⟨f, ha, -⟩ | ⟨f, hf, hb⟩
  · exact Or.inl ⟨u, f, ha.symm⟩
  · cases f with
    | nil => exact Or.inl ⟨u, [], by simpa using hf⟩
    | cons c f =>
      obtain ⟨rfl, rfl⟩ : d = c ∧ b = f ++ v := by simpa using hb
      rcases List.append_eq_append_iff.mp hf with ⟨e, -, hp⟩ | ⟨e, hu, he⟩
      · exact absurd (by rw [hp]; simp) hd
      · cases e with
        | nil => exact absurd (by rw [← he.trans (List.nil_append p)]; simp) hd
        | cons c' e =>
          obtain ⟨-, rfl⟩ : d = c' ∧ f = e ++ p := by simpa using he
          exact Or.inr ⟨e, v, rfl⟩

/-- A marker whose first character comes only once lies on one side of that
character, or begins there. -/
theorem marker_append {d : Char} {t a b : Str} (ht : d ∉ t) (h : d :: t <:+: a ++ d :: b) :
    d :: t <:+: a ∨ d :: t <+: d :: b ∨ d :: t <:+: b := by
  obtain ⟨u, v, h⟩ := h
  rw [List.append_assoc] at h
  rcases List.append_eq_append_iff.mp h with ⟨f, ha, hf⟩ | ⟨f, hu, hf⟩
  · cases f with
    | nil => exact Or.inr (Or.inl ⟨v, hf⟩)
    | cons c f =>
      obtain ⟨rfl, hrest⟩ : d = c ∧ t ++ v = f ++ d :: b := by simpa using hf
      rcases List.append_eq_append_iff.mp hrest with ⟨e, hfe, -⟩ | ⟨e, hte, he⟩
      · exact Or.inl ⟨u, e, by rw [ha, hfe]; simp⟩
      · cases e with
        | nil => exact Or.inl ⟨u, [], by rw [ha, hte]; simp⟩
        | cons c e =>
          obtain ⟨rfl, -⟩ : d = c ∧ b = e ++ v := by simpa using he
          exact absurd (by rw [hte]; simp) ht
  · cases f with
    | nil => exact Or.inr (Or.inl ⟨v, hf.symm⟩)
    | cons c f =>
      obtain ⟨-, hb⟩ : d = c ∧ b = f ++ (d :: t ++ v) := by simpa using hf
      exact Or.inr (Or.inr ⟨f, v, by rw [hb]; simp⟩)

/-- It is found where it was put. -/
theorem strstr_marker {d : Char} {t a : Str} (b : Str) (ht : d ∉ t)
    (ha : strstr (d :: t) a = none) : strstr (d :: t) (a ++ d :: t ++ b) = some a.length := by
  refine strstr_append_self b (fun k hpos hlt hprefix => ?_) ha
  obtain ⟨k, rfl⟩ : ∃ k', k = k' + 1 := ⟨k - 1, by omega⟩
  cases hdrop : t.drop k with
  | nil =>
    have := List.drop_eq_nil_iff.mp hdrop
    rw [List.length_cons] at hlt
    omega
  | cons c rest =>
    rw [List.drop_succ_cons, hdrop] at hprefix
    have hmem : c ∈ t := List.mem_of_mem_drop (by rw [hdrop]; exact List.mem_cons_self ..)
    rw [(List.cons_prefix_cons.mp hprefix).1] at hmem
    exact ht hmem

/-- It ends before another one begins. -/
theorem marker_apart {d : Char} {t t' s : Str} {i j : Nat} (ht : d ∉ t)
    (hi : d :: t <+: s.drop i) (hj : d :: t' <+: s.drop j) (hij : i < j) : i + t.length < j := by
  by_contra hlt
  obtain ⟨w, hw⟩ := hi
  obtain ⟨w', hw'⟩ := hj
  have hd : s[j]? = some d := by
    rw [← List.head?_drop, ← hw']
    rfl
  have hin : s[j]? = t[j - i - 1]? := by
    rw [show j = i + (j - i) by omega, ← List.getElem?_drop, ← hw,
      show j - i = (j - i - 1) + 1 by omega, List.cons_append, List.getElem?_cons_succ,
      List.getElem?_append_left (by omega)]
    congr 1
    omega
  exact ht (List.mem_of_getElem? (hin.symm.trans hd))

/-! ## Shared beginnings -/

/-- With how many characters in common two texts begin. -/
def commonLength : Str → Str → Nat
  | c :: s, d :: t => if c = d then commonLength s t + 1 else 0
  | _, _ => 0

/-- `strncmp(s, t, n) == 0`. -/
theorem take_eq_take_iff : ∀ {s t : Str} {n : Nat},
    s.take n = t.take n ↔ n ≤ commonLength s t ∨ s = t
  | [], [], n => by simp
  | [], d :: t, n => by cases n <;> simp [commonLength]
  | c :: s, [], n => by cases n <;> simp [commonLength]
  | c :: s, d :: t, 0 => by simp
  | c :: s, d :: t, n + 1 => by
    by_cases h : c = d
    · simp [commonLength, h, take_eq_take_iff]
    · simp [commonLength, h]

theorem take_prefix_iff : ∀ {s t : Str} {n : Nat}, n ≤ s.length →
    (s.take n <+: t ↔ n ≤ commonLength s t)
  | s, t, 0, _ => by simp
  | c :: s, [], n + 1, _ => by simp [commonLength]
  | c :: s, d :: t, n + 1, h => by
    have hrest := take_prefix_iff (t := t) (Nat.le_of_succ_le_succ h)
    by_cases hcd : c = d
    · simp [commonLength, hcd, List.cons_prefix_cons, hrest]
    · simp [commonLength, hcd, List.cons_prefix_cons]

/-! ## Comma-separated lists -/

/-- The elements joined with `c` between them. -/
def join (c : Char) (l : List Str) : Str := [c].intercalate l

theorem mem_join {c d : Char} : ∀ {l : List Str}, d ∈ join c l → d = c ∨ ∃ s ∈ l, d ∈ s
  | [], h => by simp [join] at h
  | [s], h => Or.inr ⟨s, List.mem_singleton_self s, by simpa [join] using h⟩
  | s :: t :: l, h => by
    have hjoin : join c (s :: t :: l) = s ++ c :: join c (t :: l) := by
      simp [join, List.intercalate]
    rw [hjoin, List.mem_append, List.mem_cons] at h
    rcases h with h | h | h
    · exact Or.inr ⟨s, List.mem_cons_self .., h⟩
    · exact Or.inl h
    · rcases mem_join h with h | ⟨u, hu, h⟩
      · exact Or.inl h
      · exact Or.inr ⟨u, List.mem_cons_of_mem _ hu, h⟩

theorem join_concat {c : Char} {v : Str} : ∀ {l : List Str}, l ≠ [] →
    join c (l ++ [v]) = join c l ++ c :: v
  | [], h => absurd rfl h
  | [s], _ => by simp [join, List.intercalate]
  | s :: t :: l, _ => by
    have hrest := join_concat (c := c) (v := v) (List.cons_ne_nil t l)
    simpa [join, List.intercalate] using hrest

/-- The pieces do not contain the separator. -/
theorem notMem_of_mem_splitOn {c : Char} : ∀ {s p : Str}, p ∈ s.splitOn c → c ∉ p
  | [], p, h => by
    rw [List.splitOn_nil, List.mem_singleton] at h
    rw [h]
    exact List.not_mem_nil
  | d :: s, p, h => by
    rw [List.splitOn_cons_eq_if_modifyHead] at h
    split at h
    · rcases List.mem_cons.mp h with rfl | h
      · exact List.not_mem_nil
      · exact notMem_of_mem_splitOn h
    · next hd =>
      have hhead : ∀ q ∈ s.splitOn c, c ∉ q := fun q hq => notMem_of_mem_splitOn hq
      generalize s.splitOn c = l at h hhead
      cases l with
      | nil => cases h
      | cons q l =>
        rcases List.mem_cons.mp h with rfl | h
        · rw [List.mem_cons, not_or]
          exact ⟨fun e => hd (by rw [e]; exact beq_self_eq_true d), hhead q (List.mem_cons_self ..)⟩
        · exact hhead p (List.mem_cons_of_mem _ h)

/-! ## Numbers -/

/-- `atoi` where `long` has 64 bits: `strtol` saturates, and the result is
cut to 32. -/
def atoi (s : Str) : Int :=
  let s := s.dropWhile isSpace
  let (neg, s) :=
    match s with
    | '-' :: s => (true, s)
    | '+' :: s => (false, s)
    | s => (false, s)
  let n := (s.takeWhile Char.isDigit).foldl (fun n c => 10 * n + (c.toNat - '0'.toNat)) 0
  let v : Int := if neg then max (-n) (-2 ^ 63) else min n (2 ^ 63 - 1)
  (BitVec.ofInt 32 v).toInt

example : atoi " -12x".toList = -12 := by decide

/-- The text around the first `c`. -/
theorem idxOf_split {c : Char} : ∀ {s : Str} {n : Nat}, s.idxOf? c = some n →
    ∃ a b, s = a ++ c :: b ∧ c ∉ a ∧ a.length = n
  | [], _, h => by cases h
  | d :: s, n, h => by
    rw [List.idxOf?_cons] at h
    by_cases hd : d = c
    · subst hd
      rw [beq_self_eq_true, if_pos rfl] at h
      exact ⟨[], s, rfl, List.not_mem_nil, Option.some.inj h⟩
    · rw [if_neg (by simpa using hd)] at h
      obtain ⟨m, hm, rfl⟩ := Option.map_eq_some_iff.mp h
      obtain ⟨a, b, rfl, ha, rfl⟩ := idxOf_split hm
      refine ⟨d :: a, b, rfl, ?_, rfl⟩
      rw [List.mem_cons, not_or]
      exact ⟨Ne.symm hd, ha⟩

theorem take_idxOf {c : Char} {s : Str} {pos : Nat} (h : s.idxOf? c = some pos) :
    s.take pos = s.takeWhile (· ≠ c) ∧ s.drop (pos + 1) = (s.dropWhile (· ≠ c)).drop 1 := by
  obtain ⟨a, b, rfl, ha, rfl⟩ := idxOf_split h
  have hne : ∀ d ∈ a, decide (d ≠ c) = true := fun d hd =>
    decide_eq_true fun heq => ha (heq ▸ hd)
  have htake : List.takeWhile (fun d => decide (d ≠ c)) (c :: b) = [] := by simp
  have hdrop : List.dropWhile (fun d => decide (d ≠ c)) (c :: b) = c :: b := by simp
  rw [List.takeWhile_append_of_pos hne, List.dropWhile_append_of_pos hne, htake, hdrop,
    List.append_nil, List.take_left, ← List.drop_drop, List.drop_left]
  exact ⟨rfl, rfl⟩

theorem idxOf_fresh {q : Char} (rest : Str) : ∀ {s : Str}, q ∉ s →
    (s ++ q :: rest).idxOf? q = some s.length
  | [], _ => by simp [List.idxOf?_cons]
  | c :: s, h => by
    rw [List.mem_cons, not_or] at h
    rw [List.cons_append, List.idxOf?_cons, if_neg (by simpa using Ne.symm h.1),
      idxOf_fresh rest h.2]
    rfl

/-- What every character of a text is, checked one by one. -/
theorem forall_mem_of_all {p : Char → Prop} [DecidablePred p] {s : Str}
    (h : (s.all fun c => decide (p c)) = true) : ∀ c ∈ s, p c := by
  intro c hc
  exact of_decide_eq_true (List.all_eq_true.mp h c hc)

end Voms.Core
