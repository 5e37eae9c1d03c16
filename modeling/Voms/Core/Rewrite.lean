import Voms.Core.Str

/-!
# Rewriting one pair of letters

The leftmost pair `ba` of a text is replaced by a word `w`, and again in what
that gives, until there is no pair left.

* `Reads y x z`: a text with no pair that ends with exactly `y` letters `b` is
  a stack on which `x` is read; an `a` takes a `b` off and puts `w` in front of
  what is still to be read. `halts_iff_reads`: this is the rewriting.
* `halts_iff`: the rewriting ends if there is nothing to replace, or if `w` has
  no pair itself and, should it both begin with `aa` and end with `bb`, the
  text has none of `bba`, `baa` and `baba`. In every other case it never ends.
-/
namespace Voms.Core.Rewrite

variable {α : Type} {a b : α} {w : List α}

/-- The rewriting of a text ends. -/
inductive Halts (b a : α) (w : List α) : List α → Prop where
  | normal {s : List α} : ¬ [b, a] <:+: s → Halts b a w s
  | step {u v : List α} : ¬ [b, a] <:+: u ++ [b] → Halts b a w (u ++ w ++ v) →
      Halts b a w (u ++ b :: a :: v)

/-- `x` is read behind `y` letters `b`, and `z` of them are left at the end. -/
inductive Reads (b a : α) (w : List α) : Nat → List α → Nat → Prop where
  | nil {y : Nat} : Reads b a w y [] y
  | other {y z : Nat} {c : α} {x : List α} : c ≠ a → c ≠ b → Reads b a w 0 x z →
      Reads b a w y (c :: x) z
  | first {y z : Nat} {x : List α} : Reads b a w (y + 1) x z → Reads b a w y (b :: x) z
  | second {z : Nat} {x : List α} : Reads b a w 0 x z → Reads b a w 0 (a :: x) z
  | pair {y z : Nat} {x : List α} : Reads b a w y (w ++ x) z → Reads b a w (y + 1) (a :: x) z

/-- No pair, and exactly `y` letters `b` at the end. -/
def Normal (b a : α) (y : Nat) (s : List α) : Prop :=
  ∃ q, s = q ++ List.replicate y b ∧ q.getLast? ≠ some b ∧ ¬ [b, a] <:+: q

/-- Two pairs that come too close. -/
def Clash (b a : α) (s : List α) : Prop :=
  [b, b, a] <:+: s ∨ [b, a, a] <:+: s ∨ [b, a, b, a] <:+: s

/-! ## Pairs in a text -/

section

variable {s u v : List α} {c : α} {y : Nat}

theorem pair_suffix_concat : [b, a] <:+ s ++ [c] ↔ s.getLast? = some b ∧ c = a := by
  rw [List.suffix_concat_iff]
  constructor
  · rintro (h | ⟨t, ht, hsuffix⟩)
    · cases h
    · obtain ⟨rfl, hca⟩ := List.append_inj' (show [b] ++ [a] = t ++ [c] from ht) rfl
      obtain ⟨q, rfl⟩ := hsuffix
      exact ⟨List.getLast?_concat, (List.cons.inj hca).1.symm⟩
  · rintro ⟨hlast, rfl⟩
    obtain ⟨q, rfl⟩ := List.getLast?_eq_some_iff.mp hlast
    exact .inr ⟨[b], rfl, q, rfl⟩

theorem pair_concat : [b, a] <:+: s ++ [c] ↔ [b, a] <:+: s ∨ (s.getLast? = some b ∧ c = a) := by
  rw [List.infix_concat_iff, pair_suffix_concat, or_comm]

/-- The leftmost pair is at one place. -/
theorem leftmost_unique {u' v' : List α} (hab : b ≠ a) (hu : ¬ [b, a] <:+: u ++ [b])
    (hu' : ¬ [b, a] <:+: u' ++ [b]) (h : u ++ b :: a :: v = u' ++ b :: a :: v') :
    u = u' ∧ v = v' := by
  have hlater : ∀ {u v e v' : List α}, ¬ [b, a] <:+: u ++ e ++ [b] →
      b :: a :: v = e ++ b :: a :: v' → e = [] := by
    intro u v e v' hnot heq
    rcases e with _ | ⟨c, _ | ⟨d, e⟩⟩
    · rfl
    · exact absurd (List.cons.inj (List.cons.inj heq).2).1 (Ne.symm hab)
    · have hc : b = c := (List.cons.inj heq).1
      have hd : a = d := (List.cons.inj (List.cons.inj heq).2).1
      subst hc hd
      exact absurd ⟨u, e ++ [b], by simp⟩ hnot
  rcases List.append_eq_append_iff.mp h with ⟨e, rfl, heq⟩ | ⟨e, rfl, heq⟩
  · obtain rfl := hlater hu' heq
    simpa using heq
  · obtain rfl := hlater hu heq
    simpa using heq.symm

theorem Normal.not_infix (h : Normal b a y s) (hab : b ≠ a) : ¬ [b, a] <:+: s := by
  obtain ⟨q, rfl, -, hq⟩ := h
  induction y with
  | zero => simpa using hq
  | succ y ih =>
    rw [List.replicate_succ', ← List.append_assoc, pair_concat, not_or]
    exact ⟨ih, fun h => hab h.2⟩

theorem Normal.nil : Normal b a 0 ([] : List α) := ⟨[], rfl, by simp, by simp⟩

theorem Normal.other (h : Normal b a y s) (hab : b ≠ a) (hca : c ≠ a) (hcb : c ≠ b) :
    Normal b a 0 (s ++ [c]) := by
  refine ⟨s ++ [c], by simp, by simpa using hcb, ?_⟩
  rw [pair_concat, not_or]
  exact ⟨h.not_infix hab, fun h => hca h.2⟩

theorem Normal.first (h : Normal b a y s) : Normal b a (y + 1) (s ++ [b]) := by
  obtain ⟨q, rfl, hlast, hq⟩ := h
  exact ⟨q, by rw [List.replicate_succ', List.append_assoc], hlast, hq⟩

theorem Normal.second (h : Normal b a 0 s) (hab : b ≠ a) : Normal b a 0 (s ++ [a]) := by
  obtain ⟨q, rfl, hlast, hq⟩ := h
  rw [List.replicate_zero, List.append_nil]
  refine ⟨q ++ [a], by simp, by simpa using Ne.symm hab, ?_⟩
  rw [pair_concat, not_or]
  exact ⟨hq, fun h => hlast h.1⟩

theorem Normal.pop (h : Normal b a (y + 1) s) : ∃ t, s = t ++ [b] ∧ Normal b a y t := by
  obtain ⟨q, rfl, hlast, hq⟩ := h
  have hback : q ++ List.replicate (y + 1) b = (q ++ List.replicate y b) ++ [b] := by
    rw [List.replicate_succ', List.append_assoc]
  exact ⟨q ++ List.replicate y b, hback, q, rfl, hlast, hq⟩

end

/-! ## Reading a text is rewriting it -/

section

variable {x : List α} {y z : Nat}

theorem Halts.of_reads (hab : b ≠ a) (h : Reads b a w y x z) :
    ∀ p, Normal b a y p → Halts b a w (p ++ x) := by
  induction h with
  | nil =>
    intro p hp
    rw [List.append_nil]
    exact .normal (hp.not_infix hab)
  | other hca hcb _ ih =>
    intro p hp
    have hrest := ih _ (hp.other hab hca hcb)
    rwa [List.append_assoc] at hrest
  | first _ ih =>
    intro p hp
    have hrest := ih _ hp.first
    rwa [List.append_assoc] at hrest
  | second _ ih =>
    intro p hp
    have hrest := ih _ (hp.second hab)
    rwa [List.append_assoc] at hrest
  | pair _ ih =>
    intro p hp
    obtain ⟨t, rfl, ht⟩ := hp.pop
    have hrest := ih t ht
    rw [← List.append_assoc] at hrest
    rw [List.append_assoc]
    exact .step (hp.not_infix hab) hrest

/-- Up to the first pair a text is only read. -/
theorem Reads.walk (hab : b ≠ a) {s : List α}
    (hpair : ∀ p x y, s = p ++ b :: a :: x → Normal b a y p → ¬ [b, a] <:+: p ++ [b] →
      ∃ z, Reads b a w y (w ++ x) z) :
    ∀ x p y, s = p ++ x → Normal b a y p → ∃ z, Reads b a w y x z := by
  intro x
  induction x with
  | nil => exact fun _ y _ _ => ⟨y, .nil⟩
  | cons c x ih =>
    intro p y hs hp
    have hs' : s = p ++ [c] ++ x := by rw [hs]; simp
    by_cases hcb : c = b
    · subst hcb
      obtain ⟨z, hz⟩ := ih _ _ hs' hp.first
      exact ⟨z, .first hz⟩
    · by_cases hca : c = a
      · subst hca
        cases y with
        | zero =>
          obtain ⟨z, hz⟩ := ih _ _ hs' (hp.second hab)
          exact ⟨z, .second hz⟩
        | succ y =>
          obtain ⟨t, rfl, ht⟩ := hp.pop
          obtain ⟨z, hz⟩ := hpair t x y (by rw [hs]; simp) ht (hp.not_infix hab)
          exact ⟨z, .pair hz⟩
      · obtain ⟨z, hz⟩ := ih _ _ hs' (hp.other hab hca hcb)
        exact ⟨z, .other hca hcb hz⟩

theorem Reads.of_halts (hab : b ≠ a) {s : List α} (h : Halts b a w s) :
    ∀ x p y, s = p ++ x → Normal b a y p → ∃ z, Reads b a w y x z := by
  induction h with
  | normal hs =>
    refine Reads.walk hab ?_
    rintro p x y rfl - -
    exact absurd ⟨p, x, by simp⟩ hs
  | @step u v hu _ ih =>
    refine Reads.walk hab ?_
    rintro p x y heq hp hleft
    obtain ⟨rfl, rfl⟩ := leftmost_unique hab hu hleft heq
    exact ih _ u y (List.append_assoc ..) hp

theorem halts_iff_reads (hab : b ≠ a) {s : List α} :
    Halts b a w s ↔ ∃ z, Reads b a w 0 s z :=
  ⟨fun h => Reads.of_halts hab h s [] 0 rfl .nil,
    fun ⟨_, h⟩ => Halts.of_reads hab h [] .nil⟩

end

/-! ## When the reading ends -/

section

variable {x x' : List α} {y z z' : Nat}

theorem Reads.append (h : Reads b a w y x z) (h' : Reads b a w z x' z') :
    Reads b a w y (x ++ x') z' := by
  induction h with
  | nil => exact h'
  | other hca hcb _ ih => exact .other hca hcb (ih h')
  | first _ ih => exact .first (ih h')
  | second _ ih => exact .second (ih h')
  | pair _ ih =>
    have hrest := ih h'
    rw [List.append_assoc] at hrest
    exact .pair hrest

theorem replicate_bb {k : Nat} (hk : 2 ≤ k) : List.replicate (k - 2) b ++ [b, b] =
    List.replicate k b := by
  rw [show [b, b] = List.replicate 2 b from rfl, List.replicate_append_replicate,
    Nat.sub_add_cancel hk]

/-- A text without a pair is read to its end, if its first letter makes none.
It adds at most the letters `b` at its end. -/
theorem reads_normal : ∀ {x : List α} {y : Nat}, ¬ [b, a] <:+: x → (y = 0 ∨ x.head? ≠ some a) →
    ∃ z, Reads b a w y x z ∧
      ((∃ k, x = List.replicate k b ∧ z = y + k) ∨ (¬ [b, b] <:+ x → z ≤ 1)) := by
  intro x
  induction x with
  | nil => exact fun {y} _ _ => ⟨y, .nil, .inl ⟨0, rfl, rfl⟩⟩
  | cons c x ih =>
    intro y hx hhead
    have hx' : ¬ [b, a] <:+: x := fun h => hx (h.trans (List.suffix_cons c x).isInfix)
    by_cases hcb : c = b
    · subst hcb
      have hnext : x.head? ≠ some a := by
        intro h
        obtain ⟨x, rfl⟩ := List.head?_eq_some_iff.mp h
        exact hx ⟨[], x, rfl⟩
      obtain ⟨z, hz, hbound⟩ := ih (y := y + 1) hx' (.inr hnext)
      refine ⟨z, .first hz, ?_⟩
      rcases hbound with ⟨k, rfl, rfl⟩ | hbound
      · exact .inl ⟨k + 1, rfl, by omega⟩
      · exact .inr fun h => hbound fun h' => h (h'.trans (List.suffix_cons _ _))
    · obtain ⟨z, hz, hbound⟩ := ih (y := 0) hx' (.inl rfl)
      refine ⟨z, ?_, .inr fun h => ?_⟩
      · by_cases hca : c = a
        · subst hca
          obtain rfl := hhead.resolve_right (by simp)
          exact .second hz
        · exact .other hca hcb hz
      · rcases hbound with ⟨k, rfl, rfl⟩ | hbound
        · by_contra hk
          refine h ⟨c :: List.replicate (k - 2) b, ?_⟩
          rw [List.cons_append, replicate_bb (by omega)]
        · exact hbound fun h' => h (h'.trans (List.suffix_cons _ _))

/-- One `b` more at most, for a text that does not end with two. -/
theorem reads_normal_le (hx : ¬ [b, a] <:+: x) (hhead : x.head? ≠ some a)
    (hend : ¬ [b, b] <:+ x) (y : Nat) : ∃ z, Reads b a w y x z ∧ z ≤ y + 1 := by
  obtain ⟨z, hz, ⟨k, rfl, rfl⟩ | hbound⟩ := reads_normal (w := w) hx (.inr hhead) (y := y)
  · refine ⟨_, hz, ?_⟩
    by_contra hk
    exact hend ⟨_, replicate_bb (by omega)⟩
  · exact ⟨z, hz, by have := hbound hend; omega⟩

/-- Every text is read if the second letter of a pair is. -/
theorem reads_of_letter (h : ∀ y, ∃ z, Reads b a w y [a] z) :
    ∀ (x : List α) (y : Nat), ∃ z, Reads b a w y x z := by
  intro x
  induction x with
  | nil => exact fun y => ⟨y, .nil⟩
  | cons c x ih =>
    intro y
    have hletter : ∃ z, Reads b a w y [c] z := by
      by_cases hcb : c = b
      · exact ⟨y + 1, hcb ▸ .first .nil⟩
      · by_cases hca : c = a
        · exact hca ▸ h y
        · exact ⟨0, .other hca hcb .nil⟩
    obtain ⟨z, hz⟩ := hletter
    obtain ⟨z', hz'⟩ := ih z
    exact ⟨z', hz.append hz'⟩

/-- The letter is read if the word is, behind one `b` less. -/
theorem reads_letter_succ (h : Reads b a w y w z) : Reads b a w (y + 1) [a] z := by
  refine .pair ?_
  rw [List.append_nil]
  exact h

/-- A word that begins with at most one `a`. -/
theorem reads_of_begin (hw : ¬ [b, a] <:+: w) (hbegin : ¬ [a, a] <+: w) (y : Nat) :
    ∃ z, Reads b a w y [a] z := by
  have hword : ∀ y, ∃ z, Reads b a w y w z := by
    cases w with
    | nil => exact fun y => ⟨y, .nil⟩
    | cons c u =>
      have hu : ¬ [b, a] <:+: u := fun h => hw (h.trans (List.suffix_cons c u).isInfix)
      by_cases hca : c = a
      · subst hca
        have hnext : u.head? ≠ some c := by
          intro h
          obtain ⟨v, rfl⟩ := List.head?_eq_some_iff.mp h
          exact hbegin ⟨v, rfl⟩
        intro y
        induction y with
        | zero =>
          obtain ⟨z, hz, -⟩ := reads_normal (w := c :: u) hw (.inl rfl)
          exact ⟨z, hz⟩
        | succ y ih =>
          obtain ⟨z, hz⟩ := ih
          obtain ⟨z', hz', -⟩ := reads_normal (w := c :: u) hu (.inr hnext) (y := z)
          exact ⟨z', .pair (hz.append hz')⟩
      · intro y
        obtain ⟨z, hz, -⟩ := reads_normal (w := c :: u) hw (.inr (by simpa using hca)) (y := y)
        exact ⟨z, hz⟩
  cases y with
  | zero => exact ⟨0, .second .nil⟩
  | succ y =>
    obtain ⟨z, hz⟩ := hword y
    exact ⟨z, reads_letter_succ hz⟩

theorem split_leading (a : α) (w : List α) :
    ∃ i v, w = List.replicate i a ++ v ∧ v.head? ≠ some a := by
  induction w with
  | nil => exact ⟨0, [], rfl, by simp⟩
  | cons c w ih =>
    by_cases hca : c = a
    · obtain ⟨i, v, rfl, hv⟩ := ih
      exact ⟨i + 1, v, by rw [hca]; rfl, hv⟩
    · exact ⟨0, c :: w, rfl, by simpa using hca⟩

/-- A word that ends with at most one `b`: no `b` is left over. -/
theorem reads_of_end (hw : ¬ [b, a] <:+: w) (hend : ¬ [b, b] <:+ w) (y : Nat) :
    ∃ z, Reads b a w y [a] z ∧ z ≤ y := by
  obtain ⟨i, v, hsplit, hhead⟩ := split_leading a w
  have hv : ¬ [b, a] <:+: v := by
    intro h
    rw [hsplit] at hw
    exact hw (h.trans (List.suffix_append _ _).isInfix)
  have hvend : ¬ [b, b] <:+ v := by
    intro h
    rw [hsplit] at hend
    exact hend (h.trans (List.suffix_append _ _))
  induction y using Nat.strongRecOn with
  | ind y ih =>
    cases y with
    | zero => exact ⟨0, .second .nil, Nat.le_refl 0⟩
    | succ y =>
      have hleading : ∀ i, ∃ z, Reads b a w y (List.replicate i a) z ∧ z ≤ y := by
        intro i
        induction i with
        | zero => exact ⟨y, .nil, Nat.le_refl y⟩
        | succ i ih' =>
          obtain ⟨z, hz, hle⟩ := ih'
          obtain ⟨z', hz', hle'⟩ := ih z (by omega)
          refine ⟨z', ?_, by omega⟩
          rw [List.replicate_succ']
          exact hz.append hz'
      obtain ⟨z, hz, hle⟩ := hleading i
      obtain ⟨z', hz', hle'⟩ := reads_normal_le (w := w) hv hhead hvend z
      refine ⟨z', reads_letter_succ ?_, by omega⟩
      have hread := hz.append hz'
      rwa [← hsplit] at hread

theorem Clash.of_suffix (h : Clash b a x) (hx : x <:+ x') : Clash b a x' :=
  h.imp (·.trans hx.isInfix) (Or.imp (·.trans hx.isInfix) (·.trans hx.isInfix))

/-- A pair, if what is behind it can be read after the word. -/
theorem reads_pair (hw : ¬ [b, a] <:+: w) (hclash : ¬ Clash b a (b :: a :: x))
    (h : x.head? ≠ some a → ¬ [b, a] <+: x → ∀ y, ∃ z, Reads b a w y x z) :
    ∃ z, Reads b a w 0 (b :: a :: x) z := by
  have hhead : x.head? ≠ some a := by
    intro h
    obtain ⟨t, rfl⟩ := List.head?_eq_some_iff.mp h
    exact hclash (.inr (.inl ⟨[], t, rfl⟩))
  have hpair : ¬ [b, a] <+: x := by
    rintro ⟨t, rfl⟩
    exact hclash (.inr (.inr ⟨[], t, rfl⟩))
  obtain ⟨z, hz, -⟩ := reads_normal (w := w) hw (.inl rfl)
  obtain ⟨z', hz'⟩ := h hhead hpair z
  exact ⟨z', .first (.pair (hz.append hz'))⟩

/-- With no clash every pair is replaced once. Behind a word that ends with
`b` the text begins with no `a` and no pair. -/
theorem reads_apart (hw : ¬ [b, a] <:+: w) : ∀ (n : Nat) (x : List α), x.length ≤ n →
    ¬ Clash b a x → (∃ z, Reads b a w 0 x z) ∧
      (x.head? ≠ some a → ¬ [b, a] <+: x → ∀ y, ∃ z, Reads b a w y x z) := by
  intro n
  induction n with
  | zero =>
    intro x hx _
    obtain rfl := List.length_eq_zero_iff.mp (Nat.le_zero.mp hx)
    exact ⟨⟨0, .nil⟩, fun _ _ y => ⟨y, .nil⟩⟩
  | succ n ih =>
    intro x hx hclash
    rcases x with _ | ⟨c, x⟩
    · exact ⟨⟨0, .nil⟩, fun _ _ y => ⟨y, .nil⟩⟩
    have hle : x.length ≤ n := Nat.le_of_succ_le_succ hx
    have hrest : ¬ Clash b a x := fun h => hclash (h.of_suffix (List.suffix_cons c x))
    by_cases hcb : c = b
    · subst hcb
      -- another `b` may follow, but then no pair
      have hbehind : x.head? ≠ some a → ¬ [c, a] <+: x := by
        rintro - ⟨v, rfl⟩
        exact hclash (.inl ⟨[], v, rfl⟩)
      constructor
      · by_cases hnext : x.head? = some a
        · obtain ⟨v, rfl⟩ := List.head?_eq_some_iff.mp hnext
          have hv : ¬ Clash c a v := fun h => hrest (h.of_suffix (List.suffix_cons a v))
          exact reads_pair hw hclash (ih v (Nat.le_of_succ_le hle) hv).2
        · obtain ⟨z, hz⟩ := (ih x hle hrest).2 hnext (hbehind hnext) 1
          exact ⟨z, .first hz⟩
      · intro _ hpair y
        have hnext : x.head? ≠ some a := by
          intro h
          obtain ⟨v, rfl⟩ := List.head?_eq_some_iff.mp h
          exact hpair ⟨v, rfl⟩
        obtain ⟨z, hz⟩ := (ih x hle hrest).2 hnext (hbehind hnext) (y + 1)
        exact ⟨z, .first hz⟩
    · obtain ⟨z, hz⟩ := (ih x hle hrest).1
      by_cases hca : c = a
      · subst hca
        exact ⟨⟨z, .second hz⟩, fun h => absurd rfl h⟩
      · exact ⟨⟨z, .other hca hcb hz⟩, fun _ _ y => ⟨z, .other hca hcb hz⟩⟩

end

/-! ## When it does not -/

section

variable {x : List α} {y z : Nat}

theorem not_mem_replicate (hab : b ≠ a) : a ∉ List.replicate y b :=
  fun h => hab (List.eq_of_mem_replicate h).symm

/-- A factor with an `a` lies behind a letter that it does not have. -/
theorem infix_of_other (hab : b ≠ a) {c : α} {p : List α} (hc : c ∉ p) (ha : a ∈ p)
    (h : p <:+: List.replicate y b ++ c :: x) : p <:+: x := by
  rcases infix_append_cons hc h with h | h
  · exact absurd (h.subset ha) (not_mem_replicate hab)
  · exact h

theorem infix_behind_a (hab : b ≠ a) {p : List α} (h : b :: p <:+: a :: x) : b :: p <:+: x :=
  (List.infix_cons_iff.mp h).resolve_left fun ⟨_, ht⟩ => hab (List.cons.inj ht).1

/-- A word with a pair is never read. -/
theorem Reads.no_pair (hab : b ≠ a) (hw : [b, a] <:+: w) (h : Reads b a w y x z) :
    ¬ [b, a] <:+: List.replicate y b ++ x := by
  induction h with
  | nil =>
    intro h
    rw [List.append_nil] at h
    exact not_mem_replicate hab (h.subset (List.mem_cons_of_mem _ (List.mem_singleton.mpr rfl)))
  | other hca hcb _ ih =>
    intro h
    exact ih (infix_of_other hab (by simp [hca, hcb]) (by simp) h)
  | first _ ih =>
    intro h
    rw [List.replicate_succ', List.append_assoc] at ih
    exact ih h
  | second _ ih => exact fun h => ih (infix_behind_a hab h)
  | pair _ ih =>
    intro _
    exact ih (hw.trans ⟨_, _, List.append_assoc ..⟩)

theorem clash_cases {s : List α} (h : Clash b a s) :
    ∃ p, b :: p <:+: s ∧ a ∈ p ∧ (∀ c ∈ p, c = a ∨ c = b) ∧
      ∀ t : List α, b :: p <:+: t → Clash b a t := by
  rcases h with h | h | h
  · exact ⟨_, h, by simp, by simp, fun t ht => .inl ht⟩
  · exact ⟨_, h, by simp, by simp, fun t ht => .inr (.inl ht)⟩
  · exact ⟨_, h, by simp, by simp, fun t ht => .inr (.inr ht)⟩

/-- Nor is a clash with a word that makes another one. -/
theorem Reads.no_clash (hab : b ≠ a) (hbegin : [a, a] <+: w) (hend : [b, b] <:+ w)
    (h : Reads b a w y x z) : ¬ Clash b a (List.replicate y b ++ x) := by
  induction h with
  | nil =>
    intro h
    obtain ⟨p, hp, ha, -⟩ := clash_cases h
    rw [List.append_nil] at hp
    exact not_mem_replicate hab (hp.subset (List.mem_cons_of_mem _ ha))
  | other hca hcb _ ih =>
    intro h
    obtain ⟨p, hp, ha, hletters, hclash⟩ := clash_cases h
    refine ih (hclash _ (infix_of_other hab ?_ (List.mem_cons_of_mem _ ha) hp))
    rw [List.mem_cons, not_or]
    exact ⟨hcb, fun h => (hletters _ h).elim hca hcb⟩
  | first _ ih =>
    intro h
    rw [List.replicate_succ', List.append_assoc] at ih
    exact ih h
  | second _ ih =>
    intro h
    obtain ⟨p, hp, -, -, hclash⟩ := clash_cases h
    exact ih (hclash _ (infix_behind_a hab hp))
  | @pair y z x _ ih =>
    intro h
    obtain ⟨v, rfl⟩ := hbegin
    obtain ⟨u, hu⟩ := hend
    cases y with
    | succ y =>
      -- the word comes behind a `b`
      exact ih (.inr (.inl ⟨List.replicate y b, v ++ x, by simp [List.replicate_succ']⟩))
    | zero =>
      refine ih ?_
      rw [List.replicate_zero, List.nil_append, ← hu]
      -- what is left of the clash begins at the pair, or lies behind it
      rcases h with h | h | h <;> rcases List.infix_cons_iff.mp h with ⟨t, ht⟩ | h
      · exact absurd (List.cons.inj (List.cons.inj ht).2).1 hab
      · exact .inl ((infix_behind_a hab h).trans (List.suffix_append _ x).isInfix)
      · obtain rfl : a :: t = x := (List.cons.inj (List.cons.inj ht).2).2
        exact .inl ⟨u, t, by simp⟩
      · exact .inr (.inl ((infix_behind_a hab h).trans (List.suffix_append _ x).isInfix))
      · obtain rfl : b :: a :: t = x := (List.cons.inj (List.cons.inj ht).2).2
        exact .inl ⟨u ++ [b], t, by simp⟩
      · exact .inr (.inr ((infix_behind_a hab h).trans (List.suffix_append _ x).isInfix))

end

/-- **When the rewriting ends.** -/
theorem halts_iff (hab : b ≠ a) {s : List α} : Halts b a w s ↔
    ¬ [b, a] <:+: s ∨
      ¬ [b, a] <:+: w ∧ (¬ ([a, a] <+: w ∧ [b, b] <:+ w) ∨ ¬ Clash b a s) := by
  rw [halts_iff_reads hab]
  constructor
  · rintro ⟨z, h⟩
    by_cases hs : [b, a] <:+: s
    · refine .inr ⟨fun hw => h.no_pair hab hw hs, ?_⟩
      by_cases hends : [a, a] <+: w ∧ [b, b] <:+ w
      · exact .inr (h.no_clash hab hends.1 hends.2)
      · exact .inl hends
    · exact .inl hs
  · rintro (hs | ⟨hw, hends | hclash⟩)
    · exact (reads_normal hs (.inl rfl)).imp fun z h => h.1
    · by_cases hbegin : [a, a] <+: w
      · refine reads_of_letter (fun y => ?_) s 0
        exact (reads_of_end hw (fun h => hends ⟨hbegin, h⟩) y).imp fun z h => h.1
      · exact reads_of_letter (reads_of_begin hw hbegin) s 0
    · exact (reads_apart hw s.length s (Nat.le_refl _) hclash).1

end Voms.Core.Rewrite
