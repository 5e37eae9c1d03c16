import Voms.Core.Res

/-!
# Blocks of memory

A block is the list of its elements. Every access has an index, and one past
the end is a fault, so a computation on blocks that has a result stayed inside
all of them.
-/
namespace Voms.Core.Block

variable {α : Type}

/-- `a[i]` as a value. -/
def load (a : List α) (i : Nat) : Eval α :=
  match a[i]? with
  | some c => pure c
  | none => .fault .outOfRange

/-- `a[i] = c`. -/
def store (a : List α) (i : Nat) (c : α) : Eval (List α) :=
  if i < a.length then pure (a.set i c) else .fault .outOfRange

/-- The first `n` elements, as `std::string(a, n)` reads them. -/
def copy (a : List α) (n : Nat) : Eval (List α) :=
  if n ≤ a.length then pure (a.take n) else .fault .outOfRange

variable {a b : List α} {i n : Nat} {c : α}

theorem load_drop {rest : List α} (h : a.drop i = c :: rest) : load a i = .ok c := by
  have hget : a[i]? = some c := by rw [← List.head?_drop, h, List.head?_cons]
  simp only [load, hget, Res.pure_eq]

theorem load_length_add (a b : List α) (k : Nat) : load (a ++ b) (a.length + k) = load b k := by
  unfold load
  rw [List.getElem?_append_right (Nat.le_add_right ..), Nat.add_sub_cancel_left]

theorem load_length (a b : List α) : load (a ++ b) a.length = load b 0 := load_length_add a b 0

theorem load_set (h : i < a.length) : load (a.set i c) i = .ok c := by
  rw [load, List.getElem?_set_self h]
  rfl

theorem store_eq_ok : store a n c = .ok b ↔ n < a.length ∧ b = a.set n c := by
  unfold store
  split <;> simp [*, eq_comm]

theorem store_ok (h : n < a.length) : store a n c = .ok (a.set n c) := if_pos h

theorem copy_ok (h : n ≤ a.length) : copy a n = .ok (a.take n) := if_pos h

/-- What is in front, and then what was stored. -/
theorem take_set_succ (h : n < a.length) : (a.set n c).take (n + 1) = a.take n ++ [c] := by
  rw [List.take_add_one, List.take_set_of_le (Nat.le_refl n), List.getElem?_set_self h]
  rfl

end Voms.Core.Block
