import Mathlib.Data.List.Destutter
import Mathlib.Data.List.Perm.Basic
import Mathlib.Data.List.Sort

/-!
# `std::sort`, `std::partial_sort` and `std::unique`

The standard fixes what the two sorts guarantee and not where elements that
compare equal, or the elements behind the part that is sorted, end up.
`Sorter` is a library that keeps to the guarantees; `Sorter.insertion` is
one, and `Sorter.pulling` another. `std::unique` is Mathlib's
`List.destutter (· ≠ ·)`.

* `destutter_nodup_iff`: when no element is left twice.
* `Sorter.partialSort_selects`: when all that are chosen stand in front.
-/
namespace Voms.Core

variable {α : Type}

/-- `lt` is a strict weak ordering. -/
def StrictWeak (lt : α → α → Bool) : Prop :=
  (∀ a b, lt a b = true → lt b a = false) ∧
    ∀ a b c, lt b a = false → lt c b = false → lt c a = false

/-- No element comes behind one it is less than. -/
def Ordered (lt : α → α → Bool) (l : List α) : Prop := l.Pairwise fun a b => lt b a = false

structure Sorter where
  sort : {α : Type} → (α → α → Bool) → List α → List α
  /-- The smallest elements to the front, as many as the number says. -/
  partialSort : {α : Type} → (α → α → Bool) → Nat → List α → List α
  sort_perm : ∀ {α : Type} (lt : α → α → Bool) l, (sort lt l).Perm l
  sort_ordered : ∀ {α : Type} {lt : α → α → Bool} l, StrictWeak lt → Ordered lt (sort lt l)
  partialSort_perm : ∀ {α : Type} (lt : α → α → Bool) n l, (partialSort lt n l).Perm l
  partialSort_ordered : ∀ {α : Type} {lt : α → α → Bool} n l, StrictWeak lt →
    Ordered lt ((partialSort lt n l).take n) ∧
      ∀ a ∈ (partialSort lt n l).take n, ∀ b ∈ (partialSort lt n l).drop n, lt b a = false

theorem insertionSort_ordered {lt : α → α → Bool} (h : StrictWeak lt) (l : List α) :
    Ordered lt (l.insertionSort fun a b => lt b a = false) := by
  obtain ⟨hasymm, htrans⟩ := h
  have htotal : Std.Total fun a b => lt b a = false := by
    refine ⟨fun a b => ?_⟩
    cases hlt : lt b a with
    | false => exact Or.inl rfl
    | true => exact Or.inr (hasymm b a hlt)
  have : IsTrans α fun a b => lt b a = false := ⟨htrans⟩
  exact List.pairwise_insertionSort _ l

/-- Both sorts by insertion. -/
def Sorter.insertion : Sorter where
  sort lt l := l.insertionSort fun a b => lt b a = false
  partialSort lt _ l := l.insertionSort fun a b => lt b a = false
  sort_perm lt l := List.perm_insertionSort _ l
  sort_ordered l h := insertionSort_ordered h l
  partialSort_perm lt _ l := List.perm_insertionSort _ l
  partialSort_ordered n l h := by
    have hord := insertionSort_ordered h l
    refine ⟨hord.sublist (List.take_sublist n _), ?_⟩
    have hsplit := hord
    unfold Ordered at hsplit
    rw [← List.take_append_drop n (List.insertionSort _ l), List.pairwise_append] at hsplit
    exact hsplit.2.2

/-! ## `std::unique` -/

/-- Between two equal elements of a chain there is another one. -/
theorem exists_between {x : α} {l : List α} (hl : l.IsChain (· ≠ ·)) (h : [x, x].Sublist l) :
    ∃ z, x ≠ z ∧ [x, z, x].Sublist l := by
  induction l with
  | nil => cases h
  | cons a l ih =>
    cases h with
    | cons _ h =>
      obtain ⟨z, hz, hsub⟩ := ih hl.tail h
      exact ⟨z, hz, List.Sublist.cons a hsub⟩
    | cons_cons _ h =>
      cases l with
      | nil => cases h
      | cons b l =>
        have hxb : x ≠ b := (List.isChain_cons_cons.mp hl).1
        have hx : x ∈ l := (List.mem_cons.mp (List.singleton_sublist.mp h)).resolve_left hxb
        exact ⟨b, hxb, List.Sublist.cons_cons x
          (List.Sublist.cons_cons b (List.singleton_sublist.mpr hx))⟩

section

variable [DecidableEq α]

theorem mem_destutter'_ne {x a : α} {l : List α} :
    x ∈ l.destutter' (· ≠ ·) a ↔ x = a ∨ x ∈ l := by
  induction l generalizing a with
  | nil => simp
  | cons b l ih =>
    by_cases hab : a = b
    · rw [List.destutter'_cons_neg l (not_not.mpr hab), ih, List.mem_cons, hab]
      simp
    · rw [List.destutter'_cons_pos l hab, List.mem_cons, ih, List.mem_cons]

/-- Nothing is lost. -/
theorem mem_destutter_ne {x : α} {l : List α} : x ∈ l.destutter (· ≠ ·) ↔ x ∈ l := by
  cases l with
  | nil => simp
  | cons a l =>
    rw [List.destutter_cons', mem_destutter'_ne, List.mem_cons]

theorem destutter'_nodup {lt : α → α → Bool} (heq : ∀ a b, lt a b = false → lt b a = false → a = b)
    {a : α} {l : List α} (hl : Ordered lt (a :: l)) : (l.destutter' (· ≠ ·) a).Nodup := by
  induction l generalizing a with
  | nil => exact List.nodup_singleton a
  | cons b l ih =>
    obtain ⟨ha, hbl⟩ := List.pairwise_cons.mp hl
    have hba := ha b (List.mem_cons_self ..)
    by_cases hab : a = b
    · rw [List.destutter'_cons_neg l (not_not.mpr hab)]
      exact ih (hl.sublist (List.Sublist.cons_cons a (List.sublist_cons_self b l)))
    · rw [List.destutter'_cons_pos l hab, List.nodup_cons]
      refine ⟨fun hmem => ?_, ih hbl⟩
      rcases mem_destutter'_ne.mp hmem with rfl | hmem
      · exact hab rfl
      · exact hab (heq a b ((List.pairwise_cons.mp hbl).1 a hmem) hba)

/-- Of a list in order no element is left twice. -/
theorem destutter_nodup {lt : α → α → Bool} (heq : ∀ a b, lt a b = false → lt b a = false → a = b)
    {l : List α} (hl : Ordered lt l) : (l.destutter (· ≠ ·)).Nodup := by
  cases l with
  | nil => exact List.nodup_nil
  | cons a l => exact destutter'_nodup heq hl

/-- What alternates is kept. -/
theorem sublist_destutter'_ne {a : α} {l c : List α} (hc : c.IsChain (· ≠ ·))
    (h : c.Sublist (a :: l)) : c.Sublist (l.destutter' (· ≠ ·) a) := by
  induction l generalizing a c with
  | nil => exact h
  | cons b l ih =>
    by_cases hab : a = b
    · subst hab
      rw [List.destutter'_cons_neg l (not_not.mpr rfl)]
      refine ih hc ?_
      -- of two equal elements in a row only one is in a chain
      cases h with
      | cons _ h => exact h
      | cons_cons _ h =>
        cases h with
        | cons _ h => exact List.Sublist.cons_cons a h
        | cons_cons _ h => exact absurd rfl (List.isChain_cons_cons.mp hc).1
    · rw [List.destutter'_cons_pos l hab]
      cases h with
      | cons _ h => exact List.Sublist.cons a (ih hc h)
      | cons_cons _ h => exact List.Sublist.cons_cons a (ih hc.tail h)

/-- An element is left twice exactly if it comes again behind another one. -/
theorem destutter_nodup_iff {l : List α} :
    (l.destutter (· ≠ ·)).Nodup ↔ ∀ x z, [x, z, x].Sublist l → x = z := by
  constructor
  · intro h x z hsub
    by_contra hxz
    have hchain : [x, z, x].IsChain (· ≠ ·) := by simp [hxz, Ne.symm hxz]
    have hkept : [x, z, x].Sublist (l.destutter (· ≠ ·)) := by
      cases l with
      | nil => cases hsub
      | cons a l => exact sublist_destutter'_ne hchain hsub
    have := h.sublist hkept
    simp at this
  · intro h
    rw [List.nodup_iff_sublist]
    intro x hsub
    obtain ⟨z, hz, hbetween⟩ := exists_between (List.isChain_destutter _ l) hsub
    exact hz (h x z (hbetween.trans (List.destutter_sublist _ l)))

end

/-! ## A sort that looks elsewhere first -/

/-- The element of the index comes to the front. -/
def pull (l : List α) (i : Nat) : List α :=
  match l[i]? with
  | some a => a :: l.eraseIdx i
  | none => l

theorem pull_perm (l : List α) (i : Nat) : (pull l i).Perm l := by
  unfold pull
  split
  · next a h =>
    obtain ⟨hi, rfl⟩ := List.getElem?_eq_some_iff.mp h
    exact List.getElem_cons_eraseIdx_perm hi
  · exact List.Perm.refl l

theorem pull_idxOf [DecidableEq α] {a : α} {l : List α} (h : a ∈ l) :
    pull l (l.idxOf a) = a :: l.erase a := by
  have hget : l[l.idxOf a]? = some a := by
    rw [List.getElem?_eq_getElem (List.idxOf_lt_length_of_mem h), List.getElem_idxOf]
  simp only [pull, hget]
  rw [List.erase_eq_eraseIdx_of_idxOf rfl]

/-- Insertion sort, with the elements of two indices in front first. -/
def Sorter.pulling (i j : Nat) : Sorter where
  sort lt l := (pull (pull l i) j).insertionSort fun a b => lt b a = false
  partialSort lt _ l := l.insertionSort fun a b => lt b a = false
  sort_perm _ l :=
    (List.perm_insertionSort _ _).trans ((pull_perm _ j).trans (pull_perm l i))
  sort_ordered _ h := insertionSort_ordered h _
  partialSort_perm _ _ l := List.perm_insertionSort _ l
  partialSort_ordered n l h := Sorter.insertion.partialSort_ordered n l h

/-! ## `std::partial_sort` as a selection -/

/-- If every element that some chosen one is not less than is chosen too,
and the number covers them, then all that are chosen stand in front and in
order: behind an element only a larger one is chosen. -/
theorem Sorter.partialSort_selects (S : Sorter) {lt : α → α → Bool} (h : StrictWeak lt) {n : Nat}
    {l chosen : List α} (hbefore : ∀ a b, b ∈ chosen → lt b a = false → a ∈ chosen)
    (hn : min chosen.length l.length ≤ n) (hl : l.Nodup) :
    (S.partialSort lt n l).Pairwise fun a b => b ∈ chosen → lt b a = false := by
  have hperm := S.partialSort_perm lt n l
  obtain ⟨hfront, hback⟩ := S.partialSort_ordered n l h
  have hnodup : (S.partialSort lt n l).Nodup := hperm.nodup_iff.mpr hl
  have hlen := hperm.length_eq
  -- behind the part that is sorted nothing is chosen: the part is full of chosen ones then
  have hnone : ∀ b ∈ (S.partialSort lt n l).drop n, b ∉ chosen := by
    intro b hb hchosen
    have hall : b :: (S.partialSort lt n l).take n ⊆ chosen := by
      refine List.cons_subset.mpr ⟨hchosen, fun a ha => hbefore a b hchosen ?_⟩
      exact hback a ha b hb
    have hdistinct : (b :: (S.partialSort lt n l).take n).Nodup := by
      refine List.nodup_cons.mpr ⟨fun ha => ?_, hnodup.sublist (List.take_sublist ..)⟩
      exact List.disjoint_take_drop hnodup (Nat.le_refl n) ha hb
    have hle := (List.subperm_of_subset hdistinct hall).length_le
    have hpos := List.length_pos_of_mem hb
    rw [List.length_drop] at hpos
    rw [List.length_cons, List.length_take] at hle
    omega
  rw [← List.take_append_drop n (S.partialSort lt n l), List.pairwise_append]
  refine ⟨?_, ?_, fun a ha b hb _ => hback a ha b hb⟩
  · refine List.Pairwise.imp ?_ hfront
    exact fun hab _ => hab
  · exact List.pairwise_of_forall_mem_list fun a _ b hb hchosen => absurd hchosen (hnone b hb)

end Voms.Core
