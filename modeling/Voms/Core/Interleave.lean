import Mathlib.Logic.Function.Basic
import Voms.Core.Run

/-!
# Processes that share a state

Each process has a state of its own and takes turns on one that all share;
it can fork and it can be killed at any time. `Step` is any order of these.

`Outline` is a proof outline in the manner of Owicki and Gries: `G` holds of the
shared state, `A` of each process and the shared state, `C` of each two
processes. A turn keeps its own assertion (`own`) and does not interfere with
those of the others (`others`).

* `Outline.run`: with an outline, `G`, `A` and `C` hold in every state that
  any interleaving reaches.
* `Outline.run_related`: what the turns do to the shared state, a whole run
  does, if it is a preorder.
-/
namespace Voms.Core.Interleave

variable {σ τ α : Type}

structure World (σ τ : Type) where
  shared : σ
  procs : Nat → Option τ

inductive Event (α : Type) where
  | turn (p : Nat) (a : α)
  | fork (p child : Nat)
  | kill (p : Nat)

/-- One process does something. `turn` is a turn of one process, `fork` is
between a process and its child. -/
inductive Step (turn : τ → σ → α → τ → σ → Prop) (fork : τ → τ → Prop) :
    World σ τ → Event α → World σ τ → Prop where
  | turn {w : World σ τ} {p : Nat} {l l' : τ} {a : α} {s' : σ} (runs : w.procs p = some l)
      (does : turn l w.shared a l' s') :
      Step turn fork w (.turn p a) ⟨s', Function.update w.procs p (some l')⟩
  | fork {w : World σ τ} {p child : Nat} {l l' : τ} (runs : w.procs p = some l)
      (free : w.procs child = none) (forks : fork l l') :
      Step turn fork w (.fork p child) ⟨w.shared, Function.update w.procs child (some l')⟩
  | kill {w : World σ τ} {p : Nat} {l : τ} (runs : w.procs p = some l) :
      Step turn fork w (.kill p) ⟨w.shared, Function.update w.procs p none⟩

/-- Each turn of the event is one of `fine`. -/
def Event.Fine (fine : α → Prop) : Event α → Prop
  | .turn _ a => fine a
  | .fork _ _ => True
  | .kill _ => True

/-- A proof outline for the turns in `fine`. -/
structure Outline (turn : τ → σ → α → τ → σ → Prop) (fork : τ → τ → Prop) (fine : α → Prop)
    (G : σ → Prop) (A : τ → σ → Prop) (C : τ → τ → Prop) : Prop where
  symm : ∀ {l m}, C l m → C m l
  own : ∀ {l s a l' s'}, fine a → G s → A l s → turn l s a l' s' → G s' ∧ A l' s'
  others : ∀ {l s a l' s' m}, fine a → G s → A l s → A m s → C l m → turn l s a l' s' →
    A m s' ∧ C l' m
  forks : ∀ {l l' s}, A l s → fork l l' → A l' s ∧ C l l' ∧ ∀ m, C l m → C l' m

/-- The assertions of an outline, in one state. -/
structure Holds (G : σ → Prop) (A : τ → σ → Prop) (C : τ → τ → Prop) (w : World σ τ) : Prop where
  shared : G w.shared
  each : ∀ p l, w.procs p = some l → A l w.shared
  pair : ∀ p q l m, p ≠ q → w.procs p = some l → w.procs q = some m → C l m

section

variable {turn : τ → σ → α → τ → σ → Prop} {fork : τ → τ → Prop} {fine : α → Prop}
variable {G : σ → Prop} {A : τ → σ → Prop} {C : τ → τ → Prop}

/-- The process that has changed, or another. -/
theorem update_some {procs : Nat → Option τ} {p q : Nat} {o : Option τ} {l : τ}
    (h : Function.update procs p o q = some l) :
    (q = p ∧ o = some l) ∨ (q ≠ p ∧ procs q = some l) := by
  by_cases hq : q = p
  · subst hq
    simp at h
    exact .inl ⟨rfl, h⟩
  · simp [hq] at h
    exact .inr ⟨hq, h⟩

/-- Where the process at `p` is replaced by one that goes with all others. -/
theorem Holds.update {w : World σ τ} {s' : σ} {p : Nat} {l' : τ}
    (symm : ∀ {l m}, C l m → C m l) (shared : G s') (own : A l' s')
    (others : ∀ q m, q ≠ p → w.procs q = some m → A m s' ∧ C l' m)
    (hw : ∀ q r l m, q ≠ r → w.procs q = some l → w.procs r = some m → C l m) :
    Holds G A C ⟨s', Function.update w.procs p (some l')⟩ where
  shared := shared
  each q m h := by
    rcases update_some h with ⟨-, hm⟩ | ⟨hq, hm⟩
    · cases hm
      exact own
    · exact (others q m hq hm).1
  pair q r m n hqr hm hn := by
    rcases update_some hm with ⟨hq, hm⟩ | ⟨hq, hm⟩
    · cases hm
      rcases update_some hn with ⟨hr, -⟩ | ⟨hr, hn⟩
      · exact absurd (hq.trans hr.symm) hqr
      · exact (others r n hr hn).2
    · rcases update_some hn with ⟨hr, hn⟩ | ⟨hr, hn⟩
      · cases hn
        exact symm (others q m hq hm).2
      · exact hw q r m n hqr hm hn

theorem Outline.step (ho : Outline turn fork fine G A C) {w w' : World σ τ} {e : Event α}
    (hfine : e.Fine fine) (hw : Holds G A C w) (h : Step turn fork w e w') : Holds G A C w' := by
  cases h with
  | @turn p l l' a s' runs does =>
    have hl := hw.each p l runs
    obtain ⟨hshared, hown⟩ := ho.own hfine hw.shared hl does
    refine .update ho.symm hshared hown (fun q m hq hm => ?_) hw.pair
    exact ho.others hfine hw.shared hl (hw.each q m hm) (hw.pair p q l m (Ne.symm hq) runs hm) does
  | @fork p child l l' runs free forks =>
    obtain ⟨hchild, hparent, hothers⟩ := ho.forks (hw.each p l runs) forks
    refine .update ho.symm hw.shared hchild (fun q m hq hm => ⟨hw.each q m hm, ?_⟩) hw.pair
    by_cases hqp : q = p
    · subst hqp
      cases runs.symm.trans hm
      exact ho.symm hparent
    · exact hothers m (hw.pair p q l m (Ne.symm hqp) runs hm)
  | @kill p l runs =>
    refine ⟨hw.shared, fun q m h => ?_, fun q r m n hqr hm hn => ?_⟩
    · rcases update_some h with ⟨-, h⟩ | ⟨-, h⟩
      · cases h
      · exact hw.each q m h
    · rcases update_some hm with ⟨-, hm⟩ | ⟨-, hm⟩
      · cases hm
      · rcases update_some hn with ⟨-, hn⟩ | ⟨-, hn⟩
        · cases hn
        · exact hw.pair q r m n hqr hm hn

/-- **The assertions hold in every state that an interleaving reaches.** -/
theorem Outline.run (ho : Outline turn fork fine G A C) {w w' : World σ τ} {l : List (Event α)}
    (h : Run (Step turn fork) w l w') (hfine : ∀ e ∈ l, e.Fine fine) (hw : Holds G A C w) :
    Holds G A C w' := by
  have hkeeps : Run.Keeps (Step turn fork) (Event.Fine fine) (Holds G A C) :=
    fun _ _ _ he hv hstep => ho.step he hv hstep
  exact Run.invariant hkeeps h hfine hw

/-- **What each turn does to the shared state, a run does.** -/
theorem Outline.run_related (ho : Outline turn fork fine G A C) {R : σ → σ → Prop}
    (hrefl : ∀ s, R s s) (htrans : ∀ {s t u}, R s t → R t u → R s u)
    (hturn : ∀ {l s a l' s'}, fine a → G s → A l s → turn l s a l' s' → R s s')
    {w w' : World σ τ} {l : List (Event α)} (h : Run (Step turn fork) w l w')
    (hfine : ∀ e ∈ l, e.Fine fine) (hw : Holds G A C w) : R w.shared w'.shared := by
  have hkeeps : Run.Keeps (Step turn fork) (Event.Fine fine)
      fun v => Holds G A C v ∧ R w.shared v.shared := by
    intro v e v' he hv hstep
    refine ⟨ho.step he hv.1 hstep, htrans hv.2 ?_⟩
    cases hstep with
    | turn runs does => exact hturn he hv.1.shared (hv.1.each _ _ runs) does
    | fork => exact hrefl _
    | kill => exact hrefl _
  exact (Run.invariant hkeeps h hfine ⟨hw, hrefl _⟩).2

end

end Voms.Core.Interleave
