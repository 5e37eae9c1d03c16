import Mathlib.Data.List.Basic

/-!
# Runs of a labelled system

`Run step s l s'`: the labels `l`, taken one after the other from `s`, lead
to `s'`. What one step keeps, a run keeps (`Run.invariant`, with a side
condition on the labels), and every label of a run was a step taken in a
state that satisfies the invariant (`Run.step_of_mem`). Where the step is a function, a
run can be computed (`Run.of_eval`). A property that some
labels keep and every other one loses holds in all states a run reaches
exactly if the run has no other label (`Run.always_iff`).
-/
namespace Voms.Core

variable {σ α : Type}

inductive Run (step : σ → α → σ → Prop) : σ → List α → σ → Prop where
  | nil (s : σ) : Run step s [] s
  | cons {s s' s'' : σ} {a : α} {l : List α} (h : step s a s') (t : Run step s' l s'') :
      Run step s (a :: l) s''

namespace Run

variable {step : σ → α → σ → Prop} {I : σ → Prop} {P : α → Prop}

/-- `I` is kept by the steps whose label satisfies `P`. -/
def Keeps (step : σ → α → σ → Prop) (P : α → Prop) (I : σ → Prop) : Prop :=
  ∀ s a s', P a → I s → step s a s' → I s'

theorem invariant (hk : Keeps step P I) {s s' : σ} {l : List α} (h : Run step s l s')
    (hp : ∀ a ∈ l, P a) (hs : I s) : I s' := by
  induction h with
  | nil => exact hs
  | cons hstep _ ih =>
    exact ih (fun b hb => hp b (List.mem_cons_of_mem _ hb))
      (hk _ _ _ (hp _ (List.mem_cons_self ..)) hs hstep)

/-- A run of two lists of labels is a run of the one and then of the other. -/
theorem append_iff : ∀ {l l' : List α} {s s' : σ},
    Run step s (l ++ l') s' ↔ ∃ t, Run step s l t ∧ Run step t l' s'
  | [], l', s, s' => ⟨fun h => ⟨s, .nil s, h⟩, fun ⟨t, h, h'⟩ => by cases h; exact h'⟩
  | a :: l, l', s, s' => by
    constructor
    · intro h
      cases h with
      | cons hstep h =>
        obtain ⟨t, hl, hl'⟩ := append_iff.mp h
        exact ⟨t, .cons hstep hl, hl'⟩
    · intro ⟨t, h, h'⟩
      cases h with
      | cons hstep h => exact .cons hstep (append_iff.mpr ⟨t, h, h'⟩)

/-- Every label of a run was taken in a state that satisfies the invariant. -/
theorem step_of_mem (hk : Keeps step P I) {s s' : σ} {l : List α} (h : Run step s l s')
    (hp : ∀ a ∈ l, P a) (hs : I s) {a : α} (ha : a ∈ l) : ∃ s1 s2, I s1 ∧ step s1 a s2 := by
  induction h with
  | nil => cases ha
  | cons hstep t ih =>
    rcases List.mem_cons.mp ha with rfl | ha
    · exact ⟨_, _, hs, hstep⟩
    · exact ih (fun b hb => hp b (List.mem_cons_of_mem _ hb))
        (hk _ _ _ (hp _ (List.mem_cons_self ..)) hs hstep) ha

/-- The labels one after the other, by a step function. -/
def eval (f : σ → α → Option σ) : List α → σ → Option σ
  | [], s => some s
  | a :: l, s => (f s a).bind (eval f l)

theorem of_eval {f : σ → α → Option σ} : ∀ {l : List α} {s s' : σ},
    eval f l s = some s' → Run (fun s a s' => f s a = some s') s l s'
  | [], s, s', h => by
    cases h
    exact .nil s
  | a :: l, s, s', h => by
    obtain ⟨t, ht, h⟩ := Option.bind_eq_some_iff.mp h
    exact .cons ht (of_eval h)

/-- `I` holds in every state the run reaches, the first and the last included. -/
def Always (step : σ → α → σ → Prop) (I : σ → Prop) (s : σ) (l : List α) : Prop :=
  ∀ l1 l2 t, l = l1 ++ l2 → Run step s l1 t → I t

/-- Where the labels with `P` are those that keep `I`, among the states that
satisfy an invariant `J` of all steps. -/
theorem always_iff {J : σ → Prop} (hJ : Keeps step (fun _ => True) J)
    (hI : ∀ s a s', J s → I s → step s a s' → (I s' ↔ P a)) {s s' : σ} {l : List α}
    (h : Run step s l s') (hs : J s) (hs' : I s) : Always step I s l ↔ ∀ a ∈ l, P a := by
  constructor
  · intro hall
    induction h with
    | nil => nofun
    | @cons s t u a l hstep _ ih =>
      have hreached : I t := hall [a] l t rfl (.cons hstep (.nil t))
      have ht : J t := hJ s a t trivial hs hstep
      intro b hb
      rcases List.mem_cons.mp hb with rfl | hb
      · exact (hI s b t hs hs' hstep).mp hreached
      · refine ih ht hreached (fun l1 l2 v hl hrun => ?_) b hb
        exact hall (a :: l1) l2 v (by rw [hl]; rfl) (.cons hstep hrun)
  · intro hP l1 l2 t hl hrun
    have hkeeps : Keeps step P fun s => J s ∧ I s := by
      intro s a s' ha hI' hstep
      exact ⟨hJ s a s' trivial hI'.1 hstep, (hI s a s' hI'.1 hI'.2 hstep).mpr ha⟩
    refine (invariant hkeeps hrun (fun a ha => hP a ?_) ⟨hs, hs'⟩).2
    rw [hl]
    exact List.mem_append_left l2 ha

end Run

end Voms.Core
