import Mathlib.Algebra.Group.Int.Defs
import Voms.Core.Run

/-!
# The children of the server

`VOMSServer::Run` and `sigchld_handler` (`src/server/vomsd.cc`). The server
forks a child for every connection and counts the connection in
`active_requests`. Above the limit it calls `wait` and takes one off, whether
or not `wait` found a child; the handler of `SIGCHLD` reaps what has exited
and takes nothing off.

A run is an order of what the loop, the children and the handler do. A signal
that is pending stands for any number of exits, and the handler interrupts the
loop anywhere, `wait` included, which goes on afterwards.

* `children_le_active`: the children that are not reaped never exceed the
  counter, nor the limit.
* `capacity_iff`: the counter is right in every state, so that the loop stands
  in `wait` only while as many children are alive as the limit allows, exactly
  if the handler never reaps a child and no `fork` fails.
-/
namespace Voms.L5.Children

open Voms.Core

/-- The limit. mirrors src/server/vomsd.cc:596-600 -/
def maxActiveRequests (maxReqs : Int) : Int := if maxReqs ≤ 0 then 50 else maxReqs

theorem maxActiveRequests_pos (maxReqs : Int) : 1 ≤ maxActiveRequests maxReqs := by
  unfold maxActiveRequests
  split <;> omega

/-- Where `Run` stands: before the next connection, at the test of the loop
around `wait`, before `fork`, or behind its end. -/
inductive Place where
  | select | limit | fork | ended
  deriving DecidableEq, Repr

/-- `live` children run, `zombies` have exited and are not reaped;
`signalled` tells that `SIGCHLD` is pending, `handling` that the handler runs. -/
structure State where
  place : Place
  activeRequests : Int
  live : Nat
  zombies : Nat
  signalled : Bool
  handling : Bool
  deriving DecidableEq, Repr

def State.init : State := ⟨.select, 0, 0, 0, false, false⟩

/-- The children that nobody has reaped. -/
def State.children (s : State) : Nat := s.live + s.zombies

inductive Event where
  | reload (ok : Bool)
  | accept
  | enough
  | wait (found : Bool)
  | fork (ok : Bool)
  | exit
  | signal
  | reap
  | handled
  deriving DecidableEq, Repr

/-- `UpdateOpts` knows no option for the limit; where it throws, `Run` ends.
`active_requests` is an `int`, and counts only as far as one goes. The other
steps of the loop need that the handler does not run. The handler reaps until
nothing is left.
mirrors src/server/vomsd.cc:188-201, 683-740 -/
def step (max : Int) (s : State) : Event → Option State
  | .reload ok =>
    if s.place = .select ∧ ¬ s.handling then
      some (if ok then s else { s with place := .ended })
    else none
  | .accept =>
    if s.place = .select ∧ ¬ s.handling ∧ s.activeRequests + 1 < 2 ^ 31 then
      some { s with place := .limit, activeRequests := s.activeRequests + 1 }
    else none
  | .enough =>
    if s.place = .limit ∧ ¬ s.handling ∧ s.activeRequests ≤ max then
      some { s with place := .fork }
    else none
  | .wait true =>
    if s.place = .limit ∧ ¬ s.handling ∧ max < s.activeRequests ∧ 0 < s.zombies then
      some { s with activeRequests := s.activeRequests - 1, zombies := s.zombies - 1 }
    else none
  | .wait false =>
    if s.place = .limit ∧ ¬ s.handling ∧ max < s.activeRequests ∧ s.children = 0 then
      some { s with activeRequests := s.activeRequests - 1 }
    else none
  | .fork ok =>
    if s.place = .fork ∧ ¬ s.handling then
      some { s with place := .select, live := if ok then s.live + 1 else s.live }
    else none
  | .exit =>
    if 0 < s.live then
      some { s with live := s.live - 1, zombies := s.zombies + 1, signalled := true }
    else none
  | .signal =>
    if s.signalled ∧ ¬ s.handling then some { s with signalled := false, handling := true }
    else none
  | .reap =>
    if s.handling ∧ 0 < s.zombies then some { s with zombies := s.zombies - 1 } else none
  | .handled =>
    if s.handling ∧ s.zombies = 0 then some { s with handling := false } else none

def next (max : Int) (s : State) (e : Event) (s' : State) : Prop := step max s e = some s'

/-! ## The counter and the children -/

/-- A connection that is accepted and has no child yet. -/
def Place.pending : Place → Int
  | .limit => 1
  | .fork => 1
  | .select => 0
  | .ended => 0

/-- By how much the counter is too high. -/
def State.excess (s : State) : Int := s.activeRequests - s.children - s.place.pending

/-- What an event adds to the excess: a child that the handler reaps and a
`fork` that fails are not taken off, and a `wait` without a child is. -/
def Event.uncounted : Event → Int
  | .reap => 1
  | .fork false => 1
  | .wait false => -1
  | _ => 0

variable {max : Int} {s s' : State} {e : Event}

theorem excess_step (h : next max s e s') : s'.excess = s.excess + e.uncounted := by
  unfold next at h
  unfold State.excess
  cases e with
  | reload ok =>
    obtain ⟨⟨hplace, -⟩, ⟨⟩⟩ := Option.ite_none_right_eq_some.mp h
    cases ok with
    | false => simp [hplace, Place.pending, State.children, Event.uncounted]
    | true => simp [Event.uncounted]
  | accept =>
    obtain ⟨⟨hplace, -⟩, ⟨⟩⟩ := Option.ite_none_right_eq_some.mp h
    simp [hplace, Place.pending, State.children, Event.uncounted]
    omega
  | enough =>
    obtain ⟨⟨hplace, -⟩, ⟨⟩⟩ := Option.ite_none_right_eq_some.mp h
    simp [hplace, Place.pending, State.children, Event.uncounted]
  | wait found =>
    cases found with
    | false =>
      obtain ⟨-, ⟨⟩⟩ := Option.ite_none_right_eq_some.mp h
      simp [State.children, Event.uncounted]
      omega
    | true =>
      obtain ⟨⟨-, -, -, hzombie⟩, ⟨⟩⟩ := Option.ite_none_right_eq_some.mp h
      simp [State.children, Event.uncounted]
      omega
  | fork ok =>
    obtain ⟨⟨hplace, -⟩, ⟨⟩⟩ := Option.ite_none_right_eq_some.mp h
    cases ok with
    | false =>
      simp [hplace, Place.pending, State.children, Event.uncounted]
    | true =>
      simp [hplace, Place.pending, State.children, Event.uncounted]
      omega
  | exit =>
    obtain ⟨hlive, ⟨⟩⟩ := Option.ite_none_right_eq_some.mp h
    simp [State.children, Event.uncounted]
    omega
  | signal =>
    obtain ⟨-, ⟨⟩⟩ := Option.ite_none_right_eq_some.mp h
    simp [State.children, Event.uncounted]
  | reap =>
    obtain ⟨⟨-, hzombie⟩, ⟨⟩⟩ := Option.ite_none_right_eq_some.mp h
    simp [State.children, Event.uncounted]
    omega
  | handled =>
    obtain ⟨-, ⟨⟩⟩ := Option.ite_none_right_eq_some.mp h
    simp [State.children, Event.uncounted]

/-- A `wait` that finds no child: then the counter is too high. -/
theorem excess_wait (hmax : 1 ≤ max) (h : next max s (.wait false) s') : 1 ≤ s.excess := by
  obtain ⟨⟨hplace, -, hfull, hchildren⟩, -⟩ := Option.ite_none_right_eq_some.mp h
  unfold State.excess
  rw [hplace, hchildren]
  show 1 ≤ s.activeRequests - 0 - 1
  omega

/-! ## The bound -/

/-- Above the limit `Run` does not leave the loop around `wait`. -/
structure Inv (max : Int) (s : State) : Prop where
  counted : 0 ≤ s.excess
  bounded : s.activeRequests ≤ if s.place = .limit then max + 1 else max

theorem inv_init (hmax : 1 ≤ max) : Inv max .init := by
  refine ⟨by decide, ?_⟩
  show (0 : Int) ≤ max
  omega

theorem bounded_step (h : next max s e s')
    (hs : s.activeRequests ≤ if s.place = .limit then max + 1 else max) :
    s'.activeRequests ≤ if s'.place = .limit then max + 1 else max := by
  unfold next at h
  cases e with
  | reload ok =>
    obtain ⟨⟨hplace, -⟩, ⟨⟩⟩ := Option.ite_none_right_eq_some.mp h
    cases ok with
    | false => simpa [hplace] using hs
    | true => exact hs
  | accept =>
    obtain ⟨⟨hplace, -⟩, ⟨⟩⟩ := Option.ite_none_right_eq_some.mp h
    simp [hplace] at hs ⊢
    omega
  | enough =>
    obtain ⟨⟨-, -, hroom⟩, ⟨⟩⟩ := Option.ite_none_right_eq_some.mp h
    simpa using hroom
  | wait found =>
    cases found with
    | false =>
      obtain ⟨⟨hplace, -⟩, ⟨⟩⟩ := Option.ite_none_right_eq_some.mp h
      simp [hplace] at hs ⊢
      omega
    | true =>
      obtain ⟨⟨hplace, -⟩, ⟨⟩⟩ := Option.ite_none_right_eq_some.mp h
      simp [hplace] at hs ⊢
      omega
  | fork ok =>
    obtain ⟨⟨hplace, -⟩, ⟨⟩⟩ := Option.ite_none_right_eq_some.mp h
    simpa [hplace] using hs
  | exit =>
    obtain ⟨-, ⟨⟩⟩ := Option.ite_none_right_eq_some.mp h
    exact hs
  | signal =>
    obtain ⟨-, ⟨⟩⟩ := Option.ite_none_right_eq_some.mp h
    exact hs
  | reap =>
    obtain ⟨-, ⟨⟩⟩ := Option.ite_none_right_eq_some.mp h
    exact hs
  | handled =>
    obtain ⟨-, ⟨⟩⟩ := Option.ite_none_right_eq_some.mp h
    exact hs

theorem inv_step (hmax : 1 ≤ max) (hs : Inv max s) (h : next max s e s') : Inv max s' := by
  refine ⟨?_, bounded_step h hs.bounded⟩
  have hcounted := hs.counted
  rw [excess_step h]
  by_cases hwait : e = .wait false
  · subst hwait
    have := excess_wait hmax h
    simp only [Event.uncounted]
    omega
  · have : 0 ≤ e.uncounted := by
      unfold Event.uncounted
      split
      · decide
      · decide
      · exact absurd rfl hwait
      · decide
    omega

theorem inv_keeps (hmax : 1 ≤ max) : Run.Keeps (next max) (fun _ => True) (Inv max) :=
  fun _ _ _ _ hs h => inv_step hmax hs h

theorem inv_run (hmax : 1 ≤ max) {l : List Event} (h : Run (next max) .init l s) : Inv max s :=
  Run.invariant (inv_keeps hmax) h (fun _ _ => trivial) (inv_init hmax)

theorem Inv.children_le (h : Inv max s) :
    (s.children : Int) ≤ s.activeRequests ∧ (s.children : Int) ≤ max := by
  obtain ⟨hcounted, hbounded⟩ := h
  unfold State.excess at hcounted
  cases hplace : s.place with
  | select | ended =>
    rw [hplace] at hcounted hbounded
    simp [Place.pending] at hcounted hbounded
    omega
  | limit | fork =>
    rw [hplace] at hcounted hbounded
    simp [Place.pending] at hcounted hbounded
    omega

/-- **The children that are not reaped never exceed `active_requests`, nor the
limit**, in any state of a run, behind every `fork` in particular. -/
theorem children_le_active (hmax : 1 ≤ max) {l : List Event} (h : Run (next max) .init l s) :
    (s.children : Int) ≤ s.activeRequests ∧ (s.children : Int) ≤ max := (inv_run hmax h).children_le

/-- Two connections with room for one: the second one waits for the first child. -/
def oneByOne : List Event :=
  [.accept, .enough, .fork true, .accept, .exit, .wait true, .signal, .handled, .enough, .fork true]

theorem oneByOne_run : Run (next 1) .init oneByOne ⟨.select, 1, 1, 0, false, false⟩ :=
  Run.of_eval (by decide)

theorem children_le_active_oneByOne :
    ((⟨.select, 1, 1, 0, false, false⟩ : State).children : Int) ≤ 1 ∧
      ((⟨.select, 1, 1, 0, false, false⟩ : State).children : Int) ≤ 1 :=
  children_le_active (by decide) oneByOne_run

/-- The counter stays an `int`: the next connection can be counted. -/
theorem accept_defined (hmax : 1 ≤ max) (hint : max < 2 ^ 31 - 1) {l : List Event}
    (h : Run (next max) .init l s) (hplace : s.place = .select) :
    s.activeRequests + 1 < 2 ^ 31 := by
  have hbounded := (inv_run hmax h).bounded
  simp [hplace] at hbounded
  omega

/-! ## The capacity -/

/-- The loop stands in `wait`, and no child is there to be reaped. -/
def Blocked (max : Int) (s : State) : Prop :=
  s.place = .limit ∧ max < s.activeRequests ∧ s.handling = false ∧ s.zombies = 0 ∧ 0 < s.live

instance (max : Int) (s : State) : Decidable (Blocked max s) := by
  unfold Blocked
  infer_instance

/-- The counter counts the children and the connection at hand, so that the
loop waits only while the limit of children is alive. -/
structure Capacity (max : Int) (s : State) : Prop where
  counted : s.activeRequests = s.children + s.place.pending
  blocked : Blocked max s → s.live = max

theorem capacity_of_excess (hs : Inv max s) : Capacity max s ↔ s.excess = 0 := by
  refine ⟨fun h => ?_, fun h => ⟨?_, fun hblocked => ?_⟩⟩
  · have := h.counted
    unfold State.excess
    omega
  · unfold State.excess at h
    omega
  · obtain ⟨hplace, hfull, -, hzombies, -⟩ := hblocked
    have hbounded := hs.bounded
    unfold State.excess State.children at h
    simp [hplace, hzombies, Place.pending] at h hbounded
    omega

/-- The event takes off what it should. -/
def Event.Counted (e : Event) : Prop := e ≠ .reap ∧ e ≠ .fork false

instance (e : Event) : Decidable e.Counted := by
  unfold Event.Counted
  infer_instance

theorem capacity_step (hmax : 1 ≤ max) (hs : Inv max s) (hcap : Capacity max s)
    (h : next max s e s') : Capacity max s' ↔ e.Counted := by
  rw [capacity_of_excess hs] at hcap
  rw [capacity_of_excess (inv_step hmax hs h), excess_step h, hcap]
  unfold Event.Counted Event.uncounted
  split
  · simp
  · simp
  · have := excess_wait hmax h
    omega
  · next hreap hfork _ => exact iff_of_true rfl ⟨hreap, hfork⟩

/-- **No capacity is lost exactly in the runs in which `wait` reaps every
child and every `fork` succeeds.** -/
theorem capacity_iff (hmax : 1 ≤ max) {l : List Event} (h : Run (next max) .init l s) :
    Run.Always (next max) (Capacity max) .init l ↔ ∀ e ∈ l, e.Counted :=
  Run.always_iff (inv_keeps hmax) (fun _ _ _ hs hcap hstep => capacity_step hmax hs hcap hstep) h
    (inv_init hmax) ((capacity_of_excess (inv_init hmax)).mpr rfl)

theorem capacity_oneByOne : Run.Always (next 1) (Capacity 1) .init oneByOne :=
  (capacity_iff (by decide) oneByOne_run).mpr (by decide)

/-- Room for two. The handler reaps the first child, and at the third
connection the loop waits with only one child alive. -/
def lostChild : List Event :=
  [.accept, .enough, .fork true, .exit, .signal, .reap, .handled, .accept, .enough, .fork true,
    .accept]

theorem lostChild_run : Run (next 2) .init lostChild ⟨.limit, 3, 1, 0, false, false⟩ :=
  Run.of_eval (by decide)

theorem capacity_lost : Blocked 2 ⟨.limit, 3, 1, 0, false, false⟩ ∧
    ¬ ∀ (max : Int) (l : List Event) (s : State), 1 ≤ max → Run (next max) .init l s →
      Run.Always (next max) (Capacity max) .init l := by
  have hblocked : Blocked 2 ⟨.limit, 3, 1, 0, false, false⟩ := by decide
  refine ⟨hblocked, fun h => ?_⟩
  have hcap := h 2 lostChild _ (by decide) lostChild_run lostChild [] _ rfl lostChild_run
  have hlive := hcap.blocked hblocked
  exact absurd hlive (by decide)

end Voms.L5.Children
