import Mathlib.Data.List.Basic

/-!
# Computations that may refuse or leave defined behaviour

A C or C++ function that checks its input either produces a value, returns
an error code, or performs an access the language does not define (a NULL
dereference, a union member other than the one last stored, an index past
the end). `Res ε α` keeps the three apart, so that "never dereferences
NULL" is a statement about the function and not an assumption of the model.

* `Res.bind_eq_ok`: a sequence succeeds exactly when every part does.
* `Res.never_bind`: a sequence is free of a class of faults exactly when
  its first part is and, for every value that part can hand on, the rest is.
-/
namespace Voms.Core

/-- Why an execution has no defined continuation. -/
inductive Fault where
  | nullDeref    -- a NULL pointer is dereferenced, compared or copied
  | badChoice    -- a union member other than the one its tag names is read
  | uninit       -- a local variable is read before it is assigned
  | outOfRange   -- an array or vector is indexed outside its bounds
  | diverge      -- the loop never ends
  deriving DecidableEq, Repr

inductive Res (ε α : Type) where
  | ok (a : α)
  | err (e : ε)
  | fault (f : Fault)
  deriving DecidableEq, Repr

/-- A computation that has no error code, only undefined behaviour. -/
abbrev Eval := Res Empty

theorem evalCases {α : Type} (x : Eval α) : (∃ a, x = .ok a) ∨ ∃ f, x = .fault f := by
  cases x with
  | ok a => exact Or.inl ⟨a, rfl⟩
  | err e => exact e.elim
  | fault f => exact Or.inr ⟨f, rfl⟩

namespace Res

variable {ε ε' α β γ : Type}

def bind (x : Res ε α) (f : α → Res ε β) : Res ε β :=
  match x with
  | .ok a => f a
  | .err e => .err e
  | .fault b => .fault b

instance : Monad (Res ε) where
  pure := Res.ok
  bind := Res.bind

@[simp] theorem pure_eq (a : α) : (pure a : Res ε α) = .ok a := rfl
@[simp] theorem ok_bind (a : α) (f : α → Res ε β) : (Res.ok a >>= f) = f a := rfl
@[simp] theorem err_bind (e : ε) (f : α → Res ε β) : ((.err e : Res ε α) >>= f) = .err e := rfl
@[simp] theorem fault_bind (b : Fault) (f : α → Res ε β) :
    ((.fault b : Res ε α) >>= f) = .fault b := rfl

instance : LawfulMonad (Res ε) :=
  LawfulMonad.mk' _ (fun x => by cases x <;> rfl) (fun _ _ => rfl) (fun x _ _ => by cases x <;> rfl)

theorem bind_eq_ok {x : Res ε α} {f : α → Res ε β} {b : β} :
    (x >>= f) = .ok b ↔ ∃ a, x = .ok a ∧ f a = .ok b := by
  cases x <;> simp

/-- An error is that of the first part that does not go on. -/
theorem bind_eq_err {x : Res ε α} {f : α → Res ε β} {e : ε} :
    (x >>= f) = .err e ↔ x = .err e ∨ ∃ a, x = .ok a ∧ f a = .err e := by
  cases x <;> simp

/-- The same for a step whose value is not used. -/
theorem then_eq_ok {x : Res ε Unit} {f : Unit → Res ε β} {b : β} :
    (x >>= f) = .ok b ↔ x = .ok () ∧ f () = .ok b := by
  cases x <;> simp

/-- Is there a value? -/
def isOk : Res ε α → Bool
  | .ok _ => true
  | _ => false

theorem isOk_iff {x : Res ε α} : x.isOk = true ↔ ∃ a, x = .ok a := by
  cases x <;> simp [isOk]

/-- The error code is the caller's own; what was computed is kept. -/
def mapErr (g : ε → ε') : Res ε α → Res ε' α
  | .ok a => .ok a
  | .err e => .err (g e)
  | .fault b => .fault b

@[simp] theorem mapErr_eq_ok {g : ε → ε'} {x : Res ε α} {a : α} :
    x.mapErr g = .ok a ↔ x = .ok a := by cases x <;> simp [mapErr]

@[simp] theorem mapErr_eq_fault {g : ε → ε'} {x : Res ε α} {b : Fault} :
    x.mapErr g = .fault b ↔ x = .fault b := by cases x <;> simp [mapErr]

/-! ## Single steps -/

/-- `*p`. -/
def deref : Option α → Res ε α
  | some a => .ok a
  | none => .fault .nullDeref

@[simp] theorem deref_some (a : α) : (deref (some a) : Res ε α) = .ok a := rfl
@[simp] theorem deref_none : (deref (none : Option α) : Res ε α) = .fault .nullDeref := rfl

theorem deref_eq_ok {p : Option α} {a : α} : (deref p : Res ε α) = .ok a ↔ p = some a := by
  cases p <;> simp

/-- `if (!c) return e;` -/
def guard (c : Prop) [Decidable c] (e : ε) : Res ε Unit := if c then .ok () else .err e

/-- `if (c) { … }`. -/
def when (c : Prop) [Decidable c] (x : Res ε Unit) : Res ε Unit := if c then x else .ok ()

/-- `if (!p) return e;` for a pointer that is used afterwards. -/
def require (e : ε) : Option α → Res ε α
  | some a => .ok a
  | none => .err e

@[simp] theorem require_some (e : ε) (a : α) : require e (some a) = .ok a := rfl
@[simp] theorem require_none (e : ε) : require e (none : Option α) = .err e := rfl

@[simp] theorem guard_eq_ok {c : Prop} [Decidable c] {e : ε} {u : Unit} :
    guard c e = .ok u ↔ c := by
  unfold guard; split <;> simp [*]

@[simp] theorem guard_eq_err {c : Prop} [Decidable c] {e e' : ε} :
    guard c e = .err e' ↔ ¬ c ∧ e = e' := by
  unfold guard; split <;> simp [*]

theorem guard_pos {c : Prop} [Decidable c] {e : ε} (h : c) : guard c e = .ok () := by
  simp [guard, h]

theorem guard_neg {c : Prop} [Decidable c] {e : ε} (h : ¬ c) : guard c e = .err e := by
  simp [guard, h]

theorem require_eq_ok {e : ε} {p : Option α} {a : α} : require e p = .ok a ↔ p = some a := by
  cases p <;> simp

@[simp] theorem when_eq_ok {c : Prop} [Decidable c] {x : Res ε Unit} {u : Unit} :
    when c x = .ok u ↔ (c → x = .ok ()) := by
  unfold when; split <;> simp [*]

@[simp] theorem when_eq_err {c : Prop} [Decidable c] {x : Res ε Unit} {e : ε} :
    when c x = .err e ↔ c ∧ x = .err e := by
  unfold when; split <;> simp [*]

theorem when_pos {c : Prop} [Decidable c] {x : Res ε Unit} (h : c) : when c x = x := if_pos h

/-! ## Freedom from a class of faults -/

/-- No fault of class `p` occurs. -/
def Never (p : Fault → Prop) (x : Res ε α) : Prop := ∀ b, x = .fault b → ¬ p b

variable {p : Fault → Prop}

@[simp] theorem never_ok (a : α) : Never p (.ok a : Res ε α) := by simp [Never]
@[simp] theorem never_err (e : ε) : Never p (.err e : Res ε α) := by simp [Never]
@[simp] theorem never_fault {b : Fault} : Never p (.fault b : Res ε α) ↔ ¬ p b := by
  simp [Never]

@[simp] theorem never_guard {c : Prop} [Decidable c] {e : ε} : Never p (guard c e) := by
  unfold guard; split <;> simp

@[simp] theorem never_require {e : ε} {q : Option α} : Never p (require e q) := by
  cases q <;> simp

@[simp] theorem never_mapErr {g : ε → ε'} {x : Res ε α} : Never p (x.mapErr g) ↔ Never p x := by
  cases x <;> simp [mapErr]

@[simp] theorem never_when {c : Prop} [Decidable c] {x : Res ε Unit} :
    Never p (when c x) ↔ (c → Never p x) := by
  unfold when; split <;> simp [*]

/-- The sequencing rule, in both directions. -/
theorem never_bind {x : Res ε α} {f : α → Res ε β} :
    Never p (x >>= f) ↔ Never p x ∧ ∀ a, x = .ok a → Never p (f a) := by
  cases x <;> simp

theorem never_deref {q : Option α} (h : p .nullDeref) :
    Never p (deref q : Res ε α) ↔ q ≠ none := by
  cases q <;> simp [h]

theorem never_ite {c : Prop} [Decidable c] {x y : Res ε α} :
    Never p (if c then x else y) ↔ (c → Never p x) ∧ (¬ c → Never p y) := by
  split <;> simp [*]

end Res

end Voms.Core
