import Mathlib.Logic.Function.Basic
import Voms.Core.Run

/-!
# The private data of the `vomsdata` objects

The credentials of an object are not in the object: they are in an
`internal` that the global map `privatedata` finds by the address of the
object (`src/api/ccapi/voms_api.cc`). A run is an order of constructions,
copies and destructions of objects, on their own or through the C handles,
and of `LoadCredentials` and `contact` on objects that live. The events carry
the addresses that the allocator hands out: any one that is free, that of an
object that is gone included. Memory does not run out.

* `Consistent`: what every run keeps: no destroyed object leaves an entry
  behind, and no two entries share an `internal`.
* `proper_iff`: every live object has an entry of its own in every state,
  `LoadCredentials` never meets what it calls impossible and `contact` never
  dereferences a missing entry, exactly if no object is copied.
-/
namespace Voms.L4.PrivateData

open Voms.Core

/-- mirrors src/api/ccapi/internal.h:21-29 -/
structure Internal (Cert Key : Type) where
  cert : Option Cert
  key : Option Key
  chain : Option (List Cert)
  deriving DecidableEq, Repr

/-- mirrors src/api/ccapi/internal.cc:24-26 -/
def Internal.fresh {Cert Key : Type} : Internal Cert Key := ⟨none, none, none⟩

/-- Who destroys an object: the program, or the handle whose `real` it is. -/
inductive Owner (Handle : Type) where
  | program
  | handle (vd : Handle)
  deriving DecidableEq, Repr

/-- `owner` tells which addresses hold an object, `real` which handles live,
`internals` the values that `new` made. An entry of `privatedata` may be NULL.
`impossible` records that `LoadCredentials` met a NULL, `crashed` that a
pointer was dereferenced behind which is nothing. -/
structure State (Addr Ptr Handle Cert Key : Type) where
  owner : Addr → Option (Owner Handle)
  real : Handle → Option Addr
  privatedata : Addr → Option (Option Ptr)
  internals : Ptr → Option (Internal Cert Key)
  impossible : Bool
  crashed : Bool

variable {Addr Ptr Handle Cert Key : Type}

def State.init : State Addr Ptr Handle Cert Key :=
  ⟨fun _ => none, fun _ => none, fun _ => none, fun _ => none, false, false⟩

inductive Event (Addr Ptr Handle Cert Key : Type) where
  | construct (this : Addr) (data : Ptr)
  | copy (orig this : Addr)
  | destroy (this : Addr)
  | vomsInit (vd : Handle) (this : Addr) (data : Ptr)
  | vomsDuplicate (orig vd : Handle) (this : Addr)
  | vomsDestroy (vd : Handle)
  | loadCredentials (this : Addr) (cert : Option Cert) (pkey : Option Key)
      (chain : Option (List Cert))
  | contact (this : Addr) (files : Option (Cert × Option (List Cert) × Key))

/-! ## The entries -/

/-- No destroyed object leaves an entry behind, no two entries share a value,
and no entry points to one that is deleted. -/
structure Entries (s : State Addr Ptr Handle Cert Key) : Prop where
  gone : ∀ a, s.owner a = none → s.privatedata a = none
  own : ∀ a b p, s.privatedata a = some (some p) → s.privatedata b = some (some p) → a = b
  held : ∀ a p, s.privatedata a = some (some p) → (s.internals p).isSome

/-- Every live object has an entry that is not NULL. -/
def Registered (s : State Addr Ptr Handle Cert Key) : Prop :=
  ∀ a, (s.owner a).isSome → ∃ p, s.privatedata a = some (some p)

/-- What every step keeps. The handles point to the objects they own. -/
structure Consistent (s : State Addr Ptr Handle Cert Key) : Prop where
  entries : Entries s
  handles : ∀ vd a, s.real vd = some a ↔ s.owner a = some (.handle vd)

theorem consistent_init : Consistent (State.init : State Addr Ptr Handle Cert Key) :=
  ⟨⟨fun _ _ => rfl, nofun, nofun⟩, fun _ _ => ⟨nofun, nofun⟩⟩

/-- What the library takes for granted. -/
structure Proper (s : State Addr Ptr Handle Cert Key) : Prop where
  registered : Registered s
  entries : Entries s
  possible : s.impossible = false
  sound : s.crashed = false

theorem proper_init : Proper (State.init : State Addr Ptr Handle Cert Key) :=
  ⟨nofun, consistent_init.entries, rfl, rfl⟩

section
variable [DecidableEq Addr]

open Function (update)

/-- The copy constructor copies the fields of the object and leaves the map alone.
mirrors src/api/ccapi/voms_api.cc:917-933 -/
def State.copied (s : State Addr Ptr Handle Cert Key) (this : Addr) (o : Owner Handle) :
    State Addr Ptr Handle Cert Key :=
  { s with owner := update s.owner this (some o) }

/-- `privatedata[this]`: a missing entry is made, and is NULL. -/
def State.lookup (s : State Addr Ptr Handle Cert Key) (this : Addr) :
    Option Ptr × State Addr Ptr Handle Cert Key :=
  match s.privatedata this with
  | some data => (data, s)
  | none => (none, { s with privatedata := update s.privatedata this (some none) })

variable {s : State Addr Ptr Handle Cert Key} {this : Addr} {o : Owner Handle}

theorem Entries.copied (h : Entries s) : Entries (s.copied this o) := by
  refine ⟨fun a ha => ?_, h.own, h.held⟩
  simp only [State.copied, Function.update_apply] at ha
  split at ha
  · cases ha
  · exact h.gone a ha

/-- The copy has no entry. -/
theorem not_registered_copied (h : Entries s) (hthis : s.owner this = none) :
    ¬ Registered (s.copied this o) := by
  intro hreg
  obtain ⟨p, hp⟩ := hreg this (by simp [State.copied])
  have hentry : s.privatedata this = some (some p) := hp
  rw [h.gone this hthis] at hentry
  cases hentry

/-- A lookup that finds nothing adds a NULL, which is nobody's value. -/
theorem Entries.lookup (h : Entries s) (hthis : (s.owner this).isSome) :
    Entries (s.lookup this).2 := by
  unfold State.lookup
  split
  · exact h
  · refine ⟨fun a ha => ?_, fun a b p ha hb => ?_, fun a p ha => ?_⟩
    · have hne : a ≠ this := by
        rintro rfl
        rw [ha] at hthis
        cases hthis
      simpa [Function.update_apply, hne] using h.gone a ha
    · simp only [Function.update_apply] at ha hb
      split at ha
      · cases ha
      · split at hb
        · cases hb
        · exact h.own a b p ha hb
    · simp only [Function.update_apply] at ha
      split at ha
      · cases ha
      · exact h.held a p ha

/-- Where the object is registered, the lookup changes nothing. -/
theorem lookup_registered {p : Ptr} (hp : s.privatedata this = some (some p)) :
    s.lookup this = (some p, s) := by
  simp [State.lookup, hp]

theorem lookup_frame (s : State Addr Ptr Handle Cert Key) (this : Addr) :
    (s.lookup this).2.owner = s.owner ∧ (s.lookup this).2.real = s.real := by
  unfold State.lookup
  split <;> exact ⟨rfl, rfl⟩

/-- The credentials `contact` takes up: those loaded, or else what
`load_credentials` finds in the files (none if it finds nothing), by the value
the entry points to. Without one it dereferences NULL.
mirrors src/api/ccapi/api_util.cc:775-794 -/
def State.contact (files : Option (Cert × Option (List Cert) × Key))
    (s : State Addr Ptr Handle Cert Key) (this : Addr) :
    Option (Cert × Option (List Cert) × Key) × State Addr Ptr Handle Cert Key :=
  match s.lookup this with
  | (none, s) => (none, { s with crashed := true })
  | (some p, s) =>
    match s.internals p with
    | none => (none, { s with crashed := true })
    | some data =>
      match data.cert, data.key with
      | some ucert, some upkey => (some (ucert, data.chain, upkey), s)
      | _, _ => (files, s)

theorem Entries.contact (h : Entries s) (hthis : (s.owner this).isSome)
    (files : Option (Cert × Option (List Cert) × Key)) : Entries (s.contact files this).2 := by
  have hlook := h.lookup hthis
  unfold State.contact
  split
  · next heq =>
    rw [heq] at hlook
    exact ⟨hlook.gone, hlook.own, hlook.held⟩
  · next heq =>
    rw [heq] at hlook
    split
    · exact ⟨hlook.gone, hlook.own, hlook.held⟩
    · split <;> exact hlook

theorem contact_frame (s : State Addr Ptr Handle Cert Key) (this : Addr)
    (files : Option (Cert × Option (List Cert) × Key)) :
    (s.contact files this).2.owner = s.owner ∧ (s.contact files this).2.real = s.real := by
  have hlook := lookup_frame s this
  unfold State.contact
  split
  · next heq => rwa [heq] at hlook
  · next heq =>
    rw [heq] at hlook
    split
    · exact hlook
    · split <;> exact hlook

/-- With an entry, `contact` leaves everything as it is. -/
theorem contact_registered (h : Entries s) {p : Ptr} (hp : s.privatedata this = some (some p))
    (files : Option (Cert × Option (List Cert) × Key)) : (s.contact files this).2 = s := by
  obtain ⟨data, hdata⟩ := Option.isSome_iff_exists.mp (h.held this p hp)
  simp only [State.contact, lookup_registered hp, hdata]
  split <;> rfl

/-- A new object, which its owner knows. -/
theorem handles_new [DecidableEq Handle] {vd : Handle} (hthis : s.owner this = none)
    (h : ∀ vd a, s.real vd = some a ↔ s.owner a = some (.handle vd)) (hvd : s.real vd = none)
    (vd' : Handle) (a : Addr) : Function.update s.real vd (some this) vd' = some a ↔
      Function.update s.owner this (some (.handle vd)) a = some (.handle vd') := by
  simp only [Function.update_apply]
  by_cases hv : vd' = vd <;> by_cases ha : a = this
  · simp [hv, ha]
  · have hold := h vd a
    rw [hvd] at hold
    simp [hv, ha, ← hold, Ne.symm ha]
  · have hold := h vd' this
    rw [hthis] at hold
    simp [hv, ha, hold, Ne.symm hv]
  · simpa [hv, ha] using h vd' a

/-- A new object that no handle owns. -/
theorem handles_program (hthis : s.owner this = none)
    (h : ∀ vd a, s.real vd = some a ↔ s.owner a = some (.handle vd)) (vd : Handle) (a : Addr) :
    s.real vd = some a ↔
      Function.update s.owner this (some .program) a = some (.handle vd) := by
  rw [h vd a, Function.update_apply]
  split
  · next ha => simp [ha, hthis]
  · rfl

variable [DecidableEq Ptr] {data : Ptr}

/-- mirrors src/api/ccapi/voms_api.cc:166-169 -/
def State.constructed (s : State Addr Ptr Handle Cert Key) (this : Addr) (data : Ptr)
    (o : Owner Handle) : State Addr Ptr Handle Cert Key :=
  { s with
    owner := update s.owner this (some o)
    internals := update s.internals data (some .fresh)
    privatedata := update s.privatedata this (some (some data)) }

/-- `delete data`, where NULL is allowed. -/
def State.deleted (s : State Addr Ptr Handle Cert Key) (data : Option Ptr) :
    State Addr Ptr Handle Cert Key :=
  match data with
  | none => s
  | some p => { s with internals := update s.internals p none }

/-- mirrors src/api/ccapi/voms_api.cc:173-181 -/
def State.destroyed (s : State Addr Ptr Handle Cert Key) (this : Addr) :
    State Addr Ptr Handle Cert Key :=
  let looked := s.lookup this
  let erased := { looked.2 with
    privatedata := update looked.2.privatedata this none
    owner := update looked.2.owner this none }
  erased.deleted looked.1

/-- What `LoadCredentials` does to the value it finds. A copy that fails
empties it.
mirrors src/api/ccapi/voms_api.cc:992-1032 -/
def Internal.load (x509Dup : Cert → Option Cert) (pkeyDup : Key → Option Key)
    (data : Internal Cert Key) (cert : Option Cert) (pkey : Option Key)
    (chain : Option (List Cert)) : Bool × Internal Cert Key :=
  let new : Internal Cert Key :=
    { cert := if cert.isSome then cert.bind x509Dup else data.cert
      key := if pkey.isSome then pkey.bind pkeyDup else data.key
      chain := if chain.isSome then chain.bind (·.mapM x509Dup) else data.chain }
  if cert.isSome ∧ new.cert.isNone ∨ pkey.isSome ∧ new.key.isNone ∨
      chain.isSome ∧ new.chain.isNone then
    (false, .fresh)
  else (true, new)

/-- mirrors src/api/ccapi/voms_api.cc:980-1032 -/
def State.loadCredentials (x509Dup : Cert → Option Cert) (pkeyDup : Key → Option Key)
    (s : State Addr Ptr Handle Cert Key) (this : Addr) (cert : Option Cert) (pkey : Option Key)
    (chain : Option (List Cert)) : Bool × State Addr Ptr Handle Cert Key :=
  match s.lookup this with
  | (none, s) => (false, { s with impossible := true })
  | (some p, s) =>
    match s.internals p with
    | none => (false, { s with crashed := true })
    | some data =>
      let loaded := data.load x509Dup pkeyDup cert pkey chain
      (loaded.1, { s with internals := update s.internals p (some loaded.2) })

theorem Entries.constructed (h : Entries s) (hdata : s.internals data = none) :
    Entries (s.constructed this data o) := by
  have hfresh : ∀ a p, s.privatedata a = some (some p) → p ≠ data := by
    rintro a p ha rfl
    simpa [hdata] using h.held a p ha
  refine ⟨fun a ha => ?_, fun a b p ha hb => ?_, fun a p ha => ?_⟩
  · simp only [State.constructed, Function.update_apply] at ha ⊢
    split at ha
    · cases ha
    · next hne => rw [if_neg hne, h.gone a ha]
  · simp only [State.constructed, Function.update_apply] at ha hb
    split at ha <;> split at hb
    · next hat hbt => rw [hat, hbt]
    · cases ha
      exact absurd rfl (hfresh b data hb)
    · cases hb
      exact absurd rfl (hfresh a data ha)
    · exact h.own a b p ha hb
  · simp only [State.constructed, Function.update_apply] at ha ⊢
    split
    · rfl
    · next hne =>
      split at ha
      · cases ha
        exact absurd rfl hne
      · exact h.held a p ha

theorem Registered.constructed (h : Registered s) : Registered (s.constructed this data o) := by
  intro a ha
  simp only [State.constructed, Function.update_apply] at ha ⊢
  split at ha
  · next hat => exact ⟨data, by rw [if_pos hat]⟩
  · next hne =>
    rw [if_neg hne]
    exact h a ha

theorem destroyed_owner (a : Addr) :
    (s.destroyed this).owner a = if a = this then none else s.owner a := by
  unfold State.destroyed State.deleted State.lookup
  cases s.privatedata this with
  | none => simp [Function.update_apply]
  | some data => cases data <;> simp [Function.update_apply]

theorem destroyed_privatedata (a : Addr) :
    (s.destroyed this).privatedata a = if a = this then none else s.privatedata a := by
  unfold State.destroyed State.deleted State.lookup
  cases s.privatedata this with
  | none =>
    simp only [Function.update_apply]
    split <;> rfl
  | some data => cases data <;> simp [Function.update_apply]

/-- The value of another object stays. -/
theorem destroyed_internals {p : Ptr} (hp : s.privatedata this ≠ some (some p)) :
    (s.destroyed this).internals p = s.internals p := by
  unfold State.destroyed State.deleted State.lookup
  cases hpriv : s.privatedata this with
  | none => rfl
  | some data =>
    cases data with
    | none => rfl
    | some q =>
      have hne : p ≠ q := by
        rintro rfl
        exact hp hpriv
      simp [hne]

@[simp] theorem destroyed_flags :
    (s.destroyed this).impossible = s.impossible ∧ (s.destroyed this).crashed = s.crashed ∧
      (s.destroyed this).real = s.real := by
  unfold State.destroyed State.deleted State.lookup
  cases s.privatedata this with
  | none => exact ⟨rfl, rfl, rfl⟩
  | some data => cases data <;> exact ⟨rfl, rfl, rfl⟩

/-- An object that no handle owns is gone. -/
theorem handles_gone (hthis : s.owner this = some .program)
    (h : ∀ vd a, s.real vd = some a ↔ s.owner a = some (.handle vd)) (vd : Handle) (a : Addr) :
    (s.destroyed this).real vd = some a ↔ (s.destroyed this).owner a = some (.handle vd) := by
  rw [destroyed_flags.2.2, destroyed_owner, h vd a]
  split
  · next ha => simp [ha, hthis]
  · rfl

/-- An object is gone, and its owner's handle with it. -/
theorem handles_destroyed [DecidableEq Handle] {vd : Handle} (hvd : s.real vd = some this)
    (h : ∀ vd a, s.real vd = some a ↔ s.owner a = some (.handle vd)) (vd' : Handle) (a : Addr) :
    Function.update s.real vd none vd' = some a ↔
      (s.destroyed this).owner a = some (.handle vd') := by
  simp only [destroyed_owner, Function.update_apply]
  have hown := (h vd this).mp hvd
  by_cases hv : vd' = vd <;> by_cases ha : a = this
  · simp [hv, ha]
  · have hold := h vd a
    rw [hvd] at hold
    simp [hv, ha, ← hold, Ne.symm ha]
  · have hold := h vd' this
    rw [hown] at hold
    simp [hv, ha, hold, Ne.symm hv]
  · simpa [hv, ha] using h vd' a

theorem Entries.destroyed (h : Entries s) : Entries (s.destroyed this) := by
  refine ⟨fun a ha => ?_, fun a b p ha hb => ?_, fun a p ha => ?_⟩
  · rw [destroyed_owner] at ha
    rw [destroyed_privatedata]
    split at ha
    · next hat => rw [if_pos hat]
    · next hne => rw [if_neg hne, h.gone a ha]
  · rw [destroyed_privatedata] at ha hb
    split at ha
    · cases ha
    · split at hb
      · cases hb
      · exact h.own a b p ha hb
  · rw [destroyed_privatedata] at ha
    split at ha
    · cases ha
    · next hne =>
      rw [destroyed_internals fun hthis => hne (h.own a this p ha hthis)]
      exact h.held a p ha

theorem Registered.destroyed (h : Registered s) : Registered (s.destroyed this) := by
  intro a ha
  rw [destroyed_owner] at ha
  rw [destroyed_privatedata]
  split at ha
  · cases ha
  · next hne =>
    rw [if_neg hne]
    exact h a ha

theorem Entries.loadCredentials (h : Entries s) (hthis : (s.owner this).isSome)
    (x509Dup : Cert → Option Cert) (pkeyDup : Key → Option Key) (cert : Option Cert)
    (pkey : Option Key) (chain : Option (List Cert)) :
    Entries (s.loadCredentials x509Dup pkeyDup this cert pkey chain).2 := by
  have hlook := h.lookup hthis
  unfold State.loadCredentials
  split
  · next heq =>
    rw [heq] at hlook
    exact ⟨hlook.gone, hlook.own, hlook.held⟩
  · next p s' heq =>
    rw [heq] at hlook
    split
    · exact ⟨hlook.gone, hlook.own, hlook.held⟩
    · refine ⟨hlook.gone, hlook.own, fun a q ha => ?_⟩
      simp only [Function.update_apply]
      split
      · rfl
      · exact hlook.held a q ha

theorem loadCredentials_frame (s : State Addr Ptr Handle Cert Key) (this : Addr)
    (x509Dup : Cert → Option Cert) (pkeyDup : Key → Option Key)
    (cert : Option Cert) (pkey : Option Key) (chain : Option (List Cert)) :
    (s.loadCredentials x509Dup pkeyDup this cert pkey chain).2.owner = s.owner ∧
      (s.loadCredentials x509Dup pkeyDup this cert pkey chain).2.real = s.real := by
  have hlook := lookup_frame s this
  unfold State.loadCredentials
  split
  · next heq => rwa [heq] at hlook
  · next heq =>
    rw [heq] at hlook
    split <;> exact hlook

/-- With an entry, `LoadCredentials` works on the value of the object. -/
theorem loadCredentials_registered (h : Entries s) {p : Ptr}
    (hp : s.privatedata this = some (some p)) (x509Dup : Cert → Option Cert)
    (pkeyDup : Key → Option Key) (cert : Option Cert) (pkey : Option Key)
    (chain : Option (List Cert)) : ∃ data, s.internals p = some data ∧
      s.loadCredentials x509Dup pkeyDup this cert pkey chain =
        ((data.load x509Dup pkeyDup cert pkey chain).1,
          { s with
            internals := Function.update s.internals p
              (some (data.load x509Dup pkeyDup cert pkey chain).2) }) := by
  obtain ⟨data, hdata⟩ := Option.isSome_iff_exists.mp (h.held this p hp)
  refine ⟨data, hdata, ?_⟩
  simp [State.loadCredentials, lookup_registered hp, hdata]

/-! ## Runs -/

variable [DecidableEq Handle]

/-- The constructors are given free addresses, and the calls live objects; an
object of a handle is destroyed by `VOMS_Destroy` only. After a crash nothing
happens any more.
mirrors src/api/ccapi/cinterface.cc:97-121, 389-400, 880-911 -/
def step (x509Dup : Cert → Option Cert) (pkeyDup : Key → Option Key)
    (s : State Addr Ptr Handle Cert Key) (e : Event Addr Ptr Handle Cert Key) :
    Option (State Addr Ptr Handle Cert Key) :=
  if s.crashed then none else
  match e with
  | .construct this data =>
    if s.owner this = none ∧ (s.internals data).isNone then
      some (s.constructed this data .program)
    else none
  | .copy orig this =>
    if (s.owner orig).isSome ∧ s.owner this = none then some (s.copied this .program) else none
  | .destroy this =>
    if s.owner this = some .program then some (s.destroyed this) else none
  | .vomsInit vd this data =>
    if s.real vd = none ∧ s.owner this = none ∧ (s.internals data).isNone then
      some { s.constructed this data (.handle vd) with real := update s.real vd (some this) }
    else none
  | .vomsDuplicate orig vd this =>
    if (s.real orig).isSome ∧ s.real vd = none ∧ s.owner this = none then
      some { s.copied this (.handle vd) with real := update s.real vd (some this) }
    else none
  | .vomsDestroy vd =>
    (s.real vd).map fun this => { s.destroyed this with real := update s.real vd none }
  | .loadCredentials this cert pkey chain =>
    if (s.owner this).isSome then
      some (s.loadCredentials x509Dup pkeyDup this cert pkey chain).2
    else none
  | .contact this files =>
    if (s.owner this).isSome then some (s.contact files this).2 else none

def next (x509Dup : Cert → Option Cert) (pkeyDup : Key → Option Key)
    (s : State Addr Ptr Handle Cert Key) (e : Event Addr Ptr Handle Cert Key)
    (s' : State Addr Ptr Handle Cert Key) : Prop := step x509Dup pkeyDup s e = some s'

/-- The event copies an object. -/
def Event.Copies : Event Addr Ptr Handle Cert Key → Prop
  | .copy _ _ => True
  | .vomsDuplicate _ _ _ => True
  | _ => False

instance (e : Event Addr Ptr Handle Cert Key) : Decidable e.Copies := by
  unfold Event.Copies
  split <;> infer_instance

variable {x509Dup : Cert → Option Cert} {pkeyDup : Key → Option Key}
  {s' : State Addr Ptr Handle Cert Key} {e : Event Addr Ptr Handle Cert Key}

theorem consistent_step (hs : Consistent s) (h : step x509Dup pkeyDup s e = some s') :
    Consistent s' := by
  obtain ⟨hentries, hhandles⟩ := hs
  unfold step at h
  obtain ⟨-, h⟩ := Option.ite_none_left_eq_some.mp h
  cases e with
  | construct this data =>
    obtain ⟨⟨hthis, hdata⟩, ⟨⟩⟩ := Option.ite_none_right_eq_some.mp h
    exact ⟨hentries.constructed (Option.isNone_iff_eq_none.mp hdata),
      handles_program hthis hhandles⟩
  | copy orig this =>
    obtain ⟨⟨-, hthis⟩, ⟨⟩⟩ := Option.ite_none_right_eq_some.mp h
    exact ⟨hentries.copied, handles_program hthis hhandles⟩
  | destroy this =>
    obtain ⟨hthis, ⟨⟩⟩ := Option.ite_none_right_eq_some.mp h
    exact ⟨hentries.destroyed, handles_gone hthis hhandles⟩
  | vomsInit vd this data =>
    obtain ⟨⟨hvd, hthis, hdata⟩, ⟨⟩⟩ := Option.ite_none_right_eq_some.mp h
    have hnew : Entries (s.constructed this data (.handle vd)) :=
      hentries.constructed (Option.isNone_iff_eq_none.mp hdata)
    exact ⟨⟨hnew.gone, hnew.own, hnew.held⟩, handles_new hthis hhandles hvd⟩
  | vomsDuplicate orig vd this =>
    obtain ⟨⟨-, hvd, hthis⟩, ⟨⟩⟩ := Option.ite_none_right_eq_some.mp h
    have hnew : Entries (s.copied this (.handle vd)) := hentries.copied
    exact ⟨⟨hnew.gone, hnew.own, hnew.held⟩, handles_new hthis hhandles hvd⟩
  | vomsDestroy vd =>
    obtain ⟨this, hvd, ⟨⟩⟩ := Option.map_eq_some_iff.mp h
    have hnew : Entries (s.destroyed this) := hentries.destroyed
    exact ⟨⟨hnew.gone, hnew.own, hnew.held⟩, handles_destroyed hvd hhandles⟩
  | loadCredentials this cert pkey chain =>
    obtain ⟨hthis, ⟨⟩⟩ := Option.ite_none_right_eq_some.mp h
    refine ⟨hentries.loadCredentials hthis x509Dup pkeyDup cert pkey chain, fun vd a => ?_⟩
    obtain ⟨howner, hreal⟩ := loadCredentials_frame s this x509Dup pkeyDup cert pkey chain
    rw [howner, hreal]
    exact hhandles vd a
  | contact this files =>
    obtain ⟨hthis, ⟨⟩⟩ := Option.ite_none_right_eq_some.mp h
    refine ⟨hentries.contact hthis files, fun vd a => ?_⟩
    obtain ⟨howner, hreal⟩ := contact_frame s this files
    rw [howner, hreal]
    exact hhandles vd a

theorem proper_step (hs : Proper s) (h : step x509Dup pkeyDup s e = some s') :
    Proper s' ↔ ¬ e.Copies := by
  obtain ⟨hreg, hentries, hpossible, hsound⟩ := hs
  unfold step at h
  obtain ⟨-, h⟩ := Option.ite_none_left_eq_some.mp h
  cases e with
  | construct this data =>
    obtain ⟨⟨-, hdata⟩, ⟨⟩⟩ := Option.ite_none_right_eq_some.mp h
    exact iff_of_true ⟨hreg.constructed,
      hentries.constructed (Option.isNone_iff_eq_none.mp hdata), hpossible, hsound⟩ nofun
  | copy orig this =>
    obtain ⟨⟨-, hthis⟩, ⟨⟩⟩ := Option.ite_none_right_eq_some.mp h
    exact iff_of_false (fun hproper => not_registered_copied hentries hthis hproper.registered)
      (fun hno => hno trivial)
  | destroy this =>
    obtain ⟨-, ⟨⟩⟩ := Option.ite_none_right_eq_some.mp h
    refine iff_of_true ⟨hreg.destroyed, hentries.destroyed, ?_, ?_⟩ nofun
    · rw [destroyed_flags.1, hpossible]
    · rw [destroyed_flags.2.1, hsound]
  | vomsInit vd this data =>
    obtain ⟨⟨-, -, hdata⟩, ⟨⟩⟩ := Option.ite_none_right_eq_some.mp h
    have hnew : Entries (s.constructed this data (.handle vd)) :=
      hentries.constructed (Option.isNone_iff_eq_none.mp hdata)
    exact iff_of_true ⟨hreg.constructed (o := .handle vd), ⟨hnew.gone, hnew.own, hnew.held⟩,
      hpossible, hsound⟩ nofun
  | vomsDuplicate orig vd this =>
    obtain ⟨⟨-, -, hthis⟩, ⟨⟩⟩ := Option.ite_none_right_eq_some.mp h
    exact iff_of_false (fun hproper => not_registered_copied (o := .handle vd) hentries hthis
      hproper.registered) (fun hno => hno trivial)
  | vomsDestroy vd =>
    obtain ⟨this, -, ⟨⟩⟩ := Option.map_eq_some_iff.mp h
    have hnew : Entries (s.destroyed this) := hentries.destroyed
    refine iff_of_true ⟨hreg.destroyed, ⟨hnew.gone, hnew.own, hnew.held⟩, ?_, ?_⟩
      nofun
    · exact destroyed_flags.1.trans hpossible
    · exact destroyed_flags.2.1.trans hsound
  | loadCredentials this cert pkey chain =>
    obtain ⟨hthis, ⟨⟩⟩ := Option.ite_none_right_eq_some.mp h
    obtain ⟨p, hp⟩ := hreg this hthis
    obtain ⟨data, -, hload⟩ :=
      loadCredentials_registered hentries hp x509Dup pkeyDup cert pkey chain
    have hnew := hentries.loadCredentials hthis x509Dup pkeyDup cert pkey chain
    rw [hload] at hnew ⊢
    exact iff_of_true ⟨hreg, hnew, hpossible, hsound⟩ nofun
  | contact this files =>
    obtain ⟨hthis, ⟨⟩⟩ := Option.ite_none_right_eq_some.mp h
    obtain ⟨p, hp⟩ := hreg this hthis
    rw [contact_registered hentries hp files]
    exact iff_of_true ⟨hreg, hentries, hpossible, hsound⟩ nofun

/-- Also where objects are copied, what is gone leaves nothing behind and the
handles that live point to objects that live. -/
theorem consistent_run {l : List (Event Addr Ptr Handle Cert Key)}
    (h : Run (next x509Dup pkeyDup) .init l s) : Consistent s := by
  have hkeeps : Run.Keeps (next x509Dup pkeyDup) (fun _ => True)
      fun s : State Addr Ptr Handle Cert Key => Consistent s :=
    fun _ _ _ _ hs hstep => consistent_step hs hstep
  exact Run.invariant hkeeps h (fun _ _ => trivial) consistent_init

/-- **The private data is right in every state a run reaches exactly if the
run copies no object**, neither by the copy constructor nor by
`VOMS_Duplicate`. -/
theorem proper_iff (x509Dup : Cert → Option Cert) (pkeyDup : Key → Option Key)
    {l : List (Event Addr Ptr Handle Cert Key)} {s : State Addr Ptr Handle Cert Key}
    (h : Run (next x509Dup pkeyDup) .init l s) :
    Run.Always (next x509Dup pkeyDup) Proper .init l ↔
      ∀ e ∈ l, ¬ e.Copies :=
  Run.always_iff (J := fun _ => True) (fun _ _ _ _ _ _ => trivial)
    (fun _ _ _ _ hs hstep => proper_step hs hstep) h trivial proper_init

end

/-- An address that is used twice, and a handle. -/
def reuse : List (Event Nat Nat Nat Nat Nat) :=
  [.construct 0 0, .loadCredentials 0 (some 7) (some 8) none, .contact 0 none, .destroy 0,
    .vomsInit 0 0 1, .contact 0 none, .vomsDestroy 0]

theorem proper_reuse : Run.Always (next some some) Proper .init reuse := by
  obtain ⟨s, hs⟩ : ∃ s, Run.eval (step some some) reuse .init = some s := ⟨_, rfl⟩
  exact (proper_iff some some (Run.of_eval hs)).mpr (by decide)

/-- `VOMS_Duplicate` leaves the new object without an entry. -/
def duplicated : List (Event Nat Nat Nat Nat Nat) := [.vomsInit 0 0 0, .vomsDuplicate 0 1 1]

/-- On the duplicate `LoadCredentials` meets the impossible, and `contact` a NULL. -/
theorem proper_duplicated :
    ((Run.eval (step some some) (duplicated ++ [.loadCredentials 1 (some 7) (some 8) none])
      .init).map State.impossible) = some true ∧
    ((Run.eval (step some some) (duplicated ++ [.contact 1 none]) .init).map State.crashed) =
      some true ∧
    ¬ ∀ (l : List (Event Nat Nat Nat Nat Nat)) (s : State Nat Nat Nat Nat Nat),
      Run (next some some) .init l s →
        Run.Always (next some some) Proper .init l := by
  refine ⟨by decide, by decide, fun h => ?_⟩
  obtain ⟨s, hs⟩ : ∃ s, Run.eval (step some some) duplicated .init = some s := ⟨_, rfl⟩
  have hrun := Run.of_eval hs
  have hproper := h duplicated s hrun duplicated [] s (List.append_nil _).symm hrun
  obtain ⟨p, hp⟩ := hproper.registered 1 (by cases hs; rfl)
  cases hs
  cases hp

end Voms.L4.PrivateData
