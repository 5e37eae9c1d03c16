import Mathlib.Data.List.Forall2
import Mathlib.Data.List.Perm.Basic

/-!
# Tagged values and the macros that write and read them

An encoded value is a tag and a body, and a body is a string of bytes or a
sequence of encoded values. The writers and readers are the macros of
OpenSSL's `asn1_mac.h`: `put` and `get` for a member that is there, the
tagged ones for a member that may be absent, `putSeq` and `getSeq` for
`SEQUENCE OF`. `sequence` is `M_ASN1_D2I_start_sequence` with
`M_ASN1_D2I_Finish`: what is read must be the whole body.

`Outcome o p b` says that a partial computation gives `b` if `p` holds and
fails if it does not, and `Reads` says it of a reader together with what it
leaves. A `d2i` function is read member by member with the rules of `Reads`:
each reader meets what the matching writer put there (`Reads.get`,
`Reads.tagged`, `Reads.exp`, `Reads.seq`), for a member that may be absent under the
condition that what follows has another tag (`NotNext`). A member written
under one tag and looked for under another is left standing (`Reads.skip`),
and then the sequence fails (`Reads.left`).
-/
namespace Voms.Core.Tlv

/-- The class and the number of a tag, without the constructed bit. -/
inductive Tag where
  | universal (n : Nat)
  | context (n : Nat)
  deriving DecidableEq, Repr

inductive Body where
  | prim (bytes : List UInt8)
  | cons (items : List (Tag × Body))

abbrev Item := Tag × Body

variable {α β : Type} {t t' : Tag} {items rest : List Item}

/-- An `i2d` and `d2i` pair: how a value is written and read below its tag. -/
structure Codec (t : Tag) (α : Type) where
  i2d : α → Body
  d2i : Body → Option α

/-- The value is read back as it was written. -/
def Codec.Keeps (c : Codec t α) (a : α) : Prop := c.d2i (c.i2d a) = some a

/-- The member is there and is read back. -/
def Codec.Has (c : Codec t α) (o : Option α) : Prop := ∃ a, o = some a ∧ c.Keeps a

/-! ## Writing -/

/-- A member below a tag; a NULL one writes nothing. -/
def member (t : Tag) (f : α → Body) (a : Option α) : List Item := (a.map fun a => (t, f a)).toList

/-- `M_ASN1_I2D_put`. -/
abbrev put (c : Codec t α) (a : Option α) : List Item := member t c.i2d a

/-- `M_ASN1_I2D_put_IMP_opt`: the tag written is the one given. -/
abbrev putTagged (t' : Tag) (c : Codec t α) (a : Option α) : List Item := member t' c.i2d a

/-- `M_ASN1_I2D_put_EXP_opt`: the value, under its own tag, inside the one given. -/
abbrev putExp (t' : Tag) (c : Codec t α) (a : Option α) : List Item :=
  member t' (fun a => .cons [(t, c.i2d a)]) a

/-- `M_ASN1_I2D_put_SEQUENCE`. -/
def putSeq (f : α → List Item) (l : Option (List α)) : List Item :=
  (l.map fun l => (.universal 16, .cons (l.flatMap f))).toList

/-- `M_ASN1_I2D_put_SEQUENCE_opt`: an empty stack writes nothing either. -/
def putSeqOpt (f : α → List Item) (l : Option (List α)) : List Item :=
  if l.getD [] = [] then [] else putSeq f l

/-- `M_ASN1_I2D_put_SET_type`: the elements in the order `sort` gives. -/
def putSet (sort : List Item → List Item) (f : α → List Item) (l : Option (List α)) :
    List Item :=
  (l.map fun l => (.universal 17, .cons (sort (l.flatMap f)))).toList

/-! ## Reading -/

/-- What is left of the body, and failure. -/
abbrev Reader (α : Type) := StateT (List Item) Option α

/-- `M_ASN1_D2I_get`. -/
def get (c : Codec t α) : Reader α
  | [] => none
  | (t', b) :: rest => if t' = t then (c.d2i b).map (·, rest) else none

/-- `M_ASN1_D2I_get_IMP_opt`; with the codec's own tag `M_ASN1_D2I_get_opt`. -/
def getTagged (t' : Tag) (c : Codec t α) : Reader (Option α)
  | [] => some (none, [])
  | (t'', b) :: rest =>
    if t'' = t' then (c.d2i b).map (some ·, rest) else some (none, (t'', b) :: rest)

/-- `M_ASN1_D2I_get_EXP_opt`: a constructed tag is opened, and one value is
read inside. What stands behind that value is read next. -/
def getExp (t' : Tag) (c : Codec t α) : Reader (Option α)
  | (t'', .cons inner) :: rest =>
    if t'' = t' then (get c inner).map fun r => (some r.1, r.2 ++ rest)
    else some (none, (t'', .cons inner) :: rest)
  | items => some (none, items)

/-- The elements of a `SEQUENCE OF` or a `SET OF`. -/
def getList (n : Nat) (g : Item → Option α) : Reader (List α)
  | (t', .cons items) :: rest =>
    if t' = .universal n then (items.mapM g).map (·, rest) else none
  | _ => none

/-- `M_ASN1_D2I_get_seq`. -/
def getSeq (g : Item → Option α) : Reader (List α) := getList 16 g

/-- `M_ASN1_D2I_get_set_type`. -/
def getSet (g : Item → Option α) : Reader (List α) := getList 17 g

/-- `M_ASN1_D2I_get_seq_opt`. -/
def getSeqOpt (g : Item → Option α) : Reader (Option (List α))
  | [] => some (none, [])
  | (t', b) :: rest =>
    if t' = .universal 16 then (getSeq g ((t', b) :: rest)).map fun r => (some r.1, r.2)
    else some (none, (t', b) :: rest)

/-- `M_ASN1_D2I_Finish`: nothing may be left. -/
def finish : α × List Item → Option α
  | (a, []) => some a
  | _ => none

/-- `M_ASN1_D2I_start_sequence`, the members, `M_ASN1_D2I_Finish`. -/
def sequence (r : Reader α) : Body → Option α
  | .prim _ => none
  | .cons items => (r items).bind finish

/-- An element of a list of values of one type. -/
def Codec.element (c : Codec t α) (item : Item) : Option α :=
  if item.1 = t then c.d2i item.2 else none

/-! ## What comes next -/

/-- What is left does not begin with the tag `t`. -/
def NotNext (t : Tag) : List Item → Prop
  | [] => True
  | (t', _) :: _ => t' ≠ t

@[simp] theorem notNext_nil : NotNext t [] := trivial

@[simp] theorem notNext_cons {b : Body} : NotNext t ((t', b) :: rest) ↔ t' ≠ t := Iff.rfl

variable {f : α → Body} {o : Option α} {a : α}

theorem member_none : member t f none ++ rest = rest := rfl

theorem notNext_member_some (h : t' ≠ t) : NotNext t (member t' f (some a) ++ rest) := h

theorem notNext_member (h : t' ≠ t) (hrest : NotNext t rest) :
    NotNext t (member t' f o ++ rest) := by
  cases o with
  | none => exact hrest
  | some a => exact h

theorem notNext_putSeqOpt {f : α → List Item} {l : Option (List α)} (h : .universal 16 ≠ t) :
    NotNext t (putSeqOpt f l) := by
  unfold putSeqOpt
  split
  · exact notNext_nil
  · cases l with
    | none => exact notNext_nil
    | some l => exact h

/-! ## Outcomes -/

/-- `b` if `p` holds, failure if it does not. -/
def Outcome (o : Option β) (p : Prop) (b : β) : Prop := (p → o = some b) ∧ (¬ p → o = none)

namespace Outcome

variable {o : Option β} {p q : Prop} {b b' : β}

theorem eq_some_iff (h : Outcome o p b) : o = some b' ↔ p ∧ b = b' := by
  by_cases hp : p
  · rw [h.1 hp, Option.some.injEq]
    exact (and_iff_right hp).symm
  · rw [h.2 hp]
    exact ⟨fun hn => (nomatch hn), fun hc => absurd hc.1 hp⟩

theorem eq (h : Outcome o p b) (hp : p) : o = some b := h.1 hp

theorem congr (h : Outcome o p b) (hpq : p ↔ q) : Outcome o q b :=
  ⟨fun hq => h.1 (hpq.mpr hq), fun hq => h.2 fun hp => hq (hpq.mp hp)⟩

theorem of_eq (h : o = some b) : Outcome o True b :=
  ⟨fun _ => h, fun hn => absurd trivial hn⟩

theorem map {f : β → α} (h : Outcome o p b) : Outcome (o.map f) p (f b) :=
  ⟨fun hp => by rw [h.1 hp]; rfl, fun hp => by rw [h.2 hp]; rfl⟩

end Outcome

theorem Codec.Keeps.outcome {c : Codec t α} {a : α} (h : c.Keeps a) :
    Outcome (c.d2i (c.i2d a)) True a := .of_eq h

/-- The elements one after the other. -/
theorem Outcome.cons {g : α → Option β} {x : α} {l : List α} {p q : Prop} {y : β} {l' : List β}
    (hx : Outcome (g x) p y) (hl : Outcome (l.mapM g) q l') :
    Outcome ((x :: l).mapM g) (p ∧ q) (y :: l') := by
  have hmap : (x :: l).mapM g = (g x).bind fun y => (l.mapM g).map (y :: ·) := by
    rw [List.mapM_cons]
    cases g x with
    | none => rfl
    | some y => cases l.mapM g <;> rfl
  rw [hmap]
  refine ⟨fun hpq => ?_, fun hpq => ?_⟩
  · rw [hx.1 hpq.1, hl.1 hpq.2]
    rfl
  · by_cases hp : p
    · rw [hx.1 hp, hl.2 fun hq => hpq ⟨hp, hq⟩]
      rfl
    · rw [hx.2 hp]
      rfl

/-- What is read element by element as it was written. -/
theorem mapM_map {f : α → β} {g : β → Option α} {l : List α} (h : ∀ a ∈ l, g (f a) = some a) :
    (l.map f).mapM g = some l := by
  induction l with
  | nil => rfl
  | cons a l ih =>
    have ha := h a (List.mem_cons_self ..)
    have hl := ih fun b hb => h b (List.mem_cons_of_mem _ hb)
    rw [List.map_cons, List.mapM_cons, ha, hl]
    rfl

theorem element_item (c : Codec t α) (b : Body) : c.element (t, b) = c.d2i b := if_pos rfl

theorem flatMap_put (c : Codec t α) (l : List α) :
    l.flatMap (put c ∘ some) = l.map fun a => (t, c.i2d a) := List.map_eq_flatMap.symm

/-- The elements of one type, in the order they were written in. -/
theorem mapM_element {c : Codec t α} {l : List α} (h : ∀ a ∈ l, c.d2i (c.i2d a) = some a) :
    (l.flatMap (put c ∘ some)).mapM c.element = some l := by
  rw [flatMap_put]
  refine mapM_map fun a ha => ?_
  rw [element_item, h a ha]

/-- What was written in another order is read in that order. -/
theorem mapM_perm {f : α → β} {g : β → Option α} {l : List α} {items : List β}
    (h : ∀ a ∈ l, g (f a) = some a) (hperm : items.Perm (l.map f)) :
    ∃ l', l'.Perm l ∧ items.mapM g = some l' := by
  have hcomp := congrFun (congrFun (List.eq_map_comp_perm f) items) l
  obtain ⟨l', rfl, hl'⟩ := hcomp.mpr hperm
  exact ⟨l', hl', mapM_map fun a ha => h a (hl'.mem_iff.mp ha)⟩

/-! ## Reading what was written -/

/-- The reader gives `a` and leaves `rest` if `p` holds, and fails if it
does not. -/
def Reads (r : Reader α) (items : List Item) (p : Prop) (a : α) (rest : List Item) : Prop :=
  Outcome (r items) p (a, rest)

namespace Reads

variable {r : Reader α} {f : α → Reader β} {p q : Prop} {a a' : α} {b : β} {rest' : List Item}

theorem pure : Reads (Pure.pure a : Reader α) items True a items := .of_eq rfl

/-- A computation that reads nothing. -/
theorem lift {o : Option α} (h : o = some a) :
    Reads (StateT.lift o : Reader α) items True a items := by
  refine .of_eq ?_
  rw [h]
  rfl

theorem bind (h : Reads r items p a rest) (hf : Reads (f a) rest q b rest') :
    Reads (r >>= f) items (p ∧ q) b rest' := by
  have hbind : (r >>= f) items = (r items).bind fun x => f x.1 x.2 := rfl
  unfold Reads
  rw [hbind]
  refine ⟨fun hpq => ?_, fun hpq => ?_⟩
  · rw [h.1 hpq.1]
    exact hf.1 hpq.2
  · by_cases hp : p
    · rw [h.1 hp]
      exact hf.2 fun hq => hpq ⟨hp, hq⟩
    · rw [h.2 hp]
      rfl

theorem get {γ : Type} {c : Codec t α} {f : γ → Body} {x : γ}
    (h : Outcome (c.d2i (f x)) p a) :
    Reads (Tlv.get c) (member t f (some x) ++ rest) p a rest := by
  unfold Reads
  have hget : Tlv.get c (member t f (some x) ++ rest) = (c.d2i (f x)).map (·, rest) := if_pos rfl
  rw [hget]
  exact h.map

theorem must {c : Codec t α} (h : c.Keeps a) : Reads (Tlv.get c) (put c (some a) ++ rest) True a rest :=
  get h.outcome

/-- A member that must be there and is not. -/
theorem absent {c : Codec t α} (h : NotNext t items) :
    Reads (Tlv.get c >>= f) items False b rest' := by
  have hget : Tlv.get c items = none := by
    cases items with
    | nil => rfl
    | cons e rest => exact if_neg h
  have hbind : (Tlv.get c >>= f) items = (Tlv.get c items).bind fun x => f x.1 x.2 := rfl
  refine ⟨fun hf => hf.elim, fun _ => ?_⟩
  rw [hbind, hget]
  rfl

/-- A member that may be absent, under the tag it was written with. -/
theorem tagged {γ : Type} {c : Codec t α} {f : γ → Body} {o : Option γ} {p : γ → Prop}
    {g : γ → α} (h : ∀ x, o = some x → Outcome (c.d2i (f x)) (p x) (g x))
    (hrest : NotNext t' rest) :
    Reads (getTagged t' c) (member t' f o ++ rest) (∀ x, o = some x → p x) (o.map g) rest := by
  cases o with
  | none =>
    have hskip : getTagged t' c rest = some (none, rest) := by
      cases rest with
      | nil => rfl
      | cons e rest => exact if_neg hrest
    exact (Outcome.of_eq hskip).congr (by simp)
  | some x =>
    have hget : getTagged t' c (member t' f (some x) ++ rest) =
        (c.d2i (f x)).map fun a => (some a, rest) := if_pos rfl
    unfold Reads
    rw [hget]
    exact (h x rfl).map.congr (by simp)

/-- The same where it is read back as it was. -/
theorem may {c : Codec t α} {o : Option α} (h : ∀ x, o = some x → c.Keeps x)
    (hrest : NotNext t' rest) :
    Reads (getTagged t' c) (putTagged t' c o ++ rest) True o rest := by
  have hread := tagged (fun x hx => (h x hx).outcome) hrest
  rw [Option.map_id'] at hread
  exact hread.congr (by simp)

/-- Nothing with the tag is there. -/
theorem skip {c : Codec t α} (h : NotNext t' items) :
    Reads (getTagged t' c) items True none items := by
  cases items with
  | nil => exact .of_eq rfl
  | cons e rest => exact .of_eq (if_neg h)

/-- A member that may be absent, inside a tag of its own. -/
theorem exp {c : Codec t α} {o : Option α} (h : ∀ x, o = some x → c.Keeps x)
    (hrest : NotNext t' rest) :
    Reads (getExp t' c) (putExp t' c o ++ rest) True o rest := by
  cases o with
  | none =>
    have hskip : getExp t' c rest = some (none, rest) := by
      match rest, hrest with
      | [], _ => rfl
      | (_, .prim _) :: _, _ => rfl
      | (_, .cons _) :: _, hrest => exact if_neg hrest
    exact .of_eq hskip
  | some x =>
    have hread : Tlv.get c [(t, c.i2d x)] = (c.d2i (c.i2d x)).map (·, []) := if_pos rfl
    have hget : getExp t' c (putExp t' c (some x) ++ rest) =
        (Tlv.get c [(t, c.i2d x)]).map fun r => (some r.1, r.2 ++ rest) := if_pos rfl
    refine .of_eq ?_
    rw [hget, hread, h x rfl]
    rfl

theorem list {n : Nat} {g : Item → Option α} {l : List Item} {l' : List α}
    (h : Outcome (l.mapM g) p l') :
    Reads (getList n g) ((.universal n, .cons l) :: rest) p l' rest := by
  unfold Reads
  have hget : getList n g ((.universal n, .cons l) :: rest) = (l.mapM g).map (·, rest) := by
    unfold getList
    exact if_pos rfl
  rw [hget]
  exact h.map

theorem seq {f : α → List Item} {g : Item → Option α} {l l' : List α}
    (h : Outcome ((l.flatMap f).mapM g) p l') :
    Reads (getSeq g) (putSeq f (some l) ++ rest) p l' rest := list h

theorem set {sort : List Item → List Item} {f : α → List Item} {g : Item → Option α}
    {l l' : List α} (h : Outcome ((sort (l.flatMap f)).mapM g) p l') :
    Reads (getSet g) (putSet sort f (some l) ++ rest) p l' rest := list h

/-- At the end of the body; an empty stack is read as an absent one. -/
theorem seqOpt {f : α → List Item} {g : Item → Option α} {o : Option (List α)}
    (h : Outcome (((o.getD []).flatMap f).mapM g) True (o.getD [])) :
    Reads (getSeqOpt g) (putSeqOpt f o) True (if o.getD [] = [] then none else o) [] := by
  unfold putSeqOpt
  by_cases ho : o.getD [] = []
  · rw [if_pos ho, if_pos ho]
    exact .of_eq rfl
  · rw [if_neg ho, if_neg ho]
    cases o with
    | none => exact absurd rfl ho
    | some l =>
      have hget : getSeqOpt g (putSeq f (some l)) =
          (((l.flatMap f).mapM g).map (·, [])).map fun r => (some r.1, r.2) := rfl
      unfold Reads
      rw [hget]
      exact h.map.map

/-- A reader that takes an absent list for an empty one sees no difference. -/
theorem seqOpt_getD (o : Option (List α)) :
    (if o.getD [] = [] then none else o).getD [] = o.getD [] := by
  by_cases ho : o.getD [] = []
  · rw [if_pos ho, ho, Option.getD_none]
  · rw [if_neg ho]

theorem seqOpt_skip {g : Item → Option α} (h : NotNext (.universal 16) items) :
    Reads (getSeqOpt g) items True none items := by
  cases items with
  | nil => exact .of_eq rfl
  | cons e rest => exact .of_eq (if_neg h)

/-- The whole body was read. -/
theorem whole (h : Reads r items p a []) : Outcome (sequence r (.cons items)) p a := by
  unfold Tlv.sequence
  refine ⟨fun hp => ?_, fun hp => ?_⟩
  · simp only [h.1 hp, Option.bind_some, finish]
  · simp only [h.2 hp, Option.bind_none]

/-- Something was left. -/
theorem left (h : Reads r items p a rest) (hrest : rest ≠ []) :
    sequence r (.cons items) = none := by
  unfold Tlv.sequence
  by_cases hp : p
  · cases rest with
    | nil => exact absurd rfl hrest
    | cons e rest => simp only [h.1 hp, Option.bind_some, finish]
  · simp only [h.2 hp, Option.bind_none]

end Reads

/-! ## Lists and choices -/

/-- The elements one after the other, each read as its partner. -/
theorem Outcome.mapM {g : Item → Option β} {f : α → Item} {p : α → Prop} {l : List α} {l' : List β}
    (h : List.Forall₂ (fun a b => Outcome (g (f a)) (p a) b) l l') :
    Outcome ((l.map f).mapM g) (∀ a ∈ l, p a) l' := by
  induction h with
  | nil => exact ⟨fun _ => rfl, fun hn => absurd (fun a ha => (nomatch ha)) hn⟩
  | cons hx _ ih => exact (hx.cons ih).congr List.forall_mem_cons.symm

/-- A sequence whose only member is a `SEQUENCE OF`. -/
def wrapped (c : Codec t α) : Codec (.universal 16) (List α) where
  i2d l := .cons (putSeq (put c ∘ some) (some l))
  d2i := sequence (getSeq c.element)

/-- It is read as a whole or not at all. -/
theorem wrapped_outcome {c : Codec t α} {p : α → Prop} {l l' : List α}
    (h : List.Forall₂ (fun a b => Outcome (c.d2i (c.i2d a)) (p a) b) l l') :
    Outcome ((wrapped c).d2i ((wrapped c).i2d l)) (∀ a ∈ l, p a) l' := by
  have hitems : Outcome ((l.flatMap (put c ∘ some)).mapM c.element) (∀ a ∈ l, p a) l' := by
    rw [flatMap_put]
    refine Outcome.mapM (h.imp fun a b hab => ?_)
    rw [element_item]
    exact hab
  apply Reads.whole
  rw [← List.append_nil (putSeq (put c ∘ some) (some l))]
  exact Reads.seq hitems

/-- Where each is read back as it was. -/
theorem wrapped_keeps {c : Codec t α} {l : List α} (h : ∀ a ∈ l, c.Keeps a) :
    (wrapped c).Keeps l :=
  (wrapped_outcome (p := fun _ => True) (List.forall₂_same.mpr fun a ha => (h a ha).outcome)).eq
    fun _ _ => trivial

/-- `M_ASN1_I2D_put_EXP_opt` of a value that brings its own tag. -/
abbrev putInside (t' : Tag) (f : α → Item) (a : Option α) : List Item :=
  member t' (fun a => .cons [f a]) a

/-- `M_ASN1_D2I_get_EXP_opt` of such a value. -/
def getInside (t' : Tag) (g : Item → Option α) : Reader (Option α)
  | (t'', .cons inner) :: rest =>
    if t'' = t' then
      match inner with
      | [] => none
      | item :: more => (g item).map fun a => (some a, more ++ rest)
    else some (none, (t'', .cons inner) :: rest)
  | items => some (none, items)

theorem Reads.inside {γ : Type} {g : Item → Option α} {f : γ → Item} {o : Option γ} {p : γ → Prop}
    {r : γ → α} (h : ∀ x, o = some x → Outcome (g (f x)) (p x) (r x)) (hrest : NotNext t' rest) :
    Reads (getInside t' g) (putInside t' f o ++ rest) (∀ x, o = some x → p x) (o.map r) rest := by
  cases o with
  | none =>
    have hskip : getInside t' g rest = some (none, rest) := by
      match rest, hrest with
      | [], _ => rfl
      | (_, .prim _) :: _, _ => rfl
      | (_, .cons _) :: _, hrest => exact if_neg hrest
    exact (Outcome.of_eq hskip).congr (by simp)
  | some x =>
    have hget : getInside t' g (putInside t' f (some x) ++ rest) =
        (g (f x)).map fun a => (some a, rest) := if_pos rfl
    unfold Reads
    rw [hget]
    exact (h x rfl).map.congr (by simp)

end Voms.Core.Tlv
