import Voms.L5Server.Grants
import Voms.L5Server.Lifetime

/-!
# The generic attributes of a restricted AC

If the proxy's own ACs allow only a subset of the FQANs, `makeAC` removes the
generic attributes whose qualifier is none of the FQANs that are left. By
then these are in the form they are written in, and the qualifiers in the
form of the database.

`attributes_iff`: exactly the attributes without a qualifier, or with one
that is still granted, are written if the VO writes short FQANs, or if for
every qualifier it is the same whether the proxy has its long form or has it
as a long form. In the long format an attribute of an FQAN that is still
granted is lost (`attributes_lost`).
-/
namespace Voms.L5

open Voms.Core Voms.L1 Voms.L2 Voms.L3

variable {V : Server} {sel : Selection}

theorem mem_sortAttribs {attribs : List Gattrib} {g : Gattrib} :
    g ∈ sortAttribs V attribs ↔ g ∈ attribs := by
  unfold sortAttribs
  rw [mem_destutter_ne, (V.sorter.sort_perm _ _).mem_iff]

theorem checkinside_eq_false {g : Gattrib} {list : List Str} :
    checkinside g list = false ↔ g.qualifier = [] ∨ g.qualifier ∈ list := by
  simp [checkinside, notIn, or_iff_not_imp_left]

/-! ## The FQANs that are left -/

/-- An FQAN of the database's answer that is still granted. -/
def StillGranted (V : Server) (sel : Selection) (q : Str) : Prop :=
  q ∈ sel.lists.fqans ∧ V.form q ∈ released V sel

/-- An FQAN of the answer, and the proxy has its long form. -/
def HasLong (V : Server) (sel : Selection) (q : Str) : Prop :=
  q ∈ sel.lists.fqans ∧ longFqan q ∈ V.existing

/-- The proxy has it, and it is the long form of an FQAN of the answer. -/
def IsLong (V : Server) (sel : Selection) (q : Str) : Prop :=
  q ∈ V.existing ∧ ∃ f ∈ sel.lists.fqans, longFqan f = q

theorem mem_released (hexisting : V.existing ≠ []) {f : Str} :
    f ∈ released V sel ↔ f ∈ V.existing ∧ ∃ g ∈ sel.lists.fqans, V.form g = f := by
  unfold released
  rw [mem_restrict]
  simp only [mem_ordered, Removed, hexisting, ne_eq, not_false_eq_true, true_and, not_not]
  constructor
  · rintro ⟨g, hg, hin, rfl⟩
    exact ⟨hin, g, hg, rfl⟩
  · rintro ⟨hin, g, hg, rfl⟩
    exact ⟨g, hg, hin, rfl⟩

theorem stillGranted_iff (hexisting : V.existing ≠ []) {q : Str} :
    StillGranted V sel q ↔ q ∈ sel.lists.fqans ∧ V.form q ∈ V.existing := by
  unfold StillGranted
  rw [mem_released hexisting]
  refine and_congr_right fun hq => and_iff_left ⟨q, hq, rfl⟩

/-- What the server compares a qualifier with is what is granted. -/
theorem compared_iff (hexisting : V.existing ≠ []) {q : Str} :
    (q ∈ released V sel ↔ StillGranted V sel q) ↔
      V.shortfqans = true ∨ (HasLong V sel q ↔ IsLong V sel q) := by
  rw [mem_released hexisting, stillGranted_iff hexisting]
  unfold HasLong IsLong Server.form
  cases V.shortfqans with
  | true => simp [and_comm]
  | false => simp [iff_comm]

theorem mem_writtenAttribs (hremoved : ∃ f ∈ sel.lists.fqans, Removed V f) {g : Gattrib} :
    g ∈ writtenAttribs V sel ↔
      g ∈ sel.lists.attribs ∧ (g.qualifier = [] ∨ g.qualifier ∈ released V sel) := by
  unfold writtenAttribs
  rw [if_pos (subset_iff.mpr hremoved), List.mem_filter, mem_sortAttribs,
    Bool.not_eq_true', checkinside_eq_false]

/-- Of the database's generic attributes exactly those without a qualifier,
or with one that is still granted, are written. -/
def Attributed (V : Server) (sel : Selection) : Prop :=
  ∀ g, g ∈ writtenAttribs V sel ↔
    g ∈ sel.lists.attribs ∧ (g.qualifier = [] ∨ StillGranted V sel g.qualifier)

theorem attributed_iff (hremoved : ∃ f ∈ sel.lists.fqans, Removed V f) :
    Attributed V sel ↔ V.shortfqans = true ∨ ∀ g ∈ sel.lists.attribs,
      g.qualifier = [] ∨ (HasLong V sel g.qualifier ↔ IsLong V sel g.qualifier) := by
  obtain ⟨-, -, hexisting, -⟩ := id hremoved
  have hone (g : Gattrib) : (g ∈ writtenAttribs V sel ↔
      g ∈ sel.lists.attribs ∧ (g.qualifier = [] ∨ StillGranted V sel g.qualifier)) ↔
      (g ∈ sel.lists.attribs → g.qualifier = [] ∨
        (V.shortfqans = true ∨ (HasLong V sel g.qualifier ↔ IsLong V sel g.qualifier))) := by
    rw [mem_writtenAttribs hremoved, ← compared_iff hexisting]
    by_cases hq : g.qualifier = []
    · simp only [hq, true_or, implies_true]
    · simp only [hq, false_or]
      exact and_congr_right_iff
  unfold Attributed
  simp only [hone]
  cases V.shortfqans with
  | true => simp
  | false => simp

/-- **Which generic attributes an AC carries** when the proxy's own ACs took
FQANs away. -/
theorem attributes_iff {D : Database} {P : Party} {vr vr' : VomsResult} {message : Str}
    {out : Outcome} (hsel : interpretRequest V D vr message = .ok (some sel, vr'))
    (h : makeAC V D vr P message = .ok out) (hret : out.ret = true) (hac : out.vr.ac ≠ [])
    (hremoved : ∃ f ∈ sel.lists.fqans, Removed V f) :
    (∃ serial a, createac V.signer P.issuer V.ownStack P.holder P.key serial (released V sel)
        sel.targs ((writtenAttribs V sel).map Gattrib.str) V.voname V.uri sel.requested
        (!V.newformat) none = .ok a ∧ out.vr.ac = V.i2dAc a) ∧
    (Attributed V sel ↔ V.shortfqans = true ∨ ∀ g ∈ sel.lists.attribs,
      g.qualifier = [] ∨ (HasLong V sel g.qualifier ↔ IsLong V sel g.qualifier)) := by
  refine ⟨?_, attributed_iff hremoved⟩
  unfold makeAC at h
  rw [hsel] at h
  obtain ⟨serial, a, ha, -, hout⟩ := issueAC_issued h hret hac
  exact ⟨serial, a, ha, hout⟩

namespace Sample

/-- A member of `/vo` and `/vo/pilot` with a generic attribute of `qualifier`. -/
def attributed (qualifier : Str) : Database :=
  { obliging ["/vo".toList, "/vo/pilot".toList] with
    operationAttribs := fun _ _ _ => (true, [⟨"nick".toList, qualifier, "x".toList⟩]) }

/-- What the request for `/vo` makes of it. -/
def chosen (qualifier : Str) : Selection :=
  ⟨["G/vo".toList], [[]], 0, "/vo".toList, "G/vo".toList,
    ⟨["/vo".toList, "/vo/pilot".toList], [⟨"nick".toList, qualifier, "x".toList⟩]⟩⟩

def groupMessage : Str := xmlReqEncode "G/vo".toList [] [] (-1)

def subsetAnswer : Outcome :=
  ⟨true, ⟨"coded".toList, [], [⟨WARN_ATTR_SUBSET, "vo".toList ++
    " : your certificate already contains attributes, only a subset of them can be issued.".toList⟩],
    true⟩, some ["/vo".toList, "/vo/pilot".toList], some ["/vo/Role=NULL/Capability=NULL".toList]⟩

end Sample

/-- `attributes_iff` for an attribute of the group that is taken away. -/
theorem attributes_iff_removed : Attributed Sample.second (Sample.chosen "/vo/pilot".toList) := by
  have hsel : interpretRequest Sample.second (Sample.attributed "/vo/pilot".toList) (.start false)
      Sample.groupMessage = .ok (some (Sample.chosen "/vo/pilot".toList),
        { VomsResult.start false with base64 := true }) := rfl
  have hrun : makeAC Sample.second (Sample.attributed "/vo/pilot".toList) (.start false)
      Sample.party Sample.groupMessage = .ok Sample.subsetAnswer := rfl
  refine (attributes_iff hsel hrun rfl (by decide) ⟨"/vo/pilot".toList, by decide, by decide⟩).2.mpr
    (Or.inr ?_)
  intro g hg
  obtain rfl := List.mem_singleton.mp hg
  refine Or.inr ?_
  unfold HasLong IsLong
  decide

/-- An attribute of the group that is left is lost: its qualifier is `/vo`,
and what is granted `/vo/Role=NULL/Capability=NULL`. -/
theorem attributes_lost :
    ¬ ∀ (V : Server) (D : Database) (P : Party) (vr vr' : VomsResult) (message : Str)
      (sel : Selection) (out : Outcome),
      interpretRequest V D vr message = .ok (some sel, vr') → makeAC V D vr P message = .ok out →
      out.ret = true → out.vr.ac ≠ [] → (∃ f ∈ sel.lists.fqans, Removed V f) →
      Attributed V sel := by
  intro h
  have hsel : interpretRequest Sample.second (Sample.attributed "/vo".toList) (.start false)
      Sample.groupMessage = .ok (some (Sample.chosen "/vo".toList),
        { VomsResult.start false with base64 := true }) := rfl
  have hrun : makeAC Sample.second (Sample.attributed "/vo".toList) (.start false)
      Sample.party Sample.groupMessage = .ok Sample.subsetAnswer := rfl
  have hall := h _ _ _ _ _ _ _ _ hsel hrun rfl (by decide)
    ⟨"/vo/pilot".toList, by decide, by decide⟩
  have hgranted : StillGranted Sample.second (Sample.chosen "/vo".toList) "/vo".toList := by
    refine ⟨by decide, by decide⟩
  have hwritten := (hall ⟨"nick".toList, "/vo".toList, "x".toList⟩).mpr
    ⟨List.mem_singleton.mpr rfl, Or.inr hgranted⟩
  exact absurd hwritten (by decide)

end Voms.L5
