import Voms.L2Ac.RoundTrip
import Voms.L5Server.Attributes
import Voms.L5Server.Ordering

/-!
# Generic attributes as text

`gattrib::str` writes `qualifier::name=value`, `writeac` splits it at the
first `::` and the first `=` behind it, and `interpret_attributes` reads the
three parts again. Before that `makeAC` sorts by the texts and removes
neighbours that have the same three fields.

The text does not determine the fields, so that sorting by it need not bring
equal attributes together: one that has the same text as another can stand
between them. Where equal elements end up is the library's choice, and the
statement is about every `Sorter`.

* `attributes_exact`: the parts come back exactly if the text has no NUL, and
  the duplicates go exactly if no attribute that is there twice shares its
  text with another one.
-/
namespace Voms.L5

open Voms.Core Voms.L1 Voms.L2

/-! ## What should come back -/

/-- The attributes whose text can be split in one way only. -/
structure Splittable (g : Gattrib) : Prop where
  name : '=' ∉ g.name
  qualifier : ¬ [':', ':'] <:+: g.qualifier
  qualifierEnd : g.qualifier.getLast? ≠ some ':'

/-- What the AC should carry. -/
def carried (vo : Str) (g : Gattrib) : AcAttribute :=
  ⟨g.name, g.value, if g.qualifier = [] then vo else g.qualifier⟩

/-- `writeac` splits the texts into the parts, and `interpret_attributes`
finds them. -/
structure Returned (vo uri : Str) (attribs : List Gattrib) : Prop where
  split : parseAttributes (some vo) (attribs.map fun g => cStr g.str) =
    .ok (attribs.map (carried vo))
  read : interpretAttributes
      [⟨makeUri (some vo) (some uri), attribs.map (carried vo)⟩] [] =
    .ok (true, [⟨vo ++ "://".toList ++ uri, attribs.map fun g =>
      ⟨g.name, if g.qualifier = [] then vo else g.qualifier, g.value⟩⟩])

/-- No attribute is listed twice, and none is lost. -/
structure Deduplicated (kept attribs : List Gattrib) : Prop where
  nodup : kept.Nodup
  mem : ∀ g, g ∈ kept ↔ g ∈ attribs

/-- An attribute that is there twice is the only one with its text. -/
def Separable (attribs : List Gattrib) : Prop :=
  ∀ g g', 2 ≤ attribs.count g → g' ∈ attribs → g.str = g'.str → g = g'

/-! ## Splitting -/

/-- The first two colons are those behind the qualifier. -/
theorem strstr_colons (rest : Str) : ∀ {q : Str}, ¬ [':', ':'] <:+: q → q.getLast? ≠ some ':' →
    strstr [':', ':'] (q ++ [':', ':'] ++ rest) = some q.length
  | [], _, _ => strstr_of_start (List.prefix_append _ _)
  | c :: q, hinfix, hlast => by
    have hnot : ¬ [':', ':'] <+: c :: (q ++ [':', ':'] ++ rest) := by
      intro hprefix
      obtain ⟨rfl, hrest⟩ := List.cons_prefix_cons.mp hprefix
      cases q with
      | nil => exact hlast rfl
      | cons d q =>
        obtain ⟨rfl, -⟩ := List.cons_prefix_cons.mp hrest
        exact hinfix ⟨[], q, rfl⟩
    have hlast' : q.getLast? ≠ some ':' := by
      cases q with
      | nil => simp
      | cons d q => rwa [List.getLast?_cons_cons] at hlast
    have hinfix' : ¬ [':', ':'] <:+: q := fun h => hinfix (h.trans (List.suffix_cons c q).isInfix)
    have ih := strstr_colons rest hinfix' hlast'
    rw [List.cons_append, List.cons_append, strstr_cons_of_not hnot, ih]
    rfl

section

variable {vo : Str} {g : Gattrib}

theorem parseAttribute_str (h : Splittable g) :
    parseAttribute (some vo) g.str = .ok (carried vo g) := by
  have hsplit : g.str = g.qualifier ++ "::".toList ++ (g.name ++ "=".toList ++ g.value) := by
    simp only [Gattrib.str, List.append_assoc]
  have hpoint := strstr_colons (g.name ++ "=".toList ++ g.value) h.qualifier h.qualifierEnd
  have heq : strstr "=".toList (g.name ++ "=".toList ++ g.value) = some g.name.length := by
    refine strstr_append_self g.value ?_ ?_
    · intro k hk hlt
      simp at hlt
      omega
    · rw [strstr_eq_none]
      exact fun hin => h.name (hin.subset (by simp))
  have hdrop : (g.qualifier ++ "::".toList ++ (g.name ++ "=".toList ++ g.value)).drop
      (g.qualifier.length + 2) = g.name ++ "=".toList ++ g.value := List.drop_left' (by simp)
  have htake : (g.qualifier ++ "::".toList ++ (g.name ++ "=".toList ++ g.value)).take
      g.qualifier.length = g.qualifier := by simp
  have hname : (g.name ++ "=".toList ++ g.value).take g.name.length = g.name := by simp
  have hvalue : (g.name ++ "=".toList ++ g.value).drop (g.name.length + 1) = g.value :=
    List.drop_left' (by simp)
  rw [← show "::".toList = [':', ':'] from rfl] at hpoint
  unfold parseAttribute
  simp only [hsplit, hpoint, Res.deref_some, Res.ok_bind, hdrop, htake, heq, Res.require_some, hname,
    hvalue, Res.pure_eq, carried, List.length_eq_zero_iff]
  split <;> simp [*]

/-- A text that is cut does not give the same parts. -/
theorem noNul_of_parseAttribute (h : Splittable g)
    (hparse : parseAttribute (some vo) (cStr g.str) = .ok (carried vo g)) : '\x00' ∉ g.str := by
  obtain ⟨qual, hstr, hqual⟩ := parseAttribute_states hparse
  have hlen := congrArg List.length hstr
  have hshort := length_cStr_le g.str
  simp only [readAttribute, carried] at hqual hstr hlen
  have hsame : qual = g.qualifier := by
    by_cases hq : g.qualifier = []
    · by_cases hqual' : qual = []
      · rw [hqual', hq]
      · -- the VO's name in front would make the text longer
        have hpos := List.length_pos_iff.mpr hqual'
        simp only [Gattrib.str, hq, List.length_append, List.length_nil] at hlen hshort
        omega
    · rw [if_neg hq] at hqual
      by_cases hqual' : qual = []
      · -- the text would begin with the two colons
        obtain ⟨c, q, hcons⟩ := List.exists_cons_of_ne_nil hq
        have hprefix : "::".toList <+: g.str := by
          refine List.IsPrefix.trans ?_ (List.takeWhile_prefix (l := g.str) (· ≠ '\x00'))
          rw [← cStr, hstr, hqual']
          simp only [List.nil_append, List.append_assoc]
          exact List.prefix_append _ _
        have hzero := strstr_of_start hprefix
        have hpoint := strstr_colons (g.name ++ "=".toList ++ g.value) h.qualifier h.qualifierEnd
        rw [show g.str = g.qualifier ++ [':', ':'] ++ (g.name ++ "=".toList ++ g.value) by
          simp only [Gattrib.str, List.append_assoc]; rfl] at hzero
        exact absurd (List.length_eq_zero_iff.mp (Option.some.inj (hpoint.symm.trans hzero))) hq
      · rw [if_neg hqual'] at hqual
        exact hqual.symm
  rw [hsame] at hstr
  exact cStr_eq_self.mp hstr

end

theorem parseAttributes_iff {vo : Str} : ∀ {attribs : List Gattrib},
    parseAttributes (some vo) (attribs.map fun g => cStr g.str) =
        .ok (attribs.map (carried vo)) ↔
      ∀ g ∈ attribs, parseAttribute (some vo) (cStr g.str) = .ok (carried vo g)
  | [] => by simp [parseAttributes]
  | g :: attribs => by
    simp only [List.map_cons, List.forall_mem_cons, ← @parseAttributes_iff vo attribs]
    constructor
    · intro h
      unfold parseAttributes at h
      obtain ⟨a, ha, h⟩ := Res.bind_eq_ok.mp h
      obtain ⟨as, has, h⟩ := Res.bind_eq_ok.mp h
      cases h
      exact ⟨ha, has⟩
    · rintro ⟨ha, has⟩
      unfold parseAttributes
      rw [ha, Res.ok_bind, has]
      rfl

/-- The parts come back exactly if no text is cut at a NUL. -/
theorem returned_iff (vo uri : Str) {attribs : List Gattrib} (h : ∀ g ∈ attribs, Splittable g) :
    Returned vo uri attribs ↔ ∀ g ∈ attribs, '\x00' ∉ g.str := by
  have hsplit : parseAttributes (some vo) (attribs.map fun g => cStr g.str) =
      .ok (attribs.map (carried vo)) ↔ ∀ g ∈ attribs, '\x00' ∉ g.str := by
    rw [parseAttributes_iff]
    refine forall₂_congr fun g hg => ⟨noNul_of_parseAttribute (h g hg), fun hnul => ?_⟩
    rw [cStr_of_noNul hnul]
    exact parseAttribute_str (h g hg)
  rw [← hsplit]
  refine ⟨Returned.split, fun hsplit => ⟨hsplit, ?_⟩⟩
  rw [show attribs.map (fun g => (⟨g.name, if g.qualifier = [] then vo else g.qualifier, g.value⟩ :
    Attribute)) = (attribs.map (carried vo)).map readAttribute by rw [List.map_map]; rfl]
  rfl

/-! ## Removing the duplicates -/

section

variable {V : Server} {attribs : List Gattrib}

theorem strictWeak_str : StrictWeak fun g g' : Gattrib => decide (g.str < g'.str) :=
  ⟨fun g g' => strictWeak_lt.1 g.str g'.str, fun g g' g'' => strictWeak_lt.2 g.str g'.str g''.str⟩

/-- Between two occurrences of an attribute only texts equal to its own fit. -/
theorem deduplicated_sortAttribs (h : Separable attribs) :
    Deduplicated (sortAttribs V attribs) attribs where
  mem _ := mem_sortAttribs
  nodup := by
    refine destutter_nodup_iff.mpr fun g g' hsub => ?_
    have hordered := V.sorter.sort_ordered attribs strictWeak_str
    have hperm := V.sorter.sort_perm (fun g g' : Gattrib => decide (g.str < g'.str)) attribs
    have hle := hordered.sublist hsub
    obtain ⟨hbehind, htail⟩ := List.pairwise_cons.mp hle
    have hup : decide (g'.str < g.str) = false := hbehind g' (by simp)
    have hdown : decide (g.str < g'.str) = false := (List.pairwise_cons.mp htail).1 g (by simp)
    rw [decide_eq_false_iff_not, List.not_lt] at hup hdown
    have hcount : 2 ≤ attribs.count g := by
      rw [← hperm.count_eq]
      refine Nat.le_trans ?_ (hsub.count_le g)
      rw [List.count_cons_self]
      have hpos : 0 < List.count g [g', g] := List.count_pos_iff.mpr (by simp)
      omega
    exact h g g' hcount (hperm.mem_iff.mp (hsub.subset (by simp)))
      (List.le_antisymm hup hdown)

/-- A library may put the other one between. -/
theorem separable_of_deduplicated
    (h : ∀ S : Sorter, Deduplicated (sortAttribs { V with sorter := S } attribs) attribs) :
    Separable attribs := by
  intro g g' hcount hg' hstr
  by_contra hne
  have hg : g ∈ attribs.erase g' := by
    rw [List.mem_erase_of_ne hne]
    exact List.count_pos_iff.mp (by omega)
  have hrest : g ∈ (attribs.erase g').erase g := by
    refine List.count_pos_iff.mp ?_
    rw [List.count_erase_self, List.count_erase_of_ne hne]
    omega
  have hnodup := (h (Sorter.pulling (attribs.idxOf g') ((g' :: attribs.erase g').idxOf g))).nodup
  have hpulled : pull (pull attribs (attribs.idxOf g')) ((g' :: attribs.erase g').idxOf g) =
      g :: g' :: (attribs.erase g').erase g := by
    rw [pull_idxOf hg', pull_idxOf (List.mem_cons_of_mem _ hg), List.erase_cons_tail]
    simpa using Ne.symm hne
  have hsub : [g, g', g].Sublist (pull (pull attribs (attribs.idxOf g'))
      ((g' :: attribs.erase g').idxOf g)) := by
    rw [hpulled]
    exact List.Sublist.cons_cons g (List.Sublist.cons_cons g' (List.singleton_sublist.mpr hrest))
  refine hne (destutter_nodup_iff.mp hnodup g g' (List.sublist_insertionSort ?_ hsub))
  simp [hstr]

end

/-- **The text of the attributes**: the parts come back exactly without NULs,
and the duplicates go, however `std::sort` arranges equal elements, exactly
if no attribute that is there twice shares its text with another. -/
theorem attributes_exact (V : Server) (vo uri : Str) (attribs any : List Gattrib)
    (h : ∀ g ∈ attribs, Splittable g) :
    (Returned vo uri attribs ↔ ∀ g ∈ attribs, '\x00' ∉ g.str) ∧
      ((∀ S : Sorter, Deduplicated (sortAttribs { V with sorter := S } any) any) ↔
        Separable any) :=
  ⟨returned_iff vo uri h, separable_of_deduplicated, fun hany _ => deduplicated_sortAttribs hany⟩

namespace Sample

/-- Two attributes with the text `/vo::a=b=c`. -/
def early : Gattrib := ⟨"a".toList, "/vo".toList, "b=c".toList⟩
def late : Gattrib := ⟨"a=b".toList, "/vo".toList, "c".toList⟩

end Sample

/-- The first of them is still there twice. -/
theorem attributes_twice :
    ¬ ∀ (V : Server) (vo uri : Str) (attribs any : List Gattrib), (∀ g ∈ attribs, Splittable g) →
      Returned vo uri attribs ∧ Deduplicated (sortAttribs V any) any := by
  intro h
  have hnodup := (h Sample.timed [] [] [] [Sample.early, Sample.late, Sample.early] (by simp)).2.nodup
  exact absurd hnodup (by decide)

theorem attributes_exact_early :
    (Returned "vo".toList "host:1".toList [Sample.early] ↔
        ∀ g ∈ [Sample.early], '\x00' ∉ g.str) ∧
      ((∀ S : Sorter, Deduplicated (sortAttribs { Sample.timed with sorter := S }
          [Sample.early, Sample.late]) [Sample.early, Sample.late]) ↔
        Separable [Sample.early, Sample.late]) := by
  refine attributes_exact Sample.timed "vo".toList "host:1".toList [Sample.early]
    [Sample.early, Sample.late] fun g hg => ?_
  obtain rfl := List.mem_singleton.mp hg
  exact ⟨by decide, by decide, by decide⟩

end Voms.L5
