import Voms.L5Server.Grants
import Voms.L5Server.Lifetime

/-!
# The order of the FQANs

The first FQAN of an AC decides what its holder is mapped to. `makeAC` sorts
the FQANs of the database to remove the duplicates, and brings those the
order string names to the front with `partial_sort`, which compares ranks in
a map and sorts no more than the smaller of the two sizes.

Results (all general):
* `compare_parseOrder`: the comparison is that of the places in the order
  string, an FQAN that is not named behind all that are.
* `arranged_orderFqans`: every FQAN of the database once, those that are
  named in front and in the order in which they are named first.
* `makeAC_ordered`: the same for every request, with the warning about the
  first choice and what is left of the list in the answer.
-/
namespace Voms.L5

open Voms.Core Voms.L1 Voms.L2 Voms.L3

/-! ## The map of an order string -/

/-- The FQANs an order string names. -/
def choices (order : Str) : List Str := (order.splitOn ',').map orderFqan

theorem find_insert {ordering : Ordermap} {f g : Str} {k : Nat} :
    (ordering.insert f k).find g = (ordering.find g).or (if g = f then some k else none) := by
  unfold Ordermap.insert
  by_cases hgf : g = f
  · subst hgf
    cases hfind : ordering.find g with
    | some n => simp [hfind]
    | none =>
      have hnone : List.find? (·.1 == g) ordering = none := Option.map_eq_none_iff.mp hfind
      simp [Ordermap.find, List.find?_append, hnone]
  · rw [if_neg hgf, Option.or_none]
    split
    · rfl
    · have hfg : ¬ f = g := fun h => hgf h.symm
      simp [Ordermap.find, List.find?_append, hfg]

/-- An FQAN gets the rank of the first place where it is named. -/
theorem find_parseOrderLoop {fqans : List Str} {order : Nat} {ordering : Ordermap} {g : Str} :
    (parseOrderLoop fqans order ordering).find g =
      (ordering.find g).or (if g ∈ fqans then some (order + fqans.idxOf g) else none) := by
  induction fqans generalizing order ordering with
  | nil => simp [parseOrderLoop]
  | cons f fqans ih =>
    rw [parseOrderLoop, ih, find_insert, Option.or_assoc]
    congr 1
    by_cases hgf : g = f
    · subst hgf
      simp
    · rw [if_neg hgf, Option.none_or, List.idxOf_cons_ne fqans (Ne.symm hgf)]
      simp only [List.mem_cons, hgf, false_or]
      congr 2
      omega

theorem find_parseOrder {order g : Str} :
    (parseOrder order []).2.find g =
      if g ∈ choices order then some ((choices order).idxOf g) else none := by
  have hloop : (parseOrderLoop (choices order) 0 []).find g =
      if g ∈ choices order then some (0 + (choices order).idxOf g) else none := find_parseOrderLoop
  rwa [Nat.zero_add] at hloop

theorem mem_keys {ordering : Ordermap} {g : Str} :
    g ∈ ordering.map (·.1) ↔ (ordering.find g).isSome = true := by
  simp [Ordermap.find]

/-- The comparison is that of the places in the order string. -/
theorem compare_parseOrder (order lhs rhs : Str) :
    compare (parseOrder order []).2 lhs rhs =
      decide ((choices order).idxOf lhs < (choices order).idxOf rhs) := by
  have hlt : ∀ {g}, g ∈ choices order → (choices order).idxOf g < (choices order).length :=
    List.idxOf_lt_length_of_mem
  have hlen : ∀ {g}, g ∉ choices order → (choices order).idxOf g = (choices order).length :=
    List.idxOf_of_notMem
  unfold compare
  rw [find_parseOrder, find_parseOrder]
  by_cases hl : lhs ∈ choices order <;> by_cases hr : rhs ∈ choices order
  · rw [if_pos hl, if_pos hr]
  · rw [if_pos hl, if_neg hr, hlen hr]
    simp [hlt hl]
  · rw [if_neg hl, hlen hl]
    have hlr := hlt hr
    simp
    omega
  · rw [if_neg hl, hlen hl, hlen hr]
    simp

theorem strictWeak_idxOf (l : List Str) :
    StrictWeak fun a b => decide (l.idxOf a < l.idxOf b) := by
  refine ⟨fun a b hab => ?_, fun a b c hab hbc => ?_⟩
  · simp only [decide_eq_true_eq, decide_eq_false_iff_not] at hab ⊢
    omega
  · simp only [decide_eq_false_iff_not] at hab hbc ⊢
    omega

/-! ## The list -/

/-- Every FQAN of the answer once, the chosen ones in front and in the order
in which they are chosen first: behind any FQAN only one that is chosen
later, or not at all. -/
structure Arranged (choices answer fqans : List Str) : Prop where
  nodup : fqans.Nodup
  mem : ∀ f, f ∈ fqans ↔ f ∈ answer
  first : fqans.Pairwise fun f g => g ∈ choices → choices.idxOf f < choices.idxOf g

/-- Of a chosen FQAN and one in front of it, the latter is chosen too. -/
theorem Arranged.front {choices answer front rest : List Str} {f g : Str}
    (h : Arranged choices answer (front ++ rest)) (hf : f ∈ front) (hg : g ∈ rest)
    (hchosen : g ∈ choices) : f ∈ choices := by
  have hlt := (List.pairwise_append.mp h.first).2.2 f hf g hg hchosen
  exact List.idxOf_lt_length_iff.mp (hlt.trans (List.idxOf_lt_length_of_mem hchosen))

theorem strictWeak_lt : StrictWeak fun a b : Str => decide (a < b) := by
  refine ⟨fun a b hab => ?_, fun a b c hab hbc => ?_⟩
  · simp only [decide_eq_true_eq, decide_eq_false_iff_not] at hab ⊢
    exact List.lt_asymm hab
  · simp only [decide_eq_false_iff_not, List.not_lt] at hab hbc ⊢
    exact List.le_trans hab hbc

/-- `sort` and `unique`. -/
theorem nodup_unique (V : Server) (fqans : List Str) :
    ((V.sorter.sort (fun a b => decide (a < b)) fqans).destutter (· ≠ ·)).Nodup := by
  refine destutter_nodup (fun a b hab hba => ?_) (V.sorter.sort_ordered fqans strictWeak_lt)
  simp only [decide_eq_false_iff_not, List.not_lt] at hab hba
  exact List.le_antisymm hba hab

/-- `orderattribs`, on a list without duplicates. -/
theorem pairwise_partialSort (V : Server) (order : Str) {fqans : List Str} (h : fqans.Nodup) :
    (V.sorter.partialSort (compare (parseOrder order []).2)
      (min (parseOrder order []).2.length fqans.length) fqans).Pairwise fun f g =>
        g ∈ choices order → (choices order).idxOf f < (choices order).idxOf g := by
  have hcompare : compare (parseOrder order []).2 =
      fun a b => decide ((choices order).idxOf a < (choices order).idxOf b) :=
    funext fun a => funext fun b => compare_parseOrder order a b
  have hkeys : ∀ f, f ∈ (parseOrder order []).2.map (·.1) ↔ f ∈ choices order := by
    intro f
    rw [mem_keys, find_parseOrder]
    split <;> simp [*]
  have hn : (parseOrder order []).2.length = ((parseOrder order []).2.map (·.1)).length :=
    (List.length_map ..).symm
  generalize (parseOrder order []).2.map (·.1) = keys at hkeys hn
  have hbefore : ∀ f g, g ∈ keys →
      decide ((choices order).idxOf g < (choices order).idxOf f) = false → f ∈ keys := by
    intro f g hg hle
    rw [hkeys] at hg ⊢
    have hle := not_lt.mp (of_decide_eq_false hle)
    exact List.idxOf_lt_length_iff.mp (hle.trans_lt (List.idxOf_lt_length_of_mem hg))
  rw [hcompare, hn]
  have hselects := V.sorter.partialSort_selects (strictWeak_idxOf (choices order)) hbefore
    (Nat.le_refl _) h
  refine (hselects.and ((V.sorter.partialSort_perm _ _ _).nodup_iff.mpr h)).imp ?_
  intro f g hfg hg
  obtain ⟨hle, hne⟩ := hfg
  have hle := of_decide_eq_false (hle ((hkeys _).mpr hg))
  refine lt_of_le_of_ne (not_lt.mp hle) fun heq => hne ?_
  exact ((List.idxOf_inj hg).mp heq.symm).symm

theorem arranged_orderFqans (V : Server) (order : Str) (answer : List Str) :
    Arranged (choices order) answer (orderFqans V (parseOrder order []).2 answer) where
  nodup := (V.sorter.partialSort_perm _ _ _).nodup_iff.mpr (nodup_unique V answer)
  mem _ := mem_orderFqans
  first := pairwise_partialSort V order (nodup_unique V answer)

/-! ## The answer -/

def Reported (num : Int) (vr : VomsResult) : Prop := ∃ e ∈ vr.errs, e.num = num

section

variable {num num' : Int} {vr : VomsResult} {message : Str}

theorem reported_setError : Reported num (vr.setError num' message) ↔ Reported num vr ∨ num' = num := by
  simp [Reported, VomsResult.setError, or_and_right, exists_or]

theorem reported_setError_ne (h : num' ≠ num) :
    Reported num (vr.setError num' message) ↔ Reported num vr := by
  rw [reported_setError, or_iff_left h]

end

theorem Appends.reported {nums : List Int} {vr vr' : VomsResult} {num : Int}
    (h : Appends nums vr vr') (hnum : num ∉ nums) : Reported num vr' ↔ Reported num vr := by
  obtain ⟨-, -, es, hes, hin⟩ := h
  have hnone : ¬ ∃ e ∈ es, e.num = num := fun ⟨e, he, heq⟩ => hnum (heq ▸ hin e he)
  unfold Reported
  rw [hes]
  simp only [List.mem_append, or_and_right, exists_or]
  exact or_iff_left hnone

theorem reported_warnFirst (firstfqan : Str) (fqans : List Str) (vr : VomsResult) :
    Reported WARN_NO_FIRST_SELECT (warnFirst firstfqan fqans vr) ↔
      Reported WARN_NO_FIRST_SELECT vr ∨
        firstfqan ≠ [] ∧ ∃ f, fqans.head? = some f ∧ f ≠ firstfqan := by
  cases fqans with
  | nil => simp [warnFirst]
  | cons i fqans =>
    unfold warnFirst
    simp only [List.head?_cons, Option.some.injEq, exists_eq_left']
    split
    · next h => simp [reported_setError, h]
    · next h => rw [or_iff_left h]

/-- `parse_order` returns the first choice that is not empty. -/
theorem first_iff (order : Str) (p : Str → Prop) :
    ((parseOrder order []).1 ≠ [] ∧ p (parseOrder order []).1) ↔
      ∃ first, (choices order).find? (· ≠ []) = some first ∧ p first := by
  have hfirst : (parseOrder order []).1 = ((choices order).find? (· ≠ [])).getD [] := rfl
  rw [hfirst]
  cases hfind : (choices order).find? (· ≠ []) with
  | none => simp
  | some first =>
    have hne : first ≠ [] := by simpa using List.find?_some hfind
    simp [hne]

/-- What an answer says of the list. -/
structure Answered (V : Server) (sel : Selection) (out : Outcome) : Prop where
  /-- There is a warning if there is a first choice and another FQAN is first. -/
  warning : Reported WARN_NO_FIRST_SELECT out.vr ↔
    ∃ first, (choices sel.order).find? (· ≠ []) = some first ∧
      ∃ f, (ordered V sel).head? = some f ∧ f ≠ first
  /-- What is written, or sent as a list, is what is left of the list, in its order. -/
  released : ∃ kept : List Str, kept.Sublist (ordered V sel) ∧
    (∀ l, out.written = some l → l = kept.map V.form) ∧
      (out.vr.data ≠ [] → out.vr.data = listData (kept.map V.form))

theorem warnFirst_data (firstfqan : Str) (fqans : List Str) (vr : VomsResult) :
    (warnFirst firstfqan fqans vr).data = vr.data := by
  unfold warnFirst
  split
  · rfl
  · split <;> rfl

/-- An answer without FQANs. -/
theorem answered_refused {V : Server} {sel : Selection} {vr : VomsResult} {num : Int}
    {message : Str} {ans : Option (List Str)} (hdata : vr.data = [])
    (hnum : num ≠ WARN_NO_FIRST_SELECT)
    (hwarning : Reported WARN_NO_FIRST_SELECT vr ↔
      ∃ first, (choices sel.order).find? (· ≠ []) = some first ∧
        ∃ f, (ordered V sel).head? = some f ∧ f ≠ first) :
    Answered V sel ⟨false, vr.setError num message, ans, none⟩ where
  warning := (reported_setError_ne hnum).trans hwarning
  released := ⟨[], List.nil_sublist _, nofun, fun h => absurd hdata h⟩

theorem issueAC_answered {V : Server} {P : Party} {sel : Selection} {vr : VomsResult}
    {out : Outcome} (hvr : ¬ Reported WARN_NO_FIRST_SELECT vr) (hdata : vr.data = [])
    (h : issueAC V P sel vr = .ok out) : Answered V sel out := by
  have hfirst := reported_warnFirst (parseOrder sel.order []).1 (ordered V sel) vr
  rw [or_iff_right hvr,
    first_iff sel.order fun first => ∃ f, (ordered V sel).head? = some f ∧ f ≠ first] at hfirst
  have hwarned := (warnFirst_data (parseOrder sel.order []).1 (ordered V sel) vr).trans hdata
  have hkept : released V sel = _ := restrict_eq V (ordered V sel)
  have hsub : ((ordered V sel).filter fun g => decide (¬ Removed V g)).Sublist (ordered V sel) :=
    List.filter_sublist
  have h := issueAC_cases h
  generalize warnFirst (parseOrder sel.order []).1 (ordered V sel) vr = warned at h hfirst hwarned
  rcases h with ⟨message, rfl⟩ | ⟨message, rfl⟩ | ⟨-, message, h⟩
  · exact answered_refused hwarned (by decide) hfirst
  · exact answered_refused hwarned (by decide) hfirst
  · have hsubset : Appends [WARN_ATTR_SUBSET] warned
        (if (released V sel).length ≠ (ordered V sel).length then
          warned.setError WARN_ATTR_SUBSET message else warned) := by
      split
      · exact (Appends.refl warned).setError (List.mem_singleton.mpr rfl)
      · exact Appends.refl warned
    have hreported := (hsubset.reported (by decide)).trans hfirst
    simp only at h
    generalize (if (released V sel).length ≠ (ordered V sel).length then
      warned.setError WARN_ATTR_SUBSET message else warned) = noted at h hsubset hreported
    have hnone : noted.data = [] := hsubset.2.1.trans hwarned
    rcases h with rfl | h
    · exact ⟨hreported, _, hsub, nofun, fun _ => congrArg listData hkept⟩
    · rcases writeAC_cases h with ⟨errs, written, herrs, hwritten, rfl⟩ | ⟨serial, a, -, rfl⟩
      · have hfailed : Appends [ERR_NOT_MEMBER] noted { noted with errs := noted.errs ++ errs } :=
          ⟨rfl, rfl, errs, rfl, fun e he => List.mem_singleton.mpr (herrs e he)⟩
        refine ⟨(hfailed.reported (by decide)).trans hreported, _, hsub, fun l hl => ?_, ?_⟩
        · exact (hwritten l hl).trans hkept
        · exact fun hne => absurd hnone hne
      · refine ⟨hreported, _, hsub, fun l hl => ?_, fun hne => absurd rfl hne⟩
        exact (Option.some.inj hl).symm.trans hkept

/-- **The order of the FQANs**, for every order string and answer of the
database, and what every request is told of it. -/
theorem makeAC_ordered (V : Server) :
    (∀ (order : Str) (answer : List Str),
      Arranged (choices order) answer (orderFqans V (parseOrder order []).2 answer)) ∧
    ∀ (D : Database) (unknown : Bool) (P : Party) (message : Str) (out : Outcome),
      makeAC V D (.start unknown) P message = .ok out →
        (∃ vr, interpretRequest V D (.start unknown) message = .ok (none, vr) ∧
          ¬ Reported WARN_NO_FIRST_SELECT out.vr) ∨
        ∃ sel vr, interpretRequest V D (.start unknown) message = .ok (some sel, vr) ∧
          Answered V sel out := by
  refine ⟨arranged_orderFqans V, fun D unknown P message out h => ?_⟩
  unfold makeAC at h
  obtain ⟨⟨sel, vr⟩, hint, h⟩ := Res.bind_eq_ok.mp h
  have hearly := appends_interpretRequest (appends_start unknown) hint
  have hvr : ¬ Reported WARN_NO_FIRST_SELECT vr := by
    rw [hearly.reported (by decide)]
    simp [Reported, VomsResult.new]
  cases sel with
  | none =>
    cases h
    exact Or.inl ⟨_, hint, hvr⟩
  | some sel => exact Or.inr ⟨sel, vr, hint, issueAC_answered hvr hearly.2.1 h⟩

namespace Sample

/-- An answer with one group twice. -/
def twice : List Str := ["/vo".toList, "/vo/pilot".toList, "/vo".toList]

/-- The order names a group that is not there, one that is, and the first again. -/
def absent : Str := xmlReqEncode "G/vo".toList "/vo/prod,/vo/pilot,/vo/prod".toList [] 43200

def pilotFirst : List Str :=
  ["/vo/pilot/Role=NULL/Capability=NULL".toList, "/vo/Role=NULL/Capability=NULL".toList]

end Sample

/-- `makeAC_ordered` for a first choice that is absent. -/
theorem makeAC_ordered_absent :
    ∃ out, makeAC Sample.timed (obliging Sample.twice) (.start false) Sample.party Sample.absent =
        .ok out ∧ out.written = some Sample.pilotFirst ∧ Reported WARN_NO_FIRST_SELECT out.vr := by
  have hrun : makeAC Sample.timed (obliging Sample.twice) (.start false) Sample.party Sample.absent =
      .ok ⟨true, ⟨"coded".toList, [], [⟨WARN_NO_FIRST_SELECT,
        "FQAN: /vo/pilot is not the first selected!\n".toList⟩], true⟩, some Sample.twice,
        some Sample.pilotFirst⟩ := rfl
  have hsel : interpretRequest Sample.timed (obliging Sample.twice) (.start false) Sample.absent =
      .ok (some ⟨["G/vo".toList], [[]], 43200, "/vo/prod,/vo/pilot,/vo/prod".toList, "G/vo".toList,
        ⟨Sample.twice, []⟩⟩, { VomsResult.start false with base64 := true }) := rfl
  refine ⟨_, hrun, rfl, ?_⟩
  rcases (makeAC_ordered Sample.timed).2 _ _ _ _ _ hrun with ⟨vr, hint, -⟩ | ⟨sel, vr, hint, hout⟩
  · rw [hsel] at hint
    cases hint
  · rw [hsel] at hint
    cases hint
    exact hout.warning.mpr ⟨"/vo/prod".toList, rfl, "/vo/pilot".toList, rfl, by decide⟩

end Voms.L5
