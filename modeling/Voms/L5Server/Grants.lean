import Voms.L5Server.Commands

/-!
# What the server releases

A proxy that carries attributes of the VO already must not gain others by
asking for a second AC. `makeAC_released`: the FQANs given to the AC writer
are those of the database's answer that the proxy's own ACs of this VO grant,
or all of them if these grant none; without one there is an error and no AC;
and the warning that a request was not met in full is there exactly when an
FQAN was removed.
-/
namespace Voms.L5

open Voms.Core Voms.L1 Voms.L2 Voms.L3

/-- The proxy has FQANs of this VO, and the form of `fqan` is none of them. -/
def Removed (V : Server) (fqan : Str) : Prop := V.existing ≠ [] ∧ V.form fqan ∉ V.existing

instance (V : Server) (fqan : Str) : Decidable (Removed V fqan) := by
  unfold Removed
  infer_instance

theorem form_cases (V : Server) (fqan : Str) : V.form fqan = fqan ∨ V.form fqan = longFqan fqan := by
  unfold Server.form
  split
  · exact Or.inl rfl
  · exact Or.inr rfl

/-! ## The list of FQANs -/

/-- Ordering neither loses an FQAN nor makes one. -/
theorem mem_orderFqans {V : Server} {ordering : Ordermap} {fqans : List Str} {f : Str} :
    f ∈ orderFqans V ordering fqans ↔ f ∈ fqans := by
  unfold orderFqans
  simp only
  rw [(V.sorter.partialSort_perm _ _ _).mem_iff, mem_destutter_ne,
    (V.sorter.sort_perm _ _).mem_iff]

theorem restrict_eq (V : Server) (fqans : List Str) :
    restrict V fqans = (fqans.filter fun g => decide (¬ Removed V g)).map V.form := by
  unfold restrict
  simp only
  by_cases h : V.existing = []
  · have hall : ∀ g ∈ fqans, decide (¬ Removed V g) = true := fun g _ => by simp [Removed, h]
    rw [if_pos h, List.filter_eq_self.mpr hall]
  · rw [if_neg h, List.filter_map]
    congr 1
    refine List.filter_congr fun g _ => ?_
    simp [Removed, h, notIn]

theorem mem_restrict {V : Server} {fqans : List Str} {f : Str} :
    f ∈ restrict V fqans ↔ ∃ g ∈ fqans, ¬ Removed V g ∧ V.form g = f := by
  rw [restrict_eq]
  simp [and_assoc]

/-- Every FQAN that is left is one of the list, and granted. -/
theorem restrict_granted {V : Server} {fqans : List Str} {f : Str} (h : f ∈ restrict V fqans) :
    (f ∈ fqans ∨ ∃ g ∈ fqans, f = longFqan g) ∧ (V.existing ≠ [] → f ∈ V.existing) := by
  obtain ⟨g, hg, hkept, rfl⟩ := mem_restrict.mp h
  refine ⟨?_, fun hne => by_contra fun hout => hkept ⟨hne, hout⟩⟩
  rcases form_cases V g with heq | heq
  · exact Or.inl (by rw [heq]; exact hg)
  · exact Or.inr ⟨g, hg, heq⟩

theorem restrict_eq_nil {V : Server} {fqans : List Str} :
    restrict V fqans = [] ↔ ∀ g ∈ fqans, Removed V g := by
  rw [restrict_eq]
  simp

/-- What `remove_if` returns differs from the end exactly if something goes. -/
theorem length_restrict_ne {V : Server} {fqans : List Str} :
    (restrict V fqans).length ≠ fqans.length ↔ ∃ g ∈ fqans, Removed V g := by
  rw [restrict_eq, List.length_map, ne_eq, List.length_filter_eq_length_iff]
  simp

theorem mem_ordered {V : Server} {sel : Selection} {f : Str} :
    f ∈ ordered V sel ↔ f ∈ sel.lists.fqans := mem_orderFqans

/-- Only a subset is released. -/
theorem subset_iff {V : Server} {sel : Selection} :
    (released V sel).length ≠ (ordered V sel).length ↔ ∃ g ∈ sel.lists.fqans, Removed V g := by
  unfold released
  rw [length_restrict_ne]
  simp only [mem_ordered]

/-! ## The errors -/

/-- `vr'` is `vr` with more errors, none of them the warning about a subset. -/
def Adds (vr vr' : VomsResult) : Prop :=
  vr'.ac = vr.ac ∧ ∃ es, vr'.errs = vr.errs ++ es ∧ ∀ e ∈ es, e.num ≠ WARN_ATTR_SUBSET

theorem Adds.refl (vr : VomsResult) : Adds vr vr := ⟨rfl, [], by simp⟩

theorem Adds.trans {a b c : VomsResult} (hab : Adds a b) (hbc : Adds b c) : Adds a c := by
  obtain ⟨hac, es, hes, hne⟩ := hab
  obtain ⟨hac', es', hes', hne'⟩ := hbc
  refine ⟨hac'.trans hac, es ++ es', by rw [hes', hes, List.append_assoc], fun e he => ?_⟩
  rcases List.mem_append.mp he with he | he
  · exact hne e he
  · exact hne' e he

theorem Adds.setError {vr vr' : VomsResult} {num : Int} {message : Str} (h : Adds vr vr')
    (hnum : num ≠ WARN_ATTR_SUBSET) : Adds vr (vr'.setError num message) :=
  h.trans ⟨rfl, [⟨num, message⟩], rfl, fun e he => by rw [List.mem_singleton.mp he]; exact hnum⟩

/-- `vr'` is `vr` with more errors, their numbers among `nums`. -/
def Appends (nums : List Int) (vr vr' : VomsResult) : Prop :=
  vr'.ac = vr.ac ∧ vr'.data = vr.data ∧ ∃ es, vr'.errs = vr.errs ++ es ∧ ∀ e ∈ es, e.num ∈ nums

section

variable {nums : List Int} {vr vr' : VomsResult}

theorem Appends.refl (vr : VomsResult) : Appends nums vr vr := ⟨rfl, rfl, [], by simp⟩

theorem Appends.setError {num : Int} {message : Str} (h : Appends nums vr vr') (hnum : num ∈ nums) :
    Appends nums vr (vr'.setError num message) := by
  obtain ⟨hac, hdata, es, hes, hin⟩ := h
  refine ⟨hac, hdata, es ++ [⟨num, message⟩], ?_, fun e he => ?_⟩
  · rw [VomsResult.setError, hes, List.append_assoc]
  · rcases List.mem_append.mp he with he | he
    · exact hin e he
    · rw [List.mem_singleton.mp he]
      exact hnum

theorem Appends.adds (h : Appends nums vr vr') (hnums : WARN_ATTR_SUBSET ∉ nums) : Adds vr vr' := by
  obtain ⟨hac, -, es, hes, hin⟩ := h
  exact ⟨hac, es, hes, fun e he heq => hnums (heq ▸ hin e he)⟩

end

/-- The numbers of the errors and warnings before an AC is issued. -/
def earlyNums : List Int :=
  [WARN_UNKNOWN_COMMAND, WARN_SHORT_VALIDITY, ERR_SUSPENDED, ERR_NOT_MEMBER, ERR_WITH_DB,
    ERR_NO_COMMAND]

theorem appends_start (unknown : Bool) : Appends earlyNums .new (VomsResult.start unknown) := by
  unfold VomsResult.start
  split
  · exact (Appends.refl _).setError (by decide)
  · exact Appends.refl _

theorem appends_shortenValidity {vr vr' : VomsResult} (h : Appends earlyNums vr vr') (V : Server)
    (requested : Int) : Appends earlyNums vr (shortenValidity V requested vr').2 := by
  unfold shortenValidity
  split
  · split
    · exact h
    · split
      · exact h.setError (by decide)
      · exact h
  · exact h

theorem appends_getUserid {vr vr' : VomsResult} (h : Appends earlyNums vr vr') (V : Server)
    (D : Database) : Appends earlyNums vr (getUserid V D vr').2 := by
  unfold getUserid
  simp only
  split
  · exact h
  · split
    · exact h.setError (by decide)
    · split
      · exact h.setError (by decide)
      · exact h.setError (by decide)

theorem appends_interpretRequest {V : Server} {D : Database} {vr vr' vr'' : VomsResult}
    {message : Str} {sel : Option Selection} (hvr : Appends earlyNums vr vr')
    (h : interpretRequest V D vr' message = .ok (sel, vr'')) : Appends earlyNums vr vr'' := by
  unfold interpretRequest at h
  split at h
  · cases h
    exact hvr.setError (by decide)
  · next r _ =>
    simp only at h
    split at h
    · cases h
    · have hbase : Appends earlyNums vr { vr' with base64 := V.base64encoding || r.base64 } := hvr
      have hshort := appends_shortenValidity hbase V r.lifetime
      split at h
      · have huser := appends_getUserid hshort V D
        split at h
        · next heq =>
          rw [heq] at huser
          cases h
          exact huser
        · next heq =>
          rw [heq] at huser
          obtain ⟨⟨result, p⟩, -, h⟩ := Res.bind_eq_ok.mp h
          cases result with
          | true =>
            cases h
            exact huser
          | false =>
            cases h
            exact huser.setError (by decide)
      · cases h
        exact hshort.setError (by decide)

theorem adds_warnFirst (firstfqan : Str) (fqans : List Str) (vr : VomsResult) :
    Adds vr (warnFirst firstfqan fqans vr) := by
  unfold warnFirst
  split
  · exact Adds.refl _
  · split
    · exact (Adds.refl _).setError (by decide)
    · exact Adds.refl _

/-- Nothing before put the warning there. -/
theorem warning_iff {vr : VomsResult} (h : Adds .new vr) (subset : Prop) [Decidable subset]
    (message : Str) :
    (∃ e ∈ (if subset then vr.setError WARN_ATTR_SUBSET message else vr).errs,
        e.num = WARN_ATTR_SUBSET) ↔ subset := by
  obtain ⟨-, es, hes, hne⟩ := h
  have hes : vr.errs = es := hes
  split
  · next hs =>
    simp only [hs, iff_true]
    exact ⟨⟨WARN_ATTR_SUBSET, message⟩, by simp [VomsResult.setError], rfl⟩
  · next hs =>
    simp only [hs, iff_false]
    rintro ⟨e, he, hnum⟩
    exact hne e (hes ▸ he) hnum

/-! ## The answer -/

/-- What an outcome keeps to. -/
structure Released (V : Server) (out : Outcome) : Prop where
  /-- Only what the database answered, and the proxy's ACs grant, is written. -/
  written : ∀ l, out.written = some l → ∃ ans, out.answer = some ans ∧
    ∀ f ∈ l, (f ∈ ans ∨ ∃ g ∈ ans, f = longFqan g) ∧ (V.existing ≠ [] → f ∈ V.existing)
  /-- An AC in the answer is one that was written. -/
  issued : out.ret = true → out.vr.ac ≠ [] → out.written ≠ none
  /-- Without an FQAN that is left there is an error and no AC. -/
  nothing : ∀ ans, out.answer = some ans → (∀ g ∈ ans, Removed V g) →
    out.ret = false ∧ out.written = none ∧ out.vr.ac = VomsResult.new.ac ∧
      ∃ e ∈ out.vr.errs, ERROR_OFFSET < e.num
  /-- The warning says whether an FQAN was removed. -/
  warning : out.ret = true → ∃ ans, out.answer = some ans ∧
    ((∃ e ∈ out.vr.errs, e.num = WARN_ATTR_SUBSET) ↔ ∃ g ∈ ans, Removed V g)

/-- An answer that is refused before the AC is written. -/
theorem released_refused {V : Server} {vr : VomsResult} (h : Adds .new vr) {num : Int}
    (hnum : ERROR_OFFSET < num) {message : Str} {ans : Option (List Str)} :
    Released V ⟨false, vr.setError num message, ans, none⟩ where
  written := nofun
  issued := nofun
  nothing _ _ _ := ⟨rfl, rfl, h.1, ⟨num, message⟩, by simp [VomsResult.setError], hnum⟩
  warning := nofun

/-- `createac` is given these FQANs, or it is not called; an answer has the
errors there were before. -/
theorem writeAC_ok {V : Server} {P : Party} {sel : Selection} {fqans : List Str}
    {attribs : List Gattrib} {vr : VomsResult} {out : Outcome}
    (h : writeAC V P sel fqans attribs vr = .ok out) :
    out.answer = some sel.lists.fqans ∧ (∀ l, out.written = some l → l = fqans) ∧
      (out.ret = true → out.written = some fqans ∧ out.vr.errs = vr.errs) := by
  rcases writeAC_cases h with ⟨errs, written, -, hwritten, rfl⟩ | ⟨serial, a, -, rfl⟩
  · exact ⟨rfl, hwritten, nofun⟩
  · exact ⟨rfl, fun l hl => (Option.some.inj hl).symm, fun _ => ⟨rfl, rfl⟩⟩

theorem issueAC_released {V : Server} {P : Party} {sel : Selection} {vr : VomsResult}
    {out : Outcome} (hvr : Adds .new vr) (h : issueAC V P sel vr = .ok out) :
    Released V out := by
  have hwarn : Adds .new (warnFirst (parseOrder sel.order []).1 (ordered V sel) vr) :=
    hvr.trans (adds_warnFirst ..)
  rcases issueAC_cases h with ⟨message, rfl⟩ | ⟨message, rfl⟩ | ⟨hleft, message, h⟩
  · exact released_refused hwarn (show ERROR_OFFSET < ERR_NOT_MEMBER by decide)
  · exact released_refused hwarn (show ERROR_OFFSET < ERR_ATTR_EMPTY by decide)
  · -- an FQAN is left, so the answer is about an AC or a list
    have hsubset := (warning_iff hwarn ((released V sel).length ≠ (ordered V sel).length) message).trans
      subset_iff
    have hnothing : ¬ ∀ g ∈ sel.lists.fqans, Removed V g := by
      intro hall
      exact hleft (restrict_eq_nil.mpr fun g hg => hall g (mem_ordered.mp hg))
    have hfrom : ∀ f ∈ released V sel, (f ∈ sel.lists.fqans ∨
        ∃ g ∈ sel.lists.fqans, f = longFqan g) ∧ (V.existing ≠ [] → f ∈ V.existing) := by
      intro f hf
      simpa only [mem_ordered] using restrict_granted hf
    rcases h with rfl | h
    · exact
        { written := nofun
          issued := fun _ hac => absurd rfl hac
          nothing := fun ans hans hall => absurd (Option.some.inj hans ▸ hall) hnothing
          warning := fun _ => ⟨_, rfl, hsubset⟩ }
    · obtain ⟨hans, hwritten, hret⟩ := writeAC_ok h
      exact
        { written := fun l hl => ⟨_, hans, hwritten l hl ▸ hfrom⟩
          issued := fun ht _ => by rw [(hret ht).1]; exact Option.some_ne_none _
          nothing := fun ans ha hall =>
            absurd (Option.some.inj (hans.symm.trans ha) ▸ hall) hnothing
          warning := fun ht => ⟨_, hans, by rw [(hret ht).2]; exact hsubset⟩ }

/-- **What the server releases.** -/
theorem makeAC_released {V : Server} {D : Database} {unknown : Bool} {P : Party} {message : Str}
    {out : Outcome} (h : makeAC V D (.start unknown) P message = .ok out) : Released V out := by
  unfold makeAC at h
  obtain ⟨⟨sel, vr⟩, hint, h⟩ := Res.bind_eq_ok.mp h
  have hvr := (appends_interpretRequest (appends_start unknown) hint).adds (by decide)
  cases sel with
  | none =>
    cases h
    exact ⟨nofun, nofun, nofun, nofun⟩
  | some sel => exact issueAC_released hvr h

namespace Sample

/-- The server, asked for a second AC: the first one is for `/vo` alone. -/
def second : Server :=
  { voServer with retrieved := [{ VomsRecord.new with
      voname := "vo".toList, fqan := ["/vo/Role=NULL/Capability=NULL".toList] }] }

end Sample

/-- A member of two groups whose proxy carries one of them gets that one. -/
theorem makeAC_released_second :
    ∃ out, makeAC Sample.second (obliging ["/vo".toList, "/vo/pilot".toList]) (.start false)
        Sample.party (xmlReqEncode "G/vo".toList [] [] (-1)) = .ok out ∧
      out.written = some ["/vo/Role=NULL/Capability=NULL".toList] ∧ Released Sample.second out ∧
      ∃ e ∈ out.vr.errs, e.num = WARN_ATTR_SUBSET := by
  have hrun : makeAC Sample.second (obliging ["/vo".toList, "/vo/pilot".toList]) (.start false)
      Sample.party (xmlReqEncode "G/vo".toList [] [] (-1)) = .ok _ := rfl
  refine ⟨_, hrun, rfl, makeAC_released hrun, ?_⟩
  obtain ⟨ans, hans, hwarning⟩ := (makeAC_released hrun).warning rfl
  cases hans
  exact hwarning.mpr ⟨"/vo/pilot".toList, by decide, by decide⟩

end Voms.L5
