import Voms.L3Trust.Evaluate

/-!
# The subjects of a policy

`restriction_evaluate_policy` (`src/sslutils/evaluate.c`) goes through the
conditions of a policy, and in each through its subjects. The answer it
should give is `decision`: a denial if a subject of a denying condition
matches, else a permit if one of a permitting condition does.

The index of the subjects is not set back between two conditions. Of each
list only what stands behind the length of the list before is read, and a
list shorter than that is read past its end. `readings` is what the loops
read if nothing stops them, `skipped` what they pass over.
`restrictionEvaluatePolicy_iff` says when the answer is right all the same.
-/
namespace Voms.L3

open Voms.Core Voms.L1

/-! ## What the answer should be -/

/-- A subject with the polarity of its condition. -/
structure Entry where
  pattern : Str
  positive : Bool
  deriving DecidableEq, Repr

def Condition.entries (cond : Condition) : List Entry :=
  (cond.subjects.getD []).map (⟨·, cond.positive⟩)

/-- All subjects of all conditions. -/
def entries (conds : List Condition) : List Entry := conds.flatMap Condition.entries

section

variable (M : Matcher) (type : PolicyType) (subject : Str)

/-- The pattern matches the subject; a `*` at the end of one of a signing
policy stands for anything. -/
def Entry.hits (e : Entry) : Bool :=
  match type with
  | .namespaces => M.regexec (normalize e.pattern) (normalize subject) == some true
  | .signing =>
    if e.pattern.getLast? = some '*' then
      (normalize e.pattern).take (e.pattern.length - 1) ==
        (normalize subject).take (e.pattern.length - 1)
    else normalize e.pattern == normalize subject

def Entry.denies (e : Entry) : Bool := e.hits M type subject && !e.positive

def Entry.permits (e : Entry) : Bool := e.hits M type subject && e.positive

/-- A denial before a permit, and a permit before neither. -/
def decision (l : List Entry) : Success :=
  if l.any (·.denies M type subject) then .deny
  else if l.any (·.permits M type subject) then .permit
  else .undecided

/-! ## What is read -/

/-- An empty pattern of a signing policy is read in front of its start. -/
def Entry.sound (e : Entry) : Bool := type = .namespaces || !e.pattern.isEmpty

/-- The places the loops read from `subjindex` on; `none` is one behind the
end of a list. -/
def readings : List Condition → Nat → List (Option Entry)
  | [], _ => []
  | cond :: rest, subjindex =>
    match cond.subjects with
    | none => readings rest subjindex
    | some subjects =>
      if subjects.length < subjindex then [none]
      else (cond.entries.drop subjindex).map some ++ readings rest subjects.length

/-- The subjects in front of the index. -/
def skipped : List Condition → Nat → List Entry
  | [], _ => []
  | cond :: rest, subjindex =>
    match cond.subjects with
    | none => skipped rest subjindex
    | some subjects => cond.entries.take subjindex ++ skipped rest subjects.length

/-- The subject is there and can be compared. -/
def sure (reading : Option Entry) : Bool := reading.any (·.sound type)

/-- The loops end here, by a denial or by leaving defined behaviour. -/
def stops (reading : Option Entry) : Bool :=
  !sure type reading || reading.any (·.denies M type subject)

/-- The two loops as one over what they read. -/
def evaluateReadings : List (Option Entry) → Success → Eval Success
  | [], success => pure success
  | none :: _, _ => .fault .outOfRange
  | some e :: rest, success =>
    if e.sound type then
      if e.denies M type subject then pure .deny
      else evaluateReadings rest (if e.permits M type subject then .permit else success)
    else .fault .outOfRange

end

variable {M : Matcher} {type : PolicyType} {subject : Str}

/-- The comparison with one subject. -/
theorem evaluateMatch_eq (pattern : Str) (positive : Bool) :
    (match type with
      | .namespaces => pure (evaluateMatchNamespace M pattern subject positive)
      | .signing => evaluateMatchSigning pattern subject positive) =
      if (Entry.mk pattern positive).sound type then
        pure (if (Entry.mk pattern positive).hits M type subject then
          (if positive then .permit else .deny) else .undecided)
      else (.fault .outOfRange : Eval Success) := by
  cases type with
  | namespaces =>
    have hsound : (Entry.mk pattern positive).sound .namespaces = true := rfl
    rw [if_pos hsound]
    unfold evaluateMatchNamespace Entry.hits
    cases M.regexec (normalize pattern) (normalize subject) with
    | none => rfl
    | some b => cases b <;> rfl
  | signing =>
    unfold evaluateMatchSigning Entry.hits
    cases pattern with
    | nil => rfl
    | cons c pattern =>
      have hsound : (Entry.mk (c :: pattern) positive).sound .signing = true := rfl
      rw [if_pos hsound]
      have hlast := List.getLast?_eq_some_getLast (List.cons_ne_nil c pattern)
      generalize (c :: pattern).getLast _ = d at hlast
      simp only [hlast, Option.some.injEq]

/-- One subject, unless a denial has ended the loop. -/
theorem evaluateSubjects_cons {positive : Bool} {pattern : Str} {l : List Str} {success : Success}
    {subjindex : Nat} (hs : success ≠ .deny) :
    evaluateSubjects M type positive subject (pattern :: l) success subjindex =
      if (Entry.mk pattern positive).sound type then
        if (Entry.mk pattern positive).denies M type subject then pure (.deny, subjindex)
        else evaluateSubjects M type positive subject l
          (if (Entry.mk pattern positive).permits M type subject then .permit else success)
          (subjindex + 1)
      else .fault .outOfRange := by
  have hstep : evaluateSubjects M type positive subject (pattern :: l) success subjindex =
      ((match type with
        | .namespaces => pure (evaluateMatchNamespace M pattern subject positive)
        | .signing => evaluateMatchSigning pattern subject positive) >>= fun tempsuccess =>
        if (if tempsuccess ≠ .undecided then tempsuccess else success) = .deny then
          pure (.deny, subjindex)
        else evaluateSubjects M type positive subject l
          (if tempsuccess ≠ .undecided then tempsuccess else success) (subjindex + 1)) := by
    cases type <;> rfl
  rw [hstep, evaluateMatch_eq]
  split
  · unfold Entry.denies Entry.permits
    cases (Entry.mk pattern positive).hits M type subject with
    | false => simp [hs]
    | true => cases positive <;> simp
  · rfl

/-- The subjects of one condition, and then what follows. -/
theorem evaluateSubjects_bind {positive : Bool} {tail : List (Option Entry)} {n : Nat}
    {k : Success → Nat → Eval Success}
    (hk : ∀ success, success ≠ .deny → k success n = evaluateReadings M type subject tail success) :
    ∀ {l : List Str} {success : Success} {subjindex : Nat}, success ≠ .deny →
      subjindex + l.length = n →
      (evaluateSubjects M type positive subject l success subjindex >>= fun r =>
        if r.1 = .deny then pure .deny else k r.1 r.2) =
      evaluateReadings M type subject (l.map (fun p => some ⟨p, positive⟩) ++ tail) success
  | [], success, subjindex, hs, hn => by
    obtain rfl : subjindex = n := hn
    rw [evaluateSubjects, Res.pure_eq, Res.ok_bind, if_neg hs, hk success hs]
    rfl
  | pattern :: l, success, subjindex, hs, hn => by
    have hn : subjindex + 1 + l.length = n := by
      rw [← hn, List.length_cons]
      omega
    have hpermit (p : Prop) [Decidable p] : (if p then .permit else success) ≠ Success.deny := by
      split
      · decide
      · exact hs
    rw [evaluateSubjects_cons hs, List.map_cons, List.cons_append, evaluateReadings]
    split
    · split
      · rfl
      · exact evaluateSubjects_bind hk (hpermit _) hn
    · rfl

theorem evaluateConditions_eq : ∀ {conds : List Condition} {success : Success} {subjindex : Nat},
    success ≠ .deny → evaluateConditions M type subject conds success subjindex =
      evaluateReadings M type subject (readings conds subjindex) success
  | [], _, _, _ => rfl
  | cond :: rest, success, subjindex, hs => by
    unfold evaluateConditions readings
    cases hsubjects : cond.subjects with
    | none => exact evaluateConditions_eq hs
    | some subjects =>
      simp only
      split
      · rfl
      · next hle =>
        have hentries : (cond.entries.drop subjindex).map some =
            (subjects.drop subjindex).map fun p => some ⟨p, cond.positive⟩ := by
          unfold Condition.entries
          rw [hsubjects, Option.getD_some, ← List.map_drop, List.map_map]
          rfl
        rw [hentries]
        refine evaluateSubjects_bind (fun s hs => evaluateConditions_eq hs) hs ?_
        rw [List.length_drop]
        omega

/-- Where the loops end before they are through, it is by a denial or a fault. -/
theorem evaluateReadings_eq : ∀ {l : List (Option Entry)} {success : Success}, success ≠ .deny →
    evaluateReadings M type subject l success =
      match l.find? (stops M type subject) with
      | none => .ok (if l.any (·.any (·.permits M type subject)) then .permit else success)
      | some r => if sure type r then .ok .deny else .fault .outOfRange
  | [], _, _ => rfl
  | none :: _, _, _ => rfl
  | some e :: l, success, hs => by
    unfold evaluateReadings
    rw [List.find?_cons, List.any_cons]
    by_cases hsound : e.sound type = true
    · by_cases hdenies : e.denies M type subject = true
      · simp [hsound, hdenies, stops, sure]
      · have hgo : stops M type subject (some e) = false := by simp [stops, sure, hsound, hdenies]
        have hpermit : (if e.permits M type subject then .permit else success) ≠ Success.deny := by
          split
          · decide
          · exact hs
        rw [if_pos hsound, if_neg hdenies, hgo, evaluateReadings_eq hpermit]
        cases l.find? (stops M type subject) with
        | some r => rfl
        | none => cases h : e.permits M type subject <;> simp [h]
    · simp [hsound, stops, sure]

/-! ## What is passed over -/

theorem mem_entries_of_readings {e : Entry} : ∀ {conds : List Condition} {subjindex : Nat},
    some e ∈ readings conds subjindex → e ∈ entries conds
  | [], _, h => nomatch h
  | cond :: rest, subjindex, h => by
    unfold readings at h
    rw [entries, List.flatMap_cons, List.mem_append]
    split at h
    · exact Or.inr (mem_entries_of_readings h)
    · split at h
      · simp at h
      · rcases List.mem_append.mp h with h | h
        · obtain ⟨e', he', heq⟩ := List.mem_map.mp h
          cases heq
          exact Or.inl (List.mem_of_mem_drop he')
        · exact Or.inr (mem_entries_of_readings h)

/-- If no list is read past its end, every subject is read or passed over. -/
theorem mem_entries {e : Entry} : ∀ {conds : List Condition} {subjindex : Nat},
    none ∉ readings conds subjindex →
      (e ∈ entries conds ↔ some e ∈ readings conds subjindex ∨ e ∈ skipped conds subjindex)
  | [], _, _ => by simp [entries, readings, skipped]
  | cond :: rest, subjindex, h => by
    unfold readings at h
    unfold readings skipped
    rw [entries, List.flatMap_cons, List.mem_append]
    cases hsubjects : cond.subjects with
    | none =>
      simp only [hsubjects] at h
      have hnone : cond.entries = [] := by simp [Condition.entries, hsubjects]
      rw [hnone]
      simpa [entries] using mem_entries h
    | some subjects =>
      simp only [hsubjects] at h ⊢
      split at h
      · simp at h
      · next hle =>
        have hrest := mem_entries (e := e) fun hn => h (List.mem_append_right _ hn)
        rw [if_neg hle, ← entries, hrest]
        conv_lhs => rw [← List.take_append_drop subjindex cond.entries]
        simp only [List.mem_append, List.mem_map, Option.some.injEq, exists_eq_right]
        tauto

/-- The answer is the right one although subjects are passed over: a denial
is found before anything goes wrong, or nothing goes wrong and what is passed
over would not change the answer. -/
def Heard (M : Matcher) (type : PolicyType) (subject : Str) (conds : List Condition) : Prop :=
  ((readings conds 0).find? (stops M type subject)).any (sure type) = true ∨
    (∀ r ∈ readings conds 0, sure type r = true) ∧
      (∀ e ∈ skipped conds 0, e.denies M type subject = false) ∧
      ((∃ e ∈ skipped conds 0, e.permits M type subject = true) →
        ∃ e, some e ∈ readings conds 0 ∧ e.permits M type subject = true)

theorem decision_eq_deny {l : List Entry} {e : Entry} (he : e ∈ l)
    (hdenies : e.denies M type subject = true) : decision M type subject l = .deny :=
  if_pos (List.any_eq_true.mpr ⟨e, he, hdenies⟩)

/-- A loop that gets through read only subjects that can be compared and do not deny. -/
theorem find?_stops_eq_none {l : List (Option Entry)} :
    l.find? (stops M type subject) = none ↔ (∀ r ∈ l, sure type r = true) ∧
      ∀ e, some e ∈ l → e.denies M type subject = false := by
  rw [List.find?_eq_none]
  constructor
  · intro h
    refine ⟨fun r hr => ?_, fun e he => ?_⟩
    · have hgo := h r hr
      simp only [stops, Bool.or_eq_true, not_or, Bool.not_eq_true', Bool.not_eq_false] at hgo
      exact hgo.1
    · have hgo := h (some e) he
      simp only [stops, Bool.or_eq_true, not_or, Bool.not_eq_true, Option.any_some] at hgo
      exact hgo.2
  · intro h r hr
    cases r with
    | none => exact absurd (h.1 none hr) (by simp [sure])
    | some e => simp [stops, h.1 _ hr, h.2 e hr]

/-- The answer of loops that get through, against the right one. -/
theorem through_iff {conds : List Condition}
    (hfind : (readings conds 0).find? (stops M type subject) = none) :
    (if (readings conds 0).any (·.any (·.permits M type subject)) then .permit else .undecided) =
        decision M type subject (entries conds) ↔
      (∀ e ∈ skipped conds 0, e.denies M type subject = false) ∧
        ((∃ e ∈ skipped conds 0, e.permits M type subject = true) →
          ∃ e, some e ∈ readings conds 0 ∧ e.permits M type subject = true) := by
  obtain ⟨hsure, hread⟩ := find?_stops_eq_none.mp hfind
  have hmem (e : Entry) := mem_entries (e := e) fun hn => absurd (hsure none hn) (by simp [sure])
  have hheard : (readings conds 0).any (·.any (·.permits M type subject)) = true ↔
      ∃ e, some e ∈ readings conds 0 ∧ e.permits M type subject = true := by
    simp only [List.any_eq_true, Option.any_eq_true]
    constructor
    · rintro ⟨_, hr, e, rfl, he⟩
      exact ⟨e, hr, he⟩
    · rintro ⟨e, hr, he⟩
      exact ⟨_, hr, e, rfl, he⟩
  have hdenied : (entries conds).any (·.denies M type subject) = true ↔
      ∃ e ∈ skipped conds 0, e.denies M type subject = true := by
    simp only [List.any_eq_true, hmem]
    constructor
    · rintro ⟨e, he | he, hdenies⟩
      · rw [hread e he] at hdenies
        cases hdenies
      · exact ⟨e, he, hdenies⟩
    · rintro ⟨e, he, hdenies⟩
      exact ⟨e, Or.inr he, hdenies⟩
  have hpermitted : (entries conds).any (·.permits M type subject) = true ↔
      (∃ e, some e ∈ readings conds 0 ∧ e.permits M type subject = true) ∨
        ∃ e ∈ skipped conds 0, e.permits M type subject = true := by
    simp only [List.any_eq_true, hmem, or_and_right, exists_or]
  have hnone : (∀ e ∈ skipped conds 0, e.denies M type subject = false) ↔
      ¬ ∃ e ∈ skipped conds 0, e.denies M type subject = true := by
    simp
  rw [← hheard] at hpermitted
  rw [hnone, ← hheard, ← hdenied]
  unfold decision
  generalize (∃ e ∈ skipped conds 0, e.permits M type subject = true) = passed at hpermitted ⊢
  generalize (readings conds 0).any _ = heard at hpermitted ⊢
  generalize (entries conds).any (·.denies M type subject) = denied
  generalize (entries conds).any (·.permits M type subject) = permitted at hpermitted ⊢
  -- a denial was passed over, or a permit was read, or it is a matter of what was passed over
  cases denied with
  | true => cases heard <;> simp
  | false =>
    cases heard with
    | true =>
      obtain rfl : permitted = true := hpermitted.mpr (Or.inl rfl)
      simp
    | false =>
      simp only [Bool.false_eq_true, false_or] at hpermitted
      rw [← hpermitted]
      cases permitted <;> simp

theorem restrictionEvaluatePolicy_eq (M : Matcher) (cert : X509) (policy : Policy) :
    restrictionEvaluatePolicy M cert policy = evaluateReadings M policy.type cert.subject.oneline
      (readings (policy.conds.getD []) 0) .undecided := by
  unfold restrictionEvaluatePolicy
  cases policy.conds with
  | none => rfl
  | some conds => exact evaluateConditions_eq (by decide)

/-- **When the answer is the right one.** -/
theorem restrictionEvaluatePolicy_iff (M : Matcher) (cert : X509) (policy : Policy) :
    restrictionEvaluatePolicy M cert policy =
        .ok (decision M policy.type cert.subject.oneline (entries (policy.conds.getD []))) ↔
      Heard M policy.type cert.subject.oneline (policy.conds.getD []) := by
  rw [restrictionEvaluatePolicy_eq, evaluateReadings_eq (by decide)]
  generalize policy.conds.getD [] = conds
  generalize policy.type = type
  generalize cert.subject.oneline = subject
  unfold Heard
  cases hfind : (readings conds 0).find? (stops M type subject) with
  | none =>
    have hsure := (find?_stops_eq_none.mp hfind).1
    simp only [Res.ok.injEq, through_iff hfind, Option.any_none, Bool.false_eq_true, false_or]
    exact (and_iff_right hsure).symm
  | some r =>
    have hr := List.mem_of_find?_eq_some hfind
    have hstop := List.find?_some hfind
    cases hsure : sure type r with
    | false =>
      simp only [Option.any_some, hsure, Bool.false_eq_true, if_false, false_or]
      exact ⟨nofun, fun h => absurd (h.1 r hr) (by simp [hsure])⟩
    | true =>
      cases r with
      | none => simp [sure] at hsure
      | some e =>
        have hdenies : e.denies M type subject = true := by simpa [stops, hsure] using hstop
        simp [hsure, decision_eq_deny (mem_entries_of_readings hr) hdenies]

namespace Sample

/-- Two conditions: `/O=vo` is permitted, `/CN=user` denied. -/
def twoConditions : Policy :=
  ⟨"/CN=ca".toList, false, .signing,
    some [⟨some ["/O=vo".toList], true⟩, ⟨some ["/CN=user".toList], false⟩]⟩

end Sample

/-- The subject of the second condition is passed over, and the user not denied. -/
theorem restrictionEvaluatePolicy_skips :
    ¬ ∀ (M : Matcher) (cert : X509) (policy : Policy), restrictionEvaluatePolicy M cert policy =
      .ok (decision M policy.type cert.subject.oneline (entries (policy.conds.getD []))) := by
  intro h
  exact absurd (h Sample.matcher Voms.L1.Sample.user Sample.twoConditions) (by decide)

/-- A second condition with fewer subjects is read past its end. -/
example : restrictionEvaluatePolicy Sample.matcher Voms.L1.Sample.user
    ⟨"/CN=ca".toList, false, .signing,
      some [⟨some ["/O=vo".toList, "/O=x".toList], true⟩, ⟨some ["/CN=user".toList], false⟩]⟩ =
    .fault .outOfRange := by decide

end Voms.L3
