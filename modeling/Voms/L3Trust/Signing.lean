import Voms.L3Trust.Evaluate

/-!
# The signing policies by themselves

`restriction_evaluate_signing` and `evaluate_match_signing`
(`src/sslutils/evaluate.c`), apart from the question whether their answer is
asked for.

* The loop over the chain ends with the first certificate that is decided,
  by a permit too, so what stands behind it is never looked at
  (`restrictionEvaluateSigning_sound_iff`).
* The comparison measures the pattern before normalisation and compares
  after it: `evaluateMatchSigning_iff`.
-/
namespace Voms.L3

open Voms.Core Voms.L1

/-! ## The chain -/

/-- A signing policy for the issuer of the certificate permits or denies it. -/
def Decided (M : Matcher) (signings : List Policy) (cert : X509) : Prop :=
  ∃ policy ∈ signings, policyApplies M cert policy = true ∧
    ∃ s, restrictionEvaluatePolicy M cert policy = .ok s ∧ s ≠ .undecided

/-- If the certificate is decided, it is permitted. -/
def Clear (M : Matcher) (signings : List Policy) (cert : X509) : Prop :=
  isselfsigned cert = false → Decided M signings cert → evaluateCert M signings cert = .ok .permit

/-- What a permit of the chain should say. -/
structure ChainPermitted (M : Matcher) (signings : List Policy) (chain : List X509) : Prop where
  clear : ∀ c ∈ chain, Clear M signings c
  ends : ∃ c, chain.getLast? = some c ∧ (isselfsigned c = true ∨ Decided M signings c)

section

variable {M : Matcher} {signings : List Policy}

theorem not_decided_of_undecided : ∀ {signings : List Policy} {cert : X509},
    evaluatePolicies M cert signings = .ok .undecided → ¬ Decided M signings cert
  | [], _, _, ⟨_, hmem, _⟩ => by cases hmem
  | policy :: rest, cert, h, ⟨policy', hmem, happlies, s, hs, hne⟩ => by
    unfold evaluatePolicies at h
    by_cases hpolicy : policyApplies M cert policy = true
    · rw [if_pos hpolicy] at h
      obtain ⟨r, hr, h⟩ := Res.bind_eq_ok.mp h
      split at h
      · next hdecides =>
        cases h
        exact hdecides rfl
      · next hundecided =>
        have hru : r = .undecided := by simpa using hundecided
        rcases List.mem_cons.mp hmem with rfl | hmem
        · rw [hr] at hs
          cases hs
          exact hne hru
        · exact not_decided_of_undecided h ⟨policy', hmem, happlies, s, hs, hne⟩
    · rw [if_neg hpolicy] at h
      rcases List.mem_cons.mp hmem with rfl | hmem
      · exact hpolicy happlies
      · exact not_decided_of_undecided h ⟨policy', hmem, happlies, s, hs, hne⟩

theorem decided_of_evaluatePolicies : ∀ {signings : List Policy} {cert : X509} {s : Success},
    evaluatePolicies M cert signings = .ok s → s ≠ .undecided → Decided M signings cert
  | [], _, _, h, hne => by
    cases h
    exact absurd rfl hne
  | policy :: rest, cert, s, h, hne => by
    have hrest : evaluatePolicies M cert rest = .ok s → Decided M (policy :: rest) cert := by
      intro h
      obtain ⟨policy', hmem, hpolicy'⟩ := decided_of_evaluatePolicies h hne
      exact ⟨policy', List.mem_cons_of_mem _ hmem, hpolicy'⟩
    unfold evaluatePolicies at h
    split at h
    · next happlies =>
      obtain ⟨r, hr, h⟩ := Res.bind_eq_ok.mp h
      split at h
      · next hdecides => exact ⟨policy, List.mem_cons_self .., happlies, r, hr, hdecides⟩
      · exact hrest h
    · exact hrest h

/-- A certificate that is permitted is self-signed, or a policy says so. -/
theorem decided_of_permit {cert : X509} (h : evaluateCert M signings cert = .ok .permit) :
    isselfsigned cert = true ∨ Decided M signings cert := by
  unfold evaluateCert at h
  split at h
  · next hself => exact Or.inl hself
  · exact Or.inr (decided_of_evaluatePolicies h (by decide))

/-- A certificate the evaluation passes over is not decided. -/
theorem clear_of_undecided {cert : X509}
    (h : evaluateCert M signings cert = .ok .undecided) : Clear M signings cert := by
  intro hself hdecided
  unfold evaluateCert at h
  rw [if_neg (by simp [hself])] at h
  exact absurd hdecided (not_decided_of_undecided h)

end

/-- **A permit is right** exactly if the chain is not empty and nothing is
decided against it behind the first certificate that is permitted, with the
last one decided too. -/
theorem restrictionEvaluateSigning_sound_iff (M : Matcher) (chain : List X509)
    (signings : List Policy) :
    (restrictionEvaluateSigning M chain signings = .ok .permit → ChainPermitted M signings chain) ↔
      chain ≠ [] ∧ ∀ before c after, chain = before ++ c :: after →
        (∀ d ∈ before, evaluateCert M signings d = .ok .undecided) →
          evaluateCert M signings c = .ok .permit →
            (∀ d ∈ after, Clear M signings d) ∧
              ∀ d, after.getLast? = some d → isselfsigned d = true ∨ Decided M signings d := by
  rw [restrictionEvaluateSigning_permit_iff]
  constructor
  · intro h
    constructor
    · intro hnil
      obtain ⟨c, hlast, -⟩ := (h (Or.inl hnil)).ends
      rw [hnil] at hlast
      cases hlast
    · intro before c after heq hbefore hc
      obtain ⟨hclear, last, hlast, hends⟩ := h (Or.inr ⟨before, c, after, heq, hbefore, hc⟩)
      refine ⟨fun d hd => hclear d (by simp [heq, hd]), fun d hd => ?_⟩
      have : chain.getLast? = some d := by
        rw [heq, List.getLast?_append, List.getLast?_cons, hd]
        rfl
      rw [this] at hlast
      cases hlast
      exact hends
  · intro ⟨hne, h⟩ hpermit
    rcases hpermit with hnil | ⟨before, c, after, heq, hbefore, hc⟩
    · exact absurd hnil hne
    · obtain ⟨hafter, hends⟩ := h before c after heq hbefore hc
      have hdecided := decided_of_permit hc
      constructor
      · intro d hd
        rw [heq, List.mem_append, List.mem_cons] at hd
        rcases hd with hd | rfl | hd
        · exact clear_of_undecided (hbefore d hd)
        · exact fun _ _ => hc
        · exact hafter d hd
      · cases hlast : after.getLast? with
        | none =>
          obtain rfl := List.getLast?_eq_none_iff.mp hlast
          exact ⟨c, by simp [heq], hdecided⟩
        | some d => exact ⟨d, by simp [heq, hlast, List.getLast?_cons], hends d hlast⟩

namespace Sample

/-- An intermediate CA, issued by the root, and a user it issued. -/
def middle : X509 := Voms.L1.Sample.cert (Voms.L1.Sample.name "middle" 4) 12 22

def staff : X509 :=
  { Voms.L1.Sample.cert (Voms.L1.Sample.name "staff" 5) 13 23 with issuer := middle.subject }

/-- What the policy of one CA says of one name. -/
def saying (caname subject : String) (positive : Bool) : Policy :=
  ⟨caname.toList, false, .signing, some [⟨some [subject.toList], positive⟩]⟩

end Sample

/-- The intermediate CA may issue `/CN=staff`, but the root may not have
issued the intermediate CA. -/
theorem restrictionEvaluateSigning_misses_denial :
    ¬ ∀ (M : Matcher) (chain : List X509) (signings : List Policy),
      restrictionEvaluateSigning M chain signings = .ok .permit →
        ChainPermitted M signings chain := by
  intro h
  have hpermit := h Sample.matcher [Sample.staff, Sample.middle, Voms.L1.Sample.root]
    [Sample.saying "/CN=middle" "/CN=staff" true, Sample.saying "/CN=ca" "/CN=middle" false]
    (by decide)
  have hmiddle := hpermit.clear Sample.middle (by simp) (by decide)
    ⟨Sample.saying "/CN=ca" "/CN=middle" false, by simp, by decide, .deny, by decide, by decide⟩
  exact absurd hmiddle (by decide)

/-! ## One pattern -/

/-- What a pattern of a signing policy should match. -/
def signingMatches (pattern subject : Str) : Bool :=
  match pattern.getLast? with
  | none => subject == []
  | some '*' => (normalize pattern).dropLast.isPrefixOf (normalize subject)
  | some _ => normalize pattern == normalize subject

/-- The normal forms differ, for the first time between the ends of the two
spellings of the pattern. -/
def PartsBetween (pattern subject : Str) : Prop :=
  let n := commonLength (normalize pattern) (normalize subject)
  normalize pattern ≠ normalize subject ∧
    (pattern.length ≤ n + 1 ∧ n + 1 < (normalize pattern).length ∨
      (normalize pattern).length ≤ n + 1 ∧ n + 1 < pattern.length)

/-- The comparison with a `*` is right exactly if the forms do not part there. -/
theorem wildcard_iff (pattern subject : Str) :
    ((normalize pattern).take (pattern.length - 1) ==
        (normalize subject).take (pattern.length - 1)) =
      (normalize pattern).dropLast.isPrefixOf (normalize subject) ↔
      ¬ PartsBetween pattern subject := by
  have hcompared := take_eq_take_iff (s := normalize pattern) (t := normalize subject)
    (n := pattern.length - 1)
  have hprefix := take_prefix_iff (s := normalize pattern) (t := normalize subject)
    (n := (normalize pattern).length - 1) (Nat.sub_le ..)
  rw [Bool.eq_iff_iff, beq_iff_eq, List.isPrefixOf_iff_prefix, List.dropLast_eq_take, hcompared,
    hprefix]
  unfold PartsBetween
  by_cases heq : normalize pattern = normalize subject
  · have hself := (take_prefix_iff (s := normalize pattern) (t := normalize subject)
      (Nat.le_refl _)).mp (by simp [heq])
    simp only [heq, or_true, true_iff, ne_eq, not_true_eq_false, false_and, not_false_eq_true,
      iff_true]
    rw [heq] at hself
    omega
  · simp only [heq, or_false, ne_eq, not_false_eq_true, true_and]
    omega

/-- **What a pattern matches** is what it should exactly if the pattern is
not empty and, where it ends in `*`, the place where its normal form and the
subject's part does not lie between the ends of its two spellings. -/
theorem evaluateMatchSigning_iff (pattern subject : Str) (type : Bool) :
    evaluateMatchSigning pattern subject type =
        pure (if signingMatches pattern subject then (if type then .permit else .deny)
          else .undecided) ↔
      pattern ≠ [] ∧ (pattern.getLast? = some '*' → ¬ PartsBetween pattern subject) := by
  have hinj (a b : Bool) : (pure (if a then (if type then .permit else .deny) else .undecided) :
      Eval Success) = pure (if b then (if type then .permit else .deny) else .undecided) ↔
        a = b := by
    cases a <;> cases b <;> cases type <;> decide
  unfold evaluateMatchSigning signingMatches
  cases hlast : pattern.getLast? with
  | none => simp [List.getLast?_eq_none_iff.mp hlast]
  | some c =>
    have hne : pattern ≠ [] := by
      rintro rfl
      cases hlast
    by_cases hstar : c = '*'
    · subst hstar
      simp only [if_true, hinj, wildcard_iff, hne, ne_eq, not_false_eq_true, true_and,
        forall_const]
    · simp [hstar, hne]

/-- `/E=a*` permits `/E=z`. -/
theorem evaluateMatchSigning_mismeasures :
    ¬ ∀ (pattern subject : Str) (type : Bool), evaluateMatchSigning pattern subject type =
      pure (if signingMatches pattern subject then (if type then .permit else .deny)
        else .undecided) := by
  intro h
  exact absurd (h "/E=a*".toList "/E=z".toList true) (by decide)

/-- And `/USERID=a*` does not permit `/USERID=ab`. -/
example : evaluateMatchSigning "/USERID=a*".toList "/USERID=ab".toList true = .ok .undecided ∧
    signingMatches "/USERID=a*".toList "/USERID=ab".toList = true := by decide

end Voms.L3
