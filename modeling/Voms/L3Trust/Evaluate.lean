import Voms.Core.Res
import Voms.L1Asn1.Dn
import Voms.L1Asn1.Types

/-!
# Namespaces and signing policies

`src/sslutils/evaluate.c`: may the certificates of a chain carry the names
they carry? Policies of the `.namespaces` files are tried first, those of
the `.signing_policy` files if they leave the answer open.

What the code computes differs from that in two places, and both are exact
characterisations here:

* `restriction_evaluate_namespace` assigns its result at every certificate
  and never stops, so only the certificate it visits last decides
  (`evaluateNamespace_eq`). A denial of any other is hidden, and a chain is
  denied exactly when that last one is (`restrictionEvaluate_denies_iff`).
* It turns an undecided result into a permit, so the signing policies are
  never consulted (`restrictionEvaluate_eq_namespace`,
  `restrictionEvaluate_signing_iff`).
-/
namespace Voms.L3

open Voms.Core Voms.L1

/-! ## Policies -/

/-- mirrors src/sslutils/parsertypes.h:49-51 -/
inductive Success where
  | permit | deny | undecided
  deriving DecidableEq, Repr

inductive PolicyType where
  | signing | namespaces
  deriving DecidableEq, Repr

/-- A NULL-terminated array, or NULL. mirrors src/sslutils/parsertypes.h:31-35 -/
structure Condition where
  subjects : Option (List Str)
  positive : Bool
  deriving DecidableEq, Repr

/-- mirrors src/sslutils/parsertypes.h:40-45 -/
structure Policy where
  caname : Str
  self : Bool
  type : PolicyType
  conds : Option (List Condition)
  deriving DecidableEq, Repr

/-- OpenSSL and the C library. -/
structure Matcher where
  /-- `%08lx` of `X509_subject_name_hash`. -/
  gethash : X509 → Str
  /-- `regcomp` and `regexec`; `none` when the pattern does not compile. -/
  regexec : Str → Str → Option Bool

/-! ## One certificate -/

/-- The test `find_policy` makes on one policy.
mirrors src/sslutils/evaluate.c:64-76 -/
def policyApplies (M : Matcher) (cert : X509) (policy : Policy) : Bool :=
  if policy.self then M.gethash cert == policy.caname
  else cert.issuer.oneline == policy.caname

/-- mirrors src/sslutils/evaluate.c:90-113 -/
def evaluateMatchNamespace (M : Matcher) (pattern subject : Str) (type : Bool) : Success :=
  match M.regexec (normalize pattern) (normalize subject) with
  | some true => if type then .permit else .deny
  | some false => .undecided
  | none => .undecided

/-- `len` is taken before normalisation; an empty pattern is read at -1.
mirrors src/sslutils/evaluate.c:115-146 -/
def evaluateMatchSigning (pattern subject : Str) (type : Bool) : Eval Success :=
  let patterntmp := normalize pattern
  let subjecttmp := normalize subject
  let len := pattern.length
  match pattern.getLast? with
  | none => .fault .outOfRange
  | some c =>
    let same :=
      if c = '*' then patterntmp.take (len - 1) == subjecttmp.take (len - 1)
      else patterntmp == subjecttmp
    pure (if same then (if type then .permit else .deny) else .undecided)

/-- The loop over the subjects from `subjindex` on. It ends early on a
denial. -/
def evaluateSubjects (M : Matcher) (type : PolicyType) (positive : Bool) (subject : Str) :
    List Str → Success → Nat → Eval (Success × Nat)
  | [], success, subjindex => pure (success, subjindex)
  | pattern :: rest, success, subjindex => do
    let tempsuccess ←
      (match type with
        | .namespaces => pure (evaluateMatchNamespace M pattern subject positive)
        | .signing => evaluateMatchSigning pattern subject positive)
    let success := if tempsuccess ≠ .undecided then tempsuccess else success
    if success = .deny then pure (.deny, subjindex)
    else evaluateSubjects M type positive subject rest success (subjindex + 1)

/-- The loop over the conditions. `subjindex` is not reset between them: the
subjects of a later condition are read from where the earlier ones ended.
mirrors src/sslutils/evaluate.c:148-195 -/
def evaluateConditions (M : Matcher) (type : PolicyType) (subject : Str) :
    List Condition → Success → Nat → Eval Success
  | [], success, _ => pure success
  | cond :: rest, success, subjindex =>
    match cond.subjects with
    | none => evaluateConditions M type subject rest success subjindex
    | some subjects =>
      if subjects.length < subjindex then .fault .outOfRange
      else do
        let (success, subjindex) ←
          evaluateSubjects M type cond.positive subject (subjects.drop subjindex) success subjindex
        if success = .deny then pure .deny
        else evaluateConditions M type subject rest success subjindex

/-- mirrors src/sslutils/evaluate.c:148-195 -/
def restrictionEvaluatePolicy (M : Matcher) (cert : X509) (policy : Policy) : Eval Success :=
  match policy.conds with
  | none => pure .undecided
  | some conds => evaluateConditions M policy.type cert.subject.oneline conds .undecided 0

/-- mirrors src/sslutils/evaluate.c:197-202 -/
def isselfsigned (cert : X509) : Bool := cert.subject.same cert.issuer

/-- The loop over the applicable policies, in order, up to the first that
decides. -/
def evaluatePolicies (M : Matcher) (cert : X509) : List Policy → Eval Success
  | [] => pure .undecided
  | policy :: rest =>
    if policyApplies M cert policy then do
      let result ← restrictionEvaluatePolicy M cert policy
      if result ≠ .undecided then pure result else evaluatePolicies M cert rest
    else evaluatePolicies M cert rest

/-- Self-signed certificates always pass.
mirrors src/sslutils/evaluate.c:204-229 -/
def evaluateCert (M : Matcher) (policies : List Policy) (cert : X509) : Eval Success :=
  if isselfsigned cert then pure .permit else evaluatePolicies M cert policies

/-! ## The chain -/

/-- `for (j = i; j >= 0; j--)`: the same call until it decides.
mirrors src/sslutils/evaluate.c:255-260 -/
def evaluateAgain (M : Matcher) (policies : List Policy) (cert : X509) : Nat → Eval Success
  | 0 => evaluateCert M policies cert
  | j + 1 => do
    let result ← evaluateCert M policies cert
    if result ≠ .undecided then pure result else evaluateAgain M policies cert j

/-- The order of the visit, with the index of each certificate.
mirrors src/sslutils/evaluate.c:239-250 -/
def visits (chain : List X509) : List (X509 × Nat) :=
  if 1 < chain.length ∧ chain.head?.any isselfsigned = true then chain.zipIdx.reverse
  else chain.zipIdx

/-- The loop of the visit: each certificate overwrites `result`. -/
def namespaceLoop (M : Matcher) (namespaces : List Policy) :
    List (X509 × Nat) → Success → Eval Success
  | [], result => pure result
  | (cert, i) :: rest, _ => do
    let result ← evaluateAgain M namespaces cert i
    namespaceLoop M namespaces rest result

/-- mirrors src/sslutils/evaluate.c:231-270 -/
def restrictionEvaluateNamespace (M : Matcher) (chain : List X509) (namespaces : List Policy) :
    Eval Success := do
  let result ← namespaceLoop M namespaces (visits chain) .permit
  pure (if result = .undecided then .permit else result)

/-- The loop over the chain, up to the first certificate that is decided. -/
def signingLoop (M : Matcher) (signings : List Policy) : List X509 → Success → Eval Success
  | [], result => pure result
  | cert :: rest, _ => do
    let result ← evaluateCert M signings cert
    if result ≠ .undecided then pure result else signingLoop M signings rest result

/-- mirrors src/sslutils/evaluate.c:272-291 -/
def restrictionEvaluateSigning (M : Matcher) (chain : List X509) (signings : List Policy) :
    Eval Success := do
  let result ← signingLoop M signings chain .permit
  pure (if result = .undecided then .deny else result)

/-- mirrors src/sslutils/evaluate.c:293-304 -/
def restrictionEvaluate (M : Matcher) (chain : List X509) (namespaces signings : List Policy) :
    Eval Success := do
  let result ← restrictionEvaluateNamespace M chain namespaces
  if result = .undecided then restrictionEvaluateSigning M chain signings else pure result

/-! ## Only the certificate visited last decides -/

/-- Asking again changes nothing. -/
theorem evaluateAgain_eq (M : Matcher) (policies : List Policy) (cert : X509) :
    ∀ j, evaluateAgain M policies cert j = evaluateCert M policies cert
  | 0 => rfl
  | j + 1 => by
    unfold evaluateAgain
    rw [evaluateAgain_eq M policies cert j]
    cases h : evaluateCert M policies cert with
    | err e => rfl
    | fault f => rfl
    | ok result => cases result <;> rfl

/-- The certificate that is visited last. -/
def lastVisited (chain : List X509) : Option X509 :=
  if 1 < chain.length ∧ chain.head?.any isselfsigned = true then chain.head? else chain.getLast?

theorem mem_of_lastVisited {chain : List X509} {c : X509} (h : lastVisited chain = some c) :
    c ∈ chain := by
  unfold lastVisited at h
  split at h
  · exact List.mem_of_head? h
  · exact List.mem_of_getLast? h

theorem mem_visits {chain : List X509} {cert : X509} :
    cert ∈ (visits chain).map Prod.fst ↔ cert ∈ chain := by
  unfold visits
  split <;> simp [List.map_reverse]

theorem getLast_visits (chain : List X509) :
    ((visits chain).map Prod.fst).getLast? = lastVisited chain := by
  unfold visits lastVisited
  split <;> simp [List.map_reverse]

theorem visits_eq_nil {chain : List X509} : visits chain = [] ↔ chain = [] := by
  unfold visits
  split <;> simp

/-- The loop gets through when no certificate faults, with the decision on
the last one. -/
theorem namespaceLoop_eq_ok {M : Matcher} {namespaces : List Policy} :
    ∀ {l : List (X509 × Nat)} {r0 r : Success}, namespaceLoop M namespaces l r0 = .ok r ↔
      (∀ c ∈ l.map Prod.fst, ∃ s, evaluateCert M namespaces c = .ok s) ∧
      (∀ c, (l.map Prod.fst).getLast? = some c → evaluateCert M namespaces c = .ok r) ∧
      (l = [] → r = r0)
  | [], r0, r => by simp [namespaceLoop, eq_comm]
  | (cert, i) :: rest, r0, r => by
    unfold namespaceLoop
    rw [evaluateAgain_eq, Res.bind_eq_ok]
    constructor
    · intro h
      obtain ⟨s, hs, hrest⟩ := h
      obtain ⟨hall, hlast, hnil⟩ := namespaceLoop_eq_ok.mp hrest
      refine ⟨?_, ?_, fun h => by cases h⟩
      · intro c hc
        rcases List.mem_cons.mp hc with rfl | hc
        · exact ⟨s, hs⟩
        · exact hall c hc
      · intro c hc
        cases rest with
        | nil =>
          cases hc
          rw [hnil rfl]
          exact hs
        | cons p rest =>
          rw [List.map_cons, List.map_cons, List.getLast?_cons_cons] at hc
          exact hlast c hc
    · intro h
      obtain ⟨hall, hlast, -⟩ := h
      obtain ⟨s, hs⟩ := hall cert (by simp)
      refine ⟨s, hs, namespaceLoop_eq_ok.mpr ⟨fun c hc => hall c (by simp [hc]), ?_, ?_⟩⟩
      · intro c hc
        apply hlast
        cases rest with
        | nil => cases hc
        | cons p rest =>
          rw [List.map_cons, List.map_cons, List.getLast?_cons_cons]
          exact hc
      · intro hnil
        subst hnil
        have := hlast cert rfl
        rw [hs] at this
        cases this
        rfl

/-- What the evaluation of the namespaces amounts to. -/
theorem evaluateNamespace_eq (M : Matcher) (chain : List X509) (namespaces : List Policy)
    (r : Success) : restrictionEvaluateNamespace M chain namespaces = .ok r ↔
      (∀ c ∈ chain, ∃ s, evaluateCert M namespaces c = .ok s) ∧
      r = match lastVisited chain with
        | none => .permit
        | some c => if evaluateCert M namespaces c = .ok .deny then .deny else .permit := by
  unfold restrictionEvaluateNamespace
  simp only [Res.bind_eq_ok, namespaceLoop_eq_ok, mem_visits, getLast_visits, visits_eq_nil,
    Res.pure_eq, Res.ok.injEq]
  constructor
  · intro h
    obtain ⟨s, ⟨hall, hlast, hnil⟩, rfl⟩ := h
    refine ⟨hall, ?_⟩
    cases hv : lastVisited chain with
    | none =>
      have hchain : chain = [] := by
        unfold lastVisited at hv
        split at hv <;> simpa using hv
      simp [hnil hchain]
    | some c =>
      simp only [hlast c hv]
      cases s <;> rfl
  · intro h
    obtain ⟨hall, rfl⟩ := h
    cases hv : lastVisited chain with
    | none => exact ⟨.permit, ⟨hall, fun c hc => (nomatch hc), fun _ => rfl⟩, rfl⟩
    | some c =>
      have hc : c ∈ chain := mem_of_lastVisited hv
      obtain ⟨s, hs⟩ := hall c hc
      refine ⟨s, ⟨hall, fun c' hc' => ?_, fun hnil => ?_⟩, ?_⟩
      · cases hc'
        exact hs
      · subst hnil
        cases hc
      · simp only [hs]
        cases s <;> rfl

/-- The undecided result never leaves the first evaluator. -/
theorem restrictionEvaluate_eq_namespace (M : Matcher) (chain : List X509)
    (namespaces signings : List Policy) :
    restrictionEvaluate M chain namespaces signings =
      restrictionEvaluateNamespace M chain namespaces := by
  unfold restrictionEvaluate
  cases h : restrictionEvaluateNamespace M chain namespaces with
  | err e => rfl
  | fault f => rfl
  | ok r =>
    have hr := ((evaluateNamespace_eq M chain namespaces r).mp h).2
    have hne : r ≠ .undecided := by
      rw [hr]
      split
      · decide
      · split <;> decide
    simp [hne]

theorem restrictionEvaluate_permit_iff {M : Matcher} {chain : List X509}
    {namespaces signings : List Policy} :
    restrictionEvaluate M chain namespaces signings = .ok .permit ↔
      (∀ c ∈ chain, ∃ s, evaluateCert M namespaces c = .ok s) ∧
      ∀ c, lastVisited chain = some c → evaluateCert M namespaces c ≠ .ok .deny := by
  rw [restrictionEvaluate_eq_namespace, evaluateNamespace_eq]
  refine and_congr_right fun _ => ?_
  cases lastVisited chain with
  | none => simp
  | some c => by_cases h : evaluateCert M namespaces c = .ok .deny <;> simp [h]

/-! ## Denials -/

/-- The namespaces deny the subject of this certificate. -/
def Denied (M : Matcher) (namespaces : List Policy) (cert : X509) : Prop :=
  isselfsigned cert = false ∧ evaluateCert M namespaces cert = .ok .deny

theorem denied_iff {M : Matcher} {namespaces : List Policy} {cert : X509} :
    Denied M namespaces cert ↔ evaluateCert M namespaces cert = .ok .deny := by
  refine ⟨fun h => h.2, fun h => ⟨?_, h⟩⟩
  by_contra hself
  rw [Bool.not_eq_false] at hself
  simp [evaluateCert, hself] at h

/-- **When a denial is heard.** A chain with a denied certificate is not
permitted exactly when the denied certificate is the one visited last, or an
evaluation leaves defined behaviour. In a chain that starts with its
self-signed root the last one visited is that root, and in one that ends
with it likewise. -/
theorem restrictionEvaluate_denies_iff (M : Matcher) (chain : List X509)
    (namespaces signings : List Policy) :
    ((∃ c ∈ chain, Denied M namespaces c) →
        restrictionEvaluate M chain namespaces signings ≠ .ok .permit) ↔
      (∀ c ∈ chain, ¬ Denied M namespaces c) ∨
      (∃ c, lastVisited chain = some c ∧ Denied M namespaces c) ∨
      ∃ c ∈ chain, ∃ f, evaluateCert M namespaces c = .fault f := by
  rw [ne_eq, restrictionEvaluate_permit_iff]
  simp only [denied_iff]
  constructor
  · intro h
    by_cases hden : ∃ c ∈ chain, evaluateCert M namespaces c = .ok .deny
    · by_cases hlast : ∃ c, lastVisited chain = some c ∧ evaluateCert M namespaces c = .ok .deny
      · exact Or.inr (Or.inl hlast)
      · refine Or.inr (Or.inr ?_)
        by_contra hfault
        refine h hden ⟨fun c hc => ?_, fun c hc hdeny => hlast ⟨c, hc, hdeny⟩⟩
        rcases evalCases (evaluateCert M namespaces c) with hok | ⟨f, hf⟩
        · exact hok
        · exact absurd ⟨c, hc, f, hf⟩ hfault
    · refine Or.inl fun c hc hdeny => hden ⟨c, hc, hdeny⟩
  · intro h hden hpermit
    obtain ⟨c, hc, hdeny⟩ := hden
    rcases h with hnone | ⟨d, hd, hdd⟩ | ⟨d, hd, f, hf⟩
    · exact hnone c hc hdeny
    · exact hpermit.2 d hd hdd
    · obtain ⟨s, hs⟩ := hpermit.1 d hd
      rw [hf] at hs
      cases hs

namespace Sample

/-- A matcher for patterns without special characters. -/
def matcher : Matcher := ⟨fun _ => "5a4b3c2d".toList, fun p s => some (strstr p s).isSome⟩

/-- The CA may not issue `/CN=user`. -/
def denyUser (type : PolicyType) : Policy :=
  ⟨"/CN=ca".toList, false, type, some [⟨some ["/CN=user".toList], false⟩]⟩

def chain : List X509 := [Voms.L1.Sample.user, Voms.L1.Sample.root]

end Sample

/-- The usual order, user first and self-signed root last: the user is
denied and the chain permitted. -/
theorem restrictionEvaluate_hides_denial :
    ¬ ((∃ c ∈ Sample.chain, Denied Sample.matcher [Sample.denyUser .namespaces] c) →
      restrictionEvaluate Sample.matcher Sample.chain [Sample.denyUser .namespaces] [] ≠
        .ok .permit) := by
  intro h
  exact h ⟨Voms.L1.Sample.user, by decide, by decide, by decide⟩ (by decide)

/-! ## Signing policies -/

/-- The first certificate that the signing policies decide is permitted. -/
def FirstPermitted (M : Matcher) (signings : List Policy) (chain : List X509) : Prop :=
  ∃ before c after, chain = before ++ c :: after ∧
    (∀ d ∈ before, evaluateCert M signings d = .ok .undecided) ∧
    evaluateCert M signings c = .ok .permit

theorem signingLoop_permit_iff {M : Matcher} {signings : List Policy} :
    ∀ {chain : List X509} {r0 : Success}, signingLoop M signings chain r0 = .ok .permit ↔
      (chain = [] ∧ r0 = .permit) ∨ FirstPermitted M signings chain
  | [], r0 => by simp [signingLoop, FirstPermitted]
  | cert :: rest, r0 => by
    unfold signingLoop
    rw [Res.bind_eq_ok]
    constructor
    · intro h
      obtain ⟨s, hs, h⟩ := h
      by_cases hu : s = .undecided
      · subst hu
        rw [if_neg (by simp)] at h
        rcases signingLoop_permit_iff.mp h with ⟨-, hr⟩ | ⟨before, c, after, rfl, hb, hc⟩
        · cases hr
        · refine Or.inr ⟨cert :: before, c, after, rfl, fun d hd => ?_, hc⟩
          rcases List.mem_cons.mp hd with rfl | hd
          · exact hs
          · exact hb d hd
      · rw [if_pos hu] at h
        cases h
        exact Or.inr ⟨[], cert, rest, rfl, by simp, hs⟩
    · intro h
      rcases h with ⟨hnil, -⟩ | ⟨before, c, after, heq, hb, hc⟩
      · cases hnil
      · cases before with
        | nil =>
          cases heq
          exact ⟨.permit, hc, rfl⟩
        | cons d before =>
          cases heq
          refine ⟨.undecided, hb _ (by simp), ?_⟩
          rw [if_neg (by simp)]
          refine signingLoop_permit_iff.mpr (Or.inr ⟨before, c, after, rfl, fun d hd => ?_, hc⟩)
          exact hb d (by simp [hd])

theorem restrictionEvaluateSigning_permit_iff {M : Matcher} {chain : List X509}
    {signings : List Policy} :
    restrictionEvaluateSigning M chain signings = .ok .permit ↔
      chain = [] ∨ FirstPermitted M signings chain := by
  have hloop : signingLoop M signings chain .permit = .ok .permit ↔ _ := signingLoop_permit_iff
  simp only [and_true] at hloop
  rw [← hloop]
  unfold restrictionEvaluateSigning
  cases signingLoop M signings chain .permit with
  | err e => exact e.elim
  | fault f => simp
  | ok s => cases s <;> simp

/-- No namespaces policy decides a certificate that is not self-signed. -/
def NothingDecided (M : Matcher) (namespaces : List Policy) (chain : List X509) : Prop :=
  ∀ c ∈ chain, isselfsigned c = false → evaluateCert M namespaces c = .ok .undecided

/-- With nothing decided the answer is a permit, whatever the chain. -/
theorem restrictionEvaluate_nothingDecided {M : Matcher} {chain : List X509}
    {namespaces : List Policy} (h : NothingDecided M namespaces chain) (signings : List Policy) :
    restrictionEvaluate M chain namespaces signings = .ok .permit := by
  have hcert : ∀ c ∈ chain, evaluateCert M namespaces c = .ok .permit ∨
      evaluateCert M namespaces c = .ok .undecided := by
    intro c hc
    cases hself : isselfsigned c with
    | true => exact Or.inl (by simp [evaluateCert, hself])
    | false => exact Or.inr (h c hc hself)
  refine restrictionEvaluate_permit_iff.mpr ⟨fun c hc => ?_, fun c hv hdeny => ?_⟩
  · rcases hcert c hc with e | e <;> exact ⟨_, e⟩
  · have hc : c ∈ chain := mem_of_lastVisited hv
    rcases hcert c hc with e | e <;> rw [hdeny] at e <;> cases e

/-- **When the signing policies count.** Where the namespaces decide nothing
the answer is that of the signing policies exactly when these permit the
chain themselves: it is empty, or the first certificate they decide is
permitted. -/
theorem restrictionEvaluate_signing_iff (M : Matcher) (chain : List X509)
    (namespaces signings : List Policy) :
    (NothingDecided M namespaces chain →
        restrictionEvaluate M chain namespaces signings =
          restrictionEvaluateSigning M chain signings) ↔
      ¬ NothingDecided M namespaces chain ∨ chain = [] ∨ FirstPermitted M signings chain := by
  rw [← restrictionEvaluateSigning_permit_iff]
  constructor
  · intro h
    by_cases hn : NothingDecided M namespaces chain
    · exact Or.inr ((h hn).symm.trans (restrictionEvaluate_nothingDecided hn signings))
    · exact Or.inl hn
  · intro h hn
    rw [restrictionEvaluate_nothingDecided hn]
    rcases h with h | h
    · exact absurd hn h
    · exact h.symm

/-- The signing policy denies the user, nothing else is said, and the chain
is permitted. -/
theorem restrictionEvaluate_ignores_signing :
    ¬ (NothingDecided Sample.matcher [] Sample.chain →
      restrictionEvaluate Sample.matcher Sample.chain [] [Sample.denyUser .signing] =
        restrictionEvaluateSigning Sample.matcher Sample.chain [Sample.denyUser .signing]) := by
  intro h
  have hnothing : NothingDecided Sample.matcher [] Sample.chain := by
    intro c _ hself
    simp [evaluateCert, hself, evaluatePolicies]
  exact absurd (h hnothing) (by decide)

end Voms.L3
