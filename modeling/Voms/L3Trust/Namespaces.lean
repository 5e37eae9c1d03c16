import Voms.L3Trust.Evaluate

/-!
# The files of namespaces and signing policies

`read_pathrestriction` (`src/sslutils/evaluate.c`) reads, for every
certificate of a chain, the signing policies and the namespaces of the CA
whose hash names the files, into two lists. A rule for `Issuer SELF` is bound
to that hash. `find_policy` takes a policy that is bound to a hash for a
certificate with that hash.

Every file that is read binds the policies of all files before it anew, and
the hash that is compared is the one of the certificate itself, not of its
issuer (`selected_self_iff`). So a rule for SELF is never selected for what
its CA issued and nothing else: `bound_iff`.

The rules are those the parser has recognised; the policies of the
`.signing_policy` files are given as its parser leaves them.
-/
namespace Voms.L3

open Voms.Core Voms.L1

/-! ## The functions -/

/-- `TO Issuer (issuer | SELF) (PERMIT | DENY) SUBJECT subject`; `issuer` is
`none` for SELF. -/
structure Rule where
  issuer : Option Str
  permit : Bool
  subject : Str
  deriving DecidableEq, Repr

/-- The name of a SELF policy is NULL until `readPathrestriction` binds it.
mirrors src/sslutils/namespaces.y:70-108 -/
def Rule.policy (r : Rule) : Policy where
  caname := r.issuer.getD []
  self := r.issuer.isNone
  type := .namespaces
  conds := some [⟨some [r.subject], r.permit⟩]

/-- What the parsers find in the files of the directory, by name; nothing
where there is no file. -/
structure Directory where
  signing : Str → List Policy
  namespaces : Str → List Rule

def signingFile (hash : Str) : Str := "/".toList ++ hash.take 8 ++ ".signing_policy".toList

def namespacesFile (hash : Str) : Str := "/".toList ++ hash.take 8 ++ ".namespaces".toList

/-- The loop over a list of policies.
mirrors src/sslutils/evaluate.c:371-378, 391-399 -/
def bindSelf (hash : Str) (policies : List Policy) : List Policy :=
  policies.map fun policy => if policy.self then { policy with caname := hash } else policy

/-- The loop over the chain, with `*names` and `*signs`.
mirrors src/sslutils/evaluate.c:339-401 -/
def readPathrestriction (M : Matcher) (D : Directory) :
    List X509 → List Policy → List Policy → List Policy × List Policy
  | [], names, signs => (names, signs)
  | cert :: chain, names, signs =>
    let hash := M.gethash cert
    readPathrestriction M D chain
      (bindSelf hash (names ++ (D.namespaces (namespacesFile hash)).map Rule.policy))
      (bindSelf hash (signs ++ D.signing (signingFile hash)))

/-- `none` for -1. mirrors src/sslutils/evaluate.c:56-83 -/
def findPolicy (M : Matcher) (policies : List Policy) (cert : X509) (current : Option Nat) :
    Option Nat :=
  let i := match current with
    | none => 0
    | some current => current + 1
  ((policies.drop i).findIdx? (policyApplies M cert)).map (i + ·)

/-! ## What is found -/

/-- The policy at `k` is found when it is looked for behind some place. -/
def Selected (M : Matcher) (policies : List Policy) (cert : X509) (k : Nat) : Prop :=
  ∃ current, findPolicy M policies cert current = some k

theorem selected_iff {M : Matcher} {policies : List Policy} {cert : X509} {k : Nat} :
    Selected M policies cert k ↔
      ∃ policy, policies[k]? = some policy ∧ policyApplies M cert policy = true := by
  constructor
  · rintro ⟨current, h⟩
    unfold findPolicy at h
    generalize (match current with
      | none => 0
      | some current => current + 1) = i at h
    obtain ⟨j, hj, rfl⟩ := Option.map_eq_some_iff.mp h
    obtain ⟨hlt, happlies, -⟩ := List.findIdx?_eq_some_iff_getElem.mp hj
    refine ⟨(policies.drop i)[j], ?_, happlies⟩
    rw [← List.getElem?_drop]
    exact List.getElem?_eq_getElem hlt
  · rintro ⟨policy, hk, happlies⟩
    have hfind : (policies.drop k).findIdx? (policyApplies M cert) = some 0 := by
      rw [List.getElem?_eq_some_iff] at hk
      obtain ⟨hlt, rfl⟩ := hk
      rw [List.drop_eq_getElem_cons hlt, List.findIdx?_cons, happlies]
      rfl
    cases k with
    | zero => exact ⟨none, by simp only [findPolicy, hfind]; rfl⟩
    | succ k => exact ⟨some k, by simp only [findPolicy, hfind]; rfl⟩

/-! ## What is read -/

theorem bindSelf_bindSelf (hash hash' : Str) (policies : List Policy) :
    bindSelf hash (bindSelf hash' policies) = bindSelf hash policies := by
  unfold bindSelf
  rw [List.map_map]
  refine List.map_congr_left fun policy _ => ?_
  cases hself : policy.self <;> simp [hself]

theorem bindSelf_append (hash : Str) (l l' : List Policy) :
    bindSelf hash (l ++ l') = bindSelf hash l ++ bindSelf hash l' := List.map_append

/-- The rules that are read, each with the certificate whose file it is from. -/
def origins (M : Matcher) (D : Directory) (chain : List X509) : List (X509 × Rule) :=
  chain.flatMap fun cert => (D.namespaces (namespacesFile (M.gethash cert))).map (cert, ·)

/-- All policies are bound to the certificate that was read last. -/
theorem readPathrestriction_names {M : Matcher} {D : Directory} : ∀ {chain : List X509}
    {names signs : List Policy} {last : X509}, chain.getLast? = some last →
      (readPathrestriction M D chain names signs).1 =
        bindSelf (M.gethash last) (names ++ (origins M D chain).map (·.2.policy))
  | [cert], names, signs, last, h => by
    obtain rfl : cert = last := Option.some.inj h
    simp [readPathrestriction, origins, Function.comp_def]
  | cert :: cert' :: chain, names, signs, last, h => by
    have hlast : (cert' :: chain).getLast? = some last := by
      rwa [List.getLast?_cons_cons] at h
    have horigins : (origins M D (cert :: cert' :: chain)).map (·.2.policy) =
        (D.namespaces (namespacesFile (M.gethash cert))).map Rule.policy ++
          (origins M D (cert' :: chain)).map (·.2.policy) := by
      simp [origins, Function.comp_def]
    rw [readPathrestriction, readPathrestriction_names hlast, horigins, bindSelf_append, bindSelf_bindSelf,
      ← bindSelf_append, List.append_assoc]

/-- `*names` after the files of a chain are read. -/
def namesOf (M : Matcher) (D : Directory) (chain : List X509) : List Policy :=
  (readPathrestriction M D chain [] []).1

section

variable {M : Matcher} {D : Directory} {chain : List X509} {last ca : X509} {rule : Rule} {k : Nat}

theorem namesOf_eq (hlast : chain.getLast? = some last) :
    namesOf M D chain = bindSelf (M.gethash last) ((origins M D chain).map (·.2.policy)) :=
  readPathrestriction_names hlast

/-- The policy of a rule for SELF. -/
theorem getElem?_namesOf (hlast : chain.getLast? = some last)
    (hk : (origins M D chain)[k]? = some (ca, rule)) (hself : rule.issuer = none) :
    (namesOf M D chain)[k]? = some { rule.policy with caname := M.gethash last } := by
  have hpolicy : rule.policy.self = true := by simp [Rule.policy, hself]
  rw [namesOf_eq hlast]
  simp [bindSelf, hk, hpolicy]

/-- It is selected for the certificates with the hash of the last one. -/
theorem selected_self_iff (hlast : chain.getLast? = some last)
    (hk : (origins M D chain)[k]? = some (ca, rule)) (hself : rule.issuer = none) (cert : X509) :
    Selected M (namesOf M D chain) cert k ↔ M.gethash cert = M.gethash last := by
  have hpolicy : rule.policy.self = true := by simp [Rule.policy, hself]
  rw [selected_iff, getElem?_namesOf hlast hk hself]
  simp [policyApplies, hpolicy]

/-- A policy that is bound comes from a rule for SELF. -/
theorem origin_of_self {policy : Policy} (hlast : chain.getLast? = some last)
    (hk : (namesOf M D chain)[k]? = some policy) (hself : policy.self = true) :
    ∃ ca rule, (origins M D chain)[k]? = some (ca, rule) ∧ rule.issuer = none := by
  rw [namesOf_eq hlast, bindSelf, List.getElem?_map, List.getElem?_map] at hk
  cases horigin : (origins M D chain)[k]? with
  | none => simp [horigin] at hk
  | some e =>
    obtain ⟨ca, rule⟩ := e
    refine ⟨ca, rule, rfl, ?_⟩
    rw [horigin] at hk
    cases hk
    by_contra hissuer
    cases hrule : rule.issuer with
    | none => exact hissuer hrule
    | some issuer => simp [Rule.policy, hrule] at hself

theorem origins_append (chain chain' : List X509) :
    origins M D (chain ++ chain') = origins M D chain ++ origins M D chain' := List.flatMap_append

theorem mem_origins : (ca, rule) ∈ origins M D chain ↔
    ca ∈ chain ∧ rule ∈ D.namespaces (namespacesFile (M.gethash ca)) := by
  simp [origins]

end

/-! ## What SELF should mean -/

/-- `nameHash` prints the hash of a name, as OpenSSL's `X509_subject_name_hash`
does of the subject and `X509_issuer_name_hash` of the issuer. -/
structure HashesNames (M : Matcher) (nameHash : X509Name → Str) : Prop where
  subject : ∀ cert, M.gethash cert = nameHash cert.subject
  differs : ∃ a b, nameHash a ≠ nameHash b

/-- A policy for SELF is selected for a certificate exactly if it was read
from the file of the CA that issued the certificate. -/
def Bound (M : Matcher) (nameHash : X509Name → Str) (D : Directory) (chain : List X509) : Prop :=
  ∀ k ca rule, (origins M D chain)[k]? = some (ca, rule) → rule.issuer = none → ∀ cert,
    Selected M (namesOf M D chain) cert k ↔
      namespacesFile (nameHash cert.issuer) = namespacesFile (M.gethash ca)

/-- To read the files of one more certificate leaves the policies for SELF as they are. -/
def Stable (M : Matcher) (D : Directory) (chain : List X509) : Prop :=
  ∀ before cert after, chain = before ++ cert :: after → ∀ (k : Nat) (policy : Policy),
    (namesOf M D before)[k]? = some policy → policy.self = true →
      (namesOf M D (before ++ [cert]))[k]? = some policy

/-- No file that is read has a rule for SELF. -/
def NoSelf (M : Matcher) (D : Directory) (chain : List X509) : Prop :=
  ∀ ca ∈ chain, ∀ rule ∈ D.namespaces (namespacesFile (M.gethash ca)), rule.issuer ≠ none

section

variable {M : Matcher} {nameHash : X509Name → Str} {D : Directory} {chain : List X509}

theorem Bound.noSelf (hM : HashesNames M nameHash) (h : Bound M nameHash D chain) :
    NoSelf M D chain := by
  intro ca hca rule hrule hself
  obtain ⟨k, hk⟩ := List.mem_iff_getElem?.mp (mem_origins.mpr ⟨hca, hrule⟩)
  obtain ⟨last, hlast⟩ := Option.isSome_iff_exists.mp
    (List.getLast?_isSome.mpr (List.ne_nil_of_mem hca))
  -- a subject of the CA whose hash is not that of the last certificate
  have hother : ∃ x, nameHash x ≠ M.gethash last := by
    obtain ⟨a, b, hab⟩ := hM.differs
    by_cases ha : nameHash a = M.gethash last
    · exact ⟨b, fun hb => hab (ha.trans hb.symm)⟩
    · exact ⟨a, ha⟩
  obtain ⟨x, hx⟩ := hother
  have hissued := h k ca rule hk hself { ca with subject := x, issuer := ca.subject }
  rw [selected_self_iff hlast hk hself, hM.subject ca] at hissued
  exact hx ((hM.subject _).symm.trans (hissued.mpr rfl))

/-- Exactly a file with the same hash leaves a policy for SELF as it is. -/
theorem stable_iff : Stable M D chain ↔ ∀ before ca cert after,
    chain = before ++ ca :: cert :: after →
      (∃ e ∈ origins M D (before ++ [ca]), e.2.issuer = none) → M.gethash cert = M.gethash ca := by
  have hlast (before : List X509) (ca : X509) : (before ++ [ca]).getLast? = some ca :=
    List.getLast?_concat
  have hmore {before : List X509} {k : Nat} {e : X509 × Rule}
      (hk : (origins M D before)[k]? = some e) (cert : X509) :
      (origins M D (before ++ [cert]))[k]? = some e := by
    rw [origins_append]
    exact List.getElem?_append_left (List.getElem?_eq_some_iff.mp hk).1 ▸ hk
  constructor
  · intro h before ca cert after heq hself
    obtain ⟨⟨origin, rule⟩, hmem, hself⟩ := hself
    have hself : rule.issuer = none := hself
    obtain ⟨k, hk⟩ := List.mem_iff_getElem?.mp hmem
    have hstable := h (before ++ [ca]) cert after (by rw [heq, List.append_assoc]; rfl) k _
      (getElem?_namesOf (hlast before ca) hk hself) (by simp [Rule.policy, hself])
    rw [getElem?_namesOf (hlast _ cert) (hmore hk cert) hself] at hstable
    exact congrArg Policy.caname (Option.some.inj hstable)
  · intro h before cert after heq k policy hk hself
    rcases List.eq_nil_or_concat' before with rfl | ⟨before, ca, rfl⟩
    · cases hk
    · obtain ⟨origin, rule, horigin, hrule⟩ := origin_of_self (hlast before ca) hk hself
      have hsame := h before ca cert after (by rw [heq, List.append_assoc]; rfl)
        ⟨_, List.mem_of_getElem? horigin, hrule⟩
      rw [getElem?_namesOf (hlast before ca) horigin hrule] at hk
      rw [getElem?_namesOf (hlast _ cert) (hmore horigin cert) hrule, hsame, hk]

theorem NoSelf.stable (h : NoSelf M D chain) : Stable M D chain := by
  refine stable_iff.mpr fun before ca cert after heq hself => ?_
  obtain ⟨⟨origin, rule⟩, hmem, hself⟩ := hself
  obtain ⟨hin, hrule⟩ := mem_origins.mp hmem
  refine absurd hself (h origin ?_ rule hrule)
  rw [heq, ← List.singleton_append, ← List.append_assoc]
  exact List.mem_append_left _ hin

end

/-- **SELF is never what it should be**, unless no file uses it. -/
theorem bound_iff {M : Matcher} {nameHash : X509Name → Str} (hM : HashesNames M nameHash)
    (D : Directory) (chain : List X509) :
    Bound M nameHash D chain ∧ Stable M D chain ↔ NoSelf M D chain := by
  refine ⟨fun h => h.1.noSelf hM, fun h => ⟨fun k ca rule hk hself => ?_, h.stable⟩⟩
  obtain ⟨hca, hrule⟩ := mem_origins.mp (List.mem_of_getElem? hk)
  exact absurd hself (h ca hca rule hrule)

namespace Sample

/-- The hashes of the CA's name and of all others. -/
def nameHash (name : X509Name) : Str :=
  if name = Voms.L1.Sample.caName then "5a4b3c2d".toList else "0c1d2e3f".toList

def hashing : Matcher := { matcher with gethash := fun cert => nameHash cert.subject }

theorem hashing_hashesNames : HashesNames hashing nameHash :=
  ⟨fun _ => rfl, Voms.L1.Sample.caName, Voms.L1.Sample.userName, by decide⟩

/-- The CA's file has one rule. -/
def ruled (issuer : Option Str) : Directory where
  signing _ := []
  namespaces file :=
    if file = "/5a4b3c2d.namespaces".toList then [⟨issuer, true, "/CN=".toList⟩] else []

end Sample

/-- `bound_iff` for a rule that names its issuer. -/
theorem bound_iff_named :
    Bound Sample.hashing Sample.nameHash (Sample.ruled (some "/CN=ca".toList)) Sample.chain ∧
      Stable Sample.hashing (Sample.ruled (some "/CN=ca".toList)) Sample.chain := by
  refine (bound_iff Sample.hashing_hashesNames _ _).mpr fun ca hca rule hrule => ?_
  unfold Sample.ruled at hrule
  simp only at hrule
  split at hrule
  · obtain rfl := List.mem_singleton.mp hrule
    exact Option.some_ne_none _
  · cases hrule

/-- The CA's rule for SELF is not selected for the user, whose certificate
the CA issued. -/
theorem bound_fails :
    ¬ ∀ (M : Matcher) (nameHash : X509Name → Str) (D : Directory) (chain : List X509),
      HashesNames M nameHash → Bound M nameHash D chain ∧ Stable M D chain := by
  intro h
  have hbound := (h Sample.hashing Sample.nameHash (Sample.ruled none) Sample.chain
    Sample.hashing_hashesNames).1
  have hselected := (hbound 0 Voms.L1.Sample.root ⟨none, true, "/CN=".toList⟩ (by decide) rfl
    Voms.L1.Sample.user).mpr (by decide)
  obtain ⟨policy, hk, happlies⟩ := selected_iff.mp hselected
  have hpolicy : (namesOf Sample.hashing (Sample.ruled none) Sample.chain)[0]? =
      some ⟨"5a4b3c2d".toList, true, .namespaces, some [⟨some ["/CN=".toList], true⟩]⟩ := by decide
  rw [hpolicy] at hk
  cases hk
  exact absurd happlies (by decide)

end Voms.L3
