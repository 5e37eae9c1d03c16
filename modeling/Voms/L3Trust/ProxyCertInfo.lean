import Voms.L2Ac.Reencode

/-!
# The information in a proxy certificate

`src/sslutils/proxycertinfo.c`. A `myPROXYCERTINFO` has two encodings: in
version 3 the path length stands behind the policy, inside a tag of its own;
in version 4 it stands in front of the policy. The version itself is not
written. The reader tries version 3 and then version 4.

`d2i_i2d`: what was written is read back, with its version, except that a
value of version 4 without a path length, which is written as one of version
3, is read as one of version 3.
-/
namespace Voms.L3.ProxyCertInfo

open Voms.Core Voms.Core.Tlv Voms.L1 Voms.L1.Newformat

/-- mirrors src/include/myproxycertinfo.h:58-63 -/
structure MyProxyPolicy where
  policyLanguage : Option Nat
  policy : Option Str
  deriving DecidableEq, Repr

/-- mirrors src/include/myproxycertinfo.h:65-70 -/
structure MyProxyCertInfo where
  pathLength : Option Asn1Integer
  proxypolicy : Option MyProxyPolicy
  version : Int
  deriving DecidableEq, Repr

variable (O : OpenSsl)

/-! ## The functions -/

/-- The policy is read under its own tag, and then under `[0]`.
mirrors src/sslutils/proxycertinfo.c:129-174 -/
def proxyPolicy : Codec (.universal 16) MyProxyPolicy where
  i2d a := .cons [put O.oid a.policyLanguage, put O.octetString a.policy].flatten
  d2i := sequence do
    let policyLanguage ← get O.oid
    let policy ← getTagged (.universal 4) O.octetString
    let implicit ← getTagged (.context 0) O.octetString
    pure ⟨some policyLanguage, implicit.or policy⟩

/-- `i2d_myPROXYCERTINFO_v3` and `d2i_myPROXYCERTINFO_v3`.
mirrors src/sslutils/proxycertinfo.c:275-290, 329-341 -/
def proxyCertInfoV3 : Codec (.universal 16) MyProxyCertInfo where
  i2d a := .cons [put (proxyPolicy O) a.proxypolicy,
    putExp (.context 1) O.integer a.pathLength].flatten
  d2i := sequence do
    let proxypolicy ← get (proxyPolicy O)
    let pathLength ← getExp (.context 1) O.integer
    pure ⟨pathLength, some proxypolicy, 3⟩

/-- `i2d_myPROXYCERTINFO_v4` and `d2i_myPROXYCERTINFO_v4`; the path length is
looked for inside `[1]` too.
mirrors src/sslutils/proxycertinfo.c:292-310, 343-359 -/
def proxyCertInfoV4 : Codec (.universal 16) MyProxyCertInfo where
  i2d a := .cons [put O.integer a.pathLength, put (proxyPolicy O) a.proxypolicy].flatten
  d2i := sequence do
    let explicit ← getExp (.context 1) O.integer
    let pathLength ← getTagged (.universal 2) O.integer
    let proxypolicy ← get (proxyPolicy O)
    pure ⟨pathLength.or explicit, some proxypolicy, 4⟩

/-- `none` for -1. mirrors src/sslutils/proxycertinfo.c:312-327 -/
def i2dMyProxyCertInfo (a : MyProxyCertInfo) : Option Item :=
  if a.version = 3 then some (.universal 16, (proxyCertInfoV3 O).i2d a)
  else if a.version = 4 then some (.universal 16, (proxyCertInfoV4 O).i2d a)
  else none

/-- mirrors src/sslutils/proxycertinfo.c:361-367 -/
def d2iMyProxyCertInfo (item : Item) : Option MyProxyCertInfo :=
  ((proxyCertInfoV3 O).element item).or ((proxyCertInfoV4 O).element item)

/-! ## What is read back -/

/-- The policy is there and has a language, and OpenSSL reads back what it wrote. -/
structure PolicyKept (a : MyProxyPolicy) : Prop where
  policyLanguage : O.oid.Has a.policyLanguage
  policy : ∀ p, a.policy = some p → O.octetString.Keeps p

structure Kept (a : MyProxyCertInfo) : Prop where
  pathLength : ∀ n, a.pathLength = some n → O.integer.Keeps n
  proxypolicy : ∃ p, a.proxypolicy = some p ∧ PolicyKept O p

variable {O}

theorem proxyPolicy_keeps {a : MyProxyPolicy} (h : PolicyKept O a) : (proxyPolicy O).Keeps a := by
  obtain ⟨language, policy⟩ := a
  obtain ⟨l, rfl, hl⟩ := h.policyLanguage
  have hread : Outcome ((proxyPolicy O).d2i ((proxyPolicy O).i2d ⟨some l, policy⟩)) True
      ⟨some l, (none : Option Str).or policy⟩ := by
    simp only [proxyPolicy, List.flatten_cons, List.flatten_nil]
    apply Outcome.congr
    · apply Reads.whole
      apply Reads.bind (Reads.must hl)
      apply Reads.bind (Reads.may h.policy notNext_nil)
      apply Reads.bind (Reads.skip notNext_nil)
      exact Reads.pure
    · simp
  exact hread.eq trivial

/-- A value of version 3, and one without a path length, is read as one of version 3. -/
theorem readsV3 {a : MyProxyCertInfo} (h : Kept O a) :
    (proxyCertInfoV3 O).d2i ((proxyCertInfoV3 O).i2d a) = some { a with version := 3 } := by
  obtain ⟨pathLength, proxypolicy, version⟩ := a
  obtain ⟨p, rfl, hp⟩ := h.proxypolicy
  have hread : Outcome ((proxyCertInfoV3 O).d2i
      ((proxyCertInfoV3 O).i2d ⟨pathLength, some p, version⟩)) True ⟨pathLength, some p, 3⟩ := by
    simp only [proxyCertInfoV3, List.flatten_cons, List.flatten_nil]
    apply Outcome.congr
    · apply Reads.whole
      apply Reads.bind (Reads.must (proxyPolicy_keeps hp))
      apply Reads.bind (Reads.exp h.pathLength notNext_nil)
      exact Reads.pure
    · simp
  exact hread.eq trivial

/-- Without a path length the encodings are the same. -/
theorem i2d_without {a : MyProxyCertInfo} (h : a.pathLength = none) :
    (proxyCertInfoV4 O).i2d a = (proxyCertInfoV3 O).i2d a := by
  simp [proxyCertInfoV3, proxyCertInfoV4, h, member]

/-- With one, version 3 expects the policy where version 4 wrote the path length. -/
theorem readsV4 {a : MyProxyCertInfo} (h : Kept O a) (hlen : a.pathLength ≠ none) :
    (proxyCertInfoV3 O).d2i ((proxyCertInfoV4 O).i2d a) = none ∧
      (proxyCertInfoV4 O).d2i ((proxyCertInfoV4 O).i2d a) = some { a with version := 4 } := by
  obtain ⟨pathLength, proxypolicy, version⟩ := a
  obtain ⟨p, rfl, hp⟩ := h.proxypolicy
  obtain ⟨n, rfl⟩ := Option.ne_none_iff_exists'.mp hlen
  have hnext : ∀ {k : Nat}, k ≠ 2 → NotNext (.universal k) (put O.integer (some n) ++
      (put (proxyPolicy O) (some p) ++ [])) := fun hk => notNext_member_some (by simp [Ne.symm hk])
  have hthree : Outcome ((proxyCertInfoV3 O).d2i
      ((proxyCertInfoV4 O).i2d ⟨some n, some p, version⟩)) False ⟨none, none, 3⟩ := by
    simp only [proxyCertInfoV3, proxyCertInfoV4, List.flatten_cons, List.flatten_nil]
    apply Reads.whole
    exact Reads.absent (hnext (by decide))
  have hfour : Outcome ((proxyCertInfoV4 O).d2i
      ((proxyCertInfoV4 O).i2d ⟨some n, some p, version⟩)) True
      ⟨(some n).or none, some p, 4⟩ := by
    simp only [proxyCertInfoV4, List.flatten_cons, List.flatten_nil]
    apply Outcome.congr
    · apply Reads.whole
      apply Reads.bind (Reads.exp (o := none) nofun (notNext_member_some (by decide)))
      apply Reads.bind (Reads.may h.pathLength (notNext_member_some (by decide)))
      apply Reads.bind (Reads.must (proxyPolicy_keeps hp))
      exact Reads.pure
    · simp
  exact ⟨hthree.2 not_false, hfour.eq trivial⟩

variable (O)

/-- What is written is read back, except that a value of version 4 without a
path length is read as one of version 3. -/
theorem d2i_i2d (a : MyProxyCertInfo) (hv : a.version = 3 ∨ a.version = 4) (h : Kept O a) :
    (i2dMyProxyCertInfo O a).bind (d2iMyProxyCertInfo O) =
      some (if a.pathLength = none then { a with version := 3 } else a) := by
  have hwritten (b : Body) : d2iMyProxyCertInfo O (.universal 16, b) =
      ((proxyCertInfoV3 O).d2i b).or ((proxyCertInfoV4 O).d2i b) := by
    unfold d2iMyProxyCertInfo
    rw [element_item, element_item]
  rcases hv with hv | hv
  · have hthree : { a with version := 3 } = a := by rw [← hv]
    have hi2d : i2dMyProxyCertInfo O a =
        some (.universal 16, (proxyCertInfoV3 O).i2d a) := if_pos hv
    rw [hi2d, Option.bind_some, hwritten, readsV3 h, Option.some_or, hthree, ite_self]
  · have hfour : { a with version := 4 } = a := by rw [← hv]
    have hi2d : i2dMyProxyCertInfo O a = some (.universal 16, (proxyCertInfoV4 O).i2d a) := by
      unfold i2dMyProxyCertInfo
      rw [if_neg (by omega), if_pos hv]
    rw [hi2d, Option.bind_some, hwritten]
    by_cases hlen : a.pathLength = none
    · rw [i2d_without hlen, readsV3 h, Option.some_or, if_pos hlen]
    · obtain ⟨hv3, hv4⟩ := readsV4 h hlen
      rw [hv3, hv4, Option.none_or, if_neg hlen, hfour]

/-- An OpenSSL that knows the policy language 5. -/
def sampleSsl : OpenSsl :=
  { Voms.L2.Sample.openSsl [] [] with oid := Voms.L2.Sample.table _ [5] }

/-- A policy of two bytes. -/
def sampleInfo (pathLength : Option Asn1Integer) (version : Int) : MyProxyCertInfo :=
  ⟨pathLength, some ⟨some 5, some ['a', 'b']⟩, version⟩

theorem sampleInfo_kept {pathLength : Option Asn1Integer} {version : Int}
    (h : ∀ n, pathLength = some n → n.neg = false) :
    Kept sampleSsl (sampleInfo pathLength version) where
  pathLength n hn := congrArg (fun b => some (Asn1Integer.mk b n.data)) (h n hn).symm
  proxypolicy := by
    refine ⟨_, rfl, ⟨5, rfl, Voms.L2.Sample.table_keeps (by decide) (by decide)⟩, ?_⟩
    rintro _ ⟨⟩
    rfl

/-- `d2i_i2d` with a path length, in the layout of version 4. -/
theorem d2i_i2d_four :
    (i2dMyProxyCertInfo sampleSsl (sampleInfo (some ⟨false, [3]⟩) 4)).bind
      (d2iMyProxyCertInfo sampleSsl) = some (sampleInfo (some ⟨false, [3]⟩) 4) :=
  d2i_i2d sampleSsl (sampleInfo (some ⟨false, [3]⟩) 4) (Or.inr rfl)
    (sampleInfo_kept (by rintro _ ⟨⟩; rfl))

/-- Without one, version 4 comes back as version 3. -/
theorem d2i_i2d_changes :
    ¬ ∀ (O : OpenSsl) (a : MyProxyCertInfo), a.version = 3 ∨ a.version = 4 → Kept O a →
      (i2dMyProxyCertInfo O a).bind (d2iMyProxyCertInfo O) = some a := by
  intro h
  have hback := h sampleSsl (sampleInfo none 4) (Or.inr rfl) (sampleInfo_kept nofun)
  have hthree : (i2dMyProxyCertInfo sampleSsl (sampleInfo none 4)).bind
      (d2iMyProxyCertInfo sampleSsl) = some (sampleInfo none 3) := by decide
  rw [hthree] at hback
  exact absurd hback (by decide)

end Voms.L3.ProxyCertInfo
