import Voms.L2Ac.Safety
import Voms.L4Api.Issuer

/-!
# Which attribute certificates the client can read

`check` reads the policy authority as an IA5 string whatever it is, and the
list of certificates whether or not it decodes; `GetTargets` reads the name
of every target and the copy of the AC whether or not there is one.
`never_badRead_iff` puts this together with `Readable`.
-/
namespace Voms.L4

open Voms.Core Voms.L1 Voms.L2

/-! ## LSC files -/

theorem never_lineDn (line : Str) : Res.Never BadRead (lineDn line) := by
  unfold lineDn
  simp only
  split
  · exact Res.never_ok _
  · split
    · simp
    · exact Res.never_ok _
  · exact Res.never_ok _

theorem never_readdn : ∀ file : List Str, Res.Never BadRead (readdn file)
  | [] => Res.never_ok _
  | line :: file => by
    unfold readdn
    refine Res.never_ite.mpr ⟨fun _ => Res.never_bind.mpr ⟨never_lineDn _, fun dn _ => ?_⟩,
      fun _ => Res.never_ok _⟩
    exact Res.never_ite.mpr ⟨fun _ => never_readdn file, fun _ => Res.never_ok _⟩

theorem never_matchChain : ∀ (certs : List X509) (file : List Str),
    Res.Never BadRead (matchChain certs file)
  | [], _ => Res.never_ok _
  | current :: certs, file => by
    unfold matchChain
    refine Res.never_bind.mpr ⟨never_readdn file, fun r1 _ => ?_⟩
    split
    · exact Res.never_ok _
    · refine Res.never_bind.mpr ⟨never_readdn _, fun r2 _ => ?_⟩
      split
      · exact Res.never_ok _
      · refine Res.never_ite.mpr ⟨fun _ => never_matchChain certs _, fun _ => ?_⟩
        split <;> exact Res.never_ok _

theorem never_matchFileLoop (certs : List X509) : ∀ (turns : Nat) (file : List Str),
    Res.Never BadRead (matchFileLoop certs turns file)
  | 0, _ => by simp [matchFileLoop]
  | turns + 1, file => by
    unfold matchFileLoop
    refine Res.never_bind.mpr ⟨never_matchChain certs file, fun r _ => ?_⟩
    split
    · exact Res.never_ok _
    · exact Res.never_ok _
    · exact never_matchFileLoop certs turns _

/-! ## `check` -/

/-- The name `check` takes for the policy authority. -/
def policyAuthority (wire : Der.Ac) : Option GeneralName :=
  ((wire.acinfo.attributes.find? (·.type == .idatcap)).bind (·.ietfattr.head?)).bind
    (·.names.head?)

theorem never_voOfAc {wire : Der.Ac} : Res.Never BadRead (voOfAc (d2iAc wire)) ↔
    ∀ name, policyAuthority wire = some name → name.isIa5 = true := by
  have hinfo : (d2iAc wire).acinfo = some (d2iAcInfo wire.acinfo) := rfl
  have hatts : (d2iAcInfo wire.acinfo).attrib = some wire.acinfo.attributes := rfl
  unfold voOfAc policyAuthority
  simp only [hinfo, hatts, Res.deref_some, Res.ok_bind, Option.getD_some]
  cases wire.acinfo.attributes.find? (·.type == .idatcap) with
  | none => exact ⟨fun _ _ h => (nomatch h), fun _ => Res.never_err _⟩
  | some caps =>
    simp only [Res.require_some, Res.ok_bind, Option.bind_some]
    cases caps.ietfattr.head? with
    | none => exact ⟨fun _ _ h => (nomatch h), fun _ => Res.never_err _⟩
    | some capattr =>
      simp only [Res.require_some, Res.ok_bind, Option.bind_some]
      cases capattr.names.head? with
      | none => exact ⟨fun _ _ h => (nomatch h), fun _ => Res.never_err _⟩
      | some name =>
        simp only [Res.require_some, Res.ok_bind, Option.some.injEq, forall_eq']
        rw [Res.never_bind, GeneralName.never_ia5 trivial]
        refine and_iff_left fun data _ => ?_
        refine Res.never_bind.mpr ⟨Res.never_require, fun cpos _ => ?_⟩
        exact Res.never_bind.mpr ⟨Res.never_require, fun cpos2 _ => Res.never_ok _⟩

theorem never_checkFromFile {F : Files} {ac : Ac} {file voname filename : Str} {s : VomsData}
    (h : certseqExt ac ≠ none) :
    Res.Never BadRead (checkFromFile F ac file voname filename s) ↔
      (certseqExt ac).bind (·.d2iCerts) ≠ none := by
  unfold checkFromFile
  cases hext : certseqExt ac with
  | none => exact absurd hext h
  | some ext =>
    simp only [Res.deref_some, Res.ok_bind, Option.bind_some]
    cases ext.d2iCerts with
    | none =>
      rw [Res.deref_none, Res.fault_bind, Res.never_fault]
      exact ⟨fun h => absurd trivial h, fun h => absurd rfl h⟩
    | some certs =>
      rw [Res.deref_some, Res.ok_bind, Res.never_bind]
      refine ⟨fun _ => Option.some_ne_none _, fun _ => ⟨never_matchFileLoop certs _ _, fun _ _ => ?_⟩⟩
      exact Res.never_ok _

theorem check_of_vo {F : Files} {ac : Ac} {s : VomsData} {voname hostname : Str}
    (h : voOfAc ac = .ok (voname, hostname)) :
    check F ac s = match lscFile F s ac voname hostname with
      | some (file, filecerts) =>
        checkFromFile F ac file voname filecerts { s with error := .VERR_DIR }
      | none => pure (checkFromCerts F ac voname { s with error := .VERR_DIR }) := by
  unfold check
  rw [h]
  rfl

/-- What `check` reads of an AC is there. -/
structure Checkable (F : Files) (wire : Der.Ac) (s : VomsData) : Prop where
  authority : ∀ name, policyAuthority wire = some name → name.isIa5 = true
  certs : ∀ voname hostname, voOfAc (d2iAc wire) = .ok (voname, hostname) →
    lscFile F s (d2iAc wire) voname hostname ≠ none →
      (certseqExt (d2iAc wire)).bind (·.d2iCerts) ≠ none

theorem never_check {F : Files} {wire : Der.Ac} {s : VomsData} :
    Res.Never BadRead (check F (d2iAc wire) s) ↔ Checkable F wire s := by
  have hauthority := @never_voOfAc wire
  cases hvo : voOfAc (d2iAc wire) with
  | fault f =>
    have hcheck : check F (d2iAc wire) s = .fault f := by
      unfold check
      rw [hvo]
    rw [hvo, Res.never_fault] at hauthority
    rw [hcheck, Res.never_fault]
    exact ⟨fun h => ⟨hauthority.mp h, fun _ _ h => (nomatch hvo.symm.trans h)⟩,
      fun h => hauthority.mpr h.authority⟩
  | err message =>
    have hcheck : Res.Never BadRead (check F (d2iAc wire) s) := by
      unfold check
      rw [hvo]
      exact Res.never_ok _
    rw [hvo] at hauthority
    exact ⟨fun _ => ⟨hauthority.mp (Res.never_err _), fun _ _ h => (nomatch hvo.symm.trans h)⟩,
      fun _ => hcheck⟩
  | ok names =>
    obtain ⟨voname, hostname⟩ := names
    rw [hvo] at hauthority
    have hcerts : lscFile F s (d2iAc wire) voname hostname ≠ none →
        certseqExt (d2iAc wire) ≠ none := by
      intro h hnone
      simp [lscFile, hnone] at h
    rw [check_of_vo hvo]
    cases hfile : lscFile F s (d2iAc wire) voname hostname with
    | none =>
      refine ⟨fun _ => ⟨hauthority.mp (Res.never_ok _), fun vo host h hopen => ?_⟩,
        fun _ => Res.never_ok _⟩
      cases hvo.symm.trans h
      exact absurd hfile hopen
    | some p =>
      obtain ⟨file, filecerts⟩ := p
      have hopen : lscFile F s (d2iAc wire) voname hostname ≠ none := by simp [hfile]
      simp only
      rw [never_checkFromFile (hcerts hopen)]
      refine ⟨fun h => ⟨hauthority.mp (Res.never_ok _), fun vo host hok _ => h⟩, fun h => ?_⟩
      exact h.certs voname hostname hvo hopen

/-! ## `GetTargets` -/

theorem never_targetNames {targets : List AcTarget} :
    Res.Never BadRead (targetNames targets) ↔ ∀ t ∈ targets, t.name ≠ none := by
  induction targets with
  | nil => simp [targetNames]
  | cons t rest ih =>
    unfold targetNames
    cases ht : t.name with
    | none => simp [ht]
    | some name =>
      simp only [Res.deref_some, Res.ok_bind, Res.never_bind, ih, List.forall_mem_cons, ht, ne_eq,
        reduceCtorEq, not_false_eq_true, true_and]
      refine and_iff_left fun targets _ => ?_
      cases name <;> exact Res.never_ok _

/-- The targets `GetTargets` reads in the copy of an AC. -/
def targetsOf (ac : Ac) : List AcTarget :=
  ((extByNid ((ac.acinfo.bind (·.exts)).getD []) .idceTargets).bind (·.d2iTargets)).getD []

/-- There is a copy of the AC and each of its targets is a name. -/
def Listable (W : World) (ac : Ac) : Prop :=
  ∃ copy, W.acDup ac = some copy ∧ copy.acinfo ≠ none ∧ ∀ t ∈ targetsOf copy, t.name ≠ none

theorem never_getTargets {W : World} {v : VomsRecord} {ac : Ac} (hv : v.ac = some ac) :
    Res.Never BadRead (getTargets W v) ↔ Listable W ac := by
  unfold getTargets getAC Listable targetsOf
  rw [hv, Option.bind_some]
  cases W.acDup ac with
  | none => simp
  | some copy =>
    rw [Res.deref_some, Res.ok_bind]
    cases hinfo : copy.acinfo with
    | none => simp [hinfo]
    | some info =>
      simp only [Res.deref_some, Res.ok_bind, Option.some.injEq, exists_eq_left', hinfo, ne_eq,
        reduceCtorEq, not_false_eq_true, true_and, Option.bind_some]
      cases (extByNid (info.exts.getD []) .idceTargets).bind (·.d2iTargets) with
      | none => simp
      | some targets => simpa using never_targetNames

/-! ## All three -/

/-- **What the client reads.** For a decoded AC, `check`, `validate` and
`GetTargets` neither dereference NULL nor read the wrong member of a union,
whatever the flags and certificates, exactly if what each of them reads
where it gets that far is there. -/
theorem never_badRead_iff (F : Files) (wire : Der.Ac) (s : VomsData) (cert issuer : Option X509)
    (v : VomsRecord) (valids : VerifyType) (vertime : Int) :
    (Res.Never BadRead (check F (d2iAc wire) s) ∧
        Res.Never BadRead (validate F.toWorld cert issuer (d2iAc wire) v valids vertime) ∧
        Res.Never BadRead (getTargets F.toWorld { v with ac := some (d2iAc wire) })) ↔
      Checkable F wire s ∧
        (Started F.toWorld cert issuer (d2iAc wire) valids →
          Readable F.toWorld cert issuer wire v.attributes valids vertime) ∧
        Listable F.toWorld (d2iAc wire) := by
  rw [never_check, never_validate, never_getTargets rfl]

namespace Sample

/-- No issuer, a directoryName for a policy authority, and a target group. -/
def wild : Der.Ac :=
  { Voms.L2.Sample.ac with
    acinfo := { Voms.L2.Sample.info with
      issuer := none
      attributes := [⟨.idatcap, [⟨[.dirName Voms.L2.Sample.serverName], []⟩]⟩]
      extensions := some [⟨.idceTargets, true,
        .targets [⟨none, some (.uri "https://voms.example.org".toList), none⟩]⟩] } }

end Sample

/-- An AC that all three misread. -/
theorem wild_misread :
    ¬ Res.Never BadRead (check (Sample.files .good) (d2iAc Sample.wild) Sample.client) ∧
      ¬ Res.Never BadRead (validate (Sample.files .good).toWorld none none (d2iAc Sample.wild)
        VomsRecord.new VERIFY_NONE 0) ∧
      ¬ Res.Never BadRead (getTargets (Sample.files .good).toWorld
        { VomsRecord.new with ac := some (d2iAc Sample.wild) }) :=
  ⟨fun h => h .badChoice rfl trivial, fun h => h .nullDeref rfl trivial,
    fun h => h .nullDeref rfl trivial⟩

end Voms.L4
