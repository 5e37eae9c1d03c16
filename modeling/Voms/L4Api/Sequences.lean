import Mathlib.Data.List.Induction
import Voms.L4Api.Policy

/-!
# Which AC sequences `retrieve` hands over

`retrieve` (`src/api/ccapi/api_util.cc`) looks for the extension `acseq` in
the certificate and then up its chain. Its comment says that `RECURSE_DEEP`
means all extensions, even if newer ones supersede them; `RECURSE_CHAIN`
stops at the first certificate that has one.

* `retrieve_handed`: what is handed over is the sequence of the last
  certificate looked at that has one, since `*listnew` is overwritten; and
  an `incfile` stops the search like an `acseq`.
* `retrieve_exact`: so nothing is lost exactly if no sequence with ACs has
  another behind it (`RECURSE_DEEP`), or no `incfile` stands in front of the
  first (`RECURSE_CHAIN`).

The search is reached once the holder is known (`Identified`).
-/
namespace Voms.L4

open Voms.Core Voms.L1 Voms.L2 Voms.L3

/-! ## What is asked for -/

/-- The certificate has the extension `acseq`. -/
def Carries (C : Client) (cert : X509) : Prop := C.acseq cert ≠ none

/-- Its ACs: none without the extension, or if it does not decode. -/
def acsOf (C : Client) (cert : X509) : List Ac := ((C.acseq cert).join).getD []

/-- Those of the first certificate that has the extension. -/
def firstAcs (C : Client) (certs : List X509) : List Ac :=
  ((certs.find? fun c => (C.acseq c).isSome).map (acsOf C)).getD []

/-- The ACs each mode is for, in the order of the chain. -/
def wanted (C : Client) (how : RecurseType) (cert : X509) (chain : List X509) : List Ac :=
  match how with
  | .RECURSE_NONE => acsOf C cert
  | .RECURSE_CHAIN => firstAcs C (cert :: chain)
  | .RECURSE_DEEP => (cert :: chain).flatMap (acsOf C)

/-- The list `evaluate` gets. -/
def handed (r : Option (Option (List Ac) × X509)) : List Ac := (r.bind (·.1)).getD []

/-- `Retrieve` ends as the evaluation of a list that holds each AC that is
wanted once. -/
def Retrieves (C : Client) (cert : X509) (chain : List X509) (how : RecurseType)
    (s : VomsData) : Prop :=
  ∃ r s', retrieve C (some cert) (some chain) how s = .ok (r, s') ∧
    (retrieveCert C (some cert) (some chain) how s =
      match r with
      | some (acs, holder) => evaluate C.toFiles acs (some holder) s'
      | none => .ok (false, s')) ∧
    (handed r).Perm (wanted C how cert chain)

/-- The tests before the search: a holder with a name and a CA. -/
structure Identified (cert : X509) (chain : List X509) (holder : X509) : Prop where
  real : getRealCert cert chain = .ok (some holder)
  issuer : cStr holder.issuer.oneline ≠ []
  subject : cStr holder.subject.oneline ≠ []

/-- No AC that is wanted is passed by. -/
def NothingLost (C : Client) (how : RecurseType) (cert : X509) (chain : List X509) : Prop :=
  match how with
  | .RECURSE_NONE => True
  | .RECURSE_CHAIN =>
    firstAcs C (cert :: chain) = [] ∨
      ∀ c ∈ (cert :: chain).takeWhile fun c => (C.acseq c).isNone, C.incfile c = none
  | .RECURSE_DEEP => (cert :: chain).Pairwise fun c c' => Carries C c' → acsOf C c = []

/-! ## The search -/

section

variable {C : Client}

theorem acsOf_of_not_carries {cert : X509} (h : ¬ Carries C cert) : acsOf C cert = [] := by
  unfold acsOf
  rw [not_not.mp h]
  rfl

/-- The search does not go on behind this certificate, unless it is deep. -/
def stops (C : Client) (cert : X509) : Bool := (C.acseq cert).isSome || (C.incfile cert).isSome

theorem acseq_of_not_stops {cert : X509} (h : stops C cert = false) : C.acseq cert = none := by
  simpa using (Bool.or_eq_false_iff.mp h).1

/-- One certificate: a list is replaced by the next. -/
theorem findexts_fst (cert : X509) (f : Found) (s : VomsData) :
    (findexts C cert f s).1 = ⟨f.found || stops C cert, (C.acseq cert).getD f.listnew⟩ := by
  unfold findexts stops
  cases C.acseq cert <;> cases C.incfile cert <;> simp

/-- Without a find there is no list. -/
def Found.Sound (f : Found) : Prop := f.found = false → f.listnew = none

theorem findexts_sound {cert : X509} {f : Found} {s : VomsData} (h : f.Sound) :
    (findexts C cert f s).1.Sound := by
  rw [findexts_fst]
  intro hfound
  obtain ⟨hf, hstops⟩ := Bool.or_eq_false_iff.mp hfound
  rw [acseq_of_not_stops hstops]
  exact h hf

/-- The last list found, or the one there was. -/
def lastList (C : Client) (certs : List X509) (listnew : Option (List Ac)) : Option (List Ac) :=
  certs.foldl (fun l cert => (C.acseq cert).getD l) listnew

theorem searchChain_cons {how : RecurseType} {cert : X509} {certs : List X509} {f : Found}
    {s : VomsData} :
    searchChain C how (cert :: certs) f s =
      if (findexts C cert f s).1.found ∧ how ≠ .RECURSE_DEEP then (true, findexts C cert f s)
      else searchChain C how certs (findexts C cert f s).1 (findexts C cert f s).2 := rfl

theorem searchChain_deep : ∀ (certs : List X509) {f : Found} (s : VomsData), f.Sound →
    (searchChain C .RECURSE_DEEP certs f s).2.1.Sound ∧
      (searchChain C .RECURSE_DEEP certs f s).2.1.listnew = lastList C certs f.listnew
  | [], _, _, h => ⟨h, rfl⟩
  | cert :: certs, f, s, h => by
    have hnext : (findexts C cert f s).1.Sound := findexts_sound h
    obtain ⟨hsound, hlist⟩ := searchChain_deep certs (findexts C cert f s).2 hnext
    rw [searchChain_cons, if_neg fun hstop => hstop.2 rfl]
    refine ⟨hsound, ?_⟩
    rw [hlist, findexts_fst]
    rfl

theorem searchChain_stops {how : RecurseType} (hhow : how ≠ .RECURSE_DEEP) :
    ∀ {certs : List X509} {s : VomsData},
    (searchChain C how certs ⟨false, none⟩ s).2.1 =
      match certs.find? (stops C) with
      | some c => ⟨true, (C.acseq c).join⟩
      | none => ⟨false, none⟩
  | [], _ => rfl
  | cert :: certs, s => by
    have hfind := findexts_fst (C := C) cert ⟨false, none⟩ s
    rw [List.find?_cons, searchChain_cons, hfind]
    cases hstops : stops C cert with
    | true =>
      rw [if_pos ⟨rfl, hhow⟩, hfind, hstops]
      change Found.mk true ((C.acseq cert).getD none) = Found.mk true (C.acseq cert).join
      cases C.acseq cert <;> rfl
    | false =>
      rw [if_neg fun hstop => Bool.false_ne_true hstop.1, acseq_of_not_stops hstops]
      exact searchChain_stops hhow

/-- How much of the chain is looked at. -/
def searched (how : RecurseType) (chain : List X509) : List X509 :=
  if how ≠ .RECURSE_NONE then chain else []

/-- `retrieve` is the search from the certificate on. -/
theorem retrieve_search {cert holder : X509} {chain : List X509} {how : RecurseType}
    {s : VomsData} {f : Found} (h : Identified cert chain holder)
    (hf : f = (searchChain C how (cert :: searched how chain) ⟨false, none⟩ s).2.1) :
    ∃ s', retrieve C (some cert) (some chain) how s =
      .ok (if f.found then some (f.listnew, holder) else none, s') := by
  subst hf
  rw [searchChain_cons]
  unfold retrieve
  simp only [Option.getD_some, h.real, Res.ok_bind, h.issuer, h.subject, reduceCtorEq,
    false_and, or_self, if_false, ne_eq]
  by_cases hstop : (findexts C cert ⟨false, none⟩ s).1.found = true ∧ ¬ how = .RECURSE_DEEP
  · rw [if_pos hstop, if_pos hstop, if_pos hstop.1]
    exact ⟨_, rfl⟩
  · rw [if_neg hstop, if_neg hstop]
    unfold searched
    by_cases hhow : how = .RECURSE_NONE
    · rw [if_neg (not_not.mpr hhow), if_neg (not_not.mpr hhow)]
      exact ⟨_, rfl⟩
    · rw [if_pos hhow, if_pos hhow]
      exact ⟨_, rfl⟩

/-! ## What it hands over -/

theorem lastList_append {certs certs' : List X509} {l : Option (List Ac)} :
    lastList C (certs ++ certs') l = lastList C certs' (lastList C certs l) :=
  List.foldl_append

/-- The list is that of the last certificate that has the extension. -/
theorem lastList_cases (certs : List X509) :
    ((∀ c ∈ certs, ¬ Carries C c) ∧ lastList C certs none = none) ∨
      ∃ before c after, certs = before ++ c :: after ∧ Carries C c ∧
        (∀ c' ∈ after, ¬ Carries C c') ∧ (lastList C certs none).getD [] = acsOf C c := by
  induction certs using List.reverseRecOn with
  | nil => exact Or.inl ⟨nofun, rfl⟩
  | append_singleton certs cert ih =>
    rw [lastList_append]
    by_cases hcarries : Carries C cert
    · right
      obtain ⟨l, hl⟩ := Option.ne_none_iff_exists'.mp hcarries
      exact ⟨certs, cert, [], rfl, hcarries, nofun, by simp [lastList, acsOf, hl]⟩
    · have hlast (l : Option (List Ac)) : lastList C [cert] l = l := by
        simp [lastList, not_not.mp hcarries]
      rw [hlast]
      rcases ih with ⟨hnone, hl⟩ | ⟨before, c, after, rfl, hc, hafter, hl⟩
      · exact Or.inl ⟨by simpa [or_imp, forall_and] using ⟨hnone, hcarries⟩, hl⟩
      · exact Or.inr ⟨before, c, after ++ [cert], by simp, hc,
          by simpa [or_imp, forall_and] using ⟨hafter, hcarries⟩, hl⟩

/-- Deep: all that was wanted, if what was overwritten was empty. -/
theorem lastList_perm_iff {certs : List X509} :
    ((lastList C certs none).getD []).Perm (certs.flatMap (acsOf C)) ↔
      certs.Pairwise fun c c' => Carries C c' → acsOf C c = [] := by
  have hempty {certs : List X509} (h : ∀ c ∈ certs, ¬ Carries C c) :
      certs.flatMap (acsOf C) = [] :=
    List.flatMap_eq_nil_iff.mpr fun c hc => acsOf_of_not_carries (h c hc)
  rcases lastList_cases (C := C) certs with ⟨hnone, hl⟩ | ⟨before, c, after, rfl, hc, hafter, hl⟩
  · rw [hl, hempty hnone]
    refine iff_of_true List.Perm.nil (List.pairwise_of_forall_mem_list ?_)
    exact fun c _ c' hc' hcarries => absurd hcarries (hnone c' hc')
  · rw [hl, List.flatMap_append, List.flatMap_cons, hempty hafter, List.append_nil,
      List.pairwise_append, List.pairwise_cons]
    constructor
    · intro h
      have hbefore : before.flatMap (acsOf C) = [] := by
        have hlength := h.length_eq
        rw [List.length_append] at hlength
        exact List.eq_nil_of_length_eq_zero (by omega)
      have hacs := List.flatMap_eq_nil_iff.mp hbefore
      refine ⟨List.pairwise_of_forall_mem_list fun b hb _ _ _ => hacs b hb,
        ⟨fun c' hc' hcarries => absurd hcarries (hafter c' hc'),
          List.pairwise_of_forall_mem_list fun _ _ c' hc' hcarries =>
            absurd hcarries (hafter c' hc')⟩,
        fun b hb _ _ _ => hacs b hb⟩
    · rintro ⟨-, -, h⟩
      rw [List.flatMap_eq_nil_iff.mpr fun b hb => h b hb c List.mem_cons_self hc, List.nil_append]

/-- Up to the first: what was wanted, if the search got there. -/
theorem firstStop_perm_iff : ∀ {certs : List X509},
    (((certs.find? (stops C)).map (acsOf C)).getD []).Perm (firstAcs C certs) ↔
      firstAcs C certs = [] ∨
        ∀ c ∈ certs.takeWhile fun c => (C.acseq c).isNone, C.incfile c = none
  | [] => by simp [firstAcs]
  | cert :: certs => by
    cases hacseq : C.acseq cert with
    | some l => simp [firstAcs, stops, hacseq]
    | none =>
      have hfirst : firstAcs C (cert :: certs) = firstAcs C certs := by simp [firstAcs, hacseq]
      rw [hfirst]
      cases hincfile : C.incfile cert with
      | some data =>
        have hacs : acsOf C cert = [] := acsOf_of_not_carries (not_not.mpr hacseq)
        rw [List.find?_cons, List.takeWhile_cons]
        simp only [stops, hacseq, hincfile, Option.isSome_none, Option.isSome_some, Bool.or_true,
          Option.map_some, Option.getD_some, hacs, Option.isNone_none, if_true,
          List.forall_mem_cons, reduceCtorEq, false_and, or_false, List.nil_perm]
      | none =>
        rw [List.find?_cons, List.takeWhile_cons]
        simp only [stops, hacseq, hincfile, Option.isSome_none, Bool.or_self, Option.isNone_none,
          if_true, List.forall_mem_cons, true_and]
        exact firstStop_perm_iff

/-- **What `retrieve` hands over**: the list of the last certificate that has
one if the search is deep, else what the certificate it stops at has. -/
theorem retrieve_handed {cert holder : X509} {chain : List X509} (how : RecurseType)
    (s : VomsData) (h : Identified cert chain holder) :
    ∃ r s', retrieve C (some cert) (some chain) how s = .ok (r, s') ∧
      handed r = if how = .RECURSE_DEEP then (lastList C (cert :: chain) none).getD []
        else (((cert :: searched how chain).find? (stops C)).map (acsOf C)).getD [] := by
  obtain ⟨f, hf⟩ : ∃ f, f = (searchChain C how (cert :: searched how chain) ⟨false, none⟩ s).2.1 :=
    ⟨_, rfl⟩
  obtain ⟨s', hretrieve⟩ := retrieve_search h hf
  refine ⟨_, s', hretrieve, ?_⟩
  by_cases hdeep : how = .RECURSE_DEEP
  · subst hdeep
    have hstart : Found.Sound ⟨false, none⟩ := fun _ => rfl
    obtain ⟨hsound, hlist⟩ := searchChain_deep (C := C) (cert :: chain) s hstart
    rw [if_pos rfl, ← hlist]
    change f = (searchChain C .RECURSE_DEEP (cert :: chain) ⟨false, none⟩ s).2.1 at hf
    rw [← hf] at hsound ⊢
    cases hfound : f.found with
    | true => rfl
    | false => rw [hsound hfound]; rfl
  · rw [searchChain_stops hdeep] at hf
    rw [if_neg hdeep, hf]
    cases (cert :: searched how chain).find? (stops C) <;> rfl

end

/-- **When `retrieve` loses no AC**: deep, if no certificate that has another
behind it carries ACs, and else if no include file stands in front of the
first that carries some. -/
theorem retrieve_exact {C : Client} {cert holder : X509} {chain : List X509}
    (how : RecurseType) (s : VomsData) (h : Identified cert chain holder) :
    Retrieves C cert chain how s ↔ NothingLost C how cert chain := by
  obtain ⟨r, s', hretrieve, hhanded⟩ := retrieve_handed (C := C) how s h
  have hretrieves : Retrieves C cert chain how s ↔
      (handed r).Perm (wanted C how cert chain) := by
    constructor
    · rintro ⟨r', s'', h', -, hperm⟩
      cases hretrieve.symm.trans h'
      exact hperm
    · refine fun hperm => ⟨r, s', hretrieve, ?_, hperm⟩
      unfold retrieveCert
      rw [hretrieve]
      rcases r with _ | ⟨acs, holder'⟩ <;> rfl
  rw [hretrieves, hhanded]
  cases how with
  | RECURSE_DEEP => exact lastList_perm_iff
  | RECURSE_CHAIN => exact firstStop_perm_iff
  | RECURSE_NONE =>
    refine iff_of_true (List.Perm.of_eq ?_) trivial
    cases hstops : stops C cert with
    | true => simp [searched, wanted, hstops]
    | false =>
      have hnone : ¬ Carries C cert := not_not.mpr (acseq_of_not_stops hstops)
      simp [searched, wanted, hstops, acsOf_of_not_carries hnone]

namespace Sample

/-- A proxy of the user. -/
def proxy : X509 :=
  { user with
    subject := ⟨Voms.L1.Sample.userName.entries ++ [⟨NID_commonName, "proxy".toList⟩], [3, 4],
      "/CN=user/CN=proxy".toList⟩
    issuer := Voms.L1.Sample.userName }

theorem identified : Identified proxy [user] user := ⟨rfl, nofun, nofun⟩

/-- Certificates with these sequences and include files. -/
def extended (acs : X509 → Option (List Ac)) (data : X509 → Option Str) : Client :=
  { applications with
    acseq := fun cert => (acs cert).map some
    incfile := data }

/-- An AC in the proxy, and no other. -/
def once : Client := extended (fun cert => if cert = proxy then some [d2iAc ac] else none) fun _ => none

/-- An AC in the proxy and one in the certificate it was made from. -/
def twice : Client := extended (fun _ => some [d2iAc ac]) fun _ => none

/-- An include file in the proxy, an AC in the certificate it was made from. -/
def included : Client :=
  extended (fun cert => if cert = user then some [d2iAc ac] else none)
    fun cert => if cert = proxy then some "notes".toList else none

end Sample

/-- `retrieve_exact` for a proxy with the only AC. -/
theorem retrieve_exact_once :
    Retrieves Sample.once Sample.proxy [Sample.user] .RECURSE_DEEP Sample.client := by
  refine (retrieve_exact .RECURSE_DEEP Sample.client Sample.identified).mpr ?_
  refine List.pairwise_pair.mpr fun hcarries => absurd ?_ hcarries
  rfl

/-- Two sequences, and one of them is dropped; an include file, and the
sequence behind it is not found. -/
theorem retrieve_loses :
    ¬ Retrieves Sample.twice Sample.proxy [Sample.user] .RECURSE_DEEP Sample.client ∧
      ¬ Retrieves Sample.included Sample.proxy [Sample.user] .RECURSE_CHAIN Sample.client := by
  constructor
  · rintro ⟨r, s', h, -, hperm⟩
    cases h
    exact absurd hperm.length_eq (by decide)
  · rintro ⟨r, s', h, -, hperm⟩
    cases h
    exact absurd hperm.length_eq (by decide)

end Voms.L4
