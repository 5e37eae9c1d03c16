import Voms.L2Ac.RoundTrip
import Voms.L5Server.MakeAC

/-!
# The three parts of an FQAN

`checkAttributes` cuts an FQAN at its first `/Role=` and its first
`/Capability=` into group, role and capability; `makeAC` adds what the long
form lacks.

The parts are cut as if the role came first. With the capability in front of
it the length of the role wraps, the group keeps the capability and the
capability the role.

* `fqanParts_exact`: the records put together are the FQANs exactly if no
  FQAN has the capability first; and the long form of a group, with or
  without a role, comes apart into them exactly if the markers are in none of
  them (the marker of a role may be in the role).
-/
namespace Voms.L5

open Voms.Core Voms.L1 Voms.L2

/-! ## What should hold -/

/-- The record put together: each marker is there with its part, or neither. -/
def Recomposes (str : Str) (d : Data) : Prop :=
  ∃ role cap, (role = [] ∧ d.role = [] ∨ role = "/Role=".toList ++ d.role) ∧
    (cap = [] ∧ d.cap = [] ∨ cap = "/Capability=".toList ++ d.cap) ∧ str = d.group ++ role ++ cap

/-- If both markers occur, the first of a role comes first. -/
def InOrder (str : Str) : Prop :=
  ∀ r c, strstr "/Role=".toList str = some r → strstr "/Capability=".toList str = some c → r < c

/-- An FQAN of the database, and what the server issues for it in the long
format. -/
def databaseFqan (group : Str) : Option Str → Str
  | none => group
  | some role => group ++ "/Role=".toList ++ role

def issuedLong (group : Str) (role : Option Str) : Str := cStr (longFqan (databaseFqan group role))

/-! ## The markers -/

theorem markers_apart {str : Str} {r c : Nat} (hr : strstr "/Role=".toList str = some r)
    (hc : strstr "/Capability=".toList str = some c) : r + 6 ≤ c ∨ c + 12 ≤ r := by
  obtain ⟨-, hrp, -⟩ := strstr_eq_some.mp hr
  obtain ⟨-, hcp, -⟩ := strstr_eq_some.mp hc
  rcases Nat.lt_trichotomy r c with hlt | rfl | hlt
  · exact Or.inl (marker_apart (t := "Role=".toList) (by decide) hrp hcp hlt)
  · obtain ⟨w, hw⟩ := hrp
    obtain ⟨w', hw'⟩ := hcp
    exact absurd (hw.trans hw'.symm) (by simp)
  · exact Or.inr (marker_apart (t := "Capability=".toList) (by decide) hcp hrp hlt)

/-- The parts of an FQAN in order. -/
theorem splitFqan_split {str : Str} {r c : Nat} (hr : strstr "/Role=".toList str = some r)
    (hc : strstr "/Capability=".toList str = some c) (hlt : r + 6 ≤ c) :
    splitFqan str = ⟨str.take r, (str.drop (r + 6)).take (c - (r + 6)), str.drop (c + 12)⟩ ∧
      str = str.take r ++ "/Role=".toList ++ (str.drop (r + 6)).take (c - (r + 6)) ++
        "/Capability=".toList ++ str.drop (c + 12) := by
  have hsplit := strstr_split hr
  have hrest : str.drop (r + 6) = (str.drop (r + 6)).take (c - (r + 6)) ++
      "/Capability=".toList ++ str.drop (c + 12) := by
    have hcap := congrArg (List.drop (r + 6)) (strstr_split hc)
    have hlen : r + 6 ≤ (str.take c).length := by
      have := (strstr_eq_some.mp hc).1
      rw [List.length_take]
      omega
    rwa [List.append_assoc, List.drop_append_of_le_length hlen, List.drop_take,
      ← List.append_assoc] at hcap
  refine ⟨by simp only [splitFqan, hr, hc, sizeSub, if_pos hlt], ?_⟩
  calc str = str.take r ++ "/Role=".toList ++ str.drop (r + 6) := hsplit
    _ = _ := by
      conv_lhs => rw [hrest]
      simp only [List.append_assoc]

/-- **One FQAN** is its parts exactly if it is in order. -/
theorem recomposes_iff (str : Str) : Recomposes str (splitFqan str) ↔ InOrder str := by
  unfold InOrder
  cases hr : strstr "/Role=".toList str with
  | none =>
    refine iff_of_true ?_ nofun
    cases hc : strstr "/Capability=".toList str with
    | none =>
      simp only [splitFqan, hr, hc]
      exact ⟨[], [], Or.inl ⟨rfl, rfl⟩, Or.inl ⟨rfl, rfl⟩, by simp⟩
    | some c =>
      simp only [splitFqan, hr, hc]
      refine ⟨[], _, Or.inl ⟨rfl, rfl⟩, Or.inr rfl, ?_⟩
      rw [List.append_nil, ← List.append_assoc]
      exact strstr_split hc
  | some r =>
    cases hc : strstr "/Capability=".toList str with
    | none =>
      refine iff_of_true ?_ nofun
      simp only [splitFqan, hr, hc]
      refine ⟨_, [], Or.inr rfl, Or.inl ⟨rfl, rfl⟩, ?_⟩
      rw [List.append_nil, ← List.append_assoc]
      exact strstr_split hr
    | some c =>
      have hrlen := (strstr_eq_some.mp hr).1
      rcases markers_apart hr hc with hlt | hlt
      · obtain ⟨heq, hstr⟩ := splitFqan_split hr hc hlt
        refine iff_of_true ?_ (fun r' c' hr' hc' => by cases hr'; cases hc'; omega)
        rw [heq]
        exact ⟨_, _, Or.inr rfl, Or.inr rfl, by simpa only [List.append_assoc] using hstr⟩
      · -- the group and the capability overlap
        refine iff_of_false ?_ (fun h => absurd (h r c rfl rfl) (by omega))
        rintro ⟨role, cap, -, hcap, hstr⟩
        have hlen := congrArg List.length hstr
        have hr6 := congrArg List.length (strstr_split hr)
        simp only [splitFqan, hr, hc, List.length_append, List.length_take] at hlen hcap hr6
        rcases hcap with ⟨-, hcap⟩ | hcap
        · have := congrArg List.length hcap
          simp only [List.length_drop, List.length_nil] at this
          simp at hr6
          omega
        · have := congrArg List.length hcap
          simp at this
          omega

/-! ## The long form -/

section

variable {g r : Str}

/-- The marker is not found across the other one. -/
theorem capability_append (h : "/Capability=".toList <:+: g ++ "/Role=".toList ++ r) :
    "/Capability=".toList <:+: g ∨ "/Capability=".toList <:+: r := by
  have hrole : g ++ "/Role=".toList ++ r = g ++ '/' :: ('R' :: 'o' :: 'l' :: 'e' :: '=' :: r) := by
    rw [List.append_assoc]
    rfl
  have hcap : "/Capability=".toList = '/' :: 'C' :: "apability=".toList := rfl
  rw [hrole, hcap] at h
  rw [hcap]
  rcases marker_append (by decide) h with h | h | h
  · exact Or.inl h
  · exact absurd h (by simp)
  · refine Or.inr ?_
    simpa [List.infix_cons_iff] using h

/-- The markers of a written-out FQAN are found where they were written
exactly if they are in none of the parts in front of them. -/
theorem strstr_long (cap : Str) :
    (strstr "/Role=".toList (g ++ "/Role=".toList ++ r ++ "/Capability=".toList ++ cap) =
        some g.length ∧
      strstr "/Capability=".toList (g ++ "/Role=".toList ++ r ++ "/Capability=".toList ++ cap) =
        some (g ++ "/Role=".toList ++ r).length) ↔
    ¬ "/Role=".toList <:+: g ∧ ¬ "/Capability=".toList <:+: g ∧ ¬ "/Capability=".toList <:+: r := by
  have hassoc : g ++ "/Role=".toList ++ r ++ "/Capability=".toList ++ cap =
      g ++ "/Role=".toList ++ (r ++ "/Capability=".toList ++ cap) := by
    simp only [List.append_assoc]
  constructor
  · rintro ⟨hm, hc⟩
    rw [hassoc, List.append_assoc] at hm
    rw [List.append_assoc] at hc
    have hcap := not_infix_of_strstr (by decide) hc
    refine ⟨not_infix_of_strstr (by decide) hm, fun hin => hcap ?_, fun hin => hcap ?_⟩
    · rw [List.append_assoc]
      exact hin.trans (List.prefix_append _ _).isInfix
    · exact hin.trans (List.suffix_append _ _).isInfix
  · rintro ⟨hrole, hcapg, hcapr⟩
    constructor
    · rw [hassoc]
      exact strstr_marker _ (show '/' ∉ "Role=".toList by decide) (strstr_eq_none.mpr hrole)
    · exact strstr_marker cap (show '/' ∉ "Capability=".toList by decide)
        (strstr_eq_none.mpr fun h => (capability_append h).elim hcapg hcapr)

/-- A written-out FQAN comes apart into what it was written from. -/
theorem splitFqan_long : splitFqan (g ++ "/Role=".toList ++ r ++ "/Capability=NULL".toList) =
      ⟨g, r, "NULL".toList⟩ ↔
    ¬ "/Role=".toList <:+: g ∧ ¬ "/Capability=".toList <:+: g ∧ ¬ "/Capability=".toList <:+: r := by
  have hfull : g ++ "/Role=".toList ++ r ++ "/Capability=NULL".toList =
      g ++ "/Role=".toList ++ r ++ "/Capability=".toList ++ "NULL".toList := by
    simp only [List.append_assoc]
    rfl
  have hlength : (g ++ "/Role=".toList ++ r ++ "/Capability=".toList ++ "NULL".toList).length =
      g.length + 6 + r.length + 12 + 4 := by
    simp
    omega
  rw [hfull, ← strstr_long "NULL".toList]
  constructor
  · -- both are found, and the lengths of the parts say where
    intro h
    obtain ⟨m, hm⟩ : ∃ m, strstr "/Role=".toList
        (g ++ "/Role=".toList ++ r ++ "/Capability=".toList ++ "NULL".toList) = some m :=
      Option.isSome_iff_exists.mp (strstr_isSome.mpr
        ⟨g, r ++ "/Capability=".toList ++ "NULL".toList, by simp only [List.append_assoc]⟩)
    obtain ⟨c, hc⟩ : ∃ c, strstr "/Capability=".toList
        (g ++ "/Role=".toList ++ r ++ "/Capability=".toList ++ "NULL".toList) = some c :=
      Option.isSome_iff_exists.mp (strstr_isSome.mpr
        ⟨g ++ "/Role=".toList ++ r, "NULL".toList, rfl⟩)
    have hmlen := (strstr_eq_some.mp hm).1
    simp only [splitFqan, hm, hc, Data.mk.injEq] at h
    have hgroup := congrArg List.length h.1
    have hcap := congrArg List.length h.2.2
    rw [List.length_take, hlength] at hgroup
    rw [List.length_drop, hlength, show "NULL".toList.length = 4 from rfl] at hcap
    rw [hlength] at hmlen
    rw [hm, hc]
    refine ⟨congrArg some (by omega), congrArg some ?_⟩
    simp
    omega
  · rintro ⟨hm, hc⟩
    have hle : g.length + 6 ≤ (g ++ "/Role=".toList ++ r).length := by simp
    obtain ⟨heq, -⟩ := splitFqan_split hm hc hle
    rw [heq, Data.mk.injEq]
    refine ⟨?_, ?_, ?_⟩
    · simp only [List.append_assoc]
      exact List.take_left
    · have hdrop : (g ++ "/Role=".toList ++ r ++ "/Capability=".toList ++ "NULL".toList).drop
          (g.length + 6) = r ++ ("/Capability=".toList ++ "NULL".toList) := by
        rw [List.append_assoc, List.append_assoc]
        exact List.drop_left' (by simp)
      rw [hdrop]
      exact List.take_left' (by simp; omega)
    · exact List.drop_left' (by simp; omega)

/-- What comes apart with the capability `NULL` was written out, or has no
role at all. -/
theorem of_splitFqan {s : Str} (h : splitFqan s = ⟨g, r, "NULL".toList⟩) :
    s = g ++ "/Role=".toList ++ r ++ "/Capability=NULL".toList ∨
      r = [] ∧ s = g ++ "/Capability=NULL".toList := by
  by_cases horder : InOrder s
  · obtain ⟨role, cap, hrole, hcap, hs⟩ := (recomposes_iff s).mpr horder
    rw [h] at hrole hcap hs
    rcases hcap with ⟨-, hcap⟩ | hcap
    · cases hcap
    · have hnull : cap = "/Capability=NULL".toList := hcap
      rcases hrole with ⟨hrole, hr⟩ | hrole
      · exact Or.inr ⟨hr, by rw [hs, hrole, hnull, List.append_nil]⟩
      · exact Or.inl (by rw [hs, hrole, hnull]; simp only [List.append_assoc])
  · simp only [InOrder, not_forall, Nat.not_lt] at horder
    obtain ⟨m, c, hm, hc, hle⟩ := horder
    -- the capability would be longer: the marker of the role is in it
    simp only [splitFqan, hm, hc, Data.mk.injEq] at h
    have hcap := congrArg List.length h.2.2
    have hlen := congrArg List.length (strstr_split hm)
    have hmlen := (strstr_eq_some.mp hm).1
    have hapart := markers_apart hm hc
    simp at hcap hlen
    omega

/-- The long form, as it is written. -/
theorem longFqan_databaseFqan (role : Option Str) (h : role = none → ¬ "/Role=".toList <:+: g) :
    longFqan (databaseFqan g role) =
      g ++ "/Role=".toList ++ role.getD "NULL".toList ++ "/Capability=NULL".toList := by
  cases role with
  | none =>
    have hnone : strstr "/Role=".toList g = none := strstr_eq_none.mpr (h rfl)
    simp only [longFqan, databaseFqan, hnone, Option.isSome_none, Bool.false_eq_true, if_false,
      Option.getD_none, List.append_assoc]
    rfl
  | some r =>
    have hsome : (strstr "/Role=".toList (g ++ "/Role=".toList ++ r)).isSome = true :=
      strstr_isSome.mpr ⟨g, r, rfl⟩
    simp only [longFqan, databaseFqan, hsome, if_true, Option.getD_some]

/-- What is added has no NUL. -/
theorem nul_mem_longFqan {s : Str} : '\x00' ∈ longFqan s ↔ '\x00' ∈ s := by
  unfold longFqan
  split
  · exact ⟨fun h => (List.mem_append.mp h).elim id fun h => absurd h (by decide),
      List.mem_append_left _⟩
  · exact ⟨fun h => (List.mem_append.mp h).elim id fun h => absurd h (by decide),
      List.mem_append_left _⟩

/-- **The long form** of a group, with or without a role, comes apart into
them exactly if no marker is where it does not belong. -/
theorem splitFqan_issuedLong (role : Option Str) :
    splitFqan (issuedLong g role) = ⟨g, role.getD "NULL".toList, "NULL".toList⟩ ↔
      '\x00' ∉ databaseFqan g role ∧ ¬ "/Role=".toList <:+: g ∧ ¬ "/Capability=".toList <:+: g ∧
        ∀ r, role = some r → ¬ "/Capability=".toList <:+: r := by
  have hrole : (¬ "/Capability=".toList <:+: role.getD "NULL".toList) ↔
      ∀ r, role = some r → ¬ "/Capability=".toList <:+: r := by
    cases role with
    | none => simpa using (by decide : ¬ "/Capability=".toList <:+: "NULL".toList)
    | some r => simp
  rw [← hrole]
  unfold issuedLong
  by_cases hmissing : role = none → ¬ "/Role=".toList <:+: g
  · have hlong := longFqan_databaseFqan role hmissing
    rw [hlong]
    constructor
    · intro h
      rcases of_splitFqan h with hs | ⟨hnil, hs⟩
      · rw [hs] at h
        refine ⟨fun hnul => cStr_eq_self.mp hs ?_, splitFqan_long.mp h⟩
        rw [← hlong]
        exact nul_mem_longFqan.mpr hnul
      · have hprefix := List.takeWhile_prefix (l := g ++ "/Role=".toList ++
          role.getD "NULL".toList ++ "/Capability=NULL".toList) (· ≠ '\x00')
        rw [← cStr, hs, List.append_assoc, List.append_assoc,
          List.prefix_append_right_inj] at hprefix
        obtain ⟨-, hprefix⟩ := List.cons_prefix_cons.mp
          (show '/' :: "Capability=NULL".toList <+: '/' :: ("Role=".toList ++ _) from hprefix)
        exact absurd (List.cons_prefix_cons.mp (show 'C' :: "apability=NULL".toList <+:
          'R' :: ("ole=".toList ++ _) from hprefix)).1 (by decide)
    · rintro ⟨hnul, hsplit⟩
      have hnul' : '\x00' ∉ g ++ "/Role=".toList ++ role.getD "NULL".toList ++
          "/Capability=NULL".toList := by
        rw [← hlong]
        exact mt nul_mem_longFqan.mp hnul
      rw [cStr_of_noNul hnul']
      exact splitFqan_long.mpr hsplit
  · obtain ⟨rfl, hin⟩ : role = none ∧ "/Role=".toList <:+: g := by simpa using hmissing
    refine iff_of_false (fun h => ?_) (fun h => h.2.1 hin)
    have hsome : (strstr "/Role=".toList g).isSome = true := strstr_isSome.mpr hin
    have hle := length_cStr_le (longFqan (databaseFqan g none))
    simp only [longFqan, databaseFqan, hsome, if_true] at h hle
    rcases of_splitFqan h with hs | ⟨hnil, -⟩
    · rw [hs] at hle
      simp at hle
    · cases hnil

end

/-- One record for each value, behind those that were there. -/
theorem read_checkAttributes {atts : List AcAttr} {names : List GeneralName} {fqans : List Str}
    {v v' : VomsRecord}
    (hatts : atts.find? (·.type == .idatcap) = some ⟨.idatcap, [⟨names, fqans.map .octets⟩]⟩)
    (h : checkAttributes atts v = .ok v') :
    v'.fqan = v.fqan ++ fqans ∧ v'.std = v.std ++ fqans.map splitFqan := by
  unfold checkAttributes readCapattr at h
  rw [hatts] at h
  obtain ⟨caps, hcaps, h⟩ := Res.bind_eq_ok.mp h
  cases hcaps
  obtain ⟨-, h⟩ := Res.then_eq_ok.mp h
  obtain ⟨capattr, hcapattr, h⟩ := Res.bind_eq_ok.mp h
  cases hcapattr
  obtain ⟨-, h⟩ := Res.then_eq_ok.mp h
  obtain ⟨data, -, h⟩ := Res.bind_eq_ok.mp h
  obtain ⟨-, h⟩ := Res.then_eq_ok.mp h
  obtain ⟨text, -, h⟩ := Res.bind_eq_ok.mp h
  obtain ⟨point, -, h⟩ := Res.bind_eq_ok.mp h
  rw [checkValues_octets] at h
  cases h
  exact ⟨rfl, rfl⟩

/-- **FQANs in three parts**, read by the client and written by the server. -/
theorem fqanParts_exact (atts : List AcAttr) (names : List GeneralName) (fqans : List Str)
    (v v' : VomsRecord) (group : Str) (role : Option Str)
    (hatts : atts.find? (·.type == .idatcap) = some ⟨.idatcap, [⟨names, fqans.map .octets⟩]⟩)
    (h : checkAttributes atts v = .ok v') :
    (∃ std, v'.fqan = v.fqan ++ fqans ∧ v'.std = v.std ++ std ∧
      (List.Forall₂ Recomposes fqans std ↔ ∀ f ∈ fqans, InOrder f)) ∧
    (splitFqan (issuedLong group role) = ⟨group, role.getD "NULL".toList, "NULL".toList⟩ ↔
      '\x00' ∉ databaseFqan group role ∧ ¬ "/Role=".toList <:+: group ∧
        ¬ "/Capability=".toList <:+: group ∧
        ∀ r, role = some r → ¬ "/Capability=".toList <:+: r) := by
  refine ⟨⟨fqans.map splitFqan, ?_, ?_, ?_⟩, splitFqan_issuedLong role⟩
  · exact (read_checkAttributes hatts h).1
  · exact (read_checkAttributes hatts h).2
  · rw [List.forall₂_map_right_iff, List.forall₂_same]
    exact forall₂_congr fun f _ => recomposes_iff f

namespace Sample

/-- What the AC of a server that writes these FQANs carries. -/
def carrying (fqans : List Str) : List AcAttr :=
  [⟨.idatcap, [⟨[.uri "vo://host:1".toList], fqans.map .octets⟩]⟩]

def reversed : Str := "/vo/Capability=x/Role=y".toList

end Sample

/-- The capability is in the group too, and the role in the capability. -/
theorem fqanParts_overlap :
    ¬ ∀ (atts : List AcAttr) (names : List GeneralName) (fqans : List Str) (v v' : VomsRecord),
      atts.find? (·.type == .idatcap) = some ⟨.idatcap, [⟨names, fqans.map .octets⟩]⟩ →
      checkAttributes atts v = .ok v' →
      ∃ std, v'.fqan = v.fqan ++ fqans ∧ v'.std = v.std ++ std ∧
        List.Forall₂ Recomposes fqans std := by
  intro h
  obtain ⟨std, -, hstd, hrec⟩ := h (Sample.carrying [Sample.reversed]) [.uri "vo://host:1".toList]
    [Sample.reversed] .new _ rfl rfl
  have hsplit : [splitFqan Sample.reversed] = std := hstd
  rw [← hsplit, List.forall₂_cons] at hrec
  exact absurd ((recomposes_iff _).mp hrec.1 16 3 rfl rfl) (by decide)

theorem fqanParts_exact_group :
    ∃ v', checkAttributes (Sample.carrying ["/vo".toList]) .new = .ok v' ∧
      (∃ std, v'.fqan = VomsRecord.new.fqan ++ ["/vo".toList] ∧
        v'.std = VomsRecord.new.std ++ std ∧
        (List.Forall₂ Recomposes ["/vo".toList] std ↔ ∀ f ∈ ["/vo".toList], InOrder f)) ∧
      (splitFqan (issuedLong "/vo".toList none) = ⟨"/vo".toList, "NULL".toList, "NULL".toList⟩ ↔
        '\x00' ∉ databaseFqan "/vo".toList none ∧ ¬ "/Role=".toList <:+: "/vo".toList ∧
          ¬ "/Capability=".toList <:+: "/vo".toList ∧
          ∀ r, (none : Option Str) = some r → ¬ "/Capability=".toList <:+: r) := by
  refine ⟨_, rfl, ?_⟩
  exact fqanParts_exact (Sample.carrying ["/vo".toList]) [.uri "vo://host:1".toList] ["/vo".toList]
    .new _ "/vo".toList none rfl rfl

end Voms.L5
