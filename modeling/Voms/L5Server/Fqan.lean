import Mathlib.Data.List.Infix
import Mathlib.Tactic.IntervalCases
import Voms.L5Server.Commands

/-!
# From an FQAN to a command and back

`FQANParse` (`src/common/fqan.cc`) turns what a user asks for into a
command, `determine_group_and_role` (`src/server/vomsd.cc`) takes it apart
again. `agrees_iff`: the server reads a group, or a group with a role, as it
was meant exactly if the group starts with a slash and is neither `/` nor
`//`, and a role without a group never, because the old syntax of `R` gives
the role as the group too.
-/
namespace Voms.L5

open Voms.Core

/-! ## What a user asks for -/

inductive Fqan where
  | group (g : Str)
  | groupRole (g r : Str)
  | role (r : Str)
  | all
  deriving DecidableEq, Repr

/-- As it is typed. -/
def Fqan.text : Fqan → Str
  | .group g => g
  | .groupRole g r => g ++ "/Role=".toList ++ r
  | .role r => "/Role=".toList ++ r
  | .all => "all".toList

@[simp] theorem Fqan.text_group (g : Str) : (Fqan.group g).text = g := rfl

@[simp] theorem Fqan.text_groupRole (g r : Str) :
    (Fqan.groupRole g r).text = g ++ "/Role=".toList ++ r := rfl

/-- Group and role are made of characters the server lets through. -/
def Fqan.Acceptable : Fqan → Prop
  | .group g => g.all filter = true
  | .groupRole g r => g.all filter = true ∧ r.all filter = true
  | .role r => r.all filter = true
  | .all => True

/-- The command stands for the FQAN. -/
def Fqan.Means : Fqan → Command → Prop
  | .group g, c => c = ⟨'G', some g, none⟩
  | .groupRole g r, c => c = ⟨'B', some g, some r⟩
  | .role r, c => c = ⟨'R', none, some r⟩
  | .all, c => c.comm = 'A'

/-- The server reads what the user asked for. -/
def Fqan.Agrees (f : Fqan) : Prop :=
  ∃ command c, fqanParse f.text = some command ∧
    determineGroupAndRole command = .ok (some c) ∧ f.Means c

/-- A group below the root. -/
def Rooted (g : Str) : Prop := g.head? = some '/' ∧ g ≠ "/".toList ∧ g ≠ "//".toList

def Fqan.Understood : Fqan → Prop
  | .group g => Rooted g
  | .groupRole g _ => Rooted g
  | .role _ => False
  | .all => True

/-! ## Acceptable texts -/

theorem notMem_of_filter {s : Str} (h : s.all filter = true) {c : Char}
    (hc : filter c = false) : c ∉ s := by
  intro hmem
  have := List.all_eq_true.mp h c hmem
  rw [hc] at this
  cases this

theorem cStr_of_filter {s : Str} (h : s.all filter = true) : cStr s = s :=
  cStr_of_noNul (notMem_of_filter h (by decide))

/-- A pattern with a character the text does not have is not found. -/
theorem strstr_none_of_mem {p s : Str} {c : Char} (hp : c ∈ p) (hs : c ∉ s) :
    strstr p s = none := by
  rw [strstr_eq_none]
  exact fun h => hs (h.subset hp)

theorem strstr_equals {p s : Str} (h : s.all filter = true) (hp : '=' ∈ p) :
    strstr p s = none := strstr_none_of_mem hp (notMem_of_filter h (by decide))

/-! ## The client -/

theorem fqanParse_text {s : Str} (h : s.all filter = true) (hall : s ≠ "all".toList)
    (hALL : s ≠ "ALL".toList) :
    fqanParse s = some (if s.head? = some '/' then 'G' :: s else s) := by
  unfold fqanParse
  rw [if_neg (by simp only [not_or]; exact ⟨hall, hALL⟩), strstr_equals h (by decide),
    strstr_equals h (by decide)]
  rfl

/-- `/Role=` is found behind the group. -/
theorem strstr_role {g : Str} (r : Str) (hg : g.all filter = true) :
    strstr "/Role=".toList (g ++ "/Role=".toList ++ r) = some g.length := by
  refine strstr_append_self r (fun k h0 h6 => ?_) (strstr_equals hg (by decide))
  have h6 : k < 6 := h6
  interval_cases k <;> decide

/-- The only `=` is the one of `/Role=`. -/
theorem strstr_capability {g r : Str} (hg : g.all filter = true) (hr : r.all filter = true) :
    strstr "/Capability=".toList (g ++ "/Role=".toList ++ r) = none := by
  rw [strstr_eq_none]
  rintro ⟨front, back, h⟩
  have hg' : '=' ∉ g ++ "/Role".toList := by
    rw [List.mem_append, not_or]
    exact ⟨notMem_of_filter hg (by decide), by decide⟩
  have hr' : '=' ∉ r := notMem_of_filter hr (by decide)
  have hassoc : ∀ s word t : Str, (s ++ word) ++ '=' :: t = s ++ (word ++ ['=']) ++ t := by
    intro s word t
    simp
  have hcut : (g ++ "/Role".toList) ++ '=' :: r = (front ++ "/Capability".toList) ++ '=' :: back := by
    calc (g ++ "/Role".toList) ++ '=' :: r = g ++ "/Role=".toList ++ r := hassoc g _ r
      _ = front ++ "/Capability=".toList ++ back := h.symm
      _ = front ++ ("/Capability".toList ++ ['=']) ++ back := rfl
      _ = _ := (hassoc front _ back).symm
  obtain ⟨heq, -, -⟩ := (List.append_cons_inj_of_notMem hg' hr').mp hcut
  have hlast := congrArg List.getLast? heq
  rw [List.getLast?_append, List.getLast?_append] at hlast
  exact absurd (show some 'e' = some 'y' from hlast) (by decide)

theorem fqanParse_role {g r : Str} (hg : g.all filter = true) (hr : r.all filter = true) :
    fqanParse (g ++ "/Role=".toList ++ r) =
      some (if g = [] then 'R' :: r else 'B' :: g ++ ":".toList ++ r) := by
  have hnot : ¬ (g ++ "/Role=".toList ++ r = "all".toList ∨
      g ++ "/Role=".toList ++ r = "ALL".toList) := by
    have hmem : '=' ∈ g ++ "/Role=".toList ++ r :=
      List.mem_append_left r (List.mem_append_right g (by decide))
    rintro (h | h)
    · exact absurd (h ▸ hmem) (by decide)
    · exact absurd (h ▸ hmem) (by decide)
  unfold fqanParse
  rw [if_neg hnot, strstr_capability hg hr, strstr_role r hg]
  simp only [Option.isSome_none, Bool.false_eq_true, if_false, List.length_pos_iff]
  by_cases h : g = []
  · rw [if_neg (not_not.mpr h), if_pos h, h]
    rfl
  · have htake : (g ++ "/Role=".toList ++ r).take g.length = g := by
      rw [List.append_assoc, List.take_left']
      rfl
    have hdrop : (g ++ "/Role=".toList ++ r).drop (g.length + 6) = r := by
      rw [List.drop_left']
      exact List.length_append
    rw [if_pos h, if_neg h, htake, hdrop]
    rfl

/-! ## The server -/

theorem halves_text {s : Str} (h : s.all filter = true) : halves s = (s, none) := by
  unfold halves
  rw [strstr_equals h (by decide),
    strstr_none_of_mem (show ':' ∈ ":".toList by decide) (notMem_of_filter h (by decide))]

theorem halves_pair {g r : Str} (hg : g.all filter = true) (hr : r.all filter = true) :
    halves (g ++ ":".toList ++ r) = (g, some r) := by
  have hequals : '=' ∉ g ++ ":".toList ++ r := by
    simp only [List.mem_append, not_or]
    exact ⟨⟨notMem_of_filter hg (by decide), by decide⟩, notMem_of_filter hr (by decide)⟩
  have hcolon : strstr ":".toList (g ++ ":".toList ++ r) = some g.length :=
    strstr_append_self r (fun k h0 h1 => absurd (show k < 1 from h1) (by omega))
      (strstr_none_of_mem (show ':' ∈ ":".toList by decide) (notMem_of_filter hg (by decide)))
  unfold halves
  rw [strstr_none_of_mem (show '=' ∈ "/Role=".toList by decide) hequals, hcolon]
  simp

/-- The syntax of FQANs, by the halves. -/
theorem determine_fqan {comm : Char} {t first : Str} {second : Option Str}
    (ht : cStr t = t) (hslash : t.head? = some '/') (hhalves : halves t = (first, second))
    (hne : first ≠ []) (hfirst : first.all filter = true) (hsecond : acceptable second = true) :
    determineGroupAndRole (comm :: t) =
      if first = "/".toList then .fault .nullDeref
      else if first = "//".toList then .ok (some ⟨'N', none, none⟩)
      else .ok (some (fqanParts t)) := by
  have h1 : (halves t).1 = first := by rw [hhalves]
  have h2 : (halves t).2 = second := by rw [hhalves]
  rw [determineGroupAndRole_fqan (by rw [ht]; exact hslash), ht]
  by_cases hroot : first = "/".toList
  · rw [fqanSyntax_crash hslash (Or.inr (h1.trans hroot)), if_pos hroot]
    rfl
  · by_cases hlist : first = "//".toList
    · rw [fqanSyntax_list hslash (h1.trans hlist), if_neg hroot, if_pos hlist]
      rfl
    · obtain ⟨hgroup, hrole⟩ := fqanParts_halves hslash
      rw [h1, if_neg hne] at hgroup
      rw [fqanSyntax_parts hslash (h1 ▸ hne) (h1 ▸ hroot) (h1 ▸ hlist), if_neg hroot,
        if_neg hlist, Res.ok_bind, accept_eq_some.mpr ⟨rfl, by rw [hgroup]; exact hfirst,
          by rw [hrole, h2]; exact hsecond⟩]

/-- What the server makes of a letter and a text without separators. -/
theorem determine_text {comm : Char} {t : Str} (h : t.all filter = true) :
    determineGroupAndRole (comm :: t) =
      if t = "all".toList then .ok (some ⟨'A', none, none⟩)
      else if t.head? = some '/' then
        if t = "/".toList then .fault .nullDeref
        else if t = "//".toList then .ok (some ⟨'N', none, none⟩)
        else .ok (some ⟨'G', some t, none⟩)
      else .ok (some ⟨comm, some t, if comm = 'R' then some t else none⟩) := by
  have hc := cStr_of_filter h
  by_cases hall : t = "all".toList
  · rw [determineGroupAndRole_all (hc.trans hall), if_pos hall]
  · rw [if_neg hall]
    by_cases hslash : t.head? = some '/'
    · have hne : t ≠ [] := fun e => by rw [e] at hslash; cases hslash
      have hparts : fqanParts t = ⟨'G', some t, none⟩ := by
        unfold fqanParts
        rw [strstr_equals h (by decide), strstr_none_of_mem (show ':' ∈ ":".toList by decide)
          (notMem_of_filter h (by decide))]
      rw [determine_fqan hc hslash (halves_text h) hne h rfl, if_pos hslash, hparts]
    · have hcolon : ':' ∉ t := notMem_of_filter h (by decide)
      rw [determineGroupAndRole_old (by rw [hc]; exact hall) (by rw [hc]; exact hslash), hc,
        if_neg hslash]
      unfold oldSyntax
      by_cases hr : comm = 'R'
      · have haccept : accept ⟨comm, some t, some t⟩ = some ⟨comm, some t, some t⟩ :=
          accept_eq_some.mpr ⟨rfl, h, h⟩
        rw [if_pos hr, if_pos hr, Res.pure_eq, Res.ok_bind, haccept]
      · have haccept : accept ⟨comm, some t, none⟩ = some ⟨comm, some t, none⟩ :=
          accept_eq_some.mpr ⟨rfl, h, rfl⟩
        rw [if_neg hr, if_neg hr, if_neg (fun e => hcolon e.2), Res.pure_eq, Res.ok_bind, haccept]

/-- With both halves the syntax of FQANs is that of a group with a role. -/
theorem fqanParts_pair {t g r : Str} (hslash : t.head? = some '/') (h : halves t = (g, some r))
    (hne : g ≠ []) (hlen : g ≠ t) : fqanParts t = ⟨'B', some g, some r⟩ := by
  obtain ⟨hgroup, hrole⟩ := fqanParts_halves hslash
  rw [h, if_neg hne] at hgroup
  rw [h] at hrole
  have hcomm := fqanParts_comm t
  generalize fqanParts t = c at hgroup hrole hcomm
  obtain ⟨comm, group, role⟩ := c
  cases hgroup
  cases hrole
  rcases hcomm with ⟨-, hnone⟩ | rfl | ⟨-, heq⟩
  · cases hnone
  · rfl
  · exact absurd (Option.some.inj heq) hlen

/-- What the server makes of a group and a role. -/
theorem determine_pair {g r : Str} (hg : g.all filter = true) (hr : r.all filter = true)
    (hne : g ≠ []) :
    determineGroupAndRole ('B' :: g ++ ":".toList ++ r) =
      if g.head? = some '/' then
        if g = "/".toList then .fault .nullDeref
        else if g = "//".toList then .ok (some ⟨'N', none, none⟩)
        else .ok (some ⟨'B', some g, some r⟩)
      else .fault .nullDeref := by
  have hc : cStr (g ++ ":".toList ++ r) = g ++ ":".toList ++ r := by
    refine cStr_of_noNul ?_
    simp only [List.mem_append, not_or]
    exact ⟨⟨notMem_of_filter hg (by decide), by decide⟩, notMem_of_filter hr (by decide)⟩
  have hhead : (g ++ ":".toList ++ r).head? = g.head? := by
    rw [List.append_assoc, List.head?_append_of_ne_nil _ hne]
  rw [List.cons_append, List.cons_append]
  by_cases hslash : g.head? = some '/'
  · have hlen : g ≠ g ++ ":".toList ++ r := fun e => by
      have := congrArg List.length e
      simp only [List.length_append, String.length_toList] at this
      have h1 : ":".length = 1 := rfl
      omega
    have hparts := fqanParts_pair (hhead.trans hslash) (halves_pair hg hr) hne hlen
    rw [determine_fqan hc (hhead.trans hslash) (halves_pair hg hr) hne hg hr, if_pos hslash, hparts]
  · rw [if_neg hslash]
    refine determineGroupAndRole_crashes ?_
    rw [Crashes, if_neg (by rw [hc, hhead]; exact hslash), hc]
    exact ⟨rfl, by simp⟩

/-! ## Both together -/

/-- A group is kept only below the root. -/
theorem rooted_iff {g : Str} {c : Command} {x : Eval (Option Command)}
    (hc : c ≠ ⟨'N', none, none⟩) (hx : g.head? ≠ some '/' → x ≠ .ok (some c)) :
    (if g.head? = some '/' then
        if g = "/".toList then .fault .nullDeref
        else if g = "//".toList then .ok (some ⟨'N', none, none⟩)
        else .ok (some c)
      else x) = .ok (some c) ↔ Rooted g := by
  unfold Rooted
  by_cases hslash : g.head? = some '/'
  · rw [if_pos hslash]
    by_cases hroot : g = "/".toList
    · rw [if_pos hroot]
      exact iff_of_false nofun fun h => h.2.1 hroot
    · rw [if_neg hroot]
      by_cases hlist : g = "//".toList
      · rw [if_pos hlist]
        refine iff_of_false (fun h => hc ?_) fun h => h.2.2 hlist
        injection h with h
        injection h with h
        exact h.symm
      · rw [if_neg hlist]
        exact iff_of_true rfl ⟨hslash, hroot, hlist⟩
  · rw [if_neg hslash]
    exact iff_of_false (hx hslash) fun h => hslash h.1

/-- The group the server reads is shorter than the command. -/
theorem group_ne_command {comm : Char} {t : Str} (h : t.all filter = true) :
    determineGroupAndRole (comm :: t) ≠ .ok (some ⟨'G', some (comm :: t), none⟩) := by
  rw [determine_text h]
  intro hc
  have hlen : t ≠ comm :: t := fun e => by
    have := congrArg List.length e
    simp at this
  split at hc
  · cases hc
  · split at hc
    · split at hc
      · cases hc
      · split at hc
        · cases hc
        · exact hlen (by injection hc with hc; injection hc with hc; injection hc with _ hc _
                         injection hc)
    · exact hlen (by injection hc with hc; injection hc with hc; injection hc with _ hc _
                     injection hc)

theorem agrees_group {g : Str} (h : g.all filter = true) : (Fqan.group g).Agrees ↔ Rooted g := by
  have hagrees : (Fqan.group g).Agrees ↔ ∃ command, fqanParse g = some command ∧
      determineGroupAndRole command = .ok (some ⟨'G', some g, none⟩) := by
    unfold Fqan.Agrees
    refine ⟨fun hag => ?_, fun hag => ?_⟩
    · obtain ⟨command, c, hp, hd, hc⟩ := hag
      have hc' : c = ⟨'G', some g, none⟩ := hc
      exact ⟨command, hp, hc' ▸ hd⟩
    · obtain ⟨command, hp, hd⟩ := hag
      exact ⟨command, _, hp, hd, rfl⟩
  rw [hagrees]
  by_cases hall : g = "all".toList ∨ g = "ALL".toList
  · have hparse : fqanParse g = some "A".toList := by
      unfold fqanParse
      rw [if_pos hall]
    have hslash : g.head? ≠ some '/' := by
      rcases hall with rfl | rfl <;> decide
    rw [hparse]
    refine ⟨?_, fun hr => absurd hr.1 hslash⟩
    rintro ⟨command, hc, hd⟩
    cases hc
    cases hd
  · rw [not_or] at hall
    rw [fqanParse_text h hall.1 hall.2]
    simp only [Option.some.injEq, exists_eq_left']
    by_cases hslash : g.head? = some '/'
    · rw [if_pos hslash, determine_text h, if_neg hall.1]
      exact rooted_iff nofun fun h => absurd hslash h
    · rw [if_neg hslash]
      refine ⟨fun hd => ?_, fun hr => absurd hr.1 hslash⟩
      cases g with
      | nil => cases hd
      | cons comm t =>
        have ht : t.all filter = true := by
          rw [List.all_cons, Bool.and_eq_true] at h
          exact h.2
        exact absurd hd (group_ne_command ht)

/-- A role is never read without a group. -/
theorem determine_role {r : Str} (h : r.all filter = true) {c : Command}
    (hc : determineGroupAndRole ('R' :: r) = .ok (some c)) :
    c.comm ≠ 'B' ∧ c ≠ ⟨'R', none, some r⟩ := by
  rw [determine_text h] at hc
  split at hc
  · cases hc
    exact ⟨by decide, nofun⟩
  · split at hc
    · split at hc
      · cases hc
      · split at hc
        · cases hc
          exact ⟨by decide, nofun⟩
        · cases hc
          exact ⟨(by decide : 'G' ≠ 'B'), nofun⟩
    · cases hc
      exact ⟨(by decide : 'R' ≠ 'B'), nofun⟩

theorem agrees_groupRole {g r : Str} (hg : g.all filter = true) (hr : r.all filter = true) :
    (Fqan.groupRole g r).Agrees ↔ Rooted g := by
  have hagrees : (Fqan.groupRole g r).Agrees ↔
      determineGroupAndRole (if g = [] then 'R' :: r else 'B' :: g ++ ":".toList ++ r) =
        .ok (some ⟨'B', some g, some r⟩) := by
    unfold Fqan.Agrees
    refine ⟨fun hag => ?_, fun hd => ?_⟩
    · obtain ⟨command, c, hp, hd, hc⟩ := hag
      have hc' : c = ⟨'B', some g, some r⟩ := hc
      have hcommand := (fqanParse_role hg hr).symm.trans hp
      rw [Option.some.inj hcommand, hd, hc']
    · exact ⟨_, _, fqanParse_role hg hr, hd, rfl⟩
  rw [hagrees]
  by_cases hne : g = []
  · rw [if_pos hne, hne]
    refine ⟨fun hd => absurd rfl (determine_role hr hd).1, fun hr => ?_⟩
    cases hr.1
  · rw [if_neg hne, determine_pair hg hr hne]
    exact rooted_iff nofun fun _ => nofun

theorem not_agrees_role {r : Str} (h : r.all filter = true) : ¬ (Fqan.role r).Agrees := by
  have hparse := @fqanParse_role [] r rfl h
  rw [List.nil_append, if_pos rfl] at hparse
  rintro ⟨command, c, hp, hd, hc⟩
  have hcommand := hparse.symm.trans hp
  cases hcommand
  exact (determine_role h hd).2 hc

/-- **The server reads an FQAN as it was meant exactly if it asks for
everything, or for a group below the root, with a role or without.** -/
theorem agrees_iff {f : Fqan} (h : f.Acceptable) : f.Agrees ↔ f.Understood := by
  cases f with
  | group g => exact agrees_group h
  | groupRole g r => exact agrees_groupRole h.1 h.2
  | role r => exact iff_of_false (not_agrees_role h) id
  | all => exact iff_of_true ⟨_, _, rfl, rfl, rfl⟩ trivial

theorem agrees_pilot : (Fqan.groupRole "/vo".toList "pilot".toList).Agrees :=
  (@agrees_iff (.groupRole "/vo".toList "pilot".toList) ⟨by decide, by decide⟩).mpr
    ⟨by decide, by decide, by decide⟩

/-- A role is read as the group too, and the root group is a NULL pointer. -/
theorem agrees_fails :
    fqanParse (Fqan.role "pilot".toList).text = some "Rpilot".toList ∧
      determineGroupAndRole "Rpilot".toList =
        .ok (some ⟨'R', some "pilot".toList, some "pilot".toList⟩) ∧
      ¬ (Fqan.role "pilot".toList).Agrees ∧
      fqanParse (Fqan.group "/".toList).text = some "G/".toList ∧
      determineGroupAndRole "G/".toList = .fault .nullDeref ∧
      ¬ (Fqan.group "/".toList).Agrees := by
  refine ⟨by decide, by decide, ?_, by decide, by decide, ?_⟩
  · rintro ⟨command, c, hp, hd, hc⟩
    cases hp
    cases hd
    cases hc
  · rintro ⟨command, c, hp, hd, -⟩
    cases hp
    cases hd

end Voms.L5
