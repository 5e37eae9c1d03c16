import Voms.L2Ac.RoundTrip
import Voms.L5Server.Rest

/-!
# Which requests the server can interpret

A request that decodes may have no command at all, and `makeAC` takes
`comm[0]` of it; and a command may lack the half of the pair that
`determine_group_and_role` goes on to use. `arrival_robust_iff`: whatever
the database answers, neither happens exactly if the request has a command
and the loop stops, or the commands end, before one that `Crashes`.
-/
namespace Voms.L5

open Voms.Core Voms.L1 Voms.L2 Voms.L3

/-- A NULL group or role is used, or a vector is indexed outside its bounds. -/
def CommandFault (f : Fault) : Prop := f = .nullDeref ∨ f = .outOfRange

/-! ## One command -/

/-- The text before its first `/Role=`, or without one before its first
colon, and the text behind. -/
def halves (string : Str) : Str × Option Str :=
  match strstr "/Role=".toList string with
  | some n => (string.take n, some (string.drop (n + 6)))
  | none =>
    match strstr ":".toList string with
    | some n => (string.take n, some (string.drop (n + 1)))
    | none => (string, none)

/-- In the syntax of FQANs the first half is empty or is `/`; in the old one
the letter `B` is followed by a colon. -/
def Crashes : Str → Prop
  | [] => False
  | comm :: t =>
    if (cStr t).head? = some '/' then (halves (cStr t)).1 = [] ∨ (halves (cStr t)).1 = "/".toList
    else comm = 'B' ∧ ':' ∈ cStr t

/-- Both halves are made of characters that are let through, and the letter
is one of those the `switch` knows. -/
def Passes : Str → Prop
  | [] => False
  | comm :: t =>
    if (cStr t).head? = some '/' then
      (halves (cStr t)).1 = "//".toList ∨
        ((halves (cStr t)).1.all filter = true ∧ acceptable (halves (cStr t)).2 = true)
    else
      cStr t = "all".toList ∨
        (comm ∈ ['A', 'R', 'G', 'B', 'N'] ∧ (cStr t).all filter = true)

/-- `fqanParts` gives the halves, the first one only if it is not empty. -/
theorem fqanParts_halves {string : Str} (h : string.head? = some '/') :
    (fqanParts string).group = (if (halves string).1 = [] then none else some (halves string).1) ∧
      (fqanParts string).role = (halves string).2 := by
  have hne : string ≠ [] := fun e => by simp [e] at h
  have htake : ∀ n, string.take n = [] ↔ n = 0 := fun n => by simp [hne]
  unfold fqanParts halves
  cases strstr "/Role=".toList string with
  | some n => by_cases hn : n = 0 <;> simp [htake, hn]
  | none =>
    simp only
    cases strstr ":".toList string with
    | some n => by_cases hn : n = 0 <;> simp [htake, hn]
    | none => simp [hne]

/-- The letters `fqanParts` gives. -/
theorem fqanParts_comm (string : Str) :
    (fqanParts string).comm = 'R' ∧ (fqanParts string).group = none ∨
      (fqanParts string).comm = 'B' ∨
      (fqanParts string).comm = 'G' ∧ (fqanParts string).group = some string := by
  unfold fqanParts
  split
  · split
    · exact Or.inl ⟨rfl, rfl⟩
    · exact Or.inr (Or.inl rfl)
  · split
    · split
      · exact Or.inl ⟨rfl, rfl⟩
      · exact Or.inr (Or.inl rfl)
    · exact Or.inr (Or.inr ⟨rfl, rfl⟩)

theorem fqanSyntax_crash {string : Str} (hslash : string.head? = some '/')
    (h : (halves string).1 = [] ∨ (halves string).1 = "/".toList) :
    fqanSyntax string = .fault .nullDeref := by
  unfold fqanSyntax
  simp only [(fqanParts_halves hslash).1]
  rcases h with h | h
  · rw [h]
    rfl
  · rw [h]
    rfl

theorem fqanSyntax_list {string : Str} (hslash : string.head? = some '/')
    (h : (halves string).1 = "//".toList) : fqanSyntax string = .ok ⟨'N', none, none⟩ := by
  unfold fqanSyntax
  simp only [(fqanParts_halves hslash).1]
  rw [h]
  rfl

theorem fqanSyntax_parts {string : Str} (hslash : string.head? = some '/')
    (hempty : (halves string).1 ≠ []) (hroot : (halves string).1 ≠ "/".toList)
    (hlist : (halves string).1 ≠ "//".toList) :
    fqanSyntax string = .ok (fqanParts string) := by
  unfold fqanSyntax
  simp only [(fqanParts_halves hslash).1, if_neg hempty, if_neg hroot, if_neg hlist]
  rfl

/-- The text is the group of every letter, and the role of `R`. -/
theorem oldSyntax_ok {comm : Char} {string : Str} (h : ¬ (comm = 'B' ∧ ':' ∈ string)) :
    ∃ role, oldSyntax comm string = .ok ⟨comm, some string, role⟩ ∧
      (role = none ∨ role = some string) := by
  unfold oldSyntax
  by_cases hr : comm = 'R'
  · exact ⟨some string, by rw [if_pos hr]; rfl, Or.inr rfl⟩
  · exact ⟨none, by rw [if_neg hr, if_neg h]; rfl, Or.inl rfl⟩

/-- What is left of a command after the test of its characters. -/
def accept (c : Command) : Option Command :=
  if acceptable c.group && acceptable c.role then some c else none

theorem accept_eq_some {c cmd : Command} : accept c = some cmd ↔
    c = cmd ∧ acceptable c.group = true ∧ acceptable c.role = true := by
  unfold accept
  by_cases h : (acceptable c.group && acceptable c.role) = true
  · rw [if_pos h]
    simp only [Bool.and_eq_true] at h
    simp [h]
  · rw [if_neg h]
    simp only [Bool.and_eq_true] at h
    simp [h]

theorem determineGroupAndRole_all {comm : Char} {t : Str} (h : cStr t = "all".toList) :
    determineGroupAndRole (comm :: t) = .ok (some ⟨'A', none, none⟩) := by
  unfold determineGroupAndRole
  simp only [commandText, List.drop_one, List.tail_cons, if_pos h]
  rfl

theorem determineGroupAndRole_fqan {comm : Char} {t : Str} (h : (cStr t).head? = some '/') :
    determineGroupAndRole (comm :: t) = fqanSyntax (cStr t) >>= fun c => .ok (accept c) := by
  have hall : cStr t ≠ "all".toList := fun e => by rw [e] at h; cases h
  unfold determineGroupAndRole
  simp only [commandText, List.drop_one, List.tail_cons, if_neg hall, if_pos h]
  rfl

theorem determineGroupAndRole_old {comm : Char} {t : Str} (hall : cStr t ≠ "all".toList)
    (h : (cStr t).head? ≠ some '/') :
    determineGroupAndRole (comm :: t) = oldSyntax comm (cStr t) >>= fun c => .ok (accept c) := by
  unfold determineGroupAndRole
  simp only [commandText, List.drop_one, List.tail_cons, if_neg hall, if_neg h]
  rfl

/-- A command that crashes does so at once. -/
theorem determineGroupAndRole_crashes {c : Str} (h : Crashes c) :
    determineGroupAndRole c = .fault .nullDeref := by
  cases c with
  | nil => exact h.elim
  | cons comm t =>
    rw [Crashes] at h
    by_cases hslash : (cStr t).head? = some '/'
    · rw [if_pos hslash] at h
      rw [determineGroupAndRole_fqan hslash, fqanSyntax_crash hslash h]
      rfl
    · rw [if_neg hslash] at h
      obtain ⟨rfl, hcolon⟩ := h
      have hall : cStr t ≠ "all".toList := by
        intro e
        rw [e] at hcolon
        exact absurd hcolon (by decide)
      rw [determineGroupAndRole_old hall hslash]
      unfold oldSyntax
      rw [if_neg (by decide), if_pos ⟨rfl, hcolon⟩]
      rfl

/-- The letters the `switch` knows. -/
def Known (c : Command) : Prop := c.comm ∈ ['A', 'R', 'G', 'B', 'N']

/-- What becomes of a command: `r` is what is left of it. The group of a `G`
is the whole text, and the loop goes on only behind a command that passes. -/
def Screened (c : Str) (r : Option Command) : Prop :=
  (∀ cmd, r = some cmd → cmd.comm = 'G' → cmd.group = some (commandText c)) ∧
    (Passes c ↔ ∃ cmd, r = some cmd ∧ Known cmd)

theorem screened_fqan {comm : Char} {t : Str} (hslash : (cStr t).head? = some '/')
    (hempty : (halves (cStr t)).1 ≠ []) (hroot : (halves (cStr t)).1 ≠ "/".toList) :
    ∃ r, determineGroupAndRole (comm :: t) = .ok r ∧ Screened (comm :: t) r := by
  obtain ⟨hgroup, hrole⟩ := fqanParts_halves hslash
  rw [if_neg hempty] at hgroup
  rw [determineGroupAndRole_fqan hslash]
  unfold Screened
  rw [Passes, if_pos hslash]
  by_cases hlist : (halves (cStr t)).1 = "//".toList
  · rw [fqanSyntax_list hslash hlist]
    refine ⟨some ⟨'N', none, none⟩, rfl, fun cmd hcmd hg => ?_, ?_⟩
    · cases hcmd
      cases hg
    · exact ⟨fun _ => ⟨_, rfl, by simp [Known]⟩, fun _ => Or.inl hlist⟩
  · rw [fqanSyntax_parts hslash hempty hroot hlist]
    refine ⟨accept (fqanParts (cStr t)), rfl, fun cmd hcmd hg => ?_, ?_⟩
    · obtain ⟨rfl, -, -⟩ := accept_eq_some.mp hcmd
      rcases fqanParts_comm (cStr t) with ⟨-, hnone⟩ | hb | ⟨-, hs⟩
      · rw [hgroup] at hnone
        cases hnone
      · rw [hb] at hg
        cases hg
      · exact hs
    · have hknown : Known (fqanParts (cStr t)) := by
        rcases fqanParts_comm (cStr t) with ⟨-, hnone⟩ | hb | ⟨hg, -⟩
        · rw [hgroup] at hnone
          cases hnone
        · simp [Known, hb]
        · simp [Known, hg]
      simp only [hlist, false_or, accept_eq_some, hgroup, hrole]
      refine ⟨fun hp => ⟨_, ⟨rfl, hp⟩, hknown⟩, fun hscreened => ?_⟩
      obtain ⟨cmd, hp, -⟩ := hscreened
      exact hp.2

theorem screened_old {comm : Char} {t : Str} (hslash : (cStr t).head? ≠ some '/')
    (hcolon : ¬ (comm = 'B' ∧ ':' ∈ cStr t)) :
    ∃ r, determineGroupAndRole (comm :: t) = .ok r ∧ Screened (comm :: t) r := by
  unfold Screened
  rw [Passes, if_neg hslash]
  by_cases hall : cStr t = "all".toList
  · rw [determineGroupAndRole_all hall]
    refine ⟨some ⟨'A', none, none⟩, rfl, fun cmd hcmd hg => ?_, ?_⟩
    · cases hcmd
      cases hg
    · exact ⟨fun _ => ⟨_, rfl, by simp [Known]⟩, fun _ => Or.inl hall⟩
  · obtain ⟨role, hold, hrole⟩ := oldSyntax_ok hcolon
    have haccept : (cStr t).all filter = true → acceptable role = true := by
      intro ha
      rcases hrole with rfl | rfl
      · rfl
      · exact ha
    rw [determineGroupAndRole_old hall hslash, hold]
    refine ⟨accept ⟨comm, some (cStr t), role⟩, rfl, fun cmd hcmd _ => ?_, ?_⟩
    · obtain ⟨rfl, -, -⟩ := accept_eq_some.mp hcmd
      rfl
    · simp only [hall, false_or, accept_eq_some]
      constructor
      · intro hp
        exact ⟨_, ⟨rfl, hp.2, haccept hp.2⟩, hp.1⟩
      · rintro ⟨cmd, ⟨rfl, ha, -⟩, hk⟩
        exact ⟨hk, ha⟩

/-- Any other command is refused, or passes, or has a letter unknown to the
`switch`. -/
theorem determineGroupAndRole_screened {c : Str} (h : ¬ Crashes c) :
    ∃ r, determineGroupAndRole c = .ok r ∧ Screened c r := by
  cases c with
  | nil =>
    exact ⟨none, rfl, fun _ hcmd => (nomatch hcmd), fun hp => hp.elim, fun ⟨_, hcmd, _⟩ =>
      (nomatch hcmd)⟩
  | cons comm t =>
    rw [Crashes] at h
    by_cases hslash : (cStr t).head? = some '/'
    · rw [if_pos hslash, not_or] at h
      exact screened_fqan hslash h.1 h.2
    · rw [if_neg hslash] at h
      exact screened_old hslash h

/-! ## The loop -/

theorem never_runCommand {D : Database} {k : Nat} {uid : Int} {c : Command} {l : Lists}
    (h : c.comm = 'G' → c.group ≠ none) : Res.Never CommandFault (runCommand D k uid c l) := by
  unfold runCommand
  refine Res.never_ite.mpr ⟨fun _ => Res.never_ok _, fun _ => Res.never_ite.mpr
    ⟨fun _ => Res.never_ok _, fun _ => Res.never_ite.mpr ⟨fun hg => ?_, fun _ =>
      Res.never_ite.mpr ⟨fun _ => Res.never_ok _, fun _ => Res.never_ite.mpr
        ⟨fun _ => Res.never_ok _, fun _ => Res.never_ok _⟩⟩⟩⟩⟩
  simp only
  refine Res.never_ite.mpr ⟨fun _ => Res.never_bind.mpr ⟨?_, fun _ _ => Res.never_ok _⟩,
    fun _ => Res.never_ok _⟩
  exact (Res.never_deref (Or.inl rfl)).mpr (h hg)

/-- The loop goes on only behind a letter the `switch` knows. -/
theorem runCommand_known {D : Database} {k : Nat} {uid : Int} {c : Command} {l l' : Lists}
    (h : runCommand D k uid c l = .ok (true, l')) : Known c := by
  unfold runCommand at h
  unfold Known
  by_cases ha : c.comm = 'A'
  · simp [ha]
  by_cases hr : c.comm = 'R'
  · simp [hr]
  by_cases hg : c.comm = 'G'
  · simp [hg]
  by_cases hb : c.comm = 'B'
  · simp [hb]
  by_cases hn : c.comm = 'N'
  · simp [hn]
  rw [if_neg ha, if_neg hr, if_neg hg, if_neg hb, if_neg hn] at h
  cases h

/-- No command that crashes is reached, even if every one before it passes
and succeeds. -/
def SafeCommands : List Str → Prop
  | [] => True
  | c :: rest => ¬ Crashes c ∧ (Passes c → SafeCommands rest)

theorem never_commandLoop {D : Database} {uid : Int} {setuporder : Bool} :
    ∀ {comm : List Str} {k : Nat} {p : Progress}, SafeCommands comm →
      Res.Never CommandFault (commandLoop D uid setuporder k comm p)
  | [], _, _, _ => Res.never_ok _
  | c :: rest, k, p, h => by
    obtain ⟨hcrash, hrest⟩ := h
    obtain ⟨r, hr, hgroup, hpass⟩ := determineGroupAndRole_screened hcrash
    unfold commandLoop
    rw [hr, Res.ok_bind]
    cases r with
    | none => exact Res.never_ok _
    | some cmd =>
      refine Res.never_bind.mpr ⟨never_runCommand fun hg => ?_, fun out hout => ?_⟩
      · rw [hgroup cmd rfl hg]
        exact Option.some_ne_none _
      · obtain ⟨result, lists⟩ := out
        cases result with
        | false => exact Res.never_ok _
        | true => exact never_commandLoop (hrest (hpass.mpr ⟨cmd, rfl, runCommand_known hout⟩))

/-- A database that knows every user, and answers `wanted` to everything. -/
def obliging (wanted : List Str) : Database where
  getSession := true
  getUser := (true, 1)
  error := 0
  errorMessage := none
  operation _ _ _ := (true, wanted)
  operationAttribs _ _ l := (true, l)

theorem runCommand_obliging {wanted : List Str} {k : Nat} {uid : Int} {c : Command} {l : Lists}
    (h : Known c) (hgroup : c.comm = 'G' → ∃ g ∈ wanted, c.group = some g) :
    ∃ l', runCommand (obliging wanted) k uid c l = .ok (true, l') := by
  unfold runCommand
  simp only [Known, List.mem_cons, List.not_mem_nil, or_false] at h
  rcases h with hc | hc | hc | hc | hc
  · exact ⟨_, by rw [if_pos hc]; rfl⟩
  · exact ⟨_, by rw [hc]; rfl⟩
  · obtain ⟨g, hg, heq⟩ := hgroup hc
    have hin : notIn g wanted = false := by simp [notIn, hg]
    refine ⟨(obliging wanted).groupAttribs k uid { l with fqans := wanted }, ?_⟩
    rw [if_neg (by simp [hc]), if_neg (by simp [hc]), if_pos hc]
    simp only [obliging, if_true, heq, Res.deref_some, Res.ok_bind, hin, Bool.false_eq_true,
      if_false, Res.pure_eq]
  · exact ⟨_, by rw [hc]; rfl⟩
  · exact ⟨_, by rw [hc]; rfl⟩

/-- With such a database every command is reached. -/
theorem commandLoop_obliging {wanted : List Str} {uid : Int} {setuporder : Bool} :
    ∀ {comm : List Str} {k : Nat} {p : Progress}, ¬ SafeCommands comm →
      (∀ c ∈ comm, commandText c ∈ wanted) →
      commandLoop (obliging wanted) uid setuporder k comm p = .fault .nullDeref
  | [], _, _, h, _ => absurd trivial h
  | c :: rest, k, p, h, hwanted => by
    unfold commandLoop
    by_cases hcrash : Crashes c
    · rw [determineGroupAndRole_crashes hcrash]
      rfl
    · obtain ⟨r, hr, hgroup, hpass⟩ := determineGroupAndRole_screened hcrash
      have hrest : Passes c ∧ ¬ SafeCommands rest := by
        by_contra hc
        exact h ⟨hcrash, fun hp => by_contra fun hs => hc ⟨hp, hs⟩⟩
      obtain ⟨cmd, rfl, hknown⟩ := hpass.mp hrest.1
      obtain ⟨l', hrun⟩ : ∃ l', runCommand (obliging wanted) k uid cmd p.lists = .ok (true, l') :=
        runCommand_obliging hknown fun hg =>
          ⟨commandText c, hwanted c (List.mem_cons_self ..), hgroup cmd rfl hg⟩
      rw [hr, Res.ok_bind]
      simp only [hrun, Res.ok_bind, if_true]
      exact commandLoop_obliging hrest.2 fun c hc => hwanted c (List.mem_cons_of_mem _ hc)

/-! ## The whole request -/

/-- The request has a command and none that crashes is reached. -/
def Interpretable (r : Request) : Prop := r.command ≠ [] ∧ SafeCommands r.command

theorem never_interpretRequest {V : Server} {D : Database} {vr : VomsResult} {message : Str}
    (h : ∀ r, xmlReqDecode V.toWire message = some r → Interpretable r) :
    Res.Never CommandFault (interpretRequest V D vr message) := by
  unfold interpretRequest
  cases hr : xmlReqDecode V.toWire message with
  | none => exact Res.never_ok _
  | some r =>
    obtain ⟨hne, hsafe⟩ := h r hr
    simp only
    cases hcomm : r.command with
    | nil => exact absurd hcomm hne
    | cons first rest =>
      rw [hcomm] at hsafe
      simp only
      refine Res.never_ite.mpr ⟨fun _ => ?_, fun _ => Res.never_ok _⟩
      split
      · exact Res.never_ok _
      · exact Res.never_bind.mpr ⟨never_commandLoop hsafe, fun _ _ => Res.never_ok _⟩

/-- The texts of all commands. -/
def wantedGroups (r : Request) : List Str := r.command.map commandText

theorem interpretRequest_obliging {V : Server} (vr : VomsResult) {message : Str} {r : Request}
    (hr : xmlReqDecode V.toWire message = some r) (h : ¬ Interpretable r) :
    ∃ f, CommandFault f ∧
      interpretRequest V (obliging (wantedGroups r)) vr message = .fault f := by
  unfold interpretRequest
  rw [hr]
  simp only
  cases hcomm : r.command with
  | nil => exact ⟨.outOfRange, Or.inr rfl, rfl⟩
  | cons first rest =>
    have hsafe : ¬ SafeCommands r.command := fun hs => h ⟨by simp [hcomm], hs⟩
    have hloop : commandLoop (obliging (wantedGroups r)) 1 (r.order = []) 0 r.command
        ⟨⟨[], []⟩, r.order, first⟩ = .fault .nullDeref :=
      commandLoop_obliging hsafe fun c hc => List.mem_map_of_mem hc
    rw [hcomm] at hloop
    refine ⟨.nullDeref, Or.inl rfl, ?_⟩
    have huser : ∀ vr, getUserid V (obliging (wantedGroups r)) vr = (some 1, vr) := fun _ => rfl
    simp only [obliging, if_true] at huser hloop ⊢
    simp only [huser, hloop, Res.fault_bind]

/-- `interpretRequest`, inverted. -/
theorem interpretRequest_ok {V : Server} {D : Database} {vr vr' : VomsResult} {message : Str}
    {sel : Selection} (h : interpretRequest V D vr message = .ok (some sel, vr')) :
    ∃ r first rest short uid p, xmlReqDecode V.toWire message = some r ∧
      r.command = first :: rest ∧
      shortenValidity V r.lifetime { vr with base64 := V.base64encoding || r.base64 } = short ∧
      getUserid V D short.2 = (some uid, vr') ∧
      commandLoop D uid (r.order = []) 0 r.command ⟨⟨[], []⟩, r.order, first⟩ = .ok (true, p) ∧
      sel = ⟨r.command, parseTargets r.targets, short.1, p.order, p.command, p.lists⟩ := by
  unfold interpretRequest at h
  split at h
  · cases h
  · next r hr =>
    simp only at h
    split at h
    · cases h
    · next first rest hcomm =>
      split at h
      · split at h
        · cases h
        · next uid vr1 huser =>
          obtain ⟨⟨result, p⟩, hloop, h⟩ := Res.bind_eq_ok.mp h
          cases result with
          | false => cases h
          | true =>
            cases h
            exact ⟨r, first, rest, _, uid, p, hr, hcomm, rfl, huser, hloop, rfl⟩
      · cases h

/-- A request that is interpreted keeps its commands. -/
theorem interpretRequest_comm {V : Server} {D : Database} {vr vr' : VomsResult} {message : Str}
    {sel : Selection} (h : interpretRequest V D vr message = .ok (some sel, vr')) :
    sel.comm ≠ [] := by
  obtain ⟨r, first, rest, _, _, _, -, hcomm, -, -, -, rfl⟩ := interpretRequest_ok h
  rw [hcomm]
  exact List.cons_ne_nil first rest

/-! ## The answer -/

section

variable {V : Server} {P : Party} {sel : Selection} {vr : VomsResult} {out : Outcome}

/-- The list once the duplicates are gone and the order is made. -/
def ordered (V : Server) (sel : Selection) : List Str :=
  orderFqans V (parseOrder sel.order []).2 sel.lists.fqans

/-- The FQANs that are released. -/
def released (V : Server) (sel : Selection) : List Str := restrict V (ordered V sel)

/-- The attributes given to `createac`. mirrors src/server/vomsd.cc:985-988, 1051-1056 -/
def writtenAttribs (V : Server) (sel : Selection) : List Gattrib :=
  if (released V sel).length ≠ (ordered V sel).length then
    (sortAttribs V sel.lists.attribs).filter (!checkinside · (released V sel))
  else sortAttribs V sel.lists.attribs

/-- `writeAC`, inverted. -/
theorem writeAC_cases {fqans : List Str} {attribs : List Gattrib}
    (h : writeAC V P sel fqans attribs vr = .ok out) :
    (∃ errs written, (∀ e ∈ errs, e.num = ERR_NOT_MEMBER) ∧
      (∀ l, written = some l → l = fqans) ∧
      out = ⟨false, { vr with errs := vr.errs ++ errs }, some sel.lists.fqans, written⟩) ∨
    ∃ serial a, createac V.signer P.issuer V.ownStack P.holder P.key serial fqans sel.targs
        (attribs.map Gattrib.str) V.voname V.uri sel.requested (!V.newformat) none = .ok a ∧
      out = ⟨true, { vr with ac := V.i2dAc a, data := [] }, some sel.lists.fqans, some fqans⟩ := by
  have hone (message : Str) : ∀ e ∈ [Errorp.mk ERR_NOT_MEMBER message], e.num = ERR_NOT_MEMBER :=
    fun e he => by rw [List.mem_singleton.mp he]
  unfold writeAC at h
  simp only at h
  split at h
  · cases h
    exact Or.inl ⟨_, none, hone _, nofun, rfl⟩
  · next serial _ =>
    split at h
    · cases h
    · next res _ =>
      cases h
      refine Or.inl ⟨[⟨ERR_NOT_MEMBER, getError res⟩, ⟨ERR_NOT_MEMBER, ": Unable to satisfy ".toList ++
        sel.command ++ " request due to database error.".toList⟩], some fqans, fun e he => ?_,
        fun l hl => (Option.some.inj hl).symm, ?_⟩
      · rcases List.mem_cons.mp he with rfl | he
        · rfl
        · exact hone _ e he
      · simp only [VomsResult.setError, List.append_assoc, List.cons_append, List.nil_append]
    · next a ha =>
      split at h
      · cases h
        exact Or.inl ⟨_, some fqans, hone _, fun l hl => (Option.some.inj hl).symm, rfl⟩
      · cases h
        exact Or.inr ⟨serial, a, ha, rfl⟩

/-- `issueAC`, inverted: no FQAN, none that is left, a list, or an AC. -/
theorem issueAC_cases (h : issueAC V P sel vr = .ok out) :
    let warned := warnFirst (parseOrder sel.order []).1 (ordered V sel) vr
    (∃ message, out = ⟨false, warned.setError ERR_NOT_MEMBER message, some sel.lists.fqans, none⟩) ∨
    (∃ message, out = ⟨false, warned.setError ERR_ATTR_EMPTY message, some sel.lists.fqans, none⟩) ∨
    (released V sel ≠ [] ∧ ∃ message,
      let vr' := if (released V sel).length ≠ (ordered V sel).length then
        warned.setError WARN_ATTR_SUBSET message else warned
      out = ⟨true, { vr' with ac := [], data := listData (released V sel) }, some sel.lists.fqans,
        none⟩ ∨
      writeAC V P sel (released V sel) (writtenAttribs V sel) vr' = .ok out) := by
  have hordered : ordered V sel = orderFqans V (parseOrder sel.order []).2 sel.lists.fqans := rfl
  unfold issueAC at h
  generalize parseOrder sel.order [] = order at h hordered ⊢
  obtain ⟨firstfqan, ordering⟩ := order
  simp only at h hordered ⊢
  rw [← hordered] at h
  split at h
  · cases h
    exact Or.inl ⟨_, rfl⟩
  · split at h
    · cases h
      exact Or.inr (Or.inl ⟨_, rfl⟩)
    · next hleft =>
      refine Or.inr (Or.inr ⟨hleft, V.voname ++
        " : your certificate already contains attributes, only a subset of them can be issued.".toList,
        ?_⟩)
      split at h
      · cases h
      · split at h
        · cases h
          exact Or.inl rfl
        · exact Or.inr h

end

/-! ## The writer -/

theorem never_parseAttributes {vo : Option Str} : ∀ attrs : List Str,
    Res.Never (· = .outOfRange) (parseAttributes vo attrs)
  | [] => Res.never_ok _
  | s :: rest => by
    unfold parseAttributes parseAttribute
    refine Res.never_bind.mpr ⟨Res.never_bind.mpr ⟨?_, fun point _ => ?_⟩, fun a _ => ?_⟩
    · cases strstr "::".toList s <;> simp
    · exact Res.never_bind.mpr ⟨Res.never_require, fun _ _ => Res.never_ok _⟩
    · exact Res.never_bind.mpr ⟨never_parseAttributes rest, fun _ _ => Res.never_ok _⟩

theorem never_copyExtensions {extensions : List X509Ext} {i : Nat} :
    ∀ {n : Nat} {exts : List X509Ext},
      Res.Never (· = .outOfRange) (copyExtensions exts extensions i n)
  | 0, _ => Res.never_ok _
  | _ + 1, _ => Res.never_bind.mpr ⟨Res.never_require, fun _ _ => never_copyExtensions⟩

theorem never_makeAndPushExt {exts : List X509Ext} {name : ExtType} {data : Option ExtBody}
    {critical : Bool} : Res.Never (· = .outOfRange) (makeAndPushExt exts name data critical) :=
  Res.never_bind.mpr ⟨Res.never_require, fun _ _ => Res.never_ok _⟩

theorem never_makeExtensions {S : Signer} {issuerc : X509} {issuerstack : Option (List X509)}
    {t : Option Str} {attrs : List AcAttribute} {vo uri : Option Str}
    {extensions : Option (List X509Ext)} : Res.Never (· = .outOfRange)
      (makeExtensions S issuerc issuerstack t attrs vo uri extensions) := by
  unfold makeExtensions
  refine Res.never_bind.mpr ⟨?_, fun _ _ => Res.never_bind.mpr ⟨never_makeAndPushExt, fun _ _ =>
    Res.never_bind.mpr ⟨never_makeAndPushExt, fun _ _ => Res.never_bind.mpr
      ⟨never_makeAndPushExt, fun _ _ => Res.never_bind.mpr ⟨?_, fun _ _ => ?_⟩⟩⟩⟩⟩
  · exact Res.never_ite.mpr ⟨fun _ => Res.never_ok _, fun _ => never_makeAndPushExt⟩
  · cases t with
    | none => exact Res.never_ok _
    | some t => exact never_makeAndPushExt
  · exact never_copyExtensions

theorem never_createac {S : Signer} {issuerc holder : X509} {issuerstack : Option (List X509)}
    {pkey : EvpPKey} {serial : Asn1Integer} {fqan targets attributes : List Str} {vo uri : Str}
    {valid : Int} {old : Bool} {extensions : Option (List X509Ext)} :
    Res.Never (· = .outOfRange) (createac S issuerc issuerstack holder pkey serial fqan targets
      attributes vo uri valid old extensions) := by
  unfold createac writeac
  refine Res.never_bind.mpr ⟨Res.never_require, fun _ _ => Res.never_bind.mpr
    ⟨Res.never_require, fun _ _ => Res.never_bind.mpr ⟨never_parseAttributes _, fun _ _ =>
      Res.never_bind.mpr ⟨never_makeExtensions, fun _ _ => Res.never_ok _⟩⟩⟩⟩

theorem never_writeAC {V : Server} {P : Party} {sel : Selection} {fqans : List Str}
    {attribs : List Gattrib} {vr : VomsResult} :
    Res.Never (· = .outOfRange) (writeAC V P sel fqans attribs vr) := by
  unfold writeAC
  simp only
  split
  · exact Res.never_ok _
  · split
    · next f hf => exact fun b hb => never_createac f hf |> fun hne => by cases hb; exact hne
    · exact Res.never_ok _
    · exact Res.never_ite.mpr ⟨fun _ => Res.never_ok _, fun _ => Res.never_ok _⟩

theorem never_issueAC {V : Server} {P : Party} {sel : Selection} {vr : VomsResult}
    (h : sel.comm ≠ []) : Res.Never (· = .outOfRange) (issueAC V P sel vr) := by
  unfold issueAC
  simp only
  refine Res.never_ite.mpr ⟨fun _ => Res.never_ok _, fun _ => Res.never_ite.mpr
    ⟨fun _ => Res.never_ok _, fun _ => ?_⟩⟩
  split
  · next hcomm => exact absurd hcomm h
  · exact Res.never_ite.mpr ⟨fun _ => Res.never_ok _, fun _ => never_writeAC⟩

/-- A call of `makeAC` stays inside its vectors and never uses a NULL group
or role, whatever the database answers. -/
def Robust (V : Server) (P : Party) (vr : VomsResult) (message : Str) : Prop :=
  ∀ D : Database, Res.Never CommandFault (interpretRequest V D vr message) ∧
    Res.Never (· = .outOfRange) (makeAC V D vr P message)

theorem robust_iff {V : Server} {P : Party} {vr : VomsResult} {message : Str} :
    Robust V P vr message ↔ ∀ r, xmlReqDecode V.toWire message = some r → Interpretable r := by
  constructor
  · intro h r hr
    by_contra hint
    obtain ⟨f, hf, hfault⟩ := interpretRequest_obliging vr hr hint
    exact (h (obliging (wantedGroups r))).1 f hfault hf
  · intro h D
    have hint : Res.Never CommandFault (interpretRequest V D vr message) := never_interpretRequest h
    refine ⟨hint, Res.never_bind.mpr ⟨fun f hf hrange => hint f hf (Or.inr hrange), ?_⟩⟩
    rintro ⟨sel, vr'⟩ hout
    cases sel with
    | none => exact Res.never_ok _
    | some sel => exact never_issueAC (interpretRequest_comm hout)

/-- **Which requests are interpreted.** Whatever a client sends, and
whatever the database answers, no NULL group or role is used and no vector is
indexed outside its bounds, exactly if a request that decodes has a command
and none that crashes is reached. -/
theorem arrival_robust_iff (V : Server) (P : Party) (a : Arrival) :
    (∀ vr message, V.arrival a = some (vr, message) → Robust V P vr message) ↔
      ∀ vr message r, V.arrival a = some (vr, message) →
        xmlReqDecode V.toWire message = some r → Interpretable r := by
  constructor
  · intro h vr message r ha hr
    exact robust_iff.mp (h vr message ha) r hr
  · intro h vr message ha
    exact robust_iff.mpr fun r hr => h vr message r ha hr

/-! ## Two URLs -/

namespace Sample

export Voms.L2.Sample (user server signer)

/-- One element with its text. -/
def element (name text : Str) : List XmlEvent := [.start name, .text text, .stop name]

/-- A `<voms>` with the elements given, and what every URL adds to them. -/
def voms (elements : List XmlEvent) : List XmlEvent :=
  [.start "voms".toList] ++ elements ++ element "base64".toList "1".toList ++
    element "version".toList "4".toList ++
    [.start "lifetime".toList, .stop "lifetime".toList, .stop "voms".toList]

/-- Expat on the requests for no FQAN, for `/` and for `/vo`. -/
def expat (message : Str) : List XmlEvent × Bool :=
  if message = xmlReqEncode [] [] [] (-1) then (voms [], true)
  else if message = xmlReqEncode "G/".toList [] [] (-1) then
    (voms (element "command".toList "G/".toList), true)
  else if message = xmlReqEncode "G/vo".toList [] [] (-1) then
    (voms (element "command".toList "G/vo".toList), true)
  else ([], false)

def voServer : Server where
  expat := expat
  base64Decode := id
  voname := "vo".toList
  uri := "voms.example.org:15000".toList
  validity := 43200
  shortfqans := false
  newformat := true
  base64encoding := false
  ownStack := none
  signer := signer
  serial := some ⟨false, [7]⟩
  i2dAc := fun _ => "coded".toList
  sorter := .insertion
  retrieved := []

def party : Party := ⟨⟨20⟩, server, user⟩

end Sample

/-- A URL for no FQAN asks for no command, one for `/` for `G/`: both are
well formed, and both end the process. -/
theorem generateAc_crashes :
    (∃ vr message, Sample.voServer.arrival (.get "/generate-ac?fqans=".toList) =
        some (vr, message) ∧ (xmlReqDecode Sample.voServer.toWire message).isSome ∧
        makeAC Sample.voServer (obliging []) vr Sample.party message = .fault .outOfRange ∧
        ¬ Robust Sample.voServer Sample.party vr message) ∧
      ∃ vr message, Sample.voServer.arrival (.get "/generate-ac?fqans=/".toList) =
        some (vr, message) ∧ (xmlReqDecode Sample.voServer.toWire message).isSome ∧
        makeAC Sample.voServer (obliging []) vr Sample.party message = .fault .nullDeref ∧
        ¬ Robust Sample.voServer Sample.party vr message := by
  refine ⟨⟨_, _, rfl, by decide, rfl, fun h => ?_⟩, ⟨_, _, rfl, by decide, rfl, fun h => ?_⟩⟩
  · exact (h (obliging [])).1 .outOfRange rfl (Or.inr rfl)
  · exact (h (obliging [])).1 .nullDeref rfl (Or.inl rfl)

end Voms.L5
