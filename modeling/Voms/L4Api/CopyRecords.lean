import Voms.L4Api.CInterface

/-!
# Copies of records in C

`voms::translate`, `TranslateVOMS` and `VOMS_Copy`
(`src/api/ccapi/cinterface.cc`). The first takes a record without a holder
for what it is; the last takes the missing copy of it for a lack of memory.

* `run_records`: what is true of every record that `verifydata` fills is true
  of every record an object ever holds.
* `vomsCopy_exact`: of the records an object can hold, those with a holder
  are copied in full, and no others.

OpenSSL decodes no AC whose length does not fit an `int`, so the counters of
its parts do not overflow.
-/
namespace Voms.L4

open Voms.Core Voms.L1 Voms.L2 Voms.L3

/-- A `len` of 0 asks for `strlen`.
mirrors src/api/ccapi/cinterface.cc:80-94 -/
def mystrdup (str : Option Str) (len : Nat) : Eval (Option Str) :=
  match str with
  | none => pure none
  | some s => do
    let res ← Block.copy (s ++ ['\x00']) (if len = 0 then (cStr s).length else len)
    pure (some res)

/-- mirrors src/api/ccapi/cinterface.cc:319-331 -/
def translateStd : List Data → Eval (List Datar)
  | [] => pure []
  | d :: std => do
    let group ← mystrdup (some d.group) 0
    let role ← mystrdup (some d.role) 0
    let cap ← mystrdup (some d.cap) 0
    let rest ← translateStd std
    pure (⟨group, role, cap⟩ :: rest)

section

variable (W : World) (x509Dup : X509 → Option X509) {Vd : Type}

/-- Nothing in the library assigns `custom`.
mirrors src/api/ccapi/cinterface.cc:281-341 -/
def translate (v : VomsRecord) : Eval (Option (Vomsr Vd)) := do
  let signature ← mystrdup (some v.signature) v.signature.length
  let user ← mystrdup (some v.user) 0
  let userca ← mystrdup (some v.userca) 0
  let server ← mystrdup (some v.server) 0
  let serverca ← mystrdup (some v.serverca) 0
  let voname ← mystrdup (some v.voname) 0
  let uri ← mystrdup (some v.uri) 0
  let date1 ← mystrdup (some v.date1) 0
  let date2 ← mystrdup (some v.date2) 0
  let custom ← mystrdup (some []) 0
  let serial ← mystrdup (some v.serial) 0
  let ac := v.ac.bind W.acDup
  let holder := v.holder.bind x509Dup
  if (holder = none ∧ v.holder ≠ none) ∨ ac = none then pure none
  else
    let std ← translateStd v.std
    pure (some
      { (Vomsr.zero : Vomsr Vd) with
        version := v.version, siglen := v.siglen, signature, user, userca, server, serverca
        voname, uri, date1, date2, stdType := v.stdType, custom, serial, datalen := 0, ac, holder
        fqan := some (v.fqan.map cStr), std := some std })

/-- The loop of `TranslateVOMS`.
mirrors src/api/ccapi/cinterface.cc:43-71 -/
def translateVOMS (vd : Vd) : Nat → List VomsRecord → Eval (List (Vomsr Vd))
  | _, [] => pure []
  | i, v :: l => do
    let dst : Option (Vomsr Vd) ← translate W x509Dup v
    let r ← Res.deref dst
    let rest ← translateVOMS vd (i + 1) l
    pure ({ r with mydata := Int32.ofNat i, my2 := some vd } :: rest)

/-- mirrors src/api/ccapi/cinterface.cc:808-814 -/
def copyFqan : List Str → Eval (Option (List Str))
  | [] => pure (some [])
  | f :: fqan => do
    let copy ← mystrdup (some f) 0
    let rest ← copyFqan fqan
    pure (copy.bind fun copy => rest.map (copy :: ·))

/-- mirrors src/api/ccapi/cinterface.cc:818-829 -/
def copyStd : List Datar → Eval (Option (List Datar))
  | [] => pure (some [])
  | d :: std => do
    let group ← mystrdup d.group 0
    let role ← mystrdup d.role 0
    let cap ← mystrdup d.cap 0
    if group = none ∨ role = none ∨ cap = none then pure none
    else
      let rest ← copyStd std
      pure (rest.map (⟨group, role, cap⟩ :: ·))

/-- The value and what is written to `error`.
mirrors src/api/ccapi/cinterface.cc:758-841 -/
def vomsCopy (org : Option (Vomsr Vd)) : Eval (Option (Vomsr Vd) × VError) :=
  match org with
  | none => pure (none, .VERR_PARAM)
  | some org => do
    let signature ← mystrdup org.signature org.siglen
    let user ← mystrdup org.user 0
    let userca ← mystrdup org.userca 0
    let server ← mystrdup org.server 0
    let serverca ← mystrdup org.serverca 0
    let voname ← mystrdup org.voname 0
    let uri ← mystrdup org.uri 0
    let date1 ← mystrdup org.date1 0
    let date2 ← mystrdup org.date2 0
    let custom ← mystrdup org.custom org.datalen
    let serial ← mystrdup org.serial 0
    let ac := org.ac.bind W.acDup
    let holder := org.holder.bind x509Dup
    if holder = none ∨ ac = none then pure (none, .VERR_MEM)
    else
      let orgFqan ← Res.deref org.fqan
      let orgStd ← Res.deref org.std
      let fqan ← copyFqan orgFqan
      if fqan = none then pure (none, .VERR_MEM)
      else
        let std ← copyStd orgStd
        if std = none then pure (none, .VERR_MEM)
        else
          pure (some
            { (Vomsr.zero : Vomsr Vd) with
              version := org.version, siglen := org.siglen, signature, user, userca, server
              serverca, voname, uri, date1, date2, stdType := org.stdType, custom, serial
              datalen := org.datalen, ac, holder, mydata := org.mydata, my2 := org.my2, fqan
              std }, .VERR_MEM)

end

/-! ## Texts -/

theorem mystrdup_text (s : Str) : mystrdup (some s) 0 = .ok (some (cStr s)) := by
  unfold mystrdup
  dsimp only
  have hprefix : (s ++ ['\x00']).take (cStr s).length = cStr s :=
    List.prefix_iff_eq_take.mp ((List.takeWhile_prefix _).trans (List.prefix_append ..)) |>.symm
  rw [if_pos rfl, Block.copy_ok, hprefix]
  · rfl
  · rw [List.length_append]
    exact Nat.le_add_right_of_le (length_cStr_le s)

/-- All of the bytes of a `std::string`. -/
theorem mystrdup_data (s : Str) : mystrdup (some s) s.length = .ok (some s) := by
  by_cases hs : s = []
  · subst hs
    rfl
  · unfold mystrdup
    dsimp only
    rw [if_neg (mt List.eq_nil_of_length_eq_zero hs), Block.copy_ok, List.take_left]
    · rfl
    · simp

def dataText (d : Data) : Datar := ⟨some (cStr d.group), some (cStr d.role), some (cStr d.cap)⟩

theorem translateStd_eq : ∀ std : List Data, translateStd std = .ok (std.map dataText)
  | [] => rfl
  | d :: std => by
    simp only [translateStd, mystrdup_text, translateStd_eq std, Res.ok_bind, Res.pure_eq,
      List.map_cons, dataText]

theorem copyFqan_eq : ∀ fqan : List Str,
    copyFqan (fqan.map cStr) = .ok (some (fqan.map cStr))
  | [] => rfl
  | f :: fqan => by
    simp only [List.map_cons, copyFqan, mystrdup_text, copyFqan_eq fqan, Res.ok_bind, Res.pure_eq,
      cStr_cStr, Option.bind_some, Option.map_some]

theorem copyStd_eq : ∀ std : List Data,
    copyStd (std.map dataText) = .ok (some (std.map dataText))
  | [] => rfl
  | d :: std => by
    rw [List.map_cons, copyStd]
    simp only [dataText, mystrdup_text, Res.ok_bind, cStr_cStr, reduceCtorEq, or_self, if_false]
    rw [copyStd_eq std]
    rfl

/-! ## Copies -/

/-- What a translated record has in it. -/
def translated {Vd : Type} (v : VomsRecord) (ac : Option Ac) (holder : Option X509)
    (mydata : Int32) (my2 : Option Vd) : Vomsr Vd where
  siglen := v.siglen
  signature := some v.signature
  user := some (cStr v.user)
  userca := some (cStr v.userca)
  server := some (cStr v.server)
  serverca := some (cStr v.serverca)
  voname := some (cStr v.voname)
  uri := some (cStr v.uri)
  date1 := some (cStr v.date1)
  date2 := some (cStr v.date2)
  stdType := v.stdType
  std := some (v.std.map dataText)
  custom := some []
  datalen := 0
  version := v.version
  fqan := some (v.fqan.map cStr)
  serial := some (cStr v.serial)
  ac := ac
  holder := holder
  mydata := mydata
  my2 := my2

section

variable {W : World} {x509Dup : X509 → Option X509} {Vd : Type} {v : VomsRecord}

theorem translate_eq : translate W x509Dup v =
    .ok (if (v.holder.bind x509Dup = none ∧ v.holder ≠ none) ∨ v.ac.bind W.acDup = none then none
      else some (translated v (v.ac.bind W.acDup) (v.holder.bind x509Dup) 0 (none : Option Vd))) := by
  unfold translate
  simp only [mystrdup_text, mystrdup_data, Res.ok_bind]
  split
  · rfl
  · rw [translateStd_eq]
    rfl

/-- Where the bytes of the signature are counted right the copy can only fail
for its certificates. -/
theorem vomsCopy_translated (hlen : v.siglen = v.signature.length) (ac : Option Ac)
    (holder : Option X509) (mydata : Int32) (my2 : Option Vd) :
    vomsCopy W x509Dup (some (translated v ac holder mydata my2)) =
      .ok (if holder.bind x509Dup = none ∨ ac.bind W.acDup = none then none
        else some (translated v (ac.bind W.acDup) (holder.bind x509Dup) mydata my2), .VERR_MEM) := by
  have hsignature : mystrdup (translated v ac holder mydata my2).signature
      (translated v ac holder mydata my2).siglen = .ok (some v.signature) := by
    show mystrdup (some v.signature) v.siglen = _
    rw [hlen, mystrdup_data]
  unfold vomsCopy
  dsimp only
  rw [hsignature]
  simp only [translated, mystrdup_text, cStr_cStr, Res.ok_bind, Res.deref_some, copyFqan_eq,
    copyStd_eq]
  split
  · rfl
  · rfl

/-- With memory available, what a copy has been made of can be copied again,
and comes out as it is. -/
structure Copies (W : World) (x509Dup : X509 → Option X509) : Prop where
  ac : ∀ {a b : Ac}, W.acDup a = some b → W.acDup b = some b
  x509 : ∀ {a b : X509}, x509Dup a = some b → x509Dup b = some b

/-- A record that was translated is copied if it has a holder. -/
theorem vomsCopy_iff (hdup : Copies W x509Dup) (hlen : v.siglen = v.signature.length)
    {r : Vomsr Vd} (h : translate W x509Dup v = .ok (some r)) (mydata : Int32) (my2 : Option Vd) :
    (∃ e, vomsCopy W x509Dup (some { r with mydata, my2 }) =
      .ok (some { r with mydata, my2 }, e)) ↔ r.holder ≠ none := by
  rw [translate_eq] at h
  split at h
  · cases h
  · next hmade =>
    obtain rfl := Option.some.inj (Res.ok.inj h)
    obtain ⟨ac, hac⟩ := Option.ne_none_iff_exists'.mp (not_or.mp hmade).2
    have hagain : W.acDup ac = some ac := by
      obtain ⟨a, -, ha⟩ := Option.bind_eq_some_iff.mp hac
      exact hdup.ac ha
    show (∃ e, vomsCopy W x509Dup (some (translated v (v.ac.bind W.acDup)
      (v.holder.bind x509Dup) mydata my2)) = .ok (some (translated v (v.ac.bind W.acDup)
        (v.holder.bind x509Dup) mydata my2), e)) ↔ v.holder.bind x509Dup ≠ none
    rw [vomsCopy_translated hlen, hac, Option.bind_some, hagain]
    cases hholder : v.holder.bind x509Dup with
    | none => simp
    | some x =>
      have hagain : x509Dup x = some x := by
        obtain ⟨a, -, ha⟩ := Option.bind_eq_some_iff.mp hholder
        exact hdup.x509 ha
      simp [hagain]

theorem translateVOMS_mem {vd : Vd} {r : Vomsr Vd} : ∀ {i : Nat} {l : List VomsRecord}
    {rs : List (Vomsr Vd)}, translateVOMS W x509Dup vd i l = .ok rs → r ∈ rs →
      ∃ v ∈ l, ∃ dst : Vomsr Vd, ∃ mydata, translate W x509Dup v = .ok (some dst) ∧
        r = { dst with mydata, my2 := some vd }
  | i, [], rs, h, hr => by
    cases h
    cases hr
  | i, v :: l, rs, h, hr => by
    unfold translateVOMS at h
    obtain ⟨dst, hdst, h⟩ := Res.bind_eq_ok.mp h
    obtain ⟨r', hr', h⟩ := Res.bind_eq_ok.mp h
    obtain ⟨rest, hrest, h⟩ := Res.bind_eq_ok.mp h
    obtain rfl := Res.ok.inj h
    cases dst with
    | none => cases hr'
    | some dst =>
      obtain rfl := Res.ok.inj hr'
      rcases List.mem_cons.mp hr with rfl | hr
      · exact ⟨v, List.mem_cons_self .., dst, _, hdst, rfl⟩
      · obtain ⟨w, hw, hmade⟩ := translateVOMS_mem hrest hr
        exact ⟨w, List.mem_cons_of_mem v hw, hmade⟩

end

/-! ## Where the records come from -/

section

variable {C : Client} {P : VomsRecord → Prop} {s s' : VomsData}

/-- The records that are added have the property. -/
def Gains (P : VomsRecord → Prop) (s s' : VomsData) : Prop :=
  ∃ new, s'.data = s.data ++ new ∧ ∀ v ∈ new, P v

theorem Gains.of_eq (h : s'.data = s.data) : Gains P s s' :=
  ⟨[], h.trans (List.append_nil _).symm, fun _ hv => absurd hv List.not_mem_nil⟩

theorem Gains.all (h : Gains P s s') (hs : ∀ v ∈ s.data, P v) : ∀ v ∈ s'.data, P v := by
  obtain ⟨new, hdata, hnew⟩ := h
  intro v hv
  rw [hdata, List.mem_append] at hv
  exact hv.elim (hs v) (hnew v)

/-- A property of whatever `verifydata` fills. -/
def Filled (F : Files) (P : VomsRecord → Prop) : Prop :=
  ∀ {ac : Ac} {holder : Option X509} {s s' : VomsData} {v : VomsRecord},
    verifydata F ac holder s = .ok (some v, s') → P v

theorem Accepted.mem {α β : Type} {accepts : α → β → Prop} {l : List α} {bs : List β}
    (h : Accepted accepts l bs) {b : β} (hb : b ∈ bs) : ∃ a, accepts a b := by
  induction h with
  | nil => cases hb
  | refused => cases hb
  | accepted haccepts _ ih =>
    rcases List.mem_cons.mp hb with rfl | hb
    · exact ⟨_, haccepts⟩
    · exact ih hb

theorem Appends.gains {F : Files} {t : VomsData} {items : List (Option X509 × Ac)}
    (h : Appends F t items s') (hdata : t.data = s.data) (hP : Filled F P) : Gains P s s' := by
  obtain ⟨new, hnew, hs⟩ := h.records
  refine ⟨new, hdata ▸ hs, fun v hv => ?_⟩
  obtain ⟨item, t', hver⟩ := Accepted.mem hnew hv
  exact hP hver

theorem noteErrors_data : ∀ (errs : List Errorp) (result : Bool) (s : VomsData),
    (noteErrors errs result s).2.data = s.data
  | [], _, _ => rfl
  | e :: errs, result, s => by
    unfold noteErrors
    refine (noteErrors_data errs _ _).trans ?_
    split <;> rfl

theorem interpretOutput_data {X : Wire} {message output output' : Str} {ret : Bool}
    (h : interpretOutput X message output s = .ok (ret, output', s')) : s'.data = s.data := by
  unfold interpretOutput at h
  obtain ⟨a, -, h⟩ := Res.bind_eq_ok.mp h
  cases a with
  | none =>
    cases h
    rfl
  | some a =>
    have hnote : (noteAnswer a s).2.data = s.data := by
      unfold noteAnswer
      split
      · rfl
      · exact noteErrors_data ..
    dsimp only at h
    split at h
    · cases h
      exact hnote
    · cases h
      exact hnote

theorem contactRaw_data {X : Wire} {net : Network} {i : Nat} {raw raw' : Str} {ret : Bool}
    (h : contactRaw X net i raw s = .ok (ret, raw', s')) : s'.data = s.data := by
  have hrest {b : Bool} {r : Str} {t : VomsData}
      (h : contactRESTRaw X (net.rest i) raw s = .ok (b, r, t)) : t.data = s.data := by
    unfold contactRESTRaw at h
    cases hreply : net.rest i with
    | failed err message =>
      rw [hreply] at h
      cases h
      rfl
    | received output =>
      rw [hreply] at h
      dsimp only at h
      split at h
      · cases h
        rfl
      · obtain ⟨⟨b, r, t⟩, hint, h⟩ := Res.bind_eq_ok.mp h
        cases h
        exact interpretOutput_data hint
  unfold contactRaw at h
  obtain ⟨⟨b, r, t⟩, hfirst, h⟩ := Res.bind_eq_ok.mp h
  have ht := hrest hfirst
  cases b with
  | true =>
    cases h
    exact ht
  | false =>
    dsimp only at h
    split at h
    · cases h
      exact ht
    · exact (interpretOutput_data h).trans ht

theorem verifymessage_gains (hP : Filled C.toFiles P) {message rest : Str}
    {holder : Option X509} {ret : Bool}
    (h : verifymessage C message holder s = .ok (ret, rest, s')) : Gains P s s' := by
  have hread := verifymessage_appends h
  cases hac : C.d2iAcAt message with
  | none =>
    rw [hac] at hread
    exact .of_eq hread.2
  | some p =>
    rw [hac] at hread
    obtain ⟨-, s1, -, hdata, ⟨-, hver⟩ | ⟨-, w, t, hver, rfl⟩⟩ := hread
    · exact .of_eq ((verifydata_data hver).trans hdata)
    · refine ⟨[w], ?_, fun v hv => ?_⟩
      · rw [← hdata, ← verifydata_data hver]
      · obtain rfl := List.mem_singleton.mp hv
        exact hP hver

theorem contactLoop_gains (hP : Filled C.toFiles P) {net : Network} {attempts : Nat} {ret : Bool} :
    ∀ {turns : Nat} {message : Str} {s : VomsData},
      contactLoop C net attempts turns message s = .ok (ret, s') → Gains P s s'
  | 0, _, _, h => by
    cases h
    exact .of_eq rfl
  | turns + 1, message, s, h => by
    unfold contactLoop at h
    obtain ⟨⟨b, r, t⟩, hraw, h⟩ := Res.bind_eq_ok.mp h
    have hdata := contactRaw_data hraw
    have hafter {t' : VomsData} (h : Gains P t t') : Gains P s t' := by
      obtain ⟨new, hnew, hall⟩ := h
      exact ⟨new, hdata ▸ hnew, hall⟩
    cases b with
    | false => exact hafter (contactLoop_gains hP h)
    | true =>
      dsimp only at h
      split at h
      · cases h
        exact .of_eq hdata
      · obtain ⟨⟨b, r', t'⟩, hver, h⟩ := Res.bind_eq_ok.mp h
        cases h
        obtain ⟨new, hnew, hall⟩ := verifymessage_gains hP hver
        exact hafter ⟨new, hnew, hall⟩

/-- What one call adds. -/
theorem callStep_gains (hP : Filled C.toFiles P) {c : Call} (h : callStep C s c s') :
    Gains P s s' := by
  obtain ⟨ret, h⟩ := h
  cases c with
  | setVerificationType t =>
    cases h
    exact .of_eq rfl
  | retrieveCert cert chain how =>
    obtain ⟨found, s1, -, happends⟩ := retrieveCert_appends h
    exact happends.gains rfl hP
  | retrieveExt acs => exact (retrieveExt_appends h).gains rfl hP
  | retrieveAc ac =>
    unfold Call.run retrieveAc at h
    cases ac with
    | none =>
      cases h
      exact .of_eq rfl
    | some ac =>
      obtain ⟨⟨v, t⟩, hver, h⟩ := Res.bind_eq_ok.mp h
      have hdata := verifydata_data hver
      cases v with
      | none =>
        cases h
        exact .of_eq hdata
      | some v =>
        cases h
        refine ⟨[v], congrArg (· ++ [v]) hdata, fun w hw => ?_⟩
        obtain rfl := List.mem_singleton.mp hw
        exact hP hver
  | importBuffer buffer =>
    obtain ⟨decoded, -, happends⟩ := importBuffer_appends h
    exact happends.gains rfl hP
  | contact net => exact contactLoop_gains hP h

/-- What holds of every record that is filled holds of every record that is
in the object after any calls. -/
theorem run_records (hP : Filled C.toFiles P) {dir : Str} {calls : List Call}
    (h : Run (callStep C) (.new dir) calls s) : ∀ v ∈ s.data, P v :=
  h.invariant (P := fun _ => True) (I := fun s => ∀ v ∈ s.data, P v)
    (fun _ _ _ _ hs hstep => (callStep_gains hP hstep).all hs) (fun _ _ => trivial)
    fun _ hv => absurd hv List.not_mem_nil

/-! ## The signature -/

/-- `siglen` counts the bytes of the signature. -/
def Counted (v : VomsRecord) : Prop := v.siglen = v.signature.length

theorem checkValues_counted : ∀ {l : List AcIetfAttrVal} {v v' : VomsRecord},
    checkValues v l = .ok v' → Counted v → Counted v'
  | [], v, v', h, hv => by
    cases h
    exact hv
  | .octets str :: l, v, v', h, hv => checkValues_counted (l := l) h hv
  | .utf8 _ :: _, _, _, h, _ => by cases h
  | .object _ :: _, _, _, h, _ => by cases h

theorem checkAttributes_counted {atts : List AcAttr} {v v' : VomsRecord}
    (h : checkAttributes atts v = .ok v') (hv : Counted v) : Counted v' := by
  unfold checkAttributes at h
  obtain ⟨caps, -, h⟩ := Res.bind_eq_ok.mp h
  obtain ⟨-, h⟩ := Res.then_eq_ok.mp h
  obtain ⟨capattr, -, h⟩ := Res.bind_eq_ok.mp h
  unfold readCapattr at h
  obtain ⟨-, h⟩ := Res.then_eq_ok.mp h
  obtain ⟨data, -, h⟩ := Res.bind_eq_ok.mp h
  obtain ⟨-, h⟩ := Res.then_eq_ok.mp h
  obtain ⟨text, -, h⟩ := Res.bind_eq_ok.mp h
  obtain ⟨point, -, h⟩ := Res.bind_eq_ok.mp h
  obtain ⟨v1, hv1, h⟩ := Res.bind_eq_ok.mp h
  cases h
  have hkept : Counted v1 := checkValues_counted hv1 hv
  exact hkept

theorem fillUser_counted {valids : VerifyType} {cert : Option X509} {v v' : VomsRecord}
    (h : fillUser valids cert v = .ok v') (hv : Counted v) : Counted v' := by
  unfold fillUser at h
  cases cert with
  | some c =>
    cases h
    exact hv
  | none =>
    obtain ⟨-, h⟩ := Res.then_eq_ok.mp h
    cases h
    exact hv

theorem fillServer_counted {issuer : Option X509} {ac : Ac} {v v' : VomsRecord}
    (h : fillServer issuer ac v = .ok v') (hv : Counted v) : Counted v' := by
  unfold fillServer at h
  cases issuer with
  | some i =>
    cases h
    exact hv
  | none =>
    obtain ⟨info, -, h⟩ := Res.bind_eq_ok.mp h
    obtain ⟨form, -, h⟩ := Res.bind_eq_ok.mp h
    obtain ⟨name, -, h⟩ := Res.bind_eq_ok.mp h
    obtain ⟨dn, -, h⟩ := Res.bind_eq_ok.mp h
    cases h
    exact hv

theorem validate_counted {W : World} {cert issuer : Option X509} {ac : Ac} {v v' : VomsRecord}
    {valids : VerifyType} {vertime : Int} (h : validate W cert issuer ac v valids vertime = .ok v') :
    Counted v' := by
  have h := (validate_eq_ok.mp h).2.2
  unfold validateRest at h
  obtain ⟨v1, hv1, h⟩ := Res.bind_eq_ok.mp h
  have hcounted : Counted v1 := by
    unfold fillSignature at hv1
    obtain ⟨sig, -, hv1⟩ := Res.bind_eq_ok.mp hv1
    obtain ⟨info, -, hv1⟩ := Res.bind_eq_ok.mp hv1
    obtain ⟨serial, -, hv1⟩ := Res.bind_eq_ok.mp hv1
    cases hv1
    rfl
  obtain ⟨v2, hv2, h⟩ := Res.bind_eq_ok.mp h
  obtain ⟨v3, hv3, h⟩ := Res.bind_eq_ok.mp h
  have hfilled := fillServer_counted hv3 (fillUser_counted hv2 hcounted)
  obtain ⟨info, -, h⟩ := Res.bind_eq_ok.mp h
  obtain ⟨-, h⟩ := Res.then_eq_ok.mp h
  obtain ⟨validity, -, h⟩ := Res.bind_eq_ok.mp h
  obtain ⟨b, -, h⟩ := Res.bind_eq_ok.mp h
  obtain ⟨a, -, h⟩ := Res.bind_eq_ok.mp h
  obtain ⟨-, h⟩ := Res.then_eq_ok.mp h
  obtain ⟨-, h⟩ := Res.then_eq_ok.mp h
  obtain ⟨attributes, -, h⟩ := Res.bind_eq_ok.mp h
  obtain ⟨v4, hv4, h⟩ := Res.bind_eq_ok.mp h
  cases h
  cases hatts : info.attrib with
  | none =>
    rw [hatts] at hv4
    cases hv4
    exact hfilled
  | some atts =>
    rw [hatts] at hv4
    have hkept : Counted v4 := checkAttributes_counted hv4 hfilled
    exact hkept

theorem filled_counted {F : Files} : Filled F Counted := by
  intro ac holder s s' v h
  obtain ⟨-, issuer, -, v0, hv0, -, rfl⟩ := verifydata_some.mp ⟨s', h⟩
  have hkept : Counted v0 := validate_counted hv0
  exact hkept

/-- **The records with a holder are copied in full, and no others.** -/
theorem vomsCopy_exact {Vd : Type} (C : Client) (x509Dup : X509 → Option X509)
    (hdup : Copies C.toWorld x509Dup) (dir : Str) (calls : List Call) (s : VomsData)
    (hrun : Run (callStep C) (.new dir) calls s) (vd : Vd) (rs : List (Vomsr Vd))
    (h : translateVOMS C.toWorld x509Dup vd 0 s.data = .ok rs) :
    ∀ r ∈ rs, (∃ e, vomsCopy C.toWorld x509Dup (some r) = .ok (some r, e)) ↔ r.holder ≠ none := by
  intro r hr
  obtain ⟨v, hv, dst, mydata, hdst, rfl⟩ := translateVOMS_mem h hr
  exact vomsCopy_iff hdup (run_records filled_counted hrun v hv) hdst mydata (some vd)

end

/-! ### A certificate and an extension -/

namespace Sample

export Voms.L2.Sample (user)

theorem copies : Copies applications.toWorld some := ⟨fun _ => rfl, fun _ => rfl⟩

end Sample

/-- `vomsCopy_exact` for the record of a certificate. -/
theorem vomsCopy_exact_retrieved : ∃ (s : VomsData) (r : Vomsr Unit),
    runCalls Sample.applications [.retrieveCert (some Sample.user) none .RECURSE_NONE]
      Sample.client = .ok s ∧
    translateVOMS Sample.applications.toWorld some () 0 s.data = .ok [r] ∧
    ∃ e, vomsCopy Sample.applications.toWorld some (some r) = .ok (some r, e) := by
  obtain ⟨s, r, hs, hr, hholder⟩ : ∃ (s : VomsData) (r : Vomsr Unit),
      runCalls Sample.applications [.retrieveCert (some Sample.user) none .RECURSE_NONE]
        Sample.client = .ok s ∧
      translateVOMS Sample.applications.toWorld some () 0 s.data = .ok [r] ∧ r.holder ≠ none :=
    ⟨_, _, rfl, rfl, Option.some_ne_none Sample.user⟩
  exact ⟨s, r, hs, hr, (vomsCopy_exact Sample.applications some Sample.copies _ _ s
    (run_of_runCalls hs) () [r] hr r (List.mem_singleton.mpr rfl)).mpr hholder⟩

/-- The record of an extension has no holder, and is not copied. -/
theorem vomsCopy_needs_holder : ∃ (s : VomsData) (r : Vomsr Unit),
    runCalls Sample.applications [.retrieveExt (some [d2iAc Sample.ac])] Sample.client = .ok s ∧
    translateVOMS Sample.applications.toWorld some () 0 s.data = .ok [r] ∧
    vomsCopy Sample.applications.toWorld some (some r) = .ok (none, .VERR_MEM) :=
  ⟨_, _, rfl, rfl, rfl⟩

end Voms.L4
