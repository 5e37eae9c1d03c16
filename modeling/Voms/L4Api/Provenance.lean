import Voms.L4Api.CopyRecords

/-!
# Where the records of an object come from

`Retrieve` of a certificate, `Import` and `Contact` verify each AC for a
holder and leave the settings of the object as they are
(`run_grows`): whatever certificates, buffers and servers it is used on,
the object then holds the records it held and, behind them, records that
`verifydata` filled for some AC and some holder with those settings.
-/
namespace Voms.L4

open Voms.Core Voms.L1 Voms.L2 Voms.L3

/-- A call that verifies with the policy of the object, for a holder. -/
def Call.Holds : Call → Prop
  | .retrieveCert _ _ _ | .importBuffer _ | .contact _ => True
  | .setVerificationType _ | .retrieveExt _ | .retrieveAc _ => False

/-- Records are added that were filled with the settings of the object. -/
structure Grows (F : Files) (s s' : VomsData) : Prop where
  settings : Settings s s'
  records : ∃ new, s'.data = s.data ++ new ∧
    ∀ w ∈ new, ∃ holder ac, Accepts F s (some holder, ac) w

section

variable {C : Client} {F : Files} {s s' t : VomsData}

theorem Grows.refl (F : Files) (s : VomsData) : Grows F s s :=
  ⟨Settings.refl s, [], by simp⟩

theorem Grows.of_data (hset : Settings s s') (hdata : s'.data = s.data) : Grows F s s' :=
  ⟨hset, [], by simp [hdata]⟩

theorem Grows.trans (h : Grows F s t) (h' : Grows F t s') : Grows F s s' := by
  obtain ⟨new, hdata, hnew⟩ := h.records
  obtain ⟨new', hdata', hnew'⟩ := h'.records
  refine ⟨h.settings.trans h'.settings, new ++ new', by simp [hdata', hdata], fun w hw => ?_⟩
  rcases List.mem_append.mp hw with hw | hw
  · exact hnew w hw
  · obtain ⟨holder, ac, hacc⟩ := hnew' w hw
    exact ⟨holder, ac, (h.settings.accepts_iff _ w).mpr hacc⟩

theorem from_item {α β : Type} {accepts : α → β → Prop} {l : List α} {bs : List β}
    (h : Accepted accepts l bs) {b : β} (hb : b ∈ bs) : ∃ a ∈ l, accepts a b := by
  induction h with
  | nil => cases hb
  | refused => cases hb
  | @accepted a l' b' bs' haccepts _ ih =>
    rcases List.mem_cons.mp hb with rfl | hb
    · exact ⟨a, by simp, haccepts⟩
    · obtain ⟨a', ha', hacc⟩ := ih hb
      exact ⟨a', by simp [ha'], hacc⟩

/-- What is appended for a list of holders and ACs. -/
theorem Appends.grows {items : List (Option X509 × Ac)} (h : Appends F s items s')
    (hset : Settings s s') (hholders : ∀ item ∈ items, item.1 ≠ none) : Grows F s s' := by
  obtain ⟨new, haccepted, hdata⟩ := h.records
  refine ⟨hset, new, hdata, fun w hw => ?_⟩
  obtain ⟨⟨holder, ac⟩, hitem, hacc⟩ := from_item haccepted hw
  obtain ⟨x, rfl⟩ := Option.ne_none_iff_exists'.mp (hholders _ hitem)
  exact ⟨x, ac, hacc⟩

/-- Each AC in a buffer comes behind its holder. -/
theorem bufferAcs_holder {buffer : Str} {item : Option X509 × Ac}
    (h : item ∈ bufferAcs C buffer) : item.1 ≠ none := by
  induction buffer using bufferAcs.induct C with
  | case1 buffer hholder =>
    unfold bufferAcs at h
    rw [hholder] at h
    cases h
  | case2 buffer holder remains hholder hac =>
    unfold bufferAcs at h
    simp only [hholder, hac] at h
    cases h
  | case3 buffer holder remains hholder ac remains' hac ih =>
    unfold bufferAcs at h
    simp only [hholder, hac] at h
    rcases List.mem_cons.mp h with rfl | h
    · exact Option.some_ne_none _
    · exact ih h

/-! ## The settings stay -/

theorem evaluateLoop_settings {holder : Option X509} {ret : Bool} :
    ∀ {acs : List Ac} {ok : Bool} {s : VomsData},
      evaluateLoop F holder ok acs s = .ok (ret, s') → Settings s s'
  | [], ok, s, h => by
    cases h
    exact .refl _
  | ac :: acs, _, s, h => by
    unfold evaluateLoop at h
    obtain ⟨⟨v, t⟩, hver, h⟩ := Res.bind_eq_ok.mp h
    have ht := verifydata_settings hver
    cases v with
    | none =>
      cases h
      exact ht
    | some v =>
      have hrest := evaluateLoop_settings h
      exact ht.trans ⟨hrest.vomsCertDir, hrest.verType, hrest.verificationtime⟩

theorem retrieveCert_settings {cert : Option X509} {chain : Option (List X509)}
    {how : RecurseType} {ret : Bool} (h : retrieveCert C cert chain how s = .ok (ret, s')) :
    Settings s s' := by
  unfold retrieveCert at h
  obtain ⟨⟨found, t⟩, hret, h⟩ := Res.bind_eq_ok.mp h
  have ht := (retrieve_frame hret).settings
  cases found with
  | none =>
    cases h
    exact ht
  | some p =>
    refine ht.trans ?_
    unfold evaluate at h
    dsimp only at h
    split at h
    · have hloop := evaluateLoop_settings h
      exact ⟨hloop.vomsCertDir, hloop.verType, hloop.verificationtime⟩
    · cases h
      exact ⟨rfl, rfl, rfl⟩

theorem verifymessage_settings {message rest : Str} {holder : Option X509} {r : Bool}
    (h : verifymessage C message holder s = .ok (r, rest, t)) : Settings s t := by
  unfold verifymessage at h
  split at h
  · cases h
    exact ⟨rfl, rfl, rfl⟩
  · cases hac : C.d2iAcAt message with
    | none =>
      rw [hac] at h
      cases h
      exact ⟨rfl, rfl, rfl⟩
    | some p =>
      rw [hac] at h
      obtain ⟨⟨v, t1⟩, hver, h⟩ := Res.bind_eq_ok.mp h
      have ht := verifydata_settings hver
      cases v with
      | none =>
        cases h
        exact ⟨ht.vomsCertDir, ht.verType, ht.verificationtime⟩
      | some w =>
        cases h
        exact ⟨ht.vomsCertDir, ht.verType, ht.verificationtime⟩

theorem importLoop_settings {ret : Bool} : ∀ {turns : Nat} {buffer : Str} {s : VomsData},
    importLoop C turns buffer s = .ok (ret, s') → Settings s s'
  | 0, _, _, h => by cases h
  | turns + 1, buffer, s, h => by
    unfold importLoop at h
    cases hholder : C.d2iX509At buffer with
    | none =>
      rw [hholder] at h
      cases h
      exact ⟨rfl, rfl, rfl⟩
    | some p =>
      rw [hholder] at h
      obtain ⟨⟨r, rest, t⟩, hmessage, h⟩ := Res.bind_eq_ok.mp h
      have ht := verifymessage_settings hmessage
      cases r with
      | false =>
        cases h
        exact ht
      | true =>
        dsimp only at h
        split at h
        · cases h
          exact ht
        · exact ht.trans (importLoop_settings h)

theorem importBuffer_settings {buffer : Str} {ret : Bool}
    (h : importBuffer C buffer s = .ok (ret, s')) : Settings s s' := by
  unfold importBuffer at h
  obtain ⟨decoded, -, h⟩ := Res.bind_eq_ok.mp h
  split at h
  · cases h
    exact ⟨rfl, rfl, rfl⟩
  · exact importLoop_settings h

theorem noteErrors_settings : ∀ (errs : List Errorp) (result : Bool) (s : VomsData),
    Settings s (noteErrors errs result s).2
  | [], _, s => .refl s
  | e :: errs, result, s => by
    unfold noteErrors
    refine Settings.trans ?_ (noteErrors_settings errs _ _)
    split <;> exact ⟨rfl, rfl, rfl⟩

theorem noteAnswer_settings (a : Answer) (s : VomsData) : Settings s (noteAnswer a s).2 := by
  unfold noteAnswer
  split
  · exact .refl s
  · exact noteErrors_settings a.errs true s

theorem interpretOutput_settings {X : Wire} {message output output' : Str} {ret : Bool}
    (h : interpretOutput X message output s = .ok (ret, output', s')) : Settings s s' := by
  unfold interpretOutput at h
  obtain ⟨a, -, h⟩ := Res.bind_eq_ok.mp h
  cases a with
  | none =>
    cases h
    exact ⟨rfl, rfl, rfl⟩
  | some a =>
    have hnote := noteAnswer_settings a s
    dsimp only at h
    split at h
    · cases h
      exact hnote.trans ⟨rfl, rfl, rfl⟩
    · cases h
      exact hnote

theorem contactRESTRaw_settings {X : Wire} {reply : Reply} {raw raw' : Str} {ret : Bool}
    (h : contactRESTRaw X reply raw s = .ok (ret, raw', s')) : Settings s s' := by
  unfold contactRESTRaw at h
  cases reply with
  | failed err message =>
    cases h
    exact ⟨rfl, rfl, rfl⟩
  | received output =>
    dsimp only at h
    split at h
    · cases h
      exact .refl s
    · obtain ⟨⟨b, r, t⟩, hint, h⟩ := Res.bind_eq_ok.mp h
      cases h
      exact interpretOutput_settings hint

theorem contactRaw_settings {X : Wire} {net : Network} {i : Nat} {raw raw' : Str} {ret : Bool}
    (h : contactRaw X net i raw s = .ok (ret, raw', s')) : Settings s s' := by
  unfold contactRaw at h
  obtain ⟨⟨b, r, t⟩, hrest, h⟩ := Res.bind_eq_ok.mp h
  have ht := contactRESTRaw_settings hrest
  cases b with
  | true =>
    cases h
    exact ht
  | false =>
    dsimp only at h
    split at h
    · cases h
      exact ht.trans ⟨rfl, rfl, rfl⟩
    · exact ht.trans (interpretOutput_settings h)

/-! ## Calls -/

theorem contactLoop_grows {net : Network} {attempts : Nat} {ret : Bool} :
    ∀ {turns : Nat} {message : Str} {s : VomsData},
      contactLoop C net attempts turns message s = .ok (ret, s') → Grows C.toFiles s s'
  | 0, _, _, h => by
    cases h
    exact .refl ..
  | turns + 1, message, s, h => by
    unfold contactLoop at h
    obtain ⟨⟨b, r, t⟩, hraw, h⟩ := Res.bind_eq_ok.mp h
    have ht : Grows C.toFiles s t := .of_data (contactRaw_settings hraw) (contactRaw_data hraw)
    cases b with
    | false => exact ht.trans (contactLoop_grows h)
    | true =>
      dsimp only at h
      split at h
      · cases h
        exact ht.trans (.of_data ⟨rfl, rfl, rfl⟩ rfl)
      · next holder hown =>
        obtain ⟨⟨b, rest, t'⟩, hmessage, h⟩ := Res.bind_eq_ok.mp h
        cases h
        have hstart : Grows C.toFiles t { t with error := .VERR_NONE } :=
          .of_data ⟨rfl, rfl, rfl⟩ rfl
        refine ht.trans (hstart.trans ?_)
        have hread := verifymessage_appends hmessage
        cases hac : C.d2iAcAt r with
        | none =>
          rw [hac] at hread
          exact .of_data (verifymessage_settings hmessage) hread.2
        | some p =>
          rw [hac] at hread
          obtain ⟨-, s1, hset, hdata, ⟨-, hver⟩ | ⟨-, w, t1, hver, rfl⟩⟩ := hread
          · exact .of_data (verifymessage_settings hmessage) ((verifydata_data hver).trans hdata)
          · refine ⟨verifymessage_settings hmessage, [w], ?_, fun v hv => ?_⟩
            · rw [← hdata, ← verifydata_data hver]
            · rw [List.mem_singleton.mp hv]
              exact ⟨holder, p.1, (hset.accepts_iff (some holder, p.1) w).mpr ⟨t1, hver⟩⟩

theorem callStep_grows {c : Call} (hc : c.Holds) (h : callStep C s c s') :
    Grows C.toFiles s s' := by
  obtain ⟨ret, h⟩ := h
  cases c with
  | setVerificationType | retrieveExt | retrieveAc => cases hc
  | retrieveCert cert chain how =>
    have hset := retrieveCert_settings h
    obtain ⟨found, s1, -, happends⟩ := retrieveCert_appends h
    refine happends.grows hset fun item hitem => ?_
    cases found with
    | none => cases hitem
    | some p =>
      obtain ⟨ac, -, rfl⟩ := List.mem_map.mp hitem
      exact Option.some_ne_none _
  | importBuffer buffer =>
    have hset := importBuffer_settings h
    obtain ⟨decoded, -, happends⟩ := importBuffer_appends h
    exact happends.grows hset fun item hitem => bufferAcs_holder hitem
  | contact net => exact contactLoop_grows h

/-- **Over any calls the object only grows.** -/
theorem run_grows {calls : List Call} (h : Run (callStep C) s calls s')
    (hcalls : ∀ c ∈ calls, c.Holds) : Grows C.toFiles s s' := by
  have hkeeps : Run.Keeps (callStep C) Call.Holds fun t => Grows C.toFiles s t :=
    fun _ _ _ hc ht hstep => ht.trans (callStep_grows hc hstep)
  exact Run.invariant hkeeps h hcalls (.refl _ s)

end

end Voms.L4
