import Voms.L4Api.Records

/-!
# What a call that fails leaves

`Retrieve` and `Import` verify one AC after the other and append the record
of each at once. A call that meets an AC it refuses returns false and keeps
what it appended: `partial_data` tells for each of the calls that its new
records are those of the ACs before the first that is not accepted, in the
order of the input, and that the data is unchanged exactly if there is none.
-/
namespace Voms.Core

/-- The results for the items before the first that is refused. -/
inductive Accepted {α β : Type} (accepts : α → β → Prop) : List α → List β → Prop where
  | nil : Accepted accepts [] []
  | refused {a : α} {l : List α} (h : ∀ b, ¬ accepts a b) : Accepted accepts (a :: l) []
  | accepted {a : α} {b : β} {l : List α} {bs : List β} (h : accepts a b)
      (t : Accepted accepts l bs) : Accepted accepts (a :: l) (b :: bs)

namespace Accepted

variable {α β : Type} {accepts : α → β → Prop} {l : List α} {bs : List β}

/-- The items that are accepted are a prefix, and what follows them is refused. -/
theorem split (h : Accepted accepts l bs) : ∃ l1 l2, l = l1 ++ l2 ∧ List.Forall₂ accepts l1 bs ∧
    ∀ a ∈ l2.head?, ∀ b, ¬ accepts a b := by
  induction h with
  | nil => exact ⟨[], [], rfl, .nil, nofun⟩
  | @refused a l hrefused =>
    refine ⟨[], a :: l, rfl, .nil, fun a' ha => ?_⟩
    obtain rfl := Option.some.inj ha
    exact hrefused
  | @accepted a b l bs haccepts _ ih =>
    obtain ⟨l1, l2, rfl, hall, hrefused⟩ := ih
    exact ⟨a :: l1, l2, rfl, .cons haccepts hall, hrefused⟩

theorem eq_nil_iff (h : Accepted accepts l bs) :
    bs = [] ↔ ∀ a ∈ l.head?, ∀ b, ¬ accepts a b := by
  cases h with
  | nil => exact iff_of_true rfl nofun
  | @refused a l hrefused =>
    refine iff_of_true rfl fun a' ha => ?_
    obtain rfl := Option.some.inj ha
    exact hrefused
  | @accepted a b l bs haccepts _ =>
    exact iff_of_false (List.cons_ne_nil b bs) fun hall => hall a rfl b haccepts

theorem congr {accepts' : α → β → Prop} (heq : ∀ a b, accepts a b ↔ accepts' a b)
    (h : Accepted accepts l bs) : Accepted accepts' l bs := by
  induction h with
  | nil => exact .nil
  | refused hrefused => exact .refused fun b hb => hrefused b ((heq _ b).mpr hb)
  | accepted haccepts _ ih => exact .accepted ((heq _ _).mp haccepts) ih

end Accepted

end Voms.Core

namespace Voms.L4

open Voms.Core Voms.L1 Voms.L2 Voms.L3

/-! ## Records of a list of ACs -/

/-- An AC of the input with the holder it is verified for, and its record. -/
def Accepts (F : Files) (s : VomsData) (item : Option X509 × Ac) (w : VomsRecord) : Prop :=
  ∃ s', verifydata F item.2 item.1 s = .ok (some w, s')

/-- The records of the input before the first AC that is not accepted are new
in `s'`, and nothing else. -/
structure Appends (F : Files) (s : VomsData) (items : List (Option X509 × Ac)) (s' : VomsData) :
    Prop where
  records : ∃ new, Accepted (Accepts F s) items new ∧ s'.data = s.data ++ new
  unchanged : s'.data = s.data ↔ ∀ item ∈ items.head?, ∀ w, ¬ Accepts F s item w

variable {F : Files} {C : Client} {s s' t : VomsData} {items : List (Option X509 × Ac)}
  {new : List VomsRecord}

theorem Settings.symm (h : Settings s t) : Settings t s := ⟨h.1.symm, h.2.symm, h.3.symm⟩

theorem Settings.accepts_iff (h : Settings s t) (item : Option X509 × Ac) (w : VomsRecord) :
    Accepts F s item w ↔ Accepts F t item w := ⟨h.accepts, h.symm.accepts⟩

theorem Appends.of_accepted (h : Accepted (Accepts F s) items new)
    (hdata : s'.data = s.data ++ new) : Appends F s items s' := by
  refine ⟨⟨new, h, hdata⟩, ?_⟩
  rw [hdata, List.append_right_eq_self]
  exact h.eq_nil_iff

/-- The object may have changed before, if neither its settings nor its records. -/
theorem Appends.congr (hset : Settings s t) (hdata : t.data = s.data) (h : Appends F t items s') :
    Appends F s items s' := by
  obtain ⟨⟨new, haccepted, hnew⟩, -⟩ := h
  rw [hdata] at hnew
  exact .of_accepted (haccepted.congr fun item w => (hset.accepts_iff item w).symm) hnew

theorem Appends.nil (hdata : s'.data = s.data) : Appends F s [] s' :=
  .of_accepted .nil (by rw [hdata, List.append_nil])

/-- An AC that is refused ends it. -/
theorem Appends.refused {item : Option X509 × Ac}
    (h : verifydata F item.2 item.1 s = .ok (none, s')) : Appends F s (item :: items) s' := by
  refine .of_accepted (.refused fun w hw => ?_) ?_
  · obtain ⟨s1, hw⟩ := hw
    rw [h] at hw
    cases hw
  · rw [verifydata_data h, List.append_nil]

/-- An AC that is accepted is pushed, and the rest follows. -/
theorem Appends.accepted {item : Option X509 × Ac} {w : VomsRecord}
    (h : verifydata F item.2 item.1 s = .ok (some w, t))
    (hrest : Appends F { t with data := t.data ++ [w] } items s') :
    Appends F s (item :: items) s' := by
  obtain ⟨⟨new, haccepted, hnew⟩, -⟩ := hrest
  have hset : Settings s { t with data := t.data ++ [w] } :=
    (verifydata_settings h).trans ⟨rfl, rfl, rfl⟩
  refine .of_accepted (.accepted ⟨t, h⟩
    (haccepted.congr fun item w => (hset.accepts_iff item w).symm)) ?_
  rw [hnew]
  show t.data ++ [w] ++ new = s.data ++ w :: new
  rw [verifydata_data h, List.append_assoc]
  rfl

theorem evaluateLoop_appends {holder : Option X509} {ret : Bool} :
    ∀ {acs : List Ac} {ok : Bool} {s : VomsData},
      evaluateLoop F holder ok acs s = .ok (ret, s') → Appends F s (acs.map (holder, ·)) s'
  | [], ok, s, h => by
    cases h
    exact .nil rfl
  | ac :: acs, _, s, h => by
    unfold evaluateLoop at h
    obtain ⟨⟨v, t⟩, hver, h⟩ := Res.bind_eq_ok.mp h
    cases v with
    | none =>
      cases h
      exact .refused hver
    | some v => exact .accepted hver (evaluateLoop_appends h)

theorem evaluate_appends {acs : Option (List Ac)} {holder : Option X509} {ret : Bool}
    (h : evaluate F acs holder s = .ok (ret, s')) :
    Appends F s ((acs.getD []).map (holder, ·)) s' := by
  unfold evaluate at h
  cases acs with
  | none =>
    cases h
    exact .nil rfl
  | some acs =>
    refine Appends.congr ?_ ?_ (evaluateLoop_appends h)
    · exact ⟨rfl, rfl, rfl⟩
    · rfl

/-! ## The calls -/

/-- What `retrieve` found: no ACs where it failed. -/
def foundAcs : Option (Option (List Ac) × X509) → List (Option X509 × Ac)
  | some (acs, holder) => (acs.getD []).map (some holder, ·)
  | none => []

theorem retrieveCert_appends {cert : Option X509} {chain : Option (List X509)}
    {how : RecurseType} {ret : Bool} (h : retrieveCert C cert chain how s = .ok (ret, s')) :
    ∃ found s1, retrieve C cert chain how s = .ok (found, s1) ∧
      Appends C.toFiles s (foundAcs found) s' := by
  unfold retrieveCert at h
  obtain ⟨⟨found, s1⟩, hret, h⟩ := Res.bind_eq_ok.mp h
  have hnoted := retrieve_frame hret
  refine ⟨found, s1, hret, ?_⟩
  cases found with
  | none =>
    cases h
    exact .nil hnoted.idle.data
  | some p => exact (evaluate_appends h).congr hnoted.settings hnoted.idle.data

/-- Without a holder, and without `VERIFY_ID`. -/
theorem retrieveExt_appends {acs : Option (List Ac)} {ret : Bool}
    (h : retrieveExt F acs s = .ok (ret, s')) :
    Appends F { s with verType := withoutId s.verType } ((acs.getD []).map (none, ·)) s' := by
  unfold retrieveExt at h
  obtain ⟨⟨ret', s1⟩, heval, h⟩ := Res.bind_eq_ok.mp h
  cases h
  obtain ⟨hrecords, hunchanged⟩ := evaluate_appends heval
  exact ⟨hrecords, hunchanged⟩

/-- The pairs of a certificate and an AC in a buffer, as far as it can be read. -/
def bufferAcs (C : Client) (buffer : Str) : List (Option X509 × Ac) :=
  match C.d2iX509At buffer with
  | none => []
  | some (holder, remains) =>
    match C.d2iAcAt remains.rest with
    | none => []
    | some (ac, remains') => (some holder, ac) :: bufferAcs C remains'.rest
termination_by buffer.length
decreasing_by exact Nat.lt_trans remains'.shorter remains.shorter

/-- Nothing is read from an empty buffer. -/
theorem Remains.ne_nil {buffer : Str} (r : Remains buffer) : buffer ≠ [] := by
  rintro rfl
  exact absurd r.shorter (Nat.not_lt_zero _)

theorem bufferAcs_nil : bufferAcs C [] = [] := by
  unfold bufferAcs
  cases hholder : C.d2iX509At [] with
  | none => rfl
  | some p => exact absurd rfl p.2.ne_nil

/-- What `verifymessage` does with the AC at the start of a message. -/
theorem verifymessage_appends {message rest : Str} {holder : Option X509} {r : Bool}
    (h : verifymessage C message holder s = .ok (r, rest, t)) :
    match C.d2iAcAt message with
    | none => r = false ∧ t.data = s.data
    | some (ac, remains) => rest = remains.rest ∧ ∃ s1, Settings s s1 ∧ s1.data = s.data ∧
        (r = false ∧ verifydata C.toFiles ac holder s1 = .ok (none, t) ∨
          r = true ∧ ∃ w t1, verifydata C.toFiles ac holder s1 = .ok (some w, t1) ∧
            t = { t1 with data := t1.data ++ [w] }) := by
  unfold verifymessage at h
  split at h
  · next hempty =>
    cases h
    cases hac : C.d2iAcAt message with
    | none => exact ⟨rfl, rfl⟩
    | some p => exact absurd hempty p.2.ne_nil
  · cases hac : C.d2iAcAt message with
    | none =>
      rw [hac] at h
      cases h
      exact ⟨rfl, rfl⟩
    | some p =>
      rw [hac] at h
      obtain ⟨⟨v, t1⟩, hver, h⟩ := Res.bind_eq_ok.mp h
      cases v with
      | none =>
        cases h
        exact ⟨rfl, _, ⟨rfl, rfl, rfl⟩, rfl, .inl ⟨rfl, hver⟩⟩
      | some w =>
        cases h
        exact ⟨rfl, _, ⟨rfl, rfl, rfl⟩, rfl, .inr ⟨rfl, w, t1, hver, rfl⟩⟩

theorem importLoop_appends {ret : Bool} : ∀ {turns : Nat} {buffer : Str} {s : VomsData},
    importLoop C turns buffer s = .ok (ret, s') → Appends C.toFiles s (bufferAcs C buffer) s'
  | 0, _, _, h => by cases h
  | turns + 1, buffer, s, h => by
    unfold importLoop at h
    unfold bufferAcs
    cases hholder : C.d2iX509At buffer with
    | none =>
      rw [hholder] at h
      cases h
      exact .nil rfl
    | some p =>
      obtain ⟨holder, remains⟩ := p
      rw [hholder] at h
      obtain ⟨⟨r, rest, t⟩, hmessage, h⟩ := Res.bind_eq_ok.mp h
      have hread := verifymessage_appends hmessage
      dsimp only
      cases hac : C.d2iAcAt remains.rest with
      | none =>
        rw [hac] at hread
        obtain ⟨rfl, hdata⟩ := hread
        cases h
        exact .nil hdata
      | some q =>
        obtain ⟨ac, remains'⟩ := q
        rw [hac] at hread
        obtain ⟨rfl, s1, hset, hdata, hver⟩ := hread
        refine .congr hset hdata ?_
        rcases hver with ⟨rfl, hver⟩ | ⟨rfl, w, t1, hver, rfl⟩
        · cases h
          exact .refused hver
        · refine .accepted hver ?_
          dsimp only at h
          split at h
          · next hempty =>
            cases h
            rw [hempty, bufferAcs_nil]
            exact .nil rfl
          · exact importLoop_appends h

theorem importBuffer_appends {buffer : Str} {ret : Bool}
    (h : importBuffer C buffer s = .ok (ret, s')) :
    ∃ decoded, decode C.toWire buffer = .ok decoded ∧
      Appends C.toFiles s (bufferAcs C decoded) s' := by
  unfold importBuffer at h
  obtain ⟨decoded, hdecode, h⟩ := Res.bind_eq_ok.mp h
  refine ⟨decoded, hdecode, ?_⟩
  split at h
  · next hempty =>
    cases h
    rw [hempty, bufferAcs_nil]
    exact .nil rfl
  · exact importLoop_appends h

/-- **A call that fails keeps the records of the ACs before the one that is
refused.** -/
theorem partial_data (C : Client) (s s' : VomsData) :
    (∀ (cert : Option X509) (chain : Option (List X509)) (how : RecurseType),
      retrieveCert C cert chain how s = .ok (false, s') →
        ∃ found s1, retrieve C cert chain how s = .ok (found, s1) ∧
          Appends C.toFiles s (foundAcs found) s') ∧
    (∀ acs : Option (List Ac), retrieveExt C.toFiles acs s = .ok (false, s') →
      Appends C.toFiles { s with verType := withoutId s.verType } ((acs.getD []).map (none, ·))
        s') ∧
    (∀ buffer : Str, importBuffer C buffer s = .ok (false, s') →
      ∃ decoded, decode C.toWire buffer = .ok decoded ∧
        Appends C.toFiles s (bufferAcs C decoded) s') :=
  ⟨fun _ _ _ => retrieveCert_appends, fun _ => retrieveExt_appends, fun _ => importBuffer_appends⟩

namespace Sample

/-- An extension whose second AC has expired. -/
def mixed : Option (List Ac) :=
  some [d2iAc Sample.ac,
    d2iAc { Sample.ac with
      acinfo := { Sample.ac.acinfo with notAfter := Sample.ac.acinfo.notBefore } }]

end Sample

theorem partial_data_mixed : ∃ s',
    retrieveExt Sample.applications.toFiles Sample.mixed Sample.client = .ok (false, s') ∧
    Appends Sample.applications.toFiles
      { Sample.client with verType := withoutId Sample.client.verType }
      ((Sample.mixed.getD []).map (none, ·)) s' := by
  obtain ⟨s', h⟩ : ∃ s', retrieveExt Sample.applications.toFiles Sample.mixed Sample.client =
    .ok (false, s') := ⟨_, rfl⟩
  exact ⟨s', h, (partial_data Sample.applications Sample.client s').2.1 Sample.mixed h⟩

/-- The call fails, and the record of the first AC stays. -/
theorem retrieveExt_keeps_first : ¬ ∀ (C : Client) (acs : Option (List Ac)) (s s' : VomsData),
    retrieveExt C.toFiles acs s = .ok (false, s') → s'.data = s.data := by
  intro h
  obtain ⟨s', hfails, hlength⟩ : ∃ s', retrieveExt Sample.applications.toFiles Sample.mixed
    Sample.client = .ok (false, s') ∧ s'.data.length = 1 := ⟨_, rfl, rfl⟩
  rw [h _ _ _ _ hfails] at hlength
  cases hlength

end Voms.L4
