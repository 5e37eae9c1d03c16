import Voms.L3Wire.Codec
import Voms.L4Api.Records

/-!
# `Export`

`src/api/ccapi/voms_api.cc`. `Export` writes, for every record of the
object, the holder's certificate and the AC, one encoding behind the other
without delimiters, and passes the whole through `MyEncode`; `Import` cuts
it at the ends of the encodings and verifies what it finds.

A record without a holder's certificate is refused. The `Retrieve` of a
certificate stores the holder, the `Retrieve` of an extension and that of an
AC have none to store. `export_import`: what is exported is imported, and
which `Retrieve` leaves data that can be exported.
-/
namespace Voms.L4

open Voms.Core Voms.L1 Voms.L2 Voms.L3

/-- The encoders under the client. An encoding is never empty. -/
structure Encoders where
  i2dX509 : X509 → Str
  i2dX509_ne_nil : ∀ x, i2dX509 x ≠ []
  i2dAc : Ac → Str
  i2dAc_ne_nil : ∀ ac, i2dAc ac ≠ []
  /-- `BIO_f_base64`. -/
  base64Encode : Str → Str

/-- `i2d` of a pointer; of NULL it writes nothing. -/
def i2d {α : Type} (encoder : α → Str) : Option α → Str
  | some a => encoder a
  | none => []

/-- The loop of `Export`: what it has written, unless it left. A call of
`OPENSSL_malloc` for no bytes gives NULL, every other one is taken to
succeed. mirrors src/api/ccapi/voms_api.cc:591-623 -/
def exportLoop (E : Encoders) : List VomsRecord → Str → VomsData → Option Str × VomsData
  | [], result, s => (some result, s)
  | v :: data, result, s =>
    if i2d E.i2dX509 v.holder = [] then
      (none, s.seterror .VERR_FORMAT "Malformed input data.".toList)
    else if i2d E.i2dAc v.ac = [] then (none, s.seterror .VERR_MEM "Out of memory!".toList)
    else exportLoop E data (result ++ i2d E.i2dX509 v.holder ++ i2d E.i2dAc v.ac) s

/-- Gives the flag, the buffer and the object.
mirrors src/api/ccapi/voms_api.cc:578-631 -/
def exportBuffer (E : Encoders) (buffer : Str) (s : VomsData) : Bool × Str × VomsData :=
  if s.data = [] then (true, [], s)
  else
    match exportLoop E s.data [] s with
    | (none, s) => (false, buffer, s)
    | (some result, s) =>
      let buffer := encode E.base64Encode result false
      (!buffer.isEmpty, buffer, s)

/-! ## What can be exported -/

variable {C : Client} {E : Encoders}

theorem i2d_eq_nil {α : Type} {encoder : α → Str} (hne : ∀ a, encoder a ≠ []) {p : Option α} :
    i2d encoder p = [] ↔ p = none := by
  cases p with
  | none => simp [i2d]
  | some a => simp [i2d, hne a]

/-- A record that holds a certificate and an AC. -/
def Whole (v : VomsRecord) : Prop := v.holder ≠ none ∧ v.ac ≠ none

/-- What `Export` writes of a record. -/
def exported (E : Encoders) (v : VomsRecord) : Str := i2d E.i2dX509 v.holder ++ i2d E.i2dAc v.ac

theorem exportLoop_whole : ∀ {data : List VomsRecord} (result : Str) (s : VomsData),
    (∀ v ∈ data, Whole v) →
      exportLoop E data result s = (some (result ++ data.flatMap (exported E)), s)
  | [], result, s, _ => by simp [exportLoop]
  | v :: data, result, s, h => by
    obtain ⟨hholder, hac⟩ := h v (List.mem_cons_self ..)
    have hX := mt (i2d_eq_nil E.i2dX509_ne_nil).mp hholder
    have hA := mt (i2d_eq_nil E.i2dAc_ne_nil).mp hac
    have ih := @exportLoop_whole data (result ++ i2d E.i2dX509 v.holder ++ i2d E.i2dAc v.ac) s
      (fun w hw => h w (List.mem_cons_of_mem _ hw))
    rw [exportLoop, if_neg hX, if_neg hA, ih, List.flatMap_cons]
    simp only [exported, List.append_assoc]

theorem exportLoop_broken : ∀ {data : List VomsRecord} (result : Str) (s : VomsData),
    (∃ v ∈ data, ¬ Whole v) → (exportLoop E data result s).1 = none
  | [], _, _, h => by
    obtain ⟨v, hv, -⟩ := h
    cases hv
  | v :: data, result, s, h => by
    unfold exportLoop
    split
    · rfl
    · split
      · rfl
      · next hX hA =>
        refine exportLoop_broken _ s ?_
        obtain ⟨w, hw, hbroken⟩ := h
        rcases List.mem_cons.mp hw with rfl | hw
        · rw [i2d_eq_nil E.i2dX509_ne_nil] at hX
          rw [i2d_eq_nil E.i2dAc_ne_nil] at hA
          exact absurd ⟨hX, hA⟩ hbroken
        · exact ⟨w, hw, hbroken⟩

theorem exported_ne_nil {v : VomsRecord} (h : Whole v) : exported E v ≠ [] := by
  have hX := mt (i2d_eq_nil E.i2dX509_ne_nil).mp h.1
  simp [exported, hX]

/-- The buffer of a successful `Export`. -/
theorem exportBuffer_whole {s : VomsData} (buffer : Str) (hne : s.data ≠ [])
    (h : ∀ v ∈ s.data, Whole v) :
    exportBuffer E buffer s = (true, myEncode .first (s.data.flatMap (exported E)), s) := by
  obtain ⟨v, hv⟩ := List.exists_mem_of_ne_nil _ hne
  have hflat : s.data.flatMap (exported E) ≠ [] := by
    rw [ne_eq, List.flatMap_eq_nil_iff]
    exact fun hall => exported_ne_nil (h v hv) (hall v hv)
  have hbuffer : (myEncode .first (s.data.flatMap (exported E))).isEmpty = false :=
    List.isEmpty_eq_false_iff.mpr (myEncode_ne_nil hflat)
  unfold exportBuffer
  rw [if_neg hne, exportLoop_whole _ _ h]
  simp only [encode, Bool.false_eq_true, if_false, List.nil_append, hbuffer, Bool.not_false]

/-- `Export` succeeds exactly on whole records. -/
theorem exportBuffer_succeeds_iff (buffer : Str) (s : VomsData) :
    (exportBuffer E buffer s).1 = true ↔ ∀ v ∈ s.data, Whole v := by
  by_cases hne : s.data = []
  · refine iff_of_true ?_ ?_
    · unfold exportBuffer
      rw [if_pos hne]
    · intro v hv
      rw [hne] at hv
      cases hv
  · by_cases h : ∀ v ∈ s.data, Whole v
    · exact iff_of_true (by rw [exportBuffer_whole buffer hne h]) h
    · refine iff_of_false ?_ h
      obtain ⟨v, hv, hv'⟩ := not_forall₂.mp h
      have hbroken := @exportLoop_broken E s.data [] s ⟨v, hv, hv'⟩
      unfold exportBuffer
      rw [if_neg hne]
      generalize exportLoop E s.data [] s = x at hbroken
      obtain ⟨result, s'⟩ := x
      obtain rfl : result = none := hbroken
      exact Bool.false_ne_true

/-! ## What is imported -/

/-- A record that `Import` can read back: the encodings of its certificate
and its AC end where they end, the record is what a verification of the two
fills, and the object `t` accepts them. -/
structure Importable (C : Client) (E : Encoders) (t : VomsData) (v : VomsRecord) (x : X509)
    (ac : Ac) : Prop where
  holder : v.holder = some x
  copy : v.ac = some ac
  bytes : Bytes (E.i2dX509 x ++ E.i2dAc ac)
  d2iX509 : ∀ rest, ∃ remains : Remains (E.i2dX509 x ++ rest),
    C.d2iX509At (E.i2dX509 x ++ rest) = some (x, remains) ∧ remains.rest = rest
  d2iAc : ∀ rest, ∃ remains : Remains (E.i2dAc ac ++ rest),
    C.d2iAcAt (E.i2dAc ac ++ rest) = some (ac, remains) ∧ remains.rest = rest
  filled : ∃ s s', s.vomsCertDir = t.vomsCertDir ∧
    (has s.verType VERIFY_SIGN ↔ has t.verType VERIFY_SIGN) ∧
    verifydata C.toFiles ac (some x) s = .ok (some v, s')
  verified : ∃ w t', verifydata C.toFiles ac (some x) t = .ok (some w, t')

variable {t t' : VomsData} {v : VomsRecord} {x : X509} {ac : Ac}

theorem Importable.whole (h : Importable C E t v x ac) : Whole v := by
  refine ⟨?_, ?_⟩
  · rw [h.holder]
    exact Option.some_ne_none x
  · rw [h.copy]
    exact Option.some_ne_none ac

theorem Importable.exported_eq (h : Importable C E t v x ac) :
    exported E v = E.i2dX509 x ++ E.i2dAc ac := by
  unfold exported
  rw [h.holder, h.copy]
  rfl

/-- The verification fills the record that was exported. -/
theorem Importable.fills (h : Importable C E t v x ac) :
    ∃ t', verifydata C.toFiles ac (some x) t = .ok (some v, t') := by
  obtain ⟨s, s', hdir, hsign, hs⟩ := h.filled
  obtain ⟨w, t', ht⟩ := h.verified
  obtain rfl := verifydata_unique hdir hsign ⟨s', hs⟩ ⟨t', ht⟩
  exact ⟨t', ht⟩

theorem Importable.settings (h : Importable C E t v x ac) (hset : Settings t t') :
    Importable C E t' v x ac := by
  obtain ⟨w, t1, ht⟩ := h.verified
  obtain ⟨t2, ht⟩ := hset.accepts ⟨t1, ht⟩
  exact { h with
    filled := by
      rw [← hset.vomsCertDir, ← hset.verType]
      exact h.filled
    verified := ⟨w, t2, ht⟩ }

/-- One turn of the loop appends one record. -/
theorem verifymessage_exported (h : Importable C E t v x ac) (rest : Str) :
    ∃ t', verifymessage C (E.i2dAc ac ++ rest) (some x) t = .ok (true, rest, t') ∧
      t'.data = t.data ++ [v] ∧ Settings t t' := by
  obtain ⟨remains, hac, hrest⟩ := h.d2iAc rest
  have hne : E.i2dAc ac ++ rest ≠ [] := by simp [E.i2dAc_ne_nil ac]
  have herror : Settings t { t with error := .VERR_FORMAT } := ⟨rfl, rfl, rfl⟩
  obtain ⟨t1, ht1⟩ := (h.settings herror).fills
  refine ⟨{ t1 with data := t1.data ++ [v] }, ?_, ?_, ?_⟩
  · unfold verifymessage
    simp only [hne, if_false, hac, ht1, Res.ok_bind, hrest, Res.pure_eq]
  · show t1.data ++ [v] = t.data ++ [v]
    rw [verifydata_data ht1]
  · have hkeeps := herror.trans (verifydata_settings ht1)
    exact hkeeps.trans ⟨rfl, rfl, rfl⟩

/-- The loop takes one record after the other off the buffer. -/
theorem importLoop_exported : ∀ {data : List VomsRecord} {turns : Nat} {t : VomsData},
    data ≠ [] → (data.flatMap (exported E)).length < turns →
      (∀ v ∈ data, ∃ x ac, Importable C E t v x ac) →
        ∃ t', importLoop C turns (data.flatMap (exported E)) t = .ok (true, t') ∧
          t'.data = t.data ++ data
  | [], _, _, hne, _, _ => absurd rfl hne
  | v :: data, 0, _, _, hturns, _ => by omega
  | v :: data, turns + 1, t, _, hturns, h => by
    obtain ⟨x, ac, hv⟩ := h v (List.mem_cons_self ..)
    have hexported := hv.exported_eq
    have hpos := List.length_pos_of_ne_nil (@exported_ne_nil E v hv.whole)
    rw [List.flatMap_cons, List.length_append] at hturns
    rw [List.flatMap_cons, hexported, List.append_assoc]
    obtain ⟨remains, hx, hrest⟩ := hv.d2iX509 (E.i2dAc ac ++ data.flatMap (exported E))
    obtain ⟨t1, ht1, hdata, hset⟩ := verifymessage_exported hv (data.flatMap (exported E))
    have hturn : importLoop C (turns + 1)
        (E.i2dX509 x ++ (E.i2dAc ac ++ data.flatMap (exported E))) t =
          if data.flatMap (exported E) = [] then pure (true, t1)
          else importLoop C turns (data.flatMap (exported E)) t1 := by
      rw [importLoop]
      simp only [hx, hrest, ht1, Res.ok_bind]
    rw [hturn]
    have htail : ∀ w ∈ data, ∃ x ac, Importable C E t1 w x ac := by
      intro w hw
      obtain ⟨y, ac', hw⟩ := h w (List.mem_cons_of_mem _ hw)
      exact ⟨y, ac', hw.settings hset⟩
    by_cases hlast : data = []
    · subst hlast
      exact ⟨t1, if_pos rfl, hdata⟩
    · obtain ⟨w, hw⟩ := List.exists_mem_of_ne_nil _ hlast
      obtain ⟨_, _, himp⟩ := htail w hw
      have hflat : data.flatMap (exported E) ≠ [] := by
        rw [ne_eq, List.flatMap_eq_nil_iff]
        exact fun hall => exported_ne_nil himp.whole (hall w hw)
      have hshort : (data.flatMap (exported E)).length < turns := by omega
      obtain ⟨t2, ht2, hdata2⟩ := importLoop_exported hlast hshort htail
      refine ⟨t2, (if_neg hflat).trans ht2, ?_⟩
      rw [hdata2, hdata, List.append_assoc]
      rfl

/-- `Import` appends the records that were exported, in their order. -/
theorem importBuffer_exported {s : VomsData} (buffer : Str) (hne : s.data ≠ [])
    (h : ∀ v ∈ s.data, ∃ x ac, Importable C E t v x ac) :
    ∃ out t', exportBuffer E buffer s = (true, out, s) ∧
      importBuffer C out t = .ok (true, t') ∧ t'.data = t.data ++ s.data := by
  have hwhole : ∀ v ∈ s.data, Whole v := by
    intro v hv
    obtain ⟨_, _, himp⟩ := h v hv
    exact himp.whole
  have hbytes : Bytes (s.data.flatMap (exported E)) := by
    intro c hc
    obtain ⟨v, hv, hc⟩ := List.mem_flatMap.mp hc
    obtain ⟨_, _, himp⟩ := h v hv
    rw [himp.exported_eq] at hc
    exact himp.bytes c hc
  have hflat : s.data.flatMap (exported E) ≠ [] := by
    obtain ⟨v, hv⟩ := List.exists_mem_of_ne_nil _ hne
    rw [ne_eq, List.flatMap_eq_nil_iff]
    exact fun hall => exported_ne_nil (hwhole v hv) (hall v hv)
  obtain ⟨t', hloop, hdata⟩ := importLoop_exported hne (Nat.lt_succ_self _) h
  refine ⟨_, t', exportBuffer_whole buffer hne hwhole, ?_, hdata⟩
  unfold importBuffer
  rw [decode_myEncode hbytes, Res.ok_bind, if_neg hflat]
  exact hloop

/-! ## What the calls leave -/

theorem verifydata_holder {F : Files} {ac : Ac} {holder : Option X509} {s s' : VomsData}
    {w : VomsRecord} (h : verifydata F ac holder s = .ok (some w, s')) : w.holder = holder := by
  obtain ⟨-, _, -, _, -, -, rfl⟩ := verifydata_some.mp ⟨s', h⟩
  rfl

/-- The records of a successful `evaluate` are new and have its holder. -/
theorem evaluateLoop_holders {F : Files} {holder : Option X509} :
    ∀ {acs : List Ac} {ok : Bool} {s s' : VomsData},
      evaluateLoop F holder ok acs s = .ok (true, s') →
        ∃ new, s'.data = s.data ++ new ∧ (∀ v ∈ new, v.holder = holder) ∧ (ok = true ∨ new ≠ [])
  | [], ok, s, s', h => by
    cases h
    exact ⟨[], by simp, by simp, Or.inl rfl⟩
  | ac :: acs, _, s, s', h => by
    unfold evaluateLoop at h
    obtain ⟨⟨v, t⟩, hver, h⟩ := Res.bind_eq_ok.mp h
    cases v with
    | none => cases h
    | some v =>
      obtain ⟨new, hdata, hnew, -⟩ := evaluateLoop_holders h
      refine ⟨v :: new, ?_, ?_, Or.inr (List.cons_ne_nil v new)⟩
      · rw [hdata]
        simp [verifydata_data hver]
      · intro w hw
        rcases List.mem_cons.mp hw with rfl | hw
        · exact verifydata_holder hver
        · exact hnew w hw

theorem evaluate_holders {F : Files} {acs : Option (List Ac)} {holder : Option X509}
    {s s' : VomsData} (h : evaluate F acs holder s = .ok (true, s')) :
    ∃ new, s'.data = s.data ++ new ∧ new ≠ [] ∧ ∀ v ∈ new, v.holder = holder := by
  unfold evaluate at h
  cases acs with
  | none => cases h
  | some acs =>
    obtain ⟨new, hdata, hnew, hne⟩ := evaluateLoop_holders h
    exact ⟨new, hdata, hne.resolve_left Bool.false_ne_true, hnew⟩

/-- `Retrieve` of a certificate stores the holder it found. -/
theorem retrieveCert_holders {cert : Option X509} {chain : Option (List X509)}
    {how : RecurseType} {s s' : VomsData}
    (h : retrieveCert C cert chain how s = .ok (true, s')) :
    ∃ new, s'.data = s.data ++ new ∧ ∀ v ∈ new, v.holder ≠ none := by
  unfold retrieveCert at h
  obtain ⟨⟨r, s1⟩, hret, h⟩ := Res.bind_eq_ok.mp h
  cases r with
  | none => cases h
  | some p =>
    obtain ⟨acs, holder⟩ := p
    obtain ⟨new, hdata, -, hnew⟩ := evaluate_holders h
    refine ⟨new, ?_, ?_⟩
    · rw [hdata, (retrieve_frame hret).idle.data]
    · intro v hv
      rw [hnew v hv]
      exact Option.some_ne_none holder

/-- `Retrieve` of an extension has no holder to store. -/
theorem retrieveExt_holders {F : Files} {acs : Option (List Ac)} {s s' : VomsData}
    (h : retrieveExt F acs s = .ok (true, s')) : ∃ v ∈ s'.data, v.holder = none := by
  unfold retrieveExt at h
  obtain ⟨⟨ret, s1⟩, heval, h⟩ := Res.bind_eq_ok.mp h
  cases h
  obtain ⟨new, hdata, hne, hnew⟩ := evaluate_holders heval
  obtain ⟨v, hv⟩ := List.exists_mem_of_ne_nil _ hne
  refine ⟨v, ?_, hnew v hv⟩
  show v ∈ s1.data
  rw [hdata]
  exact List.mem_append_right _ hv

/-- Nor has `Retrieve` of an AC. -/
theorem retrieveAc_holders {F : Files} {ac : Option Ac} {s s' : VomsData}
    (h : retrieveAc F ac s = .ok (true, s')) : ∃ v ∈ s'.data, v.holder = none := by
  unfold retrieveAc at h
  cases ac with
  | none => cases h
  | some ac =>
    obtain ⟨⟨v, s1⟩, hver, h⟩ := Res.bind_eq_ok.mp h
    cases v with
    | none => cases h
    | some v =>
      cases h
      exact ⟨v, List.mem_append_right _ (List.mem_singleton_self v), verifydata_holder hver⟩

theorem exportBuffer_refuses (buffer : Str) {s : VomsData} (h : ∃ v ∈ s.data, v.holder = none) :
    (exportBuffer E buffer s).1 = false := by
  obtain ⟨v, hv, hnone⟩ := h
  refine Bool.eq_false_iff.mpr fun htrue => ?_
  have hwhole := (exportBuffer_succeeds_iff buffer s).mp htrue v hv
  exact hwhole.1 hnone

/-- **`Export` and `Import`.** What an object with whole, verifiable records
exports, an object that accepts them imports, record by record. After a
successful `Retrieve` of a certificate `Export` succeeds unless an AC could
not be copied; after one of an extension or of an AC it refuses. -/
theorem export_import (C : Client) (E : Encoders) :
    (∀ (s t : VomsData) (buffer : Str), s.data ≠ [] →
      (∀ v ∈ s.data, ∃ x ac, Importable C E t v x ac) →
        ∃ out t', exportBuffer E buffer s = (true, out, s) ∧
          importBuffer C out t = .ok (true, t') ∧ t'.data = t.data ++ s.data) ∧
    (∀ (s s' : VomsData) (buffer : Str) (cert : Option X509) (chain : Option (List X509))
      (how : RecurseType), retrieveCert C cert chain how s = .ok (true, s') →
        (∀ v ∈ s.data, v.holder ≠ none) →
          ((exportBuffer E buffer s').1 = true ↔ ∀ v ∈ s'.data, v.ac ≠ none)) ∧
    (∀ (s s' : VomsData) (buffer : Str) (acs : Option (List Ac)),
      retrieveExt C.toFiles acs s = .ok (true, s') → (exportBuffer E buffer s').1 = false) ∧
    (∀ (s s' : VomsData) (buffer : Str) (ac : Option Ac),
      retrieveAc C.toFiles ac s = .ok (true, s') → (exportBuffer E buffer s').1 = false) := by
  refine ⟨?_, ?_, ?_, ?_⟩
  · intro s t buffer hne h
    exact importBuffer_exported buffer hne h
  · intro s s' buffer cert chain how h hold
    obtain ⟨new, hdata, hnew⟩ := retrieveCert_holders h
    have hholders : ∀ v ∈ s'.data, v.holder ≠ none := by
      intro v hv
      rw [hdata] at hv
      rcases List.mem_append.mp hv with hv | hv
      · exact hold v hv
      · exact hnew v hv
    rw [exportBuffer_succeeds_iff]
    exact forall₂_congr fun v hv => and_iff_right (hholders v hv)
  · intro s s' buffer acs h
    exact exportBuffer_refuses buffer (retrieveExt_holders h)
  · intro s s' buffer ac h
    exact exportBuffer_refuses buffer (retrieveAc_holders h)

/-! ### Two objects -/

namespace Sample

/-- One byte stands for the user's certificate, one for the AC. -/
def encoders : Encoders where
  i2dX509 x := if x = user then ['u'] else ['x']
  i2dX509_ne_nil x := by split <;> exact List.cons_ne_nil _ _
  i2dAc _ := ['a']
  i2dAc_ne_nil _ := List.cons_ne_nil _ _
  base64Encode := id

def decoders : Client :=
  { applications with
    d2iX509At := fun buffer =>
      match buffer with
      | 'u' :: rest => some (user, ⟨rest, Nat.lt_succ_self _⟩)
      | _ => none
    d2iAcAt := fun buffer =>
      match buffer with
      | 'a' :: rest => some (d2iAc Sample.ac, ⟨rest, Nat.lt_succ_self _⟩)
      | _ => none }

theorem importable {w : VomsRecord} {s' : VomsData}
    (h : verifydata decoders.toFiles (d2iAc Sample.ac) (some user) client = .ok (some w, s')) :
    Importable decoders encoders client w user (d2iAc Sample.ac) where
  holder := verifydata_holder h
  copy := by
    obtain ⟨-, _, -, _, -, -, rfl⟩ := verifydata_some.mp ⟨s', h⟩
    rfl
  bytes := by decide
  d2iX509 rest := ⟨_, rfl, rfl⟩
  d2iAc rest := ⟨_, rfl, rfl⟩
  filled := ⟨client, s', rfl, Iff.rfl, h⟩
  verified := ⟨w, s', h⟩

end Sample

/-- `export_import` for an object with two records. -/
theorem export_import_sample : ∃ s out t', s.data.length = 2 ∧
    exportBuffer Sample.encoders [] s = (true, out, s) ∧
    importBuffer Sample.decoders out Sample.client = .ok (true, t') ∧
    t'.data = Sample.client.data ++ s.data := by
  obtain ⟨w, s', h⟩ : ∃ w s', verifydata Sample.decoders.toFiles (d2iAc Sample.ac)
      (some Sample.user) Sample.client = .ok (some w, s') := ⟨_, _, rfl⟩
  have himportable : ∀ v ∈ [w, w], ∃ x ac,
      Importable Sample.decoders Sample.encoders Sample.client v x ac := by
    intro v hv
    obtain rfl : v = w := by simpa using hv
    exact ⟨_, _, Sample.importable h⟩
  obtain ⟨out, t', hexport, himport, hdata⟩ := (export_import Sample.decoders Sample.encoders).1
    { Sample.client with data := [w, w] } Sample.client [] (List.cons_ne_nil _ _) himportable
  exact ⟨_, out, t', rfl, hexport, himport, hdata⟩

/-- What `Retrieve` of an AC stored is not exported. -/
theorem retrieveAc_not_exported : ∃ s',
    retrieveAc Sample.decoders.toFiles (some (d2iAc Sample.ac)) Sample.client = .ok (true, s') ∧
    s'.data.length = 1 ∧ (exportBuffer Sample.encoders [] s').1 = false := ⟨_, rfl, rfl, rfl⟩

end Voms.L4
