import Voms.L3Wire.XmlAnswers
import Voms.L4Api.Answers
import Voms.L4Api.Provenance
import Voms.L5Server.Grants
import Voms.L5Server.Lifetime

/-!
# From the server to the client

`VOMSServer::Execute` (`src/server/vomsd.cc`) sends the result of `makeAC`
as a text, and `Contact` (`src/api/ccapi/voms_api.cc`) makes a record of it.
Here the two ends are put together.

* `contact_delivers`: when the answer arrives, `Contact` succeeds exactly if
  the last error in it is a warning, the holder has no unique identifier of
  its issuer and the AC is meant for this host; the record then states what
  the server selected.
* `run_attested`: if nobody but the servers signs with the keys of the
  selected issuers, then whatever certificates, buffers and answers an object
  is used on, each record in it states what a server released, for the
  certificate the AC was issued to.
-/
namespace Voms.L5

open Voms.Core Voms.L1 Voms.L2 Voms.L3 Voms.L4

/-! ## The server's end -/

/-- mirrors src/server/VOMSServer.h:76-79 -/
def VomsResult.makeXMLAnswer (base64Encode : Str → Str) (vr : VomsResult) : Str :=
  xmlAnsEncode base64Encode vr.ac vr.data vr.errs vr.base64

/-- The message that is executed, of two receptions that may fail. A client
of GSI may send a 0 first.
mirrors src/server/vomsd.cc:1168-1181 -/
def received (first second : Option Str) : Str :=
  let message := first.getD []
  if message = "0".toList then second.getD message else message

/-- What is sent. mirrors src/server/vomsd.cc:1165-1189 -/
def execute (V : Server) (base64Encode : Str → Str) (D : Database) (P : Party)
    (first second : Option Str) : Eval Str := do
  let out ← makeAC V D .new P (received first second)
  pure (out.vr.makeXMLAnswer base64Encode)

/-- The call of `makeAC` selects `sel` and answers with the AC `a`. -/
structure Answers (V : Server) (D : Database) (P : Party) (message : Str) (sel : Selection)
    (a : Ac) (out : Outcome) : Prop where
  selects : ∃ vr, interpretRequest V D .new message = .ok (some sel, vr)
  makes : makeAC V D .new P message = .ok out
  writes : ∃ serial, V.serial = some serial ∧
    createac V.signer P.issuer V.ownStack P.holder P.key serial (released V sel) sel.targs
      ((writtenAttribs V sel).map Gattrib.str) V.voname V.uri sel.requested (!V.newformat) none =
        .ok a
  ret : out.ret = true
  ac : out.vr.ac = V.i2dAc a
  data : out.vr.data = []

/-! ## The errors of an answer -/

/-- Every error has such a number. -/
def Numbered (p : Int → Prop) (vr : VomsResult) : Prop := ∀ e ∈ vr.errs, p e.num

section

variable {p : Int → Prop} {vr vr' : VomsResult}

theorem Numbered.setError (h : Numbered p vr) {num : Int} (hnum : p num) (message : Str) :
    Numbered p (vr.setError num message) := by
  intro e he
  rcases List.mem_append.mp he with he | he
  · exact h e he
  · rw [List.mem_singleton.mp he]
    exact hnum

theorem Appends.numbered {nums : List Int} (h : Appends nums vr vr') (hvr : Numbered p vr)
    (hnums : ∀ n ∈ nums, p n) : Numbered p vr' := by
  obtain ⟨-, -, es, hes, hin⟩ := h
  intro e he
  rw [hes] at he
  rcases List.mem_append.mp he with he | he
  · exact hvr e he
  · exact hnums _ (hin e he)

theorem numbered_warnFirst (h : Numbered p vr) (hp : p WARN_NO_FIRST_SELECT) (firstfqan : Str)
    (fqans : List Str) : Numbered p (warnFirst firstfqan fqans vr) := by
  unfold warnFirst
  split
  · exact h
  · split
    · exact h.setError hp _
    · exact h

/-- What an AC is issued with are two warnings. -/
theorem issueAC_numbered {V : Server} {P : Party} {sel : Selection} {out : Outcome}
    (hvr : Numbered p vr) (hfirst : p WARN_NO_FIRST_SELECT) (hsubset : p WARN_ATTR_SUBSET)
    (h : issueAC V P sel vr = .ok out) (hret : out.ret = true) : Numbered p out.vr := by
  have hwarn := numbered_warnFirst hvr hfirst (parseOrder sel.order []).1 (ordered V sel)
  have hsub (message : Str) : Numbered p
      (if (released V sel).length ≠ (ordered V sel).length then
        (warnFirst (parseOrder sel.order []).1 (ordered V sel) vr).setError WARN_ATTR_SUBSET message
      else warnFirst (parseOrder sel.order []).1 (ordered V sel) vr) := by
    split
    · exact hwarn.setError hsubset message
    · exact hwarn
  rcases issueAC_cases h with ⟨message, rfl⟩ | ⟨message, rfl⟩ | ⟨-, message, rfl | h⟩
  · cases hret
  · cases hret
  · exact hsub message
  · intro e he
    rw [((writeAC_ok h).2.2 hret).2] at he
    exact hsub message e he

/-- Of a user the database knows the validity is all that is warned about. -/
theorem interpretRequest_warned {V : Server} {D : Database} {message : Str} {sel : Selection}
    (huser : D.getUser.1 = true)
    (h : interpretRequest V D .new message = .ok (some sel, vr)) :
    Numbered (· ≤ ERROR_OFFSET) vr := by
  obtain ⟨r, _, _, short, uid, _, -, -, rfl, hget, -, -⟩ := interpretRequest_ok h
  have hvr : vr = (shortenValidity V r.lifetime
      { VomsResult.new with base64 := V.base64encoding || r.base64 }).2 := by
    unfold getUserid at hget
    simp only [huser, if_true] at hget
    exact (Prod.mk.inj hget).2.symm
  have hnew : Numbered (· ≤ ERROR_OFFSET)
      { VomsResult.new with base64 := V.base64encoding || r.base64 } := nofun
  rw [hvr]
  unfold shortenValidity
  split
  · split
    · exact hnew
    · split
      · exact hnew.setError (by decide) _
      · exact hnew
  · exact hnew

end

/-- The AC of an answer has the serial number of the server. -/
theorem writeAC_answers {V : Server} {P : Party} {sel : Selection} {fqans : List Str}
    {attribs : List Gattrib} {vr : VomsResult} {out : Outcome}
    (h : writeAC V P sel fqans attribs vr = .ok out) (hret : out.ret = true) :
    ∃ a, (∃ serial, V.serial = some serial ∧
      createac V.signer P.issuer V.ownStack P.holder P.key serial fqans sel.targs
        (attribs.map Gattrib.str) V.voname V.uri sel.requested (!V.newformat) none = .ok a) ∧
      out.vr.ac = V.i2dAc a ∧ out.vr.data = [] := by
  unfold writeAC at h
  cases hserial : V.serial with
  | none =>
    rw [hserial] at h
    cases h
    cases hret
  | some serial =>
    rw [hserial] at h
    dsimp only at h
    split at h
    · cases h
    · cases h
      cases hret
    · next a ha =>
      split at h
      · cases h
        cases hret
      · cases h
        exact ⟨a, ⟨serial, rfl, ha⟩, rfl, rfl⟩

section

variable {V : Server} {D : Database} {P : Party} {message : Str} {sel : Selection} {a : Ac}
  {out : Outcome}

theorem Answers.issues (h : Answers V D P message sel a out) :
    ∃ vr, interpretRequest V D .new message = .ok (some sel, vr) ∧
      issueAC V P sel vr = .ok out := by
  obtain ⟨vr, hsel⟩ := h.selects
  have hmakes := h.makes
  unfold makeAC at hmakes
  rw [hsel] at hmakes
  exact ⟨vr, hsel, hmakes⟩

/-- Every error next to an AC has the number of an `int`. -/
theorem Answers.intNum (h : Answers V D P message sel a out) :
    ∀ e ∈ out.vr.errs, IntNum e := by
  obtain ⟨vr, hsel, hout⟩ := h.issues
  have hvr : Numbered (fun n => -2 ^ 31 ≤ n ∧ n < 2 ^ 31) vr :=
    (appends_interpretRequest (appends_start false) hsel).numbered nofun (by decide)
  exact issueAC_numbered hvr (by decide) (by decide) hout h.ret

/-- For a user the database knows they are warnings. -/
theorem Answers.warned (h : Answers V D P message sel a out) (huser : D.getUser.1 = true) :
    ∀ e ∈ out.vr.errs, e.num ≤ ERROR_OFFSET := by
  obtain ⟨vr, hsel, hout⟩ := h.issues
  exact issueAC_numbered (interpretRequest_warned huser hsel) (by decide) (by decide) hout h.ret

end

/-- A successful answer with an AC comes from a selection. -/
theorem answers_of_makeAC {V : Server} {D : Database} {P : Party} {message : Str} {out : Outcome}
    (h : makeAC V D .new P message = .ok out) (hret : out.ret = true) (hac : out.vr.ac ≠ []) :
    ∃ sel a, Answers V D P message sel a out := by
  have hmake := h
  unfold makeAC at h
  obtain ⟨⟨sel, vr⟩, hint, h⟩ := Res.bind_eq_ok.mp h
  cases sel with
  | none =>
    cases h
    cases hret
  | some sel =>
    rcases issueAC_cases h with ⟨_, rfl⟩ | ⟨_, rfl⟩ | ⟨-, message, rfl | h⟩
    · cases hret
    · cases hret
    · exact absurd rfl hac
    · obtain ⟨a, hwrites, hcoded, hdata⟩ := writeAC_answers h hret
      exact ⟨sel, a, ⟨vr, hint⟩, hmake, hwrites, hret, hcoded, hdata⟩

/-! ## The client's end -/

section

variable {C : Client} {net : Network} {s t : VomsData}

/-- No attempt gets an answer but this one, and one of them does. -/
structure Brings (net : Network) (attempts : Nat) (answer : Str) : Prop where
  rest : ∀ i, ∃ e m, net.rest i = .failed e m
  legacy : ∀ i, (∃ e m, net.legacy i = .failed e m) ∨ net.legacy i = .received answer
  arrives : ∃ i < attempts, net.legacy i = .received answer

/-- The object with other errors. -/
def Same (s t : VomsData) : Prop := Settings s t ∧ t.data = s.data

theorem Same.trans {s' : VomsData} (h : Same s t) (h' : Same t s') : Same s s' :=
  ⟨h.1.trans h'.1, h'.2.trans h.2⟩

/-- An attempt that fails sets an error. -/
theorem contactRaw_failed (X : Wire) {i : Nat} (raw : Str) (s : VomsData)
    (hrest : ∃ e m, net.rest i = .failed e m)
    (hlegacy : ∃ e m, net.legacy i = .failed e m) :
    ∃ t, contactRaw X net i raw s = .ok (false, raw, t) ∧ Same s t := by
  obtain ⟨e, m, hrest⟩ := hrest
  obtain ⟨e', m', hlegacy⟩ := hlegacy
  unfold contactRaw contactRESTRaw
  rw [hrest, hlegacy]
  exact ⟨_, rfl, ⟨rfl, rfl, rfl⟩, rfl⟩

/-- One that is answered is as good as the answer. -/
theorem contactRaw_answered {X : Wire} {i : Nat} (raw : Str) {answer : Str} {a : Answer}
    (hrest : ∃ e m, net.rest i = .failed e m) (hlegacy : net.legacy i = .received answer)
    (hdecode : xmlAnsDecode X answer = .ok (some a)) (hac : a.ac ≠ []) (hv : s.verType ≠ 0) :
    ∃ t, contactRaw X net i raw s = .ok (decide (¬ Severe a), a.ac, t) ∧ Same s t := by
  obtain ⟨e, m, hrest⟩ := hrest
  let s1 := s.seterror e m
  have hresult : (noteErrors a.errs true s1).1 = decide (¬ Severe a) := by
    rw [Bool.eq_iff_iff, noteErrors_result, decide_eq_true_eq]
    exact and_iff_right rfl
  obtain ⟨t, ht⟩ : ∃ t, interpretOutput X answer raw s1 = .ok (decide (¬ Severe a), a.ac, t) := by
    unfold interpretOutput noteAnswer
    rw [hdecode]
    simp only [Res.ok_bind, if_neg hac, hresult, noteErrors_verType, if_pos hac]
    by_cases hsevere : Severe a
    · rw [if_pos ⟨by simpa using hsevere, hv⟩, decide_eq_false (not_not.mpr hsevere)]
      exact ⟨_, rfl⟩
    · rw [if_neg fun h => h.1 (by simpa using hsevere), decide_eq_true hsevere]
      exact ⟨_, rfl⟩
  have hsame : Same s t := by
    have hstart : Same s s1 := ⟨⟨rfl, rfl, rfl⟩, rfl⟩
    exact hstart.trans ⟨interpretOutput_settings ht, interpretOutput_data ht⟩
  refine ⟨t, ?_, hsame⟩
  unfold contactRaw contactRESTRaw
  rw [hrest]
  simp only [Res.pure_eq, Res.ok_bind, hlegacy]
  exact ht

/-- With a severe error in the answer every attempt fails. -/
theorem contactLoop_severe {attempts : Nat} {answer : Str} {a : Answer}
    (hnet : Brings net attempts answer) (hdecode : xmlAnsDecode C.toWire answer = .ok (some a))
    (hac : a.ac ≠ []) (hsevere : Severe a) : ∀ {turns : Nat} {message : Str} {s : VomsData},
      s.verType ≠ 0 → ∃ s', contactLoop C net attempts turns message s = .ok (false, s')
  | 0, _, s, _ => ⟨s, rfl⟩
  | turns + 1, message, s, hv => by
    have hrest := hnet.rest (attempts - (turns + 1))
    obtain ⟨raw, t, hraw, hsame⟩ : ∃ raw t, contactRaw C.toWire net (attempts - (turns + 1)) message
        s = .ok (false, raw, t) ∧ Same s t := by
      rcases hnet.legacy (attempts - (turns + 1)) with hlegacy | hlegacy
      · obtain ⟨t, ht, hsame⟩ := contactRaw_failed C.toWire message s hrest hlegacy
        exact ⟨_, t, ht, hsame⟩
      · obtain ⟨t, ht, hsame⟩ :=
          contactRaw_answered (X := C.toWire) message hrest hlegacy hdecode hac hv
        rw [decide_eq_false (not_not.mpr hsevere)] at ht
        exact ⟨_, t, ht, hsame⟩
    obtain ⟨s', hs'⟩ : ∃ s', contactLoop C net attempts turns raw t = .ok (false, s') :=
      contactLoop_severe hnet hdecode hac hsevere (hsame.1.verType ▸ hv)
    refine ⟨s', ?_⟩
    unfold contactLoop
    rw [hraw]
    exact hs'

/-- Without one the first answer that arrives is verified. -/
theorem contactLoop_good {attempts : Nat} {answer : Str} {a : Answer} {holder : X509}
    (hnet : Brings net attempts answer) (hown : net.own = some holder)
    (hdecode : xmlAnsDecode C.toWire answer = .ok (some a)) (hac : a.ac ≠ [])
    (hgood : ¬ Severe a) : ∀ {turns : Nat} {message : Str} {s : VomsData}, s.verType ≠ 0 →
      (∃ i < turns, net.legacy (attempts - (i + 1)) = .received answer) →
      ∃ t, Same s t ∧ ∀ ret s', contactLoop C net attempts turns message s = .ok (ret, s') ↔
        ∃ rest, verifymessage C a.ac (some holder) t = .ok (ret, rest, s')
  | 0, _, _, _, ⟨i, hi, _⟩ => absurd hi (Nat.not_lt_zero i)
  | turns + 1, message, s, hv, ⟨i, hi, harrives⟩ => by
    have hrest := hnet.rest (attempts - (turns + 1))
    unfold contactLoop
    rcases hnet.legacy (attempts - (turns + 1)) with hlegacy | hlegacy
    · -- this attempt fails, so it was not the one
      obtain ⟨t, ht, hsame⟩ := contactRaw_failed C.toWire message s hrest hlegacy
      have hlt : i < turns := by
        refine lt_of_le_of_ne (Nat.le_of_lt_succ hi) fun heq => ?_
        obtain ⟨e, m, hlegacy⟩ := hlegacy
        rw [heq, hlegacy] at harrives
        cases harrives
      obtain ⟨t', hsame', hiff⟩ := contactLoop_good hnet hown hdecode hac hgood
        (hsame.1.verType ▸ hv) ⟨i, hlt, harrives⟩
      rw [ht]
      exact ⟨t', hsame.trans hsame', hiff⟩
    · obtain ⟨t, ht, hsame⟩ := contactRaw_answered message hrest hlegacy hdecode hac hv
      rw [decide_eq_true hgood] at ht
      refine ⟨{ t with error := .VERR_NONE }, hsame.trans ⟨⟨rfl, rfl, rfl⟩, rfl⟩, fun ret s' => ?_⟩
      rw [ht]
      simp only [Res.ok_bind, hown]
      constructor
      · intro h
        obtain ⟨⟨r, rest, t'⟩, hver, h⟩ := Res.bind_eq_ok.mp h
        cases h
        exact ⟨rest, hver⟩
      · intro h
        obtain ⟨rest, hver⟩ := h
        exact Res.bind_eq_ok.mpr ⟨_, hver, rfl⟩

/-- The AC at the start of a message is verified, and its record kept. -/
theorem verifymessage_true {message : Str} {holder : Option X509} {ac : Ac}
    {remains : Remains message} {s' : VomsData} (hac : C.d2iAcAt message = some (ac, remains)) :
    (∃ rest, verifymessage C message holder s = .ok (true, rest, s')) ↔
      ∃ w t, verifydata C.toFiles ac holder { s with error := .VERR_FORMAT } = .ok (some w, t) ∧
        s' = { t with data := t.data ++ [w] } := by
  have hmessage : message ≠ [] := remains.ne_nil
  unfold verifymessage
  rw [if_neg hmessage, hac]
  constructor
  · intro h
    obtain ⟨rest, h⟩ := h
    obtain ⟨⟨v, t⟩, hver, h⟩ := Res.bind_eq_ok.mp h
    cases v with
    | none => cases h
    | some w =>
      cases h
      exact ⟨w, t, hver, rfl⟩
  · intro h
    obtain ⟨w, t, hver, rfl⟩ := h
    exact ⟨remains.rest, Res.bind_eq_ok.mpr ⟨_, hver, rfl⟩⟩

/-- What `Contact` makes of an answer with an AC. -/
theorem contact_answer {answer : Str} {a : Answer} {holder : X509} {ac : Ac}
    {remains : Remains a.ac} (hnet : Brings net s.retryCount.toNat answer)
    (hown : net.own = some holder) (hdecode : xmlAnsDecode C.toWire answer = .ok (some a))
    (hac : C.d2iAcAt a.ac = some (ac, remains)) (hv : s.verType ≠ 0) :
    ((∃ s', contact C net s = .ok (true, s')) ↔
      ¬ Severe a ∧ ∃ w, Accepts C.toFiles s (some holder, ac) w) ∧
    ∀ s', contact C net s = .ok (true, s') →
      ∃ w, Accepts C.toFiles s (some holder, ac) w ∧ s'.data = s.data ++ [w] := by
  unfold contact
  by_cases hsevere : Severe a
  · obtain ⟨s1, hs1⟩ : ∃ s1, contactLoop C net s.retryCount.toNat s.retryCount.toNat [] s =
        .ok (false, s1) := contactLoop_severe hnet hdecode remains.ne_nil hsevere hv
    have hnever : ∀ s', contactLoop C net s.retryCount.toNat s.retryCount.toNat [] s ≠
        .ok (true, s') := fun s' h => nomatch hs1.symm.trans h
    exact ⟨iff_of_false (fun h => h.elim hnever) fun h => h.1 hsevere, fun s' h =>
      absurd h (hnever s')⟩
  · obtain ⟨i, hi, harrives⟩ := hnet.arrives
    have hturn : ∃ j < s.retryCount.toNat,
        net.legacy (s.retryCount.toNat - (j + 1)) = .received answer := by
      have hindex : s.retryCount.toNat - (s.retryCount.toNat - (i + 1) + 1) = i := by omega
      exact ⟨s.retryCount.toNat - (i + 1), by omega, by rw [hindex]; exact harrives⟩
    obtain ⟨t, ⟨hset, hdata⟩, hiff⟩ : ∃ t, Same s t ∧ ∀ ret s',
        contactLoop C net s.retryCount.toNat s.retryCount.toNat [] s = .ok (ret, s') ↔
          ∃ rest, verifymessage C a.ac (some holder) t = .ok (ret, rest, s') :=
      contactLoop_good hnet hown hdecode remains.ne_nil hsevere hv hturn
    have hstart : Settings s { t with error := .VERR_FORMAT } :=
      hset.trans ⟨rfl, rfl, rfl⟩
    simp only [hiff, verifymessage_true hac]
    refine ⟨⟨fun h => ?_, fun h => ?_⟩, fun s' h => ?_⟩
    · obtain ⟨s', w, t', hver, -⟩ := h
      exact ⟨hsevere, w, (hstart.accepts_iff (some holder, ac) w).mpr ⟨t', hver⟩⟩
    · obtain ⟨-, w, hacc⟩ := h
      obtain ⟨t', hver⟩ := (hstart.accepts_iff (some holder, ac) w).mp hacc
      exact ⟨_, w, t', hver, rfl⟩
    · obtain ⟨w, t', hver, rfl⟩ := h
      refine ⟨w, (hstart.accepts_iff (some holder, ac) w).mpr ⟨t', hver⟩, ?_⟩
      rw [← hdata, ← verifydata_data hver]

end

/-! ## Both ends -/

section

variable {V : Server} {D : Database} {P : Party} {C : Client} {s : VomsData} {message : Str}
  {sel : Selection} {a : Ac} {out : Outcome} {w : VomsRecord}

/-- The record states what the server selected. -/
structure Conveys (V : Server) (P : Party) (sel : Selection) (w : VomsRecord) : Prop where
  fqan : w.fqan = (released V sel).map cStr
  uri : w.voname ++ "://".toList ++ w.uri = cStr V.voname ++ "://".toList ++ cStr V.uri
  attributes : List.Forall₂ (States (cStr V.voname)) ((writtenAttribs V sel).map (cStr ·.str))
    (w.attributes.flatMap (·.attributes))
  holder : w.holder = some P.holder
  server : w.server = P.issuer.subject.oneline

/-- The client looks for the issuer the server signs with, at a time when
the AC is valid, and verifies everything. -/
structure Trusting (V : Server) (P : Party) (C : Client) (s : VomsData) (sel : Selection)
    (a : Ac) : Prop where
  setting : Setting V.signer C.toWorld P.issuer P.key sel.requested s.verificationtime
  issuer : IssuerOf C.toFiles s a (some P.issuer)
  full : s.verType = VERIFY_FULL
  serial : ∀ n, V.serial = some n → n.data.length ≤ 20

/-- What `verifydata` fills from an AC the server wrote. -/
theorem accepts_written (htrust : Trusting V P C s sel a) :
    Accepts C.toFiles s (some P.holder, a) w ↔
      ∃ v, validate C.toWorld (some P.holder) (some P.issuer) a .new VERIFY_FULL
          s.verificationtime = .ok v ∧ verifyID P.issuer v.server v.serverca = true ∧
        w = { v with ac := C.acDup a, holder := some P.holder } := by
  have hid : has s.verType VERIFY_ID := by
    rw [htrust.full]
    decide
  unfold Accepts
  rw [verifydata_some]
  constructor
  · intro hacc
    obtain ⟨-, issuer, hissuer, v, hv, hver, rfl⟩ := hacc
    obtain rfl := hissuer.unique htrust.issuer
    obtain ⟨_, hx, hver⟩ := hver hid
    cases hx
    rw [htrust.full] at hv
    exact ⟨v, hv, hver, rfl⟩
  · intro hv
    obtain ⟨v, hv, hver, rfl⟩ := hv
    refine ⟨nofun, some P.issuer, htrust.issuer, v, ?_, fun _ => ⟨_, rfl, hver⟩, rfl⟩
    rw [htrust.full]
    exact hv

/-- The client accepts the AC exactly if it can tell the holder and is a
target, and the record then carries the selection. -/
theorem accepts_iff (h : Answers V D P message sel a out) (htrust : Trusting V P C s sel a) :
    ((∃ w, Accepts C.toFiles s (some P.holder, a) w) ↔
      P.holder.issuerUID = none ∧ ReachesHost V.signer C.toWorld sel.targs) ∧
    ∀ w, Accepts C.toFiles s (some P.holder, a) w → Conveys V P sel w := by
  obtain ⟨serial, hserial, ha⟩ := h.writes
  obtain ⟨time1, time2, attrs, targ, h1, h2, hattrs, htarg, hac⟩ := createac_ok ha
  have hn := htrust.serial serial hserial
  have hstates := parseAttributes_states hattrs
  rw [reachesHost_iff htarg]
  simp only [accepts_written htrust]
  refine ⟨⟨fun hw => ?_, fun hcond => ?_⟩, fun w hw => ?_⟩
  · obtain ⟨w, v, hv, -⟩ := hw
    obtain ⟨huid, hpass, -⟩ := (validate_written htrust.setting hn h1 h2 hac).mp hv
    exact ⟨huid, hpass⟩
  · obtain ⟨huid, hpass⟩ := hcond
    obtain ⟨sig, hsig⟩ : ∃ sig, a.signature = some sig := ⟨_, by rw [hac]; rfl⟩
    obtain ⟨point, hpoint⟩ : ∃ point,
        strstr "://".toList (cStr V.voname ++ "://".toList ++ cStr V.uri) = some point :=
      Option.isSome_iff_exists.mp (strstr_isSome.mpr ⟨_, _, rfl⟩)
    refine ⟨_, _, (validate_written htrust.setting hn h1 h2 hac).mpr
      ⟨huid, hpass, sig, point, hsig, hpoint, rfl⟩, ?_, rfl⟩
    simp [verifyID, filledRecord]
  · obtain ⟨v, hv, -, rfl⟩ := hw
    obtain ⟨-, -, sig, point, -, hpoint, rfl⟩ :=
      (validate_written htrust.setting hn h1 h2 hac).mp hv
    exact
      { fqan := rfl
        uri := (strstr_split hpoint).symm
        attributes := by
          simp only [flatMap_writtenAttributes]
          rw [List.map_map] at hstates
          exact hstates
        holder := rfl
        server := rfl }

/-- **From the server to the client.** When its answer arrives, the client
gets a record exactly if the database knows the user, or the last error in the
answer is a warning; the holder has no unique identifier of its issuer; and
the AC is meant for this host. The record carries what the server selected. -/
theorem contact_delivers {first second : Option Str} {answer : Str} {base64Encode : Str → Str}
    {net : Network} {remains : Remains (V.i2dAc a)}
    (h : Answers V D P (received first second) sel a out)
    (hexec : execute V base64Encode D P first second = .ok answer)
    (htexts : ∀ e ∈ out.vr.errs, charData e.message = true)
    (hbytes : Bytes (V.i2dAc a)) (hbase : Base64 base64Encode C.base64Decode (V.i2dAc a))
    (hempty : Base64 base64Encode C.base64Decode []) (hexpat : Faithful answerProlog C.expat)
    (hd2i : C.d2iAcAt (V.i2dAc a) = some (a, remains)) (hown : net.own = some P.holder)
    (hnet : Brings net s.retryCount.toNat answer) (htrust : Trusting V P C s sel a) :
    ((∃ s', contact C net s = .ok (true, s')) ↔
      (D.getUser.1 = true ∨ ∀ e, out.vr.errs.getLast? = some e → e.num ≤ ERROR_OFFSET) ∧
        P.holder.issuerUID = none ∧ ReachesHost V.signer C.toWorld sel.targs) ∧
    ∀ s', contact C net s = .ok (true, s') → ∃ w, s'.data = s.data ++ [w] ∧ Conveys V P sel w := by
  have hanswer : answer = out.vr.makeXMLAnswer base64Encode := by
    unfold execute at hexec
    rw [h.makes] at hexec
    cases hexec
    rfl
  have hcan : Answerable base64Encode C.base64Decode (V.i2dAc a) [] out.vr.errs :=
    ⟨fun hnil => remains.ne_nil hnil.1, hbytes, nofun, hbase, hempty, h.intNum⟩
  have hdecode : xmlAnsDecode C.toWire answer =
      .ok (some ⟨[], V.i2dAc a, out.vr.errs.getLast?.toList, 3⟩) := by
    rw [hanswer, VomsResult.makeXMLAnswer, h.ac, h.data]
    exact xmlAnsDecode_last hexpat out.vr.base64 hcan htexts
  have hsevere : ¬ Severe ⟨[], V.i2dAc a, out.vr.errs.getLast?.toList, 3⟩ ↔
      D.getUser.1 = true ∨ ∀ e, out.vr.errs.getLast? = some e → e.num ≤ ERROR_OFFSET := by
    have hlast : ¬ Severe ⟨[], V.i2dAc a, out.vr.errs.getLast?.toList, 3⟩ ↔
        ∀ e, out.vr.errs.getLast? = some e → e.num ≤ ERROR_OFFSET := by
      simp [Severe]
    rw [hlast]
    exact ⟨Or.inr, fun hor => hor.elim
      (fun huser e he => h.warned huser e (List.mem_of_getLast? he)) id⟩
  have hv : s.verType ≠ 0 := by
    rw [htrust.full]
    decide
  obtain ⟨hiff, hrecord⟩ := contact_answer hnet hown hdecode hd2i hv
  obtain ⟨haccept, hconveys⟩ := accepts_iff h htrust
  rw [hiff, hsevere, haccept]
  refine ⟨Iff.rfl, fun s' hs' => ?_⟩
  obtain ⟨w, hw, hdata⟩ := hrecord s' hs'
  exact ⟨w, hdata, hconveys w hw⟩

/-! ## Whatever the client reads -/

/-- The record states what the server released for this certificate. -/
structure Attests (V : Server) (P : Party) (out : Outcome) (w : VomsRecord) : Prop where
  /-- The FQANs are the database's, and those the proxy carried if it carried any. -/
  fqans : ∃ fqans ans, out.written = some fqans ∧ w.fqan = fqans.map cStr ∧ out.answer = some ans ∧
    ∀ f ∈ fqans, (f ∈ ans ∨ ∃ g ∈ ans, f = longFqan g) ∧ (V.existing ≠ [] → f ∈ V.existing)
  uri : w.voname ++ "://".toList ++ w.uri = cStr V.voname ++ "://".toList ++ cStr V.uri
  /-- The certificate has the serial number of the one the AC was issued to,
  and one of its names is that one's. -/
  holder : ∃ x, w.holder = some x ∧ x.serialNumber = P.holder.serialNumber ∧
    NamesCert [.dirName (if V.newformat then P.holder.issuer else P.holder.subject)] x ∧
    x.issuerUID = none

/-- An AC that a server issued, on any certificate and under any issuer. -/
theorem accepts_attests {F : Files} {unknown : Bool} {x : X509}
    (h : Issues V D (.start unknown) P message a) (hfull : s.verType = VERIFY_FULL)
    (hacc : Accepts F s (some x, a) w) :
    ∃ out, makeAC V D (.start unknown) P message = .ok out ∧ Attests V P out w := by
  obtain ⟨sel, vr, serial, fqans, attribs, out, hint, ha, hmake, hret, hwritten, -⟩ := h
  refine ⟨out, hmake, ?_⟩
  have hreleased : Released V out := by
    have hvr := (appends_interpretRequest (appends_start unknown) hint).adds (by decide)
    unfold makeAC at hmake
    rw [hint] at hmake
    exact issueAC_released hvr hmake
  obtain ⟨ans, hans, hfrom⟩ := hreleased.written fqans hwritten
  obtain ⟨time1, time2, attrs, targ, -, -, -, -, rfl⟩ := createac_ok ha
  obtain ⟨-, issuer, hissuer, v, hv, -, rfl⟩ := verifydata_some.mp hacc
  rw [IssuerOf, if_pos (by rw [hfull]; decide)] at hissuer
  obtain ⟨issuer, -, rfl, -, -⟩ := hissuer
  rw [hfull] at hv
  obtain ⟨-, -, hrest⟩ := validate_eq_ok.mp hv
  obtain ⟨hnames, -, -, als, -, v1, hattributes, rfl⟩ :=
    (validateRest_eq_ok rfl rfl rfl rfl rfl).mp hrest
  obtain ⟨point, hpoint, rfl⟩ := checkAttributes_written.mp hattributes
  obtain ⟨holder, _, hholder, hx, hcheck⟩ :=
    checkNames_verifyId (by decide) (hnames (by decide))
  cases hholder
  cases hx
  obtain ⟨hserial, ⟨names, hsome, hnamed⟩, huid⟩ := checkBaseId_eq_ok.mp hcheck
  exact
    { fqans := ⟨fqans, ans, hwritten, rfl, hans, hfrom⟩
      uri := (strstr_split hpoint).symm
      holder := by
        refine ⟨x, rfl, (Option.some.inj hserial).symm, ?_, huid.symm⟩
        cases hsome
        have hform : (if V.newformat then P.holder.issuer else P.holder.subject) =
            if !V.newformat then P.holder.subject else P.holder.issuer := by
          cases V.newformat <;> rfl
        rw [hform]
        exact hnamed }

/-- With the keys of the issuers that are selected for an AC only these
servers sign, and `ASN1_verify` does not fail. -/
structure Unforged (F : Files) (s : VomsData) (Serves : Server → Database → Party → Prop) :
    Prop where
  issued : ∀ ac x chain, Selected F s ac x chain → F.acVerify ac x.key = .good →
    ∃ V D P unknown message, Serves V D P ∧ Issues V D (.start unknown) P message ac
  verifies : ∀ ac key, F.acVerify ac key ≠ .error

/-- **Whatever an object reads, it believes the servers alone.** Each record
that calls add to an object which verifies everything states what a server
released for the certificate of the record. -/
theorem run_attested {Serves : Server → Database → Party → Prop} {s' : VomsData}
    {calls : List L4.Call} (hrun : Run (callStep C) s calls s') (hcalls : ∀ c ∈ calls, c.Holds)
    (hfull : s.verType = VERIFY_FULL) (hsafe : Unforged C.toFiles s Serves) :
    ∃ new, s'.data = s.data ++ new ∧ ∀ w ∈ new, ∃ V D P unknown message out, Serves V D P ∧
      makeAC V D (.start unknown) P message = .ok out ∧ Attests V P out w := by
  obtain ⟨-, new, hdata, hnew⟩ := run_grows hrun hcalls
  refine ⟨new, hdata, fun w hw => ?_⟩
  obtain ⟨x, ac, hacc⟩ := hnew w hw
  have hsign : has s.verType VERIFY_SIGN := by
    rw [hfull]
    decide
  obtain ⟨-, issuer, hissuer, v, hv, -, -⟩ := verifydata_some.mp hacc
  rw [IssuerOf, if_pos hsign] at hissuer
  obtain ⟨issuer, chain, rfl, hsel, -⟩ := hissuer
  have hbad : C.acVerify ac issuer.key ≠ .bad :=
    checkSignature_eq_ok.mp ((validate_eq_ok.mp hv).2.1 hsign)
  have hgood : C.acVerify ac issuer.key = .good := by
    have herror := hsafe.verifies ac issuer.key
    cases hverdict : C.acVerify ac issuer.key with
    | good => rfl
    | bad => exact absurd hverdict hbad
    | error => exact absurd hverdict herror
  obtain ⟨V, D, P, unknown, message, hserves, hissues⟩ := hsafe.issued ac issuer chain hsel hgood
  obtain ⟨out, hmake, hattests⟩ := accepts_attests hissues hfull hacc
  exact ⟨V, D, P, unknown, message, out, hserves, hmake, hattests⟩

end

/-! ## A user of the VO -/

namespace Sample

open Voms.L2.Sample (signer server user dawn noon fqan timesAgree)

/-- The AC of the user for the group of the VO. -/
def issued : Ac :=
  signInfo signer server ⟨20⟩ (fillInfo server user ⟨false, [7]⟩ false dawn noon
    (makeCapabilities [fqan] (some "vo".toList) (some "voms.example.org:15000".toList))
    (writtenExts signer server none [] "vo".toList "voms.example.org:15000".toList none))

def asked : Str := xmlReqEncode "G/vo".toList [] [] 43200

def groupSelected : Selection :=
  ⟨["G/vo".toList], [[]], 43200, "/vo".toList, "G/vo".toList, ⟨["/vo".toList], []⟩⟩

def groupOutcome : Outcome :=
  ⟨true, ⟨"coded".toList, [], [], true⟩, some ["/vo".toList], some [fqan]⟩

theorem answers : Answers timed (obliging ["/vo".toList]) party asked groupSelected issued
    groupOutcome where
  selects := ⟨{ VomsResult.new with base64 := true }, rfl⟩
  makes := rfl
  writes := ⟨⟨false, [7]⟩, rfl, rfl⟩
  ret := rfl
  ac := rfl
  data := rfl

/-- The code of the bytes `i2d_AC` leaves. -/
def codedEncode (s : Str) : Str := if s = "coded".toList then "Y29kZWQ=\n".toList else []

def codedDecode (s : Str) : Str := if s = "Y29kZWQ=\n".toList then "coded".toList else []

/-- A client that has the LSC file of the server. -/
def reader : Client :=
  { L4.Sample.files .good with
    openFile := fun path =>
      if path = "/etc/vomsdir/vo/voms.example.org.lsc".toList then some "/CN=voms\n/CN=ca".toList
      else none
    expat := plainParser answerProlog
    base64Decode := codedDecode
    d2iAcAt := fun buffer =>
      if h : buffer = "coded".toList then some (issued, ⟨[], by rw [h]; decide⟩) else none
    d2iX509At := fun _ => none
    acseq := fun _ => some (some [issued])
    incfile := fun _ => none
    vo := fun _ => none }

/-- The server speaks the old protocol only. -/
def network (answer : Str) : Network :=
  ⟨fun _ => .failed .VERR_COMM [], fun _ => .received answer, some user⟩

theorem brings (answer : Str) : Brings (network answer) 1 answer :=
  ⟨fun _ => ⟨_, _, rfl⟩, fun _ => .inr rfl, 0, Nat.zero_lt_one, rfl⟩

theorem trusting : Trusting timed party reader L4.Sample.client groupSelected issued where
  setting := ⟨rfl, timesAgree, fun _ => rfl, by decide, by decide⟩
  issuer := ⟨server, [server], rfl, ⟨_, _, rfl, rfl, rfl, rfl⟩, rfl⟩
  full := rfl
  serial := fun n hn => by
    cases hn
    decide

end Sample

/-- The user asks for the group of the VO, and the record is there. -/
theorem contact_delivers_sample : ∃ answer s' w,
    execute Sample.timed Sample.codedEncode (obliging ["/vo".toList]) Sample.party
      (some "0".toList) (some Sample.asked) = .ok answer ∧
    contact Sample.reader (Sample.network answer) L4.Sample.client = .ok (true, s') ∧
    s'.data = [w] ∧ w.fqan = [Voms.L2.Sample.fqan] := by
  have hexec : execute Sample.timed Sample.codedEncode (obliging ["/vo".toList]) Sample.party
      (some "0".toList) (some Sample.asked) = .ok _ := rfl
  obtain ⟨hiff, hrecord⟩ := contact_delivers (C := Sample.reader) (s := L4.Sample.client)
    Sample.answers hexec nofun
    (by decide) ⟨rfl, nofun, by decide, forall_mem_of_all (by decide)⟩
    ⟨rfl, fun _ => rfl, nofun, nofun⟩ (faithful_plainParser answerProlog) (by rfl) rfl
    (Sample.brings _) Sample.trusting
  have hreaches : ReachesHost Sample.timed.signer Sample.reader.toWorld
      Sample.groupSelected.targs := fun t ht => nomatch ht
  obtain ⟨s', hs'⟩ := hiff.mpr ⟨.inl rfl, rfl, hreaches⟩
  obtain ⟨w, hdata, hconveys⟩ := hrecord s' hs'
  exact ⟨_, s', w, hexec, hs', hdata, hconveys.fqan⟩

namespace Sample

open Voms.L2.Sample (user)

/-- A client for which nobody but the server signs. -/
def wary : Client :=
  { reader with
    asn1Verify := fun alg sig info _ =>
      if alg = issued.sigAlg ∧ sig = issued.signature ∧ info = issued.acinfo then .good else .bad }

/-- The server of the VO, for this user. -/
def serves (V : Server) (_ : Database) (P : Party) : Prop := V = timed ∧ P = party

theorem issues : Issues timed (obliging ["/vo".toList]) (.start false) party asked issued :=
  ⟨groupSelected, _, ⟨false, [7]⟩, [Voms.L2.Sample.fqan], [], groupOutcome, rfl, rfl, rfl, rfl,
    rfl, rfl⟩

theorem wary_eq {ac : Ac} {key : Option EvpPKey} (h : wary.acVerify ac key = .good) :
    ac = issued := by
  have hif : (if ac.sigAlg = issued.sigAlg ∧ ac.signature = issued.signature ∧
      ac.acinfo = issued.acinfo then Verdict.good else .bad) = .good := h
  split at hif
  · next heq =>
    obtain ⟨hinfo, halg, hsig⟩ := ac
    obtain ⟨rfl, rfl, rfl⟩ := heq
    rfl
  · cases hif

theorem unforged : Unforged wary.toFiles L4.Sample.client serves where
  issued ac x chain _ hgood := by
    obtain rfl := wary_eq hgood
    exact ⟨timed, _, party, false, asked, ⟨rfl, rfl⟩, issues⟩
  verifies ac key h := by
    have hif : (if ac.sigAlg = issued.sigAlg ∧ ac.signature = issued.signature ∧
        ac.acinfo = issued.acinfo then Verdict.good else .bad) = .error := h
    split at hif <;> cases hif

/-- The calls of a service that reads a certificate. -/
def reading : List L4.Call := [.retrieveCert (some user) none .RECURSE_NONE]

end Sample

/-- `run_attested` for a certificate with the AC of the VO. -/
theorem run_attested_sample : ∃ s' w, runCalls Sample.wary Sample.reading L4.Sample.client =
      .ok s' ∧ s'.data = [w] ∧
    ∃ V D P unknown message out, Sample.serves V D P ∧
      makeAC V D (.start unknown) P message = .ok out ∧ Attests V P out w := by
  obtain ⟨s', w, hs', hw⟩ : ∃ s' w, runCalls Sample.wary Sample.reading L4.Sample.client =
      .ok s' ∧ s'.data = [w] := ⟨_, _, rfl, rfl⟩
  obtain ⟨new, hdata, hnew⟩ := run_attested (run_of_runCalls hs')
    (fun c hc => by rw [List.mem_singleton.mp hc]; exact trivial) rfl Sample.unforged
  refine ⟨s', w, hs', hw, hnew w ?_⟩
  have hnil : L4.Sample.client.data = [] := rfl
  rw [hw, hnil, List.nil_append] at hdata
  rw [← hdata]
  exact List.mem_singleton_self w

end Voms.L5
