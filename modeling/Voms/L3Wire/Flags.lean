import Voms.L3Wire.Requests
import Voms.L3Wire.XmlAnswers

/-!
# The error flags of the XML decoders

The handlers of `src/common/xmlcc.cc` note in `error` that a document nests
too deep or that an AC or a bit string decodes to nothing, and from then on
leave the message alone. `XML_Req_Decode` and `XML_Ans_Decode` return what
`XML_Parse` says and never look at the flag, so a document that is
well-formed XML is accepted with what was read up to the error.

* `reqClean_iff`, `ansClean_iff`: exactly which handler calls set no flag.
* `reports_iff`: those are the documents on which the decoders do report
  every error.
-/
namespace Voms.L3

open Voms.Core

/-! ## Requests -/

/-- `depth` elements are open: no tag behind goes below 0 or above 2. -/
def ReqClean : Nat → List XmlEvent → Prop
  | _, [] => True
  | depth, .start _ :: es => depth ≠ 2 ∧ ReqClean (depth + 1) es
  | depth, .stop _ :: es => depth ≠ 0 ∧ ReqClean (depth - 1) es
  | depth, .text _ :: es => ReqClean depth es

theorem reqStep_error (d : ReqState) (e : XmlEvent) (h : d.error = true) :
    ReqState.step d e = d := by
  cases e <;> simp [ReqState.step, startreq, endreq, handlerreq, h]

/-- The flag stays set. -/
theorem reqFold_error (es : List XmlEvent) : ∀ d : ReqState, d.error = true →
    es.foldl ReqState.step d = d := by
  induction es with
  | nil => exact fun _ _ => rfl
  | cons e es ih =>
    intro d h
    rw [List.foldl_cons, reqStep_error d e h, ih d h]

/-- The handlers set the flag exactly outside of the depths 0 to 2. -/
theorem reqClean_iff (es : List XmlEvent) : ∀ d : ReqState, d.error = false →
    ((es.foldl ReqState.step d).error = false ↔ ReqClean d.depth es) := by
  induction es with
  | nil => exact fun d h => iff_of_true h trivial
  | cons e es ih =>
    intro d h
    rw [List.foldl_cons]
    cases e with
    | start name =>
      by_cases hdeep : d.depth = 2
      · have hstep : ReqState.step d (.start name) = { d with error := true } := by
          simp [ReqState.step, startreq, h, hdeep]
        rw [hstep, reqFold_error es _ rfl]
        exact iff_of_false (by simp) fun hc => hc.1 hdeep
      · have hstep : ReqState.step d (.start name) =
            { d with depth := d.depth + 1, value := [] } := by
          simp [ReqState.step, startreq, h, hdeep]
        rw [hstep]
        exact (ih { d with depth := d.depth + 1, value := [] } h).trans (and_iff_right hdeep).symm
    | stop name =>
      by_cases hnone : d.depth = 0
      · have hstep : ReqState.step d (.stop name) = { d with error := true } := by
          simp [ReqState.step, endreq, h, hnone]
        rw [hstep, reqFold_error es _ rfl]
        exact iff_of_false (by simp) fun hc => hc.1 hnone
      · have hstep : ReqState.step d (.stop name) =
            { d with depth := d.depth - 1, r := setField d.r name d.value, value := [] } := by
          simp [ReqState.step, endreq, h, hnone]
        rw [hstep]
        exact (ih { d with depth := d.depth - 1, r := setField d.r name d.value, value := [] }
          h).trans (and_iff_right hnone).symm
    | text s =>
      have hstep : ReqState.step d (.text s) = { d with value := s } := by
        simp [ReqState.step, handlerreq, h]
      rw [hstep]
      exact ih { d with value := s } h

/-! ## Answers -/

variable {X : Wire}

/-- `depth` elements are open, `value` is the text since the last tag and
`numbered` says whether there is a number for an `error`: no tag behind goes
below 0 or above 4, and every AC and bit string decodes to something. Where
the decoder leaves defined behaviour there is nothing more to ask for. -/
def AnsClean (X : Wire) : Nat → Str → Bool → List XmlEvent → Prop
  | _, _, _, [] => True
  | depth, _, numbered, .start _ :: es => depth ≠ 4 ∧ AnsClean X (depth + 1) [] numbered es
  | depth, value, numbered, .text s :: es => AnsClean X depth (value ++ s) numbered es
  | depth, value, numbered, .stop name :: es =>
    depth ≠ 0 ∧
      if name = "ac".toList ∨ name = "bitstr".toList then
        decode X value ≠ .ok [] ∧
          ((∃ s, decode X value = .ok s) → AnsClean X (depth - 1) [] numbered es)
      else
        (name = "error".toList → numbered = true) →
          AnsClean X (depth - 1) []
            (numbered || ((name = "number".toList ∨ name = "code".toList) ∧ depth = 4)) es

theorem ansStep_error (s : AnsState) (e : XmlEvent) (h : s.error = true) :
    ∃ s', AnsState.step X s e = .ok s' ∧ s'.error = true := by
  cases e with
  | start name =>
    refine ⟨startans s, rfl, ?_⟩
    unfold startans
    split
    · rfl
    · exact h
  | stop name => exact ⟨{ s with error := true }, by simp [AnsState.step, endans, h], rfl⟩
  | text str => exact ⟨s, by simp [AnsState.step, handlerans, h], h⟩

/-- The flag stays set, and nothing is decoded any more. -/
theorem ansFold_error (es : List XmlEvent) : ∀ s : AnsState, s.error = true →
    ∃ s', es.foldlM (AnsState.step X) s = .ok s' ∧ s'.error = true := by
  induction es with
  | nil => exact fun s h => ⟨s, rfl, h⟩
  | cons e es ih =>
    intro s h
    obtain ⟨t, ht, herr⟩ := @ansStep_error X s e h
    rw [List.foldlM_cons, ht, Res.ok_bind]
    exact ih t herr

/-- The end tag of an AC or a bit string. -/
theorem setAnswer_code {s : AnsState} {name : Str}
    (hcode : name = "ac".toList ∨ name = "bitstr".toList) :
    ∃ t : Str → AnsState, setAnswer X s name = decode X s.value >>= (fun v => .ok (t v)) ∧
      ∀ v, (t v).error = v.isEmpty ∧ (t v).depth = s.depth ∧ (t v).num = s.num := by
  unfold setAnswer
  rcases hcode with rfl | rfl
  · rw [if_pos rfl]
    exact ⟨_, rfl, fun v => ⟨rfl, rfl, rfl⟩⟩
  · rw [if_neg (by decide), if_pos rfl]
    exact ⟨_, rfl, fun v => ⟨rfl, rfl, rfl⟩⟩

/-- What an end tag other than that of an AC or a bit string does. -/
theorem setAnswer_other {s : AnsState} {name : Str}
    (hcode : ¬ (name = "ac".toList ∨ name = "bitstr".toList))
    (hnum : name = "error".toList → s.num.isSome = true) :
    ∃ s', setAnswer X s name = .ok s' ∧ s'.error = s.error ∧ s'.depth = s.depth ∧
      s'.num.isSome =
        (s.num.isSome || ((name = "number".toList ∨ name = "code".toList) ∧ s.depth = 3)) := by
  rw [not_or] at hcode
  unfold setAnswer
  rw [if_neg hcode.1, if_neg hcode.2]
  by_cases herror : name = "error".toList
  · obtain ⟨num, hsome⟩ := Option.isSome_iff_exists.mp (hnum herror)
    rw [if_pos herror, hsome]
    subst herror
    exact ⟨_, rfl, rfl, rfl, by simp⟩
  rw [if_neg herror]
  split
  · next h => exact ⟨_, rfl, rfl, rfl, by simp [h]⟩
  next hnumber =>
  split
  · next h =>
    obtain ⟨rfl, -⟩ := h
    refine ⟨_, rfl, rfl, rfl, ?_⟩
    rw [decide_eq_false (by rintro ⟨h | h, -⟩ <;> exact absurd h (by decide)), Bool.or_false]
  split
  · next h =>
    subst h
    refine ⟨_, rfl, rfl, rfl, ?_⟩
    rw [decide_eq_false (by rintro ⟨h | h, -⟩ <;> exact absurd h (by decide)), Bool.or_false]
  split
  · next h => exact ⟨_, rfl, rfl, rfl, by simp [h]⟩
  next hcode =>
  have hrest : ¬ ((name = "number".toList ∨ name = "code".toList) ∧ s.depth = 3) := by
    rintro ⟨h | h, hdepth⟩
    · exact hnumber ⟨h, hdepth⟩
    · exact hcode ⟨h, hdepth⟩
  split
  · exact ⟨_, rfl, rfl, rfl, by rw [decide_eq_false hrest, Bool.or_false]⟩
  · exact ⟨_, rfl, rfl, rfl, by rw [decide_eq_false hrest, Bool.or_false]⟩

/-- The handlers set the flag somewhere. -/
def Flagged (X : Wire) (s : AnsState) (es : List XmlEvent) : Prop :=
  ∃ s', es.foldlM (AnsState.step X) s = .ok s' ∧ s'.error = true

theorem flagged_cons {s t : AnsState} {e : XmlEvent} {es : List XmlEvent}
    (h : AnsState.step X s e = .ok t) : Flagged X s (e :: es) ↔ Flagged X t es := by
  rw [Flagged, List.foldlM_cons, h, Res.ok_bind]
  rfl

theorem not_flagged_fault {s : AnsState} {e : XmlEvent} {es : List XmlEvent} {f : Fault}
    (h : AnsState.step X s e = .fault f) : ¬ Flagged X s (e :: es) := by
  rw [Flagged, List.foldlM_cons, h]
  rintro ⟨_, h, -⟩
  cases h

theorem flagged_error {s t : AnsState} {e : XmlEvent} {es : List XmlEvent}
    (h : AnsState.step X s e = .ok t) (herr : t.error = true) : Flagged X s (e :: es) :=
  (flagged_cons h).mpr (ansFold_error es t herr)

theorem step_stop {s : AnsState} (name : Str) (herr : s.error = false) (hdepth : s.depth ≠ 0) :
    AnsState.step X s (.stop name) =
      setAnswer X { s with depth := s.depth - 1 } name >>= fun s => .ok { s with value := [] } := by
  rw [AnsState.step, endans, if_neg (by simp [herr, hdepth])]
  rfl

/-- The end of an AC or a bit string; `ih` is about the events behind it. -/
theorem flagged_code {s : AnsState} {name : Str} {es : List XmlEvent} (herr : s.error = false)
    (hdepth : s.depth ≠ 0) (hcode : name = "ac".toList ∨ name = "bitstr".toList)
    (ih : ∀ t : AnsState, t.error = false →
      (Flagged X t es ↔ ¬ AnsClean X t.depth t.value t.num.isSome es)) :
    Flagged X s (.stop name :: es) ↔ ¬ AnsClean X s.depth s.value s.num.isSome (.stop name :: es) := by
  obtain ⟨t, ht, hkeeps⟩ := @setAnswer_code X { s with depth := s.depth - 1 } name hcode
  have hstep : AnsState.step X s (.stop name) =
      (decode X s.value >>= fun v => .ok (t v)) >>= fun s => .ok { s with value := [] } := by
    rw [step_stop name herr hdepth, ht]
  rw [AnsClean, and_iff_right hdepth, if_pos hcode]
  rcases evalCases (decode X s.value) with ⟨v, hv⟩ | ⟨f, hf⟩
  · rw [hv, Res.ok_bind, Res.ok_bind] at hstep
    obtain ⟨hflag, hdep, hnum⟩ := hkeeps v
    cases v with
    | nil => exact iff_of_true (flagged_error hstep hflag) fun hc => hc.1 hv
    | cons c v =>
      have hne : decode X s.value ≠ .ok [] := by simp [hv]
      rw [flagged_cons hstep, and_iff_right hne, forall_prop_of_true ⟨_, hv⟩,
        ih { t (c :: v) with value := [] } hflag]
      show ¬ AnsClean X (t (c :: v)).depth [] (t (c :: v)).num.isSome es ↔ _
      rw [hdep, hnum]
  · rw [hf] at hstep
    refine iff_of_false (not_flagged_fault hstep) (not_not_intro ⟨by simp [hf], ?_⟩)
    rintro ⟨v, hv⟩
    rw [hf] at hv
    cases hv

/-- The end of another element. -/
theorem flagged_other {s : AnsState} {name : Str} {es : List XmlEvent} (herr : s.error = false)
    (hdepth : s.depth ≠ 0) (hcode : ¬ (name = "ac".toList ∨ name = "bitstr".toList))
    (ih : ∀ t : AnsState, t.error = false →
      (Flagged X t es ↔ ¬ AnsClean X t.depth t.value t.num.isSome es)) :
    Flagged X s (.stop name :: es) ↔ ¬ AnsClean X s.depth s.value s.num.isSome (.stop name :: es) := by
  have hstep := @step_stop X s name herr hdepth
  rw [AnsClean, and_iff_right hdepth, if_neg hcode]
  by_cases hnum : name = "error".toList → s.num.isSome = true
  · obtain ⟨t, ht, hflag, hdep, hisSome⟩ :=
      @setAnswer_other X { s with depth := s.depth - 1 } name hcode hnum
    rw [ht, Res.ok_bind] at hstep
    rw [flagged_cons hstep, forall_prop_of_true hnum, ih { t with value := [] } (hflag.trans herr)]
    show ¬ AnsClean X t.depth [] t.num.isSome es ↔ _
    have hthree : (s.depth - 1 = 3) = (s.depth = 4) := propext (by omega)
    rw [hdep, hisSome]
    simp only [hthree]
  · refine iff_of_false ?_ (not_not_intro fun h => absurd h hnum)
    rw [Classical.not_imp] at hnum
    obtain ⟨rfl, hnone⟩ := hnum
    have hnone : s.num = none := by simpa using hnone
    have hfault : setAnswer X { s with depth := s.depth - 1 } "error".toList = .fault .uninit := by
      unfold setAnswer
      rw [if_neg (by decide), if_neg (by decide), if_pos rfl]
      simp only [hnone]
    rw [hfault] at hstep
    exact not_flagged_fault hstep

/-- The handlers set the flag exactly on what is not clean. -/
theorem ansClean_iff (es : List XmlEvent) : ∀ s : AnsState, s.error = false →
    (Flagged X s es ↔ ¬ AnsClean X s.depth s.value s.num.isSome es) := by
  induction es with
  | nil =>
    intro s herr
    refine iff_of_false ?_ (by simp [AnsClean])
    rintro ⟨_, h, herr'⟩
    cases h
    exact Bool.false_ne_true (herr.symm.trans herr')
  | cons e es ih =>
    intro s herr
    cases e with
    | text str =>
      have hstep : AnsState.step X s (.text str) = .ok { s with value := s.value ++ str } := by
        simp [AnsState.step, handlerans, herr]
      rw [flagged_cons hstep]
      exact ih { s with value := s.value ++ str } herr
    | start name =>
      by_cases hdeep : s.depth = 4
      · have hstep : AnsState.step X s (.start name) = .ok { s with error := true } := by
          simp [AnsState.step, startans, hdeep]
        exact iff_of_true (flagged_error hstep rfl) fun hc => hc.1 hdeep
      · have hstep : AnsState.step X s (.start name) =
            .ok { s with depth := s.depth + 1, value := [] } := by
          simp [AnsState.step, startans, hdeep]
        rw [flagged_cons hstep, AnsClean, and_iff_right hdeep]
        exact ih { s with depth := s.depth + 1, value := [] } herr
    | stop name =>
      by_cases hnone : s.depth = 0
      · have hstep : AnsState.step X s (.stop name) = .ok { s with error := true } := by
          simp [AnsState.step, endans, hnone]
        exact iff_of_true (flagged_error hstep rfl) fun hc => hc.1 hnone
      · by_cases hcode : name = "ac".toList ∨ name = "bitstr".toList
        · exact flagged_code herr hnone hcode ih
        · exact flagged_other herr hnone hcode ih

/-! ## The results -/

/-- A well-formed message on which a request handler sets the flag is refused. -/
def ReqReports (X : Wire) (message : Str) : Prop :=
  ∀ events, X.expat message = (events, true) →
    (events.foldl ReqState.step .new).error = true → xmlReqDecode X message = none

/-- The same for an answer. -/
def AnsReports (X : Wire) (message : Str) : Prop :=
  ∀ events, X.expat message = (events, true) → Flagged X .new events →
    xmlAnsDecode X message = .ok none

theorem reqReports_iff (X : Wire) (message : Str) : ReqReports X message ↔
    ∀ events, X.expat message = (events, true) → ReqClean 0 events := by
  refine forall_congr' fun events => forall_congr' fun hparse => ?_
  have hclean := reqClean_iff events .new rfl
  have hsome : xmlReqDecode X message ≠ none := by simp [xmlReqDecode, hparse]
  change _ ↔ ReqClean 0 events at hclean
  rw [← hclean]
  simp only [hsome, imp_false, Bool.not_eq_true]

theorem ansReports_iff (X : Wire) (message : Str) : AnsReports X message ↔
    ∀ events, X.expat message = (events, true) → AnsClean X 0 [] false events := by
  refine forall_congr' fun events => forall_congr' fun hparse => ?_
  have hclean := @ansClean_iff X events .new rfl
  change _ ↔ ¬ AnsClean X 0 [] false events at hclean
  constructor
  · intro hreports
    by_contra hnot
    obtain ⟨s, hs, herr⟩ := hclean.mpr hnot
    have hnone := hreports ⟨s, hs, herr⟩
    simp [xmlAnsDecode, hparse, hs] at hnone
  · intro h hflag
    exact absurd h (hclean.mp hflag)

/-- **The decoders report the errors of a document exactly if it has none.** -/
theorem reports_iff (X : Wire) (message : Str) :
    (ReqReports X message ↔
      ∀ events, X.expat message = (events, true) → ReqClean 0 events) ∧
    (AnsReports X message ↔
      ∀ events, X.expat message = (events, true) → AnsClean X 0 [] false events) :=
  ⟨reqReports_iff X message, ansReports_iff X message⟩

namespace Sample

/-- A request with an element inside its command. -/
def deepRequest : Document :=
  element "voms".toList (leaf "order".toList "/vo".toList ++
    element "command".toList (run "A".toList ++ leaf "b".toList []))

/-- An answer with an empty AC. -/
def emptyAnswer : Document :=
  element "vomsans".toList (leaf "version".toList "3".toList ++ leaf "ac".toList [])

def answerWire : Wire where
  expat := plainParser answerProlog
  base64Decode := base64Decode

end Sample

/-- Both are accepted: the one without its command, the other without an AC. -/
theorem reports_fails :
    (wellFormed Sample.deepRequest = true ∧
      xmlReqDecode Sample.wire (requestProlog ++ render Sample.deepRequest) =
        some ⟨"/vo".toList, [], [], 0, false, 0⟩ ∧
      ¬ ReqReports Sample.wire (requestProlog ++ render Sample.deepRequest)) ∧
    (wellFormed Sample.emptyAnswer = true ∧
      xmlAnsDecode Sample.answerWire (answerProlog ++ render Sample.emptyAnswer) =
        .ok (some ⟨[], [], [], 3⟩) ∧
      ¬ AnsReports Sample.answerWire (answerProlog ++ render Sample.emptyAnswer)) := by
  have hreq : Sample.wire.expat (requestProlog ++ render Sample.deepRequest) =
      (Sample.deepRequest, true) := by rfl
  have hans : Sample.answerWire.expat (answerProlog ++ render Sample.emptyAnswer) =
      (Sample.emptyAnswer, true) := by rfl
  refine ⟨⟨by decide, rfl, fun h => ?_⟩, by decide, rfl, fun h => ?_⟩
  · have hnone := h _ hreq (by decide)
    simp [xmlReqDecode, hreq] at hnone
  · have hflag : Flagged Sample.answerWire .new Sample.emptyAnswer := ⟨_, rfl, rfl⟩
    have hnone := h _ hans hflag
    obtain ⟨s, hs, -⟩ := hflag
    simp [xmlAnsDecode, hans, hs] at hnone

end Voms.L3
