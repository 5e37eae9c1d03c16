import Voms.L3Wire.XmlAnswers
import Voms.L5Server.MakeAC

/-!
# The answer to a GET

`vomsresult::makeRESTAnswer` (`src/server/vomsd.cc`) writes an answer whose
elements stand elsewhere than in the answer to a request in XML, and
`XML_Ans_Decode` reads both. Every branch of the `switch` sets the status,
so the loop ends behind the first error or warning and the status is that of
a failure; and the code and the message of an error are one level too high
for the decoder, which then stores a number it was never given.
`makeRESTAnswer_faithful_iff`: what is read is what was meant exactly if
there is neither an error nor a warning.
-/
namespace Voms.L5

open Voms.Core Voms.L3

/-! ## The writer -/

/-- What `soap_response` sends as success; mirrors src/server/stdsoap2.h:987 -/
def SOAP_HTML : Int := 1002

/-- The `switch`: the text for an error and the status.
mirrors src/server/vomsd.cc:106-131 -/
def restCode (i : Errorp) : Str × Int :=
  if i.num = ERR_SUSPENDED then ("SuspendedUser".toList, 403)
  else if i.num = ERR_NOT_MEMBER then
    if strstr "Unable to satisfy".toList (cStr i.message) = none then ("NoSuchUser".toList, 403)
    else ("BadRequest".toList, 400)
  else if i.num = ERR_NO_COMMAND then ("BadRequest".toList, 400)
  else ("InternalError".toList, 500)

/-- The loop over the errors. mirrors src/server/vomsd.cc:98-140 -/
def restErrors : List Errorp → Int → Str × Int
  | [], code => ([], code)
  | i :: errs, _ =>
    let (strcode, code) := restCode i
    let output :=
      if i.num < ERROR_OFFSET then "<warning>".toList ++ i.message ++ "</warning>".toList
      else "<error><code>".toList ++ strcode ++ "</code><message>".toList ++ i.message ++
        "</message></error>".toList
    if code ≠ SOAP_HTML then (output, code)
    else
      let (rest, code) := restErrors errs code
      (output ++ rest, code)

/-- mirrors src/server/vomsd.cc:87-143 -/
def VomsResult.makeRESTAnswer (base64Encode : Str → Str) (vr : VomsResult) : Str × Int :=
  let (errors, code) := restErrors vr.errs SOAP_HTML
  ("<?xml version=\"1.0\" encoding=\"UTF-8\"?><voms>".toList ++
    (if vr.ac ≠ "A".toList ∧ vr.ac ≠ [] then
      "<ac>".toList ++ encode base64Encode vr.ac true ++ "</ac>".toList else []) ++
    (if vr.data ≠ [] then
      "<bitstr>".toList ++ encode base64Encode vr.data true ++ "</bitstr>".toList else []) ++
    errors ++ "</voms>".toList, code)

/-- The AC of the result, if one was made. -/
def VomsResult.issued (vr : VomsResult) : Str := if vr.ac = "A".toList then [] else vr.ac

/-! ## The loop -/

theorem restCode_ne (i : Errorp) : (restCode i).2 ≠ SOAP_HTML := by
  unfold restCode
  split
  · decide
  · split
    · split <;> decide
    · split <;> decide

/-- The element for an error or a warning. -/
def errorDoc (i : Errorp) : Document :=
  if i.num < ERROR_OFFSET then leaf "warning".toList i.message
  else element "error".toList (leaf "code".toList (restCode i).1 ++
    leaf "message".toList i.message)

/-- The first one ends the loop. -/
theorem restErrors_cons (i : Errorp) (errs : List Errorp) (code : Int) :
    restErrors (i :: errs) code = (render (errorDoc i), (restCode i).2) := by
  have hne := restCode_ne i
  unfold restErrors errorDoc
  generalize restCode i = sc at hne
  obtain ⟨strcode, code⟩ := sc
  simp only at hne ⊢
  rw [if_pos hne]
  by_cases hw : i.num < ERROR_OFFSET
  · rw [if_pos hw, if_pos hw, render_leaf]
    rfl
  · rw [if_neg hw, if_neg hw, render_element, render_append, render_leaf, render_leaf]
    simp

/-! ## The document -/

def restProlog : Str := "<?xml version=\"1.0\" encoding=\"UTF-8\"?>".toList

/-- What is written of the errors. -/
def errorsRest : List Errorp → Document
  | [] => []
  | i :: _ => errorDoc i

def restDoc (codedac codeddata : Str) (errs : List Errorp) : Document :=
  element "voms".toList (optional "ac".toList codedac ++
    (optional "bitstr".toList codeddata ++ errorsRest errs))

variable {base64Encode base64Decode : Str → Str} {vr : VomsResult}

/-- The codes are those of `BIO_f_base64`, and the AC and the data are bytes. -/
structure Coded (base64Encode base64Decode : Str → Str) (vr : VomsResult) : Prop where
  ac_bytes : Bytes vr.issued
  data_bytes : Bytes vr.data
  ac_base64 : Base64 base64Encode base64Decode vr.issued
  data_base64 : Base64 base64Encode base64Decode vr.data

theorem render_errorsRest (errs : List Errorp) :
    (restErrors errs SOAP_HTML).1 = render (errorsRest errs) := by
  cases errs with
  | nil => rfl
  | cons i errs => rw [restErrors_cons]; rfl

theorem makeRESTAnswer_eq (h : Coded base64Encode base64Decode vr) :
    (vr.makeRESTAnswer base64Encode).1 = restProlog ++ render (restDoc
      (encode base64Encode vr.issued true) (encode base64Encode vr.data true) vr.errs) := by
  let X : Wire := ⟨fun _ => ([], false), base64Decode⟩
  have hac := @encode_eq_nil X base64Encode vr.issued true h.ac_base64
  have hdata := @encode_eq_nil X base64Encode vr.data true h.data_base64
  have hacText : (if vr.ac ≠ "A".toList ∧ vr.ac ≠ [] then
      "<ac>".toList ++ encode base64Encode vr.ac true ++ "</ac>".toList else []) =
      render (optional "ac".toList (encode base64Encode vr.issued true)) := by
    rw [render_optional]
    by_cases hA : vr.ac = "A".toList
    · have hnil : vr.issued = [] := by rw [VomsResult.issued, if_pos hA]
      rw [if_neg (fun e => e.1 hA), if_pos (hac.mpr hnil)]
    · have hsame : vr.issued = vr.ac := by rw [VomsResult.issued, if_neg hA]
      rw [hsame] at hac ⊢
      by_cases hnil : vr.ac = []
      · rw [if_neg (fun e => e.2 hnil), if_pos (hac.mpr hnil)]
      · rw [if_pos ⟨hA, hnil⟩, if_neg (fun e => hnil (hac.mp e))]
        rfl
  have hdataText : (if vr.data ≠ [] then
      "<bitstr>".toList ++ encode base64Encode vr.data true ++ "</bitstr>".toList else []) =
      render (optional "bitstr".toList (encode base64Encode vr.data true)) := by
    rw [render_optional]
    by_cases hnil : vr.data = []
    · rw [if_neg (fun e => e hnil), if_pos (hdata.mpr hnil)]
    · rw [if_pos hnil, if_neg (fun e => hnil (hdata.mp e))]
      rfl
  have hlead : "<?xml version=\"1.0\" encoding=\"UTF-8\"?><voms>".toList =
      restProlog ++ "<voms>".toList := rfl
  unfold VomsResult.makeRESTAnswer
  have herrors := render_errorsRest vr.errs
  generalize restErrors vr.errs SOAP_HTML = errors at herrors
  obtain ⟨text, code⟩ := errors
  simp only at herrors ⊢
  rw [hacText, hdataText, hlead, herrors, restDoc, render_element]
  simp only [render_append, List.append_assoc]
  rfl

theorem charData_restCode (i : Errorp) : charData (restCode i).1 = true := by
  unfold restCode
  split
  · decide
  · split
    · split <;> decide
    · split <;> decide

theorem balanced_errorsRest {errs : List Errorp}
    (h : ∀ i ∈ errs.head?, charData i.message = true) : Balanced (errorsRest errs) := by
  cases errs with
  | nil => exact .nil
  | cons i errs =>
    have hi : charData i.message = true := h i (by simp)
    show Balanced (errorDoc i)
    unfold errorDoc
    split
    · exact .leaf (by decide) hi
    · exact .element (by decide) ((Balanced.leaf (by decide) (charData_restCode i)).append
        (.leaf (by decide) hi))

/-! ## The reader -/

variable {X : Wire} {a : Answer} {num : Option Int} {message : Str}

theorem fold_warning (v : Str) :
    (leaf "warning".toList v).foldlM (AnsState.step X) (answering a [] 1 num message) =
      .ok (answering { a with errs := a.errs ++ [⟨WARN_OFFSET, v⟩] } [] 1 num message) := by
  rw [fold_leafAns _ _ (by decide)]
  rfl

/-- Code and message stand one level above where they are looked for. -/
theorem fold_errorElement (strcode v : Str) :
    (element "error".toList (leaf "code".toList strcode ++
        leaf "message".toList v)).foldlM (AnsState.step X) (answering a [] 1 none message) =
      .fault .uninit := by
  have hcode : setAnswer X (answering a strcode 2 none message) "code".toList =
      .ok (answering a strcode 2 none message) := rfl
  have hmessage : setAnswer X (answering a v 2 none message) "message".toList =
      .ok (answering a v 2 none message) := rfl
  rw [fold_elementAns _ _ (by decide), List.foldlM_append, fold_leafAns _ _ (by decide), hcode,
    Res.ok_bind, Res.ok_bind]
  have hagain : ({ answering a strcode 2 none message with value := [] } : AnsState) =
      answering a [] 2 none message := rfl
  rw [hagain, fold_leafAns _ _ (by decide), hmessage]
  rfl

/-- The AC and the data, and then the errors. -/
theorem fold_rest (h : Coded base64Encode X.base64Decode vr) :
    (restDoc (encode base64Encode vr.issued true) (encode base64Encode vr.data true)
        vr.errs).foldlM (AnsState.step X) .new =
      (errorsRest vr.errs).foldlM (AnsState.step X)
        (answering ⟨vr.data, vr.issued, [], 0⟩ [] 1 none []) >>= fun s =>
        endans X s "voms".toList := by
  have hnew : AnsState.new = answering ⟨[], [], [], 0⟩ [] 0 none [] := rfl
  rw [restDoc, hnew, fold_elementAns _ _ (by decide), List.foldlM_append,
    fold_ac h.ac_bytes h.ac_base64 rfl, Res.ok_bind, List.foldlM_append,
    fold_bitstr h.data_bytes h.data_base64 rfl, Res.ok_bind]

/-- What a faithful parser makes of an answer whose one message is character
data. -/
theorem xmlAnsDecode_rest {expat : Str → List XmlEvent × Bool} (hX : Faithful restProlog expat)
    (h : Coded base64Encode base64Decode vr)
    (hhead : ∀ i ∈ vr.errs.head?, charData i.message = true) :
    xmlAnsDecode ⟨expat, base64Decode⟩ (vr.makeRESTAnswer base64Encode).1 =
      (errorsRest vr.errs).foldlM (AnsState.step ⟨expat, base64Decode⟩)
        (answering ⟨vr.data, vr.issued, [], 0⟩ [] 1 none []) >>= fun s =>
        endans ⟨expat, base64Decode⟩ s "voms".toList >>= fun s => .ok (some s.a) := by
  let X : Wire := ⟨expat, base64Decode⟩
  have hcoded : Coded base64Encode X.base64Decode vr := h
  have hwell : wellFormed (restDoc (encode base64Encode vr.issued true)
      (encode base64Encode vr.data true) vr.errs) = true :=
    wellFormed_element (by decide)
      ((Balanced.optional (by decide) (charData_encode hcoded.ac_bytes hcoded.ac_base64)).append
        ((Balanced.optional (by decide)
          (charData_encode hcoded.data_bytes hcoded.data_base64)).append
          (balanced_errorsRest hhead)))
  obtain ⟨es, hes, hx⟩ := hX _ hwell
  have hfold := chunks_ans (X := X) hes .new
  rw [fold_rest hcoded] at hfold
  unfold xmlAnsDecode
  rw [makeRESTAnswer_eq h]
  simp only [hx]
  rw [hfold, bind_assoc]
  rfl

/-! ## Both together -/

/-- The record stands for the error or the warning. -/
def Represents (e f : Errorp) : Prop :=
  f.message = e.message ∧ (ERROR_OFFSET < f.num ↔ ERROR_OFFSET < e.num) ∧
    (e.num = ERR_SUSPENDED ∨ e.num = ERR_NOT_MEMBER → f.num = e.num)

/-- A client reads what the server meant. -/
structure RestFaithful (base64Encode base64Decode : Str → Str) (vr : VomsResult) : Prop where
  decoded : ∀ expat, Faithful restProlog expat → ∃ a,
    xmlAnsDecode ⟨expat, base64Decode⟩ (vr.makeRESTAnswer base64Encode).1 = .ok (some a) ∧
      a.ac = vr.issued ∧ a.data = vr.data ∧ ∀ e ∈ vr.errs, ∃ f ∈ a.errs, Represents e f
  status : (vr.makeRESTAnswer base64Encode).2 = SOAP_HTML ↔
    ∀ e ∈ vr.errs, ¬ ERROR_OFFSET < e.num

theorem status_eq (vr : VomsResult) :
    (vr.makeRESTAnswer base64Encode).2 = (restErrors vr.errs SOAP_HTML).2 := rfl

/-- Of the first error no record is read, and behind it nothing is written. -/
theorem not_restFaithful_cons (h : Coded base64Encode base64Decode vr) {i : Errorp}
    {errs : List Errorp} (hcons : vr.errs = i :: errs) :
    ¬ RestFaithful base64Encode base64Decode vr := by
  intro hfaith
  obtain ⟨a, ha, -, -, hrecords⟩ := hfaith.decoded _ (faithful_plainParser restProlog)
  rw [hcons] at hrecords
  obtain ⟨f, hf, hmessage, -⟩ := hrecords i (List.mem_cons_self ..)
  -- the message is read only if it is character data
  have hi : charData i.message = true := hmessage ▸ tidy_plainParser ha f hf
  rw [xmlAnsDecode_rest (faithful_plainParser restProlog) h (by simpa [hcons] using hi), hcons] at ha
  have hdoc : errorsRest (i :: errs) = errorDoc i := rfl
  rw [hdoc] at ha
  unfold errorDoc at ha
  by_cases hw : i.num < ERROR_OFFSET
  · rw [if_pos hw, fold_warning, Res.ok_bind, endans_eq] at ha
    cases ha
    -- so there is no error at all, and yet the status is one
    refine restCode_ne i ?_
    have hstatus := hfaith.status.mpr fun e he hsevere => ?_
    · rw [status_eq, hcons, restErrors_cons] at hstatus
      exact hstatus
    · rw [hcons] at he
      obtain ⟨g, hg, -, hside, -⟩ := hrecords e he
      have hg : g = ⟨WARN_OFFSET, i.message⟩ := List.mem_singleton.mp hg
      rw [hg] at hside
      exact absurd (hside.mpr hsevere) (by decide : ¬ ERROR_OFFSET < WARN_OFFSET)
  · rw [if_neg hw, fold_errorElement] at ha
    cases ha

/-- **The answer to a GET is read as it was meant exactly if it has neither
errors nor warnings.** -/
theorem makeRESTAnswer_faithful_iff (h : Coded base64Encode base64Decode vr) :
    RestFaithful base64Encode base64Decode vr ↔ vr.errs = [] := by
  constructor
  · intro hfaith
    cases hcons : vr.errs with
    | nil => rfl
    | cons i errs => exact absurd hfaith (not_restFaithful_cons h hcons)
  · intro hnil
    refine ⟨fun expat hX => ⟨⟨vr.data, vr.issued, [], 0⟩, ?_, rfl, rfl, ?_⟩, ?_⟩
    · rw [xmlAnsDecode_rest hX h (by simp [hnil]), hnil]
      rfl
    · rw [hnil]
      nofun
    · rw [status_eq, hnil]
      exact iff_of_true rfl nofun

namespace Sample

/-- The code of two bytes, as `BIO_f_base64` writes it. -/
def encodeTwo (s : Str) : Str := if s = "aa".toList then "YWE=\n".toList else []

def decodeTwo (s : Str) : Str := if s = "YWE=\n".toList then "aa".toList else []

/-- Two bytes for an AC, and these errors. -/
def result (errs : List Errorp) : VomsResult := ⟨"aa".toList, [], errs, true⟩

theorem coded (errs : List Errorp) : Coded encodeTwo decodeTwo (result errs) :=
  have hac : Base64 encodeTwo decodeTwo "aa".toList :=
    ⟨by decide, by decide, by decide, forall_mem_of_all (by decide)⟩
  have hdata : Base64 encodeTwo decodeTwo [] :=
    ⟨by decide, by decide, by decide, forall_mem_of_all (by decide)⟩
  ⟨(by decide : Bytes "aa".toList), nofun, hac, hdata⟩

def warning : Errorp := ⟨WARN_SHORT_VALIDITY, "shortened".toList⟩

def error : Errorp := ⟨ERR_NOT_MEMBER, "vo: User unknown to this VO.".toList⟩

end Sample

theorem makeRESTAnswer_faithful_sample :
    RestFaithful Sample.encodeTwo Sample.decodeTwo (Sample.result []) :=
  (makeRESTAnswer_faithful_iff (Sample.coded [])).mpr rfl

/-- A warning gets the status of a failure, an error is stored without its
number, and behind a warning it is not written. -/
theorem makeRESTAnswer_fails :
    ((Sample.result [Sample.warning]).makeRESTAnswer Sample.encodeTwo).2 = 500 ∧
      ¬ RestFaithful Sample.encodeTwo Sample.decodeTwo (Sample.result [Sample.warning]) ∧
    xmlAnsDecode ⟨plainParser restProlog, Sample.decodeTwo⟩
        ((Sample.result [Sample.error]).makeRESTAnswer Sample.encodeTwo).1 = .fault .uninit ∧
      ¬ RestFaithful Sample.encodeTwo Sample.decodeTwo (Sample.result [Sample.error]) ∧
    (Sample.result [Sample.warning, Sample.error]).makeRESTAnswer Sample.encodeTwo =
        (Sample.result [Sample.warning]).makeRESTAnswer Sample.encodeTwo ∧
      ¬ RestFaithful Sample.encodeTwo Sample.decodeTwo
        (Sample.result [Sample.warning, Sample.error]) := by
  refine ⟨by decide, not_restFaithful_cons (Sample.coded _) rfl, ?_,
    not_restFaithful_cons (Sample.coded _) rfl, rfl, not_restFaithful_cons (Sample.coded _) rfl⟩
  rw [xmlAnsDecode_rest (faithful_plainParser restProlog) (Sample.coded _) (by decide)]
  rfl

end Voms.L5
