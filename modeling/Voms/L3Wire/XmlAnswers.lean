import Voms.Core.Decimal
import Voms.L3Wire.Codec

/-!
# Answers there and back

`XML_Ans_Encode` against `XML_Ans_Decode` (`src/common/xmlcc.cc`). The
handlers gather the pieces of a text, so the delivery does not matter
(`chunks_ans`). They keep one number and one message, and store them as
the list of errors ends: `fold_answer` has the last error of the list only.
Texts are not escaped. `xmlAnsDecode_encode_iff`: an answer is read as it
was meant by every faithful parser exactly if it has at most one error, and
the message of that is character data.
-/
namespace Voms.L3

open Voms.Core

/-! ## The document -/

def answerProlog : Str := "<?xml version=\"1.0\" encoding = \"US-ASCII\"?>".toList

/-- mirrors src/common/xmlcc.cc:320-359 -/
def xmlAnsEncode (base64Encode : Str → Str) (ac data : Str) (e : List Errorp) (base64 : Bool) :
    Str :=
  if ac = [] ∧ data = [] then []
  else
    let codedac := encode base64Encode ac base64
    let codeddata := encode base64Encode data base64
    if (codedac = [] ∧ ac ≠ []) ∧ (codeddata = [] ∧ data ≠ []) then []
    else
      "<?xml version=\"1.0\" encoding = \"US-ASCII\"?><vomsans><version>3</version>".toList ++
        (if e = [] then []
          else "<error>".toList ++
            (e.flatMap fun i => "<item><number>".toList ++ (toString i.num).toList ++
              "</number><message>".toList ++ i.message ++ "</message></item>".toList) ++
            "</error>".toList) ++
        (if codeddata = [] then [] else "<bitstr>".toList ++ codeddata ++ "</bitstr>".toList) ++
        (if codedac = [] then [] else "<ac>".toList ++ codedac ++ "</ac>".toList) ++
        "</vomsans>".toList

def itemDoc (e : Errorp) : Document :=
  element "item".toList (leaf "number".toList (decimal e.num) ++
    leaf "message".toList e.message)

def errorsDoc (errs : List Errorp) : Document :=
  if errs = [] then [] else element "error".toList (errs.flatMap itemDoc)

def answerDoc (codedac codeddata : Str) (errs : List Errorp) : Document :=
  element "vomsans".toList (leaf "version".toList "3".toList ++ (errorsDoc errs ++
    (optional "bitstr".toList codeddata ++ optional "ac".toList codedac)))

theorem render_items (errs : List Errorp) :
    render (errs.flatMap itemDoc) = errs.flatMap fun i =>
      "<item><number>".toList ++ (toString i.num).toList ++ "</number><message>".toList ++
        i.message ++ "</message></item>".toList := by
  induction errs with
  | nil => rfl
  | cons e errs ih =>
    rw [List.flatMap_cons, List.flatMap_cons, render_append, ih, itemDoc, render_element,
      render_append, render_leaf, render_leaf]
    simp [decimal]

/-- What is sent is the text of the document. -/
theorem xmlAnsEncode_eq {base64Encode : Str → Str} {ac data : Str} {errs : List Errorp}
    {base64 : Bool} (hsome : ¬ (ac = [] ∧ data = []))
    (hac : encode base64Encode ac base64 = [] ↔ ac = []) :
    xmlAnsEncode base64Encode ac data errs base64 = answerProlog ++ render (answerDoc
      (encode base64Encode ac base64) (encode base64Encode data base64) errs) := by
  have hcoded : ¬ ((encode base64Encode ac base64 = [] ∧ ac ≠ []) ∧
      (encode base64Encode data base64 = [] ∧ data ≠ [])) := fun h => h.1.2 (hac.mp h.1.1)
  have hlead : "<?xml version=\"1.0\" encoding = \"US-ASCII\"?><vomsans><version>3</version>".toList =
      answerProlog ++ "<vomsans>".toList ++ render (leaf "version".toList "3".toList) := rfl
  have herrors : (if errs = [] then []
      else "<error>".toList ++
        (errs.flatMap fun i => "<item><number>".toList ++ (toString i.num).toList ++
          "</number><message>".toList ++ i.message ++ "</message></item>".toList) ++
        "</error>".toList) = render (errorsDoc errs) := by
    unfold errorsDoc
    split
    · rfl
    · rw [render_element, render_items]
      rfl
  unfold xmlAnsEncode
  simp only [if_neg hsome, if_neg hcoded]
  rw [herrors, hlead, answerDoc, render_element]
  simp only [render_append, render_optional, List.append_assoc]
  rfl

theorem charData_decimal (n : Int) : charData (decimal n) = true := by
  refine charData_of_noGt fun c hc => ?_
  cases n with
  | ofNat n => exact digit_text (isDigit_of_mem_decimal hc)
  | negSucc n =>
    rw [decimal_negSucc, List.mem_cons] at hc
    rcases hc with rfl | hc
    · decide
    · exact digit_text (Nat.isDigit_of_mem_toDigits (by decide) (by decide) hc)

theorem wellFormed_answerDoc {codedac codeddata : Str} {errs : List Errorp}
    (hac : charData codedac = true) (hdata : charData codeddata = true)
    (herrs : ∀ e ∈ errs, charData e.message = true) :
    wellFormed (answerDoc codedac codeddata errs) = true := by
  have hitems : Balanced (errorsDoc errs) := by
    unfold errorsDoc
    split
    · exact .nil
    · refine .element (by decide) (.flatMap fun e he => ?_)
      exact .element (by decide) ((Balanced.leaf (by decide) (charData_decimal e.num)).append
        (.leaf (by decide) (herrs e he)))
  exact wellFormed_element (by decide) ((Balanced.leaf (by decide) (by decide)).append
    (hitems.append ((Balanced.optional (by decide) hdata).append (.optional (by decide) hac))))

/-! ## The handlers -/

variable {X : Wire}

/-- The pieces of a text have the effect of the text. -/
theorem fold_texts {pieces : List Str} : ∀ {s : AnsState},
    (pieces.map XmlEvent.text).foldlM (AnsState.step X) s = .ok (handlerans s pieces.flatten) := by
  induction pieces with
  | nil =>
    intro s
    unfold handlerans
    split <;> simp
  | cons p pieces ih =>
    intro s
    rw [List.map_cons, List.foldlM_cons]
    simp only [AnsState.step, Res.pure_eq, Res.ok_bind, ih, List.flatten_cons]
    unfold handlerans
    by_cases herr : s.error = true
    · simp [herr]
    · simp [herr]

/-- The handlers make the same of a document however it is delivered. -/
theorem chunks_ans {d : Document} {es : List XmlEvent} (h : Delivers d es) : ∀ s : AnsState,
    es.foldlM (AnsState.step X) s = d.foldlM (AnsState.step X) s := by
  induction h with
  | nil => exact fun _ => rfl
  | start _ ih =>
    intro s
    rw [List.foldlM_cons, List.foldlM_cons]
    exact bind_congr fun t => ih t
  | stop _ ih =>
    intro s
    rw [List.foldlM_cons, List.foldlM_cons]
    exact bind_congr fun t => ih t
  | text _ _ ih =>
    intro s
    rw [List.foldlM_append, fold_texts, List.foldlM_cons, Res.ok_bind, ih]
    rfl

/-- `depth` elements are open, and the text of the innermost is `v` so far. -/
def answering (a : Answer) (v : Str) (depth : Nat) (num : Option Int) (message : Str) : AnsState :=
  ⟨a, v, false, depth, num, message⟩

variable {a : Answer} {num : Option Int} {message : Str} {depth : Nat}

theorem step_start (name : Str) (hdepth : depth < 4) :
    AnsState.step X (answering a [] depth num message) (.start name) =
      .ok (answering a [] (depth + 1) num message) := by
  have hne : (answering a [] depth num message).depth ≠ 4 := by
    show depth ≠ 4
    omega
  rw [AnsState.step, startans, if_neg hne]
  rfl

/-- An element is opened, read and closed. -/
theorem fold_elementAns (name : Str) (body : Document) (hdepth : depth < 4) :
    (element name body).foldlM (AnsState.step X) (answering a [] depth num message) =
      body.foldlM (AnsState.step X) (answering a [] (depth + 1) num message) >>= fun s =>
        endans X s name := by
  unfold element
  rw [List.cons_append, List.foldlM_cons, step_start name hdepth, Res.ok_bind, List.foldlM_append]
  refine bind_congr fun s => ?_
  rw [List.foldlM_cons]
  exact bind_pure _

theorem fold_runAns (v : Str) :
    (run v).foldlM (AnsState.step X) (answering a [] depth num message) =
      .ok (answering a v depth num message) := by
  unfold run
  by_cases hv : v = []
  · rw [if_pos hv, hv]
    rfl
  · rw [if_neg hv]
    rfl

theorem endans_eq (v name : Str) :
    endans X (answering a v (depth + 1) num message) name =
      setAnswer X (answering a v depth num message) name >>= fun s => .ok { s with value := [] } := by
  unfold endans
  rw [if_neg (by simp [answering])]
  rfl

/-- An element around a text ends with that text. -/
theorem fold_leafAns (name v : Str) (hdepth : depth < 4) :
    (leaf name v).foldlM (AnsState.step X) (answering a [] depth num message) =
      setAnswer X (answering a v depth num message) name >>= fun s => .ok { s with value := [] } := by
  rw [leaf, fold_elementAns name _ hdepth, fold_runAns, Res.ok_bind, endans_eq]

/-! ## The elements of an answer -/

theorem fold_version (v : Str) :
    (leaf "version".toList v).foldlM (AnsState.step X) (answering a [] 1 num message) =
      .ok (answering { a with version := atoi v } [] 1 num message) := by
  rw [fold_leafAns _ _ (by decide)]
  rfl

theorem set_number (v : Str) :
    setAnswer X (answering a v 3 num message) "number".toList =
      .ok (answering a v 3 (some (atoi v)) message) := rfl

theorem fold_number {n : Int} (hlo : -2 ^ 31 ≤ n) (hhi : n < 2 ^ 31) :
    (leaf "number".toList (decimal n)).foldlM (AnsState.step X) (answering a [] 3 num message) =
      .ok (answering a [] 3 (some n) message) := by
  rw [fold_leafAns _ _ (by decide), set_number, atoi_decimal hlo hhi]
  rfl

theorem fold_message (v : Str) :
    (leaf "message".toList v).foldlM (AnsState.step X) (answering a [] 3 num message) =
      .ok (answering a [] 3 num v) := by
  rw [fold_leafAns _ _ (by decide)]
  rfl

theorem fold_item {e : Errorp} (hlo : -2 ^ 31 ≤ e.num) (hhi : e.num < 2 ^ 31) :
    (itemDoc e).foldlM (AnsState.step X) (answering a [] 2 num message) =
      .ok (answering a [] 2 (some e.num) e.message) := by
  rw [itemDoc, fold_elementAns _ _ (by decide), List.foldlM_append, fold_number hlo hhi,
    Res.ok_bind, fold_message, Res.ok_bind, endans_eq]
  rfl

/-- A number is an `int`. -/
def IntNum (e : Errorp) : Prop := -2 ^ 31 ≤ e.num ∧ e.num < 2 ^ 31

instance (e : Errorp) : Decidable (IntNum e) := by
  unfold IntNum
  infer_instance

/-- Of a list of items the last one is kept. -/
theorem fold_items : ∀ {errs : List Errorp} {last : Errorp}, (∀ e ∈ errs, IntNum e) →
    errs.getLast? = some last → ∀ {num : Option Int} {message : Str},
    (errs.flatMap itemDoc).foldlM (AnsState.step X) (answering a [] 2 num message) =
      .ok (answering a [] 2 (some last.num) last.message)
  | [], _, _, hlast, _, _ => by cases hlast
  | [e], last, h, hlast, num, message => by
    have hlast : e = last := by simpa using hlast
    obtain ⟨hlo, hhi⟩ := h e (List.mem_cons_self ..)
    rw [← hlast, List.flatMap_cons, List.flatMap_nil, List.append_nil, fold_item hlo hhi]
  | e :: f :: errs, last, h, hlast, num, message => by
    obtain ⟨hlo, hhi⟩ := h e (List.mem_cons_self ..)
    rw [List.flatMap_cons, List.foldlM_append, fold_item hlo hhi, Res.ok_bind]
    exact fold_items (fun g hg => h g (List.mem_cons_of_mem _ hg)) (by simpa using hlast)

/-- The list of errors adds its last one. -/
theorem fold_errors {errs : List Errorp} (h : ∀ e ∈ errs, IntNum e) :
    ∃ num' message', (errorsDoc errs).foldlM (AnsState.step X) (answering a [] 1 num message) =
      .ok (answering { a with errs := a.errs ++ errs.getLast?.toList } [] 1 num' message') := by
  unfold errorsDoc
  by_cases hnil : errs = []
  · rw [if_pos hnil, hnil]
    exact ⟨num, message, by simp⟩
  · rw [if_neg hnil]
    obtain ⟨last, hlast⟩ : ∃ last, errs.getLast? = some last :=
      Option.ne_none_iff_exists'.mp (by simpa using hnil)
    refine ⟨some last.num, last.message, ?_⟩
    rw [fold_elementAns _ _ (by decide), fold_items h hlast, Res.ok_bind, endans_eq, hlast]
    rfl

theorem fold_bitstr {base64Encode : Str → Str} {base64 : Bool} {data : Str} (hs : Bytes data)
    (h : Base64 base64Encode X.base64Decode data) (ha : a.data = []) :
    (optional "bitstr".toList (encode base64Encode data base64)).foldlM (AnsState.step X)
        (answering a [] 1 num message) =
      .ok (answering { a with data } [] 1 num message) := by
  unfold optional
  by_cases hnil : data = []
  · rw [if_pos ((encode_eq_nil h).mpr hnil), hnil, ← ha]
    rfl
  · have hdecode := @decode_encode X base64Encode data base64 hs h hnil
    rw [if_neg (fun e => hnil ((encode_eq_nil h).mp e)), fold_leafAns _ _ (by decide)]
    unfold setAnswer
    rw [if_neg (by decide), if_pos rfl]
    simp only [answering, hdecode, Res.ok_bind, Res.pure_eq]
    simp [hnil]

theorem fold_ac {base64Encode : Str → Str} {base64 : Bool} {ac : Str} (hs : Bytes ac)
    (h : Base64 base64Encode X.base64Decode ac) (ha : a.ac = []) :
    (optional "ac".toList (encode base64Encode ac base64)).foldlM (AnsState.step X)
        (answering a [] 1 num message) =
      .ok (answering { a with ac } [] 1 num message) := by
  unfold optional
  by_cases hnil : ac = []
  · rw [if_pos ((encode_eq_nil h).mpr hnil), hnil, ← ha]
    rfl
  · have hdecode := @decode_encode X base64Encode ac base64 hs h hnil
    rw [if_neg (fun e => hnil ((encode_eq_nil h).mp e)), fold_leafAns _ _ (by decide)]
    unfold setAnswer
    rw [if_pos rfl]
    simp only [answering, hdecode, Res.ok_bind, Res.pure_eq]
    simp [hnil]

/-- What is read of an answer: of its errors the last. -/
theorem fold_answer {base64Encode : Str → Str} {base64 : Bool} {ac data : Str}
    {errs : List Errorp} (hac : Bytes ac) (hdata : Bytes data)
    (hbase : Base64 base64Encode X.base64Decode ac)
    (hbase' : Base64 base64Encode X.base64Decode data) (herrs : ∀ e ∈ errs, IntNum e) :
    ∃ s, (answerDoc (encode base64Encode ac base64) (encode base64Encode data base64)
        errs).foldlM (AnsState.step X) .new = .ok s ∧
      s.a = ⟨data, ac, errs.getLast?.toList, 3⟩ := by
  have hnew : AnsState.new = answering ⟨[], [], [], 0⟩ [] 0 none [] := rfl
  have hthree : atoi "3".toList = 3 := by decide
  obtain ⟨num', message', herr⟩ := @fold_errors X ⟨[], [], [], 3⟩ none [] errs herrs
  rw [answerDoc, hnew, fold_elementAns _ _ (by decide), List.foldlM_append, fold_version, hthree,
    Res.ok_bind, List.foldlM_append, herr, Res.ok_bind, List.foldlM_append,
    fold_bitstr hdata hbase' rfl, Res.ok_bind, fold_ac hac hbase rfl, Res.ok_bind, endans_eq]
  exact ⟨_, rfl, rfl⟩

/-! ## Texts that are no character data -/

/-- Whatever the handlers hold is character data. -/
structure Tidy (s : AnsState) : Prop where
  value : charData s.value = true
  message : charData s.message = true
  errs : ∀ e ∈ s.a.errs, charData e.message = true

/-- No text has come since the last tag, or none counts any more. -/
def Fresh (s : AnsState) : Prop := s.error = true ∨ s.value = []

theorem charData_nil : charData [] = true := by decide

theorem tidy_startans {s : AnsState} (h : Tidy s) : Tidy (startans s) ∧ Fresh (startans s) := by
  unfold startans
  split
  · exact ⟨⟨h.value, h.message, h.errs⟩, Or.inl rfl⟩
  · exact ⟨⟨charData_nil, h.message, h.errs⟩, Or.inr rfl⟩

theorem tidy_handlerans {s : AnsState} {t : Str} (h : Tidy s) (hfresh : Fresh s)
    (ht : charData t = true) : Tidy (handlerans s t) := by
  unfold handlerans
  split
  · exact h
  · next herr =>
    have hvalue : s.value = [] := hfresh.resolve_left herr
    exact ⟨by rw [hvalue]; exact ht, h.message, h.errs⟩

theorem tidy_push {errs : List Errorp} {n : Int} {v : Str}
    (h : ∀ e ∈ errs, charData e.message = true) (hv : charData v = true) :
    ∀ e ∈ errs ++ [⟨n, v⟩], charData e.message = true := by
  intro e he
  rcases List.mem_append.mp he with he | he
  · exact h e he
  · rw [List.mem_singleton.mp he]
    exact hv

theorem tidy_setAnswer {s s' : AnsState} {name : Str} (h : Tidy s)
    (hs : setAnswer X s name = .ok s') : Tidy s' := by
  unfold setAnswer at hs
  split at hs
  · obtain ⟨ac, -, hs⟩ := Res.bind_eq_ok.mp hs
    cases hs
    exact ⟨h.value, h.message, h.errs⟩
  split at hs
  · obtain ⟨data, -, hs⟩ := Res.bind_eq_ok.mp hs
    cases hs
    exact ⟨h.value, h.message, h.errs⟩
  split at hs
  · -- an error that is ended goes to the list
    split at hs
    · cases hs
    · cases hs
      exact ⟨h.value, h.message, tidy_push h.errs h.message⟩
  split at hs
  · cases hs
    exact ⟨h.value, h.message, h.errs⟩
  split at hs
  · cases hs
    exact ⟨h.value, h.value, h.errs⟩
  split at hs
  · cases hs
    exact ⟨h.value, h.message, tidy_push h.errs h.value⟩
  split at hs
  · cases hs
    exact ⟨h.value, h.message, h.errs⟩
  split at hs
  · cases hs
    exact ⟨h.value, h.message, h.errs⟩
  · cases hs
    exact h

theorem tidy_endans {s s' : AnsState} {name : Str} (h : Tidy s)
    (hs : endans X s name = .ok s') : Tidy s' ∧ Fresh s' := by
  unfold endans at hs
  split at hs
  · cases hs
    exact ⟨⟨h.value, h.message, h.errs⟩, Or.inl rfl⟩
  · obtain ⟨t, ht, hs⟩ := Res.bind_eq_ok.mp hs
    cases hs
    have hup : Tidy { s with depth := s.depth - 1 } := ⟨h.value, h.message, h.errs⟩
    have htidy := tidy_setAnswer hup ht
    exact ⟨⟨charData_nil, htidy.message, htidy.errs⟩, Or.inr rfl⟩

/-- Over a well-formed document no other text comes in. -/
theorem tidy_fold : ∀ {d : Document} {up : List Str} {s s' : AnsState}, closes up d = true →
    Tidy s → (startsText d = true → Fresh s) → d.foldlM (AnsState.step X) s = .ok s' → Tidy s'
  | [], _, s, s', _, h, _, hs => by
    cases hs
    exact h
  | _ :: _, [], _, _, hd, _, _, _ => by cases hd
  | .start inner :: d, name :: up, s, s', hd, h, _, hs => by
    simp only [closes, Bool.and_eq_true] at hd
    obtain ⟨htidy, hfresh⟩ := tidy_startans h
    exact tidy_fold hd.2 htidy (fun _ => hfresh) hs
  | .stop outer :: d, name :: up, s, s', hd, h, _, hs => by
    simp only [closes, Bool.and_eq_true] at hd
    obtain ⟨t, ht, hs⟩ := Res.bind_eq_ok.mp hs
    obtain ⟨htidy, hfresh⟩ := tidy_endans h ht
    exact tidy_fold hd.2 htidy (fun _ => hfresh) hs
  | .text v :: d, name :: up, s, s', hd, h, hfresh, hs => by
    simp only [closes, Bool.and_eq_true, Bool.not_eq_true'] at hd
    obtain ⟨⟨⟨-, hv⟩, hnext⟩, hd⟩ := hd
    have htidy := tidy_handlerans h (hfresh rfl) hv
    refine tidy_fold hd htidy (fun ht => ?_) hs
    rw [hnext] at ht
    cases ht

/-- What the plain parser lets through holds no markup in its messages. -/
theorem tidy_plainParser {prolog message : Str} {base64Decode : Str → Str} {a : Answer}
    (h : xmlAnsDecode ⟨plainParser prolog, base64Decode⟩ message = .ok (some a)) :
    ∀ e ∈ a.errs, charData e.message = true := by
  have hparse := @wellFormed_of_plainParser prolog message
  unfold xmlAnsDecode at h
  simp only at h
  generalize plainParser prolog message = parsed at h hparse
  obtain ⟨es, res⟩ := parsed
  obtain ⟨s, hs, h⟩ := Res.bind_eq_ok.mp h
  cases res with
  | false => cases h
  | true =>
    cases h
    obtain ⟨root, rest, rfl, -, hrest⟩ := wellFormed_inv (hparse rfl)
    have hnew : Tidy AnsState.new := ⟨by decide, by decide, by decide⟩
    obtain ⟨htidy, hfresh⟩ := tidy_startans hnew
    exact (tidy_fold hrest htidy (fun _ => hfresh) hs).errs

/-! ## There and back -/

/-- The answer is decoded to this. -/
def Returns (X : Wire) (message ac data : Str) (errs : List Errorp) : Prop :=
  ∃ a, xmlAnsDecode X message = .ok (some a) ∧ a.ac = ac ∧ a.data = data ∧ a.errs = errs

/-- Every faithful parser gives back what was sent. -/
def RoundTrips (base64Encode base64Decode : Str → Str) (ac data : Str) (errs : List Errorp)
    (base64 : Bool) : Prop :=
  ∀ expat, Faithful answerProlog expat →
    Returns ⟨expat, base64Decode⟩ (xmlAnsEncode base64Encode ac data errs base64) ac data errs

/-- What a server may answer with. -/
structure Answerable (base64Encode base64Decode : Str → Str) (ac data : Str)
    (errs : List Errorp) : Prop where
  some : ¬ (ac = [] ∧ data = [])
  ac_bytes : Bytes ac
  data_bytes : Bytes data
  ac_base64 : Base64 base64Encode base64Decode ac
  data_base64 : Base64 base64Encode base64Decode data
  nums : ∀ e ∈ errs, IntNum e

/-- Of an answer whose messages are character data the last error is read. -/
theorem xmlAnsDecode_last {expat : Str → List XmlEvent × Bool} (hX : Faithful answerProlog expat)
    {base64Encode base64Decode : Str → Str} {ac data : Str} {errs : List Errorp} (base64 : Bool)
    (h : Answerable base64Encode base64Decode ac data errs)
    (hdata : ∀ e ∈ errs, charData e.message = true) :
    xmlAnsDecode ⟨expat, base64Decode⟩ (xmlAnsEncode base64Encode ac data errs base64) =
      .ok (some ⟨data, ac, errs.getLast?.toList, 3⟩) := by
  let X : Wire := ⟨expat, base64Decode⟩
  have hbase : Base64 base64Encode X.base64Decode ac := h.ac_base64
  have hbase' : Base64 base64Encode X.base64Decode data := h.data_base64
  obtain ⟨es, hes, hx⟩ := hX _ (wellFormed_answerDoc
    (@charData_encode X base64Encode ac base64 h.ac_bytes hbase)
    (@charData_encode X base64Encode data base64 h.data_bytes hbase') hdata)
  obtain ⟨s, hs, ha⟩ := @fold_answer X base64Encode base64 ac data errs h.ac_bytes h.data_bytes
    hbase hbase' h.nums
  rw [← chunks_ans hes] at hs
  unfold xmlAnsDecode
  rw [xmlAnsEncode_eq h.some (@encode_eq_nil X base64Encode ac base64 hbase)]
  simp only [hx]
  rw [hs, ← ha]
  rfl

/-- **An answer is read as it was sent exactly if it has at most one error,
and the message of that is character data.** -/
theorem xmlAnsDecode_encode_iff {base64Encode base64Decode : Str → Str} {ac data : Str}
    {errs : List Errorp} (base64 : Bool) (h : Answerable base64Encode base64Decode ac data errs) :
    RoundTrips base64Encode base64Decode ac data errs base64 ↔
      errs.length ≤ 1 ∧ ∀ e ∈ errs, charData e.message = true := by
  constructor
  · intro hround
    obtain ⟨a, ha, -, -, herrs⟩ := hround _ (faithful_plainParser answerProlog)
    have hdata : ∀ e ∈ errs, charData e.message = true := by
      rw [← herrs]
      exact tidy_plainParser ha
    rw [xmlAnsDecode_last (faithful_plainParser answerProlog) base64 h hdata] at ha
    cases ha
    refine ⟨?_, hdata⟩
    rw [← herrs]
    cases errs.getLast? <;> simp
  · rintro ⟨hlen, hdata⟩ expat hX
    refine ⟨_, xmlAnsDecode_last hX base64 h hdata, rfl, rfl, ?_⟩
    match errs, hlen with
    | [], _ => rfl
    | [e], _ => rfl

namespace Sample

/-- The code of one byte, as `BIO_f_base64` writes it. -/
def base64Encode (s : Str) : Str := if s = "A".toList then "QQ==\n".toList else []

def base64Decode (s : Str) : Str := if s = "QQ==\n".toList then "A".toList else []

theorem answerable {errs : List Errorp} (h : ∀ e ∈ errs, IntNum e) :
    Answerable base64Encode base64Decode "A".toList [] errs where
  some := nofun
  ac_bytes := by decide
  data_bytes := nofun
  ac_base64 := ⟨by decide, by decide, by decide, forall_mem_of_all (by decide)⟩
  data_base64 := ⟨by decide, by decide, by decide, forall_mem_of_all (by decide)⟩
  nums := h

def unknown : Errorp := ⟨ERR_NOT_MEMBER, "vo: User unknown to this VO.".toList⟩

def shortened : Errorp := ⟨WARN_SHORT_VALIDITY, "shortened to 10 seconds!".toList⟩

def markup : Errorp := ⟨ERR_NO_COMMAND, "Unable to intepret command: <voms>".toList⟩

end Sample

theorem xmlAnsDecode_encode_sample :
    RoundTrips Sample.base64Encode Sample.base64Decode "A".toList [] [Sample.unknown] true :=
  (xmlAnsDecode_encode_iff true (Sample.answerable (by decide))).mpr ⟨by decide, by decide⟩

/-- Of two errors the first is lost, and a message with a tag makes the
answer unreadable. -/
theorem xmlAnsDecode_loses :
    (xmlAnsDecode ⟨plainParser answerProlog, Sample.base64Decode⟩ (xmlAnsEncode Sample.base64Encode
        "A".toList [] [Sample.unknown, Sample.shortened] true) =
        .ok (some ⟨[], "A".toList, [Sample.shortened], 3⟩) ∧
      ¬ RoundTrips Sample.base64Encode Sample.base64Decode "A".toList []
        [Sample.unknown, Sample.shortened] true) ∧
    xmlAnsDecode ⟨plainParser answerProlog, Sample.base64Decode⟩ (xmlAnsEncode Sample.base64Encode
        "A".toList [] [Sample.markup] true) = .ok none ∧
      ¬ RoundTrips Sample.base64Encode Sample.base64Decode "A".toList [] [Sample.markup] true := by
  have hlast := xmlAnsDecode_last (faithful_plainParser answerProlog) true
    (@Sample.answerable [Sample.unknown, Sample.shortened] (by decide)) (by decide)
  have hnone : xmlAnsDecode ⟨plainParser answerProlog, Sample.base64Decode⟩
      (xmlAnsEncode Sample.base64Encode "A".toList [] [Sample.markup] true) = .ok none := rfl
  refine ⟨⟨hlast, fun h => ?_⟩, hnone, fun h => ?_⟩
  · obtain ⟨a, ha, -, -, herrs⟩ := h _ (faithful_plainParser answerProlog)
    rw [hlast] at ha
    cases ha
    exact absurd herrs (by decide)
  · obtain ⟨a, ha, -⟩ := h _ (faithful_plainParser answerProlog)
    rw [hnone] at ha
    cases ha

end Voms.L3
