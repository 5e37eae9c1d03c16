import Mathlib.Data.List.Forall2
import Voms.Core.Decimal
import Voms.L3Wire.Document

/-!
# Requests there and back

`XML_Req_Encode` against `XML_Req_Decode` (`src/common/xmlcc.cc`).
`handlerreq` replaces the text it has by each piece it is given, where
`handlerans` appends. `xmlReqDecode_encode_iff`: a request is read as it was
meant exactly if the parser hands every text over in one piece and the last
command is not empty.
-/
namespace Voms.L3

open Voms.Core

/-! ## The document -/

def requestProlog : Str := "<?xml version=\"1.0\" encoding=\"US-ASCII\"?>".toList

/-- The lifetime as it is written: an empty text asks for the default. -/
def lifetimeText (lifetime : Int) : Str := if lifetime ≤ 0 then [] else decimal lifetime

/-- The elements of a request. -/
def requestBody (commands : List Str) (order targets : Str) (lifetime : Int) : Document :=
  commands.flatMap (leaf "command".toList) ++ (optional "order".toList order ++
    (optional "targets".toList targets ++ (leaf "base64".toList "1".toList ++
      (leaf "version".toList "4".toList ++
        leaf "lifetime".toList (lifetimeText lifetime)))))

def requestDoc (commands : List Str) (order targets : Str) (lifetime : Int) : Document :=
  element "voms".toList (requestBody commands order targets lifetime)

theorem render_commands (commands : List Str) :
    render (commands.flatMap (leaf "command".toList)) =
      commands.flatMap fun c => "<command>".toList ++ c ++ "</command>".toList := by
  induction commands with
  | nil => rfl
  | cons c commands ih =>
    rw [List.flatMap_cons, List.flatMap_cons, render_append, ih, render_leaf]
    rfl

/-- What is sent is the text of the document. -/
theorem xmlReqEncode_eq (command order targets : Str) (lifetime : Int) :
    xmlReqEncode command order targets lifetime =
      requestProlog ++ render (requestDoc (getlines ',' command) order targets lifetime) := by
  have hlife : (if lifetime ≤ 0 then "<lifetime></lifetime>".toList
      else "<lifetime>".toList ++ (toString lifetime).toList ++ "</lifetime>".toList) =
      render (leaf "lifetime".toList (lifetimeText lifetime)) := by
    rw [render_leaf]
    unfold lifetimeText
    split <;> rfl
  have hlead : "<?xml version=\"1.0\" encoding=\"US-ASCII\"?><voms>".toList =
      requestProlog ++ "<voms>".toList := rfl
  have hfixed : "<base64>1</base64><version>4</version>".toList =
      render (leaf "base64".toList "1".toList) ++ render (leaf "version".toList "4".toList) := rfl
  unfold xmlReqEncode requestDoc requestBody
  rw [hlife, hlead, hfixed, render_element]
  simp only [render_append, render_commands, render_optional, List.append_assoc]
  rfl

theorem charData_lifetimeText (lifetime : Int) : charData (lifetimeText lifetime) = true := by
  unfold lifetimeText
  split
  · rfl
  · next h =>
    refine charData_of_noGt fun c hc => ?_
    lift lifetime to Nat using by omega
    exact digit_text (isDigit_of_mem_decimal hc)

theorem wellFormed_requestDoc {commands : List Str} {order targets : Str} {lifetime : Int}
    (hc : ∀ c ∈ commands, charData c = true) (ho : charData order = true)
    (ht : charData targets = true) :
    wellFormed (requestDoc commands order targets lifetime) = true :=
  wellFormed_element (by decide)
    ((Balanced.flatMap fun c hmem => .leaf (by decide) (hc c hmem)).append
      ((Balanced.optional (by decide) ho).append
        ((Balanced.optional (by decide) ht).append
          ((Balanced.leaf (by decide) (by decide)).append
            ((Balanced.leaf (by decide) (by decide)).append
              (.leaf (by decide) (charData_lifetimeText lifetime)))))))

/-! ## Reading an element -/

/-- Inside `voms`, between two elements. -/
def reading (r : Request) : ReqState := ⟨r, [], false, 1⟩

/-- What is left of a text when its last piece has come. -/
def Kept (s v : Str) : Prop := ∃ front, front ++ v = s ∧ (v = [] → front = [])

theorem Kept.eq_nil {v : Str} (h : Kept [] v) : v = [] := by
  obtain ⟨front, hs, -⟩ := h
  exact (List.append_eq_nil_iff.mp hs).2

/-- Of a single character nothing is lost. -/
theorem Kept.eq_single {c : Char} {v : Str} (h : Kept [c] v) : v = [c] := by
  obtain ⟨front, hs, hv⟩ := h
  rcases List.append_eq_singleton_iff.mp hs with ⟨-, hv'⟩ | ⟨hf, hv'⟩
  · exact hv'
  · have := hv hv'
    simp_all

theorem kept_last {pieces : List Str} (hne : ∀ p ∈ pieces, p ≠ []) :
    Kept pieces.flatten (pieces.getLast?.getD []) := by
  rcases List.eq_nil_or_concat pieces with rfl | ⟨front, last, rfl⟩
  · exact ⟨[], rfl, fun _ => rfl⟩
  · have hlast : last ≠ [] := hne last (by simp)
    refine ⟨front.flatten, by simp, fun h => ?_⟩
    simp only [List.concat_eq_append, List.getLast?_append, List.getLast?_singleton,
      Option.some_or, Option.getD_some] at h
    exact absurd h hlast

theorem fold_pieces {pieces : List Str} : ∀ {r : Request} {value : Str} {depth : Nat},
    (pieces.map XmlEvent.text).foldl ReqState.step ⟨r, value, false, depth⟩ =
      ⟨r, pieces.getLast?.getD value, false, depth⟩ := by
  induction pieces with
  | nil => intro r value depth; rfl
  | cons p pieces ih =>
    intro r value depth
    rw [List.map_cons, List.foldl_cons, List.getLast?_cons]
    exact ih

/-- An element sets its field to what was kept of its text, which is all of
it only if it came in one piece. -/
theorem read_leaf {name s : Str} {es : List XmlEvent} (r : Request)
    (h : Delivers (leaf name s) es) :
    ∃ v, Kept s v ∧ es.foldl ReqState.step (reading r) = reading (setField r name v) ∧
      (v = s → es = leaf name s) := by
  obtain ⟨pieces, hne, rfl, rfl⟩ := h.leaf_inv
  refine ⟨pieces.getLast?.getD [], kept_last hne, ?_, fun hv => ?_⟩
  · rw [List.cons_append, List.foldl_cons, List.foldl_append]
    have hstart : ReqState.step (reading r) (.start name) = ⟨r, [], false, 2⟩ := rfl
    rw [hstart, fold_pieces]
    rfl
  · rw [pieces_whole hne hv]
    rfl

theorem read_optional {name s : Str} {es : List XmlEvent} (r : Request)
    (h : Delivers (optional name s) es) :
    ∃ v, Kept s v ∧
      es.foldl ReqState.step (reading r) =
        reading (if s = [] then r else setField r name v) ∧
      (v = s → es = optional name s) := by
  unfold optional at h ⊢
  by_cases hs : s = []
  · rw [if_pos hs] at h
    cases h
    exact ⟨[], ⟨[], hs.symm, fun _ => rfl⟩, by rw [if_pos hs]; rfl, fun _ => by rw [if_pos hs]⟩
  · rw [if_neg hs] at h
    obtain ⟨v, hkept, hfold, hwhole⟩ := read_leaf r h
    exact ⟨v, hkept, by rw [hfold, if_neg hs], fun hv => by rw [if_neg hs]; exact hwhole hv⟩

theorem read_commands {commands : List Str} : ∀ {es : List XmlEvent} (r : Request),
    Delivers (commands.flatMap (leaf "command".toList)) es →
    ∃ vs, List.Forall₂ Kept commands vs ∧
      es.foldl ReqState.step (reading r) = reading { r with command := r.command ++ vs } ∧
      (vs = commands → es = commands.flatMap (leaf "command".toList)) := by
  induction commands with
  | nil =>
    intro es r h
    cases h
    exact ⟨[], .nil, by simp, fun _ => rfl⟩
  | cons c commands ih =>
    intro es r h
    rw [List.flatMap_cons] at h
    obtain ⟨e1, e2, rfl, h1, h2⟩ := h.append_inv
    obtain ⟨v, hv, hfold1, hwhole1⟩ := read_leaf r h1
    obtain ⟨vs, hvs, hfold2, hwhole2⟩ := ih (setField r "command".toList v) h2
    refine ⟨v :: vs, .cons hv hvs, ?_, fun heq => ?_⟩
    · rw [List.foldl_append, hfold1, hfold2]
      have hset : setField r "command".toList v = { r with command := r.command ++ [v] } := by
        simp [setField]
      rw [hset]
      simp
    · obtain ⟨rfl, rfl⟩ := List.cons.inj heq
      rw [hwhole1 rfl, hwhole2 rfl, List.flatMap_cons]

/-! ## Reading a request -/

/-- An absent text leaves its field empty, as it was. -/
theorem set_order {r : Request} {s v : Str} (hr : r.order = []) (hv : s = [] → v = []) :
    (if s = [] then r else setField r "order".toList v) = { r with order := v } := by
  split
  · next h => rw [hv h, ← hr]
  · simp [setField]

theorem set_targets {r : Request} {s v : Str} (hr : r.targets = []) (hv : s = [] → v = []) :
    (if s = [] then r else setField r "targets".toList v) = { r with targets := v } := by
  split
  · next h => rw [hv h, ← hr]
  · simp [setField]

/-- The last three elements. -/
theorem set_version (r : Request) (lifetime : Str) :
    setField (setField (setField r "base64".toList "1".toList) "version".toList "4".toList)
      "lifetime".toList lifetime =
      { r with base64 := true, version := 4, lifetime := atoi lifetime } := by
  have hfour : atoi "4".toList = 4 := by decide
  rw [← hfour]
  simp [setField]

/-- The four elements that are not commands. -/
theorem read_rest {order targets : Str} {lifetime : Int} {es : List XmlEvent} (commands : List Str)
    (h : Delivers (optional "order".toList order ++ (optional "targets".toList targets ++
      (leaf "base64".toList "1".toList ++ (leaf "version".toList "4".toList ++
        leaf "lifetime".toList (lifetimeText lifetime))))) es) :
    ∃ vo vt vl, Kept order vo ∧ Kept targets vt ∧ Kept (lifetimeText lifetime) vl ∧
      es.foldl ReqState.step (reading ⟨[], [], commands, 0, false, 0⟩) =
        reading ⟨vo, vt, commands, atoi vl, true, 4⟩ ∧
      (vo = order → vt = targets → vl = lifetimeText lifetime →
        es = optional "order".toList order ++ (optional "targets".toList targets ++
          (leaf "base64".toList "1".toList ++ (leaf "version".toList "4".toList ++
            leaf "lifetime".toList (lifetimeText lifetime))))) := by
  obtain ⟨e1, es, rfl, h1, h⟩ := h.append_inv
  obtain ⟨e2, es, rfl, h2, h⟩ := h.append_inv
  obtain ⟨e3, es, rfl, h3, h⟩ := h.append_inv
  obtain ⟨e4, e5, rfl, h4, h5⟩ := h.append_inv
  obtain ⟨vo, hvo, hf1, hw1⟩ := read_optional ⟨[], [], commands, 0, false, 0⟩ h1
  obtain ⟨vt, hvt, hf2, hw2⟩ := read_optional ⟨vo, [], commands, 0, false, 0⟩ h2
  obtain ⟨vb, hvb, hf3, hw3⟩ := read_leaf ⟨vo, vt, commands, 0, false, 0⟩ h3
  obtain ⟨vv, hvv, hf4, hw4⟩ := read_leaf _ h4
  obtain ⟨vl, hvl, hf5, hw5⟩ := read_leaf _ h5
  have hvb : vb = "1".toList := hvb.eq_single
  have hvv : vv = "4".toList := hvv.eq_single
  refine ⟨vo, vt, vl, hvo, hvt, hvl, ?_, fun ho ht hl => ?_⟩
  · rw [set_order rfl fun h => Kept.eq_nil (by rw [← h]; exact hvo)] at hf1
    rw [set_targets rfl fun h => Kept.eq_nil (by rw [← h]; exact hvt)] at hf2
    rw [List.foldl_append, hf1, List.foldl_append, hf2, List.foldl_append, hf3,
      List.foldl_append, hf4, hf5, hvb, hvv, set_version]
  · rw [hw1 ho, hw2 ht, hw3 hvb, hw4 hvv, hw5 hl]

/-- What the handlers make of a request, however it is delivered. -/
theorem read_request {commands : List Str} {order targets : Str} {lifetime : Int}
    {es : List XmlEvent} (h : Delivers (requestDoc commands order targets lifetime) es) :
    ∃ vs vo vt vl, List.Forall₂ Kept commands vs ∧ Kept order vo ∧ Kept targets vt ∧
      Kept (lifetimeText lifetime) vl ∧
      (es.foldl ReqState.step .new).r = ⟨vo, vt, vs, atoi vl, true, 4⟩ ∧
      (vs = commands → vo = order → vt = targets → vl = lifetimeText lifetime →
        es = requestDoc commands order targets lifetime) := by
  cases h with
  | start h =>
    obtain ⟨es, e3, rfl, h, h3⟩ := h.append_inv
    obtain ⟨e1, e2, rfl, h1, h2⟩ := h.append_inv
    cases h3 with
    | stop h3 =>
      cases h3
      obtain ⟨vs, hvs, hf1, hw1⟩ := read_commands ⟨[], [], [], 0, false, 0⟩ h1
      obtain ⟨vo, vt, vl, hvo, hvt, hvl, hf2, hw2⟩ := read_rest vs h2
      refine ⟨vs, vo, vt, vl, hvs, hvo, hvt, hvl, ?_, fun hs ho ht hl => ?_⟩
      · have hnew : ReqState.step .new (.start "voms".toList) =
            reading ⟨[], [], [], 0, false, 0⟩ := rfl
        rw [List.foldl_cons, hnew, List.foldl_append, List.foldl_append, hf1]
        simp only [List.nil_append]
        rw [hf2]
        rfl
      · rw [hw1 hs, hw2 ho ht hl]
        rfl

/-! ## There and back -/

/-- The request asks for this. -/
def Asks (r : Request) (commands : List Str) (order targets : Str) (lifetime : Int) : Prop :=
  r.command = commands ∧ r.order = order ∧ r.targets = targets ∧ r.lifetime = lifetime

/-- A last command that is empty is lost. -/
theorem getlines_join {commands : List Str} (h : ∀ c ∈ commands, ',' ∉ c) :
    getlines ',' (join ',' commands) =
      if commands.getLast? = some [] then commands.dropLast else commands := by
  unfold getlines join
  by_cases hnil : commands = []
  · subst hnil
    rfl
  · simp only [List.splitOn_intercalate ',' h hnil]

theorem fold_leaf (name s : Str) (r : Request) :
    (leaf name s).foldl ReqState.step (reading r) = reading (setField r name s) := by
  unfold leaf element run
  by_cases hs : s = []
  · rw [if_pos hs, hs]
    rfl
  · rw [if_neg hs]
    rfl

theorem fold_optional (name s : Str) (r : Request) :
    (optional name s).foldl ReqState.step (reading r) =
      reading (if s = [] then r else setField r name s) := by
  unfold optional
  by_cases hs : s = []
  · rw [if_pos hs, if_pos hs]
    rfl
  · rw [if_neg hs, if_neg hs, fold_leaf]

theorem fold_commands (commands : List Str) : ∀ r : Request,
    (commands.flatMap (leaf "command".toList)).foldl ReqState.step (reading r) =
      reading { r with command := r.command ++ commands } := by
  induction commands with
  | nil => intro r; simp
  | cons c commands ih =>
    intro r
    have hset : setField r "command".toList c = { r with command := r.command ++ [c] } := by
      simp [setField]
    rw [List.flatMap_cons, List.foldl_append, fold_leaf, hset, ih]
    simp

/-- Of a request handed over in whole texts everything is read. -/
theorem fold_request (commands : List Str) (order targets : Str) (lifetime : Int) :
    ((requestDoc commands order targets lifetime).foldl ReqState.step .new).r =
      ⟨order, targets, commands, atoi (lifetimeText lifetime), true, 4⟩ := by
  have hnew : ReqState.step .new (.start "voms".toList) =
      reading ⟨[], [], [], 0, false, 0⟩ := rfl
  unfold requestDoc requestBody element
  rw [List.cons_append, List.foldl_cons, hnew, List.foldl_append, List.foldl_append,
    fold_commands, List.foldl_append, fold_optional, set_order rfl id, List.foldl_append,
    fold_optional, set_targets rfl id, List.foldl_append, fold_leaf, List.foldl_append, fold_leaf,
    fold_leaf, set_version]
  rfl

/-- What a client may ask for: texts without markup, commands without commas,
and a lifetime that is a positive `int`. -/
structure Sendable (commands : List Str) (order targets : Str) (lifetime : Int) : Prop where
  commands_data : ∀ c ∈ commands, charData c = true
  commands_comma : ∀ c ∈ commands, ',' ∉ c
  order_data : charData order = true
  targets_data : charData targets = true
  lifetime_pos : 0 < lifetime
  lifetime_int : lifetime < 2 ^ 31

/-- A faithful parser hands over what was sent. -/
theorem expat_request {X : Wire} (hX : Faithful requestProlog X.expat) {commands : List Str}
    {order targets : Str} {lifetime : Int} (h : Sendable commands order targets lifetime) :
    ∃ es, X.expat (xmlReqEncode (join ',' commands) order targets lifetime) = (es, true) ∧
      Delivers (requestDoc (getlines ',' (join ',' commands)) order targets lifetime) es := by
  have hdata : ∀ c ∈ getlines ',' (join ',' commands), charData c = true := by
    intro c hc
    rw [getlines_join h.commands_comma] at hc
    split at hc
    · exact h.commands_data c (List.dropLast_subset _ hc)
    · exact h.commands_data c hc
  obtain ⟨es, hes, hx⟩ := hX _ (wellFormed_requestDoc hdata h.order_data h.targets_data)
  exact ⟨es, by rw [xmlReqEncode_eq]; exact hx, hes⟩

/-- A lifetime that is read as it was written was not cut. -/
theorem lifetime_whole {lifetime : Int} (hpos : 0 < lifetime) (hint : lifetime < 2 ^ 31) {vl : Str}
    (h : Kept (lifetimeText lifetime) vl) (hnum : atoi vl = lifetime) :
    vl = lifetimeText lifetime := by
  obtain ⟨front, hfront, -⟩ := h
  have htext : lifetimeText lifetime = decimal lifetime := by
    unfold lifetimeText
    rw [if_neg (by omega)]
  by_cases hnil : front = []
  · rw [← hfront, hnil, List.nil_append]
  · rw [htext] at hfront
    exact absurd hnum (atoi_decimal_suffix hpos hint hfront hnil)

/-- **A request is read as it was sent exactly if the parser hands every text
over in one piece and the last command is not empty.** -/
theorem xmlReqDecode_encode_iff {X : Wire} (hX : Faithful requestProlog X.expat)
    {commands : List Str} {order targets : Str} {lifetime : Int}
    (h : Sendable commands order targets lifetime) :
    (∃ r, xmlReqDecode X (xmlReqEncode (join ',' commands) order targets lifetime) = some r ∧
      Asks r commands order targets lifetime) ↔
    commands.getLast? ≠ some [] ∧
      (X.expat (xmlReqEncode (join ',' commands) order targets lifetime)).1 =
        requestDoc commands order targets lifetime := by
  obtain ⟨es, hx, hes⟩ := expat_request hX h
  have hdecode : xmlReqDecode X (xmlReqEncode (join ',' commands) order targets lifetime) =
      some (es.foldl ReqState.step .new).r := by
    unfold xmlReqDecode
    rw [hx]
    rfl
  have hget := getlines_join h.commands_comma
  rw [hdecode, hx]
  simp only [Option.some.injEq, exists_eq_left']
  constructor
  · intro hasks
    obtain ⟨vs, vo, vt, vl, hvs, -, -, hvl, hr, hwhole⟩ := read_request hes
    rw [hr] at hasks
    obtain ⟨hcommand, horder, htargets, hlifetime⟩ := hasks
    have hcommand : vs = commands := hcommand
    have hlast : commands.getLast? ≠ some [] := by
      intro hlast
      -- one command fewer was sent
      have hlen := hvs.length_eq
      have hne : commands ≠ [] := fun e => by simp [e] at hlast
      have := List.length_pos_of_ne_nil hne
      rw [hget, if_pos hlast, hcommand, List.length_dropLast] at hlen
      omega
    rw [if_neg hlast] at hget
    rw [hget] at hwhole
    exact ⟨hlast, hwhole hcommand horder htargets
      (lifetime_whole h.lifetime_pos h.lifetime_int hvl hlifetime)⟩
  · rintro ⟨-, rfl⟩
    rw [fold_request]
    have htext : lifetimeText lifetime = decimal lifetime := by
      unfold lifetimeText
      rw [if_neg (by have := h.lifetime_pos; omega)]
    have hnum : atoi (lifetimeText lifetime) = lifetime := by
      have := h.lifetime_pos
      rw [htext, atoi_decimal (by omega) h.lifetime_int]
    exact ⟨rfl, rfl, rfl, hnum⟩

namespace Sample

/-- A parser that never cuts a text. -/
def wire : Wire where
  expat := plainParser requestProlog
  base64Decode := id

/-- A parser that cuts every text. -/
def slowWire : Wire where
  expat := slowParser requestProlog
  base64Decode := id

theorem sendable : Sendable ["G/vo".toList, "B/vo:pilot".toList] "/vo".toList [] 60 where
  commands_data := by decide
  commands_comma := by decide
  order_data := by decide
  targets_data := by decide
  lifetime_pos := by decide
  lifetime_int := by decide

end Sample

theorem xmlReqDecode_encode_sample :
    ∃ r, xmlReqDecode Sample.wire (xmlReqEncode (join ',' ["G/vo".toList, "B/vo:pilot".toList])
        "/vo".toList [] 60) = some r ∧
      Asks r ["G/vo".toList, "B/vo:pilot".toList] "/vo".toList [] 60 :=
  (xmlReqDecode_encode_iff (faithful_plainParser requestProlog) Sample.sendable).mpr
    ⟨by decide, by decide⟩

/-- Of texts that come character by character the last character is read. -/
theorem xmlReqDecode_cut :
    Faithful requestProlog Sample.slowWire.expat ∧
      Sendable ["G/vo".toList, "B/vo:pilot".toList] "/vo".toList [] 60 ∧
      ∃ r, xmlReqDecode Sample.slowWire (xmlReqEncode
          (join ',' ["G/vo".toList, "B/vo:pilot".toList]) "/vo".toList [] 60) = some r ∧
        r.command = ["o".toList, "t".toList] ∧ r.order = "o".toList ∧ r.lifetime = 0 ∧
        ¬ Asks r ["G/vo".toList, "B/vo:pilot".toList] "/vo".toList [] 60 := by
  refine ⟨faithful_slowParser requestProlog, Sample.sendable, _, rfl, by decide, by decide,
    by decide, fun h => ?_⟩
  exact absurd h.2.1 (by decide)

end Voms.L3
