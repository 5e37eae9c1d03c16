import Voms.L3Wire.Xml

/-!
# Documents and the ways a parser delivers them

An XML document without attributes, comments, references or sections is the
list of its tags and of the runs of character data between them: the same
type as the calls of the handlers, with each run whole. `render` is its
text. A parser delivers the tags as they are and cuts a run into pieces as
its buffers fall (`Delivers`); it is `Faithful` if it does no more to any
well-formed document behind the given prolog.

* `faithful_plainParser`: there is such a parser. It refuses whatever is
  not the text of a well-formed document.
* `pieces_whole`: if the last piece of a run is the run, it was not cut.
-/
namespace Voms.L3

open Voms.Core

/-! ## Documents -/

/-- Tags and whole runs of character data. -/
abbrev Document := List XmlEvent

/-- The text of a tag or of a run. -/
def XmlEvent.source : XmlEvent → Str
  | .start name => '<' :: name ++ ['>']
  | .stop name => '<' :: '/' :: name ++ ['>']
  | .text s => s

def render (d : Document) : Str := d.flatMap XmlEvent.source

theorem render_append (d e : Document) : render (d ++ e) = render d ++ render e := by
  simp [render]

theorem render_cons (t : XmlEvent) (d : Document) : render (t :: d) = t.source ++ render d := by
  simp [render]

/-- A run of character data; an empty one is nothing. -/
def run (s : Str) : Document := if s = [] then [] else [.text s]

theorem render_run (s : Str) : render (run s) = s := by
  unfold run render
  split
  · next h => simp [h]
  · simp [XmlEvent.source]

/-- An element around some content. -/
def element (name : Str) (body : Document) : Document := .start name :: body ++ [.stop name]

/-- An element around a text. -/
def leaf (name s : Str) : Document := element name (run s)

/-- An element that is there only if it has a text. -/
def optional (name s : Str) : Document := if s = [] then [] else leaf name s

theorem render_element (name : Str) (body : Document) :
    render (element name body) =
      ('<' :: name ++ ['>']) ++ render body ++ ('<' :: '/' :: name ++ ['>']) := by
  simp [render, element, XmlEvent.source]

theorem render_leaf (name s : Str) :
    render (leaf name s) = ('<' :: name ++ ['>']) ++ s ++ ('<' :: '/' :: name ++ ['>']) := by
  rw [leaf, render_element, render_run]

theorem render_optional (name s : Str) :
    render (optional name s) =
      if s = [] then [] else ('<' :: name ++ ['>']) ++ s ++ ('<' :: '/' :: name ++ ['>']) := by
  unfold optional
  split
  · rfl
  · rw [render_leaf]

/-! ## Well-formed documents -/

/-- The characters of a text: printable ones, tabs and line ends. -/
def printable (c : Char) : Bool := c = '\t' || c = '\n' || (32 ≤ c.toNat && c.toNat < 127)

/-- Character data: no markup, and no end of a section. -/
def charData (s : Str) : Bool :=
  s.all (fun c => printable c && c != '<' && c != '&') && (strstr "]]>".toList s).isNone

/-- Without a closing bracket no section can end. -/
theorem charData_of_noGt {s : Str}
    (h : ∀ c ∈ s, printable c = true ∧ c ≠ '<' ∧ c ≠ '&' ∧ c ≠ '>') : charData s = true := by
  have hend : strstr "]]>".toList s = none := by
    rw [strstr_eq_none]
    intro hin
    exact (h '>' (hin.subset (by decide))).2.2.2 rfl
  unfold charData
  rw [hend]
  simp only [Option.isNone_none, Bool.and_true, List.all_eq_true]
  intro c hc
  obtain ⟨hp, hlt, hamp, -⟩ := h c hc
  simp [hp, hlt, hamp]

theorem digit_text {c : Char} (h : c.isDigit = true) :
    printable c = true ∧ c ≠ '<' ∧ c ≠ '&' ∧ c ≠ '>' := by
  have hrange : 48 ≤ c.toNat ∧ c.toNat ≤ 57 := by
    simpa [Char.isDigit, UInt32.le_iff_toNat_le] using h
  refine ⟨?_, ?_, ?_, ?_⟩
  · simp only [printable, Bool.or_eq_true, Bool.and_eq_true, decide_eq_true_eq]
    omega
  · rintro rfl
    exact absurd h (by decide)
  · rintro rfl
    exact absurd h (by decide)
  · rintro rfl
    exact absurd h (by decide)

/-- Element names of small letters and digits. -/
def isName : Str → Bool
  | [] => false
  | c :: t => c.isLower && t.all fun c => c.isLower || c.isDigit

/-- Does the document begin with a run? -/
def startsText : Document → Bool
  | .text _ :: _ => true
  | _ => false

/-- The rest of a document inside these open elements, the innermost first. -/
def closes : List Str → Document → Bool
  | [], d => d.isEmpty
  | _ :: _, [] => false
  | name :: up, .start inner :: d => isName inner && closes (inner :: name :: up) d
  | name :: up, .stop outer :: d => name = outer && closes up d
  | name :: up, .text s :: d =>
    !s.isEmpty && charData s && !startsText d && closes (name :: up) d

/-- One element, and every tag in its place. -/
def wellFormed : Document → Bool
  | .start root :: d => isName root && closes [root] d
  | _ => false

/-- Content that can stand between any two tags. -/
def Balanced (b : Document) : Prop :=
  (∀ name up d, closes (name :: up) (b ++ d) = closes (name :: up) d) ∧ startsText b = false

theorem Balanced.nil : Balanced [] := ⟨fun _ _ _ => rfl, rfl⟩

theorem Balanced.append {a b : Document} (ha : Balanced a) (hb : Balanced b) :
    Balanced (a ++ b) := by
  refine ⟨fun name up d => ?_, ?_⟩
  · rw [List.append_assoc, ha.1, hb.1]
  · cases a with
    | nil => exact hb.2
    | cons t a => cases t <;> first | rfl | exact ha.2

theorem Balanced.element {name : Str} {body : Document} (hn : isName name = true)
    (hb : Balanced body) : Balanced (element name body) := by
  refine ⟨fun outer up d => ?_, rfl⟩
  simp only [L3.element, List.cons_append, List.append_assoc, List.nil_append, closes, hn, hb.1,
    Bool.true_and, decide_true]

theorem Balanced.leaf {name s : Str} (hn : isName name = true) (hs : charData s = true) :
    Balanced (leaf name s) := by
  refine ⟨fun outer up d => ?_, rfl⟩
  unfold L3.leaf L3.element run
  by_cases h : s = []
  · simp [h, closes, hn]
  · simp [h, closes, hn, hs, startsText]

theorem Balanced.optional {name s : Str} (hn : isName name = true) (hs : charData s = true) :
    Balanced (optional name s) := by
  unfold L3.optional
  split
  · exact .nil
  · exact .leaf hn hs

theorem Balanced.flatMap {α : Type} {f : α → Document} {l : List α}
    (h : ∀ a ∈ l, Balanced (f a)) : Balanced (l.flatMap f) := by
  induction l with
  | nil => exact .nil
  | cons a l ih =>
    rw [List.flatMap_cons]
    exact (h a (List.mem_cons_self ..)).append (ih fun b hb => h b (List.mem_cons_of_mem _ hb))

theorem wellFormed_element {name : Str} {body : Document} (hn : isName name = true)
    (hb : Balanced body) : wellFormed (element name body) = true := by
  simp [wellFormed, element, hn, hb.1, closes]

/-! ## Delivery -/

/-- The handler calls for a document: every run in pieces, none empty. -/
inductive Delivers : Document → List XmlEvent → Prop where
  | nil : Delivers [] []
  | start {name : Str} {d : Document} {es : List XmlEvent} (h : Delivers d es) :
      Delivers (.start name :: d) (.start name :: es)
  | stop {name : Str} {d : Document} {es : List XmlEvent} (h : Delivers d es) :
      Delivers (.stop name :: d) (.stop name :: es)
  | text {pieces : List Str} {d : Document} {es : List XmlEvent} (hne : ∀ p ∈ pieces, p ≠ [])
      (h : Delivers d es) :
      Delivers (.text pieces.flatten :: d) (pieces.map .text ++ es)

theorem Delivers.append_inv {a b : Document} : ∀ {es : List XmlEvent}, Delivers (a ++ b) es →
    ∃ ea eb, es = ea ++ eb ∧ Delivers a ea ∧ Delivers b eb := by
  induction a with
  | nil => exact fun h => ⟨[], _, rfl, .nil, h⟩
  | cons t a ih =>
    intro es h
    cases h with
    | start h =>
      obtain ⟨ea, eb, rfl, ha, hb⟩ := ih h
      exact ⟨_ :: ea, eb, rfl, .start ha, hb⟩
    | stop h =>
      obtain ⟨ea, eb, rfl, ha, hb⟩ := ih h
      exact ⟨_ :: ea, eb, rfl, .stop ha, hb⟩
    | text hne h =>
      obtain ⟨ea, eb, rfl, ha, hb⟩ := ih h
      exact ⟨_, eb, by rw [List.append_assoc], .text hne ha, hb⟩

/-- The calls for an element around a text. -/
theorem Delivers.leaf_inv {name s : Str} {es : List XmlEvent} (h : Delivers (leaf name s) es) :
    ∃ pieces : List Str, (∀ p ∈ pieces, p ≠ []) ∧ pieces.flatten = s ∧
      es = .start name :: pieces.map .text ++ [.stop name] := by
  unfold leaf element run at h
  cases h with
  | start h =>
    split at h
    · next hs =>
      cases h with
      | stop h =>
        cases h
        exact ⟨[], by simp, by simp [hs], rfl⟩
    · cases h with
      | @text pieces _ _ hne h =>
        cases h with
        | stop h =>
          cases h
          exact ⟨pieces, hne, rfl, rfl⟩

/-- No piece but the text itself. -/
theorem pieces_whole {pieces : List Str} (hne : ∀ p ∈ pieces, p ≠ [])
    (h : pieces.getLast?.getD [] = pieces.flatten) :
    pieces.map XmlEvent.text = run pieces.flatten := by
  rcases List.eq_nil_or_concat pieces with rfl | ⟨front, last, rfl⟩
  · rfl
  · have hlast : last ≠ [] := hne last (by simp)
    have hfront : front.flatten = [] := by
      have hlen := congrArg List.length h
      simp only [List.concat_eq_append, List.getLast?_append, List.getLast?_singleton,
        Option.some_or, Option.getD_some, List.flatten_append, List.flatten_singleton,
        List.length_append] at hlen
      exact List.eq_nil_of_length_eq_zero (by omega)
    cases front with
    | nil => simp [run, hlast]
    | cons p front =>
      simp only [List.flatten_cons, List.append_eq_nil_iff] at hfront
      exact absurd hfront.1 (hne p (by simp))

/-- A document of which no run is empty can be delivered as it is. -/
theorem Delivers.refl : ∀ {d : Document}, (∀ s, .text s ∈ d → s ≠ []) → Delivers d d
  | [], _ => .nil
  | .start _ :: _, h => .start (Delivers.refl fun s hs => h s (List.mem_cons_of_mem _ hs))
  | .stop _ :: _, h => .stop (Delivers.refl fun s hs => h s (List.mem_cons_of_mem _ hs))
  | .text s :: d, h => by
    have hs : s ≠ [] := h s (List.mem_cons_self ..)
    have hd := Delivers.refl fun s hs => h s (List.mem_cons_of_mem _ hs)
    simpa using @Delivers.text [s] d d (by simpa using hs) hd

/-- The parser delivers every well-formed document behind the prolog. -/
def Faithful (prolog : Str) (expat : Str → List XmlEvent × Bool) : Prop :=
  ∀ d, wellFormed d = true → ∃ es, Delivers d es ∧ expat (prolog ++ render d) = (es, true)

/-! ## A parser -/

/-- What the scanner is reading. -/
inductive Mode where
  | data (acc : Str)
  | tag (acc : Str)

/-- The tag with this text between its brackets. -/
def tagOf : Str → XmlEvent
  | '/' :: name => .stop name
  | name => .start name

/-- Tags and runs, as they follow each other. -/
def scan : Mode → Str → Option Document
  | .data acc, [] => some (run acc)
  | .tag _, [] => none
  | .data acc, c :: s =>
    if c = '<' then (scan (.tag []) s).map (run acc ++ ·) else scan (.data (acc ++ [c])) s
  | .tag acc, c :: s =>
    if c = '>' then (scan (.data []) s).map (tagOf acc :: ·) else scan (.tag (acc ++ [c])) s

/-- A parser for the documents of this module and no others. -/
def plainParser (prolog text : Str) : List XmlEvent × Bool :=
  if prolog.isPrefixOf text then
    match scan (.data []) (text.drop prolog.length) with
    | some d => if wellFormed d then (d, true) else ([], false)
    | none => ([], false)
  else ([], false)

theorem scan_tag {name : Str} : ∀ {acc s : Str}, '>' ∉ name →
    scan (.tag acc) (name ++ '>' :: s) = (scan (.data []) s).map (tagOf (acc ++ name) :: ·) := by
  induction name with
  | nil => intro acc s _; simp [scan]
  | cons c name ih =>
    intro acc s h
    rw [List.mem_cons, not_or] at h
    rw [List.cons_append, scan, if_neg (fun e => h.1 e.symm), ih h.2, List.append_assoc]
    rfl

theorem scan_data {t : Str} : ∀ {acc s : Str}, '<' ∉ t →
    scan (.data acc) (t ++ s) = scan (.data (acc ++ t)) s := by
  induction t with
  | nil => intro acc s _; simp
  | cons c t ih =>
    intro acc s h
    rw [List.mem_cons, not_or] at h
    rw [List.cons_append, scan, if_neg (fun e => h.1 e.symm), ih h.2, List.append_assoc]
    rfl

theorem noBracket_of_isName {name : Str} (h : isName name = true) : '>' ∉ name := by
  intro hc
  cases name with
  | nil => cases hc
  | cons c t =>
    simp only [isName, Bool.and_eq_true, List.all_eq_true] at h
    rcases List.mem_cons.mp hc with rfl | hc
    · exact absurd h.1 (by decide)
    · exact absurd (h.2 _ hc) (by decide)

theorem tagOf_start {name : Str} (h : isName name = true) : tagOf name = .start name := by
  cases name with
  | nil => rfl
  | cons c t =>
    have hc : c ≠ '/' := by
      rintro rfl
      simp only [isName, Bool.and_eq_true] at h
      exact absurd h.1 (by decide)
    unfold tagOf
    split
    · next heq => exact absurd (List.cons.inj heq).1 hc
    · rfl

theorem scan_start {name s : Str} (h : isName name = true) :
    scan (.data []) ((XmlEvent.start name).source ++ s) =
      (scan (.data []) s).map (.start name :: ·) := by
  have htag := @scan_tag name [] s (noBracket_of_isName h)
  rw [List.nil_append, tagOf_start h] at htag
  simpa [XmlEvent.source, scan, run] using htag

theorem scan_stop {name s : Str} (h : isName name = true) :
    scan (.data []) ((XmlEvent.stop name).source ++ s) =
      (scan (.data []) s).map (.stop name :: ·) := by
  have hslash : '>' ∉ '/' :: name := by simpa using noBracket_of_isName h
  have htag := @scan_tag ('/' :: name) [] s hslash
  rw [List.nil_append, tagOf] at htag
  simpa [XmlEvent.source, scan, run] using htag

theorem noMarkup_of_charData {s : Str} (h : charData s = true) : '<' ∉ s ∧ '&' ∉ s := by
  simp only [charData, Bool.and_eq_true, List.all_eq_true] at h
  constructor
  · intro hc
    exact absurd (h.1 _ hc).1.2 (by decide)
  · intro hc
    exact absurd (h.1 _ hc).2 (by decide)

/-- Pending data is put before what does not begin with data. -/
theorem scan_run {acc : Str} {d : Document} (h : startsText d = false) :
    scan (.data acc) (render d) = (scan (.data []) (render d)).map (run acc ++ ·) := by
  cases d with
  | nil => simp [render, scan, run]
  | cons t d =>
    rw [render_cons]
    cases t with
    | text s => cases h
    | start name =>
      simp only [XmlEvent.source, List.cons_append, scan, if_true, Option.map_map]
      simp [run, Function.comp_def]
    | stop name =>
      simp only [XmlEvent.source, List.cons_append, scan, if_true, Option.map_map]
      simp [run, Function.comp_def]

/-- The tags of well-formed content have names. -/
theorem scan_render : ∀ {d : Document} {up : List Str}, (∀ name ∈ up, isName name = true) →
    closes up d = true → scan (.data []) (render d) = some d
  | [], [], _, _ => rfl
  | [], _ :: _, _, h => by cases h
  | _ :: _, [], _, h => by cases h
  | .start inner :: d, name :: up, hup, h => by
    simp only [closes, Bool.and_eq_true] at h
    rw [render_cons, scan_start h.1, scan_render (List.forall_mem_cons.mpr ⟨h.1, hup⟩) h.2]
    rfl
  | .stop outer :: d, name :: up, hup, h => by
    simp only [closes, Bool.and_eq_true, decide_eq_true_eq] at h
    obtain ⟨rfl, h⟩ := h
    obtain ⟨hname, hup⟩ := List.forall_mem_cons.mp hup
    rw [render_cons, scan_stop hname, scan_render hup h]
    rfl
  | .text s :: d, name :: up, hup, h => by
    simp only [closes, Bool.and_eq_true, Bool.not_eq_true'] at h
    obtain ⟨⟨⟨hne, hs⟩, hd⟩, h⟩ := h
    have hne : s ≠ [] := by simpa using hne
    rw [render_cons, XmlEvent.source, scan_data (noMarkup_of_charData hs).1, scan_run hd,
      scan_render hup h]
    simp [run, hne]

theorem text_ne_nil : ∀ {d : Document} {up : List Str} {s : Str}, closes up d = true →
    .text s ∈ d → s ≠ [] ∧ charData s = true
  | [], [], _, _, hs => by cases hs
  | [], _ :: _, _, h, _ => by cases h
  | _ :: _, [], _, h, _ => by cases h
  | .start inner :: d, name :: up, s, h, hs => by
    simp only [closes, Bool.and_eq_true] at h
    exact text_ne_nil h.2 (by simpa using hs)
  | .stop outer :: d, name :: up, s, h, hs => by
    simp only [closes, Bool.and_eq_true] at h
    exact text_ne_nil h.2 (by simpa using hs)
  | .text t :: d, name :: up, s, h, hs => by
    simp only [closes, Bool.and_eq_true] at h
    rcases List.mem_cons.mp hs with hs | hs
    · cases hs
      exact ⟨by simpa using h.1.1.1, h.1.1.2⟩
    · exact text_ne_nil h.2 hs

theorem wellFormed_inv {d : Document} (h : wellFormed d = true) :
    ∃ root rest, d = .start root :: rest ∧ isName root = true ∧ closes [root] rest = true := by
  unfold wellFormed at h
  split at h
  · exact ⟨_, _, rfl, by simpa using h⟩
  · cases h

theorem text_of_wellFormed {d : Document} {s : Str} (h : wellFormed d = true) (hs : .text s ∈ d) :
    s ≠ [] ∧ charData s = true := by
  obtain ⟨root, rest, rfl, -, hrest⟩ := wellFormed_inv h
  exact text_ne_nil hrest (by simpa using hs)

theorem plainParser_render {d : Document} (prolog : Str) (h : wellFormed d = true) :
    plainParser prolog (prolog ++ render d) = (d, true) := by
  have hscan : scan (.data []) (render d) = some d := by
    obtain ⟨root, rest, rfl, hroot, hrest⟩ := wellFormed_inv h
    rw [render_cons, scan_start hroot, scan_render (by simpa using hroot) hrest]
    rfl
  have hpre : prolog.isPrefixOf (prolog ++ render d) = true :=
    List.isPrefixOf_iff_prefix.mpr (List.prefix_append _ _)
  unfold plainParser
  rw [if_pos hpre, List.drop_left, hscan]
  simp [h]

/-- **There is a faithful parser.** -/
theorem faithful_plainParser (prolog : Str) : Faithful prolog (plainParser prolog) :=
  fun d h => ⟨d, .refl fun _ hs => (text_of_wellFormed h hs).1, plainParser_render prolog h⟩

/-- The same parser with a buffer of one character. -/
def slowParser (prolog text : Str) : List XmlEvent × Bool :=
  let (d, res) := plainParser prolog text
  (d.flatMap fun
    | .text s => s.map fun c => .text [c]
    | e => [e], res)

theorem delivers_singles : ∀ d : Document, Delivers d (d.flatMap fun
    | .text s => s.map fun c => .text [c]
    | e => [e])
  | [] => .nil
  | .start _ :: d => .start (delivers_singles d)
  | .stop _ :: d => .stop (delivers_singles d)
  | .text s :: d => by
    have hs : (s.map fun c => [c]).flatten = s := by
      induction s with
      | nil => rfl
      | cons c s ih => simp only [List.map_cons, List.flatten_cons, ih]; rfl
    have h := @Delivers.text (s.map fun c => [c]) d _ (by simp) (delivers_singles d)
    rw [hs, List.map_map] at h
    exact h

theorem faithful_slowParser (prolog : Str) : Faithful prolog (slowParser prolog) := by
  intro d h
  unfold slowParser
  rw [plainParser_render prolog h]
  exact ⟨_, delivers_singles d, rfl⟩

/-- What that parser delivers is a well-formed document. -/
theorem wellFormed_of_plainParser {prolog text : Str} {es : List XmlEvent}
    (h : plainParser prolog text = (es, true)) : wellFormed es = true := by
  unfold plainParser at h
  split at h
  · split at h
    · split at h
      · next hd =>
        cases h
        exact hd
      · cases h
    · cases h
  · cases h

end Voms.L3
