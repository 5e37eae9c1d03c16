import Mathlib.Data.List.DropRight
import Mathlib.Data.List.Induction
import Voms.L4Api.Lsc

/-!
# Lines that `readdn` reads right

A line of an LSC file gives its text without the blanks around it, or what
stands between its quotes (`src/api/ccapi/api_util.cc`, `readdn`). The scan
for the closing quote has a mode that a backslash sets and nothing resets,
no exit at the end of the line, and works on a buffer whose tail is stale.

* `lineDn_plain`, `lineDn_closed`, `lineDn_escaped`, `lineDn_open`: what the
  loop body makes of each kind of line.
* `readdn_exact`: `readdn` terminates and gives the text of the first line
  that has one exactly if every line it gets to is `ReadRight`.

A line that does not fit the buffer ends the stream, by `getline`.
-/
namespace Voms.L4

open Voms.Core

/-! ## The text of a line -/

/-- The text up to the first quote that no backslash escapes, and what is
behind that quote. -/
def closing : Bool → Str → Option (Str × Str)
  | _, [] => none
  | true, c :: rest => (closing false rest).map fun (text, rest) => (c :: text, rest)
  | false, c :: rest =>
    if c = '"' then some ([], rest)
    else (closing (c == '\\') rest).map fun (text, rest) => (c :: text, rest)

/-- What stands in a line: its text, or that of its quotes; `none` if they
are not closed. -/
def lineText (s : Str) : Option Str :=
  match s.dropWhile isSpace with
  | [] => some []
  | c :: rest => if c = '"' then (closing false rest).map (·.1) else some (trimRight (c :: rest))

/-- How a file is read: a line without text is passed over. Of an open quote
the text may be anything. -/
def Reads : List Str → Option (Str × List Str) → Prop
  | [], r => r = none
  | line :: file, r =>
    if line.length < 998 then
      match lineText (cStr line) with
      | some [] => Reads file r
      | some text => r = some (text, file)
      | none => (∃ text, r = some (text, file)) ∨ Reads file r
    else r = none

/-- `readdn` returns, behind a line or at the end, with what the file says. -/
def ReadsWell (file : List Str) : Prop :=
  ∃ r, readdn file = .ok r ∧ (∀ dn file', r = some (dn, file') → file'.length < file.length) ∧
    Reads file r

/-- A quote is closed, with nothing but blanks behind it, no blank in front
and no backslash in it; or it is open, and shorter than the blanks before. -/
def ReadRight (s : Str) : Prop :=
  match s.dropWhile isSpace with
  | [] => True
  | c :: rest => c = '"' →
    match closing false rest with
    | some (text, behind) =>
      '\\' ∉ text ∧ trimRight text = text ∧ ∀ c ∈ behind, isSpace c = true
    | none => '\\' ∉ rest ∧ rest.length ≤ (s.takeWhile isSpace).length

/-- The line holds no text. -/
def Blank (s : Str) : Prop := ∀ c ∈ s, isSpace c = true ∨ c = '"'

/-- Every line that is got to is `ReadRight`. -/
def Fine : List Str → Prop
  | [] => True
  | line :: file =>
    line.length < 998 → ReadRight (cStr line) ∧ (Blank (cStr line) → Fine file)

/-! ## Scanning -/

/-- Neither a quote nor a backslash. -/
def Bare (s : Str) : Prop := ∀ c ∈ s, c ≠ '"' ∧ c ≠ '\\'

theorem bare_cons {c : Char} {s : Str} : Bare (c :: s) ↔ (c ≠ '"' ∧ c ≠ '\\') ∧ Bare s :=
  List.forall_mem_cons

/-- The first character the scan looks at. -/
theorem bare_or (s : Str) :
    Bare s ∨ (∃ u v, s = u ++ '"' :: v ∧ Bare u) ∨ ∃ u v, s = u ++ '\\' :: v ∧ Bare u := by
  induction s with
  | nil => exact Or.inl nofun
  | cons c s ih =>
    by_cases hquote : c = '"'
    · exact Or.inr (Or.inl ⟨[], s, by rw [hquote]; rfl, nofun⟩)
    by_cases hslash : c = '\\'
    · exact Or.inr (Or.inr ⟨[], s, by rw [hslash]; rfl, nofun⟩)
    rcases ih with hbare | ⟨u, v, rfl, hbare⟩ | ⟨u, v, rfl, hbare⟩
    · exact Or.inl (bare_cons.mpr ⟨⟨hquote, hslash⟩, hbare⟩)
    · exact Or.inr (Or.inl ⟨c :: u, v, rfl, bare_cons.mpr ⟨⟨hquote, hslash⟩, hbare⟩⟩)
    · exact Or.inr (Or.inr ⟨c :: u, v, rfl, bare_cons.mpr ⟨⟨hquote, hslash⟩, hbare⟩⟩)

theorem closing_append {u v : Str} (h : Bare u) :
    closing false (u ++ v) = (closing false v).map fun (text, rest) => (u ++ text, rest) := by
  induction u with
  | nil => simp
  | cons c u ih =>
    obtain ⟨⟨hquote, hslash⟩, hbare⟩ := bare_cons.mp h
    have hmode : (c == '\\') = false := by simpa using hslash
    rw [List.cons_append, closing, if_neg hquote, hmode, ih hbare, Option.map_map]
    rfl

theorem closing_bare {u : Str} (h : Bare u) : closing false u = none := by
  have happend := closing_append (v := []) h
  rwa [List.append_nil] at happend

theorem closing_closed {u v : Str} (h : Bare u) :
    closing false (u ++ '"' :: v) = some (u, v) := by
  rw [closing_append h, closing, if_pos rfl]
  exact congrArg (fun text => some (text, v)) (List.append_nil u)

/-- Behind a backslash no quote closes the text without it. -/
theorem closing_escaped {u v text behind : Str} (h : Bare u)
    (hclosing : closing false (u ++ '\\' :: v) = some (text, behind)) : '\\' ∈ text := by
  rw [closing_append h, closing, if_neg (by decide)] at hclosing
  cases hrest : closing ('\\' == '\\') v with
  | none => rw [hrest] at hclosing; cases hclosing
  | some p =>
    rw [hrest] at hclosing
    cases hclosing
    simp

/-- In mode 2 there is no way out. -/
theorem closeQuote_mode2 : ∀ {s : Str} {n : Nat}, closeQuote true s n = none
  | [], _ => rfl
  | c :: s, n => by
    unfold closeQuote
    split
    · exact closeQuote_mode2
    · split <;> exact closeQuote_mode2

theorem closeQuote_append {u v : Str} (h : Bare u) {n : Nat} :
    closeQuote false (u ++ v) n = closeQuote false v (n + u.length) := by
  induction u generalizing n with
  | nil => rfl
  | cons c u ih =>
    obtain ⟨⟨hquote, hslash⟩, hbare⟩ := bare_cons.mp h
    rw [List.cons_append, closeQuote, if_neg hslash, if_neg hquote, ih hbare, List.length_cons]
    congr 1
    omega

/-! ## Blanks at the end -/

theorem trimRight_eq_nil {s : Str} : trimRight s = [] ↔ ∀ c ∈ s, isSpace c = true :=
  List.rdropWhile_eq_nil_iff

theorem trimRight_concat {s : Str} {c : Char} :
    trimRight (s ++ [c]) = if isSpace c = true then trimRight s else s ++ [c] :=
  List.rdropWhile_concat _ _ _

theorem trimRight_append_blank {s t : Str} (h : ∀ c ∈ t, isSpace c = true) :
    trimRight (s ++ t) = trimRight s := by
  induction t using List.reverseRecOn with
  | nil => rw [List.append_nil]
  | append_singleton t c ih =>
    rw [← List.append_assoc, trimRight_concat, if_pos (h c (by simp))]
    exact ih fun d hd => h d (List.mem_append_left _ hd)

theorem trimRight_append_text {s t : Str} (h : ¬ ∀ c ∈ t, isSpace c = true) :
    trimRight (s ++ t) = s ++ trimRight t := by
  induction t using List.reverseRecOn with
  | nil => exact absurd nofun h
  | append_singleton t c ih =>
    rw [← List.append_assoc, trimRight_concat, trimRight_concat]
    split
    · next hc =>
      refine ih fun hall => h fun d hd => ?_
      rcases List.mem_append.mp hd with hd | hd
      · exact hall d hd
      · rwa [List.mem_singleton.mp hd]
    · exact List.append_assoc _ _ _

/-! ## One line -/

/-- A line is blank, or has a first character behind its blanks. -/
theorem line_cases (s : Str) :
    (∀ c ∈ s, isSpace c = true) ∨
      ∃ blanks c rest, s = blanks ++ c :: rest ∧ (∀ c ∈ blanks, isSpace c = true) ∧
        isSpace c = false := by
  induction s with
  | nil => exact Or.inl nofun
  | cons c s ih =>
    cases hc : isSpace c with
    | false => exact Or.inr ⟨[], c, s, rfl, nofun, hc⟩
    | true =>
      rcases ih with hall | ⟨blanks, d, rest, rfl, hblanks, hd⟩
      · exact Or.inl (List.forall_mem_cons.mpr ⟨hc, hall⟩)
      · exact Or.inr ⟨c :: blanks, d, rest, rfl, List.forall_mem_cons.mpr ⟨hc, hblanks⟩, hd⟩

section

variable {blanks rest : Str} {c : Char} (hblanks : ∀ c ∈ blanks, isSpace c = true)
include hblanks

theorem takeWhile_line (hc : isSpace c = false) :
    (blanks ++ c :: rest).takeWhile isSpace = blanks := by
  rw [List.takeWhile_append_of_pos hblanks, List.takeWhile_cons_of_neg (by simp [hc]),
    List.append_nil]

theorem dropWhile_line (hc : isSpace c = false) :
    (blanks ++ c :: rest).dropWhile isSpace = c :: rest := by
  rw [List.dropWhile_append_of_pos hblanks, List.dropWhile_cons_of_neg (by simp [hc])]

/-- A line without quotes. -/
theorem lineDn_plain (hc : isSpace c = false) (hquote : c ≠ '"') :
    lineDn (blanks ++ c :: rest) = .ok (trimRight (c :: rest)) := by
  unfold lineDn
  simp only [takeWhile_line hblanks hc, List.drop_left]
  split
  · next h => cases h
  · next h =>
    cases h
    exact absurd rfl hquote
  · rfl

/-- The scan starts behind the quote, over the text and what it did not cover. -/
theorem lineDn_quoted :
    lineDn (blanks ++ '"' :: rest) =
      match closeQuote false (rest ++ (blanks ++ '"' :: rest).drop rest.length) 0 with
      | none => .fault .diverge
      | some start =>
        .ok (trimRight (((rest ++ (blanks ++ '"' :: rest).drop rest.length).set (start - 1) ' ').take
          rest.length)) := by
  have htake : (blanks ++ '"' :: rest).takeWhile isSpace = blanks :=
    takeWhile_line hblanks (by decide)
  unfold lineDn
  simp only [htake, List.drop_left]
  rfl

end

/-- What is behind the closing quote stays. -/
theorem lineDn_closed {blanks u v : Str} (hblanks : ∀ c ∈ blanks, isSpace c = true)
    (h : Bare u) :
    lineDn (blanks ++ '"' :: (u ++ '"' :: v)) = .ok (trimRight (u ++ ' ' :: v)) := by
  rw [lineDn_quoted hblanks, List.append_assoc, closeQuote_append h, List.cons_append, closeQuote,
    if_neg (by decide), if_pos rfl, if_neg (by decide)]
  simp only [Nat.zero_add, Nat.add_sub_cancel]
  rw [List.set_append_right _ _ (Nat.le_refl _), Nat.sub_self, List.set_cons_zero,
    ← List.cons_append, ← List.append_assoc, List.take_left' (by simp)]

/-- With a backslash the scan never ends. -/
theorem lineDn_escaped {blanks u v : Str} (hblanks : ∀ c ∈ blanks, isSpace c = true)
    (h : Bare u) : lineDn (blanks ++ '"' :: (u ++ '\\' :: v)) = .fault .diverge := by
  rw [lineDn_quoted hblanks, List.append_assoc, closeQuote_append h, List.cons_append, closeQuote,
    if_pos rfl, closeQuote_mode2]

theorem bare_of_blank {s : Str} (h : ∀ c ∈ s, isSpace c = true) : Bare s := by
  intro c hc
  refine ⟨?_, ?_⟩
  · rintro rfl
    exact absurd (h _ hc) (by decide)
  · rintro rfl
    exact absurd (h _ hc) (by decide)

/-- Of an open quote the scan finds the quote itself, if the text moved over
the blanks before it leaves it there. -/
theorem lineDn_open {blanks rest : Str} (hblanks : ∀ c ∈ blanks, isSpace c = true)
    (h : Bare rest) :
    lineDn (blanks ++ '"' :: rest) =
      if rest.length ≤ blanks.length then .ok (trimRight rest) else .fault .diverge := by
  rw [lineDn_quoted hblanks]
  by_cases hfits : rest.length ≤ blanks.length
  · have hclean : Bare (rest ++ blanks.drop rest.length) :=
      List.forall_mem_append.mpr ⟨h, fun c hc => bare_of_blank hblanks c (List.mem_of_mem_drop hc)⟩
    have hlength : rest.length ≤ (rest ++ blanks.drop rest.length).length := by simp
    rw [if_pos hfits, List.drop_append_of_le_length hfits, ← List.append_assoc,
      closeQuote_append hclean, closeQuote, if_neg (by decide), if_pos rfl,
      if_neg (by decide)]
    simp only [Nat.zero_add, Nat.add_sub_cancel]
    rw [List.append_assoc, List.set_append_right _ _ hlength, List.take_left]
  · have hstale : (blanks ++ '"' :: rest).drop rest.length =
        rest.drop (rest.length - blanks.length - 1) := by
      rw [List.drop_append, List.drop_eq_nil_of_le (by omega), List.nil_append,
        ← Nat.sub_add_cancel (show 1 ≤ rest.length - blanks.length by omega),
        List.drop_succ_cons, Nat.add_sub_cancel]
    have hclean : Bare (rest ++ rest.drop (rest.length - blanks.length - 1)) :=
      List.forall_mem_append.mpr ⟨h, fun c hc => h c (List.mem_of_mem_drop hc)⟩
    rw [if_neg hfits, hstale, ← List.append_nil (rest ++ _), closeQuote_append hclean]
    rfl

/-! ## What a line gives -/

/-- The line goes through: with its text, if it has one, and as blank if it
holds none. -/
def GoesThrough (s : Str) : Prop :=
  ∃ dn, lineDn s = .ok dn ∧ (lineText s = some dn ∨ lineText s = none) ∧ (dn = [] ↔ Blank s)

/-- It does not: the scan loops, or the text is another. -/
def GoesWrong (s : Str) : Prop :=
  lineDn s = .fault .diverge ∨ ∃ dn text, lineDn s = .ok dn ∧ lineText s = some text ∧ dn ≠ text

theorem blank_quoted {blanks rest : Str} (hblanks : ∀ c ∈ blanks, isSpace c = true) :
    Blank (blanks ++ '"' :: rest) ↔ Blank rest := by
  unfold Blank
  rw [List.forall_mem_append, List.forall_mem_cons]
  exact ⟨fun h => h.2.2, fun h => ⟨fun c hc => Or.inl (hblanks c hc), Or.inr rfl, h⟩⟩

theorem blank_of_bare {s : Str} (h : Bare s) : Blank s ↔ ∀ c ∈ s, isSpace c = true :=
  ⟨fun hblank c hc => (hblank c hc).resolve_right (h c hc).1, fun hall c hc => Or.inl (hall c hc)⟩

theorem line_exact_blank {s : Str} (hall : ∀ c ∈ s, isSpace c = true) :
    ReadRight s ∧ GoesThrough s := by
  have hdrop : s.dropWhile isSpace = [] := List.dropWhile_eq_nil_iff.mpr hall
  have hdn : lineDn s = .ok [] := by
    unfold lineDn
    simp only [List.takeWhile_eq_self_iff.mpr hall, List.drop_length]
    rfl
  unfold ReadRight GoesThrough lineText
  rw [hdrop]
  exact ⟨trivial, [], hdn, Or.inl rfl, iff_of_true rfl fun c hc => Or.inl (hall c hc)⟩

theorem line_exact_plain {blanks rest : Str} {c : Char}
    (hblanks : ∀ c ∈ blanks, isSpace c = true) (hc : isSpace c = false) (hquote : c ≠ '"') :
    ReadRight (blanks ++ c :: rest) ∧ GoesThrough (blanks ++ c :: rest) := by
  unfold ReadRight GoesThrough lineText
  rw [dropWhile_line hblanks hc]
  refine ⟨fun h => absurd h hquote, _, lineDn_plain hblanks hc hquote,
    Or.inl (if_neg hquote), iff_of_false ?_ ?_⟩
  · intro hnil
    exact Bool.false_ne_true (hc.symm.trans (trimRight_eq_nil.mp hnil c List.mem_cons_self))
  · intro hblank
    rcases hblank c (by simp) with hspace | hq
    · exact Bool.false_ne_true (hc.symm.trans hspace)
    · exact hquote hq

section

variable {blanks : Str} (hblanks : ∀ c ∈ blanks, isSpace c = true)
include hblanks

theorem readRight_quoted {rest : Str} :
    ReadRight (blanks ++ '"' :: rest) ↔
      match closing false rest with
      | some (text, behind) =>
        '\\' ∉ text ∧ trimRight text = text ∧ ∀ c ∈ behind, isSpace c = true
      | none => '\\' ∉ rest ∧ rest.length ≤ blanks.length := by
  unfold ReadRight
  rw [dropWhile_line hblanks (by decide), takeWhile_line hblanks (by decide)]
  exact ⟨fun h => h rfl, fun h _ => h⟩

theorem lineText_quoted {rest : Str} :
    lineText (blanks ++ '"' :: rest) = (closing false rest).map (·.1) := by
  unfold lineText
  rw [dropWhile_line hblanks (by decide)]
  exact if_pos rfl

theorem line_exact_open {rest : Str} (h : Bare rest) :
    (ReadRight (blanks ++ '"' :: rest) ∧ GoesThrough (blanks ++ '"' :: rest)) ∨
      (¬ ReadRight (blanks ++ '"' :: rest) ∧ GoesWrong (blanks ++ '"' :: rest)) := by
  unfold GoesThrough GoesWrong
  rw [readRight_quoted hblanks, lineText_quoted hblanks, closing_bare h,
    lineDn_open hblanks h, blank_quoted hblanks, blank_of_bare h]
  have hslash : '\\' ∉ rest := fun hmem => (h _ hmem).2 rfl
  by_cases hfits : rest.length ≤ blanks.length
  · rw [if_pos hfits]
    exact Or.inl ⟨⟨hslash, hfits⟩, _, rfl, Or.inr rfl, trimRight_eq_nil⟩
  · rw [if_neg hfits]
    exact Or.inr ⟨fun h => hfits h.2, Or.inl rfl⟩

theorem line_exact_closed {u v : Str} (h : Bare u) :
    (ReadRight (blanks ++ '"' :: (u ++ '"' :: v)) ∧
        GoesThrough (blanks ++ '"' :: (u ++ '"' :: v))) ∨
      (¬ ReadRight (blanks ++ '"' :: (u ++ '"' :: v)) ∧
        GoesWrong (blanks ++ '"' :: (u ++ '"' :: v))) := by
  unfold GoesThrough GoesWrong
  rw [readRight_quoted hblanks, lineText_quoted hblanks, closing_closed h,
    lineDn_closed hblanks h, blank_quoted hblanks]
  have hslash : '\\' ∉ u := fun hmem => (h _ hmem).2 rfl
  by_cases hbehind : ∀ c ∈ v, isSpace c = true
  · rw [trimRight_append_blank (List.forall_mem_cons.mpr ⟨by decide, hbehind⟩)]
    by_cases htext : trimRight u = u
    · left
      have hblank : Blank (u ++ '"' :: v) ↔ ∀ c ∈ u, isSpace c = true := by
        rw [← blank_of_bare h]
        unfold Blank
        rw [List.forall_mem_append, List.forall_mem_cons]
        exact ⟨fun hall => hall.1, fun hall => ⟨hall, Or.inr rfl, fun c hc => Or.inl (hbehind c hc)⟩⟩
      exact ⟨⟨hslash, htext, hbehind⟩, _, rfl, Or.inl (congrArg some htext.symm),
        trimRight_eq_nil.trans hblank.symm⟩
    · exact Or.inr ⟨fun hright => htext hright.2.1, Or.inr ⟨_, _, rfl, rfl, htext⟩⟩
  · -- the text is followed by what is behind the quote
    have hall : ¬ ∀ c ∈ ' ' :: v, isSpace c = true := fun hall =>
      hbehind fun c hc => hall c (List.mem_cons_of_mem _ hc)
    rw [trimRight_append_text hall]
    refine Or.inr ⟨fun hright => hbehind hright.2.2, Or.inr ⟨_, _, rfl, rfl, fun heq => ?_⟩⟩
    exact hall (trimRight_eq_nil.mp (List.append_right_eq_self.mp heq))

end

/-- **One line**: it goes through exactly if it is read right. -/
theorem line_exact (s : Str) :
    (ReadRight s ∧ GoesThrough s) ∨ (¬ ReadRight s ∧ GoesWrong s) := by
  rcases line_cases s with hall | ⟨blanks, c, rest, rfl, hblanks, hc⟩
  · exact Or.inl (line_exact_blank hall)
  by_cases hquote : c = '"'
  · subst hquote
    rcases bare_or rest with hbare | ⟨u, v, rfl, hbare⟩ | ⟨u, v, rfl, hbare⟩
    · exact line_exact_open hblanks hbare
    · exact line_exact_closed hblanks hbare
    · -- a backslash before any other quote
      refine Or.inr ⟨fun hright => ?_, Or.inl (lineDn_escaped hblanks hbare)⟩
      rw [readRight_quoted hblanks] at hright
      cases hclosing : closing false (u ++ '\\' :: v) with
      | none =>
        rw [hclosing] at hright
        exact hright.1 (by simp)
      | some p =>
        rw [hclosing] at hright
        exact hright.1 (closing_escaped hbare hclosing)
  · exact Or.inl (line_exact_plain hblanks hc hquote)

/-! ## The file -/

theorem reads_cons {line : Str} {file : List Str} {r : Option (Str × List Str)} :
    Reads (line :: file) r ↔
      if line.length < 998 then
        match lineText (cStr line) with
        | some [] => Reads file r
        | some text => r = some (text, file)
        | none => (∃ text, r = some (text, file)) ∨ Reads file r
      else r = none := Iff.rfl

theorem reads_shorter : ∀ {file file' : List Str} {dn : Str},
    Reads file (some (dn, file')) → file'.length < file.length
  | [], _, _, h => by cases h
  | line :: file, file', dn, h => by
    have hrest (h : Reads file (some (dn, file'))) : file'.length < (line :: file).length :=
      Nat.lt_succ_of_lt (reads_shorter h)
    rw [reads_cons] at h
    split at h
    · split at h
      · exact hrest h
      · cases h
        exact Nat.lt_succ_self _
      · rcases h with ⟨text, h⟩ | h
        · cases h
          exact Nat.lt_succ_self _
        · exact hrest h
    · cases h

/-- A result that stops behind the next line is not one of the lines behind. -/
theorem not_reads_here {file : List Str} {dn : Str} : ¬ Reads file (some (dn, file)) :=
  fun h => Nat.lt_irrefl _ (reads_shorter h)

theorem readdn_cons {line : Str} {file : List Str} :
    readdn (line :: file) =
      if line.length < 998 then
        lineDn (cStr line) >>= fun dn => if dn = [] then readdn file else pure (some (dn, file))
      else pure none := rfl

/-- A line that goes through, without text: what follows counts. -/
theorem readsWell_blank {line : Str} {file : List Str} (hlength : line.length < 998)
    (hdn : lineDn (cStr line) = .ok [])
    (htext : lineText (cStr line) = some [] ∨ lineText (cStr line) = none) :
    ReadsWell (line :: file) ↔ ReadsWell file := by
  have hread : readdn (line :: file) = readdn file := by
    rw [readdn_cons, if_pos hlength, hdn]
    rfl
  have hreads {r : Option (Str × List Str)} (hr : readdn file = .ok r) :
      Reads (line :: file) r ↔ Reads file r := by
    rw [reads_cons, if_pos hlength]
    rcases htext with htext | htext
    · rw [htext]
    · rw [htext]
      refine ⟨fun h => h.resolve_left ?_, Or.inr⟩
      rintro ⟨text, rfl⟩
      exact Nat.lt_irrefl _ (readdn_shorter hr)
  unfold ReadsWell
  rw [hread]
  constructor
  · rintro ⟨r, hr, -, h⟩
    refine ⟨r, hr, ?_, (hreads hr).mp h⟩
    rintro dn file' rfl
    exact readdn_shorter hr
  · rintro ⟨r, hr, -, h⟩
    refine ⟨r, hr, ?_, (hreads hr).mpr h⟩
    rintro dn file' rfl
    exact Nat.lt_succ_of_lt (readdn_shorter hr)

/-- One with a text: it is the result. -/
theorem readsWell_text {line dn : Str} {file : List Str} (hlength : line.length < 998)
    (hdn : lineDn (cStr line) = .ok dn) (hne : dn ≠ [])
    (htext : lineText (cStr line) = some dn ∨ lineText (cStr line) = none) :
    ReadsWell (line :: file) := by
  refine ⟨some (dn, file), ?_, ?_, ?_⟩
  · rw [readdn_cons, if_pos hlength, hdn, Res.ok_bind, if_neg hne]
    rfl
  · rintro _ _ ⟨⟩
    exact Nat.lt_succ_self _
  · rw [reads_cons, if_pos hlength]
    rcases htext with htext | htext
    · rw [htext]
      cases dn with
      | nil => exact absurd rfl hne
      | cons c dn => rfl
    · rw [htext]
      exact Or.inl ⟨dn, rfl⟩

/-- One that goes wrong: no result is right. -/
theorem not_readsWell_wrong {line : Str} {file : List Str} (hlength : line.length < 998)
    (h : GoesWrong (cStr line)) : ¬ ReadsWell (line :: file) := by
  rintro ⟨r, hr, -, hreads⟩
  rw [readdn_cons, if_pos hlength] at hr
  rw [reads_cons, if_pos hlength] at hreads
  rcases h with hloop | ⟨dn, text, hdn, htext, hne⟩
  · rw [hloop] at hr
    cases hr
  · rw [hdn, Res.ok_bind] at hr
    rw [htext] at hreads
    cases text with
    | nil =>
      rw [if_neg hne] at hr
      cases hr
      exact not_reads_here hreads
    | cons c text =>
      change r = some (c :: text, file) at hreads
      subst hreads
      split at hr
      · exact Nat.lt_irrefl _ (readdn_shorter hr)
      · cases hr
        exact hne rfl

/-- **When `readdn` reads a file**: it returns, behind a line or at the end,
with what the next line with text says, exactly if every line it gets to is
read right. -/
theorem readdn_exact : ∀ file : List Str, ReadsWell file ↔ Fine file
  | [] => iff_of_true ⟨none, rfl, nofun, rfl⟩ trivial
  | line :: file => by
    unfold Fine
    by_cases hlength : line.length < 998
    · rcases line_exact (cStr line) with ⟨hright, dn, hdn, htext, hblank⟩ | ⟨hwrong, hgoes⟩
      · by_cases hnil : dn = []
        · subst hnil
          rw [readsWell_blank hlength hdn htext, readdn_exact file]
          exact ⟨fun hfine _ => ⟨hright, fun _ => hfine⟩, fun h => (h hlength).2 (hblank.mp rfl)⟩
        · exact iff_of_true (readsWell_text hlength hdn hnil htext)
            fun _ => ⟨hright, fun hb => absurd (hblank.mpr hb) hnil⟩
      · exact iff_of_false (not_readsWell_wrong hlength hgoes) fun h => hwrong (h hlength).1
    · refine iff_of_true ⟨none, ?_, nofun, ?_⟩ fun h => absurd h hlength
      · rw [readdn_cons, if_neg hlength]
        rfl
      · rw [reads_cons, if_neg hlength]

/-- An escaped quote or an open one, and the loop never ends; behind a closed
one the text goes on. -/
theorem readdn_escapes :
    ¬ ReadsWell (fileLines "\"/CN=a\\\"b\"\n".toList) ∧
      ¬ ReadsWell (fileLines "\"/CN=a\n".toList) ∧
      ¬ ReadsWell (fileLines "\"/CN=a\" b\n".toList) := by
  refine ⟨?_, ?_, ?_⟩
  · exact not_readsWell_wrong (by decide) (Or.inl (by rfl))
  · exact not_readsWell_wrong (by decide) (Or.inl (by rfl))
  · exact not_readsWell_wrong (by decide)
      (Or.inr ⟨"/CN=a  b".toList, "/CN=a".toList, by rfl, by rfl, by decide⟩)

end Voms.L4
