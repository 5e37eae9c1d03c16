import Mathlib.Data.List.Induction
import Voms.L6Tools.Fake

/-!
# Reading a generic attribute

`parse_ga_value` (`src/utils/vomsfake.cc`, `parseGaValue` in `Fake.lean`)
cuts `id = value (qual)` in place: backwards from the equal sign, forwards
after it, and backwards from the parenthesis.

Results:
* `parseGaValue_text`: what is read from any text of that form. The loop in
  front of the parenthesis starts at the NUL that was just stored there, so
  the blanks between the value and the qualifier stay with the value.
* `parseGaValue_exact`: the three parts come back exactly if there is an id,
  and no blank is left in front of the parenthesis or there is no value; and
  the buffer is left at its start exactly if nothing but blanks stands in
  front of the first equal sign.
-/
namespace Voms.L6

open Voms.Core

/-! ## The texts -/

/-- No separator inside and no blank at the ends. -/
structure GaPart where
  text : Str
  plain : ∀ c ∈ text, c ≠ '=' ∧ c ≠ '(' ∧ c ≠ ')' ∧ c ≠ '\x00'
  head : ∀ c, text.head? = some c → isSpace c = false
  last : ∀ c, text.getLast? = some c → isSpace c = false

structure Blanks where
  text : Str
  blank : ∀ c ∈ text, isSpace c = true

/-- `id = value (qual)`, the blanks in front of the parenthesis with the
qualifier. -/
structure GaText where
  id : GaPart
  beforeEq : Blanks
  afterEq : Blanks
  value : GaPart
  qual : Option (Blanks × GaPart)

def GaText.tail (t : GaText) : Str :=
  match t.qual with
  | none => []
  | some (blanks, qual) => blanks.text ++ '(' :: (qual.text ++ [')'])

def GaText.text (t : GaText) : Str :=
  t.id.text ++ t.beforeEq.text ++ '=' :: (t.afterEq.text ++ (t.value.text ++ t.tail))

/-- Empty when there is none. -/
def GaText.qualifier (t : GaText) : Str :=
  match t.qual with
  | none => []
  | some (_, qual) => qual.text

/-- The value as it is read. -/
def GaText.read (t : GaText) : Str :=
  match t.qual with
  | none => t.value.text
  | some (blanks, _) => if t.value.text = [] then [] else t.value.text ++ blanks.text

theorem blank_plain {c : Char} (h : isSpace c = true) :
    c ≠ '=' ∧ c ≠ '(' ∧ c ≠ ')' ∧ c ≠ '\x00' := by
  refine ⟨?_, ?_, ?_, ?_⟩ <;> rintro rfl <;> exact absurd h (by decide)

section

variable {b rest : Str}

/-- The loop stops at the last character that is not a blank. -/
theorem trimBefore_blanks {id : Str} (hid : id ≠ [])
    (hlast : ∀ c, id.getLast? = some c → isSpace c = false) (hb : ∀ c ∈ b, isSpace c = true) :
    trimBefore (id ++ b ++ rest) (id ++ b).length =
      .ok (id ++ List.replicate b.length '\x00' ++ rest) := by
  induction b using List.reverseRecOn generalizing rest with
  | nil =>
    obtain ⟨id, c, rfl⟩ : ∃ front c, id = front ++ [c] :=
      ⟨_, _, (List.dropLast_concat_getLast hid).symm⟩
    have hc : isSpace c = false := hlast c (by simp)
    have hload : Block.load (id ++ [c] ++ rest) id.length = .ok c := by
      rw [List.append_assoc, Block.load_length]; rfl
    rw [List.append_nil, List.length_append, List.length_singleton, trimBefore, hload, Res.ok_bind,
      if_neg (by simp [hc])]
    simp
  | append_singleton b c ih =>
    have hc : isSpace c = true := hb c (by simp)
    have hload : Block.load (id ++ b ++ [c] ++ rest) (id ++ b).length = .ok c := by
      rw [List.append_assoc (id ++ b), Block.load_length]; rfl
    have hset : (id ++ b ++ [c] ++ rest).set (id ++ b).length '\x00' =
        id ++ b ++ '\x00' :: rest := by simp
    rw [← List.append_assoc, List.length_append, List.length_singleton, trimBefore, hload,
      Res.ok_bind, if_pos hc, hset, ih (fun d hd => hb d (by simp [hd]))]
    simp [List.replicate_succ']

/-- Nothing but blanks: the loop reads in front of the buffer. -/
theorem trimBefore_start (hb : ∀ c ∈ b, isSpace c = true) :
    trimBefore (b ++ rest) b.length = .fault .outOfRange := by
  induction b using List.reverseRecOn generalizing rest with
  | nil => rfl
  | append_singleton b c ih =>
    have hc : isSpace c = true := hb c (by simp)
    have hload : Block.load (b ++ [c] ++ rest) b.length = .ok c := by
      rw [List.append_assoc, Block.load_length]; rfl
    have hset : (b ++ [c] ++ rest).set b.length '\x00' = b ++ '\x00' :: rest := by
      simp
    rw [List.length_append, List.length_singleton, trimBefore, hload, Res.ok_bind, if_pos hc, hset,
      ih (fun d hd => hb d (by simp [hd]))]

theorem takeWhile_blanks (hb : ∀ c ∈ b, isSpace c = true)
    (hrest : ∀ c, rest.head? = some c → isSpace c = false) :
    (b ++ rest).takeWhile isSpace = b := by
  rw [List.takeWhile_append_of_pos hb]
  cases rest with
  | nil => simp
  | cons c rest => simp [hrest c rfl]

theorem cStr_nuls {s : Str} (hs : '\x00' ∉ s) (n : Nat) :
    cStr (s ++ List.replicate n '\x00' ++ '\x00' :: rest) = s := by
  cases n with
  | zero => rw [List.replicate_zero, List.append_nil, cStr_append, cStr_of_noNul hs]
  | succ n =>
    rw [List.replicate_succ, List.append_assoc, List.cons_append, cStr_append, cStr_of_noNul hs]

end

/-! ## One call -/

/-- What is read from the trimmed text, by what was found of the parentheses. -/
def gaParts (ga : Str) (value : Nat) : Option Nat → Option Nat → Option (Str × Str × Str)
  | none, _ => some (cStr ga, cStr (ga.drop value), [])
  | some _, none => none
  | some qualpoint, some qualend =>
    let ga := (ga.set qualpoint '\x00').set qualend '\x00'
    some (cStr ga, cStr (ga.drop value), cStr (ga.drop (qualpoint + 1)))

section

variable {id b rest : Str}

/-- Behind the NUL the text is as it was. -/
theorem drop_trimmed (n : Nat) :
    (id ++ List.replicate b.length '\x00' ++ '\x00' :: rest).drop ((id ++ b).length + 1 + n) =
      rest.drop n := by
  rw [← List.drop_drop, ← List.drop_drop, List.drop_left' (by simp)]
  rfl

theorem parseGaValue_cut (hfresh : '=' ∉ id ++ b) (hid : id ≠ [])
    (hlast : ∀ c, id.getLast? = some c → isSpace c = false) (hb : ∀ c ∈ b, isSpace c = true) :
    parseGaValue (id ++ b ++ '=' :: rest) =
      .ok (gaParts (id ++ List.replicate b.length '\x00' ++ '\x00' :: rest)
        ((id ++ b).length + 1 + (rest.takeWhile isSpace).length)
        ((id ++ b ++ '=' :: rest).idxOf? '(') ((id ++ b ++ '=' :: rest).idxOf? ')')) := by
  have hset : (id ++ b ++ '=' :: rest).set (id ++ b).length '\x00' = id ++ b ++ '\x00' :: rest := by
    simp
  have hdrop : (id ++ List.replicate b.length '\x00' ++ '\x00' :: rest).drop
      ((id ++ b).length + 1) = rest := drop_trimmed 0
  rw [parseGaValue, idxOf_fresh rest hfresh]
  simp only [hset, trimBefore_blanks hid hlast hb, Res.ok_bind, hdrop]
  cases (id ++ b ++ '=' :: rest).idxOf? '(' with
  | none => rfl
  | some qualpoint => cases (id ++ b ++ '=' :: rest).idxOf? ')' <;> rfl

theorem parseGaValue_start (hfresh : '=' ∉ b) (hb : ∀ c ∈ b, isSpace c = true) :
    parseGaValue (b ++ '=' :: rest) = .fault .outOfRange := by
  have hset : (b ++ '=' :: rest).set b.length '\x00' = b ++ '\x00' :: rest := by simp
  rw [parseGaValue, idxOf_fresh rest hfresh]
  simp only [hset, trimBefore_start hb, Res.fault_bind]

end

/-! ## A text of the documented form -/

section

variable (t : GaText)

theorem GaText.fresh_eq : '=' ∉ t.id.text ++ t.beforeEq.text := by
  rw [List.mem_append, not_or]
  exact ⟨fun h => (t.id.plain _ h).1 rfl, fun h => (blank_plain (t.beforeEq.blank _ h)).1 rfl⟩

/-- No character of the texts and of the blanks is a parenthesis. -/
theorem GaText.fresh_paren {d : Char} (hd : d = '(' ∨ d = ')') (blanks : Blanks) :
    d ∉ t.id.text ++ t.beforeEq.text ++ '=' ::
      (t.afterEq.text ++ (t.value.text ++ blanks.text)) := by
  have hpart : ∀ p : GaPart, d ∉ p.text := by
    intro p h
    rcases hd with rfl | rfl
    · exact (p.plain _ h).2.1 rfl
    · exact (p.plain _ h).2.2.1 rfl
  have hblank : ∀ p : Blanks, d ∉ p.text := by
    intro p h
    rcases hd with rfl | rfl
    · exact (blank_plain (p.blank _ h)).2.1 rfl
    · exact (blank_plain (p.blank _ h)).2.2.1 rfl
  have heq : d ≠ '=' := by rcases hd with rfl | rfl <;> decide
  simp only [List.mem_append, List.mem_cons, not_or]
  exact ⟨⟨hpart _, hblank _⟩, heq, hblank _, hpart _, hblank _⟩

theorem GaPart.noNul (p : GaPart) : '\x00' ∉ p.text := fun h => (p.plain _ h).2.2.2 rfl

theorem Blanks.noNul (p : Blanks) : '\x00' ∉ p.text :=
  fun h => (blank_plain (p.blank _ h)).2.2.2 rfl

/-- The blanks that are skipped behind the equal sign, with no parenthesis or
with a value. -/
theorem GaText.skipped (rest : Str) (h : t.value.text ≠ [] ∨ rest = []) :
    (t.afterEq.text ++ (t.value.text ++ rest)).takeWhile isSpace = t.afterEq.text := by
  refine takeWhile_blanks t.afterEq.blank ?_
  intro c hc
  rcases h with hv | rfl
  · rw [List.head?_append_of_ne_nil _ hv] at hc
    exact t.value.head c hc
  · rw [List.append_nil] at hc
    exact t.value.head c hc

theorem parseGaValue_unqualified (hid : t.id.text ≠ []) (hq : t.qual = none) :
    parseGaValue t.text = .ok (some (t.id.text, t.value.text, [])) := by
  have hopen : t.text.idxOf? '(' = none := by
    rw [List.idxOf?_eq_none_iff]
    have h := t.fresh_paren (d := '(') (.inl rfl) ⟨[], by simp⟩
    simpa only [GaText.text, GaText.tail, hq] using h
  have htail : t.tail = [] := by simp [GaText.tail, hq]
  rw [GaText.text, parseGaValue_cut t.fresh_eq hid t.id.last t.beforeEq.blank, ← GaText.text, hopen,
    htail, t.skipped [] (.inr rfl), gaParts, cStr_nuls t.id.noNul, drop_trimmed, List.append_nil,
    List.drop_left, cStr_of_noNul t.value.noNul]

theorem set_parens (front q : Str) :
    ((front ++ '(' :: (q ++ [')'])).set front.length '\x00').set (front.length + 1 + q.length)
      '\x00' = front ++ '\x00' :: (q ++ ['\x00']) := by
  rw [List.set_append_right _ _ (Nat.le_refl _), Nat.sub_self, List.set_cons_zero,
    List.set_append_right _ _ (by omega), show front.length + 1 + q.length - front.length =
      q.length + 1 by omega, List.set_cons_succ, List.set_append_right _ _ (Nat.le_refl _),
    Nat.sub_self, List.set_cons_zero]

theorem GaText.read_qualified {blanks : Blanks} {qual : GaPart} (hq : t.qual = some (blanks, qual))
    {rest rest' : Str} :
    cStr ((t.afterEq.text ++ (t.value.text ++ (blanks.text ++ '\x00' :: rest))).drop
      ((t.afterEq.text ++ (t.value.text ++ (blanks.text ++ '(' :: rest'))).takeWhile
        isSpace).length) = t.read := by
  by_cases hv : t.value.text = []
  · have hblank : ∀ c ∈ t.afterEq.text ++ blanks.text, isSpace c = true := fun c hc =>
      (List.mem_append.mp hc).elim (t.afterEq.blank c) (blanks.blank c)
    have hskip : (t.afterEq.text ++ blanks.text ++ '(' :: rest').takeWhile isSpace =
        t.afterEq.text ++ blanks.text := by
      refine takeWhile_blanks hblank ?_
      rintro c ⟨⟩
      decide
    rw [hv, List.nil_append, List.nil_append, ← List.append_assoc, ← List.append_assoc, hskip,
      List.drop_left]
    simp [GaText.read, hq, hv, cStr]
  · rw [t.skipped _ (.inl hv), List.drop_left, ← List.append_assoc, cStr_append, cStr_of_noNul]
    · simp [GaText.read, hq, hv]
    · rw [List.mem_append, not_or]
      exact ⟨t.value.noNul, blanks.noNul⟩

/-- What stands in front of the parenthesis. -/
def GaText.front (blanks : Blanks) : Str :=
  t.id.text ++ t.beforeEq.text ++ '=' :: (t.afterEq.text ++ (t.value.text ++ blanks.text))

/-- The same with the blanks and the equal sign cut. -/
def GaText.frontCut (blanks : Blanks) : Str :=
  t.id.text ++ List.replicate t.beforeEq.text.length '\x00' ++
    '\x00' :: (t.afterEq.text ++ (t.value.text ++ blanks.text))

theorem GaText.frontCut_length (blanks : Blanks) :
    (t.frontCut blanks).length = (t.front blanks).length := by
  simp [GaText.frontCut, GaText.front]

section

variable {t} {blanks : Blanks} {qual : GaPart}

theorem GaText.text_qualified (hq : t.qual = some (blanks, qual)) :
    t.text = t.front blanks ++ '(' :: (qual.text ++ [')']) := by
  simp [GaText.text, GaText.tail, GaText.front, hq]

theorem GaText.idxOf_open (hq : t.qual = some (blanks, qual)) :
    t.text.idxOf? '(' = some (t.front blanks).length := by
  rw [GaText.text_qualified hq]
  exact idxOf_fresh (qual.text ++ [')']) (t.fresh_paren (.inl rfl) blanks)

theorem GaText.idxOf_close (hq : t.qual = some (blanks, qual)) :
    t.text.idxOf? ')' = some ((t.front blanks).length + 1 + qual.text.length) := by
  have hfresh : ')' ∉ t.front blanks ++ '(' :: qual.text := by
    rw [List.mem_append, not_or, List.mem_cons, not_or]
    exact ⟨t.fresh_paren (.inr rfl) blanks, by decide, fun h => (qual.plain _ h).2.2.1 rfl⟩
  have hlength : (t.front blanks ++ '(' :: qual.text).length =
      (t.front blanks).length + 1 + qual.text.length := by
    rw [List.length_append, List.length_cons]
    omega
  rw [GaText.text_qualified hq, ← hlength, ← idxOf_fresh [] hfresh, List.append_assoc,
    List.cons_append]

end

theorem parseGaValue_qualified (hid : t.id.text ≠ []) {blanks : Blanks} {qual : GaPart}
    (hq : t.qual = some (blanks, qual)) :
    parseGaValue t.text = .ok (some (t.id.text, t.read, qual.text)) := by
  have htail : t.tail = blanks.text ++ '(' :: (qual.text ++ [')']) := by simp [GaText.tail, hq]
  have hset := set_parens (t.frontCut blanks) qual.text
  have hqual : (t.frontCut blanks ++ '\x00' :: (qual.text ++ ['\x00'])).drop
      ((t.frontCut blanks).length + 1) = qual.text ++ ['\x00'] := by
    rw [← List.drop_drop, List.drop_left]
    rfl
  rw [t.frontCut_length] at hset hqual
  simp only [GaText.frontCut, List.append_assoc, List.cons_append] at hset hqual
  rw [GaText.text, parseGaValue_cut t.fresh_eq hid t.id.last t.beforeEq.blank, ← GaText.text,
    GaText.idxOf_open hq, GaText.idxOf_close hq, gaParts, htail]
  simp only [List.append_assoc, hset, hqual, cStr_append, cStr_of_noNul qual.noNul]
  rw [← List.append_assoc t.id.text (List.replicate _ _), cStr_nuls t.id.noNul, drop_trimmed,
    t.read_qualified hq]

/-- With an id every text of the form is read. -/
theorem parseGaValue_text (hid : t.id.text ≠ []) :
    parseGaValue t.text = .ok (some (t.id.text, t.read, t.qualifier)) := by
  cases hq : t.qual with
  | none =>
    rw [parseGaValue_unqualified t hid hq]
    simp [GaText.read, GaText.qualifier, hq]
  | some q =>
    obtain ⟨blanks, qual⟩ := q
    rw [parseGaValue_qualified t hid hq]
    simp [GaText.qualifier, hq]

theorem parseGaValue_noId (hid : t.id.text = []) : parseGaValue t.text = .fault .outOfRange := by
  have hfresh : '=' ∉ t.beforeEq.text := fun h => t.fresh_eq (List.mem_append_right _ h)
  rw [GaText.text, hid, List.nil_append, parseGaValue_start hfresh t.beforeEq.blank]

/-- The value comes back unless blanks are left behind it. -/
theorem GaText.read_eq_iff : t.read = t.value.text ↔
    t.value.text = [] ∨ ∀ q, t.qual = some q → q.1.text = [] := by
  cases hq : t.qual with
  | none => simp [GaText.read, hq]
  | some q =>
    by_cases hv : t.value.text = []
    · simp [GaText.read, hq, hv]
    · simp [GaText.read, hq, hv]

end

/-! ## Any text -/

/-- What stands in front of the blanks. -/
theorem split_blanks (front : Str) : ∃ id b, front = id ++ b ∧ (∀ c ∈ b, isSpace c = true) ∧
    ∀ c, id.getLast? = some c → isSpace c = false := by
  induction front using List.reverseRecOn with
  | nil => exact ⟨[], [], rfl, by simp, by simp⟩
  | append_singleton front c ih =>
    by_cases hc : isSpace c = true
    · obtain ⟨id, b, rfl, hb, hlast⟩ := ih
      refine ⟨id, b ++ [c], List.append_assoc .., ?_, hlast⟩
      intro d hd
      rw [List.mem_append, List.mem_singleton] at hd
      exact hd.elim (hb d) (· ▸ hc)
    · refine ⟨front ++ [c], [], (List.append_nil _).symm, by simp, ?_⟩
      intro d hd
      rw [List.getLast?_concat, Option.some.injEq] at hd
      rw [← hd]
      exact Bool.eq_false_iff.mpr hc

/-- The buffer is not left exactly if there is no equal sign or something in
front of it. -/
theorem parseGaValue_ok_iff (ga : Str) : (∃ r, parseGaValue ga = .ok r) ↔
    '=' ∉ ga ∨ ∃ c ∈ ga.takeWhile (· ≠ '='), isSpace c = false := by
  cases hpos : ga.idxOf? '=' with
  | none =>
    have hmem : '=' ∉ ga := List.idxOf?_eq_none_iff.mp hpos
    exact iff_of_true ⟨none, by rw [parseGaValue, hpos]; rfl⟩ (.inl hmem)
  | some pos =>
    obtain ⟨front, rest, rfl, hfresh, -⟩ := idxOf_split hpos
    have hfront : (front ++ '=' :: rest).takeWhile (· ≠ '=') = front := by
      rw [List.takeWhile_append_of_pos (fun c hc => by
        have : c ≠ '=' := by rintro rfl; exact hfresh hc
        simpa using this)]
      simp
    obtain ⟨id, b, rfl, hb, hlast⟩ := split_blanks front
    rw [hfront, or_iff_right (by simp)]
    by_cases hid : id = []
    · rw [hid, List.nil_append] at hfresh ⊢
      rw [parseGaValue_start hfresh hb]
      refine iff_of_false (by simp) ?_
      rintro ⟨c, hc, hspace⟩
      rw [hb c hc] at hspace
      cases hspace
    · refine iff_of_true ⟨_, parseGaValue_cut hfresh hid hlast hb⟩ ⟨id.getLast hid, ?_, ?_⟩
      · exact List.mem_append_left _ (List.getLast_mem hid)
      · exact hlast _ (List.getLast?_eq_some_getLast hid)

/-- The parts come back exactly if there is an id and no blank would be taken
into the value; the buffer is kept exactly if something stands in front of the
equal sign. -/
theorem parseGaValue_exact (t : GaText) (ga : Str) :
    (parseGaValue t.text = .ok (some (t.id.text, t.value.text, t.qualifier)) ↔
      t.id.text ≠ [] ∧ (t.value.text = [] ∨ ∀ q, t.qual = some q → q.1.text = [])) ∧
    ((∃ r, parseGaValue (cStr ga) = .ok r) ↔
      '=' ∉ cStr ga ∨ ∃ c ∈ (cStr ga).takeWhile (· ≠ '='), isSpace c = false) := by
  refine ⟨?_, parseGaValue_ok_iff (cStr ga)⟩
  by_cases hid : t.id.text = []
  · rw [parseGaValue_noId t hid]
    simp [hid]
  · rw [parseGaValue_text t hid, ← t.read_eq_iff]
    simp [hid]

/-- `nome = prova (q)`. -/
def Sample.gaText : GaText where
  id := ⟨"nome".toList, forall_mem_of_all (by decide), by rintro c ⟨⟩; rfl, by rintro c ⟨⟩; rfl⟩
  beforeEq := ⟨[' '], forall_mem_of_all (by decide)⟩
  afterEq := ⟨[' '], forall_mem_of_all (by decide)⟩
  value := ⟨"prova".toList, forall_mem_of_all (by decide), by rintro c ⟨⟩; rfl,
    by rintro c ⟨⟩; rfl⟩
  qual := some (⟨[' '], forall_mem_of_all (by decide)⟩,
    ⟨"q".toList, forall_mem_of_all (by decide), by rintro c ⟨⟩; rfl, by rintro c ⟨⟩; rfl⟩)

/-- The value gets the blank that stands in front of the parenthesis, and a
text that begins with the equal sign makes the first loop leave the buffer. -/
theorem parseGaValue_inexact :
    parseGaValue Sample.gaText.text ≠ .ok (some (Sample.gaText.id.text, Sample.gaText.value.text,
      Sample.gaText.qualifier)) ∧
    ¬ ∃ r, parseGaValue (cStr "= prova".toList) = .ok r := by
  refine ⟨by decide, ?_⟩
  rw [show parseGaValue (cStr "= prova".toList) = .fault .outOfRange from by decide]
  simp

end Voms.L6
