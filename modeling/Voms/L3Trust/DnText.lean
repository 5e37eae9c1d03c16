import Voms.Core.Res
import Voms.Core.Str

/-!
# A distinguished name from its slash form

`make_DN` (`src/sslutils/sslutils.c`) reads the backslashes twice: the value
reader makes `\/` a slash and copies every other escape, then
`reencode_string` undoes the escapes of the copy. There, after `\\`, the
second backslash is written but not passed over: it begins the next escape.

* `reencodeString_stored`: a value is read back exactly if behind each of its
  doubled backslashes stands a byte, as itself or an escaped slash, that is
  not a hex digit (`Readable`).
* `reencodeString_ok`: the terminating NUL is passed exactly if an escape is
  open at the end (`Pending`).
* `makeDn_exact`: both for the whole name.

`OBJ_txt2obj` is not part of the sources: a parameter. A string is the bytes
before its NUL.
-/
namespace Voms.L3

open Voms.Core

/-- mirrors src/sslutils/sslutils.c:3797-3806 -/
def hextoint (r s : Char) : Char :=
  if isXdigit r && isXdigit s then Char.ofNat ((hex2num r <<< 4) + hex2num s) else '\x00'

/-- What is written stays behind what is read, so the list is the one that was
handed in. The NUL read as `t` or `r` is passed over as any other byte.
mirrors src/sslutils/sslutils.c:3808-3846 -/
def reencodeString : Str → Eval Str
  | [] => .ok []
  | [c] => if c = '\\' then .fault .outOfRange else .ok [c]
  | c :: t :: string =>
    if c ≠ '\\' then do
      let temp ← reencodeString (t :: string)
      .ok (c :: temp)
    else if t = '\\' then do
      let temp ← reencodeString (t :: string)
      .ok ('\\' :: temp)
    else if isXdigit t then
      match string with
      | [] => .fault .outOfRange
      | r :: string => do
        let temp ← reencodeString string
        .ok (hextoint t.toLower r.toLower :: temp)
    else do
      let temp ← reencodeString string
      .ok (t :: temp)

/-- The type, with its slash, and what follows the `=`; `none` at the end of
the text.
mirrors src/sslutils/sslutils.c:3867-3894 -/
def readName : Str → Option (Str × Str)
  | [] => none
  | [c] => if c = '=' then some ([], []) else none
  | c :: d :: dnstring =>
    if c = '\\' then (readName dnstring).map fun p => (d :: p.1, p.2)
    else if c = '=' then some ([], d :: dnstring)
    else (readName (d :: dnstring)).map fun p => (c :: p.1, p.2)

/-- The value and what follows it, from the slash on. A backslash at the end
is dropped.
mirrors src/sslutils/sslutils.c:3897-3925 -/
def readValue : Str → Str × Str
  | [] => ([], [])
  | [c] => if c = '\\' then ([], []) else if c = '/' then ([], [c]) else ([c], [])
  | c :: next :: dnstring =>
    if c = '\\' then
      let p := readValue dnstring
      if next ≠ '/' then ('\\' :: next :: p.1, p.2) else ('/' :: p.1, p.2)
    else if c = '/' then ([], c :: next :: dnstring)
    else
      let p := readValue (next :: dnstring)
      (c :: p.1, p.2)

/-- `buffername+1`. -/
def skipSlash : Str → Eval Str
  | [] => .fault .outOfRange
  | _ :: field => .ok field

section

variable {Obj : Type} (txt2obj : Str → Option Obj)

/-- A field without an object adds no entry; the result is not looked at. -/
def addEntryByTxt (name : List (Obj × Str)) (field bytes : Str) : List (Obj × Str) :=
  match txt2obj field with
  | some obj => name ++ [(obj, bytes)]
  | none => name

/-- Two turns of the loop: a type and a value. -/
def makeDnLoop : Nat → List (Obj × Str) → Str → Eval (Option (List (Obj × Str)))
  | 0, _, _ => .fault .diverge
  | n + 1, name, dnstring =>
    match readName dnstring with
    | none => .ok none
    | some (_, []) => .ok (some name)
    | some (currentname, dnstring) =>
      let (currentvalue, dnstring) := readValue dnstring
      if currentvalue = [] then .ok none else do
        let buffervalue ← reencodeString currentvalue
        let field ← skipSlash currentname
        let name := addEntryByTxt txt2obj name field buffervalue
        if dnstring = [] then .ok (some name) else makeDnLoop n name dnstring

/-- mirrors src/sslutils/sslutils.c:3848-3953 -/
def makeDn (dnstring : Str) : Eval (Option (List (Obj × Str))) :=
  makeDnLoop txt2obj (dnstring.length + 1) [] dnstring

end

example : makeDn (fun field => some field) "/O=a\\/b/CN=c\\\\d\\41".toList =
    .ok (some [("O".toList, "a/b".toList), ("CN".toList, "c\\\x0041".toList)]) := by decide +kernel

/-! ## One escape -/

section

variable {c t r : Char} {s v : Str}

theorem reencodeString_single (c : Char) :
    reencodeString [c] = if c = '\\' then .fault .outOfRange else .ok [c] := rfl

theorem reencodeString_cons_cons (c t : Char) (string : Str) :
    reencodeString (c :: t :: string) =
      if c ≠ '\\' then reencodeString (t :: string) >>= fun temp => .ok (c :: temp)
      else if t = '\\' then reencodeString (t :: string) >>= fun temp => .ok ('\\' :: temp)
      else if isXdigit t then
        match string with
        | [] => .fault .outOfRange
        | r :: string =>
          reencodeString string >>= fun temp => .ok (hextoint t.toLower r.toLower :: temp)
      else reencodeString string >>= fun temp => .ok (t :: temp) := by
  cases string <;> rfl

theorem reencodeString_plain (hc : c ≠ '\\') :
    reencodeString (c :: s) = reencodeString s >>= fun temp => .ok (c :: temp) := by
  cases s with
  | nil => rw [reencodeString_single, if_neg hc]; rfl
  | cons t s => rw [reencodeString_cons_cons, if_pos hc]

theorem reencodeString_backslash : reencodeString ('\\' :: '\\' :: s) =
    reencodeString ('\\' :: s) >>= fun temp => .ok ('\\' :: temp) := by
  rw [reencodeString_cons_cons, if_neg (not_not.mpr rfl), if_pos rfl]

theorem not_xdigit_backslash : ¬ isXdigit '\\' = true := by decide

theorem reencodeString_digit (ht : isXdigit t = true) : reencodeString ('\\' :: t :: r :: s) =
    reencodeString s >>= fun temp => .ok (hextoint t.toLower r.toLower :: temp) := by
  have hne : t ≠ '\\' := fun h => not_xdigit_backslash (h ▸ ht)
  rw [reencodeString_cons_cons, if_neg (not_not.mpr rfl), if_neg hne, if_pos ht]

theorem reencodeString_digit_end (ht : isXdigit t = true) :
    reencodeString ['\\', t] = .fault .outOfRange := by
  have hne : t ≠ '\\' := fun h => not_xdigit_backslash (h ▸ ht)
  rw [reencodeString_cons_cons, if_neg (not_not.mpr rfl), if_neg hne, if_pos ht]

theorem reencodeString_other (hne : t ≠ '\\') (ht : ¬ isXdigit t = true) :
    reencodeString ('\\' :: t :: s) = reencodeString s >>= fun temp => .ok (t :: temp) := by
  rw [reencodeString_cons_cons, if_neg (not_not.mpr rfl), if_neg hne, if_neg ht]

theorem cons_eq_ok {x : Eval Str} :
    (x >>= fun temp => .ok (c :: temp)) = .ok v ↔ ∃ temp, x = .ok temp ∧ v = c :: temp := by
  rw [Res.bind_eq_ok]
  exact exists_congr fun temp => and_congr_right' ⟨fun h => (Res.ok.inj h).symm, fun h => h ▸ rfl⟩

theorem cons_isOk {x : Eval Str} :
    (∃ v, (x >>= fun temp => .ok (c :: temp)) = .ok v) ↔ ∃ temp, x = .ok temp := by
  simp only [cons_eq_ok]
  exact ⟨fun ⟨_, temp, h, _⟩ => ⟨temp, h⟩, fun ⟨temp, h⟩ => ⟨_, temp, h, rfl⟩⟩

end

/-! ## The end of the text -/

/-- What a byte finds: nothing, a backslash, or a backslash and a hex digit. -/
inductive Pending where
  | nothing
  | backslash
  | digit
  deriving DecidableEq, Repr

def Pending.next : Pending → Char → Pending
  | .nothing, c => if c = '\\' then .backslash else .nothing
  | .backslash, c =>
    if c = '\\' then .backslash else if isXdigit c then .digit else .nothing
  | .digit, _ => .nothing

/-- No escape is open at the end. -/
def Whole (s : Str) : Prop := s.foldl Pending.next .nothing = .nothing

/-- The text behind an escape that has begun. -/
theorem reencodeString_pending (s : Str) :
    ((∃ v, reencodeString s = .ok v) ↔ s.foldl Pending.next .nothing = .nothing) ∧
    ((∃ v, reencodeString ('\\' :: s) = .ok v) ↔ s.foldl Pending.next .backslash = .nothing) := by
  induction hn : s.length using Nat.strongRecOn generalizing s with
  | ind n ih =>
    cases s with
    | nil => simp [reencodeString]
    | cons c s =>
      have hs := ih s.length (hn ▸ Nat.lt_succ_self _) s rfl
      rw [List.foldl_cons, List.foldl_cons]
      by_cases hc : c = '\\'
      · subst hc
        exact ⟨hs.2, by rw [reencodeString_backslash, cons_isOk]; exact hs.2⟩
      · rw [reencodeString_plain hc, cons_isOk, Pending.next, if_neg hc, Pending.next, if_neg hc]
        refine ⟨hs.1, ?_⟩
        by_cases hdigit : isXdigit c = true
        · rw [if_pos hdigit]
          cases s with
          | nil => simp [reencodeString_digit_end hdigit]
          | cons r s =>
            rw [reencodeString_digit hdigit, cons_isOk, List.foldl_cons]
            exact (ih s.length (by rw [← hn, List.length_cons, List.length_cons]; omega) s rfl).1
        · rw [if_neg hdigit, reencodeString_other hc hdigit, cons_isOk]
          exact hs.1

theorem reencodeString_ok (s : Str) : (∃ v, reencodeString s = .ok v) ↔ Whole s :=
  (reencodeString_pending s).1

/-! ## Values -/

/-- A byte of a value as it stands in the slash form. -/
inductive Piece where
  | byte (c : Char) (plain : c ≠ '/' ∧ c ≠ '\\' ∧ c ≠ '\x00')
  | slash
  | backslash
  | hex (r s : Char) (digits : isXdigit r = true ∧ isXdigit s = true)
    (byte : 16 * hex2num r + hex2num s ≠ 0)

namespace Piece

def text : Piece → Str
  | .byte c _ => [c]
  | .slash => ['\\', '/']
  | .backslash => ['\\', '\\']
  | .hex r s _ _ => ['\\', r, s]

def char : Piece → Char
  | .byte c _ => c
  | .slash => '/'
  | .backslash => '\\'
  | .hex r s _ _ => Char.ofNat (16 * hex2num r + hex2num s)

/-- What the value reader keeps of it. -/
def stored : Piece → Str
  | .byte c _ => [c]
  | .slash => ['/']
  | .backslash => ['\\', '\\']
  | .hex r s _ _ => ['\\', r, s]

end Piece

def textOf (l : List Piece) : Str := l.flatMap Piece.text
def charsOf (l : List Piece) : Str := l.map Piece.char
def storedOf (l : List Piece) : Str := l.flatMap Piece.stored

/-- Another byte than a hex digit, as itself or as an escaped slash. -/
def StartsPlain : List Piece → Prop
  | .byte c _ :: _ => ¬ isXdigit c = true
  | .slash :: _ => True
  | _ => False

/-- Behind each doubled backslash there is such a byte. -/
def Readable : List Piece → Prop
  | [] => True
  | .backslash :: l => StartsPlain l ∧ Readable l
  | _ :: l => Readable l

/-! ## Hex digits -/

def xdigits : Str := "0123456789abcdefABCDEF".toList

theorem isXdigit_lt {c : Char} (h : isXdigit c = true) : c.toNat < 128 := by
  simp only [isXdigit, Char.isDigit, Bool.or_eq_true, Bool.and_eq_true, decide_eq_true_eq,
    Char.le_def, UInt32.le_iff_toNat_le] at h
  simp only [Char.reduceVal, UInt32.reduceToNat] at h
  change c.val.toNat < 128
  change (48 ≤ c.val.toNat ∧ c.val.toNat ≤ 57 ∨ _) ∨ _ at h
  omega

theorem mem_xdigits {c : Char} (h : isXdigit c = true) : c ∈ xdigits := by
  have hascii : ∀ n < 128, isXdigit (Char.ofNat n) = true → Char.ofNat n ∈ xdigits := by decide
  rw [← Char.ofNat_toNat c]
  exact hascii c.toNat (isXdigit_lt h) (by rwa [Char.ofNat_toNat])

theorem isXdigit_of_toLower {c : Char} (h : isXdigit c.toLower = true) : isXdigit c = true := by
  rcases Nat.lt_or_ge c.toNat 128 with hlt | hge
  · have hascii : ∀ n < 128, isXdigit (Char.ofNat n).toLower = true →
        isXdigit (Char.ofNat n) = true := by decide
    rw [← Char.ofNat_toNat c] at h ⊢
    exact hascii c.toNat hlt h
  · have hsame : c.toLower = c := by
      have hge' : 128 ≤ c.val.toNat := hge
      refine dif_neg ?_
      rintro ⟨-, hle⟩
      have := UInt32.le_iff_toNat_le.mp hle
      simp at this
      omega
    rwa [hsame] at h

theorem xdigit_toLower : ∀ c ∈ xdigits,
    isXdigit c.toLower = true ∧ hex2num c.toLower = hex2num c ∧ c ≠ '\\' ∧ hex2num c < 16 :=
  forall_mem_of_all (by decide +kernel)

theorem hextoint_digits {r s : Char} (hr : isXdigit r = true) (hs : isXdigit s = true) :
    hextoint r.toLower s.toLower = Char.ofNat (16 * hex2num r + hex2num s) := by
  obtain ⟨hr', hreq, -, -⟩ := xdigit_toLower r (mem_xdigits hr)
  obtain ⟨hs', hseq, -, -⟩ := xdigit_toLower s (mem_xdigits hs)
  rw [hextoint, hr', hs', Bool.and_self, if_pos rfl, hreq, hseq, Nat.shiftLeft_eq, Nat.mul_comm]

/-- Two hex digits give the first of them only as `33`. -/
theorem hextoint_eq_first : ∀ c ∈ xdigits, ∀ r ∈ xdigits,
    hextoint c.toLower r.toLower = c → c = '3' ∧ r = '3' := by
  intro c hc r hr
  have h : (xdigits.all fun c => xdigits.all fun r =>
      decide (hextoint c.toLower r.toLower = c → c = '3' ∧ r = '3')) = true := by decide +kernel
  exact of_decide_eq_true (List.all_eq_true.mp (List.all_eq_true.mp h c hc) r hr)

theorem first_of_hextoint {c r : Char} (hc : isXdigit c = true)
    (h : hextoint c.toLower r.toLower = c) : c = '3' ∧ r = '3' := by
  have hdigit : isXdigit r.toLower = true := by
    by_contra hno
    rw [hextoint, Bool.eq_false_iff.mpr hno, Bool.and_false, if_neg Bool.false_ne_true] at h
    rw [← h] at hc
    exact absurd hc (by decide)
  exact hextoint_eq_first c (mem_xdigits hc) r (mem_xdigits (isXdigit_of_toLower hdigit)) h

/-! ## Values read back -/

section

variable {l : List Piece} {p : Piece} {v : Str}

/-- What `reencodeString` makes of the next piece. -/
theorem reencodeString_stored_cons (hp : p ≠ .backslash) :
    reencodeString (storedOf (p :: l)) =
      reencodeString (storedOf l) >>= fun temp => .ok (p.char :: temp) := by
  rw [storedOf, List.flatMap_cons]
  cases p with
  | byte c plain => exact reencodeString_plain plain.2.1
  | slash => exact reencodeString_plain (by decide)
  | backslash => exact absurd rfl hp
  | hex r s digits byte =>
    rw [Piece.stored, List.cons_append, List.cons_append, List.cons_append, List.nil_append,
      reencodeString_digit digits.1, hextoint_digits digits.1 digits.2]
    rfl

/-- The second half of a doubled backslash, with a backslash behind it. -/
theorem reencodeString_begun (h : (storedOf l).head? = some '\\') :
    reencodeString ('\\' :: storedOf l) =
      reencodeString (storedOf l) >>= fun temp => .ok ('\\' :: temp) := by
  cases hl : storedOf l with
  | nil => rw [hl] at h; cases h
  | cons c s =>
    rw [hl] at h
    obtain rfl := Option.some.inj h
    exact reencodeString_backslash

theorem Piece.stored_head (h : p.char = '\\') : (storedOf (p :: l)).head? = some '\\' := by
  cases p with
  | byte c plain => exact absurd h plain.2.1
  | slash => exact absurd h (by decide)
  | backslash => rfl
  | hex r s digits byte => rfl

/-- A backslash too many stays one. -/
theorem reencodeString_more (l : List Piece) : ∀ (k : Nat) (v : Str),
    (reencodeString (storedOf l) = .ok v ∨ reencodeString ('\\' :: storedOf l) = .ok v) →
    List.replicate (k + 1) '\\' ++ v ≠ charsOf l := by
  induction l with
  | nil =>
    intro k v _ h
    exact absurd h (List.cons_ne_nil _ _)
  | cons p l ih =>
    have hmore (k : Nat) (v : Str) :
        List.replicate k '\\' ++ '\\' :: v = List.replicate (k + 1) '\\' ++ v := by
      rw [← List.singleton_append, ← List.append_assoc, ← List.replicate_succ']
    have hfirst {k : Nat} {v : Str} (h : List.replicate (k + 1) '\\' ++ v = charsOf (p :: l)) :
        p.char = '\\' ∧ List.replicate k '\\' ++ v = charsOf l := by
      rw [List.replicate_succ, List.cons_append, charsOf, List.map_cons, List.cons.injEq] at h
      exact ⟨h.1.symm, h.2⟩
    have hread (k : Nat) (v : Str) (hv : reencodeString (storedOf (p :: l)) = .ok v) :
        List.replicate (k + 1) '\\' ++ v ≠ charsOf (p :: l) := by
      intro h
      obtain ⟨hchar, htail⟩ := hfirst h
      by_cases hp : p = .backslash
      · subst hp
        obtain ⟨v', hv', rfl⟩ := cons_eq_ok.mp (reencodeString_backslash.symm.trans hv)
        exact ih k v' (.inr hv') ((hmore k v').symm.trans htail)
      · rw [reencodeString_stored_cons hp, hchar] at hv
        obtain ⟨v', hv', rfl⟩ := cons_eq_ok.mp hv
        exact ih k v' (.inl hv') ((hmore k v').symm.trans htail)
    rintro k v (hv | hv) h
    · exact hread k v hv h
    · rw [reencodeString_begun (Piece.stored_head (hfirst h).1)] at hv
      obtain ⟨v', hv', rfl⟩ := cons_eq_ok.mp hv
      exact hread (k + 1) v' hv' ((hmore (k + 1) v').symm.trans h)

/-- A `3` too few stays one. -/
theorem reencodeString_fewer (l : List Piece) : ∀ (k : Nat) (v : Str),
    reencodeString (storedOf l) = .ok v → v ≠ List.replicate (k + 1) '3' ++ charsOf l := by
  induction l with
  | nil =>
    rintro k v hv rfl
    cases hv
  | cons p l ih =>
    rintro k v hv rfl
    rw [List.replicate_succ, List.cons_append] at hv
    by_cases hp : p = .backslash
    · subst hp
      obtain ⟨v', -, heq⟩ := cons_eq_ok.mp (reencodeString_backslash.symm.trans hv)
      exact absurd (List.cons.inj heq).1 (by decide)
    · rw [reencodeString_stored_cons hp] at hv
      obtain ⟨v', hv', heq⟩ := cons_eq_ok.mp hv
      obtain ⟨hchar, htail⟩ := List.cons.inj heq
      refine ih k v' hv' (htail.symm.trans ?_)
      rw [charsOf, List.map_cons, ← hchar, ← List.singleton_append, ← List.append_assoc,
        ← List.replicate_succ', charsOf]

/-- A digit behind the half of a doubled backslash is lost, or the byte behind it is. -/
theorem reencodeString_digit_ne {c : Char} (hdigit : isXdigit c = true) :
    reencodeString ('\\' :: c :: storedOf l) ≠ .ok (c :: charsOf l) := by
  intro h
  cases hs : storedOf l with
  | nil =>
    rw [hs, reencodeString_digit_end hdigit] at h
    cases h
  | cons r s =>
    rw [hs, reencodeString_digit hdigit] at h
    obtain ⟨v, hv, heq⟩ := cons_eq_ok.mp h
    obtain ⟨hfirst, hrest⟩ := List.cons.inj heq
    -- the two digits are `33`, and one `3` comes out
    obtain ⟨-, hr⟩ := first_of_hextoint hdigit hfirst.symm
    cases l with
    | nil => cases hs
    | cons p l =>
      cases p with
      | byte d plain =>
        obtain ⟨hd, hs⟩ := List.cons.inj hs
        change storedOf l = s at hs
        rw [← hs] at hv
        refine reencodeString_fewer l 0 v hv (hrest.symm.trans ?_)
        rw [charsOf, List.map_cons, charsOf, Piece.char, hd, hr]
        rfl
      | slash | backslash | hex => exact absurd ((List.cons.inj hs).1.trans hr) (by decide)

/-- The second half of a doubled backslash is harmless exactly if a byte is
behind it that is no hex digit. -/
theorem reencodeString_half (l : List Piece) :
    reencodeString ('\\' :: storedOf l) = .ok (charsOf l) ↔
      StartsPlain l ∧ reencodeString (storedOf l) = .ok (charsOf l) := by
  cases l with
  | nil => exact iff_of_false (by decide) fun h => h.1
  | cons p l =>
    cases p with
    | slash =>
      change reencodeString ('\\' :: '/' :: storedOf l) = _ ↔ True ∧ _
      rw [true_and, reencodeString_stored_cons (by simp),
        reencodeString_other (by decide) (by decide)]
      rfl
    | backslash =>
      refine iff_of_false (fun h => ?_) fun h => h.1
      rw [reencodeString_begun rfl] at h
      obtain ⟨v, hv, heq⟩ := cons_eq_ok.mp h
      exact reencodeString_more _ 0 v (.inl hv) heq.symm
    | hex r s digits byte =>
      refine iff_of_false (fun h => ?_) fun h => h.1
      rw [reencodeString_begun rfl] at h
      obtain ⟨v, hv, heq⟩ := cons_eq_ok.mp h
      exact reencodeString_more _ 0 v (.inl hv) heq.symm
    | byte c plain =>
      by_cases hdigit : isXdigit c = true
      · refine iff_of_false (fun h => ?_) fun h => h.1 hdigit
        change reencodeString ('\\' :: c :: storedOf l) = .ok (c :: charsOf l) at h
        exact reencodeString_digit_ne hdigit h
      · change reencodeString ('\\' :: c :: storedOf l) = _ ↔ ¬ isXdigit c = true ∧ _
        rw [and_iff_right hdigit, reencodeString_stored_cons (by simp),
          reencodeString_other plain.2.1 hdigit]
        rfl

/-- **A value comes back exactly if it is `Readable`.** -/
theorem reencodeString_stored (l : List Piece) :
    reencodeString (storedOf l) = .ok (charsOf l) ↔ Readable l := by
  induction l with
  | nil => exact iff_of_true rfl trivial
  | cons p l ih =>
    by_cases hp : p = .backslash
    · subst hp
      change reencodeString ('\\' :: '\\' :: storedOf l) = .ok ('\\' :: charsOf l) ↔
        StartsPlain l ∧ Readable l
      rw [reencodeString_backslash, cons_eq_ok, ← ih, ← reencodeString_half]
      simp
    · have hreadable : Readable (p :: l) ↔ Readable l := by
        cases p <;> first | exact absurd rfl hp | rfl
      rw [hreadable, reencodeString_stored_cons hp, cons_eq_ok, ← ih, charsOf, List.map_cons]
      simp [charsOf]

end

/-! ## The two readers -/

/-- As both readers go: an escape takes two bytes, or the last one. -/
theorem escapeInduction {motive : Str → Prop} (nil : motive []) (last : motive ['\\'])
    (escape : ∀ c s, motive s → motive ('\\' :: c :: s))
    (byte : ∀ c s, c ≠ '\\' → motive s → motive (c :: s)) : ∀ s, motive s
  | [] => nil
  | [c] => if h : c = '\\' then h ▸ last else byte c [] h nil
  | c :: d :: s =>
    if h : c = '\\' then h ▸ escape d s (escapeInduction nil last escape byte s)
    else byte c (d :: s) h (escapeInduction nil last escape byte (d :: s))

section

variable {c next : Char} {s rest : Str}

theorem readName_plain (hc : c ≠ '\\') (hc' : c ≠ '=') :
    readName (c :: s) = (readName s).map fun p => (c :: p.1, p.2) := by
  cases s with
  | nil => exact if_neg hc'
  | cons d s => rw [readName, if_neg hc, if_neg hc']

theorem readName_escape : readName ('\\' :: c :: s) = (readName s).map fun p => (c :: p.1, p.2) := by
  rw [readName, if_pos rfl]

theorem readName_stop : readName ('=' :: s) = some ([], s) := by
  cases s with
  | nil => rfl
  | cons d s => rw [readName, if_neg (by decide), if_pos rfl]

theorem readName_text {type : Str} (h : ∀ c ∈ type, c ≠ '\\' ∧ c ≠ '=') (s : Str) :
    readName (type ++ '=' :: s) = some (type, s) := by
  induction type with
  | nil => exact readName_stop
  | cons c type ih =>
    obtain ⟨hc, hc'⟩ := h c (List.mem_cons_self ..)
    rw [List.cons_append, readName_plain hc hc', ih fun d hd => h d (List.mem_cons_of_mem _ hd)]
    rfl

theorem readValue_plain (hc : c ≠ '\\') (hc' : c ≠ '/') :
    readValue (c :: s) = (c :: (readValue s).1, (readValue s).2) := by
  cases s with
  | nil => exact (if_neg hc).trans (if_neg hc')
  | cons d s => rw [readValue, if_neg hc, if_neg hc']

theorem readValue_stop : readValue ('/' :: s) = ([], '/' :: s) := by
  cases s with
  | nil => rfl
  | cons d s => rw [readValue, if_neg (by decide), if_pos rfl]

theorem readValue_slash :
    readValue ('\\' :: '/' :: s) = ('/' :: (readValue s).1, (readValue s).2) := by
  rw [readValue, if_pos rfl]
  rfl

theorem readValue_escape (h : next ≠ '/') :
    readValue ('\\' :: next :: s) = ('\\' :: next :: (readValue s).1, (readValue s).2) := by
  rw [readValue, if_pos rfl]
  exact if_pos h

/-- The end of the text, or the slash of the next type. -/
def Ends (rest : Str) : Prop := rest = [] ∨ rest.head? = some '/'

theorem readValue_ends (h : Ends rest) : readValue rest = ([], rest) := by
  rcases h with rfl | h
  · rfl
  · cases rest with
    | nil => rfl
    | cons c rest =>
      obtain rfl := Option.some.inj h
      exact readValue_stop

theorem not_xdigit_slash : ¬ isXdigit '/' = true := by decide

theorem readValue_text (h : Ends rest) (l : List Piece) :
    readValue (textOf l ++ rest) = (storedOf l, rest) := by
  induction l with
  | nil => exact readValue_ends h
  | cons p l ih =>
    cases p with
    | byte c plain =>
      change readValue (c :: (textOf l ++ rest)) = (c :: storedOf l, rest)
      rw [readValue_plain plain.2.1 plain.1, ih]
    | slash =>
      change readValue ('\\' :: '/' :: (textOf l ++ rest)) = ('/' :: storedOf l, rest)
      rw [readValue_slash, ih]
    | backslash =>
      change readValue ('\\' :: '\\' :: (textOf l ++ rest)) = ('\\' :: '\\' :: storedOf l, rest)
      rw [readValue_escape (by decide), ih]
    | hex r s digits byte =>
      have hr : r ≠ '/' := fun h => not_xdigit_slash (h ▸ digits.1)
      have hs : s ≠ '/' := fun h => not_xdigit_slash (h ▸ digits.2)
      have hs' : s ≠ '\\' := fun h => not_xdigit_backslash (h ▸ digits.2)
      change readValue ('\\' :: r :: s :: (textOf l ++ rest)) = ('\\' :: r :: s :: storedOf l, rest)
      rw [readValue_escape hr, readValue_plain hs' hs, ih]

/-- Where a value ends. -/
theorem ends_readValue (s : Str) : Ends (readValue s).2 ∧ (readValue s).2.length ≤ s.length := by
  induction s using escapeInduction with
  | nil => exact ⟨.inl rfl, Nat.le_refl _⟩
  | last => exact ⟨.inl rfl, Nat.zero_le _⟩
  | escape c s ih =>
    have hlen : (readValue s).2.length ≤ ('\\' :: c :: s).length :=
      ih.2.trans (Nat.le_add_right _ 2)
    by_cases hc : c = '/'
    · rw [hc, readValue_slash]
      exact ⟨ih.1, hc ▸ hlen⟩
    · rw [readValue_escape hc]
      exact ⟨ih.1, hlen⟩
  | byte c s hc ih =>
    by_cases hc' : c = '/'
    · rw [hc', readValue_stop]
      exact ⟨.inr rfl, Nat.le_refl _⟩
    · rw [readValue_plain hc hc']
      exact ⟨ih.1, ih.2.trans (Nat.le_succ _)⟩

end

/-! ## The components -/

/-- A type that OpenSSL knows, and a value of at least one byte. -/
structure Component {Obj : Type} (txt2obj : Str → Option Obj) where
  type : Str
  obj : Obj
  known : txt2obj type = some obj
  plain : ∀ c ∈ type, c ≠ '\\' ∧ c ≠ '='
  value : List Piece
  nonempty : value ≠ []

section

variable {Obj : Type} {txt2obj : Str → Option Obj}

def Component.text (c : Component txt2obj) : Str := '/' :: c.type ++ '=' :: textOf c.value

def Component.entry (c : Component txt2obj) : Obj × Str := (c.obj, charsOf c.value)

def slashForm (l : List (Component txt2obj)) : Str := l.flatMap Component.text

theorem ends_slashForm (l : List (Component txt2obj)) : Ends (slashForm l) := by
  cases l with
  | nil => exact .inl rfl
  | cons c l => exact .inr rfl

theorem length_le_slashForm (l : List (Component txt2obj)) : l.length ≤ (slashForm l).length := by
  induction l with
  | nil => exact Nat.le_refl _
  | cons c l ih =>
    rw [slashForm, List.flatMap_cons, List.length_append, List.length_cons, Component.text,
      List.length_append, List.length_cons]
    have hform : (slashForm l).length = (l.flatMap Component.text).length := rfl
    omega

theorem storedOf_ne_nil {l : List Piece} (h : l ≠ []) : storedOf l ≠ [] := by
  cases l with
  | nil => exact absurd rfl h
  | cons p l => cases p <;> exact List.cons_ne_nil _ _

theorem textOf_ne_nil {l : List Piece} (h : l ≠ []) : textOf l ≠ [] := by
  cases l with
  | nil => exact absurd rfl h
  | cons p l => cases p <;> exact List.cons_ne_nil _ _

/-- A turn that comes to a value. -/
theorem makeDnLoop_value {n : Nat} {name : List (Obj × Str)} {dnstring type s : Str}
    (h : readName dnstring = some (type, s)) (hs : s ≠ []) :
    makeDnLoop txt2obj (n + 1) name dnstring =
      if (readValue s).1 = [] then .ok none else
        reencodeString (readValue s).1 >>= fun bytes => skipSlash type >>= fun field =>
          if (readValue s).2 = [] then .ok (some (addEntryByTxt txt2obj name field bytes))
          else makeDnLoop txt2obj n (addEntryByTxt txt2obj name field bytes) (readValue s).2 := by
  cases s with
  | nil => exact absurd rfl hs
  | cons c s =>
    rw [makeDnLoop, h]

theorem addEntryByTxt_prefix (name : List (Obj × Str)) (field bytes : Str) :
    name <+: addEntryByTxt txt2obj name field bytes := by
  rw [addEntryByTxt]
  split
  · exact List.prefix_append _ _
  · exact List.prefix_rfl

/-- The entries already there stay. -/
theorem makeDnLoop_prefix : ∀ (n : Nat) {name name' : List (Obj × Str)} {dnstring : Str},
    makeDnLoop txt2obj n name dnstring = .ok (some name') → name <+: name' := by
  intro n
  induction n with
  | zero => intro _ _ _ h; cases h
  | succ n ih =>
    intro name name' dnstring h
    match hname : readName dnstring with
    | none =>
      rw [makeDnLoop, hname] at h
      cases h
    | some (type, []) =>
      rw [makeDnLoop, hname] at h
      exact Option.some.inj (Res.ok.inj h) ▸ List.prefix_rfl
    | some (type, c :: s) =>
      rw [makeDnLoop_value hname (List.cons_ne_nil c s)] at h
      split at h
      · cases h
      · obtain ⟨bytes, -, h⟩ := Res.bind_eq_ok.mp h
        obtain ⟨field, -, h⟩ := Res.bind_eq_ok.mp h
        have hentry : name <+: addEntryByTxt txt2obj name field bytes :=
          addEntryByTxt_prefix name field bytes
        split at h
        · exact Option.some.inj (Res.ok.inj h) ▸ hentry
        · exact hentry.trans (ih h)

/-- One component. -/
theorem makeDnLoop_component (n : Nat) (name : List (Obj × Str)) (c : Component txt2obj)
    (l : List (Component txt2obj)) :
    makeDnLoop txt2obj (n + 1) name (slashForm (c :: l)) =
      (reencodeString (storedOf c.value) >>= fun bytes =>
        if l = [] then .ok (some (name ++ [(c.obj, bytes)]))
        else makeDnLoop txt2obj n (name ++ [(c.obj, bytes)]) (slashForm l)) := by
  have hform : slashForm (c :: l) = ('/' :: c.type) ++ '=' :: (textOf c.value ++ slashForm l) := by
    rw [slashForm, List.flatMap_cons, Component.text, List.append_assoc, List.cons_append]
    rfl
  have hname : readName (slashForm (c :: l)) =
      some ('/' :: c.type, textOf c.value ++ slashForm l) := by
    rw [hform]
    refine readName_text (fun d hd => ?_) _
    rcases List.mem_cons.mp hd with rfl | hd
    · exact ⟨by decide, by decide⟩
    · exact c.plain d hd
  have hvalue := readValue_text (ends_slashForm l) c.value
  have hentry (bytes : Str) : addEntryByTxt txt2obj name c.type bytes = name ++ [(c.obj, bytes)] := by
    rw [addEntryByTxt, c.known]
  have hlast : slashForm l = [] ↔ l = [] := by
    cases l with
    | nil => exact iff_of_true rfl rfl
    | cons c l => exact iff_of_false (List.cons_ne_nil _ _) (List.cons_ne_nil _ _)
  rw [makeDnLoop_value hname (List.append_ne_nil_of_left_ne_nil (textOf_ne_nil c.nonempty) _), hvalue,
    if_neg (storedOf_ne_nil c.nonempty)]
  simp only [skipSlash, Res.ok_bind, hentry, hlast]

theorem makeDnLoop_slashForm (l : List (Component txt2obj)) : ∀ (n : Nat) (name : List (Obj × Str))
    (c : Component txt2obj), l.length < n →
    (makeDnLoop txt2obj n name (slashForm (c :: l)) =
        .ok (some (name ++ (c :: l).map Component.entry)) ↔
      ∀ c' ∈ c :: l, Readable c'.value) := by
  induction l with
  | nil =>
    intro n name c hn
    obtain ⟨n, rfl⟩ := Nat.exists_eq_succ_of_ne_zero (Nat.ne_of_gt hn)
    rw [makeDnLoop_component, List.forall_mem_singleton, ← reencodeString_stored]
    simp [Res.bind_eq_ok, Component.entry]
  | cons c' l ih =>
    intro n name c hn
    obtain ⟨n, rfl⟩ := Nat.exists_eq_succ_of_ne_zero (Nat.ne_zero_of_lt hn)
    rw [makeDnLoop_component, List.forall_mem_cons, ← reencodeString_stored,
      ← ih n (name ++ [c.entry]) c' (by simpa using hn), Res.bind_eq_ok]
    simp only [if_neg (List.cons_ne_nil c' l)]
    have hentries : name ++ (c :: c' :: l).map Component.entry =
        name ++ [c.entry] ++ (c' :: l).map Component.entry := by
      rw [List.map_cons, List.append_assoc, List.singleton_append]
    rw [hentries]
    constructor
    · rintro ⟨bytes, hbytes, h⟩
      have hprefix := makeDnLoop_prefix n h
      rw [List.append_assoc, List.prefix_append_right_inj] at hprefix
      have hentry : (c.obj, bytes) = c.entry := (List.cons_prefix_cons.mp hprefix).1
      exact ⟨(Prod.mk.inj hentry).2 ▸ hbytes, hentry ▸ h⟩
    · rintro ⟨hbytes, h⟩
      exact ⟨charsOf c.value, hbytes, h⟩

end

/-! ## Every text -/

/-- Where a byte of the text stands. -/
inductive Place where
  | name
  | nameEscape
  | start                           -- behind the `=`
  | value (pending : Pending)
  | valueEscape (pending : Pending)
  | refused                         -- an empty value: `make_DN` gives up
  | overrun                         -- a value has ended in an open escape
  deriving DecidableEq, Repr

def Place.next : Place → Char → Place
  | .name, c => if c = '\\' then .nameEscape else if c = '=' then .start else .name
  | .nameEscape, _ => .name
  | .start, c =>
    if c = '\\' then .valueEscape .nothing else if c = '/' then .refused else .value .nothing
  | .value p, c =>
    if c = '\\' then .valueEscape p
    else if c = '/' then if p = .nothing then .name else .overrun
    else .value (p.next c)
  | .valueEscape p, c => .value (if c = '/' then p.next c else (p.next '\\').next c)
  | .refused, _ => .refused
  | .overrun, _ => .overrun

def Place.Ended : Place → Prop
  | .value p | .valueEscape p => p = .nothing
  | .overrun => False
  | _ => True

/-- In every value that is come to, no escape is open at its end. -/
def Settled (dnstring : Str) : Prop := (dnstring.foldl Place.next .name).Ended

/-- A value without a type, at the beginning of the text. -/
def Headless (dnstring : Str) : Prop :=
  ∃ s, dnstring = '=' :: s ∧ s ≠ [] ∧ s ≠ ['\\'] ∧ s.head? ≠ some '/'

section

variable {c : Char} {s : Str}

theorem foldl_refused (s : Str) : s.foldl Place.next .refused = .refused := by
  induction s with
  | nil => rfl
  | cons c s ih => exact ih

theorem foldl_overrun (s : Str) : s.foldl Place.next .overrun = .overrun := by
  induction s with
  | nil => rfl
  | cons c s ih => exact ih

theorem ended_of_readName (s : Str) (h : readName s = none) :
    (s.foldl Place.next .name).Ended := by
  induction s using escapeInduction with
  | nil => trivial
  | last => trivial
  | escape c s ih =>
    rw [readName_escape, Option.map_eq_none_iff] at h
    exact ih h
  | byte c s hc ih =>
    by_cases hc' : c = '='
    · rw [hc', readName_stop] at h
      cases h
    · rw [readName_plain hc hc', Option.map_eq_none_iff] at h
      rw [List.foldl_cons, Place.next, if_neg hc, if_neg hc']
      exact ih h

theorem readName_some (s : Str) {type rest : Str} (h : readName s = some (type, rest)) :
    s.foldl Place.next .name = rest.foldl Place.next .start ∧ rest.length < s.length ∧
      (type = [] ↔ s.head? = some '=') := by
  induction s using escapeInduction generalizing type with
  | nil => cases h
  | last => cases h
  | escape c s ih =>
    rw [readName_escape, Option.map_eq_some_iff] at h
    obtain ⟨⟨type, rest⟩, hs, heq⟩ := h
    obtain ⟨rfl, rfl⟩ := Prod.mk.inj heq
    obtain ⟨hfold, hlen, -⟩ := ih hs
    refine ⟨hfold, hlen.trans (Nat.lt_add_of_pos_right Nat.two_pos),
      iff_of_false (List.cons_ne_nil _ _) ?_⟩
    exact fun h => absurd (Option.some.inj h) (by decide)
  | byte c s hc ih =>
    by_cases hc' : c = '='
    · subst hc'
      rw [readName_stop] at h
      obtain ⟨rfl, rfl⟩ := Prod.mk.inj (Option.some.inj h)
      exact ⟨rfl, Nat.lt_succ_self _, iff_of_true rfl rfl⟩
    · rw [readName_plain hc hc', Option.map_eq_some_iff] at h
      obtain ⟨⟨type, rest⟩, hs, heq⟩ := h
      obtain ⟨rfl, rfl⟩ := Prod.mk.inj heq
      obtain ⟨hfold, hlen, -⟩ := ih hs
      refine ⟨?_, hlen.trans (Nat.lt_succ_self _), iff_of_false (List.cons_ne_nil _ _) ?_⟩
      · rw [List.foldl_cons, Place.next, if_neg hc, if_neg hc']
        exact hfold
      · exact fun h => hc' (Option.some.inj h)

theorem readValue_empty (s : Str) : (readValue s).1 = [] ↔
    s = [] ∨ s = ['\\'] ∨ s.head? = some '/' := by
  induction s using escapeInduction with
  | nil => simp [readValue]
  | last => simp [readValue]
  | escape c s _ =>
    by_cases hc : c = '/'
    · rw [hc, readValue_slash]
      simp
    · rw [readValue_escape hc]
      simp
  | byte c s hc _ =>
    by_cases hc' : c = '/'
    · rw [hc', readValue_stop]
      simp
    · rw [readValue_plain hc hc']
      simp [hc, hc']

/-- Behind the `=`: nothing is read of an empty value. -/
theorem ended_start (s : Str) :
    if (readValue s).1 = [] then (s.foldl Place.next .start).Ended
    else s.foldl Place.next .start = s.foldl Place.next (.value .nothing) := by
  by_cases hempty : (readValue s).1 = []
  · rw [if_pos hempty]
    rcases (readValue_empty s).mp hempty with rfl | rfl | hhead
    · trivial
    · exact rfl
    · cases s with
      | nil => cases hhead
      | cons c s =>
        obtain rfl := Option.some.inj hhead
        change (s.foldl Place.next .refused).Ended
        rw [foldl_refused]
        trivial
  · rw [if_neg hempty]
    rw [readValue_empty, not_or, not_or] at hempty
    cases s with
    | nil => exact absurd rfl hempty.1
    | cons c s =>
      have hc' : c ≠ '/' := fun h => hempty.2.2 (congrArg some h)
      rw [List.foldl_cons, List.foldl_cons]
      congr 1
      by_cases hc : c = '\\'
      · rw [hc]
        rfl
      · rw [Place.next, Place.next, if_neg hc, if_neg hc, if_neg hc', if_neg hc', Pending.next,
          if_neg hc]

/-- A value is read to its end, and its escapes with it. -/
theorem ended_value (s : Str) : ∀ p, (s.foldl Place.next (.value p)).Ended ↔
    (readValue s).1.foldl Pending.next p = .nothing ∧
      ((readValue s).2.foldl Place.next .name).Ended := by
  induction s using escapeInduction with
  | nil => exact fun p => (and_iff_left trivial).symm
  | last => exact fun p => (and_iff_left trivial).symm
  | escape c s ih =>
    intro p
    have hnext : ('\\' :: c :: s).foldl Place.next (.value p) =
        s.foldl Place.next (.value (if c = '/' then p.next c else (p.next '\\').next c)) := rfl
    rw [hnext, ih]
    by_cases hc : c = '/'
    · rw [if_pos hc, hc, readValue_slash]
      rfl
    · rw [if_neg hc, readValue_escape hc]
      rfl
  | byte c s hc ih =>
    intro p
    rw [List.foldl_cons, Place.next, if_neg hc]
    by_cases hc' : c = '/'
    · rw [if_pos hc', hc', readValue_stop]
      by_cases hp : p = .nothing
      · rw [if_pos hp]
        exact (and_iff_right hp).symm
      · rw [if_neg hp, foldl_overrun]
        exact iff_of_false id fun h => hp h.1
    · rw [if_neg hc', ih, readValue_plain hc hc']
      rfl

end

/-- The text is headless if its type is empty and its value is not. -/
theorem headless_iff {dnstring type rest : Str} (hname : readName dnstring = some (type, rest)) :
    Headless dnstring ↔ type = [] ∧ (readValue rest).1 ≠ [] := by
  rw [(readName_some dnstring hname).2.2, ne_eq, readValue_empty, not_or, not_or]
  constructor
  · rintro ⟨s, rfl, h⟩
    rw [readName_stop] at hname
    obtain ⟨-, rfl⟩ := Prod.mk.inj (Option.some.inj hname)
    exact ⟨rfl, h⟩
  · rintro ⟨hhead, h⟩
    cases dnstring with
    | nil => cases hhead
    | cons c s =>
      obtain rfl := Option.some.inj hhead
      rw [readName_stop] at hname
      obtain ⟨-, rfl⟩ := Prod.mk.inj (Option.some.inj hname)
      exact ⟨s, rfl, h⟩

/-- Behind a value stands a slash. -/
theorem Ends.not_headless {rest : Str} (h : Ends rest) : ¬ Headless rest := by
  rintro ⟨s, rfl, -⟩
  rcases h with h | h
  · cases h
  · exact absurd (Option.some.inj h) (by decide)

section

variable {Obj : Type} (txt2obj : Str → Option Obj)

/-- A type and a value, where the rest is known. -/
theorem component_ok {type value : Str} {next : Str → Str → Eval (Option (List (Obj × Str)))}
    {P : Prop} (hnext : ∀ field bytes, (∃ r, next field bytes = .ok r) ↔ P) :
    (∃ r, (reencodeString value >>= fun bytes => skipSlash type >>= fun field =>
      next field bytes) = .ok r) ↔ type ≠ [] ∧ Whole value ∧ P := by
  rw [← reencodeString_ok]
  constructor
  · rintro ⟨r, h⟩
    obtain ⟨bytes, hbytes, h⟩ := Res.bind_eq_ok.mp h
    obtain ⟨field, hfield, h⟩ := Res.bind_eq_ok.mp h
    refine ⟨fun hnil => ?_, ⟨bytes, hbytes⟩, (hnext field bytes).mp ⟨r, h⟩⟩
    rw [hnil] at hfield
    cases hfield
  · rintro ⟨htype, ⟨bytes, hbytes⟩, hrest⟩
    cases type with
    | nil => exact absurd rfl htype
    | cons c field =>
      rw [hbytes]
      exact (hnext field bytes).mpr hrest

theorem makeDnLoop_ok : ∀ (n : Nat) (name : List (Obj × Str)) (dnstring : Str),
    dnstring.length < n →
    ((∃ r, makeDnLoop txt2obj n name dnstring = .ok r) ↔
      ¬ Headless dnstring ∧ Settled dnstring) := by
  intro n
  induction n with
  | zero => intro _ _ hn; exact absurd hn (Nat.not_lt_zero _)
  | succ n ih =>
    intro name dnstring hn
    match hname : readName dnstring with
    | none =>
      refine iff_of_true ⟨none, by rw [makeDnLoop, hname]⟩ ⟨?_, ended_of_readName dnstring hname⟩
      rintro ⟨s, rfl, -⟩
      rw [readName_stop] at hname
      cases hname
    | some (type, rest) =>
      obtain ⟨hfold, hlen, -⟩ := readName_some dnstring hname
      have hstart := ended_start rest
      rw [headless_iff hname, Settled, hfold]
      by_cases hempty : (readValue rest).1 = []
      · rw [if_pos hempty] at hstart
        refine iff_of_true ?_ ⟨fun h => h.2 hempty, hstart⟩
        cases rest with
        | nil => exact ⟨some name, by rw [makeDnLoop, hname]⟩
        | cons c rest =>
          exact ⟨none, by rw [makeDnLoop_value hname (List.cons_ne_nil c rest), if_pos hempty]⟩
      · have hrest : rest ≠ [] := fun h => hempty ((readValue_empty rest).mpr (.inl h))
        rw [if_neg hempty] at hstart
        obtain ⟨hends, hlen'⟩ := ends_readValue rest
        have hnext (field bytes : Str) :
            (∃ r, (if (readValue rest).2 = [] then .ok (some (addEntryByTxt txt2obj name field bytes))
              else makeDnLoop txt2obj n (addEntryByTxt txt2obj name field bytes)
                (readValue rest).2) = .ok r) ↔
            ((readValue rest).2.foldl Place.next .name).Ended := by
          by_cases hlast : (readValue rest).2 = []
          · rw [if_pos hlast, hlast]
            exact iff_of_true ⟨_, rfl⟩ trivial
          · rw [if_neg hlast, ih _ _ (by omega)]
            exact and_iff_right hends.not_headless
        rw [hstart, ended_value, makeDnLoop_value hname hrest, if_neg hempty,
          component_ok hnext, and_iff_left hempty]
        rfl

end

/-! ## Exactly when -/

/-- **A name comes back with its components exactly if the values are all
`Readable`; and no NUL is passed exactly if the text does not begin with an
empty type and no value ends in an open escape.** -/
theorem makeDn_exact {Obj : Type} (txt2obj : Str → Option Obj) :
    (∀ (c : Component txt2obj) (l : List (Component txt2obj)),
      makeDn txt2obj (slashForm (c :: l)) = .ok (some ((c :: l).map Component.entry)) ↔
        ∀ c' ∈ c :: l, Readable c'.value) ∧
    (∀ dnstring, (∃ r, makeDn txt2obj dnstring = .ok r) ↔
      ¬ Headless dnstring ∧ Settled dnstring) ∧
    ∀ string, (∃ temp, reencodeString string = .ok temp) ↔ Whole string := by
  refine ⟨fun c l => ?_, fun dnstring => ?_, reencodeString_ok⟩
  · have hlen : l.length < (slashForm (c :: l)).length + 1 :=
      Nat.lt_succ_of_lt (length_le_slashForm (c :: l))
    exact makeDnLoop_slashForm l _ [] c hlen
  · exact makeDnLoop_ok txt2obj _ [] dnstring (Nat.lt_succ_self _)

def commonName (field : Str) : Option Unit := if field = "CN".toList then some () else none

/-- The value `a\`. -/
def backslashAtEnd : Component commonName where
  type := "CN".toList
  obj := ()
  known := rfl
  plain := forall_mem_of_all (by decide)
  value := [.byte 'a' (by decide), .backslash]
  nonempty := List.cons_ne_nil _ _

/-- The half of `\\` that is left over takes the NUL. -/
theorem makeDn_passes_end :
    slashForm [backslashAtEnd] = "/CN=a\\\\".toList ∧ backslashAtEnd.entry = ((), "a\\".toList) ∧
      makeDn commonName (slashForm [backslashAtEnd]) ≠ .ok (some [backslashAtEnd.entry]) ∧
      makeDn commonName (slashForm [backslashAtEnd]) = .fault .outOfRange := by
  decide +kernel

end Voms.L3
