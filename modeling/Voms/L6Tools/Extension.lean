import Voms.Core.Block
import Voms.L6Tools.ParseTime

/-!
# Extensions from the command line

`oid[/criticality]:text`, `oid[/criticality]~hex` or `oid[/criticality]+file`:
`Fake::create_extension` (`src/utils/vomsfake.cc`) splits the text at the
first of `:`, `~` and `+`, and `CreateProxyExtension` (`src/sslutils/proxy.c`)
makes the extension. The data may have any of the markers in them.

What has a bound is the length. It becomes an `int` on the way to OpenSSL,
whose texts have no longer one, and `hextostring` counts in `int`s: its index
`i*2` leaves them at 2^30 bytes. `createExtension_exact`.
-/
namespace Voms.L6

open Voms.Core

/-- An `X509_EXTENSION`; the length of an `ASN1_STRING` is an `int`. -/
structure X509Extension (Obj : Type) where
  object : Obj
  critical : Bool
  value : Str
  fits : value.length < 2 ^ 31

/-- What is used of OpenSSL. The bytes that `createByObj` copies are given by
where they begin and how many they are. -/
structure Openssl (Obj : Type) where
  txt2nid : Str → Int
  nid2obj : Int → Option Obj
  txt2obj : Str → Option Obj
  octetStringNew : Bool
  createByObj : Obj → Bool → Str → Int → Option (X509Extension Obj)

variable {Obj : Type}

def Openssl.object (lib : Openssl Obj) (name : Str) : Option Obj :=
  let nid := lib.txt2nid name
  if nid ≠ 0 then lib.nid2obj nid else lib.txt2obj name

/-- mirrors src/sslutils/proxy.c:621-660 -/
def createProxyExtension (lib : Openssl Obj) (name data : Str) (datalen : Int) (crit : Bool) :
    Option (X509Extension Obj) := do
  let obj ← lib.object name
  if lib.octetStringNew then lib.createByObj obj crit data datalen else none

/-! ## The data -/

/-- An index that is an `int`. -/
def intIndex (i : Nat) : Eval Nat := if i < 2 ^ 31 then pure i else .fault .outOfRange

/-- The loop over `newdata` from `i` on; `none` is the return in the loop.
mirrors src/utils/vomsfake.cc:1266-1276 -/
def hexLoop (temp : Str) (i : Nat) : Nat → Eval (Option Str)
  | 0 => pure (some [])
  | n + 1 => do
    let first ← Block.load temp (← intIndex (i * 2))
    let second ← Block.load temp (← intIndex (i * 2 + 1))
    if isXdigit first && isXdigit second then
      let rest ← hexLoop temp (i + 1) n
      pure (rest.map (Char.ofNat ((hex2num first <<< 4) + hex2num second) :: ·))
    else pure none

/-- `new` takes no negative length.
mirrors src/utils/vomsfake.cc:1254-1283 -/
def hextostring (data : Str) : Eval Str := do
  let temp := if data.length % 2 = 1 then '0' :: data else data
  let len := longToInt (temp.length / 2 : Nat)
  if len < 0 then .fault .outOfRange
  else
    let value ← hexLoop temp 0 len.toNat
    pure (value.getD [])

example : hextostring "6aF".toList = .ok "\x06\xaf".toList := by decide

/-! ## The text -/

/-- `a < b` for positions; `none` is `npos`. -/
def before : Option Nat → Option Nat → Bool
  | some a, some b => a < b
  | some _, none => true
  | none, _ => false

/-- mirrors src/utils/vomsfake.cc:1186-1200 -/
def getMinimum (s1 s2 s3 : Option Nat) : Option Nat :=
  let minimum := none
  let minimum := if before s1 minimum then s1 else minimum
  let minimum := if before s2 minimum then s2 else minimum
  if before s3 minimum then s3 else minimum

/-- `s.substr(pos, n)`. -/
def substr (s : Str) (pos : Nat) : Option Nat → Str
  | some n => (s.drop pos).take n
  | none => s.drop pos

/-- What `create_extension` comes to: `exit(1)`, or what it returns. -/
inductive Created (Obj : Type) where
  | exit
  | ext (e : Option (X509Extension Obj))

/-- The criticality; `none` is `exit(1)`. -/
def readCriticality (string : Str) (slashPosition dataPosition : Option Nat) : Option Bool :=
  match slashPosition with
  | none => some false
  | some slash =>
    if before slashPosition dataPosition then
      let crit := substr string (slash + 1) (dataPosition.map (· - slash - 1))
      if crit = "false".toList then some false
      else if crit = "true".toList then some true
      else none
    else some false

/-- The bytes; `none` is `exit(1)`. -/
def readData (readfile : Str → Str) (string : Str) (gatePosition filePosition : Option Nat) :
    Option Nat → Eval (Option Str)
  | none => pure (some " ".toList)
  | some pos => do
    let data := substr string (pos + 1) none
    let data ← if gatePosition = some pos then hextostring data else pure data
    if filePosition = some pos then
      let data := readfile data
      pure (if data = [] then none else some data)
    else pure (some data)

/-- mirrors src/utils/vomsfake.cc:1202-1251 -/
def createExtension (lib : Openssl Obj) (readfile : Str → Str) (string : Str) :
    Eval (Created Obj) :=
  let colonPosition := string.idxOf? ':'
  let slashPosition := string.idxOf? '/'
  let gatePosition := string.idxOf? '~'
  let filePosition := string.idxOf? '+'
  let dataPosition := getMinimum colonPosition gatePosition filePosition
  let oid := substr string 0 (if before slashPosition dataPosition then slashPosition
    else dataPosition)
  match readCriticality string slashPosition dataPosition with
  | none => pure .exit
  | some critical => do
    match ← readData readfile string gatePosition filePosition dataPosition with
    | none => pure .exit
    | some data =>
      pure (.ext (createProxyExtension lib (cStr oid) data (longToInt data.length) critical))

/-! ## Where the text is split -/

/-- A text that is an object identifier for OpenSSL, with no marker in it. -/
structure Identifier (lib : Openssl Obj) (obj : Obj) where
  text : Str
  plain : ∀ c ∈ text, c ≠ ':' ∧ c ≠ '/' ∧ c ≠ '~' ∧ c ≠ '+' ∧ c ≠ '\x00'
  known : lib.object text = some obj

/-- Absent, `/true` or `/false`. -/
def critText : Option Bool → Str
  | none => []
  | some true => "/true".toList
  | some false => "/false".toList

/-- Not found, or found behind `n`. -/
def Behind (n : Nat) (position : Option Nat) : Prop := ∀ k, position = some k → n < k

section

variable {n : Nat} {p q : Option Nat}

theorem before_of_behind (hp : Behind n p) : before p (some n) = false := by
  cases p with
  | none => rfl
  | some k => exact decide_eq_false (Nat.lt_asymm (hp k rfl))

theorem getMinimum_colon (hp : Behind n p) (hq : Behind n q) :
    getMinimum (some n) p q = some n := by
  have hn : before (some n) none = true := rfl
  simp [getMinimum, hn, before_of_behind hp, before_of_behind hq]

theorem getMinimum_gate (hp : Behind n p) (hq : Behind n q) :
    getMinimum p (some n) q = some n := by
  cases p with
  | none =>
    have hnone : before none none = false := rfl
    have hn : before (some n) none = true := rfl
    simp [getMinimum, hnone, hn, before_of_behind hq]
  | some k =>
    have hk : before (some k) none = true := rfl
    have hn : before (some n) (some k) = true := decide_eq_true (hp k rfl)
    simp [getMinimum, hk, hn, before_of_behind hq]

end

section

variable {lib : Openssl Obj} {obj : Obj} {front rest : Str} {mark c : Char}

theorem behind_idxOf (mark : Char) (rest : Str) (hfront : c ∉ front) (hc : c ≠ mark) :
    Behind front.length ((front ++ mark :: rest).idxOf? c) := by
  intro k hk
  obtain ⟨a, b, hsplit, -, rfl⟩ := idxOf_split hk
  have hat : (front ++ mark :: rest)[a.length]? = some c := by rw [hsplit]; simp
  by_contra hle
  rcases Nat.lt_or_eq_of_le (Nat.not_lt.mp hle) with hlt | heq
  · rw [List.getElem?_append_left hlt] at hat
    exact hfront (List.mem_of_getElem? hat)
  · rw [heq, List.getElem?_append_right (Nat.le_refl _), Nat.sub_self, List.getElem?_cons_zero,
      Option.some.injEq] at hat
    exact hc hat.symm

theorem Identifier.fresh (oid : Identifier lib obj) (crit : Option Bool)
    (hc : c = ':' ∨ c = '~' ∨ c = '+') : c ∉ oid.text ++ critText crit := by
  rw [List.mem_append, not_or]
  constructor
  · intro h
    have hplain := oid.plain c h
    rcases hc with rfl | rfl | rfl
    · exact hplain.1 rfl
    · exact hplain.2.2.1 rfl
    · exact hplain.2.2.2.1 rfl
  · rcases crit with _ | _ | _ <;> rcases hc with rfl | rfl | rfl <;> decide

theorem readCriticality_absent {string : Str} {n : Nat} {p : Option Nat} (hp : Behind n p) :
    readCriticality string p (some n) = some false := by
  cases p with
  | none => rfl
  | some k =>
    rw [readCriticality, if_neg]
    rw [before_of_behind hp]
    exact Bool.false_ne_true

theorem readCriticality_present {string word : Str} {slash pos : Nat} (hlt : slash < pos)
    (hword : substr string (slash + 1) (some (pos - slash - 1)) = word) :
    readCriticality string (some slash) (some pos) =
      if word = "false".toList then some false
      else if word = "true".toList then some true
      else none := by
  have hbefore : before (some slash) (some pos) = true := decide_eq_true hlt
  subst hword
  exact if_pos hbefore

/-- The text of the criticality is all there is between the slash and the mark. -/
theorem substr_criticality (front word rest : Str) :
    substr (front ++ '/' :: (word ++ rest)) (front.length + 1)
      (some ((front ++ '/' :: word).length - front.length - 1)) = word := by
  have hlength : (front ++ '/' :: word).length - front.length - 1 = word.length := by simp
  rw [substr, hlength, ← List.drop_drop, List.drop_left, List.drop_succ_cons, List.drop_zero,
    List.take_left]

/-- The identifier and the criticality, up to the mark. -/
theorem header (oid : Identifier lib obj) (crit : Option Bool) (hmark : '/' ≠ mark)
    {string : Str} {slash dataPosition : Option Nat}
    (hstring : string = oid.text ++ critText crit ++ mark :: rest)
    (hslash : slash = string.idxOf? '/')
    (hdata : dataPosition = some (oid.text ++ critText crit).length) :
    substr string 0 (if before slash dataPosition then slash else dataPosition) = oid.text ∧
    readCriticality string slash dataPosition = some (crit.getD false) := by
  have hplain : '/' ∉ oid.text := fun h => (oid.plain _ h).2.1 rfl
  cases crit with
  | none =>
    have hnone : oid.text ++ critText none = oid.text := List.append_nil _
    rw [hnone] at hstring hdata
    have hbehind : Behind oid.text.length slash := by
      rw [hslash, hstring]
      exact behind_idxOf mark rest hplain hmark
    rw [hdata, readCriticality_absent hbehind, before_of_behind hbehind, if_neg Bool.false_ne_true,
      hstring, substr, List.drop_zero, List.take_left]
    exact ⟨rfl, rfl⟩
  | some critical =>
    obtain ⟨word, hword, hread⟩ : ∃ word, critText (some critical) = '/' :: word ∧
        (if word = "false".toList then some false else if word = "true".toList then some true
          else none) = some critical := by
      cases critical with
      | true => exact ⟨"true".toList, rfl, rfl⟩
      | false => exact ⟨"false".toList, rfl, rfl⟩
    rw [hword] at hstring hdata
    have hslash' : slash = some oid.text.length := by
      rw [hslash, hstring, List.append_assoc, List.cons_append]
      exact idxOf_fresh _ hplain
    have hlt : oid.text.length < (oid.text ++ '/' :: word).length := by simp
    have hbefore : before (some oid.text.length) (some (oid.text ++ '/' :: word).length) = true :=
      decide_eq_true hlt
    have hcrit := substr_criticality oid.text word (mark :: rest)
    rw [← List.cons_append, ← List.append_assoc, ← hstring] at hcrit
    rw [hslash', hdata, hbefore, if_pos rfl]
    refine ⟨?_, (readCriticality_present hlt hcrit).trans hread⟩
    rw [hstring, substr, List.drop_zero, List.append_assoc, List.take_left]

theorem substr_rest (front rest : Str) :
    substr (front ++ mark :: rest) (front.length + 1) none = rest := by
  rw [substr, ← List.drop_drop, List.drop_left]
  rfl

theorem Identifier.cStr_text (oid : Identifier lib obj) : cStr oid.text = oid.text :=
  cStr_of_noNul fun h => (oid.plain _ h).2.2.2.2 rfl

/-- The extension is made of what is read behind the mark. -/
theorem createExtension_mark (oid : Identifier lib obj) (crit : Option Bool)
    {readfile : Str → Str} (hmark : '/' ≠ mark) {string : Str} {x : Eval Str}
    (hstring : string = oid.text ++ critText crit ++ mark :: rest)
    (hdata : getMinimum (string.idxOf? ':') (string.idxOf? '~') (string.idxOf? '+') =
      some (oid.text ++ critText crit).length)
    (hread : readData readfile string (string.idxOf? '~') (string.idxOf? '+')
      (some (oid.text ++ critText crit).length) = x >>= fun d => pure (some d)) :
    createExtension lib readfile string = x >>= fun d => pure (.ext
      (createProxyExtension lib oid.text d (longToInt d.length) (crit.getD false))) := by
  obtain ⟨hoid, hcrit⟩ := header oid crit hmark hstring rfl rfl
  simp only [createExtension, hdata, hoid, hcrit, hread, oid.cStr_text]
  cases x with
  | ok d => rfl
  | err e => exact e.elim
  | fault f => rfl

/-- Behind a colon the bytes are what follows it. -/
theorem createExtension_colon (oid : Identifier lib obj) (crit : Option Bool)
    (readfile : Str → Str) (d : Str) :
    createExtension lib readfile (oid.text ++ critText crit ++ ':' :: d) =
      .ok (.ext (createProxyExtension lib oid.text d (longToInt d.length) (crit.getD false))) := by
  have hgate := behind_idxOf ':' d (oid.fresh crit (.inr (.inl rfl))) (by decide)
  have hfile := behind_idxOf ':' d (oid.fresh crit (.inr (.inr rfl))) (by decide)
  refine createExtension_mark oid crit (x := .ok d) (by decide) rfl ?_ ?_
  · rw [idxOf_fresh d (oid.fresh crit (.inl rfl)), getMinimum_colon hgate hfile]
  · have hgate' := mt (hgate _) (Nat.lt_irrefl _)
    have hfile' := mt (hfile _) (Nat.lt_irrefl _)
    simp only [readData, substr_rest, hgate', hfile', if_false]
    rfl

/-- Behind a `~` they are what it stands for. -/
theorem createExtension_gate (oid : Identifier lib obj) (crit : Option Bool)
    (readfile : Str → Str) (hex : Str) :
    createExtension lib readfile (oid.text ++ critText crit ++ '~' :: hex) =
      hextostring hex >>= fun d => pure (.ext
        (createProxyExtension lib oid.text d (longToInt d.length) (crit.getD false))) := by
  have hcolon := behind_idxOf '~' hex (oid.fresh crit (.inl rfl)) (by decide)
  have hfile := behind_idxOf '~' hex (oid.fresh crit (.inr (.inr rfl))) (by decide)
  have hgate := idxOf_fresh hex (oid.fresh crit (.inr (.inl rfl)))
  refine createExtension_mark oid crit (by decide) rfl ?_ ?_
  · rw [hgate, getMinimum_gate hcolon hfile]
  · have hfile' := mt (hfile _) (Nat.lt_irrefl _)
    simp only [readData, substr_rest, hgate, hfile', if_false, if_true]

end

/-! ## The hexadecimal form -/

/-- `c` is a digit for `n`, of either case. -/
def HexDigit (n : Nat) (c : Char) : Prop :=
  "0123456789abcdef".toList[n]? = some c ∨ "0123456789ABCDEF".toList[n]? = some c

/-- Two digits for each byte. -/
inductive HexForm : Str → Str → Prop where
  | nil : HexForm [] []
  | cons {c hi lo : Char} {d hex : Str} : HexDigit (c.toNat / 16) hi → HexDigit (c.toNat % 16) lo →
      HexForm d hex → HexForm (c :: d) (hi :: lo :: hex)

theorem HexDigit.spec {n : Nat} {c : Char} (h : HexDigit n c) :
    isXdigit c = true ∧ hex2num c = n ∧ n < 16 := by
  have hdigits : ∀ n < 16, (isXdigit ("0123456789abcdef".toList.getD n '0') = true ∧
      hex2num ("0123456789abcdef".toList.getD n '0') = n) ∧
      isXdigit ("0123456789ABCDEF".toList.getD n '0') = true ∧
      hex2num ("0123456789ABCDEF".toList.getD n '0') = n := by decide
  rcases h with h | h
  · obtain ⟨hlt, -⟩ := List.getElem?_eq_some_iff.mp h
    have hget := (hdigits n hlt).1
    rw [List.getD_eq_getElem?_getD, h] at hget
    exact ⟨hget.1, hget.2, hlt⟩
  · obtain ⟨hlt, -⟩ := List.getElem?_eq_some_iff.mp h
    have hget := (hdigits n hlt).2
    rw [List.getD_eq_getElem?_getD, h] at hget
    exact ⟨hget.1, hget.2, hlt⟩

theorem HexForm.length {d hex : Str} (h : HexForm d hex) : hex.length = 2 * d.length := by
  induction h with
  | nil => rfl
  | cons _ _ _ ih => simp only [List.length_cons, ih]; omega

section

variable {temp rest : Str} {i n : Nat} {first second : Char}

/-- Two digits are one byte. -/
theorem hexLoop_succ (hi : i < 2 ^ 30) (hdrop : temp.drop (i * 2) = first :: second :: rest)
    (hfirst : isXdigit first = true) (hsecond : isXdigit second = true) :
    hexLoop temp i (n + 1) = hexLoop temp (i + 1) n >>= fun bytes =>
      pure (bytes.map (Char.ofNat ((hex2num first <<< 4) + hex2num second) :: ·)) := by
  have hdrop' : temp.drop (i * 2 + 1) = second :: rest := by rw [← List.drop_drop, hdrop]; rfl
  have heven : intIndex (i * 2) = .ok (i * 2) := if_pos (by omega)
  have hodd : intIndex (i * 2 + 1) = .ok (i * 2 + 1) := if_pos (by omega)
  rw [hexLoop, heven, hodd]
  simp only [Block.load_drop hdrop, Block.load_drop hdrop', Res.ok_bind, hfirst, hsecond,
    Bool.and_self, if_true]

/-- From 2^30 on the index is no `int`. -/
theorem hexLoop_over (hi : ¬ i < 2 ^ 30) : hexLoop temp i (n + 1) = .fault .outOfRange := by
  have heven : intIndex (i * 2) = .fault .outOfRange := if_neg (by omega)
  rw [hexLoop, heven]
  rfl

end

/-- From `i` on the bytes are read as long as the index is an `int`. -/
theorem hexLoop_form {d hex : Str} (h : HexForm d hex) {temp : Str} : ∀ {i : Nat},
    temp.drop (i * 2) = hex → hexLoop temp i d.length =
      if d = [] ∨ i + d.length ≤ 2 ^ 30 then .ok (some d) else .fault .outOfRange := by
  induction h with
  | nil => intro i _; rfl
  | @cons c hi' lo d hex hhi hlo _ ih =>
    intro i hdrop
    by_cases hi : i < 2 ^ 30
    · obtain ⟨hhex, hhinum, -⟩ := hhi.spec
      obtain ⟨hlex, hlonum, -⟩ := hlo.spec
      have hbyte : Char.ofNat ((hex2num hi' <<< 4) + hex2num lo) = c := by
        rw [hhinum, hlonum, Nat.shiftLeft_eq, show c.toNat / 16 * 2 ^ 4 + c.toNat % 16 = c.toNat by
          omega, Char.ofNat_toNat]
      have hrest := ih (i := i + 1) (by
        rw [show (i + 1) * 2 = i * 2 + 2 by omega, ← List.drop_drop, hdrop]
        rfl)
      rw [List.length_cons, hexLoop_succ hi hdrop hhex hlex, hrest, hbyte]
      by_cases hfits : d = [] ∨ i + 1 + d.length ≤ 2 ^ 30
      · rw [if_pos hfits, if_pos]
        · rfl
        · refine .inr ?_
          rcases hfits with rfl | hle
          · exact hi
          · omega
      · rw [if_neg hfits, if_neg]
        · rfl
        · simp only [reduceCtorEq, false_or]
          omega
    · rw [List.length_cons, hexLoop_over hi, if_neg]
      simp only [reduceCtorEq, false_or]
      omega

theorem hextostring_form {d hex : Str} (h : HexForm d hex) (hlt : d.length < 2 ^ 31) :
    hextostring hex = if d.length ≤ 2 ^ 30 then .ok d else .fault .outOfRange := by
  have hlength := h.length
  have hlen : longToInt (hex.length / 2 : Nat) = d.length := by
    rw [hlength, Nat.mul_div_cancel_left _ (by decide)]
    exact longToInt_small (by omega)
  have hloop : hexLoop hex 0 d.length =
      if d = [] ∨ 0 + d.length ≤ 2 ^ 30 then .ok (some d) else .fault .outOfRange :=
    hexLoop_form h rfl
  have heven : (if hex.length % 2 = 1 then '0' :: hex else hex) = hex := if_neg (by omega)
  unfold hextostring
  simp only [heven, hlen]
  rw [if_neg (by omega), Int.toNat_natCast, hloop]
  by_cases hle : d.length ≤ 2 ^ 30
  · rw [if_pos (.inr (by omega)), if_pos hle]
    rfl
  · have hne : d ≠ [] := by rintro rfl; exact hle (by decide)
    rw [if_neg (by simp only [hne, false_or]; omega), if_neg hle]
    rfl

/-! ## The extension -/

/-- What is documented of OpenSSL: there is memory, and a new extension has a
copy of the bytes it is given, as many as it is told. -/
structure Openssl.Creates (lib : Openssl Obj) : Prop where
  octetStringNew : lib.octetStringNew = true
  createByObj : ∀ obj crit data (len : Int), 0 ≤ len → len ≤ data.length → len < 2 ^ 31 →
    ∃ e, lib.createByObj obj crit data len = some e ∧
      e.object = obj ∧ e.critical = crit ∧ e.value = data.take len.toNat

section

variable {lib : Openssl Obj} {obj : Obj} {readfile : Str → Str}

/-- The call makes an extension with these three parts. -/
def Builds (lib : Openssl Obj) (readfile : Str → Str) (string : Str) (obj : Obj) (critical : Bool)
    (d : Str) : Prop :=
  ∃ e, createExtension lib readfile string = .ok (.ext (some e)) ∧
    e.object = obj ∧ e.critical = critical ∧ e.value = d

/-- No extension has more bytes. -/
theorem Builds.length_lt {string : Str} {critical : Bool} {d : Str}
    (h : Builds lib readfile string obj critical d) : d.length < 2 ^ 31 := by
  obtain ⟨e, -, -, -, rfl⟩ := h
  exact e.fits

theorem createProxyExtension_makes (hlib : lib.Creates) (oid : Identifier lib obj) (crit : Bool)
    {d : Str} (hlt : d.length < 2 ^ 31) : ∃ e,
      createProxyExtension lib oid.text d (longToInt d.length) crit = some e ∧
      e.object = obj ∧ e.critical = crit ∧ e.value = d := by
  have hlen : longToInt d.length = d.length := longToInt_small (by omega)
  obtain ⟨e, he, hobj, hcrit, hvalue⟩ := hlib.createByObj obj crit d d.length (by omega)
    (by omega) (by omega)
  refine ⟨e, ?_, hobj, hcrit, ?_⟩
  · rw [createProxyExtension, oid.known, hlib.octetStringNew, hlen]
    exact he
  · rw [hvalue, Int.toNat_natCast, List.take_length]

/-- `hextostring` has to count the bytes. -/
theorem Builds.gate_length (oid : Identifier lib obj) (crit : Option Bool) {critical : Bool}
    {object : Obj} {d hex : Str} (hform : HexForm d hex)
    (h : Builds lib readfile (oid.text ++ critText crit ++ '~' :: hex) object critical d) :
    d.length ≤ 2 ^ 30 := by
  have hlt := h.length_lt
  obtain ⟨e, he, -⟩ := h
  rw [createExtension_gate, hextostring_form hform hlt] at he
  by_contra hle
  rw [if_neg hle] at he
  cases he

/-- **Behind a colon the bytes come through up to the largest `int`, in
hexadecimal up to 2^30 of them, whatever they are.** -/
theorem createExtension_exact (hlib : lib.Creates) (oid : Identifier lib obj) (crit : Option Bool)
    (readfile : Str → Str) (d : Str) :
    (Builds lib readfile (oid.text ++ critText crit ++ ':' :: d) obj (crit.getD false) d ↔
      d.length < 2 ^ 31) ∧
    ∀ hex, HexForm d hex →
      (Builds lib readfile (oid.text ++ critText crit ++ '~' :: hex) obj (crit.getD false) d ↔
        d.length ≤ 2 ^ 30) := by
  refine ⟨⟨Builds.length_lt, fun hlt => ?_⟩, fun hex hform =>
    ⟨Builds.gate_length oid crit hform, fun hle => ?_⟩⟩
  · obtain ⟨e, he, hparts⟩ := createProxyExtension_makes hlib oid (crit.getD false) hlt
    exact ⟨e, by rw [createExtension_colon, he], hparts⟩
  · have hlt : d.length < 2 ^ 31 := by omega
    obtain ⟨e, he, hparts⟩ := createProxyExtension_makes hlib oid (crit.getD false) hlt
    exact ⟨e, by rw [createExtension_gate, hextostring_form hform hlt, if_pos hle, Res.ok_bind, he,
      Res.pure_eq], hparts⟩

end

namespace Sample

/-- A library that knows every text as itself. -/
def openssl : Openssl Str where
  txt2nid := fun _ => 0
  nid2obj := fun _ => none
  txt2obj := some
  octetStringNew := true
  createByObj := fun object critical data len =>
    if h : 0 ≤ len ∧ len < 2 ^ 31 then
      some ⟨object, critical, data.take len.toNat, by
        have := List.length_take_le len.toNat data
        omega⟩
    else none

theorem openssl_creates : openssl.Creates where
  octetStringNew := rfl
  createByObj obj crit data len hnonneg _ hlt := by
    refine ⟨⟨obj, crit, data.take len.toNat, ?_⟩, dif_pos ⟨hnonneg, hlt⟩, rfl, rfl, rfl⟩
    have := List.length_take_le len.toNat data
    omega

def oid : Identifier openssl "1.2.3".toList where
  text := "1.2.3".toList
  plain := forall_mem_of_all (by decide)
  known := rfl

end Sample

/-- `1.2.3/true:a:b` and `1.2.3~613a62`. -/
theorem createExtension_exact_sample :
    Builds Sample.openssl id "1.2.3/true:a:b".toList "1.2.3".toList true "a:b".toList ∧
    Builds Sample.openssl id "1.2.3~613A62".toList "1.2.3".toList false "a:b".toList := by
  have hform : HexForm "a:b".toList "613A62".toList :=
    .cons (.inl rfl) (.inl rfl) (.cons (.inl rfl) (.inr rfl) (.cons (.inl rfl) (.inl rfl) .nil))
  exact ⟨(createExtension_exact Sample.openssl_creates Sample.oid (some true) id "a:b".toList).1.mpr
      (by decide),
    ((createExtension_exact Sample.openssl_creates Sample.oid none id "a:b".toList).2 _ hform).mpr
      (by decide)⟩

theorem hexForm_replicate (n : Nat) :
    HexForm (List.replicate n 'a') (List.replicate n "61".toList).flatten := by
  induction n with
  | zero => exact .nil
  | succ n ih => exact .cons (.inl rfl) (.inl rfl) ih

/-- One byte more than the length of an extension can be, and one more than
`hextostring` can count. -/
theorem createExtension_inexact :
    ¬ Builds Sample.openssl id ("1.2.3".toList ++ ':' :: List.replicate (2 ^ 31) 'a')
      "1.2.3".toList false (List.replicate (2 ^ 31) 'a') ∧
    ¬ Builds Sample.openssl id
      ("1.2.3".toList ++ '~' :: (List.replicate (2 ^ 30 + 1) "61".toList).flatten)
      "1.2.3".toList false (List.replicate (2 ^ 30 + 1) 'a') := by
  constructor
  · intro h
    have hlt := h.length_lt
    rw [List.length_replicate] at hlt
    omega
  · intro h
    have hle := Builds.gate_length Sample.oid none (hexForm_replicate _) h
    rw [List.length_replicate] at hle
    omega

end Voms.L6
