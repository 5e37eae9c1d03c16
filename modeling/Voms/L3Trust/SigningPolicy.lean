import Voms.L3Trust.Namespaces

/-!
# The parser of signing policies

`src/sslutils/signing_policy.y`: the grammar with its actions,
`parse_subjects`, `listadd`, and what `find_policy` and
`restriction_evaluate_policy` make of the policies that are returned. A name
is a pointer here: `access_id_ANYBODY` leaves it NULL, and `access_id_CA`
takes the first of the subjects it has not asked for.

`signingparse_exact`: the subjects of every text are found and the policies
can be examined exactly if no text begins with a blank before its quoted
subjects, every CA is named by a text that has a subject, and nobody but a CA
has rights.

With names that are there, `find_policy` is the one of
`Voms.L3.findPolicy` (`findPolicyPtr_eq`).
-/
namespace Voms.L3

open Voms.Core Voms.L1

/-! ## Tokens and texts -/

/-- The text of `SUBJECTS` is a C string without its quotes. -/
inductive Token where
  | SUBJECTS (string : Str)
  | COND_SUBJECTS
  | COND_BANNED
  | GLOBUS
  | POS_RIGHTS
  | NEG_RIGHTS
  | CA_SIGN
  | ACCESS_ID_CA
  | ACCESS_ID_ANYBODY
  | X509
  deriving DecidableEq, Repr

/-- NULL and an array with nothing in it are the same list to a reader, but
not to `subjects[0]`. mirrors src/common/list.c:30-57 -/
def listadd {α : Type} (vect : Option (List α)) (data : Option α) : Option (List α) :=
  match data with
  | none => vect
  | some data => some (vect.getD [] ++ [data])

def isQuote (c : Char) : Bool := c = '\'' || c = '"'

/-- The loop, with the `list` so far.
mirrors src/sslutils/signing_policy.y:157-177 -/
def parseSubjectsLoop (list : Option (List Str)) (string : Str) : Option (List Str) :=
  match string with
  | [] => list
  | divider :: rest =>
    if isQuote divider then
      match rest.idxOf? divider with
      | none => list
      | some stop =>
        parseSubjectsLoop (listadd list (some (rest.take stop)))
          ((rest.drop (stop + 1)).dropWhile isSpace)
    else listadd list (some (divider :: rest))
termination_by string.length
decreasing_by
  have hdropped := ((rest.drop (stop + 1)).dropWhile_suffix isSpace).length_le
  rw [List.length_drop] at hdropped
  rw [List.length_cons]
  omega

/-- mirrors src/sslutils/signing_policy.y:149-180 -/
def parseSubjects (string : Str) : Option (List Str) := parseSubjectsLoop none string

/-! ## The grammar -/

/-- `access_identity`. -/
inductive AccessIdentity where
  | ca (subjects : Str)
  | anybody
  deriving DecidableEq, Repr

/-- `realcondition`. -/
structure RealCondition where
  banned : Bool
  subjects : Str
  deriving DecidableEq, Repr

/-- `eacl_entry`. -/
structure EaclEntry where
  identity : AccessIdentity
  negative : Bool
  conds : List RealCondition
  deriving DecidableEq, Repr

def AccessIdentity.tokens : AccessIdentity → List Token
  | .ca subjects => [.ACCESS_ID_CA, .X509, .SUBJECTS subjects]
  | .anybody => [.ACCESS_ID_ANYBODY]

def RealCondition.tokens (c : RealCondition) : List Token :=
  [if c.banned then .COND_BANNED else .COND_SUBJECTS, .GLOBUS, .SUBJECTS c.subjects]

/-- `restrictions: realcondition | realcondition restrictions`.
mirrors src/sslutils/signing_policy.y:91-96 -/
inductive Restrictions : List Token → List RealCondition → Prop where
  | one (c : RealCondition) : Restrictions c.tokens [c]
  | more {ts : List Token} {l : List RealCondition} (c : RealCondition) (h : Restrictions ts l) :
      Restrictions (c.tokens ++ ts) (c :: l)

/-- The two alternatives of `eacl_entry`.
mirrors src/sslutils/signing_policy.y:75-85 -/
inductive EaclEntry.Derives : List Token → EaclEntry → Prop where
  | mk {ts : List Token} {e : EaclEntry} (h : Restrictions ts e.conds) :
      EaclEntry.Derives (e.identity.tokens ++ (if e.negative then .NEG_RIGHTS else .POS_RIGHTS) ::
        .GLOBUS :: .CA_SIGN :: ts) e

/-- `eacl: eacl_entry | eacl eacl_entry`.
mirrors src/sslutils/signing_policy.y:72-73 -/
inductive Eacl : List Token → List EaclEntry → Prop where
  | one {ts : List Token} {e : EaclEntry} (h : e.Derives ts) : Eacl ts [e]
  | more {ts ts' : List Token} {es : List EaclEntry} {e : EaclEntry} (h : Eacl ts es)
      (h' : e.Derives ts') : Eacl (ts ++ ts') (es ++ [e])

/-! ## The actions -/

/-- A policy as the parser leaves it; the name may be NULL. -/
structure ParsedPolicy where
  caname : Option Str
  self : Bool
  type : PolicyType
  conds : Option (List Condition)
  deriving DecidableEq, Repr

/-- What `calloc` leaves. `TYPE_SIGNING` is 0. -/
def ParsedPolicy.zero : ParsedPolicy := ⟨none, false, .signing, none⟩

/-- mirrors src/sslutils/signing_policy.y:99-116 -/
def AccessIdentity.policy : AccessIdentity → Eval ParsedPolicy
  | .ca string => do
    let subjects ← Res.deref (parseSubjects string)
    let name ← Res.deref subjects.head?
    pure { ParsedPolicy.zero with caname := some name, type := .signing }
  | .anybody => pure .zero

/-- NULL where there are no subjects.
mirrors src/sslutils/signing_policy.y:118-144 -/
def RealCondition.condition (c : RealCondition) : Option Condition :=
  (parseSubjects c.subjects).map fun subjects => ⟨some subjects, !c.banned⟩

/-- mirrors src/sslutils/signing_policy.y:91-96 -/
def restrictions : List RealCondition → Option (List Condition)
  | [] => none
  | c :: rest => listadd (restrictions rest) c.condition

/-- The policy of an entry with negative rights is freed.
mirrors src/sslutils/signing_policy.y:75-85 -/
def EaclEntry.policy (e : EaclEntry) : Eval (Option ParsedPolicy) := do
  let policy ← e.identity.policy
  pure (if e.negative then none else some { policy with conds := restrictions e.conds })

/-- `*policies` after one more entry.
mirrors src/sslutils/signing_policy.y:72-73 -/
def eacl (policies : Option (List ParsedPolicy)) (e : EaclEntry) :
    Eval (Option (List ParsedPolicy)) := do
  let policy ← e.policy
  pure (listadd policies policy)

/-- What `*policies` is in the end; it is NULL before the first entry. -/
def signingparse (es : List EaclEntry) : Eval (Option (List ParsedPolicy)) := es.foldlM eacl none

/-! ## The evaluator -/

def ParsedPolicy.named (policy : ParsedPolicy) : Policy :=
  ⟨policy.caname.getD [], policy.self, policy.type, policy.conds⟩

/-- The loop of `find_policy` over the policies from `i` on. -/
def findPolicyLoop (M : Matcher) (cert : X509) : Nat → List ParsedPolicy → Eval (Option Nat)
  | _, [] => pure none
  | i, policy :: rest => do
    let caname ← Res.deref policy.caname
    if policyApplies M cert { policy.named with caname := caname } then pure (some i)
    else findPolicyLoop M cert (i + 1) rest

/-- mirrors src/sslutils/evaluate.c:56-83 -/
def findPolicyPtr (M : Matcher) (policies : Option (List ParsedPolicy)) (cert : X509)
    (current : Option Nat) : Eval (Option Nat) :=
  let i := match current with
    | none => 0
    | some current => current + 1
  findPolicyLoop M cert i ((policies.getD []).drop i)

/-- `restriction_evaluate_policy` does not read the name.
mirrors src/sslutils/evaluate.c:148-195 -/
def ParsedPolicy.evaluate (M : Matcher) (cert : X509) (policy : ParsedPolicy) : Eval Success :=
  restrictionEvaluatePolicy M cert policy.named

/-! ## What a text should give -/

/-- Quoted subjects, each with the blanks behind it. -/
inductive Quoted : Str → List Str → Prop where
  | nil : Quoted [] []
  | cons {rest : Str} {l : List Str} (q : Char) (s b : Str) (hq : isQuote q = true)
      (hs : q ∉ s) (hb : ∀ c ∈ b, isSpace c = true) (h : Quoted rest l) :
      Quoted (q :: (s ++ q :: (b ++ rest))) (s :: l)

/-- The subjects of a text: quoted ones with blanks around them, if any, or
the text itself. -/
inductive Denotes : Str → List Str → Prop where
  | quoted {rest : Str} {l : List Str} (b : Str) (hb : ∀ c ∈ b, isSpace c = true)
      (h : Quoted rest l) : Denotes (b ++ rest) l
  | unquoted (c : Char) (s : Str) (hquote : isQuote c = false) (hblank : isSpace c = false) :
      Denotes (c :: s) [c :: s]

/-- A blank stands before what are quoted subjects, if any. -/
def LeadingBlank (text : Str) : Prop :=
  ∃ c b rest l, isSpace c = true ∧ (∀ c ∈ b, isSpace c = true) ∧ Quoted rest l ∧
    text = c :: (b ++ rest)

/-- There is a character, and a quote that opens the text is closed. -/
def HasSubject : Str → Prop
  | [] => False
  | c :: rest => isQuote c = true → c ∈ rest

theorem isQuote_of_isSpace {c : Char} (h : isSpace c = true) : isQuote c = false := by
  cases hq : isQuote c with
  | false => rfl
  | true =>
    simp only [isQuote, Bool.or_eq_true, decide_eq_true_eq] at hq
    rcases hq with rfl | rfl <;> exact absurd h (by decide)

/-- Behind the blanks there is a quote, or nothing. -/
theorem Quoted.dropWhile {b rest : Str} {l : List Str} (h : Quoted rest l)
    (hb : ∀ c ∈ b, isSpace c = true) : (b ++ rest).dropWhile isSpace = rest := by
  rw [List.dropWhile_append_of_pos hb]
  cases h with
  | nil => rfl
  | cons q s b' hq hs hb' h =>
    refine List.dropWhile_cons_of_neg fun hspace => ?_
    rw [isQuote_of_isSpace hspace] at hq
    cases hq

/-- **One subject after the other is added.** -/
theorem parseSubjectsLoop_quoted {text : Str} {l : List Str} (h : Quoted text l) :
    ∀ list, parseSubjectsLoop list text = l.foldl (fun list s => listadd list (some s)) list := by
  induction h with
  | nil => intro list; rw [parseSubjectsLoop]; rfl
  | @cons rest l q s b hq hs hb h ih =>
    intro list
    have htake : (s ++ q :: (b ++ rest)).take s.length = s := List.take_left
    have hdrop : (s ++ q :: (b ++ rest)).drop (s.length + 1) = b ++ rest := by
      rw [← List.drop_drop, List.drop_left]
      rfl
    rw [parseSubjectsLoop, if_pos hq, idxOf_fresh _ hs]
    simp only [htake, hdrop, h.dropWhile hb]
    exact ih _

theorem parseSubjectsLoop_unquoted {c : Char} (s : Str) (hquote : isQuote c = false)
    (list : Option (List Str)) :
    parseSubjectsLoop list (c :: s) = listadd list (some (c :: s)) := by
  rw [parseSubjectsLoop, if_neg (by rw [hquote]; decide)]

theorem foldl_listadd {α : Type} : ∀ (l : List α) (list : Option (List α)),
    (l.foldl (fun list s => listadd list (some s)) list).getD [] = list.getD [] ++ l
  | [], list => (List.append_nil _).symm
  | s :: l, list => by
    rw [List.foldl_cons, foldl_listadd l, listadd, Option.getD_some, List.append_assoc]
    rfl

theorem Quoted.length_lt {text : Str} {l : List Str} (h : Quoted text l) :
    ∀ s ∈ l, s.length < text.length := by
  induction h with
  | nil => intro s hs; cases hs
  | cons q s b hq hs hb h ih =>
    intro s' hs'
    simp only [List.length_cons, List.length_append]
    rcases List.mem_cons.mp hs' with rfl | hs'
    · omega
    · have hlt := ih s' hs'
      omega

/-- **When the subjects of a text are found.** A blank before the quotes
makes the whole text one subject. -/
theorem parseSubjects_exact (text : Str) :
    (∀ l, Denotes text l → (parseSubjects text).getD [] = l) ↔ ¬ LeadingBlank text := by
  constructor
  · rintro h ⟨c, b, rest, l, hc, hb, hquoted, rfl⟩
    have hwhole : parseSubjects (c :: (b ++ rest)) = some [c :: (b ++ rest)] :=
      parseSubjectsLoop_unquoted _ (isQuote_of_isSpace hc) none
    have hdenotes : Denotes (c :: (b ++ rest)) l :=
      .quoted (c :: b) (List.forall_mem_cons.mpr ⟨hc, hb⟩) hquoted
    have hl := h l hdenotes
    rw [hwhole, Option.getD_some] at hl
    have hlt := hquoted.length_lt (c :: (b ++ rest)) (hl ▸ List.mem_singleton.mpr rfl)
    rw [List.length_cons, List.length_append] at hlt
    omega
  · intro h l hdenotes
    cases hdenotes with
    | unquoted c s hquote hblank =>
      rw [parseSubjects, parseSubjectsLoop_unquoted s hquote]
      rfl
    | quoted b hb hquoted =>
      cases b with
      | nil =>
        rw [List.nil_append, parseSubjects, parseSubjectsLoop_quoted hquoted, foldl_listadd]
        rfl
      | cons c b =>
        obtain ⟨hc, hb⟩ := List.forall_mem_cons.mp hb
        exact absurd ⟨c, b, _, l, hc, hb, hquoted, rfl⟩ h

/-- What is found stays at the front. -/
theorem parseSubjectsLoop_some (list : Option (List Str)) (text : Str) : ∀ l, list = some l →
    ∃ more, parseSubjectsLoop list text = some (l ++ more) := by
  fun_induction parseSubjectsLoop list text with
  | case1 list => exact fun l hl => ⟨[], by rw [hl, List.append_nil]⟩
  | case2 list divider rest hquote hstop => exact fun l hl => ⟨[], by rw [hl, List.append_nil]⟩
  | case3 list divider rest hquote stop hstop ih =>
    intro l hl
    obtain ⟨more, hmore⟩ := ih (l ++ [rest.take stop]) (by rw [hl]; rfl)
    exact ⟨rest.take stop :: more, by rw [hmore, List.append_assoc]; rfl⟩
  | case4 list divider rest hquote => exact fun l hl => ⟨[divider :: rest], by rw [hl]; rfl⟩

/-- `subjects[0]` can be read. -/
theorem parseSubjects_hasSubject {text : Str} :
    (∃ name more, parseSubjects text = some (name :: more)) ↔ HasSubject text := by
  cases text with
  | nil => simp [parseSubjects, parseSubjectsLoop, HasSubject]
  | cons c rest =>
    cases hquote : isQuote c with
    | false =>
      rw [parseSubjects, parseSubjectsLoop_unquoted rest hquote]
      refine ⟨fun _ hq => ?_, fun _ => ⟨c :: rest, [], rfl⟩⟩
      rw [hquote] at hq
      cases hq
    | true =>
      rw [parseSubjects, parseSubjectsLoop, if_pos hquote]
      cases hstop : rest.idxOf? c with
      | none =>
        have hopen : c ∉ rest := List.idxOf?_eq_none_iff.mp hstop
        simp [HasSubject, hquote, hopen]
      | some stop =>
        have hclosed : c ∈ rest := List.isSome_idxOf?.mp (by rw [hstop]; rfl)
        obtain ⟨more, hmore⟩ := parseSubjectsLoop_some _
          ((rest.drop (stop + 1)).dropWhile isSpace) [rest.take stop] rfl
        exact ⟨fun _ _ => hclosed, fun _ => ⟨_, more, hmore⟩⟩

/-! ## What is derived -/

def EaclEntry.tokens (e : EaclEntry) : List Token :=
  e.identity.tokens ++ (if e.negative then .NEG_RIGHTS else .POS_RIGHTS) :: .GLOBUS :: .CA_SIGN ::
    e.conds.flatMap RealCondition.tokens

/-- The texts of an entry. -/
def EaclEntry.texts (e : EaclEntry) : List Str :=
  (match e.identity with
    | .ca subjects => [subjects]
    | .anybody => []) ++ e.conds.map (·.subjects)

theorem Restrictions.tokens {ts : List Token} {l : List RealCondition} (h : Restrictions ts l) :
    ts = l.flatMap RealCondition.tokens := by
  induction h with
  | one c => simp
  | more c h ih => rw [List.flatMap_cons, ← ih]

theorem Eacl.tokens {ts : List Token} {es : List EaclEntry} (h : Eacl ts es) :
    ts = es.flatMap EaclEntry.tokens := by
  have hentry {ts : List Token} {e : EaclEntry} : e.Derives ts → ts = e.tokens := by
    rintro ⟨h⟩
    rw [EaclEntry.tokens, ← h.tokens]
  induction h with
  | one h => rw [List.flatMap_singleton, ← hentry h]
  | more h h' ih => rw [List.flatMap_append, List.flatMap_singleton, ← ih, ← hentry h']

/-- A file with one entry. -/
theorem Restrictions.eacl {ts : List Token} {e : EaclEntry} (h : Restrictions ts e.conds) :
    Eacl e.tokens [e] := by
  rw [EaclEntry.tokens, ← h.tokens]
  exact .one (.mk h)

theorem EaclEntry.mem_tokens {e : EaclEntry} {text : Str} :
    .SUBJECTS text ∈ e.tokens ↔ text ∈ e.texts := by
  have hcond (c : RealCondition) : .SUBJECTS text ∈ c.tokens ↔ c.subjects = text := by
    cases hbanned : c.banned <;> simp [RealCondition.tokens, hbanned, eq_comm]
  have hidentity : .SUBJECTS text ∈ e.identity.tokens ↔
      text ∈ (match e.identity with
        | .ca subjects => [subjects]
        | .anybody => []) := by
    cases e.identity <;> simp [AccessIdentity.tokens]
  have hrights : Token.SUBJECTS text ≠ if e.negative then .NEG_RIGHTS else .POS_RIGHTS := by
    cases e.negative <;> simp
  simp [EaclEntry.tokens, EaclEntry.texts, hcond, hidentity, hrights]

theorem Eacl.mem_tokens {ts : List Token} {es : List EaclEntry} (h : Eacl ts es) {text : Str} :
    .SUBJECTS text ∈ ts ↔ ∃ e ∈ es, text ∈ e.texts := by
  simp only [h.tokens, List.mem_flatMap, EaclEntry.mem_tokens]

/-- No condition goes on here. -/
def NoCond (ts : List Token) : Prop := ∀ c ∈ ts.head?, c ≠ .COND_SUBJECTS ∧ c ≠ .COND_BANNED

theorem noCond_tokens : ∀ es : List EaclEntry, NoCond (es.flatMap EaclEntry.tokens)
  | [] => fun _ hc => by cases hc
  | e :: es => by
    intro c hc
    cases hidentity : e.identity <;>
      simp [EaclEntry.tokens, AccessIdentity.tokens, hidentity] at hc <;> simp [← hc]

theorem not_noCond (c : RealCondition) (ts : List Token) : ¬ NoCond (c.tokens ++ ts) := by
  intro h
  have hhead := h (if c.banned then .COND_BANNED else .COND_SUBJECTS) rfl
  cases hbanned : c.banned <;> simp [hbanned] at hhead

theorem RealCondition.tokens_unique {c c' : RealCondition} {ts ts' : List Token}
    (h : c.tokens ++ ts = c'.tokens ++ ts') : c = c' ∧ ts = ts' := by
  obtain ⟨banned, subjects⟩ := c
  obtain ⟨banned', subjects'⟩ := c'
  cases banned <;> cases banned' <;> simp_all [RealCondition.tokens]

theorem AccessIdentity.tokens_unique {a a' : AccessIdentity} {ts ts' : List Token}
    (h : a.tokens ++ ts = a'.tokens ++ ts') : a = a' ∧ ts = ts' := by
  cases a <;> cases a' <;> simp_all [AccessIdentity.tokens]

theorem conds_unique {ts ts' : List Token} (hts : NoCond ts) (hts' : NoCond ts') :
    ∀ {l l' : List RealCondition}, l.flatMap RealCondition.tokens ++ ts =
      l'.flatMap RealCondition.tokens ++ ts' → l = l' ∧ ts = ts'
  | [], [], h => ⟨rfl, h⟩
  | c :: l, [], h => by
    rw [List.flatMap_cons, List.append_assoc, List.flatMap_nil, List.nil_append] at h
    exact absurd (h ▸ hts') (not_noCond c _)
  | [], c :: l, h => by
    rw [List.flatMap_cons, List.append_assoc, List.flatMap_nil, List.nil_append] at h
    exact absurd (h ▸ hts) (not_noCond c _)
  | c :: l, c' :: l', h => by
    rw [List.flatMap_cons, List.flatMap_cons, List.append_assoc, List.append_assoc] at h
    obtain ⟨rfl, hrest⟩ := RealCondition.tokens_unique h
    obtain ⟨rfl, heq⟩ := conds_unique hts hts' hrest
    exact ⟨rfl, heq⟩

theorem entries_unique : ∀ {es es' : List EaclEntry},
    es.flatMap EaclEntry.tokens = es'.flatMap EaclEntry.tokens → es = es'
  | [], [], _ => rfl
  | e :: es, [], h => by simp [EaclEntry.tokens] at h
  | [], e :: es, h => by simp [EaclEntry.tokens] at h
  | ⟨a, negative, conds⟩ :: es, ⟨a', negative', conds'⟩ :: es', h => by
    simp only [List.flatMap_cons, EaclEntry.tokens, List.append_assoc, List.cons_append] at h
    obtain ⟨rfl, h⟩ := AccessIdentity.tokens_unique h
    simp only [List.cons.injEq, true_and] at h
    obtain ⟨rfl, hrest⟩ := conds_unique (noCond_tokens es) (noCond_tokens es') h.2
    rw [entries_unique hrest]
    cases negative <;> cases negative' <;> simp_all

/-- The grammar is not ambiguous: what the actions make of the tokens is one thing. -/
theorem Eacl.unique {ts : List Token} {es es' : List EaclEntry} (h : Eacl ts es)
    (h' : Eacl ts es') : es = es' := entries_unique (h.tokens.symm.trans h'.tokens)

/-! ## What is examined -/

/-- No policy is without a name. -/
def AllNamed (policies : Option (List ParsedPolicy)) : Prop :=
  ∀ policy ∈ policies.getD [], policy.caname ≠ none

/-- The policies can be looked through from each of them on, and each can be
evaluated, for every certificate. -/
def Examinable (policies : Option (List ParsedPolicy)) : Prop :=
  ∀ (M : Matcher) (cert : X509),
    (∀ current, (∀ i ∈ current, i < (policies.getD []).length) →
      (findPolicyPtr M policies cert current).Never (· = .nullDeref)) ∧
    ∀ policy ∈ policies.getD [], (policy.evaluate M cert).Never (· = .nullDeref)

section

variable {M : Matcher} {cert : X509}

theorem never_evaluateMatchSigning (pattern subject : Str) (positive : Bool) :
    (evaluateMatchSigning pattern subject positive).Never (· = .nullDeref) := by
  unfold evaluateMatchSigning
  cases pattern.getLast? <;> simp

theorem never_evaluateSubjects {type : PolicyType} {positive : Bool} {subject : Str} :
    ∀ (subjects : List Str) (success : Success) (subjindex : Nat),
      (evaluateSubjects M type positive subject subjects success subjindex).Never
        (· = .nullDeref)
  | [], _, _ => Res.never_ok _
  | pattern :: rest, success, subjindex => by
    unfold evaluateSubjects
    refine Res.never_bind.mpr ⟨?_, ?_⟩
    · cases type with
      | signing => exact never_evaluateMatchSigning pattern subject positive
      | namespaces => exact Res.never_ok _
    · intro tempsuccess _
      dsimp only
      generalize (if tempsuccess ≠ .undecided then tempsuccess else success) = success
      split
      · exact Res.never_ok _
      · exact never_evaluateSubjects rest success (subjindex + 1)

theorem never_evaluateConditions {type : PolicyType} {subject : Str} :
    ∀ (conds : List Condition) (success : Success) (subjindex : Nat),
      (evaluateConditions M type subject conds success subjindex).Never (· = .nullDeref)
  | [], _, _ => Res.never_ok _
  | cond :: rest, success, subjindex => by
    rw [evaluateConditions]
    cases cond.subjects with
    | none => exact never_evaluateConditions rest success subjindex
    | some subjects =>
      dsimp only
      split
      · simp
      · refine Res.never_bind.mpr ⟨never_evaluateSubjects _ _ _, ?_⟩
        rintro ⟨success, subjindex⟩ _
        dsimp only
        split
        · exact Res.never_ok _
        · exact never_evaluateConditions rest success subjindex

/-- The evaluation of a policy finds whatever it reads. -/
theorem never_evaluate (policy : ParsedPolicy) :
    (policy.evaluate M cert).Never (· = .nullDeref) := by
  unfold ParsedPolicy.evaluate restrictionEvaluatePolicy
  cases policy.named.conds with
  | none => exact Res.never_ok _
  | some conds => exact never_evaluateConditions conds _ _

/-- With all names there the loop looks for the first policy that applies. -/
theorem findPolicyLoop_eq : ∀ {l : List ParsedPolicy} (i : Nat),
    (∀ policy ∈ l, policy.caname ≠ none) → findPolicyLoop M cert i l =
      .ok (((l.map ParsedPolicy.named).findIdx? (policyApplies M cert)).map (i + ·))
  | [], i, _ => rfl
  | policy :: rest, i, h => by
    obtain ⟨hpolicy, hrest⟩ := List.forall_mem_cons.mp h
    obtain ⟨caname, hcaname⟩ := Option.ne_none_iff_exists'.mp hpolicy
    have hnamed : { policy.named with caname := caname } = policy.named := by
      rw [ParsedPolicy.named, hcaname]
      rfl
    rw [findPolicyLoop, hcaname, Res.deref_some, Res.ok_bind, hnamed, List.map_cons,
      List.findIdx?_cons]
    split
    · rfl
    · rw [findPolicyLoop_eq (i + 1) hrest, Option.map_map]
      congr 2
      funext k
      exact Nat.add_right_comm i 1 k ▸ rfl

/-- `find_policy` of named policies. -/
theorem findPolicyPtr_eq {policies : Option (List ParsedPolicy)} (h : AllNamed policies)
    (current : Option Nat) : findPolicyPtr M policies cert current =
      .ok (findPolicy M ((policies.getD []).map ParsedPolicy.named) cert current) := by
  have hloop (i : Nat) : findPolicyLoop M cert i ((policies.getD []).drop i) =
      .ok (((((policies.getD []).map ParsedPolicy.named).drop i).findIdx?
        (policyApplies M cert)).map (i + ·)) := by
    rw [findPolicyLoop_eq _ fun policy hpolicy => h policy (List.mem_of_mem_drop hpolicy),
      List.map_drop]
  cases current with
  | none => exact hloop 0
  | some current => exact hloop (current + 1)

end

/-- **What can be examined.** A policy without a name is reached from the one
before it. -/
theorem examinable_iff {policies : Option (List ParsedPolicy)} :
    Examinable policies ↔ AllNamed policies := by
  constructor
  · intro h policy hpolicy hcaname
    obtain ⟨k, hk, hget⟩ := List.mem_iff_getElem.mp hpolicy
    have hloop : ∀ i, findPolicyLoop Sample.matcher Voms.L1.Sample.user i
        ((policies.getD []).drop k) = .fault .nullDeref := by
      intro i
      rw [List.drop_eq_getElem_cons hk, hget, findPolicyLoop, hcaname]
      rfl
    have hfind := (h Sample.matcher Voms.L1.Sample.user).1
    cases k with
    | zero => exact hfind none (fun i hi => by cases hi) _ (hloop 0) rfl
    | succ k =>
      refine hfind (some k) (fun i hi => ?_) _ (hloop (k + 1)) rfl
      cases hi
      omega
  · refine fun h M cert => ⟨fun current _ => ?_, fun policy _ => never_evaluate policy⟩
    rw [findPolicyPtr_eq h]
    exact Res.never_ok _

/-! ## What the parser returns -/

/-- The entry has a CA with a name, or no rights. -/
def EaclEntry.Named (e : EaclEntry) : Prop :=
  match e.identity with
  | .ca subjects => HasSubject subjects
  | .anybody => e.negative = true

theorem AccessIdentity.policy_ca_eq_ok {string : Str} {policy : ParsedPolicy} :
    (AccessIdentity.ca string).policy = .ok policy ↔ ∃ name more,
      parseSubjects string = some (name :: more) ∧
        policy = { ParsedPolicy.zero with caname := some name, type := .signing } := by
  simp only [AccessIdentity.policy, Res.bind_eq_ok, Res.deref_eq_ok, Res.pure_eq, Res.ok.injEq]
  constructor
  · rintro ⟨subjects, hsubjects, name, hname, rfl⟩
    obtain ⟨more, rfl⟩ := List.head?_eq_some_iff.mp hname
    exact ⟨name, more, hsubjects, rfl⟩
  · rintro ⟨name, more, hsubjects, rfl⟩
    exact ⟨name :: more, hsubjects, name, rfl, rfl⟩

theorem allNamed_listadd {policies : Option (List ParsedPolicy)} {policy : Option ParsedPolicy} :
    AllNamed (listadd policies policy) ↔
      AllNamed policies ∧ ∀ p ∈ policy, p.caname ≠ none := by
  cases policy <;> simp [AllNamed, listadd, or_imp, forall_and]

/-- One entry. -/
theorem eacl_named {policies : Option (List ParsedPolicy)} {e : EaclEntry} :
    (∃ ps, eacl policies e = .ok ps ∧ AllNamed ps) ↔ AllNamed policies ∧ e.Named := by
  obtain ⟨identity, negative, conds⟩ := e
  simp only [eacl, EaclEntry.policy, Res.bind_eq_ok, Res.pure_eq, Res.ok.injEq]
  constructor
  · rintro ⟨_, ⟨_, ⟨policy, hpolicy, rfl⟩, rfl⟩, hnamed⟩
    obtain ⟨hpolicies, hnamed⟩ := allNamed_listadd.mp hnamed
    refine ⟨hpolicies, ?_⟩
    cases identity with
    | ca subjects =>
      obtain ⟨name, more, hsubjects, -⟩ := AccessIdentity.policy_ca_eq_ok.mp hpolicy
      exact parseSubjects_hasSubject.mp ⟨name, more, hsubjects⟩
    | anybody =>
      cases negative with
      | true => rfl
      | false =>
        cases hpolicy
        exact absurd rfl (hnamed _ rfl)
  · rintro ⟨hpolicies, he⟩
    cases identity with
    | ca subjects =>
      obtain ⟨name, more, hsubjects⟩ := parseSubjects_hasSubject.mpr he
      refine ⟨_, ⟨_, ⟨_, AccessIdentity.policy_ca_eq_ok.mpr ⟨name, more, hsubjects, rfl⟩, rfl⟩,
        rfl⟩, allNamed_listadd.mpr ⟨hpolicies, fun p hp => ?_⟩⟩
      cases negative with
      | true => cases hp
      | false =>
        cases hp
        exact Option.some_ne_none _
    | anybody =>
      obtain rfl : negative = true := he
      exact ⟨_, ⟨_, ⟨_, rfl, rfl⟩, rfl⟩, allNamed_listadd.mpr ⟨hpolicies, fun p hp => by cases hp⟩⟩

/-- All of them. -/
theorem foldlM_eacl_named : ∀ {es : List EaclEntry} {policies : Option (List ParsedPolicy)},
    (∃ ps, es.foldlM eacl policies = .ok ps ∧ AllNamed ps) ↔
      AllNamed policies ∧ ∀ e ∈ es, e.Named
  | [], policies => by simp
  | e :: es, policies => by
    rw [List.foldlM_cons, List.forall_mem_cons]
    constructor
    · rintro ⟨ps, hps, hnamed⟩
      obtain ⟨ps', he, hes⟩ := Res.bind_eq_ok.mp hps
      obtain ⟨hnamed', hes⟩ := foldlM_eacl_named.mp ⟨ps, hes, hnamed⟩
      obtain ⟨hpolicies, he⟩ := eacl_named.mp ⟨ps', he, hnamed'⟩
      exact ⟨hpolicies, he, hes⟩
    · rintro ⟨hpolicies, he, hes⟩
      obtain ⟨ps', he, hnamed'⟩ := eacl_named.mpr ⟨hpolicies, he⟩
      obtain ⟨ps, hes, hnamed⟩ := foldlM_eacl_named.mpr ⟨hnamed', hes⟩
      exact ⟨ps, Res.bind_eq_ok.mpr ⟨ps', he, hes⟩, hnamed⟩

/-- **Who is named.** The parser reads no subject that is not there, and what
it returns can be examined. -/
theorem signingparse_examinable {es : List EaclEntry} :
    (∃ ps, signingparse es = .ok ps ∧ Examinable ps) ↔ ∀ e ∈ es, e.Named := by
  simp only [examinable_iff]
  refine foldlM_eacl_named.trans (and_iff_right fun policy hpolicy => ?_)
  exact absurd hpolicy List.not_mem_nil

/-- The subjects of all texts are found, and what the parser returns can be
examined. -/
def Parsed (ts : List Token) (es : List EaclEntry) : Prop :=
  (∀ text, .SUBJECTS text ∈ ts → ∀ l, Denotes text l → (parseSubjects text).getD [] = l) ∧
    ∃ ps, signingparse es = .ok ps ∧ Examinable ps

/-- The entry is named, and its texts do not begin with a blank before the
quotes. -/
def EaclEntry.Fit (e : EaclEntry) : Prop := e.Named ∧ ∀ text ∈ e.texts, ¬ LeadingBlank text

/-- **When a file is read as it should be.** -/
theorem signingparse_exact {ts : List Token} {es : List EaclEntry} (h : Eacl ts es) :
    Parsed ts es ↔ ∀ e ∈ es, e.Fit := by
  unfold Parsed EaclEntry.Fit
  rw [signingparse_examinable]
  simp only [parseSubjects_exact, h.mem_tokens]
  constructor
  · intro h e he
    exact ⟨h.2 e he, fun text htext => h.1 text ⟨e, he, htext⟩⟩
  · rintro h
    exact ⟨fun text ⟨e, he, htext⟩ => (h e he).2 text htext, fun e he => (h e he).1⟩

theorem not_leadingBlank {c : Char} {s : Str} (h : isSpace c = false) :
    ¬ LeadingBlank (c :: s) := by
  rintro ⟨c', b, rest, l, hc, -, -, heq⟩
  cases heq
  rw [h] at hc
  cases hc

namespace Sample

def cond : RealCondition := ⟨false, "\"/C=IT/*\" \"/C=CH/*\"".toList⟩

def entry : EaclEntry := ⟨.ca "/C=IT/CN=CA".toList, false, [cond]⟩

def tokens : List Token :=
  [.ACCESS_ID_CA, .X509, .SUBJECTS "/C=IT/CN=CA".toList, .POS_RIGHTS, .GLOBUS, .CA_SIGN,
    .COND_SUBJECTS, .GLOBUS, .SUBJECTS "\"/C=IT/*\" \"/C=CH/*\"".toList]

def anybody : EaclEntry := ⟨.anybody, false, [cond]⟩

end Sample

/-- `signingparse_exact` for a CA that may sign for two countries. -/
theorem signingparse_exact_named : Parsed Sample.tokens [Sample.entry] := by
  have hderived : Eacl Sample.tokens [Sample.entry] :=
    Restrictions.eacl (e := Sample.entry) (Restrictions.one Sample.cond)
  refine (signingparse_exact hderived).mpr fun e he => ?_
  obtain rfl := List.mem_singleton.mp he
  refine ⟨fun hq => absurd hq (by decide), fun text htext => ?_⟩
  rcases List.mem_cons.mp htext with rfl | htext
  · exact not_leadingBlank (by decide)
  · obtain rfl := List.mem_singleton.mp htext
    exact not_leadingBlank (by decide)

/-- Anybody may sign, and the name that is compared is NULL. -/
theorem signingparse_unnamed :
    ¬ ∀ (ts : List Token) (es : List EaclEntry), Eacl ts es → Parsed ts es := by
  intro h
  have hparsed := h _ [Sample.anybody] (Restrictions.eacl (.one _))
  have hnamed := signingparse_examinable.mp hparsed.2 _ (List.mem_singleton.mpr rfl)
  exact absurd hnamed Bool.false_ne_true

end Voms.L3
