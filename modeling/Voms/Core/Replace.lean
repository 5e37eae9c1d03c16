import Mathlib.Data.List.Pairwise
import Voms.Core.Str

/-!
# Replacing names in a text

`replaceAll rules s`: one pass from left to right. Where the name of a rule
begins, the word of the rule is written and the name is passed over; any
other character stays. The names and words of `Rules d` begin with `d`, have
no other `d`, and none of them begins like another one.

* `replaceAll_cons`: one rule after the other does the same as all at once.
* `not_infix_replaceAll`: no name is left, and none comes into being.
* `replaceAll_replaceAll`: a second pass changes nothing.
* `replaceAll_append`, `strstr_append`: what no name begins in (`Closed`) can
  be put aside.
-/
namespace Voms.Core

structure Rule where
  name : Str
  word : Str
  deriving DecidableEq, Repr

/-- The rule whose name the text begins with. -/
def ruleAt (rules : List Rule) (s : Str) : Option Rule :=
  rules.find? fun r => r.name.isPrefixOf s

/-- The first `skip` characters belong to a name that was replaced. -/
def replaceFrom (rules : List Rule) : Nat → Str → Str
  | _, [] => []
  | skip + 1, _ :: s => replaceFrom rules skip s
  | 0, c :: s =>
    match ruleAt rules (c :: s) with
    | some r => r.word ++ replaceFrom rules (r.name.length - 1) s
    | none => c :: replaceFrom rules 0 s

def replaceAll (rules : List Rule) (s : Str) : Str := replaceFrom rules 0 s

example : replaceAll [⟨"/E=".toList, "/Email=".toList⟩] "/E=a/E=b".toList =
    "/Email=a/Email=b".toList := by decide

/-- `d` stands at the front, and nowhere else. -/
structure Marker (d : Char) (p : Str) : Prop where
  head : p.head? = some d
  tail : d ∉ p.tail

/-- Neither begins with the other. -/
def Apart (p q : Str) : Prop := ¬ p <+: q ∧ ¬ q <+: p

structure Rules (d : Char) (rules : List Rule) : Prop where
  name : ∀ r ∈ rules, Marker d r.name
  word : ∀ r ∈ rules, Marker d r.word
  names : rules.Pairwise fun r r' => Apart r.name r'.name
  words : ∀ r ∈ rules, ∀ r' ∈ rules, Apart r.name r'.word

/-- Whatever follows, none of the names begins in the text. -/
def Closed (names : List Str) (a : Str) : Prop :=
  ∀ p ∈ names, ∀ i < a.length, ∀ b, ¬ p <+: a.drop i ++ b

section

variable {d : Char} {p q a b s t : Str} {names : List Str} {r : Rule} {rules : List Rule}

/-! ## Markers -/

theorem Marker.cons (h : Marker d p) : ∃ t, p = d :: t ∧ d ∉ t := by
  obtain ⟨c, t, rfl⟩ := List.exists_cons_of_ne_nil (show p ≠ [] by rintro rfl; cases h.head)
  obtain rfl : c = d := Option.some.inj h.head
  exact ⟨t, rfl, h.tail⟩

theorem Marker.length_pos (h : Marker d p) : 0 < p.length := by
  obtain ⟨t, rfl, -⟩ := h.cons
  exact Nat.succ_pos _

theorem not_prefix_append_of_apart (h : Apart p q) : ¬ p <+: q ++ b := by
  intro hp
  rcases List.prefix_or_prefix_of_prefix hp (List.prefix_append q b) with h' | h'
  · exact h.1 h'
  · exact h.2 h'

/-- No name begins in a marker that begins otherwise. -/
theorem closed_marker (hq : Marker d q) (hnames : ∀ p ∈ names, Marker d p ∧ Apart p q) :
    Closed names q := by
  intro p hp i hi b hprefix
  obtain ⟨hmarker, hapart⟩ := hnames p hp
  cases i with
  | zero => exact not_prefix_append_of_apart hapart hprefix
  | succ i =>
    obtain ⟨t, rfl, ht⟩ := hq.cons
    obtain ⟨u, rfl, -⟩ := hmarker.cons
    rw [List.length_cons, Nat.succ_lt_succ_iff] at hi
    rw [List.drop_succ_cons, List.drop_eq_getElem_cons hi, List.cons_append] at hprefix
    exact ht ((List.cons_prefix_cons.mp hprefix).1 ▸ List.getElem_mem hi)

theorem Closed.drop (h : Closed names a) (k : Nat) : Closed names (a.drop k) := by
  intro p hp i hi b
  rw [List.length_drop] at hi
  rw [List.drop_drop]
  exact h p hp (k + i) (by omega) b

theorem Closed.cons {c : Char} (h : Closed names (c :: a)) :
    (∀ p ∈ names, ∀ b, ¬ p <+: c :: (a ++ b)) ∧ Closed names a :=
  ⟨fun p hp b => h p hp 0 (Nat.succ_pos _) b, h.drop 1⟩

/-- The search goes on behind it. -/
theorem strstr_append (h : Closed [p] a) (s : Str) :
    strstr p (a ++ s) = (strstr p s).map (· + a.length) := by
  induction a with
  | nil => simp
  | cons c a ih =>
    obtain ⟨hc, ha⟩ := h.cons
    rw [List.cons_append, strstr_cons_of_not (hc p (List.mem_singleton_self p) s), ih ha,
      Option.map_map]
    rfl

theorem infix_append_of_closed (h : Closed names a) (hp : p ∈ names) (hin : p <:+: a ++ b) :
    p <:+: b := by
  induction a with
  | nil => exact hin
  | cons c a ih =>
    obtain ⟨hc, ha⟩ := h.cons
    rcases List.infix_cons_iff.mp hin with hprefix | hin
    · exact absurd hprefix (hc p hp b)
    · exact ih ha hin

/-- What stands in front of the first occurrence, with another marker in its
place. -/
theorem closed_of_strstr (hp : Marker d p) (hq : Marker d q) (hapart : Apart p q)
    (h : strstr p s = some a.length) (ha : a <+: s) : Closed [p] (a ++ q) := by
  intro p' hp' i hi b hprefix
  obtain rfl := List.mem_singleton.mp hp'
  obtain ⟨-, -, hfirst⟩ := strstr_eq_some.mp h
  rcases Nat.lt_or_ge i a.length with hlt | hge
  · obtain ⟨s', rfl⟩ := ha
    rw [List.drop_append_of_le_length hlt.le, List.append_assoc] at hprefix
    have hnot := hfirst i hlt
    rw [List.drop_append_of_le_length hlt.le] at hnot
    rcases Nat.lt_or_ge (a.drop i).length p'.length with hlong | hshort
    · -- the other marker would begin inside the name
      obtain ⟨t, rfl, ht⟩ := hp.cons
      obtain ⟨u, rfl, -⟩ := hq.cons
      obtain ⟨w, hw⟩ := hprefix
      have hmark := congrArg (fun l : Str => l[(a.drop i).length]?) hw
      beta_reduce at hmark
      rw [List.getElem?_append_left hlong, List.getElem?_append_right (Nat.le_refl _),
        Nat.sub_self, List.cons_append, List.getElem?_cons_zero] at hmark
      have hpos : 0 < (a.drop i).length := by
        rw [List.length_drop]
        omega
      obtain ⟨k, hk⟩ := Nat.exists_eq_succ_of_ne_zero hpos.ne'
      rw [hk, List.getElem?_cons_succ] at hmark
      exact ht (List.mem_of_getElem? hmark)
    · refine hnot (List.IsPrefix.trans ?_ (List.prefix_append _ s'))
      exact List.prefix_of_prefix_length_le hprefix (List.prefix_append _ _) hshort
  · rw [List.drop_append, List.drop_eq_nil_of_le hge, List.nil_append] at hprefix
    have hclosed : Closed [p'] q := by
      refine closed_marker hq fun p hp' => ?_
      obtain rfl := List.mem_singleton.mp hp'
      exact ⟨hp, hapart⟩
    refine hclosed p' (List.mem_singleton_self p') (i - a.length) ?_ b hprefix
    rw [List.length_append] at hi
    omega

/-! ## One turn of the pass -/

theorem ruleAt_eq_none : ruleAt rules s = none ↔ ∀ r ∈ rules, ¬ r.name <+: s := by
  simp [ruleAt, List.find?_eq_none, List.isPrefixOf_iff_prefix]

theorem ruleAt_eq_some (h : ruleAt rules s = some r) : r ∈ rules ∧ r.name <+: s :=
  ⟨List.mem_of_find?_eq_some h, List.isPrefixOf_iff_prefix.mp (by simpa using List.find?_some h)⟩

theorem Rules.ruleAt_of_prefix (h : Rules d rules) (hr : r ∈ rules) (hs : r.name <+: s) :
    ruleAt rules s = some r := by
  cases hat : ruleAt rules s with
  | none => exact absurd hs (ruleAt_eq_none.mp hat r hr)
  | some r' =>
    obtain ⟨hr', hs'⟩ := ruleAt_eq_some hat
    by_cases heq : r' = r
    · rw [heq]
    · have : Std.Symm fun r r' : Rule => Apart r.name r'.name := ⟨fun _ _ h => h.symm⟩
      have hapart := h.names.forall hr' hr heq
      rcases List.prefix_or_prefix_of_prefix hs' hs with hp | hp
      · exact absurd hp hapart.1
      · exact absurd hp hapart.2

@[simp]
theorem replaceAll_nil : replaceAll rules [] = [] := rfl

theorem replaceFrom_eq (skip : Nat) (s : Str) :
    replaceFrom rules skip s = replaceAll rules (s.drop skip) := by
  induction s generalizing skip with
  | nil => cases skip <;> rfl
  | cons c s ih =>
    cases skip with
    | zero => rfl
    | succ skip => exact ih skip

theorem replaceAll_cons_of_none {c : Char} (h : ruleAt rules (c :: s) = none) :
    replaceAll rules (c :: s) = c :: replaceAll rules s := by
  rw [replaceAll, replaceFrom, h]
  rfl

theorem replaceAll_of_rule (h : ruleAt rules s = some r) (hr : 0 < r.name.length) :
    replaceAll rules s = r.word ++ replaceAll rules (s.drop r.name.length) := by
  cases s with
  | nil =>
    have hp := List.prefix_nil.mp (ruleAt_eq_some h).2
    rw [hp] at hr
    exact absurd hr (Nat.lt_irrefl 0)
  | cons c s =>
    obtain ⟨n, hn⟩ := Nat.exists_eq_succ_of_ne_zero hr.ne'
    rw [replaceAll, replaceFrom, h]
    change r.word ++ replaceFrom rules (r.name.length - 1) s = _
    rw [hn, Nat.succ_sub_one, replaceFrom_eq, List.drop_succ_cons]

/-- As a text is read: it is at its end, a name begins there, or none does. -/
theorem Rules.turn (h : Rules d rules) (s : Str) :
    s = [] ∨
    (∃ r ∈ rules, ∃ rest, s = r.name ++ rest ∧ rest.length < s.length ∧
      ruleAt rules s = some r ∧ replaceAll rules s = r.word ++ replaceAll rules rest) ∨
    (∃ c rest, s = c :: rest ∧ ruleAt rules s = none ∧
      replaceAll rules s = c :: replaceAll rules rest) := by
  cases hat : ruleAt rules s with
  | some r =>
    obtain ⟨hr, rest, rfl⟩ := ruleAt_eq_some hat
    have hpos := (h.name r hr).length_pos
    refine .inr (.inl ⟨r, hr, rest, rfl, ?_, rfl, ?_⟩)
    · rw [List.length_append]
      omega
    · rw [replaceAll_of_rule hat hpos, List.drop_left]
  | none =>
    cases s with
    | nil => exact .inl rfl
    | cons c s => exact .inr (.inr ⟨c, s, rfl, rfl, replaceAll_cons_of_none hat⟩)

theorem replaceAll_append (h : Closed (rules.map Rule.name) a) (b : Str) :
    replaceAll rules (a ++ b) = a ++ replaceAll rules b := by
  induction a with
  | nil => rfl
  | cons c a ih =>
    obtain ⟨hc, ha⟩ := h.cons
    have hat : ruleAt rules (c :: (a ++ b)) = none :=
      ruleAt_eq_none.mpr fun r hr => hc r.name (List.mem_map_of_mem hr) b
    rw [List.cons_append, replaceAll_cons_of_none hat, ih ha, List.cons_append]

theorem replaceAll_of_strstr {n : Nat} (h : strstr r.name s = some n) (hr : 0 < r.name.length) :
    replaceAll [r] s = s.take n ++ (r.word ++ replaceAll [r] (s.drop (n + r.name.length))) := by
  induction s generalizing n with
  | nil =>
    have hp : r.name <+: [] := by simpa using (strstr_eq_some.mp h).2.1
    rw [List.prefix_nil.mp hp] at hr
    exact absurd hr (Nat.lt_irrefl 0)
  | cons c s ih =>
    by_cases hprefix : r.name <+: c :: s
    · rw [strstr_of_start hprefix] at h
      obtain rfl := Option.some.inj h
      have hat : ruleAt [r] (c :: s) = some r := by
        simpa [ruleAt, List.isPrefixOf_iff_prefix] using hprefix
      rw [replaceAll_of_rule hat hr, List.take_zero, List.nil_append, Nat.zero_add]
    · rw [strstr_cons_of_not hprefix] at h
      obtain ⟨m, hm, rfl⟩ := Option.map_eq_some_iff.mp h
      have hat : ruleAt [r] (c :: s) = none :=
        ruleAt_eq_none.mpr fun r' hr' => List.mem_singleton.mp hr' ▸ hprefix
      rw [replaceAll_cons_of_none hat, ih hm, List.take_succ_cons, List.cons_append,
        Nat.add_right_comm, List.drop_succ_cons]

/-! ## What is left -/

theorem Rules.closed_word (h : Rules d rules) (hr : r ∈ rules) :
    Closed (rules.map Rule.name) r.word := by
  refine closed_marker (h.word r hr) fun p hp => ?_
  obtain ⟨r', hr', rfl⟩ := List.mem_map.mp hp
  exact ⟨h.name r' hr', h.words r' hr' r hr⟩

/-- The words begin with `d`, so what has no `d` was there before. -/
theorem Rules.prefix_of_replaceAll (h : Rules d rules) (ht : d ∉ t)
    (hp : t <+: replaceAll rules s) : t <+: s := by
  induction t generalizing s with
  | nil => exact List.nil_prefix
  | cons c t ih =>
    rw [List.mem_cons, not_or] at ht
    rcases h.turn s with rfl | ⟨r, hr, rest, -, -, -, heq⟩ | ⟨e, rest, rfl, -, heq⟩
    · exact hp
    · obtain ⟨u, hu, -⟩ := (h.word r hr).cons
      rw [heq, hu, List.cons_append, List.cons_prefix_cons] at hp
      exact absurd hp.1.symm ht.1
    · rw [heq, List.cons_prefix_cons] at hp
      rw [List.cons_prefix_cons]
      exact ⟨hp.1, ih ht.2 hp.2⟩

theorem Rules.name_of_replaceAll (h : Rules d rules) (hmarker : Marker d p)
    (hapart : ∀ r ∈ rules, Apart p r.word) (hp : p <+: replaceAll rules s) :
    p <+: s ∧ ruleAt rules s = none := by
  obtain ⟨t, rfl, ht⟩ := hmarker.cons
  rcases h.turn s with rfl | ⟨r, hr, rest, -, -, -, heq⟩ | ⟨e, rest, rfl, hnone, heq⟩
  · exact absurd (List.prefix_nil.mp hp) (List.cons_ne_nil d t)
  · rw [heq] at hp
    exact absurd hp (not_prefix_append_of_apart (hapart r hr))
  · rw [heq, List.cons_prefix_cons] at hp
    exact ⟨List.cons_prefix_cons.mpr ⟨hp.1, h.prefix_of_replaceAll ht hp.2⟩, hnone⟩

theorem Rules.not_infix_replaceAll (h : Rules d rules) (hr : r ∈ rules) (s : Str) :
    ¬ r.name <:+: replaceAll rules s := by
  induction hn : s.length using Nat.strongRecOn generalizing s with
  | ind n ih =>
    intro hin
    rcases h.turn s with rfl | ⟨r', hr', rest, -, hlt, -, heq⟩ | ⟨c, rest, rfl, hnone, heq⟩
    · have hpos := (h.name r hr).length_pos
      rw [List.infix_nil.mp hin] at hpos
      exact absurd hpos (Nat.lt_irrefl 0)
    · rw [heq] at hin
      have hin' := infix_append_of_closed (h.closed_word hr') (List.mem_map_of_mem hr) hin
      exact ih rest.length (hn ▸ hlt) rest rfl hin'
    · rw [heq, List.infix_cons_iff, ← heq] at hin
      rcases hin with hprefix | hin
      · have hname := h.name_of_replaceAll (h.name r hr) (fun r' hr' => h.words r hr r' hr') hprefix
        exact ruleAt_eq_none.mp hname.2 r hr hname.1
      · exact ih rest.length (hn ▸ Nat.lt_succ_self _) rest rfl hin

theorem replaceAll_of_not_infix (h : ∀ r ∈ rules, ¬ r.name <:+: s) : replaceAll rules s = s := by
  induction s with
  | nil => rfl
  | cons c s ih =>
    have hat : ruleAt rules (c :: s) = none :=
      ruleAt_eq_none.mpr fun r hr hp => h r hr hp.isInfix
    rw [replaceAll_cons_of_none hat, ih fun r hr hin => h r hr (List.infix_cons hin)]

theorem Rules.replaceAll_replaceAll (h : Rules d rules) (s : Str) :
    replaceAll rules (replaceAll rules s) = replaceAll rules s :=
  replaceAll_of_not_infix fun _ hr => h.not_infix_replaceAll hr s

/-! ## One rule after the other -/

theorem Rules.tail (h : Rules d (r :: rules)) : Rules d rules where
  name r hr := h.name r (List.mem_cons_of_mem _ hr)
  word r hr := h.word r (List.mem_cons_of_mem _ hr)
  names := h.names.tail
  words r hr r' hr' := h.words r (List.mem_cons_of_mem _ hr) r' (List.mem_cons_of_mem _ hr')

theorem Rules.single (h : Rules d rules) (hr : r ∈ rules) : Rules d [r] where
  name r' hr' := h.name r' (List.mem_singleton.mp hr' ▸ hr)
  word r' hr' := h.word r' (List.mem_singleton.mp hr' ▸ hr)
  names := List.pairwise_singleton _ r
  words r' hr' r'' hr'' :=
    h.words r' (List.mem_singleton.mp hr' ▸ hr) r'' (List.mem_singleton.mp hr'' ▸ hr)

theorem Rules.replaceAll_cons (h : Rules d (r :: rules)) (s : Str) :
    replaceAll (r :: rules) s = replaceAll rules (replaceAll [r] s) := by
  have hfirst : Rules d [r] := h.single (List.mem_cons_self ..)
  have hword : Closed (rules.map Rule.name) r.word := fun p hp =>
    h.closed_word (List.mem_cons_self ..) p (List.mem_cons_of_mem _ hp)
  induction hn : s.length using Nat.strongRecOn generalizing s with
  | ind n ih =>
    rcases h.turn s with rfl | ⟨r', hr', rest, hs, hlt, hat, heq⟩ | ⟨c, rest, rfl, hnone, heq⟩
    · rfl
    · have hrest := ih rest.length (hn ▸ hlt) rest rfl
      rcases List.mem_cons.mp hr' with rfl | hin
      · have hone : replaceAll [r'] s = r'.word ++ replaceAll [r'] rest := by
          have hone' := List.mem_singleton_self r'
          have hsome := hfirst.ruleAt_of_prefix hone' (s := s) (hs ▸ List.prefix_append _ _)
          rw [replaceAll_of_rule hsome (hfirst.name r' hone').length_pos, hs, List.drop_left]
        rw [heq, hone, replaceAll_append hword, hrest]
      · -- the first rule passes over the name of another one
        have hapart : Apart r.name r'.name := (List.pairwise_cons.mp h.names).1 r' hin
        have hclosed : Closed ([r].map Rule.name) r'.name := by
          refine closed_marker (h.name r' hr') fun p hp => ?_
          rw [List.mem_singleton.mp hp]
          exact ⟨h.name r (List.mem_cons_self ..), hapart⟩
        have hsome := h.tail.ruleAt_of_prefix hin
          (s := r'.name ++ replaceAll [r] rest) (List.prefix_append _ _)
        rw [heq, hs, replaceAll_append hclosed,
          replaceAll_of_rule hsome (h.name r' hr').length_pos, List.drop_left, hrest]
    · have hone : replaceAll [r] (c :: rest) = c :: replaceAll [r] rest := by
        refine replaceAll_cons_of_none (ruleAt_eq_none.mpr fun r' hr' => ?_)
        rw [List.mem_singleton.mp hr']
        exact ruleAt_eq_none.mp hnone r (List.mem_cons_self ..)
      have hat : ruleAt rules (c :: replaceAll [r] rest) = none := by
        refine ruleAt_eq_none.mpr fun r' hr' hp => ?_
        have hmem : r' ∈ r :: rules := List.mem_cons_of_mem _ hr'
        have hname := hfirst.name_of_replaceAll (h.name r' hmem)
          (fun r'' hr'' => List.mem_singleton.mp hr'' ▸ h.words r' hmem r (List.mem_cons_self ..))
          (hone ▸ hp)
        exact ruleAt_eq_none.mp hnone r' hmem hname.1
      rw [heq, hone, replaceAll_cons_of_none hat,
        ih rest.length (hn ▸ Nat.lt_succ_self _) rest rfl]

end

end Voms.Core
