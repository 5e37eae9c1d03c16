import Mathlib.Data.List.Infix
import Mathlib.Tactic.IntervalCases
import Voms.Core.Decimal
import Voms.Core.Res

/-!
# The URL of a request

`ContactRESTRaw` (`src/api/ccapi/voms_api.cc`) writes what is asked for into
the URL of a GET. The commands are already in the letters of the server; to
turn them into FQANs again `parse_commands` replaces the letters wherever
they stand before a slash, in the names of groups and roles too.

`change_swap` gives the loop of `change` as a pass over the text,
`rewritten_eq_self` says which texts the passes leave alone.
-/
namespace Voms.L4

open Voms.Core

/-! ## The client -/

/-- The loop of `change`, from the position `start` on.
mirrors src/api/ccapi/voms_api.cc:1041-1046 -/
def changeLoop (old new : Str) : Nat → Str → Nat → Eval Str
  | 0, _, _ => .fault .diverge
  | turns + 1, name, start =>
    match strstr old (name.drop start) with
    | none => pure name
    | some i =>
      let pos := start + i
      changeLoop old new turns (name.take pos ++ new ++ name.drop (pos + old.length)) (pos + 1)

/-- mirrors src/api/ccapi/voms_api.cc:1039-1047 -/
def change (name old new : Str) : Eval Str := changeLoop old new (name.length + 1) name 0

/-- mirrors src/api/ccapi/voms_api.cc:1049-1065 -/
def parseCommands (commands : Str) : Eval Str :=
  if commands.head? = some '/' then pure commands
  else if commands.head? = some 'A' then pure "all".toList
  else do
    let temp ← change commands ":".toList "/Role=".toList
    let temp ← change temp "G/".toList "/".toList
    let temp ← change temp "B/".toList "/".toList
    change temp "R/".toList "/Role=".toList

/-- The part of the request line behind the method.
mirrors src/api/ccapi/voms_api.cc:321-342 -/
def restPath (command ordering : Str) (targets : List Str) (duration : Int) : Eval Str := do
  let fqans ← parseCommands command
  pure ("/generate-ac?fqans=".toList ++ fqans ++ "&lifetime=".toList ++ decimal duration ++
    (if ordering = [] then [] else "&order=".toList ++ ordering) ++
    (if targets = [] then [] else "&targets=".toList ++ join ',' targets))

/-- What `ContactRESTRaw` sends.
mirrors src/api/ccapi/voms_api.cc:319-347 -/
def restRequest (hostname : Str) (port : Int) (path : Str) : Str :=
  "GET ".toList ++ path ++ " HTTP/1.0\n".toList ++
    "User-Agent: voms APIs 2.0\nAccept: */*\nHost: ".toList ++ hostname ++ ":".toList ++
    decimal port ++ "\n\n".toList

/-! ## One pass -/

/-- `new` for every `c` before a slash. -/
def swap (c : Char) (new : Str) : Str → Str
  | [] => []
  | [a] => [a]
  | a :: b :: s => if a = c ∧ b = '/' then new ++ swap c new s else a :: swap c new (b :: s)

/-- `/Role=` for every colon. -/
def colons (s : Str) : Str := s.flatMap fun a => if a = ':' then "/Role=".toList else [a]

/-- A character where the pattern does not start is passed over. -/
theorem changeLoop_skip {old new : Str} {turns : Nat} {done s : Str} {a : Char}
    (h : ¬ old <+: a :: s) :
    changeLoop old new (turns + 1) (done ++ a :: s) done.length =
      changeLoop old new (turns + 1) ((done ++ [a]) ++ s) (done ++ [a]).length := by
  have hname : done ++ a :: s = (done ++ [a]) ++ s := by simp
  have hlength : (done ++ [a]).length = done.length + 1 := by simp
  rw [changeLoop, changeLoop, List.drop_left, strstr_cons_of_not h, ← hname, hlength]
  rw [show (done ++ a :: s).drop (done.length + 1) = s by rw [hname, ← hlength, List.drop_left]]
  cases strstr old s with
  | none => rfl
  | some i =>
    simp only [Option.map_some]
    rw [show done.length + (i + 1) = done.length + 1 + i by omega]

/-- Where it starts it is replaced. -/
theorem changeLoop_replace {old new : Str} {turns : Nat} {done s : Str} :
    changeLoop old new (turns + 1) (done ++ (old ++ s)) done.length =
      changeLoop old new turns (done ++ (new ++ s)) (done.length + 1) := by
  have hdrop : (done ++ (old ++ s)).drop (done.length + old.length) = s := by
    rw [← List.drop_drop, List.drop_left, List.drop_left]
  rw [changeLoop, List.drop_left, strstr_of_start (List.prefix_append old s)]
  simp only [Nat.add_zero, hdrop, List.take_left, List.append_assoc]

theorem changeLoop_none {old new : Str} {turns : Nat} {done s : Str} (h : strstr old s = none) :
    changeLoop old new (turns + 1) (done ++ s) done.length = .ok (done ++ s) := by
  rw [changeLoop, List.drop_left, h]
  rfl

theorem changeLoop_skips {old new : Str} {turns : Nat} {s : Str} : ∀ {tail done : Str},
    (∀ n < tail.length, ¬ old <+: tail.drop n ++ s) →
      changeLoop old new (turns + 1) (done ++ (tail ++ s)) done.length =
        changeLoop old new (turns + 1) ((done ++ tail) ++ s) (done ++ tail).length
  | [], done, _ => by rw [List.append_nil, List.nil_append]
  | a :: tail, done, h => by
    have hhead : ¬ old <+: a :: (tail ++ s) := h 0 (Nat.succ_pos _)
    have htail : ∀ n < tail.length, ¬ old <+: tail.drop n ++ s := fun n hn =>
      h (n + 1) (Nat.succ_lt_succ hn)
    rw [List.cons_append, changeLoop_skip hhead, changeLoop_skips htail]
    simp only [List.append_assoc, List.singleton_append]

/-- Behind the first character of what was put in, the pass goes on at its end. -/
def Clears (old new : Str) : Prop := ∀ (turns : Nat) (done s : Str),
  changeLoop old new (turns + 1) (done ++ (new ++ s)) (done.length + 1) =
    changeLoop old new (turns + 1) ((done ++ new) ++ s) (done ++ new).length

theorem clears_slash (old : Str) : Clears old "/".toList := by
  intro turns done s
  simp

theorem clears_role {old : Str} (h : ∀ n < 5, ∀ s, ¬ old <+: "Role=".toList.drop n ++ s) :
    Clears old "/Role=".toList := by
  intro turns done s
  have hskip := @changeLoop_skips old "/Role=".toList turns s "Role=".toList
    (done ++ "/".toList) (fun n hn => h n hn s)
  simpa [List.append_assoc] using hskip

theorem clears_colon : Clears ":".toList "/Role=".toList := by
  refine clears_role fun n hn s => ?_
  interval_cases n <;> simp [List.cons_prefix_cons]

theorem clears_R : Clears "R/".toList "/Role=".toList := by
  refine clears_role fun n hn s => ?_
  interval_cases n <;> simp [List.cons_prefix_cons]

/-- The loop is a pass over the text. -/
theorem changeLoop_swap {c : Char} {new : Str} (hnew : Clears [c, '/'] new) :
    ∀ {s : Str} {turns : Nat} {done : Str}, s.length < turns →
      changeLoop [c, '/'] new turns (done ++ s) done.length = .ok (done ++ swap c new s)
  | _, 0, _, h => absurd h (Nat.not_lt_zero _)
  | [], turns + 1, done, _ => changeLoop_none rfl
  | [a], turns + 1, done, _ => changeLoop_none (by simp [strstr])
  | a :: b :: s, turns + 1, done, h => by
    rw [swap]
    by_cases hab : a = c ∧ b = '/'
    · obtain ⟨rfl, rfl⟩ := hab
      obtain ⟨turns, rfl⟩ : ∃ n, turns = n + 1 := ⟨turns - 1, by simp at h; omega⟩
      have hreplace := @changeLoop_replace [a, '/'] new (turns + 1) done s
      simp only [List.cons_append, List.nil_append] at hreplace
      rw [hreplace, hnew, changeLoop_swap hnew (by simp at h; omega), if_pos ⟨rfl, rfl⟩,
        List.append_assoc]
    · have hpre : ¬ [c, '/'] <+: a :: b :: s := by
        rw [List.cons_prefix_cons, List.cons_prefix_cons]
        exact fun hp => hab ⟨hp.1.symm, hp.2.1.symm⟩
      rw [if_neg hab, changeLoop_skip hpre, changeLoop_swap hnew (by simp at h ⊢; omega),
        List.append_assoc, List.singleton_append]

theorem changeLoop_colons : ∀ {s : Str} {turns : Nat} {done : Str}, s.length < turns →
    changeLoop ":".toList "/Role=".toList turns (done ++ s) done.length = .ok (done ++ colons s)
  | _, 0, _, h => absurd h (Nat.not_lt_zero _)
  | [], turns + 1, done, _ => changeLoop_none rfl
  | a :: s, turns + 1, done, h => by
    have hcolons : colons (a :: s) = (if a = ':' then "/Role=".toList else [a]) ++ colons s :=
      List.flatMap_cons
    rw [hcolons]
    by_cases ha : a = ':'
    · subst ha
      obtain ⟨turns, rfl⟩ : ∃ n, turns = n + 1 := ⟨turns - 1, by simp at h; omega⟩
      have hreplace := @changeLoop_replace ":".toList "/Role=".toList (turns + 1) done s
      have hclears := clears_colon turns done s
      have hlen : s.length < turns + 1 := Nat.lt_of_succ_lt_succ h
      rw [if_pos rfl, ← List.append_assoc, ← changeLoop_colons hlen, ← hclears]
      exact hreplace
    · have hpre : ¬ ":".toList <+: a :: s := by
        rw [show ":".toList = [':'] from rfl, List.cons_prefix_cons]
        exact fun hp => ha hp.1.symm
      rw [if_neg ha, changeLoop_skip hpre, changeLoop_colons (by simp at h; omega),
        List.append_assoc]

/-! ## The passes together -/

/-- The four passes. -/
def rewritten (s : Str) : Str :=
  swap 'R' "/Role=".toList (swap 'B' "/".toList (swap 'G' "/".toList (colons s)))

theorem change_swap {c : Char} {new : Str} (hnew : Clears [c, '/'] new) (s : Str) :
    change s [c, '/'] new = .ok (swap c new s) :=
  @changeLoop_swap c new hnew s (s.length + 1) [] (Nat.lt_succ_self _)

theorem change_colons (s : Str) : change s ":".toList "/Role=".toList = .ok (colons s) :=
  @changeLoop_colons s (s.length + 1) [] (Nat.lt_succ_self _)

theorem parseCommands_eq {s : Str} (hslash : s.head? ≠ some '/') :
    parseCommands s = .ok (if s.head? = some 'A' then "all".toList else rewritten s) := by
  unfold parseCommands
  rw [if_neg hslash]
  by_cases hA : s.head? = some 'A'
  · rw [if_pos hA, if_pos hA]
    rfl
  · rw [if_neg hA, if_neg hA, change_colons, Res.ok_bind]
    have hG : change (colons s) "G/".toList "/".toList = .ok (swap 'G' "/".toList (colons s)) :=
      change_swap (clears_slash _) _
    have hB : ∀ t, change t "B/".toList "/".toList = .ok (swap 'B' "/".toList t) :=
      change_swap (clears_slash _)
    have hR : ∀ t, change t "R/".toList "/Role=".toList = .ok (swap 'R' "/Role=".toList t) :=
      change_swap clears_R
    rw [hG, Res.ok_bind, hB, Res.ok_bind, hR]
    rfl

/-! ## Texts the passes leave alone -/

variable {c : Char} {new s t u : Str}

/-- The first difference is a slash in `t`. -/
def FirstSlash (s t : Str) : Prop :=
  ∃ (n : Nat) (a : Char), (∀ i < n, s[i]? = t[i]?) ∧ s[n]? = some a ∧ a ≠ '/' ∧ t[n]? = some '/'

theorem FirstSlash.ne (h : FirstSlash s t) : s ≠ t := by
  obtain ⟨n, a, -, hs, ha, ht⟩ := h
  rintro rfl
  exact ha (Option.some.inj (hs.symm.trans ht))

/-- Later differences are no obstacle, and an earlier one takes its place. -/
theorem FirstSlash.trans (h : FirstSlash s t) (h' : FirstSlash t u) : FirstSlash s u := by
  obtain ⟨n, a, heq, hs, ha, ht⟩ := h
  obtain ⟨m, b, heq', ht', hb, hu⟩ := h'
  rcases Nat.lt_trichotomy m n with hmn | rfl | hnm
  · refine ⟨m, b, fun i hi => (heq i (by omega)).trans (heq' i hi), ?_, hb, hu⟩
    rw [heq m hmn, ht']
  · exact absurd (Option.some.inj (ht'.symm.trans ht)) hb
  · exact ⟨n, a, fun i hi => (heq i hi).trans (heq' i (by omega)), hs, ha, by rw [← heq' n hnm, ht]⟩

theorem FirstSlash.cons (a : Char) (h : FirstSlash s t) : FirstSlash (a :: s) (a :: t) := by
  obtain ⟨n, b, heq, hs, hb, ht⟩ := h
  refine ⟨n + 1, b, fun i hi => ?_, by simpa using hs, hb, by simpa using ht⟩
  cases i with
  | zero => rfl
  | succ i => simpa using heq i (by omega)

/-- Nothing was changed, or a slash came first. -/
def Slashed (s t : Str) : Prop := t = s ∨ FirstSlash s t

theorem Slashed.trans (h : Slashed s t) (h' : Slashed t u) : Slashed s u := by
  rcases h' with rfl | h'
  · exact h
  · rcases h with rfl | h
    · exact Or.inr h'
    · exact Or.inr (h.trans h')

/-- What a step changes, the steps after it do not undo. -/
theorem Slashed.eq_of_trans (h : Slashed s t) (h' : Slashed t s) : t = s := by
  rcases h with h | h
  · exact h
  · rcases h' with h' | h'
    · exact h'.symm
    · exact absurd rfl (h.trans h').ne

/-- A pass that finds nothing. -/
theorem swap_eq_self : ∀ {s : Str}, ¬ [c, '/'] <:+: s → swap c new s = s
  | [], _ => rfl
  | [_], _ => rfl
  | a :: b :: s, h => by
    have hab : ¬ (a = c ∧ b = '/') := by
      rintro ⟨rfl, rfl⟩
      exact h (List.prefix_append [a, '/'] s).isInfix
    rw [swap, if_neg hab, swap_eq_self fun hi => h (hi.trans (List.suffix_cons a _).isInfix)]

/-- A pass that finds something puts a slash where none was. -/
theorem swap_firstSlash (hc : c ≠ '/') (hnew : new.head? = some '/') :
    ∀ {s : Str}, [c, '/'] <:+: s → FirstSlash s (swap c new s)
  | [], h => absurd (List.infix_nil.mp h) (List.cons_ne_nil _ _)
  | [a], h => absurd h.length_le (by simp)
  | a :: b :: s, h => by
    rw [swap]
    by_cases hab : a = c ∧ b = '/'
    · rw [if_pos hab]
      obtain ⟨new', rfl⟩ : ∃ t, new = '/' :: t := by
        cases new with
        | nil => cases hnew
        | cons d t => exact ⟨t, by rw [Option.some.inj hnew]⟩
      exact ⟨0, a, fun i hi => absurd hi (Nat.not_lt_zero i), rfl, by rw [hab.1]; exact hc, rfl⟩
    · rw [if_neg hab]
      refine (swap_firstSlash hc hnew ?_).cons a
      rcases List.infix_cons_iff.mp h with hpre | hin
      · rw [List.cons_prefix_cons, List.cons_prefix_cons] at hpre
        exact absurd ⟨hpre.1.symm, hpre.2.1.symm⟩ hab
      · exact hin

/-- No letter of a command stands before a slash. -/
def Plain (s : Str) : Prop :=
  ¬ "G/".toList <:+: s ∧ ¬ "B/".toList <:+: s ∧ ¬ "R/".toList <:+: s

theorem colons_eq_self (h : ':' ∉ s) : colons s = s := by
  have hsingle : ∀ a ∈ s, (if a = ':' then "/Role=".toList else [a]) = [a] := by
    intro a ha
    rw [if_neg]
    rintro rfl
    exact h ha
  unfold colons
  rw [List.flatMap_congr hsingle]
  exact List.flatMap_singleton' s

theorem slashed_swap (hc : c ≠ '/') (hnew : new.head? = some '/') (s : Str) :
    Slashed s (swap c new s) := by
  by_cases h : [c, '/'] <:+: s
  · exact Or.inr (swap_firstSlash hc hnew h)
  · exact Or.inl (swap_eq_self h)

theorem slashed_rewritten (h : ':' ∉ s) : Slashed s (rewritten s) := by
  unfold rewritten
  rw [colons_eq_self h]
  have hG := slashed_swap (by decide : 'G' ≠ '/') (rfl : "/".toList.head? = some '/') s
  have hB := slashed_swap (by decide : 'B' ≠ '/') (rfl : "/".toList.head? = some '/')
    (swap 'G' "/".toList s)
  have hR := slashed_swap (by decide : 'R' ≠ '/') (rfl : "/Role=".toList.head? = some '/')
    (swap 'B' "/".toList (swap 'G' "/".toList s))
  exact (hG.trans hB).trans hR

/-- The passes leave alone exactly the texts without a letter before a slash. -/
theorem rewritten_eq_self (h : ':' ∉ s) : rewritten s = s ↔ Plain s := by
  have hfix : ∀ {c : Char} {new : Str}, c ≠ '/' → new.head? = some '/' → swap c new s = s →
      ¬ [c, '/'] <:+: s := fun hc hnew heq hin => (swap_firstSlash hc hnew hin).ne heq.symm
  unfold rewritten
  rw [colons_eq_self h]
  constructor
  · intro heq
    have hG := slashed_swap (by decide : 'G' ≠ '/') (rfl : "/".toList.head? = some '/')
    have hB := slashed_swap (by decide : 'B' ≠ '/') (rfl : "/".toList.head? = some '/')
    have hR := slashed_swap (by decide : 'R' ≠ '/') (rfl : "/Role=".toList.head? = some '/')
    have hlast := hR (swap 'B' "/".toList (swap 'G' "/".toList s))
    rw [heq] at hlast
    have h1 := (hG s).eq_of_trans ((hB _).trans hlast)
    rw [h1] at heq hlast
    have h2 := (hB s).eq_of_trans hlast
    rw [h2] at heq
    exact ⟨hfix (by decide) rfl h1, hfix (by decide) rfl h2, hfix (by decide) rfl heq⟩
  · intro hplain
    obtain ⟨h1, h2, h3⟩ := hplain
    have hG : swap 'G' "/".toList s = s := swap_eq_self h1
    have hB : swap 'B' "/".toList s = s := swap_eq_self h2
    rw [hG, hB]
    exact swap_eq_self h3

/-! ## What the passes put in -/

theorem swap_cons_of_ne {a : Char} (h : a ≠ c) (s : Str) : swap c new (a :: s) = a :: swap c new s := by
  cases s with
  | nil => rfl
  | cons b s => rw [swap, if_neg fun hab => h hab.1]

/-- A pass over a text with a separator is a pass over its parts. -/
theorem swap_append_cons {d : Char} (hd : d ≠ c) (hd' : d ≠ '/') (t : Str) :
    ∀ s : Str, swap c new (s ++ d :: t) = swap c new s ++ d :: swap c new t
  | [] => swap_cons_of_ne hd t
  | [a] => by
    show swap c new (a :: d :: t) = a :: d :: swap c new t
    rw [swap, if_neg fun hab => hd' hab.2, swap_cons_of_ne hd t]
  | a :: b :: s => by
    rw [List.cons_append, List.cons_append, swap, swap]
    split
    · rw [swap_append_cons hd hd' t s, List.append_assoc]
    · rw [← List.cons_append, swap_append_cons hd hd' t (b :: s), List.cons_append]

theorem mem_swap : ∀ {s : Str} {a : Char}, a ∈ swap c new s → a ∈ s ∨ a ∈ new
  | [], _, h => Or.inl h
  | [_], _, h => Or.inl h
  | a :: b :: s, d, h => by
    rw [swap] at h
    split at h
    · rcases List.mem_append.mp h with h | h
      · exact Or.inr h
      · rcases mem_swap h with h | h
        · exact Or.inl (List.mem_cons_of_mem _ (List.mem_cons_of_mem _ h))
        · exact Or.inr h
    · rcases List.mem_cons.mp h with rfl | h
      · exact Or.inl (List.mem_cons_self ..)
      · rcases mem_swap h with h | h
        · exact Or.inl (List.mem_cons_of_mem _ h)
        · exact Or.inr h

/-- Every character more than there was is paid for with an `=`. -/
theorem length_swap_le {k : Nat} (hnew : new.length ≤ k * new.count '=' + 2) :
    ∀ s : Str, (swap c new s).length ≤ s.length + k * (swap c new s).count '='
  | [] => by simp [swap]
  | [a] => by simp [swap]
  | a :: b :: s => by
    rw [swap]
    split
    · have ih := length_swap_le hnew s
      rw [List.length_append, List.count_append, Nat.mul_add, List.length_cons, List.length_cons]
      omega
    · have ih := length_swap_le hnew (b :: s)
      have hcount : (swap c new (b :: s)).count '=' ≤ (a :: swap c new (b :: s)).count '=' :=
        List.count_le_count_cons
      have := Nat.mul_le_mul_left k hcount
      rw [List.length_cons, List.length_cons]
      omega

theorem swap_append_of_notMem (t : Str) : ∀ {s : Str}, c ∉ s → swap c new (s ++ t) = s ++ swap c new t
  | [], _ => rfl
  | a :: s, h => by
    obtain ⟨ha, hs⟩ := not_or.mp (mt List.mem_cons.mpr h)
    rw [List.cons_append, swap_cons_of_ne (Ne.symm ha), swap_append_of_notMem t hs,
      List.cons_append]

theorem colons_append (s t : Str) : colons (s ++ t) = colons s ++ colons t := List.flatMap_append

theorem notMem_colons (s : Str) : ':' ∉ colons s := by
  unfold colons
  rw [List.mem_flatMap]
  rintro ⟨a, -, h⟩
  split at h
  · exact absurd h (by decide)
  · next ha => exact ha (List.mem_singleton.mp h).symm

theorem rewritten_colons (s : Str) : rewritten (colons s) = rewritten s := by
  unfold rewritten
  rw [colons_eq_self (notMem_colons s)]

theorem mem_rewritten {a : Char} (h : a ∈ rewritten s) : a ∈ colons s ∨ a ∈ "/Role=".toList := by
  have hslash : a ∈ "/".toList → a ∈ "/Role=".toList := by
    intro h
    rw [List.mem_singleton.mp h]
    decide
  rcases mem_swap h with h | h
  · rcases mem_swap h with h | h
    · rcases mem_swap h with h | h
      · exact Or.inl h
      · exact Or.inr (hslash h)
    · exact Or.inr (hslash h)
  · exact Or.inr h

theorem notMem_rewritten (s : Str) : ':' ∉ rewritten s := by
  intro h
  rcases mem_rewritten h with h | h
  · exact notMem_colons s h
  · exact absurd h (by decide)

theorem length_rewritten_le (h : ':' ∉ s) :
    (rewritten s).length ≤ s.length + 4 * (rewritten s).count '=' := by
  have hG := @length_swap_le 'G' "/".toList 0 (by decide) s
  have hB := @length_swap_le 'B' "/".toList 0 (by decide) (swap 'G' "/".toList s)
  have hR := @length_swap_le 'R' "/Role=".toList 4 (by decide)
    (swap 'B' "/".toList (swap 'G' "/".toList s))
  unfold rewritten
  rw [colons_eq_self h]
  omega

/-- Commands are rewritten one by one. -/
theorem rewritten_append_comma (s t : Str) :
    rewritten (s ++ ',' :: t) = rewritten s ++ ',' :: rewritten t := by
  have hcolons : colons (s ++ ',' :: t) = colons s ++ ',' :: colons t := by
    rw [colons_append]
    rfl
  unfold rewritten
  rw [hcolons, swap_append_cons (by decide) (by decide), swap_append_cons (by decide) (by decide),
    swap_append_cons (by decide) (by decide)]

theorem rewritten_join : ∀ l : List Str, rewritten (join ',' l) = join ',' (l.map rewritten)
  | [] => rfl
  | [s] => by simp [join]
  | s :: t :: l => by
    have hjoin : ∀ (s t : Str) (l : List Str), join ',' (s :: t :: l) = s ++ ',' :: join ',' (t :: l) :=
      fun s t l => by simp [join, List.intercalate]
    have ih := rewritten_join (t :: l)
    rw [List.map_cons, List.map_cons, hjoin, hjoin, rewritten_append_comma, ih]
    rfl

/-- The letter of a command for a group disappears. -/
theorem rewritten_group (h : ':' ∉ s) : rewritten ('G' :: '/' :: s) = '/' :: rewritten s := by
  have hcolon : ':' ∉ 'G' :: '/' :: s := by simpa using h
  have hG : swap 'G' "/".toList ('G' :: '/' :: s) = '/' :: swap 'G' "/".toList s := by
    rw [swap, if_pos ⟨rfl, rfl⟩]
    rfl
  unfold rewritten
  rw [colons_eq_self hcolon, colons_eq_self h, hG, swap_cons_of_ne (by decide),
    swap_cons_of_ne (by decide)]

theorem swap_letters (t : Str) : ∀ k : Nat, swap 'B' "/".toList (List.replicate (k + 1) 'B' ++ '/' :: t) =
    List.replicate k 'B' ++ '/' :: swap 'B' "/".toList t
  | 0 => by
    show swap 'B' "/".toList ('B' :: '/' :: t) = '/' :: swap 'B' "/".toList t
    rw [swap, if_pos ⟨rfl, rfl⟩]
    rfl
  | k + 1 => by
    have ih := swap_letters t k
    show swap 'B' "/".toList ('B' :: 'B' :: (List.replicate k 'B' ++ '/' :: t)) = _
    rw [swap, if_neg (by decide)]
    exact congrArg ('B' :: ·) ih

/-- Of the letters before the first slash one disappears. -/
theorem rewritten_letters (k : Nat) (h : ':' ∉ s) :
    rewritten (List.replicate (k + 1) 'B' ++ '/' :: s) =
      List.replicate k 'B' ++ '/' :: rewritten s := by
  have hnot : ∀ {a : Char} {n : Nat}, a ≠ 'B' → a ∉ List.replicate n 'B' :=
    fun ha hmem => ha (List.eq_of_mem_replicate hmem)
  have hcolon : ':' ∉ List.replicate (k + 1) 'B' ++ '/' :: s := by
    rw [List.mem_append, List.mem_cons, not_or, not_or]
    exact ⟨hnot (by decide), by decide, h⟩
  unfold rewritten
  rw [colons_eq_self hcolon, colons_eq_self h, swap_append_of_notMem _ (hnot (by decide)),
    swap_cons_of_ne (by decide), swap_letters, swap_append_of_notMem _ (hnot (by decide)),
    swap_cons_of_ne (by decide)]

/-- The letter of a command for a group with a role disappears, and nothing
else changes, exactly if the first slash stands behind such letters only and
what follows is plain. -/
theorem rewritten_pair_iff (h : ':' ∉ s) : rewritten ('B' :: s) = s ↔
    ∃ k t, s = List.replicate k 'B' ++ '/' :: t ∧ Plain t := by
  have hcolon : ':' ∉ 'B' :: s := by simpa using h
  have hfix : ∀ {k : Nat} {t : Str}, s = List.replicate k 'B' ++ '/' :: t →
      (rewritten ('B' :: s) = s ↔ Plain t) := by
    intro k t hs
    have ht : ':' ∉ t := by
      rw [hs, List.mem_append, List.mem_cons, not_or, not_or] at h
      exact h.2.2
    have hletters := rewritten_letters k ht
    rw [List.replicate_succ, List.cons_append, ← hs] at hletters
    rw [hletters, ← rewritten_eq_self ht]
    conv_lhs => rw [hs]
    simp
  constructor
  · intro heq
    have hslashed := slashed_rewritten hcolon
    rw [heq] at hslashed
    rcases hslashed with hsame | ⟨n, a, hbefore, -, -, hslash⟩
    · exact absurd (congrArg List.length hsame) (by simp)
    · have hB : ∀ i < n, s[i]? = some 'B' := by
        intro i
        induction i with
        | zero => exact fun hi => (hbefore 0 hi).symm
        | succ i ih =>
          intro hi
          rw [← hbefore (i + 1) hi, List.getElem?_cons_succ]
          exact ih (by omega)
      have hlt : n < s.length := (List.getElem?_eq_some_iff.mp hslash).1
      have htake : s.take n = List.replicate n 'B' := by
        refine List.ext_getElem? fun i => ?_
        rw [List.getElem?_take, List.getElem?_replicate]
        split
        · exact hB i ‹_›
        · rfl
      have hcut : s = List.replicate n 'B' ++ '/' :: s.drop (n + 1) := by
        conv_lhs => rw [← List.take_append_drop n s, htake, List.drop_eq_getElem_cons hlt]
        rw [(List.getElem?_eq_some_iff.mp hslash).2]
      exact ⟨n, _, hcut, (hfix hcut).mp heq⟩
  · intro hplain
    obtain ⟨k, t, hs, ht⟩ := hplain
    exact (hfix hs).mpr ht

end Voms.L4
