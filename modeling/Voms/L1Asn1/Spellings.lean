import Voms.L1Asn1.Dn
import Voms.Core.Replace

/-!
# Spellings of the attribute types

`src/common/normalize.c`. A search of `change` resumes at the length of the
new name, wherever the last occurrence was (`changeLoop`). What lies before
the place it should resume at holds no beginning of the old name, so nothing
is found there and nothing is missed (`change_turn`).

* `changeRun`, `change_eq`: the loop ends, no search begins behind the
  terminator, and the copy is then `replaceAll` of the one rule.
* `normalize_eq`: the three loops are one pass with the three rules.
* `normalize_exact`: none of the three names is left, a second run changes
  nothing, and `dncompare` is an equivalence.

Allocation succeeds.
-/
namespace Voms.L1

open Voms.Core

/-- The runs of the `while (pos)` loop. A turn is taken only where the next
search begins inside the text or at its terminator.
mirrors src/common/normalize.c:39-52 -/
inductive ChangeRun (src dst : Str) : Str → Option Nat → Str → Prop
  | stop (copy : Str) : ChangeRun src dst copy none copy
  | turn {copy : Str} {pos : Nat} {tmp result : Str} :
    tmp = copy.take pos ++ dst ++ copy.drop (pos + src.length) →
    dst.length ≤ tmp.length →
    ChangeRun src dst tmp ((strstr src (tmp.drop dst.length)).map (· + dst.length)) result →
    ChangeRun src dst copy (some pos) result

section

variable {d : Char} {src dst front rest : Str} {m : Nat}

/-- One turn: the text before the next search is done with. -/
theorem change_turn (h : Rules d [⟨src, dst⟩]) (hfront : Closed [src] front)
    (hpos : strstr src rest = some m) :
    ∃ front' rest', rest'.length < rest.length ∧ Closed [src] front' ∧
      dst.length ≤ front'.length ∧
      (front ++ rest).take (m + front.length) ++ dst ++
          (front ++ rest).drop (m + front.length + src.length) = front' ++ rest' ∧
      (strstr src ((front' ++ rest').drop dst.length)).map (· + dst.length) =
        (strstr src rest').map (· + front'.length) ∧
      front ++ replaceAll [⟨src, dst⟩] rest = front' ++ replaceAll [⟨src, dst⟩] rest' := by
  have hname : Marker d src := h.name _ (List.mem_singleton_self _)
  have hword : Marker d dst := h.word _ (List.mem_singleton_self _)
  have hapart : Apart src dst :=
    h.words _ (List.mem_singleton_self _) _ (List.mem_singleton_self _)
  have hm : m ≤ rest.length := (strstr_eq_some.mp hpos).1
  have htake : (front ++ rest).take (m + front.length) = front ++ rest.take m := by
    rw [Nat.add_comm, List.take_length_add_append]
  have hdrop : (front ++ rest).drop (m + front.length + src.length) =
      rest.drop (m + src.length) := by
    rw [show m + front.length + src.length = front.length + (m + src.length) by omega,
      List.drop_length_add_append]
  have hclosed : Closed [src] (front ++ rest.take m ++ dst) := by
    refine closed_of_strstr (s := front ++ rest) hname hword hapart ?_ ?_
    · rw [strstr_append hfront, hpos, List.length_append, List.length_take, Nat.min_eq_left hm,
        Option.map_some, Nat.add_comm]
    · exact List.prefix_append_right_inj front |>.mpr (List.take_prefix m rest)
  have hlen : dst.length ≤ (front ++ rest.take m ++ dst).length := by
    rw [List.length_append]
    exact Nat.le_add_left _ _
  refine ⟨front ++ rest.take m ++ dst, rest.drop (m + src.length), ?_, hclosed, hlen, ?_, ?_, ?_⟩
  · have hfound : m + src.length ≤ rest.length := by
      rw [strstr_split hpos, List.length_append, List.length_append, List.length_take,
        Nat.min_eq_left hm]
      exact Nat.le_add_right _ _
    have hsrc := hname.length_pos
    rw [List.length_drop]
    omega
  · rw [htake, hdrop]
  · rw [List.drop_append_of_le_length hlen, strstr_append (hclosed.drop dst.length),
      Option.map_map, List.length_drop]
    congr 1
    funext n
    simp only [Function.comp_apply]
    omega
  · rw [replaceAll_of_strstr (r := ⟨src, dst⟩) hpos hname.length_pos]
    simp only [List.append_assoc]

theorem replaceAll_of_strstr_none (h : strstr src rest = none) :
    replaceAll [⟨src, dst⟩] rest = rest := by
  refine replaceAll_of_not_infix fun r hr => ?_
  rw [List.mem_singleton.mp hr]
  exact strstr_eq_none.mp h

theorem changeRun_append (h : Rules d [⟨src, dst⟩]) (front rest : Str)
    (hfront : Closed [src] front) :
    ChangeRun src dst (front ++ rest) ((strstr src rest).map (· + front.length))
      (front ++ replaceAll [⟨src, dst⟩] rest) := by
  induction hn : rest.length using Nat.strongRecOn generalizing front rest with
  | ind n ih =>
    cases hpos : strstr src rest with
    | none =>
      rw [replaceAll_of_strstr_none hpos]
      exact .stop _
    | some m =>
      obtain ⟨front', rest', hlt, hfront', hlen, htmp, hnext, heq⟩ := change_turn h hfront hpos
      rw [heq]
      refine .turn htmp.symm (hlen.trans (by simp)) ?_
      rw [hnext]
      exact ih rest'.length (hn ▸ hlt) front' rest' hfront' rfl

theorem changeLoop_append (h : Rules d [⟨src, dst⟩]) (n : Nat) (front rest : Str)
    (hfront : Closed [src] front) (hn : rest.length < n) :
    changeLoop src dst n (front ++ rest) ((strstr src rest).map (· + front.length)) =
      front ++ replaceAll [⟨src, dst⟩] rest := by
  induction n generalizing front rest with
  | zero => exact absurd hn (Nat.not_lt_zero _)
  | succ n ih =>
    cases hpos : strstr src rest with
    | none =>
      rw [replaceAll_of_strstr_none hpos]
      rfl
    | some m =>
      obtain ⟨front', rest', hlt, hfront', -, htmp, hnext, heq⟩ := change_turn h hfront hpos
      rw [Option.map_some, changeLoop, htmp, hnext, heq]
      exact ih front' rest' hfront' (by omega)

theorem closed_nil (names : List Str) : Closed names [] :=
  fun _ _ i hi _ => absurd hi (Nat.not_lt_zero i)

/-- The loop of `change` comes to its end with the rule applied throughout. -/
theorem changeRun (h : Rules d [⟨src, dst⟩]) (str : Str) :
    ChangeRun src dst str (strstr src str) (replaceAll [⟨src, dst⟩] str) := by
  simpa using changeRun_append h [] str (closed_nil [src])

theorem change_eq (h : Rules d [⟨src, dst⟩]) (str : Str) :
    change str src dst = replaceAll [⟨src, dst⟩] str := by
  simpa [change] using changeLoop_append h (str.length + 1) [] str (closed_nil [src])
    (Nat.lt_succ_self _)

end

/-! ## The three spellings -/

def useridRule : Rule := ⟨"/USERID=".toList, "/UID=".toList⟩
def emailAddressRule : Rule := ⟨"/emailAddress=".toList, "/Email=".toList⟩
def eRule : Rule := ⟨"/E=".toList, "/Email=".toList⟩

def spellings : List Rule := [useridRule, emailAddressRule, eRule]

instance (d : Char) (p : Str) : Decidable (Marker d p) :=
  decidable_of_iff (p.head? = some d ∧ d ∉ p.tail) ⟨fun h => ⟨h.1, h.2⟩, fun h => ⟨h.1, h.2⟩⟩

instance (p q : Str) : Decidable (Apart p q) := inferInstanceAs (Decidable (_ ∧ _))

theorem rules_spellings : Rules '/' spellings where
  name := by decide
  word := by decide
  names := by decide
  words := by decide

theorem rules_single {r : Rule} (hr : r ∈ spellings) : Rules '/' [r] := rules_spellings.single hr

theorem normalize_steps (str : Str) : normalize str =
    replaceAll [eRule] (replaceAll [emailAddressRule] (replaceAll [useridRule] str)) := by
  have htmp : change str "/USERID=".toList "/UID=".toList = replaceAll [useridRule] str :=
    change_eq (rules_single (.head _)) str
  have htmp2 (tmp : Str) :
      change tmp "/emailAddress=".toList "/Email=".toList = replaceAll [emailAddressRule] tmp :=
    change_eq (rules_single (.tail _ (.head _))) tmp
  have hresult (tmp2 : Str) :
      change tmp2 "/E=".toList "/Email=".toList = replaceAll [eRule] tmp2 :=
    change_eq (rules_single (.tail _ (.tail _ (.head _)))) tmp2
  rw [normalize, htmp, htmp2, hresult]

theorem normalize_eq (str : Str) : normalize str = replaceAll spellings str := by
  rw [normalize_steps, spellings, rules_spellings.replaceAll_cons,
    rules_spellings.tail.replaceAll_cons]

theorem dncompare_eq_true {first second : Str} :
    dncompare first second = true ↔ normalize first = normalize second := by
  rw [dncompare, Bool.or_eq_true, beq_iff_eq, beq_iff_eq]
  exact ⟨fun h => h.elim (congrArg normalize) id, .inr⟩

/-- `normalize` ends, without a search behind the terminator, with every one
of the three names replaced and none left; a second run changes nothing, and
`dncompare` is an equivalence. -/
theorem normalize_exact (str : Str) :
    (∃ tmp tmp2,
      ChangeRun useridRule.name useridRule.word str (strstr useridRule.name str) tmp ∧
      ChangeRun emailAddressRule.name emailAddressRule.word tmp
        (strstr emailAddressRule.name tmp) tmp2 ∧
      ChangeRun eRule.name eRule.word tmp2 (strstr eRule.name tmp2) (normalize str)) ∧
    normalize str = replaceAll spellings str ∧
    (∀ r ∈ spellings, ¬ r.name <:+: normalize str) ∧
    normalize (normalize str) = normalize str ∧
    Equivalence fun first second => dncompare first second = true := by
  refine ⟨⟨_, _, changeRun (rules_single (.head _)) str,
    changeRun (rules_single (.tail _ (.head _))) _, ?_⟩, normalize_eq str, ?_, ?_, ?_, ?_, ?_⟩
  · rw [normalize_steps]
    exact changeRun (rules_single (.tail _ (.tail _ (.head _)))) _
  · intro r hr
    rw [normalize_eq]
    exact rules_spellings.not_infix_replaceAll hr str
  · rw [normalize_eq, normalize_eq, rules_spellings.replaceAll_replaceAll]
  · exact fun first => dncompare_eq_true.mpr rfl
  · exact fun h => dncompare_eq_true.mpr (dncompare_eq_true.mp h).symm
  · exact fun h h' => dncompare_eq_true.mpr ((dncompare_eq_true.mp h).trans (dncompare_eq_true.mp h'))

example : dncompare "/O=x/E=a".toList "/O=x/emailAddress=a".toList = true := by decide

end Voms.L1
