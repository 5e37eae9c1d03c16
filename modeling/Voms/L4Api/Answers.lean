import Voms.L3Wire.Document
import Voms.L4Api.Session

/-!
# What the client makes of an answer

`InterpretOutput` (`src/api/ccapi/voms_api.cc`) looks at the errors of an
answer only next to an AC. `interpretOutput_reports_iff`: it tells success
from failure, and keeps the messages of a failure, exactly if every answer
that is decoded has an AC, or has data and no error.
-/
namespace Voms.L4

open Voms.Core Voms.L2 Voms.L3

/-- An error, and not only warnings. -/
def Severe (a : Answer) : Prop := ∃ e ∈ a.errs, ERROR_OFFSET < e.num

instance (a : Answer) : Decidable (Severe a) := by
  unfold Severe
  infer_instance

/-! ## The loop over the errors -/

theorem noteErrors_serverrors : ∀ (errs : List Errorp) (result : Bool) (s : VomsData),
    (noteErrors errs result s).2.serverrors = s.serverrors ++ errs.flatMap (·.message)
  | [], _, s => by simp [noteErrors]
  | e :: errs, result, s => by
    unfold noteErrors
    rw [noteErrors_serverrors, List.flatMap_cons]
    split
    · simp [VomsData.seterror]
    · simp

theorem noteErrors_verType : ∀ (errs : List Errorp) (result : Bool) (s : VomsData),
    (noteErrors errs result s).2.verType = s.verType
  | [], _, _ => rfl
  | e :: errs, result, s => by
    unfold noteErrors
    rw [noteErrors_verType]
    split <;> rfl

/-- One error is enough. -/
theorem noteErrors_result : ∀ (errs : List Errorp) (result : Bool) (s : VomsData),
    (noteErrors errs result s).1 = true ↔
      result = true ∧ ¬ ∃ e ∈ errs, ERROR_OFFSET < e.num
  | [], result, s => by simp [noteErrors]
  | e :: errs, result, s => by
    unfold noteErrors
    simp only
    rw [noteErrors_result]
    simp only [Bool.and_eq_true, Bool.not_eq_true', decide_eq_false_iff_not, List.mem_cons,
      exists_eq_or_imp, not_or, and_assoc]

/-! ## One answer -/

/-- What the caller is told about a decoded answer. -/
structure Reports (a : Answer) (ret : Bool) (s : VomsData) : Prop where
  /-- An error is a failure, and its text is kept. -/
  refused : Severe a → ret = false ∧ ∀ e ∈ a.errs, e.message <:+: s.serverrors
  /-- Success means that there is something and no error. -/
  accepted : ret = true → (a.ac ≠ [] ∨ a.data ≠ []) ∧ ¬ Severe a

/-- `InterpretOutput` returns, and what it returns fits the answer. -/
def Interprets (X : Wire) (message output : Str) (s : VomsData) : Prop :=
  ∃ d ret out s', xmlAnsDecode X message = .ok d ∧
    interpretOutput X message output s = .ok (ret, out, s') ∧
    (d = none → ret = false) ∧ ∀ a, d = some a → Reports a ret s'

theorem interpretOutput_undecoded {X : Wire} {message output : Str} {s : VomsData}
    (h : xmlAnsDecode X message = .ok none) :
    ∃ s', interpretOutput X message output s = .ok (false, output, s') := by
  unfold interpretOutput
  rw [h]
  exact ⟨_, rfl⟩

/-- With an AC the errors decide. -/
theorem interpretOutput_ac {X : Wire} {message output : Str} {s : VomsData} {a : Answer}
    (h : xmlAnsDecode X message = .ok (some a)) (hv : s.verType ≠ 0) (hac : a.ac ≠ []) :
    ∃ out s', interpretOutput X message output s = .ok (decide (¬ Severe a), out, s') ∧
      s'.serverrors = s.serverrors ++ a.errs.flatMap (·.message) := by
  have hresult : (noteErrors a.errs true s).1 = decide (¬ Severe a) := by
    rw [Bool.eq_iff_iff, noteErrors_result, decide_eq_true_eq]
    exact and_iff_right rfl
  have hserver := noteErrors_serverrors a.errs true s
  have htype := noteErrors_verType a.errs true s
  unfold interpretOutput noteAnswer
  rw [h]
  simp only [Res.ok_bind, if_neg hac]
  generalize noteErrors a.errs true s = noted at hresult hserver htype
  obtain ⟨result, s'⟩ := noted
  simp only at hresult hserver htype ⊢
  rw [hresult, htype]
  by_cases hsevere : Severe a
  · rw [if_pos ⟨by simpa using hsevere, hv⟩, decide_eq_false (not_not.mpr hsevere)]
    exact ⟨_, _, rfl, hserver⟩
  · rw [if_neg (fun e => e.1 (by simpa using hsevere)), decide_eq_true hsevere]
    exact ⟨_, _, rfl, hserver⟩

/-- Without an AC every answer is a success. -/
theorem interpretOutput_noAc {X : Wire} {message output : Str} {s : VomsData} {a : Answer}
    (h : xmlAnsDecode X message = .ok (some a)) (hac : a.ac = []) :
    ∃ out, interpretOutput X message output s = .ok (true, out, s) := by
  unfold interpretOutput noteAnswer
  rw [h]
  simp only [Res.ok_bind, if_pos hac, not_true_eq_false, false_and, if_false]
  exact ⟨_, rfl⟩

theorem message_infix {errs : List Errorp} {e : Errorp} (before : Str) (he : e ∈ errs) :
    e.message <:+: before ++ errs.flatMap (·.message) := by
  obtain ⟨front, back, rfl⟩ := List.append_of_mem he
  refine ⟨before ++ front.flatMap (·.message), back.flatMap (·.message), ?_⟩
  simp

/-- **What the client is told fits the answer exactly if there is an AC, or
data and no error.** -/
theorem interpretOutput_reports_iff {X : Wire} {message output : Str} {s : VomsData}
    (hv : s.verType ≠ 0) :
    Interprets X message output s ↔
      ∃ d, xmlAnsDecode X message = .ok d ∧
        ∀ a, d = some a → a.ac ≠ [] ∨ (a.data ≠ [] ∧ ¬ Severe a) := by
  rcases evalCases (xmlAnsDecode X message) with ⟨d, hd⟩ | ⟨f, hf⟩
  · simp only [Interprets, hd, Res.ok.injEq, exists_eq_left', exists_and_left]
    cases d with
    | none =>
      obtain ⟨s', hs'⟩ := @interpretOutput_undecoded X message output s hd
      refine ⟨fun _ => nofun, fun _ => ⟨false, output, s', hs', fun _ => rfl, nofun⟩⟩
    | some a =>
      by_cases hac : a.ac = []
      · obtain ⟨out, hout⟩ := @interpretOutput_noAc X message output s a hd hac
        refine ⟨?_, fun h => ⟨true, out, s, hout, nofun, ?_⟩⟩
        · rintro ⟨ret, out', s', hret, -, hreports⟩ b hb
          cases hb
          rw [hout] at hret
          cases hret
          obtain ⟨hsome, hclean⟩ := (hreports a rfl).accepted rfl
          exact Or.inr ⟨hsome.resolve_left (fun h => h hac), hclean⟩
        · intro b hb
          cases hb
          obtain ⟨hdata, hclean⟩ := (h a rfl).resolve_left (fun h => h hac)
          exact ⟨fun h => absurd h hclean, fun _ => ⟨Or.inr hdata, hclean⟩⟩
      · obtain ⟨out, s', hout, hserver⟩ := @interpretOutput_ac X message output s a hd hv hac
        refine ⟨fun _ b hb => ?_, fun _ => ⟨_, out, s', hout, nofun, ?_⟩⟩
        · cases hb
          exact Or.inl hac
        · intro b hb
          cases hb
          refine ⟨fun h => ⟨by simp [h], fun e he => ?_⟩, fun h => ⟨Or.inl hac, by simpa using h⟩⟩
          rw [hserver]
          exact message_infix _ he
  · constructor
    · rintro ⟨d, ret, out, s', hd, -⟩
      rw [hf] at hd
      cases hd
    · rintro ⟨d, hd, -⟩
      rw [hf] at hd
      cases hd

namespace Sample

def restProlog : Str := "<?xml version=\"1.0\" encoding=\"UTF-8\"?>".toList

def answers : Wire where
  expat := plainParser restProlog
  base64Decode := id

/-- A failed request of which a parameter was not known. -/
def warningOnly : Document :=
  element "voms".toList (leaf "warning".toList
    "Unknown parameters in the request were ignored!".toList)

/-- An error next to data. -/
def errorWithData : Document :=
  element "vomsans".toList (leaf "version".toList "3".toList ++
    element "error".toList (element "item".toList
      (leaf "number".toList "1001".toList ++
        leaf "message".toList "vo: User unknown to this VO.".toList)) ++
    leaf "bitstr".toList "ywe".toList)

/-- An AC with a warning. -/
def warningWithAc : Document :=
  element "voms".toList (leaf "ac".toList "ywe".toList ++ leaf "warning".toList "short".toList)

end Sample

/-- An answer with an AC is told apart from a failure. -/
theorem interpretOutput_reports_sample :
    Interprets Sample.answers (Sample.restProlog ++ render Sample.warningWithAc) [] (.new []) :=
  (interpretOutput_reports_iff (by decide)).mpr ⟨_, rfl, by decide⟩

/-- Two answers without an AC count as success: one with nothing but a
warning, and one with an error whose text is dropped. -/
theorem interpretOutput_noAc_success :
    (interpretOutput Sample.answers (Sample.restProlog ++ render Sample.warningOnly) [] (.new []) =
        .ok (true, [], .new []) ∧
      ¬ Interprets Sample.answers (Sample.restProlog ++ render Sample.warningOnly) [] (.new [])) ∧
    interpretOutput Sample.answers (Sample.restProlog ++ render Sample.errorWithData) [] (.new []) =
        .ok (true, "aa".toList, .new []) ∧
      ¬ Interprets Sample.answers (Sample.restProlog ++ render Sample.errorWithData) []
        (.new []) := by
  refine ⟨⟨rfl, ?_⟩, rfl, ?_⟩
  · rintro ⟨d, ret, out, s', hd, hrun, -, hreports⟩
    cases hd
    cases hrun
    exact absurd ((hreports _ rfl).accepted rfl).1 (by decide)
  · rintro ⟨d, ret, out, s', hd, hrun, -, hreports⟩
    cases hd
    cases hrun
    exact absurd ((hreports _ rfl).accepted rfl).2 (by decide)

end Voms.L4
