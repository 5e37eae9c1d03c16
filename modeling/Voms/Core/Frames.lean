import Mathlib.Data.List.Basic

/-!
# Streams of frames

A frame is a header followed by a payload. `wire fs` is what a sequence of
frames is on the wire, `content fs n` the payload among the first `n`
elements of it, and `Position fs n cur rest` says where `n` elements lead:
`cur` is what is left of the payload of the frame that has been begun (`[]`
at the end of a frame) and `rest` the frames that have not been begun.

A reader keeps its place by two rules: within a payload (`Position.read`),
and from the end of a frame over the next header into the next payload
(`Position.next`). Each says what `content` gains. `content_all` is the whole
stream.
-/
namespace Voms.Core.Frames

variable {α : Type}

/-- A header and a payload. -/
abbrev Frame (α : Type) := List α × List α

def wire (fs : List (Frame α)) : List α := fs.flatMap fun f => f.1 ++ f.2

def payload (fs : List (Frame α)) : List α := fs.flatMap Prod.snd

/-- The payload among the first `n` elements of the wire. -/
def content : List (Frame α) → Nat → List α
  | [], _ => []
  | f :: fs, n => f.2.take (n - f.1.length) ++ content fs (n - f.1.length - f.2.length)

inductive Position : List (Frame α) → Nat → List α → List (Frame α) → Prop where
  | start (fs : List (Frame α)) : Position fs 0 [] fs
  | inside {f : Frame α} {fs : List (Frame α)} {a cur : List α} (h : f.2 = a ++ cur) :
      Position (f :: fs) (f.1.length + a.length) cur fs
  | skip {f : Frame α} {fs rest : List (Frame α)} {n : Nat} {cur : List α}
      (h : Position fs n cur rest) : Position (f :: fs) (f.1.length + f.2.length + n) cur rest

@[simp] theorem wire_nil : wire ([] : List (Frame α)) = [] := rfl

@[simp] theorem wire_cons (f : Frame α) (fs : List (Frame α)) :
    wire (f :: fs) = f.1 ++ (f.2 ++ wire fs) := by
  simp [wire]

@[simp] theorem payload_cons (f : Frame α) (fs : List (Frame α)) :
    payload (f :: fs) = f.2 ++ payload fs := by
  simp [payload]

theorem content_cons (f : Frame α) (fs : List (Frame α)) (n : Nat) :
    content (f :: fs) n =
      f.2.take (n - f.1.length) ++ content fs (n - f.1.length - f.2.length) := rfl

@[simp] theorem content_zero (fs : List (Frame α)) : content fs 0 = [] := by
  induction fs with
  | nil => rfl
  | cons f fs ih => simp [content_cons, ih]

/-- Inside the first frame, what has been read of its payload. -/
theorem content_inside {f : Frame α} {a cur : List α} (h : f.2 = a ++ cur)
    (fs : List (Frame α)) : content (f :: fs) (f.1.length + a.length) = a := by
  have hsub : a.length - f.2.length = 0 := by rw [h, List.length_append]; omega
  rw [content_cons, Nat.add_sub_cancel_left, hsub, content_zero, h, List.take_left, List.append_nil]

/-- Past the first frame, its whole payload and then that of the others. -/
theorem content_skip (f : Frame α) (fs : List (Frame α)) (n : Nat) :
    content (f :: fs) (f.1.length + f.2.length + n) = f.2 ++ content fs n := by
  have h1 : f.1.length + f.2.length + n - f.1.length = f.2.length + n := by omega
  have h2 : f.2.length + n - f.2.length = n := by omega
  rw [content_cons, h1, h2, List.take_of_length_le (by omega)]

theorem content_all (fs : List (Frame α)) : content fs (wire fs).length = payload fs := by
  induction fs with
  | nil => rfl
  | cons f fs ih =>
    rw [wire_cons, List.length_append, List.length_append, ← Nat.add_assoc, content_skip, ih,
      payload_cons]

theorem content_length_le (fs : List (Frame α)) (n : Nat) : (content fs n).length ≤ n := by
  induction fs generalizing n with
  | nil => exact Nat.zero_le _
  | cons f fs ih =>
    have h := ih (n - f.1.length - f.2.length)
    rw [content_cons, List.length_append, List.length_take]
    omega

/-- A header is not payload. -/
theorem content_header {f : Frame α} {fs : List (Frame α)} {n : Nat} (hf : 0 < f.1.length)
    (hn : 0 < n) : (content (f :: fs) n).length < n := by
  have h := content_length_le fs (n - f.1.length - f.2.length)
  rw [content_cons, List.length_append, List.length_take]
  omega

/-- What two ways of cutting one list share: the shorter front is part of the longer one. -/
theorem cut {a u cur v : List α} (h : a ++ u = cur ++ v) (hle : a.length ≤ cur.length) :
    ∃ cur', cur = a ++ cur' ∧ u = cur' ++ v := by
  rcases List.append_eq_append_iff.mp h with ⟨c, hc, hu⟩ | ⟨c, ha, hv⟩
  · exact ⟨c, hc, hu⟩
  · have hc : c = [] := by
      have hlen := congrArg List.length ha
      rw [List.length_append] at hlen
      exact List.eq_nil_of_length_eq_zero (by omega)
    subst hc
    exact ⟨[], by simpa using ha.symm, by simpa using hv.symm⟩

namespace Position

/-- What is left on the wire. -/
theorem drop {fs rest : List (Frame α)} {n : Nat} {cur : List α} (h : Position fs n cur rest) :
    (wire fs).drop n = cur ++ wire rest := by
  induction h with
  | start fs => rfl
  | @inside f fs a cur h =>
    rw [wire_cons, List.drop_length_add_append, h, List.append_assoc, List.drop_left]
  | @skip f fs rest n cur _ ih =>
    rw [wire_cons, Nat.add_assoc, List.drop_length_add_append, List.drop_length_add_append, ih]

theorem le {fs rest : List (Frame α)} {n : Nat} {cur : List α} (h : Position fs n cur rest) :
    n ≤ (wire fs).length := by
  induction h with
  | start fs => exact Nat.zero_le _
  | @inside f fs a cur h =>
    rw [wire_cons, h]
    simp only [List.length_append]
    omega
  | @skip f fs rest n cur _ ih =>
    rw [wire_cons]
    simp only [List.length_append]
    omega

/-- The frames that have not been begun are frames of the stream. -/
theorem mem {fs rest : List (Frame α)} {n : Nat} {cur : List α} (h : Position fs n cur rest)
    {f : Frame α} (hf : f ∈ rest) : f ∈ fs := by
  induction h with
  | start fs => exact hf
  | inside h => exact List.mem_cons_of_mem _ hf
  | skip _ ih => exact List.mem_cons_of_mem _ (ih hf)

/-- What is gained from a position on depends on what is left. -/
theorem content_add {fs rest : List (Frame α)} {n : Nat} {cur : List α}
    (h : Position fs n cur rest) (m : Nat) :
    content fs (n + m) = content fs n ++ content (([], cur) :: rest) m := by
  induction h with
  | start fs => rw [Nat.zero_add, content_zero, content_cons]; simp
  | @inside f fs a cur h =>
    have hlen : f.2.length = a.length + cur.length := by rw [h, List.length_append]
    have h1 : f.1.length + a.length + m - f.1.length = a.length + m := by omega
    have h2 : a.length + m - f.2.length = m - cur.length := by omega
    rw [content_inside h, content_cons, h1, h2, h, List.take_length_add_append, content_cons]
    simp
  | @skip f fs rest n cur _ ih =>
    rw [Nat.add_assoc, content_skip, ih, content_skip, List.append_assoc]

/-- **Reading within a payload.** -/
theorem read {fs rest : List (Frame α)} {n : Nat} {a cur : List α}
    (h : Position fs n (a ++ cur) rest) :
    Position fs (n + a.length) cur rest ∧
      content fs (n + a.length) = content fs n ++ a := by
  generalize hw : a ++ cur = w at h
  induction h with
  | start fs =>
    obtain ⟨rfl, rfl⟩ := List.append_eq_nil_iff.mp hw
    exact ⟨.start fs, by simp⟩
  | @inside f fs b w h =>
    subst hw
    have h' : f.2 = (b ++ a) ++ cur := by rw [h, List.append_assoc]
    have hn : f.1.length + b.length + a.length = f.1.length + (b ++ a).length := by
      rw [List.length_append, Nat.add_assoc]
    rw [hn, content_inside h' fs, content_inside h fs]
    exact ⟨.inside h', rfl⟩
  | @skip f fs rest n w _ ih =>
    obtain ⟨hp, hc⟩ := ih hw
    rw [Nat.add_assoc, content_skip, content_skip, hc, List.append_assoc]
    exact ⟨.skip hp, rfl⟩

/-- **Reading over the next header.** -/
theorem next {fs rest : List (Frame α)} {f : Frame α} {n : Nat} {a cur : List α}
    (h : Position fs n [] (f :: rest)) (hf : f.2 = a ++ cur) :
    Position fs (n + (f.1.length + a.length)) cur rest ∧
      content fs (n + (f.1.length + a.length)) = content fs n ++ a := by
  generalize hw : ([] : List α) = w at h
  generalize hr : f :: rest = r at h
  induction h with
  | start fs =>
    subst hr
    rw [Nat.zero_add, content_inside hf rest, content_zero]
    exact ⟨.inside hf, rfl⟩
  | @inside g fs b w h =>
    subst hw hr
    have hb : b.length = g.2.length := by rw [h, List.append_nil]
    rw [content_inside h, hb, content_skip, content_inside hf rest]
    exact ⟨.skip (.inside hf), by rw [h, List.append_nil]⟩
  | @skip g fs r n w _ ih =>
    obtain ⟨hp, hc⟩ := ih hw hr
    rw [Nat.add_assoc, content_skip, content_skip, hc, List.append_assoc]
    exact ⟨.skip hp, rfl⟩

end Position

end Voms.Core.Frames
