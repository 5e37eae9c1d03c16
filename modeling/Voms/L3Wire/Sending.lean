import Voms.Core.Bits
import Voms.Core.Str

/-!
# Sending on a non-blocking connection

`do_write` of `src/socklib/io.cc` and `GSISocketServer::Send` over it. What
the world does in one turn of the loop (`select`, `SSL_write`, the clock) is
an `Attempt`; the loop takes one after the other. `sent` is what `SSL_write`
has accepted and belongs to the connection, not to the program.

The loop goes on `while (ret <= 0 && do_continue)`, but `do_continue` is set
only where `ret` is positive: there is one turn (`writeLoop_cons`), and a
write that is cut short or has to be repeated ends it with a positive `ret`.

* `doWrite_honest_iff`: exactly when a `true` means that the text was sent.
-/
namespace Voms.L3.Io

open Voms.Core

/-! ## `do_select` -/

/-- What to wait for: 0, `SSL_ERROR_WANT_READ` or `SSL_ERROR_WANT_WRITE`. -/
inductive Wanted where
  | any | read | write
  deriving DecidableEq, Repr

/-- The time, and what `select` returns and leaves of its two sets. -/
structure Ready where
  curtime : Int
  ret : Int
  rset : Bool
  wset : Bool
  deriving DecidableEq, Repr

/-- Positive if the socket is ready, 0 for a timeout, negative for an error.
mirrors src/socklib/io.cc:62-105 -/
def doSelect (starttime timeout : Int) (wanted : Wanted) (s : Ready) : Int :=
  if timeout ≠ -1 ∧ timeout ≤ s.curtime - starttime then 0
  else if s.ret = 0 then 0
  else if (wanted = .read ∧ s.rset = false) ∨ (wanted = .write ∧ s.wset = false) then -1
  else if s.ret < 0 ∧ (s.rset = false ∨ s.wset = false) then 1
  else s.ret

/-! ## `do_write` -/

/-- What `SSL_write` and `SSL_get_error` make of `num` bytes: it accepts some
of them, or wants to be called again, or fails. -/
inductive Written (num : Int) where
  | accepted (n : Nat) (hpos : 0 < n) (hle : n ≤ num)
  | wantRead
  | wantWrite
  | failed (ret : Int) (hret : ret ≤ 0)

/-- One turn: `curtime` is the time behind `SSL_write`. -/
structure Attempt where
  select : Ready
  write : (num : Int) → Written num
  curtime : Int

/-- The variables of `do_write`, and what the connection has of the text. -/
structure Writing where
  nwritten : Nat
  expected : Wanted
  curtime : Int
  sent : Str
  deriving DecidableEq, Repr

/-- The third argument of `SSL_write`, an `int`. -/
def Writing.num (w : Writing) (str : Str) : Int := (Int32.ofNat (str.length - w.nwritten)).toInt

/-- What the `switch` over `SSL_get_error` makes of a call: `ret`,
`do_continue` and the variables. mirrors src/socklib/io.cc:179-200 -/
def Writing.after (w : Writing) (str : Str) : {num : Int} → Written num → Int × Bool × Writing
  | _, .accepted n _ _ =>
    (n, w.nwritten + n ≠ str.length,
      { w with nwritten := w.nwritten + n, sent := w.sent ++ (str.drop w.nwritten).take n })
  | _, .wantRead => (1, true, { w with expected := .read })
  | _, .wantWrite => (1, true, { w with expected := .write })
  | _, .failed ret _ => (ret, false, w)

/-- One turn of the loop. mirrors src/socklib/io.cc:172-200 -/
def writeTurn (starttime timeout : Int) (str : Str) (w : Writing) (a : Attempt) :
    Int × Bool × Writing :=
  if 0 < doSelect starttime timeout w.expected a.select then
    { w with curtime := a.curtime }.after str (a.write (w.num str))
  else (doSelect starttime timeout w.expected a.select, false, w)

/-- `none` only where the world has no further turn.
mirrors src/socklib/io.cc:171-202 -/
def writeLoop (starttime timeout : Int) (str : Str) : List Attempt → Writing → Option (Int × Writing)
  | [], _ => none
  | a :: attempts, w =>
    match writeTurn starttime timeout str w a with
    | (ret, doContinue, w) =>
      if ret ≤ 0 ∧ doContinue then writeLoop starttime timeout str attempts w else some (ret, w)

/-- The result, the text left in `error` if there is one, and what was sent. -/
structure Sent where
  result : Bool
  error : Option Str
  sent : Str
  deriving DecidableEq, Repr

/-- `opensslError` is the text of `OpenSSLError(true)`.
mirrors src/socklib/io.cc:147-212 -/
def doWrite (ssl : Bool) (timeout starttime : Int) (text opensslError : Str)
    (attempts : List Attempt) : Option Sent :=
  if ssl = false then some ⟨false, some "No connection established".toList, []⟩
  else
    match writeLoop starttime timeout (cStr text) attempts ⟨0, .any, starttime, []⟩ with
    | none => none
    | some (ret, w) =>
      if ret ≤ 0 then
        some ⟨false, some (if timeout ≠ -1 ∧ timeout ≤ w.curtime - starttime then
          "Connection stuck during write: timeout reached.".toList
          else "Error during SSL write:".toList ++ opensslError), w.sent⟩
      else some ⟨true, none, w.sent⟩

/-- mirrors src/include/Server.h:118-142 -/
structure GSISocketServer where
  ssl : Bool
  timeout : Int
  deriving DecidableEq, Repr

/-- The error goes to `SetError`. mirrors src/socklib/Server.cpp:520-531 -/
def GSISocketServer.Send (server : GSISocketServer) (starttime : Int) (s opensslError : Str)
    (attempts : List Attempt) : Option Sent :=
  doWrite server.ssl server.timeout starttime s opensslError attempts

/-! ## The loop -/

variable {ssl : Bool} {timeout starttime : Int} {text str opensslError : Str}

/-- The loop asks for a further turn only with a positive `ret`. -/
theorem after_continues {w : Writing} {num : Int} {a : Written num}
    (h : (w.after str a).2.1 = true) : 0 < (w.after str a).1 := by
  cases a with
  | accepted n hpos _ => exact Int.natCast_pos.mpr hpos
  | wantRead => exact Int.one_pos
  | wantWrite => exact Int.one_pos
  | failed ret _ => cases h

theorem writeTurn_continues {w : Writing} {a : Attempt}
    (h : (writeTurn starttime timeout str w a).2.1 = true) :
    0 < (writeTurn starttime timeout str w a).1 := by
  unfold writeTurn at h ⊢
  split at h
  · next hready =>
    rw [if_pos hready]
    exact after_continues h
  · cases h

/-- So there is no further turn. -/
theorem writeLoop_cons (w : Writing) (a : Attempt) (attempts : List Attempt) :
    writeLoop starttime timeout str (a :: attempts) w =
      some ((writeTurn starttime timeout str w a).1, (writeTurn starttime timeout str w a).2.2) := by
  have hends : ¬ ((writeTurn starttime timeout str w a).1 ≤ 0 ∧
      (writeTurn starttime timeout str w a).2.1 = true) := by
    rintro ⟨hret, hcontinue⟩
    have := writeTurn_continues hcontinue
    omega
  rw [writeLoop]
  simp only [hends, if_false]

/-! ## When `true` means sent -/

/-- A `true` is returned only for a text that was sent. -/
def Honest (text : Str) (o : Option Sent) : Prop :=
  ∀ r, o = some r → r.result = true → r.sent = text

/-- `SSL_write` took the text as a whole, or failed. -/
def Written.Whole {num : Int} (w : Written num) (text : Str) : Prop :=
  match w with
  | .accepted n _ _ => n = text.length
  | .failed _ _ => True
  | .wantRead => False
  | .wantWrite => False

/-- What was accepted is the beginning of the text up to its first NUL. -/
theorem take_cStr_eq {n : Nat} (hle : (n : Int) ≤ (Int32.ofNat (cStr text).length).toInt) :
    (cStr text).take n = text ↔ n = text.length := by
  have hint := toInt_ofNat_le (cStr text).length
  have hlen := length_cStr_le text
  constructor
  · intro h
    have htake := congrArg List.length h
    rw [List.length_take] at htake
    omega
  · intro hn
    have hwhole : cStr text = text :=
      (List.takeWhile_prefix _).eq_of_length (show (cStr text).length = text.length by omega)
    rw [hwhole, hn, List.take_length]

/-- One call of `SSL_write`, at the start. -/
theorem after_honest {num : Int} (a : Written num)
    (hnum : num = (Int32.ofNat (cStr text).length).toInt) {w : Writing} (hn : w.nwritten = 0)
    (hs : w.sent = []) :
    (0 < (w.after (cStr text) a).1 → (w.after (cStr text) a).2.2.sent = text) ↔
      text = [] ∨ a.Whole text := by
  cases a with
  | accepted n hpos hle =>
    have hsent : (w.after (cStr text) (.accepted n hpos hle : Written num)).2.2.sent =
        (cStr text).take n := by
      show w.sent ++ ((cStr text).drop w.nwritten).take n = _
      rw [hs, hn, List.nil_append, List.drop_zero]
    rw [hsent, take_cStr_eq (hnum ▸ hle)]
    have hret : 0 < (w.after (cStr text) (.accepted n hpos hle : Written num)).1 :=
      Int.natCast_pos.mpr hpos
    rw [forall_prop_of_true hret]
    -- `SSL_write` accepts nothing of an empty text
    refine ⟨Or.inr, fun h => h.elim (fun hempty => ?_) id⟩
    subst hempty
    rw [hnum] at hle
    have : (Int32.ofNat (cStr ([] : Str)).length).toInt = 0 := rfl
    omega
  | wantRead =>
    refine ⟨fun h => Or.inl ?_, fun h _ => ?_⟩
    · exact (h Int.one_pos).symm.trans hs
    · rcases h with rfl | h
      · exact hs
      · exact h.elim
  | wantWrite =>
    refine ⟨fun h => Or.inl ?_, fun h _ => ?_⟩
    · exact (h Int.one_pos).symm.trans hs
    · rcases h with rfl | h
      · exact hs
      · exact h.elim
  | failed ret hret =>
    refine iff_of_true (fun h => ?_) (Or.inr trivial)
    exact absurd h (Int.not_lt.mpr hret)

/-- The call of the first turn. -/
def Attempt.first (a : Attempt) (text : Str) : Written (Int32.ofNat (cStr text).length).toInt :=
  a.write (Int32.ofNat (cStr text).length).toInt

theorem firstTurn_honest (text : Str) (a : Attempt) :
    (0 < (writeTurn starttime timeout (cStr text) ⟨0, .any, starttime, []⟩ a).1 →
      (writeTurn starttime timeout (cStr text) ⟨0, .any, starttime, []⟩ a).2.2.sent = text) ↔
    text = [] ∨ doSelect starttime timeout .any a.select ≤ 0 ∨ (a.first text).Whole text := by
  unfold writeTurn
  split
  · next hready =>
    have hnot : ¬ doSelect starttime timeout .any a.select ≤ 0 := Int.not_le.mpr hready
    rw [or_iff_right hnot]
    exact after_honest (a.first text) rfl rfl rfl
  · next hready => exact iff_of_true (fun h => absurd h hready) (Or.inr (Or.inl (Int.not_lt.mp hready)))

/-- What `do_write` returns after its one turn. -/
theorem doWrite_result {a : Attempt} {attempts : List Attempt} {r : Sent}
    (h : doWrite true timeout starttime text opensslError (a :: attempts) = some r) :
    (r.result = true ↔
      0 < (writeTurn starttime timeout (cStr text) ⟨0, .any, starttime, []⟩ a).1) ∧
    r.sent = (writeTurn starttime timeout (cStr text) ⟨0, .any, starttime, []⟩ a).2.2.sent := by
  unfold doWrite at h
  rw [if_neg (by decide), writeLoop_cons] at h
  simp only at h
  split at h
  · next hret =>
    cases h
    exact ⟨iff_of_false Bool.false_ne_true (by omega), rfl⟩
  · next hret =>
    cases h
    exact ⟨iff_of_true rfl (by omega), rfl⟩

theorem doWrite_returns (a : Attempt) (attempts : List Attempt) :
    ∃ r, doWrite true timeout starttime text opensslError (a :: attempts) = some r := by
  unfold doWrite
  rw [if_neg (by decide), writeLoop_cons]
  simp only
  split <;> exact ⟨_, rfl⟩

/-- **A `true` means that the text was sent exactly if the first turn finds no
socket ready, or `SSL_write` fails there or takes the whole text.** -/
theorem doWrite_honest_iff (ssl : Bool) (timeout starttime : Int) (text opensslError : Str)
    (attempts : List Attempt) :
    Honest text (doWrite ssl timeout starttime text opensslError attempts) ↔
      ssl = false ∨ text = [] ∨ ∀ a, attempts.head? = some a →
        doSelect starttime timeout .any a.select ≤ 0 ∨ (a.first text).Whole text := by
  cases ssl with
  | false =>
    refine iff_of_true (fun r h hr => ?_) (Or.inl rfl)
    cases h
    cases hr
  | true =>
    rw [or_iff_right (by decide)]
    cases attempts with
    | nil => exact iff_of_true nofun (Or.inr nofun)
    | cons a attempts =>
      have hturn := @firstTurn_honest timeout starttime text a
      simp only [List.head?_cons, Option.some.injEq, forall_eq']
      rw [← hturn]
      constructor
      · intro h hret
        obtain ⟨r, hr⟩ := @doWrite_returns timeout starttime text opensslError a attempts
        obtain ⟨hresult, hsent⟩ := doWrite_result hr
        rw [← hsent]
        exact h r hr (hresult.mpr hret)
      · intro h r hr hresult
        obtain ⟨hret, hsent⟩ := doWrite_result hr
        rw [hsent]
        exact h (hret.mp hresult)

namespace Sample

/-- The socket is ready at once. -/
def ready : Ready := ⟨0, 1, true, true⟩

/-- `SSL_write` wants to be called again. -/
def again : Attempt := ⟨ready, fun _ => .wantWrite, 0⟩

/-- `SSL_write` takes one byte, if there is one. -/
def oneByte : Attempt :=
  ⟨ready, fun num => if h : 1 ≤ num then .accepted 1 (by decide) h else .failed (-1) (by decide), 0⟩

/-- A server with a client. -/
def server : GSISocketServer := ⟨true, -1⟩

end Sample

/-- Nothing, one byte of two, and the text up to its NUL are sent, and `Send`
says `true`. -/
theorem send_lies :
    Sample.server.Send 0 "ab".toList [] [Sample.again] = some ⟨true, none, []⟩ ∧
    Sample.server.Send 0 "ab".toList [] [Sample.oneByte] = some ⟨true, none, "a".toList⟩ ∧
    Sample.server.Send 0 ['a', '\x00', 'b'] [] [Sample.oneByte] = some ⟨true, none, "a".toList⟩ ∧
    ¬ Honest "ab".toList (doWrite true (-1) 0 "ab".toList [] [Sample.again]) := by
  refine ⟨rfl, rfl, rfl, fun h => ?_⟩
  have hsent := h ⟨true, none, []⟩ rfl rfl
  cases hsent

end Voms.L3.Io
