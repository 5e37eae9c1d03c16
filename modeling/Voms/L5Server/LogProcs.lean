import Voms.Core.Interleave
import Voms.L5Server.LogRotate

/-!
# Processes that write one log

`vomsd` forks a process for each connection (`VOMSServer::Run`), and all of
them write the same log: each call of `fileoutputter` (`src/log/fs.c`) may
rotate it, with no other synchronisation than the file `name-lck`.

`Turn` is what a process does between two system calls, in `logfile_rotate`,
`filereopen` and `fileoutputter`; the processes take turns in any order, fork
and are killed at any place.

* `logs_kept`: as long as the directory can be opened and no rename of an old
  log is refused, no rename hits a file. Every log keeps a place, in the same
  order, with all that was ever written to it.
* `written_kept`: what a process has written is in one of the logs ever after.
* `stale_lock`: at most one process rotates; if it is killed the lock stays,
  and no log is moved again.
* `logfileRotate_turns`: a process whose rotation nobody disturbs does what
  `logfileRotate` does.

The position that `lseek` returns is any: forked processes share it. Where
`i+1` is no `int` the code has no meaning and a process no turn. No two paths
are one file.
-/
namespace Voms.L5.LogProcs

open Voms.Core

/-- `name-lck`. -/
def lock (name : Str) : Str := name ++ "-lck".toList

/-- The file at each path, what is in each file, and the next new one. -/
structure Files where
  paths : Fs Nat
  text : Nat → Str
  next : Nat

def Files.move (files : Files) (paths : Fs Nat) : Files := { files with paths := paths }

/-- `open` with `O_CREAT` where there is no file. -/
def Files.create (files : Files) (path : Str) : Files where
  paths := files.paths.set path (some files.next)
  text := Function.update files.text files.next []
  next := files.next + 1

/-- `write` with `O_APPEND`. -/
def Files.append (files : Files) (file : Nat) (text : Str) : Files :=
  { files with text := Function.update files.text file (files.text file ++ text) }

/-- What a process is about to do; the record is `s`, with the date in it. -/
inductive Pc where
  | idle
  | lock (s : Str)
  | scan (s : Str)
  | shift (s : Str) (i : Nat)
  | last (s : Str)
  | unlock (s : Str) (result : Bool)
  | reopen (s : Str)
  | note (s : Str)
  | write (rest : Str)

/-- `fd` is the file that the descriptor is open on. -/
structure Proc where
  fd : Nat
  pc : Pc

/-- A system call and how it ends. -/
inductive Act where
  | call (s : Str) (full : Bool)
  | locked (ok : Bool)
  | listed (entries : Option (List Str))
  | shifted (ok : Bool)
  | renamed (ok : Bool)
  | unlocked
  | opened (ok : Bool)
  | noted (written : Nat)
  | wrote (written : Option Nat)

/-- What `readdir` shows while others may create the log itself. -/
def Shows (name : Str) (fs : Fs Nat) (entries : List Str) : Prop :=
  ∀ e, e ≠ (splitName name).2 → (e ∈ entries ↔ e = ".".toList ∨ e = "..".toList ∨
    (e ≠ [] ∧ '/' ∉ e ∧ fs (dirPart name ++ e) ≠ none))

/-- The highest suffix, or 0 if the directory cannot be opened. -/
def highestOf (name : Str) : Option (List Str) → Int
  | none => 0
  | some entries => highest name entries

def rotationError : Str := "VOMS: LOGGING ROTATION ERROR\n".toList

/-- The next thing after `name.(i+1)` has been renamed. -/
def afterShift (s : Str) : Nat → Pc
  | 0 => .last s
  | i + 1 => .shift s (i + 1)

/-- mirrors src/log/fs.c:69-140, 213-302 -/
inductive Turn (name : Str) : Proc → Files → Act → Proc → Files → Prop where
  | call {fd files} (s : Str) (full : Bool) :
      Turn name ⟨fd, .idle⟩ files (.call s full) ⟨fd, if full then .lock s else .write s⟩ files
  | locked {fd files s} (free : files.paths (lock name) = none) :
      Turn name ⟨fd, .lock s⟩ files (.locked true) ⟨fd, .scan s⟩ (files.create (lock name))
  | noLock {fd files s} :
      Turn name ⟨fd, .lock s⟩ files (.locked false) ⟨fd, .note s⟩ files
  | listed {fd files s entries} (shows : ∀ l, entries = some l → Shows name files.paths l) :
      Turn name ⟨fd, .scan s⟩ files (.listed entries)
        ⟨fd, afterShift s (highestOf name entries).toNat⟩ files
  | shifted {fd files s i} (ok : Bool) (int : i + 2 < 2 ^ 31) :
      Turn name ⟨fd, .shift s (i + 1)⟩ files (.shifted ok) ⟨fd, afterShift s i⟩
        (files.move (if ok then files.paths.rename (numbered name (i + 1)) (numbered name (i + 2))
          else files.paths))
  | renamed {fd files s} (ok : Bool) :
      Turn name ⟨fd, .last s⟩ files (.renamed ok)
        ⟨fd, .unlock s ((files.paths name).isSome && ok)⟩
        (files.move (if ok then files.paths.rename name (numbered name 1) else files.paths))
  | unlocked {fd files s result} :
      Turn name ⟨fd, .unlock s result⟩ files .unlocked
        ⟨fd, if result then .reopen s else .note s⟩ (files.move (files.paths.set (lock name) none))
  | opened {fd files s file} (found : files.paths name = some file) :
      Turn name ⟨fd, .reopen s⟩ files (.opened true) ⟨file, .write s⟩ files
  | created {fd files s} (missing : files.paths name = none) :
      Turn name ⟨fd, .reopen s⟩ files (.opened true) ⟨files.next, .write s⟩ (files.create name)
  | notOpened {fd files s} :
      Turn name ⟨fd, .reopen s⟩ files (.opened false) ⟨fd, .note s⟩ files
  | noted {fd files s} (written : Nat) :
      Turn name ⟨fd, .note s⟩ files (.noted written) ⟨fd, .write s⟩
        (files.append fd (rotationError.take written))
  | wrote {fd files rest written} (le : written ≤ rest.length) :
      Turn name ⟨fd, .write rest⟩ files (.wrote (some written))
        ⟨fd, if written = rest.length then .idle else .write (rest.drop written)⟩
        (files.append fd (rest.take written))
  | notWritten {fd files rest} :
      Turn name ⟨fd, .write rest⟩ files (.wrote none) ⟨fd, .idle⟩ files

/-- The child has the descriptor of its parent. -/
def Forks (parent child : Proc) : Prop := parent.pc = .idle ∧ child = parent

abbrev World : Type := Interleave.World Files Proc

abbrev Step (name : Str) : World → Interleave.Event Act → World → Prop :=
  Interleave.Step (Turn name) Forks

/-- The directory is opened, and old logs can be renamed. -/
def Fine : Act → Prop
  | .listed entries => entries ≠ none
  | .shifted ok => ok = true
  | _ => True

/-! ## What is kept -/

/-- The logs keep their order and their text, and no other file is touched. -/
structure Kept (name : Str) (files files' : Files) : Prop where
  logs : ∃ moved : Nat → Nat,
    (∀ i j, i < j → j < 2 ^ 31 → files.paths (place name i) ≠ none →
      files.paths (place name j) ≠ none → moved i < moved j) ∧
    ∀ i file, i < 2 ^ 31 → files.paths (place name i) = some file →
      i ≤ moved i ∧ moved i < 2 ^ 31 ∧ files'.paths (place name (moved i)) = some file
  others : ∀ q, ¬ Logs name q → q ≠ lock name → files'.paths q = files.paths q
  text : ∀ i file, i < 2 ^ 31 → files.paths (place name i) = some file →
    files.text file <+: files'.text file

/-- A number given to a file is not given again. -/
def Fresh (files : Files) : Prop := ∀ q file, files.paths q = some file → file < files.next

section

variable {name : Str} {files files' files'' : Files}

theorem place_logs {i : Nat} (h : i < 2 ^ 31) : Logs name (place name i) := by
  cases i with
  | zero => exact .base
  | succ i => exact .old (Nat.succ_pos i) h

theorem place_ne_lock {i : Nat} (h : i < 2 ^ 31) : place name i ≠ lock name :=
  lock_not_logs (place_logs h)

theorem Kept.refl (name : Str) (files : Files) : Kept name files files where
  logs := ⟨id, fun _ _ h _ _ _ => h, fun _ _ h hfile => ⟨Nat.le_refl _, h, hfile⟩⟩
  others := fun _ _ _ => rfl
  text := fun _ _ _ _ => List.prefix_rfl

theorem Kept.trans (h : Kept name files files') (h' : Kept name files' files'') :
    Kept name files files'' := by
  obtain ⟨f, hmono, hf⟩ := h.logs
  obtain ⟨g, hmono', hg⟩ := h'.logs
  have hthere : ∀ i, i < 2 ^ 31 → files.paths (place name i) ≠ none →
      f i < 2 ^ 31 ∧ files'.paths (place name (f i)) ≠ none := by
    intro i hi hne
    obtain ⟨file, hfile⟩ := Option.ne_none_iff_exists'.mp hne
    obtain ⟨-, hlt, hfile'⟩ := hf i file hi hfile
    exact ⟨hlt, by simp [hfile']⟩
  refine ⟨⟨g ∘ f, fun i j hij hj hi' hj' => ?_, fun i file hi hfile => ?_⟩, fun q hq hlock => ?_,
    fun i file hi hfile => ?_⟩
  · exact hmono' _ _ (hmono i j hij hj hi' hj') (hthere j hj hj').1 (hthere i (by omega) hi').2
      (hthere j hj hj').2
  · obtain ⟨hle, hlt, hfile'⟩ := hf i file hi hfile
    obtain ⟨hle', hlt', hfile''⟩ := hg (f i) file hlt hfile'
    exact ⟨Nat.le_trans hle hle', hlt', hfile''⟩
  · rw [h'.others q hq hlock, h.others q hq hlock]
  · obtain ⟨-, hlt, hfile'⟩ := hf i file hi hfile
    exact (h.text i file hi hfile).trans (h'.text (f i) file hlt hfile')

/-- Only the lock and the texts change. -/
theorem Kept.of_paths (hfresh : Fresh files)
    (hpaths : ∀ q, q ≠ lock name → files'.paths q = files.paths q)
    (htext : ∀ file, file < files.next → files.text file <+: files'.text file) :
    Kept name files files' where
  logs := by
    refine ⟨id, fun _ _ h _ _ _ => h, fun i file hi hfile => ⟨Nat.le_refl i, hi, ?_⟩⟩
    rw [id, hpaths _ (place_ne_lock hi), hfile]
  others := fun q _ hlock => hpaths q hlock
  text := fun _ file _ hfile => htext file (hfresh _ file hfile)

theorem create_text (path : Str) {file : Nat} (h : file < files.next) :
    (files.create path).text file = files.text file := by
  simp [Files.create, Nat.ne_of_lt h]

theorem append_text (fd file : Nat) (text : Str) :
    files.text file <+: (files.append fd text).text file := by
  by_cases h : file = fd
  · simp [Files.append, h]
  · simp [Files.append, h]

/-- The log is created anew. -/
theorem Kept.of_created (hfresh : Fresh files) (hmissing : files.paths name = none) :
    Kept name files (files.create name) where
  logs := by
    refine ⟨id, fun _ _ h _ _ _ => h, fun i file hi hfile => ⟨Nat.le_refl i, hi, ?_⟩⟩
    have hne : place name i ≠ name := by
      intro h
      simp [h, hmissing] at hfile
    simp [Files.create, Fs.set, hne, hfile]
  others := by
    intro q hq _
    have hne : q ≠ name := fun h => hq (h ▸ .base)
    simp [Files.create, Fs.set, hne]
  text := by
    intro i file _ hfile
    simp [create_text name (hfresh _ file hfile)]

/-- A log moves up to a free place. -/
theorem Kept.of_moved {i : Nat} (hint : i + 1 < 2 ^ 31)
    (hfree : files.paths (place name (i + 1)) = none) :
    Kept name files (files.move (files.paths.rename (place name i) (place name (i + 1)))) where
  logs := by
    have hrename : ∀ q, (files.move (files.paths.rename (place name i)
        (place name (i + 1)))).paths q = _ := fun q => Fs.rename_free (p := q) hfree
    refine ⟨fun j => if j = i then i + 1 else j, fun j k hjk hk hj hk' => ?_,
      fun j file hj hfile => ?_⟩
    · have hapart : k ≠ i + 1 := fun h => hk' (h ▸ hfree)
      dsimp only
      split <;> split <;> omega
    · by_cases hji : j = i
      · subst hji
        refine ⟨by simp, by simpa using hint, ?_⟩
        rw [hrename]
        simp [hfile]
      · have hfrom : place name j ≠ place name i := fun h => hji (place_inj h)
        have hto : place name j ≠ place name (i + 1) := by
          intro h
          simp [h, hfree] at hfile
        refine ⟨by simp [hji], by simpa [hji] using hj, ?_⟩
        rw [hrename]
        simp [hji, hfrom, hto, hfile]
  others := by
    intro q hq _
    have hfrom : q ≠ place name i := fun h => hq (h ▸ place_logs (by omega))
    have hto : q ≠ place name (i + 1) := fun h => hq (h ▸ place_logs hint)
    have hrename := Fs.rename_free (a := place name i) (p := q) hfree
    simpa [Files.move, hfrom, hto] using hrename
  text := fun _ _ _ _ => List.prefix_rfl

end

/-! ## The assertions of a process -/

/-- Between the making of the lock and its removal. -/
def Pc.holds : Pc → Bool
  | .scan _ | .shift _ _ | .last _ | .unlock _ _ => true
  | _ => false

/-- The place that the next rename moves a log to is free. -/
def Pc.Ready (name : Str) (fs : Fs Nat) : Pc → Prop
  | .shift _ i => i + 1 < 2 ^ 31 → fs (place name (i + 1)) = none
  | .last _ => fs (place name 1) = none
  | _ => True

/-- The descriptor is open on one of the logs. -/
def OnLog (name : Str) (files : Files) (fd : Nat) : Prop :=
  ∃ i, i < 2 ^ 31 ∧ files.paths (place name i) = some fd

structure Good (name : Str) (pr : Proc) (files : Files) : Prop where
  onLog : OnLog name files pr.fd
  locked : pr.pc.holds = true → files.paths (lock name) ≠ none
  ready : pr.pc.Ready name files.paths

/-- Not both have the lock. -/
def Apart (pr pr' : Proc) : Prop := ¬ (pr.pc.holds = true ∧ pr'.pc.holds = true)

section

variable {name : Str} {files files' : Files} {pr pr' : Proc} {a : Act}

theorem Kept.onLog (h : Kept name files files') {fd : Nat} (hlog : OnLog name files fd) :
    OnLog name files' fd := by
  obtain ⟨moved, -, hmoved⟩ := h.logs
  obtain ⟨i, hi, hfile⟩ := hlog
  exact ⟨moved i, (hmoved i fd hi hfile).2⟩

theorem fresh_create (hfresh : Fresh files) (path : Str) : Fresh (files.create path) := by
  intro q file hfile
  simp only [Files.create, Fs.set] at hfile ⊢
  split at hfile
  · simp at hfile
    omega
  · have := hfresh q file hfile
    omega

theorem fresh_rename (hfresh : Fresh files) (a b : Str) :
    Fresh (files.move (files.paths.rename a b)) := by
  intro q file hfile
  change files.paths.rename a b q = some file at hfile
  unfold Fs.rename at hfile
  cases hmoved : files.paths a with
  | none =>
    rw [hmoved] at hfile
    exact hfresh q file hfile
  | some moved =>
    simp only [hmoved, Fs.set] at hfile
    split at hfile
    · exact hfresh a file (hmoved.trans hfile)
    · split at hfile
      · cases hfile
      · exact hfresh q file hfile

theorem fresh_set_none (hfresh : Fresh files) (path : Str) :
    Fresh (files.move (files.paths.set path none)) := by
  intro q file hfile
  simp only [Files.move, Fs.set] at hfile ⊢
  split at hfile
  · cases hfile
  · exact hfresh q file hfile

theorem Turn.fresh (hfresh : Fresh files) (t : Turn name pr files a pr' files') :
    Fresh files' := by
  cases t with
  | call | noLock | listed | opened | notOpened | notWritten => exact hfresh
  | locked | created => exact fresh_create hfresh _
  | shifted ok int =>
    cases ok with
    | false => exact hfresh
    | true => exact fresh_rename hfresh _ _
  | renamed ok =>
    cases ok with
    | false => exact hfresh
    | true => exact fresh_rename hfresh _ _
  | unlocked => exact fresh_set_none hfresh _
  | noted | wrote => exact hfresh

/-- **No turn loses a log.** -/
theorem Turn.kept (hfine : Fine a) (hfresh : Fresh files) (hgood : Good name pr files)
    (t : Turn name pr files a pr' files') : Kept name files files' := by
  cases t with
  | call | noLock | listed | opened | notOpened | notWritten => exact .refl name files
  | locked =>
    refine .of_paths hfresh (fun q hq => by simp [Files.create, Fs.set, hq]) fun file h => ?_
    simp [create_text _ h]
  | shifted ok int =>
    cases ok with
    | false => exact .refl name files
    | true => exact .of_moved int (hgood.ready int)
  | renamed ok =>
    cases ok with
    | false => exact .refl name files
    | true => exact .of_moved (i := 0) (by decide) hgood.ready
  | unlocked =>
    exact .of_paths hfresh (fun q hq => by simp [Files.move, Fs.set, hq])
      fun _ _ => List.prefix_rfl
  | created missing => exact .of_created hfresh missing
  | noted | wrote => exact .of_paths hfresh (fun _ _ => rfl) fun file _ => append_text _ file _

/-- All logs that can be moved are seen, and no number above the highest is taken. -/
theorem Shows.free_above {fs : Fs Nat} {entries : List Str} (h : Shows name fs entries) {i : Nat}
    (hi : highest name entries < (i + 1 : Nat)) (hint : i + 1 < 2 ^ 31) :
    fs (place name (i + 1)) = none := by
  by_contra hfile
  obtain ⟨hname, hbase⟩ := splitName_spec name
  have hdot : '.' ∉ decimal (i + 1 : Nat) := fun hmem =>
    (isDigit_plain (isDigit_of_mem_decimal hmem)).1 rfl
  have hslash : '/' ∉ decimal (i + 1 : Nat) := fun hmem =>
    (isDigit_plain (isDigit_of_mem_decimal hmem)).2 rfl
  have hmem : (splitName name).2 ++ '.' :: decimal (i + 1 : Nat) ∈ entries := by
    refine (h _ (by simp)).mpr (.inr (.inr ⟨by simp, fun hmem => ?_, ?_⟩))
    · rcases List.mem_append.mp hmem with hmem | hmem
      · exact hbase hmem
      · exact hslash (List.mem_of_ne_of_mem (by decide) hmem)
    · rw [← List.append_assoc, ← hname]
      exact hfile
  have hle := (foldl_entryMax (splitName name).2 entries 0).2.1 _ hdot hmem
  rw [atoi_decimal (by omega) (by omega)] at hle
  change ((i + 1 : Nat) : Int) ≤ highest name entries at hle
  omega

theorem afterShift_ready {fs : Fs Nat} {s : Str} : ∀ {i : Nat},
    (i + 1 < 2 ^ 31 → fs (place name (i + 1)) = none) → (afterShift s i).Ready name fs
  | 0, h => h (by decide)
  | _ + 1, h => h

theorem afterShift_holds (s : Str) (i : Nat) : (afterShift s i).holds = true := by
  cases i <;> rfl

theorem rename_lock {fs : Fs Nat} {i : Nat} (hint : i + 1 < 2 ^ 31)
    (hfree : fs (place name (i + 1)) = none) :
    fs.rename (place name i) (place name (i + 1)) (lock name) = fs (lock name) := by
  rw [Fs.rename_free hfree, if_neg (Ne.symm (place_ne_lock hint)),
    if_neg (Ne.symm (place_ne_lock (by omega)))]

theorem Pc.free {P : Prop} {pc : Pc} (h : pc.holds = false) (h' : pc.holds = true) : P :=
  absurd (h.symm.trans h') Bool.false_ne_true

/-- The process itself. -/
theorem Turn.good (hfine : Fine a) (hfresh : Fresh files) (hgood : Good name pr files)
    (t : Turn name pr files a pr' files') : Good name pr' files' := by
  have honLog := (t.kept hfine hfresh hgood).onLog hgood.onLog
  cases t with
  | call s full => exact ⟨honLog, by cases full <;> exact Pc.free rfl, by cases full <;> trivial⟩
  | locked => exact ⟨honLog, fun _ => by simp [Files.create, Fs.set], trivial⟩
  | noLock | notOpened | noted | notWritten => exact ⟨honLog, Pc.free rfl, trivial⟩
  | @listed fd _ s entries shows =>
    refine ⟨honLog, fun _ => hgood.locked rfl, afterShift_ready fun hint => ?_⟩
    obtain ⟨l, rfl⟩ := Option.ne_none_iff_exists'.mp hfine
    refine (shows l rfl).free_above ?_ hint
    have : highestOf name (some l) = highest name l := rfl
    omega
  | shifted ok int =>
    obtain rfl : ok = true := hfine
    have hfree := hgood.ready int
    refine ⟨honLog, fun _ => ?_, afterShift_ready fun _ => ?_⟩
    · have hlock := hgood.locked rfl
      rwa [← rename_lock int hfree] at hlock
    · refine (Fs.rename_free hfree).trans ?_
      rw [if_neg fun h => absurd (place_inj h) (by omega)]
      exact if_pos rfl
  | renamed ok =>
    refine ⟨honLog, fun _ => ?_, trivial⟩
    have hlock := hgood.locked rfl
    cases ok with
    | false => exact hlock
    | true => rwa [← rename_lock (i := 0) (by decide) hgood.ready] at hlock
  | @unlocked fd _ s result =>
    exact ⟨honLog, by cases result <;> exact Pc.free rfl, by cases result <;> trivial⟩
  | opened found => exact ⟨⟨0, by decide, found⟩, Pc.free rfl, trivial⟩
  | created => exact ⟨⟨0, by decide, if_pos rfl⟩, Pc.free rfl, trivial⟩
  | wrote le =>
    refine ⟨honLog, ?_, ?_⟩ <;> dsimp only <;> split
    · exact Pc.free rfl
    · exact Pc.free rfl
    · trivial
    · trivial

/-- Who has not the lock cannot get it from another, and moves no log. -/
theorem Turn.frame (hfree : pr.pc.holds = false) (htaken : files.paths (lock name) ≠ none)
    (t : Turn name pr files a pr' files') :
    pr'.pc.holds = false ∧ ∀ q, q ≠ name → files'.paths q = files.paths q := by
  cases t with
  | call s full => exact ⟨by cases full <;> rfl, fun _ _ => rfl⟩
  | locked free => exact absurd free htaken
  | noLock | opened | notOpened | notWritten | noted => exact ⟨rfl, fun _ _ => rfl⟩
  | listed | shifted | renamed | unlocked => cases hfree
  | created => exact ⟨rfl, fun q hq => by simp [Files.create, Fs.set, hq]⟩
  | wrote le =>
    refine ⟨?_, fun _ _ => rfl⟩
    dsimp only
    split <;> rfl

theorem Pc.ready_of_not_holds {fs : Fs Nat} : ∀ {pc : Pc}, pc.holds = false → pc.Ready name fs
  | .idle, _ | .lock _, _ | .reopen _, _ | .note _, _ | .write _, _ => trivial

/-- The next rename of one who has the lock does not depend on the log itself. -/
theorem Pc.ready_frame {fs fs' : Fs Nat} (hframe : ∀ q, q ≠ name → fs' q = fs q) :
    ∀ {pc : Pc}, pc.Ready name fs → pc.Ready name fs'
  | .shift _ _, h => fun hint => (hframe _ (numbered_ne name _)).trans (h hint)
  | .last _, h => (hframe _ (numbered_ne name 1)).trans h
  | .idle, _ | .lock _, _ | .scan _, _ | .unlock _ _, _ | .reopen _, _ | .note _, _
  | .write _, _ => trivial

/-- Any other process. -/
theorem Turn.others {m : Proc} (hfine : Fine a) (hfresh : Fresh files) (hgood : Good name pr files)
    (hm : Good name m files) (hapart : Apart pr m) (t : Turn name pr files a pr' files') :
    Good name m files' ∧ Apart pr' m := by
  have honLog := (t.kept hfine hfresh hgood).onLog hm.onLog
  cases hholds : m.pc.holds with
  | false =>
    refine ⟨⟨honLog, fun h => ?_, Pc.ready_of_not_holds hholds⟩, fun h => ?_⟩
    · simp [hholds] at h
    · simp [hholds] at h
  | true =>
    have htaken := hm.locked hholds
    have hnot : pr.pc.holds = false := by
      cases h : pr.pc.holds with
      | false => rfl
      | true => exact absurd ⟨h, hholds⟩ hapart
    obtain ⟨hpr', hframe⟩ := t.frame hnot htaken
    refine ⟨⟨honLog, fun _ => ?_, Pc.ready_frame hframe hm.ready⟩, fun h => ?_⟩
    · rw [hframe (lock name) (Ne.symm (lock_not_logs .base))]
      exact htaken
    · simp [hpr'] at h

theorem outline (name : Str) :
    Interleave.Outline (Turn name) Forks Fine Fresh (Good name) Apart where
  symm := fun h h' => h ⟨h'.2, h'.1⟩
  own := fun hfine hfresh hgood t => ⟨t.fresh hfresh, t.good hfine hfresh hgood⟩
  others := fun hfine hfresh hgood hm hapart t => t.others hfine hfresh hgood hm hapart
  forks := by
    intro l l' files hgood hforks
    obtain ⟨hidle, rfl⟩ := hforks
    have hnot : l'.pc.holds = false := by rw [hidle]; rfl
    refine ⟨hgood, fun h => ?_, fun m hm => hm⟩
    simp [hnot] at h

end

/-! ## Runs -/

/-- One process has opened the log. -/
structure Started (name : Str) (w : World) : Prop where
  fresh : Fresh w.shared
  one : ∃ p fd, w.procs = Function.update (fun _ => none) p (some ⟨fd, .idle⟩) ∧
    w.shared.paths name = some fd

section

variable {name : Str} {w w' w1 w2 w3 : World} {l l' : List (Interleave.Event Act)}

theorem Started.holds (h : Started name w) :
    Interleave.Holds Fresh (Good name) Apart w where
  shared := h.fresh
  each := by
    intro q pr hq
    obtain ⟨p, fd, hprocs, hname⟩ := h.one
    rw [hprocs] at hq
    rcases Interleave.update_some hq with ⟨-, hpr⟩ | ⟨-, hpr⟩
    · cases hpr
      exact ⟨⟨0, by decide, hname⟩, Pc.free rfl, trivial⟩
    · cases hpr
  pair := by
    intro q r pr pr' hne hq hr
    obtain ⟨p, fd, hprocs, -⟩ := h.one
    rw [hprocs] at hq hr
    rcases Interleave.update_some hq with ⟨rfl, -⟩ | ⟨-, hpr⟩
    · rcases Interleave.update_some hr with ⟨hrq, -⟩ | ⟨-, hpr⟩
      · exact absurd hrq.symm hne
      · cases hpr
    · cases hpr

theorem run_kept (hw : Interleave.Holds Fresh (Good name) Apart w) (h : Run (Step name) w l w')
    (hfine : ∀ e ∈ l, e.Fine Fine) : Kept name w.shared w'.shared :=
  (outline name).run_related (Kept.refl name) Kept.trans
    (fun hfine hfresh hgood t => t.kept hfine hfresh hgood) h hfine hw

/-- **However the processes are interleaved and wherever they are killed, no log
is lost**: from any state on every log keeps its text and its place in the
order, and nothing else in the directory changes. -/
theorem logs_kept (hstart : Started name w) (h : Run (Step name) w l w1)
    (h' : Run (Step name) w1 l' w2) (hfine : ∀ e ∈ l ++ l', e.Fine Fine) :
    Kept name w1.shared w2.shared :=
  run_kept ((outline name).run h (fun e he => hfine e (by simp [he])) hstart.holds) h'
    fun e he => hfine e (by simp [he])

/-- **What a process has written is in one of the logs ever after.** -/
theorem written_kept (hstart : Started name w) (h : Run (Step name) w l w1) {p fd written : Nat}
    {rest : Str} (hp : w1.procs p = some ⟨fd, .write rest⟩)
    (hwrote : Step name w1 (.turn p (.wrote (some written))) w2) (h' : Run (Step name) w2 l' w3)
    (hfine : ∀ e ∈ l ++ l', e.Fine Fine) :
    ∃ i file, i < 2 ^ 31 ∧ w3.shared.paths (place name i) = some file ∧
      rest.take written <:+: w3.shared.text file := by
  have hw1 := (outline name).run h (fun e he => hfine e (by simp [he])) hstart.holds
  have hw2 := (outline name).step (e := .turn p (.wrote (some written))) trivial hw1 hwrote
  have hkept := run_kept hw2 h' fun e he => hfine e (by simp [he])
  obtain ⟨i, hi, hlog⟩ := (hw1.each p _ hp).onLog
  obtain ⟨htext, hpaths⟩ : rest.take written <:+: w2.shared.text fd ∧
      w2.shared.paths = w1.shared.paths := by
    cases hwrote with
    | turn runs does =>
      cases hp.symm.trans runs
      cases does with
      | wrote le => exact ⟨⟨w1.shared.text fd, [], by simp [Files.append]⟩, rfl⟩
  rw [← hpaths] at hlog
  obtain ⟨moved, -, hmoved⟩ := hkept.logs
  exact ⟨moved i, fd, (hmoved i fd hi hlog).2.1, (hmoved i fd hi hlog).2.2,
    htext.trans (hkept.text i fd hi hlog).isInfix⟩

/-! ## The lock -/

theorem rename_other {fs : Fs Nat} {a b p : Str} (ha : p ≠ a) (hb : p ≠ b) :
    fs.rename a b p = fs p := by
  unfold Fs.rename
  cases fs a with
  | none => rfl
  | some file => simp [Fs.set, ha, hb]

/-- A process between the making of the lock and its removal finds it there. -/
def Locked (name : Str) (pr : Proc) (files : Files) : Prop :=
  pr.pc.holds = true → files.paths (lock name) ≠ none

theorem Turn.locks {pr pr' : Proc} {files files' : Files} {a : Act} (hlocked : Locked name pr files)
    (t : Turn name pr files a pr' files') : Locked name pr' files' := by
  cases t with
  | call s full => cases full <;> exact Pc.free rfl
  | locked => exact fun _ => by simp [Files.create, Fs.set]
  | noLock | notOpened | noted | notWritten | opened | created => exact Pc.free rfl
  | listed => exact fun _ => hlocked rfl
  | @shifted fd _ s i ok int =>
    intro _
    have hlock := hlocked rfl
    cases ok with
    | false => exact hlock
    | true =>
      exact ne_of_eq_of_ne (rename_other (Ne.symm (numbered_ne_lock name (i + 1)))
        (Ne.symm (numbered_ne_lock name (i + 2)))) hlock
  | renamed ok =>
    intro _
    have hlock := hlocked rfl
    cases ok with
    | false => exact hlock
    | true =>
      exact ne_of_eq_of_ne (rename_other (Ne.symm (lock_not_logs .base))
        (Ne.symm (numbered_ne_lock name 1))) hlock
  | @unlocked fd _ s result => cases result <;> exact Pc.free rfl
  | wrote le =>
    unfold Locked
    dsimp only
    split <;> exact Pc.free rfl

/-- Whatever the directory and the renames do. -/
theorem lockOutline (name : Str) : Interleave.Outline (Turn name) Forks (fun _ => True)
    (fun _ => True) (Locked name) Apart where
  symm := fun h h' => h ⟨h'.2, h'.1⟩
  own := fun _ _ hlocked t => ⟨trivial, t.locks hlocked⟩
  others := by
    intro pr files a pr' files' m _ _ _ hm hapart t
    cases hholds : m.pc.holds with
    | false => exact ⟨fun h => by simp [hholds] at h, fun h => by simp [hholds] at h⟩
    | true =>
      have hnot : pr.pc.holds = false := by
        cases h : pr.pc.holds with
        | false => rfl
        | true => exact absurd ⟨h, hholds⟩ hapart
      obtain ⟨hpr', hframe⟩ := t.frame hnot (hm hholds)
      refine ⟨fun _ => ?_, fun h => by simp [hpr'] at h⟩
      rw [hframe (lock name) (Ne.symm (lock_not_logs .base))]
      exact hm hholds
  forks := by
    intro l l' files hlocked hforks
    obtain ⟨hidle, rfl⟩ := hforks
    have hnot : l'.pc.holds = false := by rw [hidle]; rfl
    exact ⟨hlocked, fun h => by simp [hnot] at h, fun m hm => hm⟩

/-- Nobody has the lock, and it is there. -/
structure Stale (name : Str) (w : World) : Prop where
  taken : w.shared.paths (lock name) ≠ none
  nobody : ∀ p pr, w.procs p = some pr → pr.pc.holds = false

theorem Stale.step (hs : Stale name w) {e : Interleave.Event Act} (h : Step name w e w') :
    Stale name w' ∧ ∀ q, q ≠ name → w'.shared.paths q = w.shared.paths q := by
  cases h with
  | turn runs does =>
    obtain ⟨hnot, hframe⟩ := does.frame (hs.nobody _ _ runs) hs.taken
    refine ⟨⟨?_, fun q pr hq => ?_⟩, hframe⟩
    · exact ne_of_eq_of_ne (hframe _ (Ne.symm (lock_not_logs .base))) hs.taken
    · rcases Interleave.update_some hq with ⟨-, hpr⟩ | ⟨-, hpr⟩
      · cases hpr
        exact hnot
      · exact hs.nobody q pr hpr
  | fork runs free forks =>
    refine ⟨⟨hs.taken, fun q pr hq => ?_⟩, fun _ _ => rfl⟩
    rcases Interleave.update_some hq with ⟨-, hpr⟩ | ⟨-, hpr⟩
    · cases hpr
      exact hs.nobody _ _ (forks.2 ▸ runs)
    · exact hs.nobody q pr hpr
  | kill runs =>
    refine ⟨⟨hs.taken, fun q pr hq => ?_⟩, fun _ _ => rfl⟩
    rcases Interleave.update_some hq with ⟨-, hpr⟩ | ⟨-, hpr⟩
    · cases hpr
    · exact hs.nobody q pr hpr

theorem Stale.run (hs : Stale name w) (h : Run (Step name) w l w') :
    Stale name w' ∧ ∀ q, q ≠ name → w'.shared.paths q = w.shared.paths q := by
  have hkeeps : Run.Keeps (Step name) (fun _ => True)
      fun v => Stale name v ∧ ∀ q, q ≠ name → v.shared.paths q = w.shared.paths q := by
    intro v e v' _ hv hstep
    obtain ⟨hstale, hframe⟩ := hv.1.step hstep
    exact ⟨hstale, fun q hq => (hframe q hq).trans (hv.2 q hq)⟩
  exact Run.invariant hkeeps h (fun _ _ => trivial) ⟨hs, fun _ _ => rfl⟩

theorem Started.locked (h : Started name w) :
    Interleave.Holds (fun _ => True) (Locked name) Apart w where
  shared := trivial
  each := fun p pr hp => (h.holds.each p pr hp).locked
  pair := h.holds.pair

/-- **At most one process rotates, and one that is killed in the middle is the
last**: whatever the system refuses, from then on no log is moved and no
process gets the lock. -/
theorem stale_lock (hstart : Started name w) (h : Run (Step name) w l w1) {p : Nat} {pr : Proc}
    (hp : w1.procs p = some pr) (hholds : pr.pc.holds = true) :
    (∀ q pr', w1.procs q = some pr' → pr'.pc.holds = true → q = p) ∧
    ∀ w2 w3 l', Step name w1 (.kill p) w2 → Run (Step name) w2 l' w3 →
      Stale name w3 ∧ ∀ q, q ≠ name → w3.shared.paths q = w1.shared.paths q := by
  have hw1 := (lockOutline name).run h (fun e _ => by cases e <;> trivial) hstart.locked
  have hone : ∀ q pr', w1.procs q = some pr' → pr'.pc.holds = true → q = p := by
    intro q pr' hq hpr'
    by_contra hne
    exact hw1.pair q p pr' pr hne hq hp ⟨hpr', hholds⟩
  refine ⟨hone, fun w2 w3 l' hkill hrun => ?_⟩
  cases hkill with
  | kill runs =>
    have hstale : Stale name ⟨w1.shared, Function.update w1.procs p none⟩ := by
      refine ⟨hw1.each p pr hp hholds, fun q pr' hq => ?_⟩
      rcases Interleave.update_some hq with ⟨-, hpr'⟩ | ⟨hne, hpr'⟩
      · cases hpr'
      · cases hq' : pr'.pc.holds with
        | false => rfl
        | true => exact absurd (hone q pr' hpr' hq') hne
    exact hstale.run hrun

end

/-! ## A process alone -/

/-- The turns of one process, one after the other. -/
abbrev Turns (name : Str) (p : Nat) (w : World) (acts : List Act) (w' : World) : Prop :=
  Run (Step name) w (acts.map (.turn p)) w'

/-- The process `p` at `pc`, with these paths. -/
def World.at (w : World) (p fd : Nat) (pc : Pc) (files : Files) : World :=
  ⟨files, Function.update w.procs p (some ⟨fd, pc⟩)⟩

section

variable {name : Str} {w : World} {p fd : Nat} {pc : Pc} {files files' : Files}

theorem at_turn {pc' : Pc} {a : Act} (t : Turn name ⟨fd, pc⟩ files a ⟨fd, pc'⟩ files') :
    Step name (w.at p fd pc files) (.turn p a) (w.at p fd pc' files') := by
  have hstep : Step name (w.at p fd pc files) (.turn p a) _ := .turn (Function.update_self ..) t
  rwa [World.at, Function.update_idem] at hstep

theorem shift_turns (sys : Filesystem Nat) (s : Str) : ∀ (i : Nat) (files : Files) (fs' : Fs Nat),
    shift sys name i files.paths = some fs' →
      ∃ acts, Turns name p (w.at p fd (afterShift s i) files) acts
        (w.at p fd (.last s) (files.move fs'))
  | 0, files, fs', h => by
    cases h
    exact ⟨[], .nil _⟩
  | i + 1, files, fs', h => by
    rw [shift] at h
    split at h
    · next hint =>
      obtain ⟨acts, hacts⟩ := shift_turns sys s i (files.move (sys.rename files.paths
        (numbered name (i + 1)) (numbered name (i + 2)))) fs' h
      exact ⟨_ :: acts, .cons (at_turn (.shifted _ hint)) hacts⟩
    · cases h

/-- With the lock, `logfileRotate` is the loop and what follows it. -/
theorem logfileRotate_locked {sys : Filesystem Nat} {fs : Fs Nat} (hfree : fs (lock name) = none)
    (hmay : sys.mayCreate (lock name) = true) :
    logfileRotate sys fs name =
      (shift sys name (highestOf name (sys.readdir (fs.set (lock name) (some sys.empty))
        (splitName name).1)).toNat (fs.set (lock name) (some sys.empty))).map fun fs' =>
          ((fs' name).isSome && sys.mayRename name (numbered name 1),
            (sys.rename fs' name (numbered name 1)).set (lock name) none) := by
  have hlock : ((fs (name ++ "-lck".toList)).isSome || !sys.mayCreate (name ++ "-lck".toList)) =
      false := by rw [← lock, hfree, hmay]; rfl
  unfold logfileRotate
  simp only [hlock, Bool.false_eq_true, if_false]
  change (if highestOf name (sys.readdir (fs.set (lock name) (some sys.empty))
    (splitName name).1) ≠ 0 then _ else _) = _
  by_cases hzero : highestOf name (sys.readdir (fs.set (lock name) (some sys.empty))
      (splitName name).1) = 0
  · rw [if_neg (not_not.mpr hzero), hzero]
    rfl
  · rw [if_pos hzero]
    generalize hm : highestOf name (sys.readdir (fs.set (lock name) (some sys.empty))
      (splitName name).1) = m
    change (shift sys name (highestOf name (sys.readdir (fs.set (lock name) (some sys.empty))
      (splitName name).1)).toNat (fs.set (lock name) (some sys.empty))).bind _ = _
    rw [hm]
    cases shift sys name m.toNat (fs.set (lock name) (some sys.empty)) <;> rfl

/-- What `readdir` shows while the lock is there. -/
def Truthful (name : Str) (sys : Filesystem Nat) (files : Files) : Prop :=
  ∀ entries, sys.readdir (files.create (lock name)).paths (splitName name).1 = some entries →
    Shows name (files.create (lock name)).paths entries

/-- **A rotation that nobody disturbs is that of `logfileRotate`**, on any system. -/
theorem logfileRotate_turns {sys : Filesystem Nat} {s : Str} {ret : Bool} {fs' : Fs Nat}
    (hnext : sys.empty = files.next) (hread : Truthful name sys files)
    (h : logfileRotate sys files.paths name = some (ret, fs')) :
    ∃ acts files', files'.paths = fs' ∧
      Turns name p (w.at p fd (.lock s) files) acts
        (w.at p fd (if ret then .reopen s else .note s) files') := by
  by_cases hlock : files.paths (lock name) = none ∧ sys.mayCreate (lock name) = true
  · rw [logfileRotate_locked hlock.1 hlock.2, hnext] at h
    change Option.map _ (shift sys name _ (files.create (lock name)).paths) = _ at h
    obtain ⟨fs1, hshift, heq⟩ := Option.map_eq_some_iff.mp h
    cases heq
    let entries := sys.readdir (files.create (lock name)).paths (splitName name).1
    obtain ⟨acts, hacts⟩ : ∃ acts, Turns name p
        (w.at p fd (afterShift s (highestOf name entries).toNat) (files.create (lock name))) acts
        (w.at p fd (.last s) ((files.create (lock name)).move fs1)) :=
      shift_turns sys s _ _ _ hshift
    have hlisted : Step name (w.at p fd (.scan s) (files.create (lock name)))
        (.turn p (.listed entries))
        (w.at p fd (afterShift s (highestOf name entries).toNat) (files.create (lock name))) :=
      at_turn (.listed hread)
    let moved := (files.create (lock name)).move (sys.rename fs1 name (numbered name 1))
    have hlast : Turns name p (w.at p fd (.last s) ((files.create (lock name)).move fs1))
        [.renamed (sys.mayRename name (numbered name 1)), .unlocked]
        (w.at p fd (if (fs1 name).isSome && sys.mayRename name (numbered name 1) then .reopen s
          else .note s) (moved.move (moved.paths.set (lock name) none))) :=
      .cons (at_turn (.renamed _)) (.cons (at_turn .unlocked) (.nil _))
    refine ⟨.locked true :: .listed entries ::
        (acts ++ [.renamed (sys.mayRename name (numbered name 1)), .unlocked]),
      moved.move (moved.paths.set (lock name) none), rfl,
      .cons (at_turn (.locked hlock.1)) (.cons hlisted ?_)⟩
    rw [List.map_append]
    exact Run.append_iff.mpr ⟨_, hacts, hlast⟩
  · have hfails : ((files.paths (name ++ "-lck".toList)).isSome ||
        !sys.mayCreate (name ++ "-lck".toList)) = true := by
      cases hpath : files.paths (name ++ "-lck".toList) with
      | some file => rfl
      | none =>
        cases hmay : sys.mayCreate (name ++ "-lck".toList) with
        | false => rfl
        | true => exact absurd ⟨hpath, hmay⟩ hlock
    unfold logfileRotate at h
    simp only [hfails, if_true] at h
    cases h
    exact ⟨[.locked false], files, rfl, .cons (at_turn .noLock) (.nil _)⟩

end

namespace Sample

/-- An empty log, in a directory with nothing else. -/
def files : Files where
  paths := fun q => if q = "log".toList then some 0 else none
  text := fun _ => []
  next := 1

def world : World := ⟨files, Function.update (fun _ => none) 0 (some ⟨0, .idle⟩)⟩

theorem world_started : Started "log".toList world where
  fresh := by
    intro q file hfile
    simp only [world, files] at hfile ⊢
    split at hfile
    · cases hfile
      decide
    · cases hfile
  one := ⟨0, 0, rfl, by decide⟩

theorem shows_locked :
    Shows "log".toList (files.create (lock "log".toList)).paths
      [".".toList, "..".toList, "log-lck".toList] := by
  intro e he
  have hdir : dirPart "log".toList = [] := by decide
  have hbase : (splitName "log".toList).2 = "log".toList := by decide
  rw [hbase] at he
  rw [hdir, List.nil_append]
  have hpath : (files.create (lock "log".toList)).paths e ≠ none ↔ e = "log-lck".toList := by
    have hlock : lock "log".toList = "log-lck".toList := by decide
    rw [hlock]
    by_cases h : e = "log-lck".toList
    · simp [Files.create, Fs.set, h]
    · have hnone : (files.create "log-lck".toList).paths e = none :=
        (if_neg h).trans (if_neg he)
      simp only [hnone, ne_eq, not_true_eq_false, h]
  rw [hpath, List.mem_cons, List.mem_cons, List.mem_singleton]
  refine or_congr_right (or_congr_right ⟨fun h => ⟨?_, ?_, h⟩, fun h => h.2.2⟩)
  · rw [h]
    decide
  · rw [h]
    decide

/-- A child has made the lock for its record `a`. -/
def midway : World where
  shared := files.create (lock "log".toList)
  procs := Function.update (Function.update (Function.update world.procs 1 (some ⟨0, .idle⟩))
    1 (some ⟨0, .lock "a".toList⟩)) 1 (some ⟨0, .scan "a".toList⟩)

theorem to_midway : Run (Step "log".toList) world
    [.fork 0 1, .turn 1 (.call "a".toList true), .turn 1 (.locked true)] midway :=
  .cons (.fork rfl rfl ⟨rfl, rfl⟩) (.cons (.turn rfl (.call _ _))
    (.cons (.turn rfl (.locked (by decide))) (.nil _)))

/-- The parent is about to write `b`. -/
def writing : World where
  shared := midway.shared
  procs := Function.update midway.procs 0 (some ⟨0, .write "b".toList⟩)

/-- The child has moved the log meanwhile. -/
def moved : World where
  shared := midway.shared.move (midway.shared.paths.rename "log".toList (numbered "log".toList 1))
  procs := Function.update (Function.update writing.procs 1 (some ⟨0, .last "a".toList⟩))
    1 (some ⟨0, .unlock "a".toList true⟩)

theorem to_writing : Run (Step "log".toList) midway [.turn 0 (.call "b".toList false)] writing :=
  .cons (.turn rfl (.call _ _)) (.nil _)

theorem to_moved : Run (Step "log".toList) writing
    [.turn 1 (.listed (some [".".toList, "..".toList, "log-lck".toList])),
      .turn 1 (.renamed true)] moved := by
  have hlisted : ∀ l, some [".".toList, "..".toList, "log-lck".toList] = some l →
      Shows "log".toList writing.shared.paths l := by
    rintro _ ⟨⟩
    exact shows_locked
  exact .cons (.turn rfl (.listed hlisted)) (.cons (.turn rfl (.renamed true)) (.nil _))

end Sample

/-- The child moves the log while the parent is about to write to it. -/
theorem logs_kept_sample : Sample.writing.shared.paths "log".toList = some 0 ∧
    Sample.moved.shared.paths "log.1".toList = some 0 ∧
    Kept "log".toList Sample.writing.shared Sample.moved.shared :=
  ⟨by decide, by decide, logs_kept Sample.world_started
    (Run.append_iff.mpr ⟨_, Sample.to_midway, Sample.to_writing⟩) Sample.to_moved
    (by simp [Fine, Interleave.Event.Fine])⟩

/-- Then the parent writes, to the file that is now `log.1`. -/
theorem written_kept_sample : ∃ i file, i < 2 ^ 31 ∧
    Sample.moved.shared.paths (place "log".toList i) = some file ∧
    ['b'] <:+: (Sample.moved.shared.append 0 ['b']).text file := by
  have hrun := Run.append_iff.mpr ⟨_, Sample.to_midway,
    Run.append_iff.mpr ⟨_, Sample.to_writing, Sample.to_moved⟩⟩
  have hwrote : Step "log".toList Sample.moved (.turn 0 (.wrote (some 1))) _ :=
    .turn (l := ⟨0, .write "b".toList⟩) rfl (.wrote (by decide))
  exact written_kept Sample.world_started hrun (p := 0) rfl hwrote (.nil _)
    (by simp [Fine, Interleave.Event.Fine])

/-- The system of the sample, for a process with nobody else. -/
def Sample.system : Filesystem Nat where
  empty := 1
  mayCreate := fun _ => true
  mayRename := fun _ _ => true
  readdir := fun _ _ => some [".".toList, "..".toList, "log-lck".toList]

theorem logfileRotate_turns_sample : ∃ acts files',
    files'.paths (numbered "log".toList 1) = some 0 ∧
      Turns "log".toList 0 (Sample.world.at 0 0 (.lock "a".toList) Sample.files) acts
        (Sample.world.at 0 0 (.reopen "a".toList) files') := by
  have hread : Truthful "log".toList Sample.system Sample.files := by
    rintro _ ⟨⟩
    exact Sample.shows_locked
  obtain ⟨acts, files', hpaths, hacts⟩ := logfileRotate_turns (w := Sample.world) (p := 0)
    (s := "a".toList) rfl hread (logfileRotate_locked (by decide) rfl)
  exact ⟨acts, files', by rw [hpaths]; decide, hacts⟩

/-- The child is killed with the lock. -/
def Sample.killed : World := ⟨midway.shared, Function.update midway.procs 1 none⟩

/-- Then the parent does not get it. -/
theorem stale_lock_sample : ∃ w3, Run (Step "log".toList) Sample.killed
    [.turn 0 (.call "b".toList true), .turn 0 (.locked false)] w3 ∧
      Stale "log".toList w3 ∧ w3.shared.paths "log".toList = some 0 := by
  have hrun : Run (Step "log".toList) Sample.killed
      [.turn 0 (.call "b".toList true), .turn 0 (.locked false)] _ :=
    .cons (.turn rfl (.call _ _)) (.cons (.turn rfl .noLock) (.nil _))
  obtain ⟨hstale, -⟩ := (stale_lock Sample.world_started Sample.to_midway (p := 1) rfl rfl).2
    _ _ _ (.kill rfl) hrun
  exact ⟨_, hrun, hstale, by rfl⟩

end Voms.L5.LogProcs
