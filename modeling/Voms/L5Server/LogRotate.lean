import Voms.Core.Decimal

/-!
# Rotation of the log file

`logfile_rotate` (`src/log/fs.c`): under the lock `name-lck` it looks for the
highest suffix in the directory, renames from there downwards, and the log
itself to `name.1`.

The directory is the paths that exist with what is in them. In a rename a file
that exists gives way.

* `shift_spec`: with nothing above the highest suffix, the loop moves every
  file up by one and frees `name.1`; a gap is moved like a file.
* `logfileRotate_exact`: the rotation is right exactly if no suffix in the
  directory is read as the largest `int`, which has no next one.

Memory is available; the texts of `snprintf_wrap` are never empty.
-/
namespace Voms.L5

open Voms.Core

variable {α : Type}

/-- The file at each path, if there is one. -/
abbrev Fs (α : Type) : Type := Str → Option α

/-- What `logfile_rotate` uses of the system. `readdir` is all of `opendir`
and `readdir`; `empty` is in a new file. -/
structure Filesystem (α : Type) where
  empty : α
  mayCreate : Str → Bool
  mayRename : Str → Str → Bool
  readdir : Fs α → Str → Option (List Str)

def Fs.set (fs : Fs α) (path : Str) (file : Option α) : Fs α :=
  fun p => if p = path then file else fs p

def Fs.rename (fs : Fs α) (oldname newname : Str) : Fs α :=
  match fs oldname with
  | none => fs
  | some file => (fs.set oldname none).set newname (some file)

/-! ## The code -/

/-- Place of the last `c`. -/
def strrchr (c : Char) (s : Str) : Option Nat :=
  (s.reverse.idxOf? c).map (s.length - 1 - ·)

/-- `dirname` and `basename`. -/
def splitName (name : Str) : Str × Str :=
  match strrchr '/' name with
  | none => (".".toList, name)
  | some 0 => ("/".toList, name.drop 1)
  | some pos => (name.take pos, name.drop (pos + 1))

/-- One turn of the `readdir` loop. -/
def entryMax (basename : Str) (max : Int) (d_name : Str) : Int :=
  match strrchr '.' d_name with
  | none => max
  | some pos =>
    if atoi (d_name.drop (pos + 1)) > max ∧ pos = basename.length ∧
        d_name.take basename.length = basename then
      atoi (d_name.drop (pos + 1))
    else max

/-- `name.i`. -/
def numbered (name : Str) (i : Nat) : Str := name ++ '.' :: decimal i

/-- `rename` as far as the system lets it. -/
def Filesystem.rename (sys : Filesystem α) (fs : Fs α) (oldname newname : Str) : Fs α :=
  if sys.mayRename oldname newname then fs.rename oldname newname else fs

/-- The renames from `i` downwards; `none` where `i+1` is no `int`. -/
def shift (sys : Filesystem α) (name : Str) : Nat → Fs α → Option (Fs α)
  | 0, fs => some fs
  | i + 1, fs =>
    if i + 2 < 2 ^ 31 then
      shift sys name i (sys.rename fs (numbered name (i + 1)) (numbered name (i + 2)))
    else none

/-- What is returned, and the directory. The lock is released at the end.
mirrors src/log/fs.c:213-302 -/
def logfileRotate (sys : Filesystem α) (fs : Fs α) (name : Str) : Option (Bool × Fs α) :=
  let fname := name ++ "-lck".toList
  if (fs fname).isSome || !sys.mayCreate fname then some (false, fs)
  else
    let fs := fs.set fname (some sys.empty)
    let (dirname, basename) := splitName name
    let max : Int :=
      match sys.readdir fs dirname with
      | none => 0
      | some entries => entries.foldl (entryMax basename) 0
    do
      let fs ← if max ≠ 0 then shift sys name max.toNat fs else some fs
      let result := (fs name).isSome && sys.mayRename name (numbered name 1)
      let fs := sys.rename fs name (numbered name 1)
      some (result, fs.set fname none)

/-! ## What a rotation is for -/

/-- The paths of the log and of its old ones that can still be counted up. -/
inductive Logs (name : Str) : Str → Prop where
  | base : Logs name name
  | old {i : Nat} : 0 < i → i < 2 ^ 31 → Logs name (numbered name i)

structure Rotated (name : Str) (fs fs' : Fs α) : Prop where
  first : fs' (numbered name 1) = fs name
  next : ∀ i, 0 < i → i + 1 < 2 ^ 31 → fs' (numbered name (i + 1)) = fs (numbered name i)
  gone : fs' name = none
  others : ∀ p, ¬ Logs name p → fs' p = fs p
  /-- no content is lost: every file has a place of its own -/
  kept : ∃ moved : Str → Str,
    (∀ p q, fs p ≠ none → fs q ≠ none → moved p = moved q → p = q) ∧
    ∀ p, fs p ≠ none → fs' (moved p) = fs p

/-- The text in front of the base name. -/
def dirPart (name : Str) : Str := name.take (name.length - (splitName name).2.length)

/-- What `readdir` gives: all files of the directory, in any order. -/
def DirLists (name : Str) (fs : Fs α) (entries : List Str) : Prop :=
  ∀ e, e ∈ entries ↔ e = ".".toList ∨ e = "..".toList ∨
    (e ≠ [] ∧ '/' ∉ e ∧ fs (dirPart name ++ e) ≠ none)

/-! ## Names -/

theorem strrchr_eq_some {c : Char} {s : Str} {pos : Nat} :
    strrchr c s = some pos ↔ ∃ a b, s = a ++ c :: b ∧ c ∉ b ∧ a.length = pos := by
  rw [strrchr, Option.map_eq_some_iff]
  constructor
  · rintro ⟨n, hn, rfl⟩
    obtain ⟨x, y, hsplit, hfresh, rfl⟩ := idxOf_split hn
    have hs : s = y.reverse ++ c :: x.reverse := by
      have := congrArg List.reverse hsplit
      simpa using this
    refine ⟨y.reverse, x.reverse, hs, by simpa using hfresh, ?_⟩
    rw [hs]
    simp
  · rintro ⟨a, b, rfl, hfresh, rfl⟩
    refine ⟨b.length, ?_, by simp⟩
    have hidx := idxOf_fresh (s := b.reverse) a.reverse (by simpa using hfresh)
    simpa using hidx

theorem strrchr_eq_none {c : Char} {s : Str} : strrchr c s = none ↔ c ∉ s := by
  simp [strrchr]

/-- The name is a directory and a name in it. -/
theorem splitName_spec (name : Str) :
    name = dirPart name ++ (splitName name).2 ∧ '/' ∉ (splitName name).2 := by
  have hsuffix : ∃ a, name = a ++ (splitName name).2 ∧ '/' ∉ (splitName name).2 := by
    unfold splitName
    split
    · next hnone => exact ⟨[], rfl, strrchr_eq_none.mp hnone⟩
    · next hzero =>
      obtain ⟨a, b, rfl, hfresh, hlength⟩ := strrchr_eq_some.mp hzero
      rw [List.length_eq_zero_iff.mp hlength]
      exact ⟨['/'], rfl, hfresh⟩
    · next pos _ hpos =>
      obtain ⟨a, b, rfl, hfresh, rfl⟩ := strrchr_eq_some.mp hpos
      refine ⟨a ++ ['/'], ?_, ?_⟩ <;> simp [hfresh]
  unfold dirPart
  obtain ⟨a, hname, hfresh⟩ := hsuffix
  generalize (splitName name).2 = base at hname hfresh ⊢
  rw [hname]
  exact ⟨by simp, hfresh⟩

theorem numbered_inj {name : Str} {i j : Nat} (h : numbered name i = numbered name j) : i = j := by
  have hdecimal : decimal (i : Int) = decimal (j : Int) :=
    (List.cons.inj (List.append_cancel_left h)).2
  rw [decimal_ofNat, decimal_ofNat] at hdecimal
  rw [← Nat.ofDigitChars_ten_toDigits (n := i), hdecimal, Nat.ofDigitChars_ten_toDigits]

theorem numbered_ne (name : Str) (i : Nat) : numbered name i ≠ name := by
  intro h
  have hlength := congrArg List.length h
  simp [numbered] at hlength

/-- The lock is not one of the logs. -/
theorem lock_not_logs {name p : Str} (h : Logs name p) : p ≠ name ++ "-lck".toList := by
  cases h with
  | base =>
    intro h
    have hlength := congrArg List.length h
    simp at hlength
  | old hpos hlt =>
    intro h
    have := (List.cons.inj (List.append_cancel_left h)).1
    cases this

/-! ## Renames -/

section

variable {fs : Fs α} {a b p : Str}

/-- A rename to a free path, whether there is a file to rename or not. -/
theorem Fs.rename_free (hfree : fs b = none) :
    fs.rename a b p = if p = b then fs a else if p = a then none else fs p := by
  unfold Fs.rename
  cases ha : fs a with
  | none =>
    by_cases hpb : p = b
    · rw [if_pos hpb, hpb]
      exact hfree
    · rw [if_neg hpb]
      by_cases hpa : p = a
      · rw [if_pos hpa, hpa]
        exact ha
      · rw [if_neg hpa]
  | some file => rfl

end

/-- No system stands in the way. -/
def Filesystem.Renames (sys : Filesystem α) : Prop := ∀ a b, sys.mayRename a b = true

theorem Filesystem.rename_eq {sys : Filesystem α} (h : sys.Renames) (fs : Fs α) (a b : Str) :
    sys.rename fs a b = fs.rename a b := if_pos (h a b)

/-- The loop from `m` on moves each file up by one and frees the first place. -/
theorem shift_spec {sys : Filesystem α} (hsys : sys.Renames) (name : Str) :
    ∀ (m : Nat) (fs : Fs α), m + 1 < 2 ^ 31 → fs (numbered name (m + 1)) = none → ∃ fs',
      shift sys name m fs = some fs' ∧
      (∀ i, 0 < i → i ≤ m → fs' (numbered name (i + 1)) = fs (numbered name i)) ∧
      fs' (numbered name 1) = none ∧
      ∀ p, (∀ i, 0 < i → i ≤ m + 1 → p ≠ numbered name i) → fs' p = fs p
  | 0, fs, _, hfree => ⟨fs, rfl, by omega, hfree, fun _ _ => rfl⟩
  | m + 1, fs, hm, hfree => by
    have hapart : ∀ {i j}, i ≠ j → numbered name i ≠ numbered name j :=
      fun h e => h (numbered_inj e)
    have hrename : ∀ p, fs.rename (numbered name (m + 1)) (numbered name (m + 2)) p = _ :=
      fun p => Fs.rename_free hfree
    obtain ⟨fs', hshift, hmoved, hfirst, hothers⟩ := shift_spec hsys name m
      (fs.rename (numbered name (m + 1)) (numbered name (m + 2))) (by omega)
      (by rw [hrename, if_neg (hapart (by omega)), if_pos rfl])
    refine ⟨fs', ?_, fun i hpos hle => ?_, hfirst, fun p hp => ?_⟩
    · rw [shift, if_pos hm, Filesystem.rename_eq hsys]
      exact hshift
    · rcases Nat.lt_or_eq_of_le hle with hlt | rfl
      · rw [hmoved i hpos (by omega), hrename, if_neg (hapart (by omega)),
          if_neg (hapart (by omega))]
      · rw [hothers _ (fun j _ hj => hapart (by omega)), hrename, if_pos rfl]
    · rw [hothers p (fun i hpos hle => hp i hpos (by omega)), hrename,
        if_neg (hp _ (by omega) (by omega)), if_neg (hp _ (by omega) (by omega))]

/-- From the largest `int` on there is no next name. -/
theorem shift_over (sys : Filesystem α) (name : Str) (fs : Fs α) {m : Nat} (hm : 2 ^ 31 ≤ m + 1)
    (hpos : 0 < m) : shift sys name m fs = none := by
  obtain ⟨m, rfl⟩ : ∃ n, m = n + 1 := ⟨m - 1, by omega⟩
  rw [shift, if_neg (by omega)]

/-! ## The highest suffix -/

section

variable {base t : Str} {max : Int}

/-- An entry of the form `base.t` counts with its suffix. -/
theorem entryMax_suffix (ht : '.' ∉ t) : entryMax base max (base ++ '.' :: t) =
    if atoi t > max then atoi t else max := by
  have hpos : strrchr '.' (base ++ '.' :: t) = some base.length :=
    strrchr_eq_some.mpr ⟨base, t, rfl, ht, rfl⟩
  have hdrop : (base ++ '.' :: t).drop (base.length + 1) = t := by
    rw [← List.drop_drop, List.drop_left]
    rfl
  simp only [entryMax, hpos, hdrop, List.take_left, and_true]

/-- No other does. -/
theorem entryMax_cases (base : Str) (max : Int) (e : Str) :
    entryMax base max e = max ∨ ∃ t, e = base ++ '.' :: t ∧ '.' ∉ t := by
  unfold entryMax
  split
  · exact .inl rfl
  · next pos hpos =>
    split
    · next h =>
      obtain ⟨a, t, rfl, ht, rfl⟩ := strrchr_eq_some.mp hpos
      refine .inr ⟨t, ?_, ht⟩
      rw [← h.2.1, List.take_left] at h
      rw [h.2.2]
    · exact .inl rfl

/-- The maximum is reached, and nothing is above it. -/
theorem foldl_entryMax (base : Str) : ∀ (entries : List Str) (max : Int),
    max ≤ entries.foldl (entryMax base) max ∧
    (∀ t, '.' ∉ t → base ++ '.' :: t ∈ entries → atoi t ≤ entries.foldl (entryMax base) max) ∧
    (entries.foldl (entryMax base) max = max ∨
      ∃ t, '.' ∉ t ∧ base ++ '.' :: t ∈ entries ∧ entries.foldl (entryMax base) max = atoi t)
  | [], max => ⟨Int.le_refl _, by simp, .inl rfl⟩
  | e :: entries, max => by
    obtain ⟨hle, hall, hreached⟩ := foldl_entryMax base entries (entryMax base max e)
    rw [List.foldl_cons]
    generalize entries.foldl (entryMax base) (entryMax base max e) = m at hle hall hreached ⊢
    have hstep : max ≤ entryMax base max e ∧ (entryMax base max e = max ∨
        ∃ t, '.' ∉ t ∧ e = base ++ '.' :: t ∧ entryMax base max e = atoi t) := by
      rcases entryMax_cases base max e with heq | ⟨t, rfl, ht⟩
      · exact ⟨by omega, .inl heq⟩
      · rw [entryMax_suffix ht]
        split
        · exact ⟨by omega, .inr ⟨t, ht, rfl, rfl⟩⟩
        · exact ⟨Int.le_refl _, .inl rfl⟩
    refine ⟨by omega, fun t ht hmem => ?_, ?_⟩
    · rcases List.mem_cons.mp hmem with rfl | hmem
      · rw [entryMax_suffix ht] at hle
        split at hle <;> omega
      · exact hall t ht hmem
    · rcases hreached with rfl | ⟨t, ht, hmem, hm⟩
      · rcases hstep.2 with heq | ⟨t, ht, rfl, heq⟩
        · exact .inl heq
        · exact .inr ⟨t, ht, List.mem_cons_self .., heq⟩
      · exact .inr ⟨t, ht, List.mem_cons_of_mem _ hmem, hm⟩

end

/-! ## The rotation -/

section

variable {sys : Filesystem α} {fs : Fs α} {name : Str} {entries : List Str}

/-- A suffix in the directory is that of a file `name.t`. -/
theorem DirLists.suffix (h : DirLists name fs entries) {t : Str} (hdot : '.' ∉ t)
    (hmem : (splitName name).2 ++ '.' :: t ∈ entries) :
    atoi t ≤ 0 ∨ ('/' ∉ t ∧ fs (name ++ '.' :: t) ≠ none) := by
  have hlast : ∀ {a b : Str}, '.' ∉ b → '.' ∉ t → (splitName name).2 ++ '.' :: t = a ++ '.' :: b →
      t = b := by
    intro a b hb ht heq
    have h1 := strrchr_eq_some.mpr ⟨(splitName name).2, t, rfl, ht, rfl⟩
    have h2 := strrchr_eq_some.mpr ⟨a, b, heq, hb, rfl⟩
    rw [h1, Option.some.injEq] at h2
    exact (List.cons.inj (List.append_inj_right heq h2)).2
  rcases (h _).mp hmem with heq | heq | ⟨-, hslash, hfile⟩
  · rw [hlast (a := []) (b := []) (by simp) hdot heq]
    exact .inl (by decide)
  · rw [hlast (a := ['.']) (b := []) (by simp) hdot heq]
    exact .inl (by decide)
  · refine .inr ⟨fun hmem => hslash (by simp [hmem]), ?_⟩
    rw [← List.append_assoc, ← (splitName_spec name).1] at hfile
    exact hfile

theorem DirLists.of_file (h : DirLists name fs entries) {t : Str} (hslash : '/' ∉ t)
    (hfile : fs (name ++ '.' :: t) ≠ none) : (splitName name).2 ++ '.' :: t ∈ entries := by
  obtain ⟨hname, hbase⟩ := splitName_spec name
  refine (h _).mpr (.inr (.inr ⟨by simp, ?_, ?_⟩))
  · simp [hbase, hslash]
  · rw [← List.append_assoc, ← hname]
    exact hfile

/-- The directory while the lock is there. -/
def locked (sys : Filesystem α) (fs : Fs α) (name : Str) : Fs α :=
  fs.set (name ++ "-lck".toList) (some sys.empty)

theorem locked_eq {p : Str} (hp : p ≠ name ++ "-lck".toList) : locked sys fs name p = fs p :=
  if_neg hp

theorem suffixed_ne_lock (name t : Str) : name ++ '.' :: t ≠ name ++ "-lck".toList := by
  intro h
  have := (List.cons.inj (List.append_cancel_left h)).1
  cases this

theorem numbered_ne_lock (name : Str) (i : Nat) : numbered name i ≠ name ++ "-lck".toList :=
  suffixed_ne_lock name (decimal i)

/-- The highest suffix that `readdir` shows. -/
def highest (name : Str) (entries : List Str) : Int :=
  entries.foldl (entryMax (splitName name).2) 0

/-- The lock is obtained and the directory opened. -/
structure Opens (sys : Filesystem α) (fs : Fs α) (name : Str) (entries : List Str) : Prop where
  free : fs (name ++ "-lck".toList) = none
  mayCreate : sys.mayCreate (name ++ "-lck".toList) = true
  readdir : sys.readdir (locked sys fs name) (splitName name).1 = some entries
  lists : DirLists name (locked sys fs name) entries

theorem logfileRotate_eq (hopens : Opens sys fs name entries) (hsys : sys.Renames) :
    logfileRotate sys fs name =
      (shift sys name (highest name entries).toNat (locked sys fs name)).map fun fs' =>
        ((fs' name).isSome,
          (fs'.rename name (numbered name 1)).set (name ++ "-lck".toList) none) := by
  have hlock : ((fs (name ++ "-lck".toList)).isSome || !sys.mayCreate (name ++ "-lck".toList)) =
      false := by rw [hopens.free, hopens.mayCreate]; rfl
  have hreaddir := hopens.readdir
  unfold locked at hreaddir ⊢
  unfold logfileRotate
  simp only [hlock, Bool.false_eq_true, if_false, hreaddir, hsys _ _, Bool.and_true,
    Filesystem.rename_eq hsys]
  change (if highest name entries ≠ 0 then _ else _) = _
  by_cases hzero : highest name entries = 0
  · rw [if_neg (not_not.mpr hzero), hzero]
    rfl
  · rw [if_pos hzero]
    unfold highest
    cases shift sys name (entries.foldl (entryMax (splitName name).2) 0).toNat _ <;> rfl

/-- A suffix of a file is at most the highest. -/
theorem Opens.le_highest (hopens : Opens sys fs name entries) {t : Str} (hdot : '.' ∉ t)
    (hslash : '/' ∉ t) (hfile : fs (name ++ '.' :: t) ≠ none) : atoi t ≤ highest name entries := by
  refine (foldl_entryMax (splitName name).2 entries 0).2.1 t hdot (hopens.lists.of_file hslash ?_)
  rw [locked_eq (suffixed_ne_lock name t)]
  exact hfile

/-- The highest one is 0, or that of a file. -/
theorem Opens.highest_reached (hopens : Opens sys fs name entries) : highest name entries = 0 ∨
    ∃ t, '.' ∉ t ∧ '/' ∉ t ∧ fs (name ++ '.' :: t) ≠ none ∧ atoi t = highest name entries := by
  obtain ⟨hle, -, hreached⟩ := foldl_entryMax (splitName name).2 entries 0
  change 0 ≤ highest name entries at hle
  change highest name entries = 0 ∨ ∃ t, '.' ∉ t ∧ (splitName name).2 ++ '.' :: t ∈ entries ∧
    highest name entries = atoi t at hreached
  rcases hreached with hzero | ⟨t, hdot, hmem, heq⟩
  · exact .inl hzero
  · rcases hopens.lists.suffix hdot hmem with hneg | ⟨hslash, hfile⟩
    · exact .inl (by omega)
    · rw [locked_eq (suffixed_ne_lock name t)] at hfile
      exact .inr ⟨t, hdot, hslash, hfile, heq.symm⟩

theorem isDigit_plain {c : Char} (h : c.isDigit = true) : c ≠ '.' ∧ c ≠ '/' := by
  constructor <;> rintro rfl <;> exact absurd h (by decide)

/-- No log is numbered higher. -/
theorem Opens.free_above (hopens : Opens sys fs name entries) {i : Nat}
    (hi : highest name entries < i) (hlt : i < 2 ^ 31) : fs (numbered name i) = none := by
  by_contra hfile
  have hle := hopens.le_highest (t := decimal i)
    (fun h => (isDigit_plain (isDigit_of_mem_decimal h)).1 rfl)
    (fun h => (isDigit_plain (isDigit_of_mem_decimal h)).2 rfl) hfile
  rw [atoi_decimal (by omega) (by omega)] at hle
  omega

/-- The log is number 0. -/
def place (name : Str) : Nat → Str
  | 0 => name
  | i + 1 => numbered name (i + 1)

theorem place_inj {i j : Nat} (h : place name i = place name j) : i = j := by
  cases i with
  | zero =>
    cases j with
    | zero => rfl
    | succ j => exact absurd h.symm (numbered_ne name _)
  | succ i =>
    cases j with
    | zero => exact absurd h (numbered_ne name _)
    | succ j => exact numbered_inj h

/-- A log with a place to move up to. -/
def Moves (name p : Str) : Prop := ∃ i, i + 1 < 2 ^ 31 ∧ p = place name i

open Classical in
/-- Where each file is after the rotation. -/
noncomputable def movedTo (name p : Str) : Str :=
  if h : Moves name p then place name (h.choose + 1) else p

theorem movedTo_place {i : Nat} (hi : i + 1 < 2 ^ 31) :
    movedTo name (place name i) = place name (i + 1) := by
  have h : Moves name (place name i) := ⟨i, hi, rfl⟩
  rw [movedTo, dif_pos h, ← place_inj h.choose_spec.2]

theorem movedTo_other {p : Str} (h : ¬ Moves name p) : movedTo name p = p := dif_neg h

/-- A file that stays is none that another one moves to. -/
theorem place_ne_kept (htop : ∀ i, i + 1 = 2 ^ 31 → fs (place name i) = none) {q : Str} {i : Nat}
    (hi : i + 1 < 2 ^ 31) (hfile : fs q ≠ none) (hq : ¬ Moves name q) :
    place name (i + 1) ≠ q := by
  rintro rfl
  by_cases htopmost : i + 2 < 2 ^ 31
  · exact hq ⟨i + 1, htopmost, rfl⟩
  · exact hfile (htop (i + 1) (by omega))

theorem movedTo_inj (htop : ∀ i, i + 1 = 2 ^ 31 → fs (place name i) = none) {p q : Str}
    (hp : fs p ≠ none) (hq : fs q ≠ none) (heq : movedTo name p = movedTo name q) : p = q := by
  by_cases hpi : Moves name p
  · obtain ⟨i, hi, rfl⟩ := hpi
    rw [movedTo_place hi] at heq
    by_cases hqj : Moves name q
    · obtain ⟨j, hj, rfl⟩ := hqj
      rw [movedTo_place hj] at heq
      rw [Nat.succ.inj (place_inj heq)]
    · rw [movedTo_other hqj] at heq
      exact absurd heq (place_ne_kept htop hi hq hqj)
  · rw [movedTo_other hpi] at heq
    by_cases hqj : Moves name q
    · obtain ⟨j, hj, rfl⟩ := hqj
      rw [movedTo_place hj] at heq
      exact absurd heq.symm (place_ne_kept htop hj hp hpi)
    · rw [movedTo_other hqj] at heq
      exact heq

section

variable {fs' : Fs α}

theorem movedTo_kept (hmoved : ∀ i, i + 1 < 2 ^ 31 → fs' (place name (i + 1)) = fs (place name i))
    (hothers : ∀ p, (∀ i, i < 2 ^ 31 → p ≠ place name i) → fs' p = fs p)
    (htop : ∀ i, i + 1 = 2 ^ 31 → fs (place name i) = none) {p : Str} (hp : fs p ≠ none) :
    fs' (movedTo name p) = fs p := by
  by_cases hpi : Moves name p
  · obtain ⟨i, hi, rfl⟩ := hpi
    rw [movedTo_place hi, hmoved i hi]
  · rw [movedTo_other hpi]
    refine hothers p ?_
    rintro i hi rfl
    by_cases htopmost : i + 1 < 2 ^ 31
    · exact hpi ⟨i, htopmost, rfl⟩
    · exact hp (htop i (by omega))

/-- With no file at the largest `int` nothing is lost. -/
theorem Rotated.of_moved (htop : ∀ i, i + 1 = 2 ^ 31 → fs (numbered name i) = none)
    (first : fs' (numbered name 1) = fs name)
    (next : ∀ i, 0 < i → i + 1 < 2 ^ 31 → fs' (numbered name (i + 1)) = fs (numbered name i))
    (gone : fs' name = none) (others : ∀ p, ¬ Logs name p → fs' p = fs p) :
    Rotated name fs fs' := by
  have hmoved : ∀ i, i + 1 < 2 ^ 31 → fs' (place name (i + 1)) = fs (place name i) := by
    intro i hi
    cases i with
    | zero => exact first
    | succ i => exact next (i + 1) (by omega) hi
  have hothers : ∀ p, (∀ i, i < 2 ^ 31 → p ≠ place name i) → fs' p = fs p := by
    intro p hp
    refine others p fun hlog => ?_
    cases hlog with
    | base => exact hp 0 (by omega) rfl
    | @old i hpos hlt =>
      obtain ⟨j, rfl⟩ : ∃ j, i = j + 1 := ⟨i - 1, by omega⟩
      exact hp (j + 1) hlt rfl
  have hplace : ∀ i, i + 1 = 2 ^ 31 → fs (place name i) = none := by
    intro i hi
    cases i with
    | zero => omega
    | succ i => exact htop (i + 1) hi
  exact ⟨first, next, gone, others, movedTo name, fun _ _ => movedTo_inj hplace,
    fun _ => movedTo_kept hmoved hothers hplace⟩

/-- What the last rename and the removed lock leave, with `name.1` free. -/
theorem renamed_eq (hfirst : fs' (numbered name 1) = none) {p : Str}
    (hp : p ≠ name ++ "-lck".toList) :
    (fs'.rename name (numbered name 1)).set (name ++ "-lck".toList) none p =
      if p = numbered name 1 then fs' name else if p = name then none else fs' p := by
  rw [Fs.set, if_neg hp]
  exact Fs.rename_free hfirst

end

/-- What the loop and the last rename leave, with no file at the largest `int`. -/
theorem rotated_of_shift (hsys : sys.Renames) (hopens : Opens sys fs name entries)
    (hfits : highest name entries + 1 < 2 ^ 31) :
    ∃ ret fs', logfileRotate sys fs name = some (ret, fs') ∧ Rotated name fs fs' := by
  have hnonneg : 0 ≤ highest name entries := (foldl_entryMax (splitName name).2 entries 0).1
  have hlocked : ∀ i, locked sys fs name (numbered name i) = fs (numbered name i) :=
    fun i => locked_eq (numbered_ne_lock name i)
  have hapart : ∀ {i j}, i ≠ j → numbered name i ≠ numbered name j := fun h e => h (numbered_inj e)
  obtain ⟨fs', hshift, hmoved, hfirst, hothers⟩ := shift_spec hsys name
    (highest name entries).toNat (locked sys fs name) (by omega)
    (by rw [hlocked]; exact hopens.free_above (by omega) (by omega))
  rw [logfileRotate_eq hopens hsys, hshift]
  refine ⟨_, _, rfl, .of_moved (fun i hi => hopens.free_above (by omega) (by omega)) ?_ ?_ ?_ ?_⟩
  · rw [renamed_eq hfirst (numbered_ne_lock name 1), if_pos rfl,
      hothers name fun i _ _ => Ne.symm (numbered_ne name i), locked_eq (lock_not_logs .base)]
  · intro i hpos hlt
    rw [renamed_eq hfirst (numbered_ne_lock name _), if_neg (hapart (by omega)),
      if_neg (numbered_ne name _)]
    by_cases hle : i ≤ (highest name entries).toNat
    · rw [hmoved i hpos hle, hlocked]
    · rw [hothers _ (fun j _ hj => hapart (by omega)), hlocked,
        hopens.free_above (by omega) (by omega), hopens.free_above (by omega) (by omega)]
  · rw [renamed_eq hfirst (lock_not_logs .base), if_neg (Ne.symm (numbered_ne name 1)), if_pos rfl]
  · intro p hp
    have hold : ∀ i, 0 < i → i < 2 ^ 31 → p ≠ numbered name i := by
      rintro i hpos hlt rfl
      exact hp (.old hpos hlt)
    by_cases hlock : p = name ++ "-lck".toList
    · rw [hlock, Fs.set, if_pos rfl, hopens.free]
    · rw [renamed_eq hfirst hlock, if_neg (hold 1 (by omega) (by omega)),
        if_neg (by rintro rfl; exact hp .base), hothers p fun i hpos hle => hold i hpos (by omega),
        locked_eq hlock]

/-- **Exactly if no suffix is read as the largest `int` the logs move up by
one, and nothing else changes.** -/
theorem logfileRotate_exact (hsys : sys.Renames) (hopens : Opens sys fs name entries) :
    (∃ ret fs', logfileRotate sys fs name = some (ret, fs') ∧ Rotated name fs fs') ↔
      ∀ t, '.' ∉ t → '/' ∉ t → fs (name ++ '.' :: t) ≠ none → atoi t ≠ 2 ^ 31 - 1 := by
  have hlt : highest name entries < 2 ^ 31 := by
    rcases hopens.highest_reached with hzero | ⟨t, -, -, -, heq⟩
    · omega
    · rw [← heq]
      exact atoi_lt t
  constructor
  · rintro ⟨ret, fs', hrun, -⟩ t hdot hslash hfile hover
    have hle := hopens.le_highest hdot hslash hfile
    rw [logfileRotate_eq hopens hsys, shift_over _ _ _ (by omega) (by omega)] at hrun
    cases hrun
  · intro h
    refine rotated_of_shift hsys hopens ?_
    rcases hopens.highest_reached with hzero | ⟨t, hdot, hslash, hfile, heq⟩
    · omega
    · have := h t hdot hslash hfile
      omega

end

namespace Sample

/-- A directory with these files, read in this order. -/
def disk (files : List Str) : Filesystem Str where
  empty := []
  mayCreate := fun _ => true
  mayRename := fun _ _ => true
  readdir := fun _ _ => some (".".toList :: "..".toList :: "log-lck".toList :: files)

/-- Each file has its own name in it. -/
def filesOf (files : List Str) : Fs Str := fun p => if files.contains p then some p else none

theorem filesOf_none {files : List Str} {p : Str} (h : p ∉ files) : filesOf files p = none :=
  if_neg (by simpa using h)

theorem disk_renames (files : List Str) : (disk files).Renames := fun _ _ => rfl

theorem disk_opens {files : List Str} (hfree : "log-lck".toList ∉ files)
    (hplain : ∀ e ∈ files, e ≠ [] ∧ '/' ∉ e) :
    Opens (disk files) (filesOf files) "log".toList
      (".".toList :: "..".toList :: "log-lck".toList :: files) where
  free := filesOf_none hfree
  mayCreate := rfl
  readdir := rfl
  lists := by
    intro e
    have hdir : dirPart "log".toList = [] := by decide
    have hlocked : locked (disk files) (filesOf files) "log".toList e ≠ none ↔
        e = "log-lck".toList ∨ e ∈ files := by
      by_cases hlock : e = "log-lck".toList
      · rw [hlock]
        have hnew : locked (disk files) (filesOf files) "log".toList "log-lck".toList =
            some [] := by
          rw [locked, Fs.set, if_pos (by decide)]
          rfl
        exact iff_of_true (by rw [hnew]; simp) (.inl rfl)
      · rw [locked_eq hlock, filesOf, or_iff_right hlock]
        by_cases hmem : e ∈ files <;> simp [hmem]
    rw [hdir, List.nil_append, hlocked, List.mem_cons, List.mem_cons, List.mem_cons]
    constructor
    · rintro (h | h | h | h)
      · exact .inl h
      · exact .inr (.inl h)
      · rw [h]
        exact .inr (.inr ⟨by decide, by decide, .inl rfl⟩)
      · exact .inr (.inr ⟨(hplain e h).1, (hplain e h).2, .inr h⟩)
    · rintro (h | h | ⟨-, -, h⟩)
      · exact .inl h
      · exact .inr (.inl h)
      · exact .inr (.inr h)

end Sample

/-- `log`, `log.1` and `log.3`. -/
theorem logfileRotate_exact_sample : ∃ ret fs',
    logfileRotate (Sample.disk ["log.3".toList, "log".toList, "log.1".toList])
      (Sample.filesOf ["log.3".toList, "log".toList, "log.1".toList]) "log".toList =
        some (ret, fs') ∧
    Rotated "log".toList (Sample.filesOf ["log.3".toList, "log".toList, "log.1".toList]) fs' := by
  refine (logfileRotate_exact (Sample.disk_renames _)
    (Sample.disk_opens (by decide) (by decide))).mpr ?_
  intro t _ _ hfile
  have hmem : "log".toList ++ '.' :: t ∈ ["log.3".toList, "log".toList, "log.1".toList] := by
    by_contra hmem
    exact hfile (Sample.filesOf_none hmem)
  simp only [List.mem_cons, List.not_mem_nil, or_false] at hmem
  rcases hmem with h | h | h
  · obtain rfl : t = "3".toList := (List.cons.inj (List.append_cancel_left h)).2
    decide
  · cases h
  · obtain rfl : t = "1".toList := (List.cons.inj (List.append_cancel_left h)).2
    decide

/-- A file `log.2147483647` has no next name. -/
theorem logfileRotate_full : ¬ ∃ ret fs',
    logfileRotate (Sample.disk ["log".toList, "log.2147483647".toList])
      (Sample.filesOf ["log".toList, "log.2147483647".toList]) "log".toList = some (ret, fs') ∧
    Rotated "log".toList (Sample.filesOf ["log".toList, "log.2147483647".toList]) fs' := by
  rintro ⟨ret, fs', hrun, -⟩
  rw [logfileRotate_eq (Sample.disk_opens (by decide) (by decide)) (Sample.disk_renames _),
    shift_over _ _ _ (by decide) (by decide)] at hrun
  cases hrun

end Voms.L5
