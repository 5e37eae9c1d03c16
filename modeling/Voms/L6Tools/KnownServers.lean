import Voms.L6Tools.ClientRun

/-!
# The servers a client knows

`vomsdata::loadfile` (`src/api/ccapi/voms_api.cc`) takes a file or a directory,
and goes through a directory to its end, whatever is in it. What does not load
says why in `error`, but for a directory that does not open and one with
nothing in it: after these `Client::LoadVomses` (`src/client/vomsclient.cc`)
judges by the error that was there before, of a file of another directory or
of the constructor of `vomsdata`.

* `loadfile_leaves`: what a file or a directory leaves is what its files leave
  one after the other; one that loads is enough.
* `loadVomses_exact`: the client reads all its configuration exactly if nothing
  stops it, and has then the records of all files.
* `start_exact`: it goes on exactly if in addition each VO it was asked for is
  named by a line of these files, before the first bad line of its file.
* `loadVomses_silent`: it stops without a word only if it was told both to
  ignore warnings and to fail on them.
-/
namespace Voms.L6.KnownServers

open Voms.Core Voms.L3 Voms.L4 Voms.L6.ClientRun

/-! ## Files and directories -/

/-- What is found under a name: nothing (`stat` fails); something with the bit
of `S_IFREG`, with what `std::ifstream` reads; something `opendir` does not
open; a directory, with the names `readdir` gives. -/
inductive Entry where
  | missing
  | regular (text : Option Str)
  | other
  | directory (names : List Str) (entry : Str → Entry)

def unspecified : Str := "Filename for vomses file or dir (system or user) unspecified!".toList

def notFound (filename : Str) : Str := "Cannot find file or dir: ".toList ++ filename

/-- Not the directory itself, and not the one it is in. -/
def inside (name : Str) : Bool := name ≠ ".".toList ∧ name ≠ "..".toList

/-- mirrors src/api/ccapi/voms_api.cc:646-682 -/
def loadfile : Entry → Str → List Contactdata → VomsData → Bool × List Contactdata × VomsData
  | entry, filename, servers, s =>
    if filename = [] then (false, servers, s.seterror .VERR_DIR unspecified)
    else match entry with
      | .missing => (false, servers, s.seterror .VERR_DIR (notFound filename))
      | .regular text => loadfile0 (fun _ => text) filename servers s
      | .other => (false, servers, s)
      | .directory names entry =>
        (names.filter inside).foldl (fun r name =>
          let (ok, servers, s) := loadfile (entry name) (filename ++ '/' :: name) r.2.1 r.2.2
          (r.1 || ok, servers, s)) (false, servers, s)

/-- mirrors src/api/ccapi/voms_api.cc:769-775 -/
def systemDir (dir : Str) : Str := if dir = [] then "/etc/vomses".toList else dir

def loadSystemContacts (disk : Str → Entry) (dir : Str) (servers : List Contactdata)
    (s : VomsData) : Bool × List Contactdata × VomsData :=
  loadfile (disk (systemDir dir)) (systemDir dir) servers s

/-! ## What the client does with them -/

/-- The file of the user and the list of files. -/
structure Configuration where
  userconf : Str
  confiles : List Str

def nonempty (getenv : Str → Option Str) (name : String) : Option Str :=
  (getenv name.toList).filter (· ≠ [])

/-- mirrors src/client/vomsclient.cc:540-553 -/
def homeConf (getenv : Str → Option Str) (fileexists : Str → Bool) : Str :=
  let home := (nonempty getenv "HOME").getD "~".toList
  let conf := home ++ "/.voms/vomses".toList
  if fileexists conf then conf else home ++ "/.glite/vomses".toList

/-- mirrors src/client/vomsclient.cc:530-536 -/
def userConf (getenv : Str → Option Str) (c : Configuration) : Configuration :=
  match nonempty getenv "VOMS_USERCONF" with
  | none => c
  | some uc => if c.userconf = [] then ⟨uc, c.confiles ++ [uc]⟩ else c

/-- Of `-userconf`, `-vomses` and the environment. mirrors src/client/vomsclient.cc:528-571 -/
def configure (getenv : Str → Option Str) (fileexists : Str → Bool) (confilename : Str)
    (c : Configuration) : Configuration :=
  let c := userConf getenv c
  let userconf := if c.userconf = [] then homeConf getenv fileexists else c.userconf
  if c.confiles = [] then ⟨userconf, [userconf, confilename]⟩ else ⟨[], c.confiles⟩

section

variable (disk : Str → Entry) (o : Settings) (c : Configuration)

/-- What is printed, the servers and the object.
mirrors src/client/vomsclient.cc:1219-1248 -/
def loadVomsesLoop : List Str → List Contactdata → VomsData →
    Bool × List Str × List Contactdata × VomsData
  | [], servers, s => (true, [], servers, s)
  | conf :: confiles, servers, s =>
    let (res, servers, s) := loadSystemContacts disk conf servers s
    if res then loadVomsesLoop confiles servers s
    else if s.error = .VERR_FORMAT then (false, [s.errmessage], servers, s)
    else if s.error = .VERR_DIR ∧ (conf ≠ c.userconf ∨ c.confiles.length = 1) then
      let printed := if !o.ignorewarn || c.confiles.length = 1 then [s.errmessage] else []
      if o.failonwarn || c.confiles.length = 1 then (false, printed, servers, s)
      else
        let (ok, more, r) := loadVomsesLoop confiles servers s
        (ok, printed ++ more, r)
    else loadVomsesLoop confiles servers s

def loadVomses (s : VomsData) : Bool × List Str × List Contactdata × VomsData :=
  loadVomsesLoop disk o c c.confiles [] s

/-- The servers and the object the client goes on with; without requests it
looks for none. mirrors src/client/vomsclient.cc:522-593 -/
def start (Y : System) (s : VomsData) : Option (List Contactdata × VomsData) :=
  if o.vomses = [] then some ([], s)
  else
    let (ok, _, servers, s) := loadVomses disk o c s
    if ok && preliminary { Y with servers := servers } o then some (servers, s) else none

end

/-- Only in the list that is made when none is given does the client look at
a file of the user as such, and whenever it looks at the file of the system. -/
theorem configure_cases {getenv : Str → Option Str} {fileexists : Str → Bool} {confilename : Str}
    {c c' : Configuration} (h : configure getenv fileexists confilename c = c') :
    (c'.userconf = [] ∧ c'.confiles ≠ [] ∧ c.confiles <+: c'.confiles) ∨
      c.confiles = [] ∧ c'.confiles = [c'.userconf, confilename] := by
  have hprefix : c.confiles <+: (userConf getenv c).confiles := by
    unfold userConf
    split
    · exact List.prefix_rfl
    · split
      · exact List.prefix_append ..
      · exact List.prefix_rfl
  subst h
  rw [configure]
  split
  · next hnil => exact .inr ⟨List.prefix_nil.mp (hnil ▸ hprefix), rfl⟩
  · next hne => exact .inl ⟨rfl, hne, hprefix⟩

/-! ## The files of a directory -/

/-- A name that was looked at, and what was found: nothing, a file that does
not open, or a text. -/
inductive Leaf where
  | missing (path : Str)
  | closed (path : Str)
  | text (path contents : Str)

namespace Leaf

/-- Why it does not load. -/
def error : Leaf → Option (VError × Str)
  | .missing path => some (.VERR_DIR, notFound path)
  | .closed path => some (.VERR_DIR, "Cannot open file: ".toList ++ path)
  | .text path contents =>
    (firstBad (getlines '\n' contents)).map fun line => (.VERR_FORMAT, formatError path line)

/-- The records of the lines before the first bad one. -/
def records : Leaf → List Contactdata
  | .text _ contents => (loaded (getlines '\n' contents)).filterMap recordOf
  | _ => []

def note (s : VomsData) (l : Leaf) : VomsData :=
  match l.error with
  | none => s
  | some (err, message) => s.seterror err message

end Leaf

/-- What is looked at, in this order. -/
def leaves : Entry → Str → List Leaf
  | .missing, path => [.missing path]
  | .regular none, path => [.closed path]
  | .regular (some text), path => [.text path text]
  | .other, _ => []
  | .directory names entry, path =>
    (names.filter inside).flatMap fun name => leaves (entry name) (path ++ '/' :: name)

/-- The result of going through these. -/
def outcome (ls : List Leaf) (servers : List Contactdata) (s : VomsData) :
    Bool × List Contactdata × VomsData :=
  (ls.any fun l => l.error.isNone, servers ++ ls.flatMap Leaf.records, ls.foldl Leaf.note s)

theorem loadfile0_leaf {filename : Str} (hname : filename ≠ []) (text : Option Str)
    (servers : List Contactdata) (s : VomsData) :
    loadfile0 (fun _ => text) filename servers s =
      outcome (leaves (.regular text) filename) servers s := by
  cases text with
  | none => simp [loadfile0, hname, outcome, leaves, Leaf.error, Leaf.records, Leaf.note]
  | some text =>
    have hload : loadfile0 (fun _ => some text) filename servers s =
        loadLines filename (getlines '\n' text) .new servers s := by
      rw [loadfile0, if_neg hname]
    rw [hload, loadLines_eq]
    cases hbad : firstBad (getlines '\n' text) <;>
      simp [outcome, leaves, Leaf.error, Leaf.records, Leaf.note, hbad]

/-- **A directory is its files one after the other, and one of them that loads
is enough.** -/
theorem loadfile_leaves (e : Entry) : ∀ {filename : Str}, filename ≠ [] →
    ∀ (servers : List Contactdata) (s : VomsData),
    loadfile e filename servers s = outcome (leaves e filename) servers s := by
  induction e with
  | missing =>
    intro filename hname servers s
    simp [loadfile, hname, outcome, leaves, Leaf.error, Leaf.records, Leaf.note]
  | regular text =>
    intro filename hname servers s
    rw [loadfile, if_neg hname]
    exact loadfile0_leaf hname text servers s
  | other =>
    intro filename hname servers s
    simp [loadfile, hname, outcome, leaves]
  | directory names entry ih =>
    intro filename hname servers s
    rw [loadfile, if_neg hname, leaves]
    -- over the names that are left, behind what the others gave
    suffices h : ∀ (l : List Str) (r : Bool × List Contactdata × VomsData),
        l.foldl (fun r name =>
            let x := loadfile (entry name) (filename ++ '/' :: name) r.2.1 r.2.2
            (r.1 || x.1, x.2.1, x.2.2)) r =
          let x := outcome (l.flatMap fun name => leaves (entry name) (filename ++ '/' :: name))
            r.2.1 r.2.2
          (r.1 || x.1, x.2.1, x.2.2) by
      exact h _ _
    intro l
    induction l with
    | nil => intro r; simp [outcome]
    | cons name l ihl =>
      intro r
      have hne : filename ++ '/' :: name ≠ [] := by simp
      rw [List.foldl_cons, ihl, ih name hne]
      simp [outcome, Bool.or_assoc]

/-- The error that is left is that of the last one that did not load. -/
theorem foldl_note (ls : List Leaf) (s : VomsData) :
    ls.foldl Leaf.note s =
      match (ls.filterMap Leaf.error).getLast? with
      | none => s
      | some (err, message) => s.seterror err message := by
  induction ls generalizing s with
  | nil => rfl
  | cons l ls ih =>
    rw [List.foldl_cons, ih, List.filterMap_cons]
    cases hl : l.error with
    | none => rw [Leaf.note, hl]
    | some e =>
      rw [Leaf.note, hl]
      cases hlast : (ls.filterMap Leaf.error).getLast? with
      | none => rw [List.getLast?_eq_none_iff.mp hlast]; rfl
      | some e' => rw [List.getLast?_cons, hlast]; rfl

/-! ## The configuration files -/

section

variable (disk : Str → Entry) (o : Settings) (c : Configuration)

/-- The files of a name in the list. -/
def leavesOf (conf : Str) : List Leaf := leaves (disk (systemDir conf)) (systemDir conf)

/-- How the object is left. -/
def after (confs : List Str) (s : VomsData) : VomsData :=
  (confs.flatMap (leavesOf disk)).foldl Leaf.note s

/-- Nothing of `conf` loads, and the error that is there then, of whatever
file, is one that ends the client. -/
structure Stops (conf : Str) (s : VomsData) : Prop where
  none_loads : ∀ l ∈ leavesOf disk conf, l.error ≠ none
  judged : s.error = .VERR_FORMAT ∨ s.error = .VERR_DIR ∧
    (conf ≠ c.userconf ∨ c.confiles.length = 1) ∧ (o.failonwarn = true ∨ c.confiles.length = 1)

end

section

variable {disk : Str → Entry} {o : Settings} {c : Configuration}

theorem loadSystemContacts_leaves (conf : Str) (servers : List Contactdata) (s : VomsData) :
    loadSystemContacts disk conf servers s = outcome (leavesOf disk conf) servers s := by
  have hne : systemDir conf ≠ [] := by
    unfold systemDir
    split
    · decide
    · assumption
  exact loadfile_leaves _ hne servers s

theorem after_cons (conf : Str) (confs : List Str) (s : VomsData) :
    after disk (conf :: confs) s = after disk confs ((leavesOf disk conf).foldl Leaf.note s) := by
  rw [after, List.flatMap_cons, List.foldl_append]
  rfl

/-- One name of the list: the loop ends there, or goes on with what the files
of the name have left. -/
theorem loadVomsesLoop_cons (conf : Str) (confs : List Str) (servers : List Contactdata)
    (s : VomsData) :
    let s1 := (leavesOf disk conf).foldl Leaf.note s
    let servers1 := servers ++ (leavesOf disk conf).flatMap Leaf.records
    let next := loadVomsesLoop disk o c confs servers1 s1
    (Stops disk o c conf s1 ∧ (∃ printed, loadVomsesLoop disk o c (conf :: confs) servers s =
        (false, printed, servers1, s1) ∧
        (printed = [] → o.failonwarn = true ∧ o.ignorewarn = true ∧ s1.error = .VERR_DIR))) ∨
      ¬ Stops disk o c conf s1 ∧ ∃ printed, loadVomsesLoop disk o c (conf :: confs) servers s =
        (next.1, printed ++ next.2.1, next.2.2) := by
  intro s1 servers1 next
  have hload : loadSystemContacts disk conf servers s =
      ((leavesOf disk conf).any fun l => l.error.isNone, servers1, s1) :=
    loadSystemContacts_leaves conf servers s
  rw [loadVomsesLoop, hload]
  dsimp only
  cases hany : (leavesOf disk conf).any fun l => l.error.isNone with
  | true =>
    obtain ⟨l, hl, hnone⟩ := List.any_eq_true.mp hany
    exact .inr ⟨fun h => h.none_loads l hl (Option.isNone_iff_eq_none.mp hnone), [], rfl⟩
  | false =>
    have hfail : ∀ l ∈ leavesOf disk conf, l.error ≠ none := fun l hl hnone =>
      List.any_eq_false.mp hany l hl (by rw [hnone]; rfl)
    rw [if_neg Bool.false_ne_true]
    by_cases hformat : s1.error = .VERR_FORMAT
    · rw [if_pos hformat]
      exact .inl ⟨⟨hfail, .inl hformat⟩, _, rfl, fun hnil => nomatch hnil⟩
    · rw [if_neg hformat]
      by_cases hdir : s1.error = .VERR_DIR ∧ (conf ≠ c.userconf ∨ c.confiles.length = 1)
      · rw [if_pos hdir]
        by_cases hfatal : o.failonwarn = true ∨ c.confiles.length = 1
        · rw [if_pos (by simpa using hfatal)]
          refine .inl ⟨⟨hfail, .inr ⟨hdir.1, hdir.2, hfatal⟩⟩, _, rfl, fun hnil => ?_⟩
          by_cases hprint : !o.ignorewarn || c.confiles.length = 1
          · rw [if_pos hprint] at hnil
            cases hnil
          · simp only [Bool.or_eq_true, Bool.not_eq_true', decide_eq_true_eq, not_or,
              Bool.not_eq_false] at hprint
            exact ⟨hfatal.resolve_right hprint.2, hprint.1, hdir.1⟩
        · rw [if_neg (by simpa using hfatal)]
          refine .inr ⟨fun h => ?_, _, rfl⟩
          rcases h.judged with h | ⟨-, -, h⟩
          · exact hformat h
          · exact hfatal h
      · rw [if_neg hdir]
        refine .inr ⟨fun h => ?_, [], rfl⟩
        rcases h.judged with h | ⟨h, hconf, -⟩
        · exact hformat h
        · exact hdir ⟨h, hconf⟩

/-- A list and the first of it. -/
theorem forall_split_cons {α : Type} {p : List α → α → Prop} {a : α} {l : List α} :
    (∀ pre x post, a :: l = pre ++ x :: post → p pre x) ↔
      p [] a ∧ ∀ pre x post, l = pre ++ x :: post → p (a :: pre) x := by
  constructor
  · intro h
    exact ⟨h [] a l rfl, fun pre x post hl => h (a :: pre) x post (by rw [hl]; rfl)⟩
  · rintro ⟨ha, hl⟩ pre x post h
    rcases List.cons_eq_append_iff.mp h with ⟨rfl, h⟩ | ⟨pre', rfl, h⟩
    · cases h
      exact ha
    · exact hl pre' x post (List.cons.inj h).2

theorem loadVomsesLoop_exact (confs : List Str) :
    ∀ (servers : List Contactdata) (s : VomsData),
    ((loadVomsesLoop disk o c confs servers s).1 = true ↔
        ∀ pre conf post, confs = pre ++ conf :: post →
          ¬ Stops disk o c conf (after disk (pre ++ [conf]) s)) ∧
      ((loadVomsesLoop disk o c confs servers s).1 = true →
        (loadVomsesLoop disk o c confs servers s).2.2 =
          (servers ++ (confs.flatMap (leavesOf disk)).flatMap Leaf.records,
            after disk confs s)) := by
  induction confs with
  | nil =>
    intro servers s
    refine ⟨⟨fun _ pre conf post h => ?_, fun _ => rfl⟩, fun _ => ?_⟩
    · simp at h
    · simp [loadVomsesLoop, after]
  | cons conf confs ih =>
    intro servers s
    have hsplit := forall_split_cons (a := conf) (l := confs)
      (p := fun pre x => ¬ Stops disk o c x (after disk (pre ++ [x]) s))
    have hfirst : after disk ([] ++ [conf]) s = (leavesOf disk conf).foldl Leaf.note s := by
      simp [after]
    obtain ⟨hex, hval⟩ := ih (servers ++ (leavesOf disk conf).flatMap Leaf.records)
      ((leavesOf disk conf).foldl Leaf.note s)
    simp only [List.cons_append, after_cons] at hsplit
    rw [hsplit, hfirst]
    rcases loadVomsesLoop_cons (c := c) conf confs servers s with
      ⟨hstops, printed, heq, -⟩ | ⟨hstops, printed, heq⟩
    · rw [heq]
      exact ⟨⟨fun h => (nomatch h), fun h => absurd hstops h.1⟩, fun h => (nomatch h)⟩
    · rw [heq]
      refine ⟨hex.trans (and_iff_right hstops).symm, fun h => ?_⟩
      rw [hval h, after_cons, List.flatMap_cons, List.flatMap_append, List.append_assoc]

/-- **The configuration is read exactly if nothing in the list stops the
client**: then its servers are the records of all the files, in their order. -/
theorem loadVomses_exact (s : VomsData) :
    ((loadVomses disk o c s).1 = true ↔
        ∀ pre conf post, c.confiles = pre ++ conf :: post →
          ¬ Stops disk o c conf (after disk (pre ++ [conf]) s)) ∧
      ((loadVomses disk o c s).1 = true →
        (loadVomses disk o c s).2.2 =
          ((c.confiles.flatMap (leavesOf disk)).flatMap Leaf.records, after disk c.confiles s)) :=
  loadVomsesLoop_exact c.confiles [] s

/-- Of the two files of `a` one is bad, and nothing is in `b`. -/
def Sample.tree (path : Str) : Entry :=
  if path = "a".toList then
    .directory [".".toList, "bad".toList, "good".toList] fun name =>
      .regular (some (if name = "good".toList then L4.Sample.vomses else "\"vo\"".toList))
  else .directory [] fun _ => .missing

/-- The bad file of `a` is passed over, and stops the client at `b`. -/
example :
    let read (confs : List Str) :=
      loadVomses Sample.tree (ClientRun.Sample.settings []) ⟨[], confs⟩ (.new [])
    (read ["a".toList]).1 = true ∧
      (read ["a".toList, "b".toList]).1 = false ∧
      (read ["a".toList, "b".toList]).2.1 = [formatError "a/bad".toList "\"vo\"".toList] := by
  decide +kernel

/-- **A client that stops here says why**, unless it is to ignore warnings and
to fail on them. -/
theorem loadVomses_silent (confs : List Str) : ∀ (servers : List Contactdata) (s : VomsData),
    (loadVomsesLoop disk o c confs servers s).1 = false →
    (loadVomsesLoop disk o c confs servers s).2.1 = [] →
    o.failonwarn = true ∧ o.ignorewarn = true := by
  induction confs with
  | nil =>
    intro servers s hfail
    cases hfail
  | cons conf confs ih =>
    intro servers s
    rcases loadVomsesLoop_cons (o := o) (c := c) conf confs servers s with
      ⟨-, printed, heq, hsilent⟩ | ⟨-, printed, heq⟩
    · rw [heq]
      exact fun _ hnil => ⟨(hsilent hnil).1, (hsilent hnil).2.1⟩
    · rw [heq]
      exact fun hfail hnil => ih _ _ hfail (List.append_eq_nil_iff.mp hnil).2

/-! ## The servers of the requests -/

/-- The requests that are looked at. -/
def lookedAt (o : Settings) : List Str := if o.listing then o.vomses.take 1 else o.vomses

theorem contact_alias (item : Str) :
    (if (Contact.new item).vo = [] then (Contact.new item).nick else (Contact.new item).vo) =
      (Contact.new item).nick := by
  unfold Contact.new
  split
  · simp
  · rfl

theorem preliminary_iff {Y : System} :
    preliminary Y o = true ↔
      ∀ item ∈ lookedAt o, ∃ r ∈ Y.servers, r.nick = (Contact.new item).nick := by
  rw [preliminary, List.all_eq_true]
  refine forall₂_congr fun item _ => ?_
  dsimp only
  rw [contact_alias, decide_eq_true_iff]
  constructor
  · intro hne
    obtain ⟨r, hr⟩ := List.exists_mem_of_ne_nil _ hne
    exact ⟨r, mem_findByAlias.mp hr⟩
  · rintro ⟨r, hr⟩
    exact List.ne_nil_of_mem (mem_findByAlias.mpr hr)

/-- **The client goes on exactly if nothing in its configuration stops it and
each VO is the alias of a record in one of the files**, in a line before the
first bad one. -/
theorem start_exact {Y : System} {s : VomsData} :
    (start disk o c Y s).isSome = true ↔ o.vomses = [] ∨
      (∀ pre conf post, c.confiles = pre ++ conf :: post →
        ¬ Stops disk o c conf (after disk (pre ++ [conf]) s)) ∧
      ∀ item ∈ lookedAt o, ∃ conf ∈ c.confiles, ∃ l ∈ leavesOf disk conf, ∃ r ∈ l.records,
        r.nick = (Contact.new item).nick := by
  obtain ⟨hloads, hservers⟩ := @loadVomses_exact disk o c s
  rw [← hloads, start]
  by_cases hvomses : o.vomses = []
  · rw [if_pos hvomses]
    exact ⟨fun _ => .inl hvomses, fun _ => rfl⟩
  rw [if_neg hvomses, or_iff_right hvomses]
  dsimp only
  cases hok : (loadVomses disk o c s).1 with
  | false => simp
  | true =>
    have hrecords : (loadVomses disk o c s).2.2.1 =
        (c.confiles.flatMap (leavesOf disk)).flatMap Leaf.records := by rw [hservers hok]
    have hpre := preliminary_iff (o := o)
      (Y := { Y with servers := (loadVomses disk o c s).2.2.1 })
    simp only [hrecords, List.mem_flatMap] at hpre
    rw [Bool.true_and, Option.isSome_ite, hrecords, hpre, eq_self, true_and]
    refine forall₂_congr fun item _ => ?_
    constructor
    · rintro ⟨r, ⟨l, ⟨conf, hconf, hl⟩, hr⟩, hnick⟩
      exact ⟨conf, hconf, l, hl, r, hr, hnick⟩
    · rintro ⟨conf, hconf, l, hl, r, hr, hnick⟩
      exact ⟨r, ⟨l, ⟨conf, hconf, hl⟩, hr⟩, hnick⟩

/-- Then every request has its servers when the run begins. -/
theorem start_known {Y : System} {s s' : VomsData} {servers : List Contactdata}
    (h : start disk o c Y s = some (servers, s')) (hlisting : o.listing = false)
    (hnamed : ∀ r ∈ servers, r.nick ≠ [] ∧ r.vo ≠ []) :
    Known { Y with servers := servers } o.vomses where
  named := hnamed
  servers item hitem _ := by
    unfold start at h
    split at h
    · next hnil =>
      rw [hnil] at hitem
      cases hitem
    · dsimp only at h
      split at h
      · next hboth =>
        obtain ⟨-, hpre⟩ := Bool.and_eq_true_iff.mp hboth
        cases h
        have hlooked : lookedAt o = o.vomses := by rw [lookedAt, hlisting]; rfl
        obtain ⟨r, hr, hnick⟩ := preliminary_iff.mp hpre item (hlooked ▸ hitem)
        exact List.ne_nil_of_mem (mem_findByAlias.mpr ⟨hr, hnick⟩)
      · cases h

end

end Voms.L6.KnownServers
