import Voms.L4Api.Safety

/-!
# The paths `check` opens

`check` and `check_from_certs` (`src/api/ccapi/api_util.cc`) put the VO and
the host name of an AC into paths below `voms_cert_dir`, before any
signature is verified and without looking at what they contain.

* `opened`: the paths that are opened or listed. `check_opened`: nothing
  else of the file system matters.
* `staysBelow_iff`: when all of them are below `voms_cert_dir`. A slash or
  `..` in one of the names leads out, and so does the entry `..` that
  `readdir` lists among the others.

Paths are compared as text: symbolic links are not followed. The store
`ca_cert_dir` of the chain's verification is no part of the search.
-/
namespace Voms.L4

open Voms.Core Voms.L1 Voms.L2

/-! ## Paths -/

/-- A name that goes neither down nor up. -/
def Neutral (name : Str) : Prop := name = [] ∨ name = ".".toList

instance (name : Str) : Decidable (Neutral name) :=
  inferInstanceAs (Decidable (name = [] ∨ name = ".".toList))

/-- Following the names never leads above the start. -/
def stays : Nat → List Str → Bool
  | _, [] => true
  | depth, name :: rest =>
    if Neutral name then stays depth rest
    else if name = "..".toList then
      match depth with
      | 0 => false
      | depth + 1 => stays depth rest
    else stays (depth + 1) rest

/-- The path is that of the directory, or of something in it. -/
def Below (directory path : Str) : Prop :=
  path = directory ∨
    ∃ rest, path = directory ++ '/' :: rest ∧ stays 0 (rest.splitOn '/') = true

/-- A name that is more than one component, or the parent. -/
def Wild (name : Str) : Prop := '/' ∈ name ∨ name = "..".toList

theorem not_below_self {directory rest : Str} : directory ++ '/' :: rest ≠ directory := by
  intro h
  have := congrArg List.length h
  simp at this

theorem below_iff {directory rest : Str} :
    Below directory (directory ++ '/' :: rest) ↔ stays 0 (rest.splitOn '/') = true := by
  unfold Below
  constructor
  · rintro (h | ⟨rest', h, hstays⟩)
    · exact absurd h not_below_self
    · cases List.append_cancel_left h
      exact hstays
  · exact fun h => Or.inr ⟨rest, rfl, h⟩

theorem stays_one {name : Str} : stays 0 [name] = true ↔ name ≠ "..".toList := by
  unfold stays
  split
  · next h =>
    refine iff_of_true rfl ?_
    rcases h with rfl | rfl <;> decide
  · split
    · next h => exact iff_of_false Bool.false_ne_true fun hne => hne h
    · next h => exact iff_of_true rfl h

theorem stays_two {first second : Str} (h : first ≠ "..".toList) :
    stays 0 [first, second] = true ↔ (Neutral first → second ≠ "..".toList) := by
  have hdeep : stays 1 [second] = true := by
    unfold stays
    split
    · rfl
    · split <;> rfl
  rw [stays]
  by_cases hneutral : Neutral first
  · rw [if_pos hneutral, stays_one]
    exact ⟨fun hne _ => hne, fun hne => hne hneutral⟩
  · rw [if_neg hneutral, if_neg h]
    exact iff_of_true hdeep fun hn => absurd hn hneutral

/-- One name below the directory. -/
theorem below_name {directory name : Str} (h : '/' ∉ name) :
    Below directory (directory ++ '/' :: name) ↔ name ≠ "..".toList := by
  rw [below_iff, List.splitOn_eq_singleton h, stays_one]

/-- And one more. -/
theorem below_names {directory first second : Str} (hfirst : ¬ Wild first) (h : '/' ∉ second) :
    Below directory (directory ++ '/' :: (first ++ '/' :: second)) ↔
      (Neutral first → second ≠ "..".toList) := by
  obtain ⟨hslash, hparent⟩ := not_or.mp hfirst
  rw [below_iff, List.splitOn_append_cons_of_beq _ _ (beq_self_eq_true _),
    List.splitOn_eq_singleton hslash, List.splitOn_eq_singleton h]
  exact stays_two hparent

/-! ## What is opened -/

/-- The names of a directory, up to the file whose certificate is taken. -/
def visited (F : Files) (ac : Ac) (directory : Str) : List Str → List Str
  | [] => []
  | name :: rest =>
    name ::
      if (F.readPem (directory ++ "/".toList ++ name)).any (sigAcOk F.toWorld ac) then []
      else visited F ac directory rest

/-- The directories that are tried, with the names each is searched for. -/
def scans (F : Files) (ac : Ac) : List Str → List (Str × List Str)
  | [] => []
  | directory :: rest =>
    (directory, visited F ac directory ((F.opendir directory).getD [])) ::
      if (candidates F directory).any (sigAcOk F.toWorld ac) then [] else scans F ac rest

/-- A directory and its files. -/
def pathsOf (scan : Str × List Str) : List Str :=
  scan.1 :: scan.2.map fun name => scan.1 ++ "/".toList ++ name

/-- The LSC file, if it is tried. -/
def lscPaths (ac : Ac) (s : VomsData) (voname hostname : Str) : List Str :=
  if (certseqExt ac).isSome then
    [s.vomsCertDir ++ "/".toList ++ voname ++ "/".toList ++ hostname ++ ".lsc".toList]
  else []

/-- The directories, if they are searched. -/
def searches (F : Files) (ac : Ac) (s : VomsData) (voname hostname : Str) :
    List (Str × List Str) :=
  if lscFile F s ac voname hostname = none then scans F ac (vomsDirectories s voname) else []

/-- The paths `check` opens or lists, in order. -/
def opened (F : Files) (ac : Ac) (s : VomsData) : List Str :=
  match voOfAc ac with
  | .ok (voname, hostname) =>
    lscPaths ac s voname hostname ++ (searches F ac s voname hostname).flatMap pathsOf
  | _ => []

theorem lscFile_opened {F F' : Files} {ac : Ac} {s : VomsData} {voname hostname : Str}
    (h : ∀ path ∈ lscPaths ac s voname hostname, F'.openFile path = F.openFile path) :
    lscFile F' s ac voname hostname = lscFile F s ac voname hostname := by
  unfold lscPaths at h
  unfold lscFile
  by_cases hcerts : (certseqExt ac).isSome = true
  · rw [if_pos hcerts] at h
    simp only [if_pos hcerts, h _ (List.mem_singleton_self _)]
  · simp only [if_neg hcerts]

section

variable {F F' : Files} {ac : Ac} (hworld : F'.toWorld = F.toWorld)
include hworld

theorem scanDirectory_visited {directory : Str} : ∀ {names : List Str} {s : VomsData},
    (∀ name ∈ visited F ac directory names,
      F'.readPem (directory ++ "/".toList ++ name) = F.readPem (directory ++ "/".toList ++ name)) →
      scanDirectory F' ac directory names s = scanDirectory F ac directory names s
  | [], _, _ => rfl
  | name :: rest, s, h => by
    obtain ⟨hname, hrest⟩ := List.forall_mem_cons.mp h
    unfold scanDirectory
    rw [hname]
    cases hx : F.readPem (directory ++ "/".toList ++ name) with
    | none =>
      rw [hx] at hrest
      exact scanDirectory_visited hrest
    | some x =>
      simp only [hworld]
      rw [checkSigAc_fst]
      cases hsig : sigAcOk F.toWorld ac x with
      | true => rfl
      | false =>
        rw [hx, Option.any_some, hsig] at hrest
        exact scanDirectory_visited hrest

theorem scanDirectories_visited : ∀ {directories : List Str} {s : VomsData},
    (∀ path ∈ (scans F ac directories).flatMap pathsOf,
      F'.opendir path = F.opendir path ∧ F'.readPem path = F.readPem path) →
      scanDirectories F' ac directories s = scanDirectories F ac directories s
  | [], _, _ => rfl
  | directory :: rest, s, h => by
    unfold scans at h
    rw [List.flatMap_cons, List.forall_mem_append] at h
    obtain ⟨hhere, hrest⟩ := h
    unfold pathsOf at hhere
    obtain ⟨⟨hopendir, -⟩, hnames⟩ := List.forall_mem_cons.mp hhere
    unfold scanDirectories
    rw [hopendir]
    cases hdir : F.opendir directory with
    | none =>
      unfold candidates at hrest
      rw [hdir] at hrest
      exact scanDirectories_visited hrest
    | some names =>
      have hscan : scanDirectory F' ac directory names s = scanDirectory F ac directory names s := by
        refine scanDirectory_visited hworld fun name hname => ?_
        refine (hnames _ (List.mem_map_of_mem ?_)).2
        rw [hdir]
        exact hname
      have hfst := scanDirectory_fst F ac directory names s
      simp only [hscan]
      cases hr : scanDirectory F ac directory names s with
      | mk x s' =>
        cases x with
        | some x => rfl
        | none =>
          have hnone : (candidates F directory).any (sigAcOk F.toWorld ac) = false := by
            rw [hr] at hfst
            unfold candidates
            rw [hdir]
            exact List.any_eq_false.mpr (List.find?_eq_none.mp hfst.symm)
          rw [hnone] at hrest
          exact scanDirectories_visited hrest

theorem checkFromCerts_visited {voname : Str} {s : VomsData}
    (h : ∀ path ∈ (scans F ac (vomsDirectories s voname)).flatMap pathsOf,
      F'.opendir path = F.opendir path ∧ F'.readPem path = F.readPem path) :
    checkFromCerts F' ac voname s = checkFromCerts F ac voname s := by
  unfold checkFromCerts
  rw [hworld, scanDirectories_visited hworld h]

/-- **What `opened` leaves out does not matter.** -/
theorem check_opened {s : VomsData}
    (h : ∀ path ∈ opened F ac s, F'.openFile path = F.openFile path ∧
      F'.opendir path = F.opendir path ∧ F'.readPem path = F.readPem path) :
    check F' ac s = check F ac s := by
  unfold opened at h
  cases hvo : voOfAc ac with
  | err e => unfold check; rw [hvo]
  | fault f => unfold check; rw [hvo]
  | ok names =>
    obtain ⟨voname, hostname⟩ := names
    rw [hvo] at h
    obtain ⟨hlsc, hsearches⟩ := List.forall_mem_append.mp h
    rw [check_of_vo hvo, check_of_vo hvo, lscFile_opened fun path hpath => (hlsc path hpath).1]
    unfold searches at hsearches
    cases hfile : lscFile F s ac voname hostname with
    | some p =>
      unfold checkFromFile
      rw [hworld]
    | none =>
      rw [if_pos hfile] at hsearches
      have hcerts : checkFromCerts F' ac voname { s with error := .VERR_DIR } =
          checkFromCerts F ac voname { s with error := .VERR_DIR } :=
        checkFromCerts_visited hworld fun path hpath => (hsearches path hpath).2
      rw [hcerts]

end

/-! ## Where they are -/

/-- The VO or the host name would have to be refused; the other paths are
below `voms_cert_dir`. -/
structure StaysBelow (F : Files) (ac : Ac) (s : VomsData) : Prop where
  below : ∀ path ∈ opened F ac s, Below s.vomsCertDir path
  rejected : ∀ voname hostname, voOfAc ac = .ok (voname, hostname) →
    Wild voname ∨ Wild hostname → opened F ac s = []

/-- Both names are single components, and the search does not get to the
parent of `voms_cert_dir`. -/
structure Confined (F : Files) (ac : Ac) (s : VomsData) (voname hostname : Str) : Prop where
  vo : ¬ Wild voname
  host : ¬ Wild hostname
  parent : ∀ scan ∈ searches F ac s voname hostname, "..".toList ∈ scan.2 →
    scan.1 ≠ s.vomsCertDir ∧ ¬ Neutral voname

theorem mem_visited {F : Files} {ac : Ac} {directory : Str} : ∀ {names : List Str} {name : Str},
    name ∈ visited F ac directory names → name ∈ names
  | [], _, h => by cases h
  | name' :: rest, name, h => by
    rcases List.mem_cons.mp h with rfl | h
    · exact List.mem_cons_self
    · split at h
      · cases h
      · exact List.mem_cons_of_mem _ (mem_visited h)

theorem mem_scans {F : Files} {ac : Ac} : ∀ {directories : List Str} {scan : Str × List Str},
    scan ∈ scans F ac directories →
      scan.1 ∈ directories ∧ ∀ name ∈ scan.2, name ∈ (F.opendir scan.1).getD []
  | [], _, h => by cases h
  | directory :: rest, scan, h => by
    rcases List.mem_cons.mp h with rfl | h
    · exact ⟨List.mem_cons_self, fun name hname => mem_visited hname⟩
    · split at h
      · cases h
      · exact ⟨List.mem_cons_of_mem _ (mem_scans h).1, (mem_scans h).2⟩

theorem opened_of_vo {F : Files} {ac : Ac} {s : VomsData} {voname hostname : Str}
    (h : voOfAc ac = .ok (voname, hostname)) :
    opened F ac s =
      lscPaths ac s voname hostname ++ (searches F ac s voname hostname).flatMap pathsOf := by
  unfold opened
  rw [h]

/-- With a VO and a host name something is opened. -/
theorem opened_ne_nil {F : Files} {ac : Ac} {s : VomsData} {voname hostname : Str}
    (h : voOfAc ac = .ok (voname, hostname)) : opened F ac s ≠ [] := by
  rw [opened_of_vo h]
  unfold lscPaths searches
  by_cases hcerts : (certseqExt ac).isSome = true
  · rw [if_pos hcerts]
    exact List.cons_ne_nil _ _
  · have hfile : lscFile F s ac voname hostname = none := if_neg hcerts
    rw [if_pos hfile]
    unfold scans vomsDirectories pathsOf
    rw [if_neg hcerts]
    exact List.cons_ne_nil _ _

/-- The LSC file is below the directory for every host name. -/
theorem lscPaths_below {ac : Ac} {s : VomsData} {voname hostname : Str} (hvo : ¬ Wild voname)
    (hhost : ¬ Wild hostname) : ∀ path ∈ lscPaths ac s voname hostname, Below s.vomsCertDir path := by
  intro path hpath
  unfold lscPaths at hpath
  split at hpath
  · rw [List.mem_singleton.mp hpath]
    have hpath : s.vomsCertDir ++ "/".toList ++ voname ++ "/".toList ++ hostname ++ ".lsc".toList =
        s.vomsCertDir ++ '/' :: (voname ++ '/' :: (hostname ++ ".lsc".toList)) := by
      simp only [List.append_assoc]
      rfl
    have hslash : '/' ∉ hostname ++ ".lsc".toList := by
      rw [List.mem_append, not_or]
      exact ⟨fun h => hhost (Or.inl h), by decide⟩
    rw [hpath, below_names hvo hslash]
    intro _ heq
    have := congrArg List.length heq
    rw [List.length_append] at this
    change hostname.length + 4 = 2 at this
    omega
  · cases hpath

section

variable {F : Files} {ac : Ac} {s : VomsData} {voname hostname : Str}

/-- Which of the two directories a search is in. -/
theorem mem_searches {scan : Str × List Str} (h : scan ∈ searches F ac s voname hostname) :
    (scan.1 = s.vomsCertDir ++ '/' :: voname ∨ scan.1 = s.vomsCertDir) ∧
      ∀ name ∈ scan.2, name ∈ (F.opendir scan.1).getD [] := by
  unfold searches at h
  split at h
  · obtain ⟨hdir, hnames⟩ := mem_scans h
    refine ⟨?_, hnames⟩
    rcases List.mem_pair.mp hdir with hvo | hcertdir
    · left
      rw [hvo, List.append_assoc]
      rfl
    · exact Or.inr hcertdir
  · cases h

/-- A directory and its files are below, as far as none is the parent. -/
theorem pathsOf_below {scan : Str × List Str} (hvo : ¬ Wild voname)
    (hreaddir : ∀ path names, F.opendir path = some names → ∀ name ∈ names, '/' ∉ name)
    (h : scan ∈ searches F ac s voname hostname) :
    (∀ path ∈ pathsOf scan, Below s.vomsCertDir path) ↔
      ("..".toList ∈ scan.2 → scan.1 ≠ s.vomsCertDir ∧ ¬ Neutral voname) := by
  obtain ⟨hdir, hnames⟩ := mem_searches h
  have hslash : ∀ name ∈ scan.2, '/' ∉ name := by
    intro name hname
    cases hlist : F.opendir scan.1 with
    | none =>
      have := hnames name hname
      rw [hlist] at this
      cases this
    | some names =>
      have := hnames name hname
      rw [hlist] at this
      exact hreaddir _ _ hlist name this
  unfold pathsOf
  rw [List.forall_mem_cons, List.forall_mem_map]
  rcases hdir with hdir | hdir
  · have hpath (name : Str) : scan.1 ++ "/".toList ++ name =
        s.vomsCertDir ++ '/' :: (voname ++ '/' :: name) := by
      rw [hdir, List.append_assoc, List.append_assoc]
      rfl
    have hhere : Below s.vomsCertDir scan.1 := by
      rw [hdir, below_name fun h => hvo (Or.inl h)]
      exact fun h => hvo (Or.inr h)
    have hne : scan.1 ≠ s.vomsCertDir := hdir ▸ not_below_self
    constructor
    · intro hbelow hparent
      have hup := hbelow.2 _ hparent
      rw [hpath, below_names hvo (by decide)] at hup
      exact ⟨hne, fun hneutral => hup hneutral rfl⟩
    · refine fun hparent => ⟨hhere, fun name hname => ?_⟩
      rw [hpath, below_names hvo (hslash name hname)]
      rintro hneutral rfl
      exact (hparent hname).2 hneutral
  · have hpath (name : Str) : scan.1 ++ "/".toList ++ name = s.vomsCertDir ++ '/' :: name := by
      rw [hdir, List.append_assoc]
      rfl
    constructor
    · intro hbelow hparent
      have hup := hbelow.2 _ hparent
      rw [hpath, below_name (by decide)] at hup
      exact absurd rfl hup
    · refine fun hparent => ⟨Or.inl hdir, fun name hname => ?_⟩
      rw [hpath, below_name (hslash name hname)]
      rintro rfl
      exact (hparent hname).1 hdir

end

/-- **When the search stays below `voms_cert_dir`**, for every AC: exactly if
it has no VO and host name, or both are single components and the search
does not get to an entry `..` of the directory itself. The entries `readdir`
lists have no slash in them. -/
theorem staysBelow_iff {F : Files} {ac : Ac} {s : VomsData}
    (hreaddir : ∀ path names, F.opendir path = some names → ∀ name ∈ names, '/' ∉ name) :
    StaysBelow F ac s ↔ ∀ voname hostname, voOfAc ac = .ok (voname, hostname) →
      Confined F ac s voname hostname := by
  constructor
  · intro h voname hostname hvo
    have hwild : ¬ (Wild voname ∨ Wild hostname) := fun hwild =>
      opened_ne_nil hvo (h.rejected _ _ hvo hwild)
    obtain ⟨hvoname, hhostname⟩ := not_or.mp hwild
    refine ⟨hvoname, hhostname, fun scan hscan => (pathsOf_below hvoname hreaddir hscan).mp ?_⟩
    intro path hpath
    refine h.below path ?_
    rw [opened_of_vo hvo]
    exact List.mem_append_right _ (List.mem_flatMap_of_mem hscan hpath)
  · intro h
    constructor
    · intro path hpath
      cases hvo : voOfAc ac with
      | err e => unfold opened at hpath; rw [hvo] at hpath; cases hpath
      | fault f => unfold opened at hpath; rw [hvo] at hpath; cases hpath
      | ok names =>
        obtain ⟨voname, hostname⟩ := names
        have hconfined := h voname hostname hvo
        rw [opened_of_vo hvo] at hpath
        rcases List.mem_append.mp hpath with hpath | hpath
        · exact lscPaths_below hconfined.vo hconfined.host path hpath
        · obtain ⟨scan, hscan, hpath⟩ := List.mem_flatMap.mp hpath
          exact (pathsOf_below hconfined.vo hreaddir hscan).mpr (hconfined.parent scan hscan) path
            hpath
    · intro voname hostname hvo hwild
      have hconfined := h voname hostname hvo
      exact absurd hwild (not_or.mpr ⟨hconfined.vo, hconfined.host⟩)

namespace Sample

/-- The directory of the VO holds the server's certificate. -/
def listed : Files :=
  { files .good with
    opendir := fun path =>
      if path = "/etc/vomsdir/vo".toList then
        some [".".toList, "..".toList, "voms.pem".toList]
      else none
    readPem := fun path =>
      if path = "/etc/vomsdir/vo/voms.pem".toList then some Voms.L2.Sample.server else none }

/-- An AC for this VO and host, with these extensions. -/
def authority (uri : String) (extensions : List X509Ext) : Ac :=
  d2iAc { ac with
    acinfo := { ac.acinfo with
      attributes := [⟨.idatcap, [⟨[.uri uri.toList], []⟩]⟩]
      extensions := some extensions } }

/-- A VO that leads to the temporary files. -/
def traversal : Ac := authority "../../tmp://host:15000" Voms.L2.Sample.exts

end Sample

/-- `staysBelow_iff` where the certificate is found in the directory of the
VO, behind the entries `.` and `..`. -/
theorem staysBelow_listed :
    StaysBelow Sample.listed (Sample.authority "vo://host.example.org:15000" []) Sample.client := by
  have hvo : voOfAc (Sample.authority "vo://host.example.org:15000" []) =
      .ok ("vo".toList, "host.example.org".toList) := by rfl
  have hreaddir : ∀ path names, Sample.listed.opendir path = some names →
      ∀ name ∈ names, '/' ∉ name := by
    intro path names hnames
    unfold Sample.listed at hnames
    simp only at hnames
    split at hnames
    · cases hnames
      decide
    · cases hnames
  have hsearches : searches Sample.listed (Sample.authority "vo://host.example.org:15000" [])
      Sample.client "vo".toList "host.example.org".toList =
        [("/etc/vomsdir/vo".toList, [".".toList, "..".toList, "voms.pem".toList])] := by rfl
  refine (staysBelow_iff hreaddir).mpr fun voname hostname h => ?_
  cases hvo.symm.trans h
  refine ⟨not_or.mpr ⟨by decide, by decide⟩, not_or.mpr ⟨by decide, by decide⟩, ?_⟩
  intro scan hscan _
  rw [hsearches] at hscan
  cases List.mem_singleton.mp hscan
  exact ⟨by decide, by decide⟩

/-- The first file looked for is outside. -/
theorem staysBelow_traversal :
    "/etc/vomsdir/../../tmp/host.lsc".toList ∈
        opened (Sample.files .good) Sample.traversal Sample.client ∧
      ¬ Below Sample.client.vomsCertDir "/etc/vomsdir/../../tmp/host.lsc".toList ∧
      ¬ StaysBelow (Sample.files .good) Sample.traversal Sample.client := by
  have hopened : "/etc/vomsdir/../../tmp/host.lsc".toList ∈
      opened (Sample.files .good) Sample.traversal Sample.client := List.mem_cons_self
  have hbelow : ¬ Below Sample.client.vomsCertDir "/etc/vomsdir/../../tmp/host.lsc".toList := by
    intro h
    change Below "/etc/vomsdir".toList
      ("/etc/vomsdir".toList ++ '/' :: "../../tmp/host.lsc".toList) at h
    exact absurd (below_iff.mp h) (by decide)
  exact ⟨hopened, hbelow, fun h => hbelow (h.below _ hopened)⟩

end Voms.L4
