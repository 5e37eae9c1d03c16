import Voms.Core.Block
import Voms.L6Tools.ParseTime

/-!
# The parameters of voms-proxy-fake

`Fake::Fake` (`src/utils/vomsfake.cc`) fills a `struct vo` from the command
line, the actions of `src/utils/vomsfake.y` fill one from a voinfo file, and
`Fake::MakeACs` hands either to `writeac`. The two differ in where the hours
become seconds, in what is put between two targets, and in which lists end
with a NULL.

`fake_exact`: no voinfo file has a list of FQANs that ends, so the calls are
never the same. Argument by argument: the lifetime is the same only if it is
0, the targets if there are none, and the generic attributes if there is at
least one and the command line is read as what is in the file.

What is read from the file is taken from the grammar on: a parameter is what
an alternative of `voparam` reads.
-/
namespace Voms.L6

open Voms.Core

/-- A pointer to a text. A `stray` one was never assigned, or its text is gone. -/
inductive Ptr where
  | null
  | text (s : Str)
  | stray
  deriving DecidableEq, Repr

/-- What a function reads that is given the pointer. -/
def Ptr.read : Ptr → Eval (Option Str)
  | .null => pure none
  | .text s => pure (some s)
  | .stray => .fault .uninit

/-- What a loop reads that ends at a NULL. -/
def readArray : List Ptr → Eval (List Str)
  | [] => .fault .outOfRange
  | .null :: _ => pure []
  | .stray :: _ => .fault .uninit
  | .text s :: rest => do
    let l ← readArray rest
    pure (s :: l)

/-- `malloc(sizeof(char *) * n)`. -/
def mallocArray (n : Nat) : List Ptr := List.replicate n .stray

/-- `vomslife` is `none` after an overflow.
mirrors src/utils/fakeparsertypes.h -/
structure Vo where
  voname : Str
  hostcert : Option Str
  hostkey : Option Str
  fqansize : Nat
  fqans : Option (List Ptr)
  gasize : Nat
  gas : Option (List Ptr)
  vomslife : Option Int
  targets : Ptr
  uri : Option Str
  pastac : Option Str
  extensions : Option (List Ptr)
  extsize : Nat
  deriving DecidableEq, Repr

/-! ## From the command line -/

/-- The options that are about the VO. `vomslife` is -1 and `hours` 12 where
they are not given. -/
structure LineOptions where
  voms : Str
  hours : Int
  vomslife : Int
  hostcert : Str
  hostkey : Str
  uri : Str
  pastac : Str
  targets : List Str
  fqans : List Str
  galist : List Str
  acextensions : List Str
  deriving DecidableEq, Repr

/-- `while (isspace(*(--p))) *p = '\0';` from the byte `p` on. -/
def trimBefore (ga : Str) : Nat → Eval Str
  | 0 => .fault .outOfRange
  | p + 1 => do
    let c ← Block.load ga p
    if isSpace c then trimBefore (ga.set p '\x00') p else pure ga

/-- `none` is the return value 0. The last loop begins at the NUL that was
just stored and ends there.
mirrors src/utils/vomsfake.cc:544-582 -/
def parseGaValue (ga : Str) : Eval (Option (Str × Str × Str)) :=
  match ga.idxOf? '=' with
  | none => pure none
  | some eqpoint => do
    let qualpoint := ga.idxOf? '('
    let qualend := ga.idxOf? ')'
    let ga ← trimBefore (ga.set eqpoint '\x00') eqpoint
    let value := eqpoint + 1 + ((ga.drop (eqpoint + 1)).takeWhile isSpace).length
    match qualpoint, qualend with
    | none, _ => pure (some (cStr ga, cStr (ga.drop value), []))
    | some _, none => pure none
    | some qualpoint, some qualend =>
      let ga := (ga.set qualpoint '\x00').set qualend '\x00'
      pure (some (cStr ga, cStr (ga.drop value), cStr (ga.drop (qualpoint + 1))))

-- the blank in front of the qualifier stays
example : parseGaValue "nome = prova (q)".toList =
    .ok (some ("nome".toList, "prova ".toList, "q".toList)) := by decide

/-- `qual + "::" + id + "=" + value`. -/
def realGa (id value qual : Str) : Str := qual ++ "::".toList ++ id ++ "=".toList ++ value

/-- The loop over `galist`; gives `down` and the array. An entry that is not
parsed leaves its place as it is.
mirrors src/utils/vomsfake.cc:397-412 -/
def fillGas : List Str → Nat → Nat → List Ptr → Eval (Nat × List Ptr)
  | [], _, down, gas => pure (down, gas)
  | ga :: galist, i, down, gas => do
    match ← parseGaValue (cStr ga) with
    | some (id, value, qual) =>
      let gas ← Block.store gas i (.text (realGa id value qual))
      fillGas galist (i + 1) down gas
    | none => fillGas galist (i + 1) (down + 1) gas

/-- The `std::string` that `targets` points into is local to the block.
mirrors src/utils/vomsfake.cc:371-427 -/
def fromLine (o : LineOptions) : Eval Vo := do
  let vomslife := if o.vomslife = -1 then o.hours else o.vomslife
  let fqans := o.fqans.map (fun f => Ptr.text (cStr f)) ++ [.null]
  let (down, gas) ← fillGas o.galist 0 0 (mallocArray (o.galist.length + 1))
  let gas ← Block.store gas (o.galist.length - down) .null
  let targ := o.targets.flatten
  let extensions :=
    if o.acextensions = [] then none
    else some (o.acextensions.map (fun e => Ptr.text (cStr e)) ++ [.null])
  pure
    { voname := cStr o.voms, hostcert := some (cStr o.hostcert), hostkey := some (cStr o.hostkey)
      fqansize := 0, fqans := some fqans, gasize := 0, gas := some gas, vomslife := some vomslife
      targets := if targ = [] then .null else .stray, uri := some (cStr o.uri)
      pastac := some (cStr o.pastac), extensions, extsize := o.acextensions.length }

/-! ## From a voinfo file -/

def MAX_SIZE : Nat := 200

/-- What the alternatives of `voparam` read. -/
inductive VoParam where
  | plain (name value : Str)
  | pair (name id value : Str)
  | qualified (name id value qual : Str)
  deriving DecidableEq, Repr

/-- The name and the value that the actions put together.
mirrors src/utils/vomsfake.y:109-138 -/
def VoParam.param : VoParam → Str × Str
  | .plain name value => (name, value)
  | .pair name id value => (name, realGa id value [])
  | .qualified name id value qual => (name, realGa id value qual)

/-- mirrors src/utils/vomsfake.y:146-189 -/
def convertparam (vo : Vo) (param : Str × Str) : Eval Vo :=
  let (name, value) := param
  if name = "-hostcert".toList then pure { vo with hostcert := some value }
  else if name = "-hostkey".toList then pure { vo with hostkey := some value }
  else if name = "-fqan".toList then do
    let fqans ← Res.deref vo.fqans
    let fqans ← Block.store fqans vo.fqansize (.text value)
    pure { vo with fqans := some fqans, fqansize := vo.fqansize + 1 }
  else if name = "-vomslife".toList then
    pure { vo with vomslife := intResult (atoi value * 3600) }
  else if name = "-pastac".toList then pure { vo with pastac := some value }
  else if name = "-target".toList then do
    let targets ← vo.targets.read
    let targets :=
      match targets with
      | none => value
      | some targets => targets ++ ",".toList ++ value
    pure { vo with targets := .text targets }
  else if name = "-uri".toList then pure { vo with uri := some value }
  else if name = "-ga".toList then do
    let gas ← Res.deref vo.gas
    let gas ← Block.store gas vo.gasize (.text value)
    let gas ← Block.store gas (vo.gasize + 1) .null
    pure { vo with gas := some gas, gasize := vo.gasize + 1 }
  else if name = "-acextension".toList then do
    let extensions ← Res.deref vo.extensions
    let extensions ← Block.store extensions vo.extsize (.text value)
    pure { vo with extensions := some extensions, extsize := vo.extsize + 1 }
  else pure vo

/-- `calloc(1, sizeof(VO))` and the name. -/
def Vo.zero (voname : Str) : Vo :=
  ⟨voname, none, none, 0, none, 0, none, some 0, .null, none, none, none, 0⟩

/-- The arrays before the first parameter. -/
def Vo.start (voname : Str) : Vo :=
  { Vo.zero voname with
    fqans := some (mallocArray MAX_SIZE), gas := some (mallocArray MAX_SIZE)
    extensions := some (mallocArray MAX_SIZE) }

/-- Without parameters the arrays stay NULL.
mirrors src/utils/vomsfake.y:65-106 -/
def fromFile (voname : Str) (params : List VoParam) : Eval Vo :=
  if params = [] then pure (.zero voname)
  else if MAX_SIZE < params.length then .fault .outOfRange
  else (params.map VoParam.param).foldlM convertparam (.start voname)

/-- mirrors src/utils/vomsfake.cc:1035-1050 -/
def verifyVo (vo : Vo) : Bool :=
  vo.hostcert.isSome && vo.hostkey.isSome && vo.vomslife.all (0 ≤ ·)

/-! ## The call of `writeac` -/

/-- The arguments of a VO, as `writeac` reads them.
mirrors src/utils/vomsfake.cc:762-802 -/
def Vo.fqanlist (vo : Vo) : Eval (List Str) := readArray (vo.fqans.getD [.null])

def Vo.attributes (vo : Vo) : Eval (List Str) :=
  match vo.gas with
  | none => pure []
  | some gas => readArray gas

/-- `vo->vomslife * 3600`. -/
def Vo.valid (vo : Vo) : Option Int := vo.vomslife.bind fun vomslife => intResult (vomslife * 3600)

/-- Both are read without a fault, and what is read is the same. -/
def Agree {α : Type} (x y : Eval α) : Prop := ∃ a, x = .ok a ∧ y = .ok a

/-- The two calls are the same. -/
structure SameCall (line file : Vo) : Prop where
  valid : ∃ seconds, line.valid = some seconds ∧ file.valid = some seconds
  targets : Agree line.targets.read file.targets.read
  attributes : Agree line.attributes file.attributes
  fqanlist : Agree line.fqanlist file.fqanlist

/-! ## Arrays -/

theorem readArray_eq_ok : ∀ {a : List Ptr} {l : List Str},
    readArray a = .ok l ↔ ∃ rest, a = l.map .text ++ .null :: rest
  | [], l => iff_of_false nofun (fun ⟨rest, h⟩ => by simp at h)
  | .null :: a, l => by
    constructor
    · intro h
      cases h
      exact ⟨a, rfl⟩
    · rintro ⟨rest, h⟩
      cases l with
      | nil => rfl
      | cons s l => simp at h
  | .stray :: a, l => by
    refine iff_of_false nofun ?_
    rintro ⟨rest, h⟩
    cases l <;> simp at h
  | .text s :: a, l => by
    unfold readArray
    rw [Res.bind_eq_ok]
    constructor
    · rintro ⟨l', hl', h⟩
      cases h
      obtain ⟨rest, rfl⟩ := readArray_eq_ok.mp hl'
      exact ⟨rest, rfl⟩
    · rintro ⟨rest, h⟩
      cases l with
      | nil => simp at h
      | cons s' l =>
        simp only [List.map_cons, List.cons_append, List.cons.injEq, Ptr.text.injEq] at h
        obtain ⟨rfl, h⟩ := h
        exact ⟨l, readArray_eq_ok.mpr ⟨rest, h⟩, rfl⟩

/-- An array without a NULL does not end. -/
theorem readArray_ne_ok {a : List Ptr} {l : List Str} (h : .null ∉ a) : readArray a ≠ .ok l := by
  intro hread
  obtain ⟨rest, rfl⟩ := readArray_eq_ok.mp hread
  exact h (List.mem_append_right _ (List.mem_cons_self ..))

theorem null_not_mem_mallocArray (n : Nat) : .null ∉ mallocArray n := by
  intro h
  cases List.eq_of_mem_replicate h

/-! ## What the file gives -/

/-- The values of the parameters with a name. -/
def valuesOf (name : Str) (params : List (Str × Str)) : List Str :=
  (params.filter (·.1 = name)).map (·.2)

theorem valuesOf_concat {name : Str} {p : Str × Str} (params : List (Str × Str))
    (h : p.1 = name) : valuesOf name (params ++ [p]) = valuesOf name params ++ [p.2] := by
  simp [valuesOf, h]

theorem valuesOf_concat_ne {name : Str} {p : Str × Str} (params : List (Str × Str))
    (h : p.1 ≠ name) : valuesOf name (params ++ [p]) = valuesOf name params := by
  simp [valuesOf, h]

/-- After the parameters. -/
structure Built (params : List (Str × Str)) (vo : Vo) : Prop where
  fqans : ∃ a, vo.fqans = some a ∧ .null ∉ a
  gasize : vo.gasize = (valuesOf "-ga".toList params).length
  gas : ∃ rest, vo.gas = some ((valuesOf "-ga".toList params).map .text ++ rest) ∧
    if valuesOf "-ga".toList params = [] then .null ∉ rest else rest.head? = some .null
  targets : vo.targets = if valuesOf "-target".toList params = [] then .null
    else .text (join ',' (valuesOf "-target".toList params))
  vomslife : vo.vomslife = match (valuesOf "-vomslife".toList params).getLast? with
    | none => some 0
    | some v => intResult (atoi v * 3600)

theorem Built.start (voname : Str) : Built [] (.start voname) where
  fqans := ⟨_, rfl, null_not_mem_mallocArray _⟩
  gasize := rfl
  gas := ⟨mallocArray MAX_SIZE, rfl, null_not_mem_mallocArray MAX_SIZE⟩
  targets := rfl
  vomslife := rfl

/-- What one parameter can do to the fields of `Built`. -/
structure Converts (vo : Vo) (p : Str × Str) (vo' : Vo) : Prop where
  fqans : vo'.fqans = vo.fqans ∨
    ∃ a, vo.fqans = some a ∧ vo'.fqans = some (a.set vo.fqansize (.text p.2))
  gas : if p.1 = "-ga".toList then ∃ a, vo.gas = some a ∧ vo.gasize + 1 < a.length ∧
      vo'.gas = some ((a.set vo.gasize (.text p.2)).set (vo.gasize + 1) .null) ∧
      vo'.gasize = vo.gasize + 1
    else vo'.gas = vo.gas ∧ vo'.gasize = vo.gasize
  targets : if p.1 = "-target".toList then ∃ targets, vo.targets.read = .ok targets ∧
      vo'.targets = .text (match targets with
        | none => p.2
        | some targets => targets ++ ",".toList ++ p.2)
    else vo'.targets = vo.targets
  vomslife : vo'.vomslife =
    if p.1 = "-vomslife".toList then intResult (atoi p.2 * 3600) else vo.vomslife

/-- Most parameters leave these fields as they are, but for a slot of the FQANs. -/
theorem Converts.other {vo vo' : Vo} {name value : Str}
    (hname : name ≠ "-ga".toList ∧ name ≠ "-target".toList ∧ name ≠ "-vomslife".toList)
    (hfqans : vo'.fqans = vo.fqans ∨
      ∃ a, vo.fqans = some a ∧ vo'.fqans = some (a.set vo.fqansize (.text value)))
    (hgas : vo'.gas = vo.gas ∧ vo'.gasize = vo.gasize) (htargets : vo'.targets = vo.targets)
    (hlife : vo'.vomslife = vo.vomslife) : Converts vo (name, value) vo' where
  fqans := hfqans
  gas := by rwa [if_neg hname.1]
  targets := by rwa [if_neg hname.2.1]
  vomslife := by rwa [if_neg hname.2.2]

theorem convertparam_converts {vo vo' : Vo} {p : Str × Str} (h : convertparam vo p = .ok vo') :
    Converts vo p vo' := by
  obtain ⟨name, value⟩ := p
  unfold convertparam at h
  dsimp only at h
  split at h
  · next hname =>
    cases h
    exact .other (by subst hname; decide) (.inl rfl) ⟨rfl, rfl⟩ rfl rfl
  split at h
  · next hname =>
    cases h
    exact .other (by subst hname; decide) (.inl rfl) ⟨rfl, rfl⟩ rfl rfl
  split at h
  · next hname =>
    obtain ⟨a, ha, h⟩ := Res.bind_eq_ok.mp h
    obtain ⟨b, hb, h⟩ := Res.bind_eq_ok.mp h
    cases h
    obtain ⟨-, rfl⟩ := Block.store_eq_ok.mp hb
    exact .other (by subst hname; decide) (.inr ⟨a, Res.deref_eq_ok.mp ha, rfl⟩) ⟨rfl, rfl⟩ rfl rfl
  split at h
  · next hname =>
    cases h
    cases hname
    exact ⟨.inl rfl, ⟨rfl, rfl⟩, rfl, rfl⟩
  split at h
  · next hname =>
    cases h
    exact .other (by subst hname; decide) (.inl rfl) ⟨rfl, rfl⟩ rfl rfl
  split at h
  · next hname =>
    obtain ⟨targets, htargets, h⟩ := Res.bind_eq_ok.mp h
    cases h
    cases hname
    exact ⟨.inl rfl, ⟨rfl, rfl⟩, ⟨targets, htargets, rfl⟩, rfl⟩
  split at h
  · next hname =>
    cases h
    exact .other (by subst hname; decide) (.inl rfl) ⟨rfl, rfl⟩ rfl rfl
  split at h
  · next hname =>
    obtain ⟨a, ha, h⟩ := Res.bind_eq_ok.mp h
    obtain ⟨b, hb, h⟩ := Res.bind_eq_ok.mp h
    obtain ⟨c, hc, h⟩ := Res.bind_eq_ok.mp h
    cases h
    cases hname
    obtain ⟨-, rfl⟩ := Block.store_eq_ok.mp hb
    obtain ⟨hlen, rfl⟩ := Block.store_eq_ok.mp hc
    rw [List.length_set] at hlen
    exact ⟨.inl rfl, ⟨a, Res.deref_eq_ok.mp ha, hlen, rfl, rfl⟩, rfl, rfl⟩
  next hvomslife _ htarget _ hga =>
  split at h
  · obtain ⟨a, -, h⟩ := Res.bind_eq_ok.mp h
    obtain ⟨b, -, h⟩ := Res.bind_eq_ok.mp h
    cases h
    exact .other ⟨hga, htarget, hvomslife⟩ (.inl rfl) ⟨rfl, rfl⟩ rfl rfl
  · cases h
    exact .other ⟨hga, htarget, hvomslife⟩ (.inl rfl) ⟨rfl, rfl⟩ rfl rfl

/-- A text, and a NULL behind it, after those that are there. -/
theorem set_pair {l : List Str} {rest : List Ptr} {v : Str}
    (h : l.length + 1 < (l.map Ptr.text ++ rest).length) :
    ∃ rest', ((l.map Ptr.text ++ rest).set l.length (.text v)).set (l.length + 1) .null =
      (l ++ [v]).map .text ++ .null :: rest' := by
  rw [List.length_append, List.length_map] at h
  match rest with
  | [] => exact absurd h (by simp)
  | [_] => exact absurd h (by simp)
  | _ :: _ :: rest' =>
    refine ⟨rest', ?_⟩
    rw [List.set_append_right _ _ (by simp), List.set_append_right _ _ (by simp)]
    simp

section

variable {params : List (Str × Str)} {vo vo' : Vo} {p : Str × Str}

/-- A text is not a NULL. -/
theorem Built.step_fqans (h : Built params vo) (hc : Converts vo p vo') :
    ∃ a, vo'.fqans = some a ∧ .null ∉ a := by
  obtain ⟨a, ha, hnull⟩ := h.fqans
  obtain heq | ⟨b, hb, heq⟩ := hc.fqans
  · exact ⟨a, heq.trans ha, hnull⟩
  · rw [ha, Option.some.injEq] at hb
    subst hb
    refine ⟨_, heq, fun hmem => ?_⟩
    obtain hmem | hmem := List.mem_or_eq_of_mem_set hmem
    · exact hnull hmem
    · cases hmem

/-- The attributes end with a NULL from the first one on. -/
theorem Built.step_gas (h : Built params vo) (hc : Converts vo p vo') :
    vo'.gasize = (valuesOf "-ga".toList (params ++ [p])).length ∧
      ∃ rest, vo'.gas = some ((valuesOf "-ga".toList (params ++ [p])).map .text ++ rest) ∧
        if valuesOf "-ga".toList (params ++ [p]) = [] then .null ∉ rest
        else rest.head? = some .null := by
  have hgas := hc.gas
  obtain ⟨rest, ha, hrest⟩ := h.gas
  by_cases hname : p.1 = "-ga".toList
  · rw [if_pos hname] at hgas
    obtain ⟨a, hb, hlen, heq, hsize⟩ := hgas
    rw [ha, Option.some.injEq] at hb
    subst hb
    rw [h.gasize] at hlen heq hsize
    obtain ⟨rest', hset⟩ := set_pair (v := p.2) hlen
    rw [hset] at heq
    rw [valuesOf_concat _ hname, List.length_append]
    exact ⟨hsize, .null :: rest', heq, by simp⟩
  · rw [if_neg hname] at hgas
    rw [valuesOf_concat_ne _ hname]
    exact ⟨hgas.2.trans h.gasize, rest, hgas.1.trans ha, hrest⟩

/-- A comma stands between two targets. -/
theorem Built.step_targets (h : Built params vo) (hc : Converts vo p vo') :
    vo'.targets = if valuesOf "-target".toList (params ++ [p]) = [] then .null
      else .text (join ',' (valuesOf "-target".toList (params ++ [p]))) := by
  have htargets := hc.targets
  by_cases hname : p.1 = "-target".toList
  · rw [if_pos hname] at htargets
    obtain ⟨targets, hread, heq⟩ := htargets
    rw [valuesOf_concat _ hname, heq, if_neg (by simp)]
    rw [h.targets] at hread
    by_cases hnone : valuesOf "-target".toList params = []
    · rw [if_pos hnone] at hread
      cases hread
      rw [hnone]
      simp [join, List.intercalate]
    · rw [if_neg hnone] at hread
      cases hread
      rw [join_concat hnone]
      simp
  · rw [if_neg hname] at htargets
    rw [htargets, h.targets, valuesOf_concat_ne _ hname]

theorem Built.step_vomslife (h : Built params vo) (hc : Converts vo p vo') :
    vo'.vomslife = match (valuesOf "-vomslife".toList (params ++ [p])).getLast? with
      | none => some 0
      | some v => intResult (atoi v * 3600) := by
  have hlife := hc.vomslife
  by_cases hname : p.1 = "-vomslife".toList
  · rw [if_pos hname] at hlife
    rw [hlife, valuesOf_concat _ hname, List.getLast?_concat]
  · rw [if_neg hname] at hlife
    rw [hlife, h.vomslife, valuesOf_concat_ne _ hname]

theorem Built.step (h : Built params vo) (hc : Converts vo p vo') :
    Built (params ++ [p]) vo' where
  fqans := h.step_fqans hc
  gasize := (h.step_gas hc).1
  gas := (h.step_gas hc).2
  targets := h.step_targets hc
  vomslife := h.step_vomslife hc

end

theorem Built.foldlM : ∀ {params done : List (Str × Str)} {vo vo' : Vo}, Built done vo →
    params.foldlM convertparam vo = .ok vo' → Built (done ++ params) vo'
  | [], done, vo, vo', hb, h => by
    cases h
    rwa [List.append_nil]
  | p :: params, done, vo, vo', hb, h => by
    rw [List.foldlM_cons] at h
    obtain ⟨t, ht, h⟩ := Res.bind_eq_ok.mp h
    have hnext := Built.foldlM (hb.step (convertparam_converts ht)) h
    rwa [List.append_assoc] at hnext

theorem fromFile_built {voname : Str} {params : List VoParam} {vo : Vo} (hparams : params ≠ [])
    (h : fromFile voname params = .ok vo) : Built (params.map VoParam.param) vo := by
  unfold fromFile at h
  rw [if_neg hparams] at h
  split at h
  · cases h
  · exact (Built.start voname).foldlM h

/-! ## What the command line gives -/

/-- The command line is read as what is in the file. -/
def ReadsAs (ga : Str) (value : Str) : Prop :=
  ∃ id v qual, parseGaValue (cStr ga) = .ok (some (id, v, qual)) ∧ realGa id v qual = value

/-- What an entry leaves in its place. -/
def gaPtr : Option (Str × Str × Str) → Ptr
  | some (id, value, qual) => .text (realGa id value qual)
  | none => .stray

theorem fillGas_eq : ∀ {galist : List Str} {pre rest : List Ptr} {down down' : Nat}
    {gas : List Ptr},
    fillGas galist pre.length down (pre ++ List.replicate galist.length .stray ++ rest) =
      .ok (down', gas) →
    ∃ rs, List.Forall₂ (fun ga r => parseGaValue (cStr ga) = .ok r) galist rs ∧
      down' = down + rs.countP Option.isNone ∧ gas = pre ++ rs.map gaPtr ++ rest
  | [], pre, rest, down, down', gas, h => by
    cases h
    exact ⟨[], .nil, rfl, by simp⟩
  | ga :: galist, pre, rest, down, down', gas, h => by
    unfold fillGas at h
    obtain ⟨r, hr, h⟩ := Res.bind_eq_ok.mp h
    have hnext {p : Ptr} {d : Nat} (hp : p = gaPtr r)
        (hd : d = down + if r.isNone then 1 else 0)
        (h : fillGas galist (pre.length + 1) d
          (pre ++ p :: (List.replicate galist.length .stray ++ rest)) = .ok (down', gas)) :
        ∃ rs, List.Forall₂ (fun ga r => parseGaValue (cStr ga) = .ok r) (ga :: galist) rs ∧
          down' = down + rs.countP Option.isNone ∧ gas = pre ++ rs.map gaPtr ++ rest := by
      have hshift : pre ++ p :: (List.replicate galist.length .stray ++ rest) =
          (pre ++ [p]) ++ List.replicate galist.length .stray ++ rest := by simp
      rw [hshift, show pre.length + 1 = (pre ++ [p]).length by simp] at h
      obtain ⟨rs, hrs, hdown, hgas⟩ := fillGas_eq h
      refine ⟨r :: rs, .cons hr hrs, ?_, ?_⟩
      · rw [hdown, hd, List.countP_cons]
        omega
      · rw [hgas, hp]
        simp
    cases r with
    | none => exact hnext (p := .stray) rfl rfl (by simpa [List.replicate_succ] using h)
    | some r =>
      obtain ⟨gas', hstore, h⟩ := Res.bind_eq_ok.mp h
      obtain ⟨-, rfl⟩ := Block.store_eq_ok.mp hstore
      obtain ⟨id, value, qual⟩ := r
      exact hnext (p := .text (realGa id value qual)) rfl rfl
        (by simpa [List.replicate_succ] using h)

theorem ReadsAs.iff {ga value : Str} {r : Option (Str × Str × Str)}
    (h : parseGaValue (cStr ga) = .ok r) : ReadsAs ga value ↔ gaPtr r = .text value := by
  unfold ReadsAs
  rw [h]
  cases r with
  | none => simp [gaPtr]
  | some r =>
    obtain ⟨id, v, qual⟩ := r
    simp [gaPtr]

/-- The array holds the values of the file if every entry is read as one. -/
theorem map_gaPtr_iff {galist : List Str} {rs : List (Option (Str × Str × Str))} {l : List Str}
    (h : List.Forall₂ (fun ga r => parseGaValue (cStr ga) = .ok r) galist rs) :
    rs.map gaPtr = l.map .text ↔ List.Forall₂ ReadsAs galist l := by
  induction h generalizing l with
  | nil => cases l <;> simp
  | @cons ga r galist rs hga _ ih =>
    cases l with
    | nil => simp
    | cons value l =>
      rw [List.map_cons, List.map_cons, List.cons.injEq, List.forall₂_cons, ih, ReadsAs.iff hga]

/-- The NULL is stored behind the entries only if all of them are read. -/
theorem readArray_gas {rs : List (Option (Str × Str × Str))} {l : List Str}
    (hlen : l.length = rs.length) :
    readArray ((rs.map gaPtr ++ [Ptr.stray]).set (rs.length - rs.countP Option.isNone) .null) =
      .ok l ↔ rs.map gaPtr = l.map .text := by
  have hset : (rs.map gaPtr ++ [Ptr.stray]).set rs.length .null = rs.map gaPtr ++ [.null] := by
    rw [List.set_append_right _ _ (by simp), List.length_map, Nat.sub_self]
    rfl
  rw [readArray_eq_ok]
  constructor
  · rintro ⟨rest, h⟩
    have hends := congrArg (·[rs.length]?) h
    rw [← hlen] at hends
    simp only [List.getElem?_append_right (Nat.le_of_eq (List.length_map Ptr.text)),
      List.length_map, Nat.sub_self, List.getElem?_cons_zero] at hends
    have hall : rs.countP Option.isNone = 0 := by
      by_contra hsome
      have hle := rs.countP_le_length (p := Option.isNone)
      rw [List.getElem?_set_ne (by omega), hlen] at hends
      simp at hends
    rw [hall, Nat.sub_zero, hset] at h
    exact (List.append_inj h (by simp [hlen])).1
  · intro h
    have hall : rs.countP Option.isNone = 0 := by
      rw [List.countP_eq_zero]
      rintro r hr hnone
      have hmem : gaPtr r ∈ l.map Ptr.text := h ▸ List.mem_map_of_mem hr
      obtain rfl := Option.isNone_iff_eq_none.mp hnone
      simp [gaPtr] at hmem
    rw [hall, Nat.sub_zero, hset, h]
    exact ⟨[], rfl⟩

/-- The arguments of a VO from the command line. -/
structure FromLine (o : LineOptions) (vo : Vo) : Prop where
  fqans : vo.fqans = some (o.fqans.map (fun f => Ptr.text (cStr f)) ++ [.null])
  attributes : ∀ l : List Str, l.length = o.galist.length →
    (vo.attributes = .ok l ↔ List.Forall₂ ReadsAs o.galist l)
  targets : vo.targets = if o.targets.flatten = [] then .null else .stray
  vomslife : vo.vomslife = some (if o.vomslife = -1 then o.hours else o.vomslife)

theorem fromLine_built {o : LineOptions} {vo : Vo} (h : fromLine o = .ok vo) : FromLine o vo := by
  unfold fromLine at h
  obtain ⟨⟨down, gas⟩, hfill, h⟩ := Res.bind_eq_ok.mp h
  obtain ⟨gas', hstore, h⟩ := Res.bind_eq_ok.mp h
  obtain rfl := Res.ok.inj h
  refine ⟨rfl, fun l hlen => ?_, rfl, rfl⟩
  obtain ⟨rs, hrs, hdown, rfl⟩ := @fillGas_eq o.galist [] [.stray] 0 down gas
    (by simpa [mallocArray, List.replicate_succ'] using hfill)
  obtain ⟨-, rfl⟩ := Block.store_eq_ok.mp hstore
  rw [Nat.zero_add] at hdown
  show readArray _ = .ok l ↔ _
  rw [hdown, hrs.length_eq, ← map_gaPtr_iff hrs, ← readArray_gas (hlen.trans hrs.length_eq)]
  rfl

/-! ## The two calls -/

/-- The text that gives a parameter of the file on the command line, where
blanks may stand between its parts. -/
def VoParam.Written : VoParam → Str → Prop
  | .plain _ value, ga => ga = value
  | .pair _ id value, ga => ∃ b1 b2 : Str, b1.all isSpace ∧ b2.all isSpace ∧
      ga = id ++ b1 ++ '=' :: (b2 ++ value)
  | .qualified _ id value qual, ga => ∃ b1 b2 b3 : Str, b1.all isSpace ∧ b2.all isSpace ∧
      b3.all isSpace ∧ ga = id ++ b1 ++ '=' :: (b2 ++ value ++ b3 ++ '(' :: (qual ++ [')']))

/-- The parameters of the file and the options are those of one VO. -/
structure SameParameters (o : LineOptions) (params : List VoParam) : Prop where
  vomslife : o.vomslife = match (valuesOf "-vomslife".toList (params.map VoParam.param)).getLast? with
    | none => -1
    | some v => atoi v
  targets : o.targets = valuesOf "-target".toList (params.map VoParam.param)
  fqans : o.fqans = valuesOf "-fqan".toList (params.map VoParam.param)
  galist : List.Forall₂ VoParam.Written (params.filter (·.param.1 = "-ga".toList)) o.galist

section

variable {o : LineOptions} {params : List VoParam} {line file : Vo}

/-- Hours that become seconds twice. -/
theorem valid_agree_iff (hsame : SameParameters o params) (hline : FromLine o line)
    (hfile : Built (params.map VoParam.param) file) (hverify : verifyVo file = true) :
    (∃ seconds, line.valid = some seconds ∧ file.valid = some seconds) ↔
      match (valuesOf "-vomslife".toList (params.map VoParam.param)).getLast? with
      | none => o.hours = 0
      | some v => atoi v = 0 := by
  have hlife := hfile.vomslife
  have hgiven := hsame.vomslife
  have hnonneg : ∀ t, file.vomslife = some t → 0 ≤ t := by
    intro t ht
    simp only [verifyVo, ht, Option.all_some, Bool.and_eq_true, decide_eq_true_eq] at hverify
    exact hverify.2
  unfold Vo.valid
  rw [hline.vomslife, Option.bind_some]
  simp only [Option.bind_eq_some_iff, intResult_eq_some]
  cases hlast : (valuesOf "-vomslife".toList (params.map VoParam.param)).getLast? with
  | none =>
    rw [hlast] at hlife hgiven
    dsimp only at hlife hgiven ⊢
    rw [hgiven, if_pos rfl, hlife]
    constructor
    · rintro ⟨seconds, ⟨hfirst, -, -⟩, _, ⟨⟩, hsecond, -, -⟩
      omega
    · intro hours
      exact ⟨0, by omega, 0, rfl, by omega⟩
  | some v =>
    rw [hlast] at hlife hgiven
    dsimp only at hlife hgiven ⊢
    rw [hgiven]
    constructor
    · rintro ⟨seconds, hfirst, t, ht, hsecond⟩
      have hpos := hnonneg t ht
      rw [hlife, intResult_eq_some] at ht
      have hne : atoi v ≠ -1 := by omega
      rw [if_neg hne] at hfirst
      omega
    · intro hzero
      rw [hzero, if_neg (by decide), hlife, hzero]
      exact ⟨0, by omega, 0, rfl, by omega⟩

theorem targets_agree_iff (hsame : SameParameters o params) (hline : FromLine o line)
    (hfile : Built (params.map VoParam.param) file) :
    Agree line.targets.read file.targets.read ↔ o.targets = [] := by
  rw [hline.targets, hfile.targets, ← hsame.targets]
  constructor
  · rintro ⟨t, hl, hf⟩
    by_contra hsome
    rw [if_neg hsome] at hf
    split at hl
    · cases hl
      cases hf
    · cases hl
  · intro hnone
    rw [hnone]
    exact ⟨none, rfl, rfl⟩

theorem attributes_agree_iff (hsame : SameParameters o params) (hline : FromLine o line)
    (hfile : Built (params.map VoParam.param) file) :
    Agree line.attributes file.attributes ↔ o.galist ≠ [] ∧
      List.Forall₂ ReadsAs o.galist (valuesOf "-ga".toList (params.map VoParam.param)) := by
  have hvalues : valuesOf "-ga".toList (params.map VoParam.param) =
      (params.filter (·.param.1 = "-ga".toList)).map (·.param.2) := by
    unfold valuesOf
    rw [List.filter_map, List.map_map]
    rfl
  have hlen : (valuesOf "-ga".toList (params.map VoParam.param)).length = o.galist.length := by
    rw [hvalues, List.length_map, hsame.galist.length_eq]
  obtain ⟨rest, hgas, hends⟩ := hfile.gas
  have hread : file.attributes =
      readArray ((valuesOf "-ga".toList (params.map VoParam.param)).map .text ++ rest) := by
    unfold Vo.attributes
    rw [hgas]
  unfold Agree
  rw [hread]
  by_cases hnone : o.galist = []
  · rw [hnone, List.length_nil, List.length_eq_zero_iff] at hlen
    rw [if_pos hlen] at hends
    rw [hlen]
    refine iff_of_false ?_ (fun h => h.1 hnone)
    rintro ⟨l, -, hl⟩
    exact readArray_ne_ok hends hl
  · have hsome : valuesOf "-ga".toList (params.map VoParam.param) ≠ [] := fun h => by
      rw [h, List.length_nil] at hlen
      exact hnone (List.length_eq_zero_iff.mp hlen.symm)
    rw [if_neg hsome] at hends
    obtain ⟨rest', rfl⟩ := List.head?_eq_some_iff.mp hends
    rw [readArray_eq_ok.mpr ⟨rest', rfl⟩, and_iff_right hnone, ← hline.attributes _ hlen]
    constructor
    · rintro ⟨l, hl, ⟨⟩⟩
      exact hl
    · exact fun hl => ⟨_, hl, rfl⟩

theorem fqanlist_unterminated (hfile : Built (params.map VoParam.param) file) (l : List Str) :
    file.fqanlist ≠ .ok l := by
  obtain ⟨a, ha, hnull⟩ := hfile.fqans
  unfold Vo.fqanlist
  rw [ha]
  exact readArray_ne_ok hnull

end

/-- **No parameters lead to the same call.** Of its arguments the list of
FQANs is never read to its end, and the others are the same as said here. -/
theorem fake_exact (o : LineOptions) (voname : Str) (params : List VoParam)
    (hsame : SameParameters o params) :
    (¬ ∃ line file, fromLine o = .ok line ∧ fromFile voname params = .ok file ∧
      verifyVo file = true ∧ SameCall line file) ∧
    ∀ line file, fromLine o = .ok line → fromFile voname params = .ok file →
      verifyVo file = true →
        ((∃ seconds, line.valid = some seconds ∧ file.valid = some seconds) ↔
          match (valuesOf "-vomslife".toList (params.map VoParam.param)).getLast? with
          | none => o.hours = 0
          | some v => atoi v = 0) ∧
        (Agree line.targets.read file.targets.read ↔ o.targets = []) ∧
        (Agree line.attributes file.attributes ↔ o.galist ≠ [] ∧
          List.Forall₂ ReadsAs o.galist (valuesOf "-ga".toList (params.map VoParam.param))) ∧
        ∀ l, file.fqanlist ≠ .ok l := by
  -- a VO without parameters has no host certificate
  have hbuilt {file : Vo} (hfile : fromFile voname params = .ok file)
      (hverify : verifyVo file = true) : Built (params.map VoParam.param) file := by
    refine fromFile_built (fun hparams => ?_) hfile
    unfold fromFile at hfile
    rw [if_pos hparams] at hfile
    obtain rfl := Res.ok.inj hfile
    cases hverify
  constructor
  · rintro ⟨line, file, -, hfile, hverify, hcall⟩
    obtain ⟨l, -, hl⟩ := hcall.fqanlist
    exact fqanlist_unterminated (hbuilt hfile hverify) l hl
  · intro line file hline hfile hverify
    have hl := fromLine_built hline
    have hf := hbuilt hfile hverify
    exact ⟨valid_agree_iff hsame hl hf hverify, targets_agree_iff hsame hl hf,
      attributes_agree_iff hsame hl hf, fqanlist_unterminated hf⟩

/-! ### One VO, twice -/

namespace Sample

def onLine : LineOptions where
  voms := "voms1".toList
  hours := 12
  vomslife := 10
  hostcert := "hostcert.pem".toList
  hostkey := "hostkey.pem".toList
  uri := "testmachine:5000".toList
  pastac := "0".toList
  targets := ["a.it".toList, "b.it".toList]
  fqans := ["/voms1".toList]
  galist := ["nome = prova".toList]
  acextensions := []

def inFile : List VoParam :=
  [.plain "-hostcert".toList "hostcert.pem".toList, .plain "-hostkey".toList "hostkey.pem".toList,
    .plain "-uri".toList "testmachine:5000".toList, .plain "-vomslife".toList "10".toList,
    .plain "-target".toList "a.it".toList, .plain "-target".toList "b.it".toList,
    .plain "-fqan".toList "/voms1".toList, .pair "-ga".toList "nome".toList "prova".toList]

theorem sameParameters : SameParameters onLine inFile where
  vomslife := by decide
  targets := by decide
  fqans := by decide
  galist := .cons ⟨" ".toList, " ".toList, by decide, by decide, rfl⟩ .nil

end Sample

/-- `fake_exact` for one VO. -/
theorem fake_exact_voms1 : ¬ ∃ line file, fromLine Sample.onLine = .ok line ∧
    fromFile "voms1".toList Sample.inFile = .ok file ∧ verifyVo file = true ∧
      SameCall line file :=
  (fake_exact Sample.onLine "voms1".toList Sample.inFile Sample.sameParameters).1

/-- Its ten hours are 36000 seconds on the command line and 129600000 from the
file; its targets are gone on the command line, and its FQANs do not end in
the file. -/
theorem fake_calls_differ :
    (fromFile "voms1".toList Sample.inFile >>= fun file => pure (verifyVo file)) = .ok true ∧
    (fromLine Sample.onLine >>= fun line => Res.deref line.valid) = .ok 36000 ∧
    (fromFile "voms1".toList Sample.inFile >>= fun file => Res.deref file.valid) = .ok 129600000 ∧
    (fromLine Sample.onLine >>= fun line => line.targets.read) = .fault .uninit ∧
    (fromFile "voms1".toList Sample.inFile >>= fun file => file.targets.read) =
      .ok (some "a.it,b.it".toList) ∧
    (fromLine Sample.onLine >>= Vo.fqanlist) = .ok ["/voms1".toList] ∧
    (fromFile "voms1".toList Sample.inFile >>= Vo.fqanlist) = .fault .uninit := by
  refine ⟨?_, ?_, ?_, ?_, ?_, ?_, ?_⟩ <;> decide +kernel

end Voms.L6
