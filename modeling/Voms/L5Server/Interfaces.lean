import Voms.L5Server.Kept

/-!
# One request, two interfaces

A client asks for FQANs, an order, targets and a lifetime. `ContactRaw`
sends this as the URL of a GET, and as the old XML message if the answer
to the GET is not usable. On the first way the commands are turned into
FQANs by the client and into commands again by the server.

`sameRequest_iff` says when `makeAC` is asked for the same on both ways: no
name of a group or a role may contain one of the letters of the commands
before a slash, and "all" may only be asked for alone or behind something
else.
-/
namespace Voms.L5

open Voms.Core Voms.L3 Voms.L4

/-! ## The request line -/

/-- The end of a line: it goes on if the next one starts with a blank. -/
inductive LineEnd where
  | stop | more
  deriving DecidableEq, Repr

def lineEnd (len i : Int) (rest : Str) : LineEnd :=
  if i + 1 = len then .stop
  else if rest.head? = some ' ' ∨ rest.head? = some '\t' then .more
  else .stop

/-- The line, and what is left. A line longer than the buffer is an error, as
is the end of the data.
mirrors src/server/stdsoap2.c:10870-10898 -/
def soapGetline (len : Int) : Int → Str → Option (Str × Str)
  | _, [] => none
  | i, c :: rest =>
    let i := i - 1
    if 0 < i ∧ c ≠ '\r' ∧ c ≠ '\n' then
      (soapGetline len i rest).map fun (s, rest) => (c :: s, rest)
    else if 0 < i ∧ c = '\r' then
      match rest with
      | [] => none
      | c :: rest =>
        if c ≠ '\n' then soapGetline len i rest
        else if lineEnd len i rest = .more then soapGetline len i rest
        else if i < 0 then none else some ([], rest)
    else if c ≠ '\n' then soapGetline len i rest
    else if lineEnd len i rest = .more then soapGetline len i rest
    else if i < 0 then none else some ([], rest)

/-- `soap->path` of a GET; `endpoint` is what the `Host` header has left
there. Neither `endpoint` nor `path` can hold more than 1023 characters.
mirrors src/server/stdsoap2.c:12840-12844, 12890, 12901-12910 -/
def httpParse (endpoint request : Str) : Option Str := do
  let (msgbuf, _) ← soapGetline 1024 1024 request
  let msgbuf := cStr msgbuf
  let s ← strstr "HTTP/".toList msgbuf
  if "GET ".toList.isPrefixOf msgbuf then
    let m := endpoint.length
    let n := m + s - 5
    let m := min m n
    let n := if 1024 ≤ n then 1023 else n
    some ((msgbuf.drop 4).take (n - m))
  else none

/-! ## What is received -/

/-- What a message carries. No lifetime is sent but a positive one. -/
structure Payload where
  commands : List Str
  order : Str
  targets : Str
  lifetime : Option Int
  deriving DecidableEq, Repr

def payload (command order targets : Str) (lifetime : Int) : Payload :=
  ⟨getlines ',' command, order, targets, if lifetime ≤ 0 then none else some lifetime⟩

/-- The message is a function of the payload. -/
theorem xmlReqEncode_payload {c c' o o' t t' : Str} {l l' : Int}
    (h : payload c o t l = payload c' o' t' l') : xmlReqEncode c o t l = xmlReqEncode c' o' t' l' := by
  unfold payload at h
  injection h with hc ho ht hl
  unfold xmlReqEncode
  rw [hc, ho, ht]
  by_cases hpos : l ≤ 0
  · have hpos' : l' ≤ 0 := by
      by_contra hcon
      rw [if_pos hpos, if_neg hcon] at hl
      cases hl
    rw [if_pos hpos, if_pos hpos']
  · have hpos' : ¬ l' ≤ 0 := by
      intro hcon
      rw [if_neg hpos, if_pos hcon] at hl
      cases hl
    rw [if_neg hpos, if_neg hpos'] at hl
    rw [Option.some.inj hl]

/-- `makeAC` is asked for the same on both ways. -/
def SameRequest (maingroup endpoint hostname : Str) (port : Int) (w : Wish) : Prop :=
  ∃ command path received c o t l u, parseFqan (w.fqans.map Fqan.text) = some command ∧
    restPath command w.order w.targets w.lifetime = .ok path ∧
    httpParse endpoint (restRequest hostname port path) = some received ∧
    httpGet maingroup received = .makeACREST c o t l u ∧
    payload c o t l = payload command w.order (join ',' w.targets) w.lifetime

/-! ## The path that arrives -/

/-- gSOAP hands the path on as it is. -/
structure Whole (endpoint path : Str) : Prop where
  line : path.length ≤ 1010
  short : endpoint.length + path.length < 1024
  noLineFeed : '\n' ∉ path
  noReturn : '\r' ∉ path
  noNul : '\x00' ∉ path
  noHttp : ¬ "HTTP/".toList <:+: path

/-- A line that fits is read up to its end. -/
theorem soapGetline_line {len : Int} {b : Char} {rest : Str} (hb : b ≠ ' ' ∧ b ≠ '\t') :
    ∀ {line : Str} {i : Int}, '\n' ∉ line → '\r' ∉ line → line.length < i →
      soapGetline len i (line ++ '\n' :: b :: rest) = some (line, b :: rest)
  | [], i, _, _, hi => by
    have hstop : lineEnd len (i - 1) (b :: rest) ≠ .more := by
      unfold lineEnd
      split
      · nofun
      · rw [if_neg (by simpa using hb)]
        nofun
    have hi : (0 : Int) < i := by simpa using hi
    rw [List.nil_append, soapGetline]
    simp only [ne_eq, not_true, and_false, if_false, hstop]
    rw [if_neg (fun h => absurd h.2 (by decide)), if_neg (by omega)]
  | c :: line, i, hn, hr, hi => by
    obtain ⟨hc, hn⟩ := not_or.mp (mt List.mem_cons.mpr hn)
    obtain ⟨hc', hr⟩ := not_or.mp (mt List.mem_cons.mpr hr)
    rw [List.length_cons] at hi
    rw [List.cons_append, soapGetline.eq_def]
    simp only
    rw [if_pos ⟨by omega, Ne.symm hc', Ne.symm hc⟩, soapGetline_line hb hn hr (by omega)]
    rfl

/-- The request line and the first header. -/
theorem restRequest_eq (hostname path : Str) (port : Int) :
    ∃ rest, restRequest hostname port path =
      ("GET ".toList ++ path ++ " HTTP/1.0".toList) ++ '\n' :: 'U' :: rest := by
  refine ⟨"ser-Agent: voms APIs 2.0\nAccept: */*\nHost: ".toList ++ hostname ++ ":".toList ++
    decimal port ++ "\n\n".toList, ?_⟩
  have hversion : " HTTP/1.0\n".toList = " HTTP/1.0".toList ++ ['\n'] := rfl
  have hagent : "User-Agent: voms APIs 2.0\nAccept: */*\nHost: ".toList =
      'U' :: "ser-Agent: voms APIs 2.0\nAccept: */*\nHost: ".toList := rfl
  unfold restRequest
  rw [hversion, hagent]
  simp only [List.append_assoc, List.cons_append, List.nil_append]

/-- The version is found behind the path. -/
theorem strstr_version {path : Str} (h : ¬ "HTTP/".toList <:+: path) :
    strstr "HTTP/".toList ("GET ".toList ++ path ++ " HTTP/1.0".toList) = some (path.length + 5) := by
  have hnone : strstr "HTTP/".toList ("GET ".toList ++ path ++ " ".toList) = none := by
    rw [strstr_eq_none]
    intro hin
    have hcut : "GET ".toList ++ path ++ " ".toList = "GET".toList ++ ' ' :: (path ++ ' ' :: []) := by
      simp
    rw [hcut] at hin
    rcases infix_append_cons (by decide) hin with hin | hin
    · exact absurd hin (by decide)
    · rcases infix_append_cons (by decide) hin with hin | hin
      · exact h hin
      · exact absurd hin (by decide)
  have hself := @strstr_append_self "HTTP/".toList ("GET ".toList ++ path ++ " ".toList)
    "1.0".toList (fun k h0 h5 => by
      have h5 : k < 5 := h5
      interval_cases k <;> decide) hnone
  have hlen : ("GET ".toList ++ path ++ " ".toList).length = path.length + 5 := by
    have hget : "GET ".toList.length = 4 := rfl
    have hblank : " ".toList.length = 1 := rfl
    rw [List.length_append, List.length_append, hget, hblank]
    omega
  rw [hlen] at hself
  rw [← hself]
  simp only [List.append_assoc]
  rfl

theorem httpParse_whole {endpoint hostname path : Str} {port : Int} (h : Whole endpoint path) :
    httpParse endpoint (restRequest hostname port path) = some path := by
  obtain ⟨rest, hrequest⟩ := restRequest_eq hostname path port
  have hmem : ∀ {c : Char}, c ∉ path → c ∉ "GET ".toList → c ∉ " HTTP/1.0".toList →
      c ∉ "GET ".toList ++ path ++ " HTTP/1.0".toList := by
    intro c hpath hget hversion
    rw [List.mem_append, List.mem_append, not_or, not_or]
    exact ⟨⟨hget, hpath⟩, hversion⟩
  have hlength : ("GET ".toList ++ path ++ " HTTP/1.0".toList).length = path.length + 13 := by
    have hget : "GET ".toList.length = 4 := rfl
    have hversion : " HTTP/1.0".toList.length = 9 := rfl
    rw [List.length_append, List.length_append, hget, hversion]
    omega
  have hline := @soapGetline_line 1024 'U' rest ⟨by decide, by decide⟩
    ("GET ".toList ++ path ++ " HTTP/1.0".toList) 1024
    (hmem h.noLineFeed (by decide) (by decide)) (hmem h.noReturn (by decide) (by decide))
    (by have := h.line; omega)
  have hcstr := cStr_of_noNul (hmem h.noNul (by decide) (by decide))
  have hfind := strstr_version h.noHttp
  unfold httpParse
  rw [hrequest, hline]
  simp only [Option.bind_eq_bind, Option.bind_some, hcstr, hfind]
  have hget : "GET ".toList.isPrefixOf ("GET ".toList ++ path ++ " HTTP/1.0".toList) = true := by
    rw [List.append_assoc]
    exact List.isPrefixOf_iff_prefix.mpr (List.prefix_append _ _)
  have hdrop : ("GET ".toList ++ path ++ " HTTP/1.0".toList).drop 4 = path ++ " HTTP/1.0".toList := by
    rw [List.append_assoc]
    rfl
  have hroom := h.short
  have hn : endpoint.length + (path.length + 5) - 5 = endpoint.length + path.length := by omega
  have hm : min endpoint.length (endpoint.length + path.length) = endpoint.length := by omega
  have htake : endpoint.length + path.length - endpoint.length = path.length := by omega
  rw [if_pos hget, hn, hm, if_neg (by omega), htake, hdrop, List.take_left]

/-! ## The URL -/

variable {w : Wish}

/-- The part of the URL behind the question mark, by its parameters. -/
def Wish.parameters (w : Wish) : List Str :=
  ["fqans=".toList ++ w.parameter, "lifetime=".toList ++ decimal w.lifetime] ++
    (if w.order = [] then [] else ["order=".toList ++ w.order]) ++
    (if w.targets = [] then [] else ["targets=".toList ++ join ',' w.targets])

def Wish.url (w : Wish) : Str := "/generate-ac?".toList ++ join '&' w.parameters

theorem restPath_url (w : Wish) :
    restPath (join ',' w.commands) w.order w.targets w.lifetime = .ok w.url := by
  have hparameter : (if (join ',' w.commands).head? = some 'A' then "all".toList
      else rewritten (join ',' w.commands)) = w.parameter := rfl
  unfold restPath
  rw [parseCommands_eq (join_head w), hparameter, Res.ok_bind]
  refine congrArg Res.ok ?_
  unfold Wish.url Wish.parameters
  have hfirst : "/generate-ac?fqans=".toList = "/generate-ac?".toList ++ "fqans=".toList := rfl
  have hlife : "&lifetime=".toList = '&' :: "lifetime=".toList := rfl
  have horder : "&order=".toList = '&' :: "order=".toList := rfl
  have htargets : "&targets=".toList = '&' :: "targets=".toList := rfl
  rw [hfirst, hlife, horder, htargets]
  by_cases ho : w.order = [] <;> by_cases ht : w.targets = [] <;>
    simp [ho, ht, join, List.intercalate]

theorem getParameter_append {name value : Str} (h : '=' ∉ name) :
    getParameter (name ++ '=' :: value) = some (name, value) := by
  have hfind : strstr "=".toList (name ++ "=".toList ++ value) = some name.length :=
    strstr_append_self value (fun k h0 h1 => absurd (show k < 1 from h1) (by omega))
      (strstr_none_of_mem (show '=' ∈ "=".toList by decide) h)
  have hassoc : name ++ '=' :: value = name ++ "=".toList ++ value := by simp
  unfold getParameter
  rw [hassoc, hfind]
  simp

theorem parameter_notMem (h : ∀ f ∈ w.fqans, f.Acceptable) {c : Char} (hc : filter c = false)
    (hcolon : c ≠ ':') (hcomma : c ≠ ',') (hequals : c ≠ '=') : c ∉ w.parameter := by
  have hrole : c ∉ "/Role=".toList := by
    intro hmem
    have hfilter : ∀ d ∈ "/Role=".toList, filter d = true ∨ d = '=' :=
      forall_mem_of_all (by decide)
    rcases hfilter c hmem with h' | h'
    · rw [hc] at h'
      cases h'
    · exact hequals h'
  unfold Wish.parameter
  split
  · exact notMem_of_filter (by decide) hc
  · refine notMem_of_rewritten ?_ hrole
    intro hmem
    rcases mem_join hmem with hmem | ⟨s, hs, hmem⟩
    · exact hcomma hmem
    · exact command_notMem h hc hcolon s hs hmem

theorem notMem_decimal {c : Char} (hdigit : c.isDigit = false) (hminus : c ≠ '-') (n : Int) :
    c ∉ decimal n := by
  have hnat : ∀ n : Nat, c ∉ decimal (n : Int) := by
    intro n hmem
    rw [isDigit_of_mem_decimal hmem] at hdigit
    cases hdigit
  cases n with
  | ofNat n => exact hnat n
  | negSucc n =>
    rw [decimal_negSucc, List.mem_cons, not_or]
    refine ⟨hminus, ?_⟩
    have := hnat (n + 1)
    rw [decimal_ofNat] at this
    exact this

theorem read_parameter (q : RestParams) {name value : Str} (h : '=' ∉ name) :
    q.read (name ++ '=' :: value) = some (q.set name value) := by
  unfold RestParams.read
  rw [getParameter_append h]
  rfl

theorem read_order {q : RestParams} (h : q.orderstring = []) (order : Str) :
    (if order = [] then [] else ["order=".toList ++ order]).foldlM RestParams.read q =
      some { q with orderstring := order } := by
  split
  · next horder =>
    rw [horder, ← h]
    rfl
  · have hread := @read_parameter q "order".toList order (by decide)
    rw [List.foldlM_cons, show "order=".toList ++ order = "order".toList ++ '=' :: order from rfl,
      hread]
    refine congrArg some ?_
    show { q with orderstring := if q.orderstring = [] then order else _ } = _
    rw [if_pos h]

theorem read_targets {q : RestParams} (h : q.targetstring = []) (targets : List Str) :
    (if targets = [] then [] else ["targets=".toList ++ join ',' targets]).foldlM
      RestParams.read q = some { q with targetstring := join ',' targets } := by
  split
  · next htargets =>
    rw [htargets, show join ',' [] = [] from rfl, ← h]
    rfl
  · have hread := @read_parameter q "targets".toList (join ',' targets) (by decide)
    rw [List.foldlM_cons, show "targets=".toList ++ join ',' targets =
      "targets".toList ++ '=' :: join ',' targets from rfl, hread]
    rfl

/-- Without a separator in order and targets they arrive as they were. -/
theorem parseParameters_url (h : ∀ f ∈ w.fqans, f.Acceptable) (hlo : -2 ^ 31 ≤ w.lifetime)
    (hhi : w.lifetime < 2 ^ 31) (horder : '&' ∉ w.order) (htargets : '&' ∉ join ',' w.targets) :
    parseParameters (join '&' w.parameters) =
      some ⟨w.parameter.splitOn ',', w.lifetime, w.order, join ',' w.targets, false⟩ := by
  have hpieces : ∀ s ∈ w.parameters, '&' ∉ s := by
    have happend : ∀ {a b : Str}, '&' ∉ a → '&' ∉ b → '&' ∉ a ++ b := by
      intro a b ha hb
      rw [List.mem_append, not_or]
      exact ⟨ha, hb⟩
    intro s hs
    unfold Wish.parameters at hs
    rcases List.mem_append.mp hs with hs | hs
    · rcases List.mem_append.mp hs with hs | hs
      · rcases List.mem_cons.mp hs with rfl | hs
        · exact happend (by decide) (parameter_notMem h (by decide) (by decide) (by decide)
            (by decide))
        · rw [List.mem_singleton.mp hs]
          exact happend (by decide) (notMem_decimal (by decide) (by decide) _)
      · split at hs
        · cases hs
        · rw [List.mem_singleton.mp hs]
          exact happend (by decide) horder
    · split at hs
      · cases hs
      · rw [List.mem_singleton.mp hs]
        exact happend (by decide) htargets
  obtain ⟨rest, hrest⟩ : ∃ rest, w.parameters = ("fqans=".toList ++ w.parameter) :: rest := ⟨_, rfl⟩
  have hsplit : (join '&' w.parameters).splitOn '&' = w.parameters :=
    List.splitOn_intercalate '&' hpieces (by rw [hrest]; exact List.cons_ne_nil _ _)
  have hne : join '&' w.parameters ≠ [] := by
    intro hnil
    rw [hnil, hrest] at hsplit
    cases (List.cons.inj hsplit).1
  have hfqans := @read_parameter .new "fqans".toList w.parameter (by decide)
  have hlife := fun q => @read_parameter q "lifetime".toList (decimal w.lifetime) (by decide)
  have hfirst : ["fqans=".toList ++ w.parameter, "lifetime=".toList ++ decimal w.lifetime].foldlM
      RestParams.read .new = some ⟨w.parameter.splitOn ',', w.lifetime, [], [], false⟩ := by
    rw [List.foldlM_cons, show "fqans=".toList ++ w.parameter = "fqans".toList ++ '=' :: w.parameter
      from rfl, hfqans, Option.bind_eq_bind, Option.bind_some, List.foldlM_cons,
      show "lifetime=".toList ++ decimal w.lifetime = "lifetime".toList ++ '=' :: decimal w.lifetime
      from rfl, hlife]
    refine congrArg some ?_
    show (⟨[] ++ w.parameter.splitOn ',', atoi (decimal w.lifetime), [], [], false⟩ : RestParams) = _
    rw [atoi_decimal hlo hhi, List.nil_append]
  rw [parseParameters_eq hne, hsplit]
  unfold Wish.parameters
  rw [List.foldlM_append, List.foldlM_append, hfirst, Option.bind_eq_bind, Option.bind_some,
    read_order rfl, Option.bind_some, read_targets rfl]

/-- What is read from the pieces has none of the characters they lack. -/
theorem read_notMem {q q' : RestParams} {path : Str} (hpath : '&' ∉ path)
    (hq : '&' ∉ q.orderstring ∧ '&' ∉ q.targetstring) (h : q.read path = some q') :
    '&' ∉ q'.orderstring ∧ '&' ∉ q'.targetstring := by
  unfold RestParams.read at h
  obtain ⟨⟨cname, cvalue⟩, hget, rfl⟩ := Option.map_eq_some_iff.mp h
  obtain ⟨equal, -, heq⟩ := Option.map_eq_some_iff.mp hget
  have hvalue : '&' ∉ cvalue := by
    rw [← (Prod.mk.inj heq).2]
    exact fun hmem => hpath (List.mem_of_mem_drop hmem)
  show '&' ∉ (q.set cname cvalue).orderstring ∧ '&' ∉ (q.set cname cvalue).targetstring
  unfold RestParams.set
  split
  · exact hq
  · split
    · exact hq
    · split
      · refine ⟨?_, hq.2⟩
        simp only
        split
        · exact hvalue
        · simp only [List.mem_append, not_or]
          exact ⟨⟨hq.1, by decide⟩, hvalue⟩
      · split
        · exact ⟨hq.1, hvalue⟩
        · exact hq

theorem foldlM_notMem : ∀ {l : List Str} {q q' : RestParams}, (∀ s ∈ l, '&' ∉ s) →
    '&' ∉ q.orderstring ∧ '&' ∉ q.targetstring → l.foldlM RestParams.read q = some q' →
      '&' ∉ q'.orderstring ∧ '&' ∉ q'.targetstring
  | [], _, _, _, hq, h => by
    rw [← Option.some.inj h]
    exact hq
  | s :: l, _, _, hl, hq, h => by
    obtain ⟨q1, hread, h⟩ := Option.bind_eq_some_iff.mp h
    exact foldlM_notMem (fun t ht => hl t (List.mem_cons_of_mem _ ht))
      (read_notMem (hl s (List.mem_cons_self ..)) hq hread) h

/-- The handler, by the parameters of the URL. -/
theorem httpGet_url {maingroup : Str} (hnul : '\x00' ∉ w.url) :
    httpGet maingroup w.url = match parseParameters (join '&' w.parameters) with
      | none => .status 404
      | some q => match parseFqan (if q.fqans = [] then [maingroup] else q.fqans) with
        | none => .exit 1
        | some command => .makeACREST command q.orderstring q.targetstring q.lifetime q.unknown := by
  have hfind : strstr "?".toList w.url = some 12 := by
    unfold Wish.url
    have hcut : "/generate-ac?".toList ++ join '&' w.parameters =
        "/generate-ac".toList ++ "?".toList ++ join '&' w.parameters := rfl
    have hself := @strstr_append_self "?".toList "/generate-ac".toList (join '&' w.parameters)
      (fun k h0 h1 => absurd (show k < 1 from h1) (by omega)) (by decide)
    rw [hcut, hself]
    rfl
  have htake : w.url.take 12 = "/generate-ac".toList := rfl
  have hdrop : w.url.drop 13 = join '&' w.parameters := rfl
  have hcanon : cStr (canonicalizeString "/generate-ac".toList) = "/generate-ac".toList := by decide
  cases hparse : parseParameters (join '&' w.parameters) with
  | none =>
    simp only [httpGet, cStr_of_noNul hnul, hfind, htake, hdrop, hcanon, hparse, ne_eq, not_true,
      if_false, Option.elim_some]
  | some q =>
    cases hfqan : parseFqan (if q.fqans = [] then [maingroup] else q.fqans) with
    | none =>
      simp only [httpGet, cStr_of_noNul hnul, hfind, htake, hdrop, hcanon, hparse, hfqan, ne_eq,
        not_true, if_false, Option.elim_some]
    | some command =>
      simp only [httpGet, cStr_of_noNul hnul, hfind, htake, hdrop, hcanon, hparse, hfqan, ne_eq,
        not_true, if_false, Option.elim_some]

/-- **Both interfaces ask for the same.** Where gSOAP hands the URL on as it
is, `makeAC` gets the same commands, order, targets and lifetime from the
GET as from the old message, exactly if order and targets have no `&` and
what is asked for is kept. -/
theorem sameRequest_iff {maingroup endpoint hostname : Str} {port : Int} {w : Wish}
    (h : ∀ f ∈ w.fqans, f.Acceptable) (hlo : -2 ^ 31 ≤ w.lifetime) (hhi : w.lifetime < 2 ^ 31)
    (hwhole : Whole endpoint w.url) :
    SameRequest maingroup endpoint hostname port w ↔
      '&' ∉ w.order ∧ '&' ∉ join ',' w.targets ∧ w.KeepsFqans := by
  have hsame : SameRequest maingroup endpoint hostname port w ↔
      ∃ c o t l u, httpGet maingroup w.url = .makeACREST c o t l u ∧
        payload c o t l = payload (join ',' w.commands) w.order (join ',' w.targets) w.lifetime := by
    unfold SameRequest
    simp only [parseFqan_commands h, Option.some.injEq, exists_and_left, exists_eq_left',
      restPath_url, Res.ok.injEq, httpParse_whole hwhole]
  rw [hsame, httpGet_url hwhole.noNul]
  constructor
  · rintro ⟨c, o, t, l, u, hget, hpayload⟩
    obtain ⟨hcommands, ho, ht, -⟩ := Payload.mk.inj hpayload
    have hnot : '&' ∉ o ∧ '&' ∉ t := by
      cases hparse : parseParameters (join '&' w.parameters) with
      | none => rw [hparse] at hget; cases hget
      | some q =>
        rw [hparse] at hget
        have hq : '&' ∉ q.orderstring ∧ '&' ∉ q.targetstring := by
          unfold parseParameters at hparse
          split at hparse
          · cases hparse
          · exact foldlM_notMem (fun s hs => notMem_of_mem_splitOn hs)
              ⟨List.not_mem_nil, List.not_mem_nil⟩ hparse
        simp only at hget
        split at hget
        · cases hget
        · cases hget
          exact hq
    have horder : '&' ∉ w.order := ho ▸ hnot.1
    have htargets : '&' ∉ join ',' w.targets := ht ▸ hnot.2
    refine ⟨horder, htargets, (parameter_kept h).mp ?_⟩
    rw [parseParameters_url h hlo hhi horder htargets] at hget
    simp only [List.splitOn_ne_nil, if_false] at hget
    split at hget
    · cases hget
    · next command hcommand =>
      cases hget
      exact ⟨_, hcommand, hcommands⟩
  · rintro ⟨horder, htargets, hkeeps⟩
    obtain ⟨c, hc, hcommands⟩ := (parameter_kept h).mpr hkeeps
    rw [parseParameters_url h hlo hhi horder htargets]
    simp only [List.splitOn_ne_nil, if_false, hc]
    refine ⟨c, w.order, join ',' w.targets, w.lifetime, false, rfl, ?_⟩
    unfold payload
    rw [hcommands]

/-! ### Two wishes -/

namespace Sample

def endpoint : Str := "http://voms.example.org:15000".toList

/-- A group, and a role in another one. -/
def wish : Wish :=
  ⟨[.group "/vo".toList, .groupRole "/vo/g".toList "pilot".toList], "/vo/g:pilot".toList,
    ["a.example.org".toList, "b.example.org".toList], 3600⟩

/-- A group whose name ends in one of the letters. -/
def misread : Wish := ⟨[.group "/vo/WEB/dev".toList], [], [], 3600⟩

instance (s : Str) : Decidable (Plain s) := by
  unfold Plain
  infer_instance

theorem wish_url : wish.url =
    ("/generate-ac?fqans=/vo,/vo/g/Role=pilot&lifetime=3600&order=/vo/g:pilot".toList ++
      "&targets=a.example.org,b.example.org".toList) := by decide +kernel

theorem wish_whole : Whole endpoint wish.url := by
  rw [wish_url]
  exact ⟨by decide, by decide, by decide, by decide, by decide, by decide +kernel⟩

end Sample

/-- `sameRequest_iff` for a group, and a role in another one. -/
theorem sameRequest_sample : SameRequest "/vo".toList Sample.endpoint "voms.example.org".toList 15000
    Sample.wish := by
  refine (sameRequest_iff ?_ (by decide) (by decide) Sample.wish_whole).mpr
    ⟨by decide, by decide, ?_⟩
  · intro f hf
    rcases List.mem_cons.mp hf with rfl | hf
    · exact (by decide : "/vo".toList.all filter = true)
    · rw [List.mem_singleton.mp hf]
      exact ⟨by decide, by decide⟩
  · unfold Wish.KeepsFqans
    rw [if_neg (by decide)]
    intro f hf
    rcases List.mem_cons.mp hf with rfl | hf
    · exact Or.inr (Or.inr (Or.inl (by decide)))
    · rw [List.mem_singleton.mp hf, Fqan.Kept, if_neg (by decide)]
      exact ⟨0, "vo/g/Role=pilot".toList, rfl, by decide⟩

/-- The GET asks for the group `/vo/WE/dev`. -/
theorem sameRequest_fails :
    (∀ f ∈ Sample.misread.fqans, f.Acceptable) ∧
    restPath "G/vo/WEB/dev".toList [] [] 3600 =
      .ok "/generate-ac?fqans=/vo/WE/dev&lifetime=3600".toList ∧
    ¬ SameRequest "/vo".toList Sample.endpoint "voms.example.org".toList 15000 Sample.misread := by
  have hpath : restPath "G/vo/WEB/dev".toList [] [] 3600 =
      .ok "/generate-ac?fqans=/vo/WE/dev&lifetime=3600".toList := by decide
  have hget : httpGet "/vo".toList "/generate-ac?fqans=/vo/WE/dev&lifetime=3600".toList =
      .makeACREST "G/vo/WE/dev".toList [] [] 3600 false := by decide
  refine ⟨?_, hpath, ?_⟩
  · intro f hf
    rw [List.mem_singleton.mp hf]
    exact (by decide : "/vo/WEB/dev".toList.all filter = true)
  rintro ⟨command, path, received, c, o, t, l, u, hc, hp, hr, hg, hpayload⟩
  cases hc
  cases hpath.symm.trans hp
  rw [httpParse_whole ⟨by decide, by decide, by decide, by decide, by decide, by decide⟩] at hr
  cases hr
  cases hget.symm.trans hg
  exact absurd hpayload (by decide)

end Voms.L5
