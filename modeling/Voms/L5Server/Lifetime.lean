import Voms.L5Server.Asked
import Voms.L5Server.Commands

/-!
# How long an AC lasts

A lifetime goes through the text of a request, `makeAC` and `writeac`. To
the decoder a text that is absent or not a number is 0; to `makeAC` -1
stands for the configured validity, and 0 and below it for themselves; a URL
without a lifetime is -1, which is encoded as an empty text.
`issued_lasts_iff`: the AC lasts as long as it should exactly if the number
that was asked for, and the one in the last piece of its text, are `Granted`.
-/
namespace Voms.L5

open Voms.Core Voms.L1 Voms.L2 Voms.L3

/-! ## What is asked for -/

/-- The lifetime a client asks for: the number in the text of its XML or of
its URL, 0 without one. -/
def Server.asked (V : Server) : Arrival → Int
  | .execute message => atoi (lifetimePieces (V.expat message).1).flatten
  | .get path => atoi ((lifetimes (urlParameters path)).getLast?.getD [])

/-- The number in the last piece of that text. -/
def Server.taken (V : Server) (message : Str) : Int :=
  atoi ((lifetimePieces (shallow 0 (V.expat message).1)).getLast?.getD [])

/-- The lifetime `makeAC` takes: a URL is encoded first. -/
def Server.received (V : Server) (arrival : Arrival) : Int :=
  ((V.arrival arrival).map fun (_, message) => V.taken message).getD 0

/-- From a request handed over in whole texts the lifetime is taken as it was
written; one that is not positive is 0. -/
theorem taken_whole {V : Server} {command order targets : Str} {lifetime : Int}
    (hint : lifetime < 2 ^ 31)
    (h : V.expat (xmlReqEncode command order targets lifetime) =
      (requestDoc (getlines ',' command) order targets lifetime, true)) :
    V.taken (xmlReqEncode command order targets lifetime) =
      if lifetime ≤ 0 then 0 else lifetime := by
  have hdecode : xmlReqDecode V.toWire (xmlReqEncode command order targets lifetime) =
      some ⟨order, targets, getlines ',' command, atoi (lifetimeText lifetime), true, 4⟩ := by
    unfold xmlReqDecode
    rw [h, ← fold_request]
    rfl
  have htaken : atoi (lifetimeText lifetime) =
      V.taken (xmlReqEncode command order targets lifetime) := decoded_lifetime hdecode
  rw [← htaken]
  unfold lifetimeText
  split
  · decide
  · exact atoi_decimal (by omega) hint

/-- A message without a third level whose lifetime comes in one piece. -/
theorem received_execute {V : Server} {message : Str}
    (hshallow : shallow 0 (V.expat message).1 = (V.expat message).1)
    (hpiece : (lifetimePieces (V.expat message).1).length ≤ 1) :
    V.received (.execute message) = V.asked (.execute message) := by
  show V.taken message = atoi (lifetimePieces (V.expat message).1).flatten
  unfold Server.taken
  rw [hshallow]
  match lifetimePieces (V.expat message).1, hpiece with
  | [], _ => rfl
  | [s], _ => rw [List.getLast?_singleton, List.flatten_singleton]; rfl

/-- A URL whose encoded request is handed over in whole texts. -/
theorem received_get {V : Server} {path command order targets : Str} {requested : Int}
    {unknown : Bool}
    (hget : httpGet ("/".toList ++ V.voname) path =
      .makeACREST command order targets requested unknown)
    (h : V.expat (xmlReqEncode command order targets requested) =
      (requestDoc (getlines ',' command) order targets requested, true)) :
    V.received (.get path) =
      if V.asked (.get path) ≤ 0 then 0 else V.asked (.get path) := by
  have hrequested := httpGet_lifetime hget
  have hreceived : V.received (.get path) =
      V.taken (xmlReqEncode command order targets requested) := by
    unfold Server.received Server.arrival
    simp only [hget]
    rfl
  have hasked : V.asked (.get path) = atoi ((lifetimes (urlParameters path)).getLast?.getD []) :=
    rfl
  rw [hreceived, hasked]
  cases hlast : (lifetimes (urlParameters path)).getLast? with
  | none =>
    rw [hlast] at hrequested
    have hrequested : requested = -1 := hrequested
    subst hrequested
    rw [taken_whole (by decide) h]
    rfl
  | some value =>
    rw [hlast] at hrequested
    have hrequested : requested = atoi value := hrequested
    subst hrequested
    exact taken_whole (atoi_lt value) h

/-- How long the AC should last. -/
def due (validity asked : Int) : Int := if 0 < asked ∧ asked ≤ validity then asked else validity

theorem due_bounds {validity : Int} (h : 0 < validity) (asked : Int) :
    0 < due validity asked ∧ due validity asked ≤ validity := by
  unfold due
  split <;> omega

/-- The lifetime `makeAC` hands to `createac`. -/
def granted (validity lifetime : Int) : Int :=
  if lifetime = 0 then 0
  else if lifetime = -1 then validity
  else if validity < lifetime then validity
  else lifetime

/-- What was asked for is within the validity and is the number taken, or the
number taken stands for the validity. -/
def Granted (validity asked lifetime : Int) : Prop :=
  if 0 < asked ∧ asked ≤ validity then
    lifetime = asked ∨ (asked = validity ∧ (lifetime = -1 ∨ validity < lifetime))
  else lifetime = -1 ∨ lifetime = validity ∨ (validity < lifetime ∧ lifetime ≠ 0)

instance (validity asked lifetime : Int) : Decidable (Granted validity asked lifetime) := by
  unfold Granted
  infer_instance

theorem granted_eq_due_iff (validity asked lifetime : Int) :
    granted validity lifetime = due validity asked ↔ Granted validity asked lifetime := by
  unfold granted due Granted
  by_cases h : 0 < asked ∧ asked ≤ validity
  · rw [if_pos h, if_pos h]
    split
    · omega
    · split
      · omega
      · split <;> omega
  · rw [if_neg h, if_neg h]
    split
    · omega
    · split
      · omega
      · split <;> omega

/-- Of the requests in XML those with a positive lifetime are granted, and
those for -1. -/
theorem granted_execute_iff {validity lifetime : Int} (h : 0 < validity) :
    Granted validity lifetime lifetime ↔ 0 < lifetime ∨ lifetime = -1 := by
  unfold Granted
  split <;> omega

/-- Of the URLs those with a positive lifetime are. -/
theorem granted_get_iff {validity asked : Int} (h : 0 < validity) :
    Granted validity asked (if asked ≤ 0 then 0 else asked) ↔ 0 < asked := by
  unfold Granted
  split
  · split <;> omega
  · split <;> omega

theorem shortenValidity_eq (V : Server) (requested : Int) (vr : VomsResult) :
    (shortenValidity V requested vr).1 = granted V.validity requested := by
  unfold shortenValidity granted
  by_cases h0 : requested = 0
  · simp [h0]
  · rw [if_pos h0, if_neg h0]
    by_cases h1 : requested = -1
    · rw [if_pos h1, if_pos h1]
    · rw [if_neg h1, if_neg h1]
      split <;> rfl

/-! ## What is issued -/

/-- A call of `makeAC` that answers with the AC `a`. -/
def Issues (V : Server) (D : Database) (vr : VomsResult) (P : Party) (message : Str) (a : Ac) :
    Prop :=
  ∃ sel vr' serial fqans attribs out,
    interpretRequest V D vr message = .ok (some sel, vr') ∧
      createac V.signer P.issuer V.ownStack P.holder P.key serial fqans sel.targs attribs V.voname
        V.uri sel.requested (!V.newformat) none = .ok a ∧
      makeAC V D vr P message = .ok out ∧ out.ret = true ∧ out.written = some fqans ∧
      out.vr.ac = V.i2dAc a

theorem writeAC_issued {V : Server} {P : Party} {sel : Selection} {fqans : List Str}
    {attribs : List Gattrib} {vr : VomsResult} {out : Outcome}
    (h : writeAC V P sel fqans attribs vr = .ok out) (hret : out.ret = true) :
    ∃ serial a,
      createac V.signer P.issuer V.ownStack P.holder P.key serial fqans sel.targs
        (attribs.map Gattrib.str) V.voname V.uri sel.requested (!V.newformat) none = .ok a ∧
      out.written = some fqans ∧ out.vr.ac = V.i2dAc a := by
  rcases writeAC_cases h with ⟨errs, written, -, -, rfl⟩ | ⟨serial, a, ha, rfl⟩
  · cases hret
  · exact ⟨serial, a, ha, rfl, rfl⟩

/-- An AC in an answer was written by `createac`. -/
theorem issueAC_issued {V : Server} {P : Party} {sel : Selection} {vr : VomsResult} {out : Outcome}
    (h : issueAC V P sel vr = .ok out) (hret : out.ret = true) (hac : out.vr.ac ≠ []) :
    ∃ serial a,
      createac V.signer P.issuer V.ownStack P.holder P.key serial (released V sel) sel.targs
        ((writtenAttribs V sel).map Gattrib.str) V.voname V.uri sel.requested (!V.newformat) none =
          .ok a ∧
      out.written = some (released V sel) ∧ out.vr.ac = V.i2dAc a := by
  rcases issueAC_cases h with ⟨message, rfl⟩ | ⟨message, rfl⟩ | ⟨-, message, rfl | h⟩
  · cases hret
  · cases hret
  · exact absurd rfl hac
  · exact writeAC_issued h hret

/-- A successful answer that carries an AC issues one. -/
theorem issues_of_makeAC {V : Server} {D : Database} {vr : VomsResult} {P : Party} {message : Str}
    {out : Outcome} (h : makeAC V D vr P message = .ok out) (hret : out.ret = true)
    (hac : out.vr.ac ≠ []) :
    ∃ a, Issues V D vr P message a ∧ out.vr.ac = V.i2dAc a := by
  have hmake := h
  unfold makeAC at h
  obtain ⟨⟨sel, vr'⟩, hint, h⟩ := Res.bind_eq_ok.mp h
  cases sel with
  | none =>
    cases h
    cases hret
  | some sel =>
    obtain ⟨serial, a, ha, hw, hout⟩ := issueAC_issued h hret hac
    exact ⟨a, ⟨sel, vr', serial, _, _, out, hint, ha, hmake, hret, hw, hout⟩, hout⟩

theorem interpretRequest_requested {V : Server} {D : Database} {vr vr' : VomsResult}
    {message : Str} {sel : Selection}
    (h : interpretRequest V D vr message = .ok (some sel, vr')) :
    sel.requested = granted V.validity (V.taken message) := by
  obtain ⟨r, _, _, short, _, _, hr, -, hshort, -, -, rfl⟩ := interpretRequest_ok h
  have htaken : r.lifetime = V.taken message := decoded_lifetime hr
  rw [← htaken, ← shortenValidity_eq V r.lifetime
    { vr with base64 := V.base64encoding || r.base64 }, hshort]

/-! ## The interval -/

/-- The AC is valid for `d` seconds: its two times were written `d` apart. -/
def Lasts (S : Signer) (a : Ac) (d : Int) : Prop :=
  ∃ info notBefore notAfter t, a.acinfo = some info ∧
    info.validity = some ⟨some notBefore, some notAfter⟩ ∧
    S.generalizedTimeSet t = some notBefore ∧ S.generalizedTimeSet (t + d) = some notAfter

/-- Different times are written differently. -/
def TimesDiffer (S : Signer) : Prop :=
  ∀ t t' x, S.generalizedTimeSet t = some x → S.generalizedTimeSet t' = some x → t = t'

theorem createac_lasts_iff {S : Signer} (hS : TimesDiffer S) {issuerc holder : X509}
    {issuerstack : Option (List X509)} {pkey : EvpPKey} {serial : Asn1Integer}
    {fqan targets attributes : List Str} {vo uri : Str} {valid : Int} {old : Bool} {a : Ac}
    (h : createac S issuerc issuerstack holder pkey serial fqan targets attributes vo uri valid old
      none = .ok a) (d : Int) : Lasts S a d ↔ valid = d := by
  obtain ⟨time1, time2, attrs, targ, h1, h2, -, -, rfl⟩ := createac_ok h
  constructor
  · rintro ⟨info, notBefore, notAfter, t, hinfo, hvalidity, hb, ha⟩
    cases hinfo
    cases hvalidity
    have hstart := hS _ _ _ hb h1
    have hend := hS _ _ _ ha h2
    omega
  · rintro rfl
    exact ⟨_, time1, time2, S.time, rfl, rfl, h1, h2⟩

/-- The request is answered with the AC `a`. -/
def IssuesTo (V : Server) (D : Database) (P : Party) (arrival : Arrival) (a : Ac) : Prop :=
  ∃ vr message, V.arrival arrival = some (vr, message) ∧ Issues V D vr P message a

/-- What decides is the lifetime that is taken. -/
theorem lasts_iff {V : Server} (hS : TimesDiffer V.signer) {D : Database} {P : Party}
    {arrival : Arrival} {a : Ac} (h : IssuesTo V D P arrival a) (d : Int) :
    Lasts V.signer a d ↔ granted V.validity (V.received arrival) = d := by
  obtain ⟨vr, message, harrival, sel, vr', serial, fqans, attribs, out, hint, ha, -⟩ := h
  have hreceived : V.received arrival = V.taken message := by
    unfold Server.received
    rw [harrival]
    rfl
  rw [createac_lasts_iff hS ha, interpretRequest_requested hint, hreceived]

/-- In XML whose texts come whole, a lifetime that is positive or -1 is granted. -/
theorem lasts_execute_iff {V : Server} (hS : TimesDiffer V.signer) (hvalidity : 0 < V.validity)
    {D : Database} {P : Party} {message : Str} {a : Ac} (h : IssuesTo V D P (.execute message) a)
    (hshallow : shallow 0 (V.expat message).1 = (V.expat message).1)
    (hpiece : (lifetimePieces (V.expat message).1).length ≤ 1) :
    Lasts V.signer a (due V.validity (V.asked (.execute message))) ↔
      0 < V.asked (.execute message) ∨ V.asked (.execute message) = -1 := by
  rw [lasts_iff hS h, granted_eq_due_iff, received_execute hshallow hpiece,
    granted_execute_iff hvalidity]

/-- In a URL only a positive one is. -/
theorem lasts_get_iff {V : Server} (hS : TimesDiffer V.signer) (hvalidity : 0 < V.validity)
    {D : Database} {P : Party} {path command order targets : Str} {requested : Int}
    {unknown : Bool} {a : Ac} (h : IssuesTo V D P (.get path) a)
    (hget : httpGet ("/".toList ++ V.voname) path =
      .makeACREST command order targets requested unknown)
    (hwhole : V.expat (xmlReqEncode command order targets requested) =
      (requestDoc (getlines ',' command) order targets requested, true)) :
    Lasts V.signer a (due V.validity (V.asked (.get path))) ↔ 0 < V.asked (.get path) := by
  rw [lasts_iff hS h, granted_eq_due_iff, received_get hget hwhole, granted_get_iff hvalidity]

/-- **An AC lasts as long as it should exactly if the lifetime is granted.** -/
theorem issued_lasts_iff {V : Server} (hS : TimesDiffer V.signer) {D : Database} {P : Party}
    {arrival : Arrival} {a : Ac} (h : IssuesTo V D P arrival a) :
    Lasts V.signer a (due V.validity (V.asked arrival)) ↔
      Granted V.validity (V.asked arrival) (V.received arrival) := by
  rw [lasts_iff hS h, granted_eq_due_iff]

namespace Sample

/-- The server with a parser that never cuts a text. -/
def timed : Server := { voServer with expat := plainParser requestProlog }

theorem timesDiffer : TimesDiffer timed.signer := by
  have hset : ∀ t x, timed.signer.generalizedTimeSet t = some x →
      t = 1704067200 ∧ x = Voms.L2.Sample.dawn ∨ t = 1704110400 ∧ x = Voms.L2.Sample.noon := by
    intro t x h
    have h : (if t = 1704067200 then some Voms.L2.Sample.dawn
      else if t = 1704110400 then some Voms.L2.Sample.noon else none) = some x := h
    split at h
    · next ht => exact Or.inl ⟨ht, (Option.some.inj h).symm⟩
    · split at h
      · next ht => exact Or.inr ⟨ht, (Option.some.inj h).symm⟩
      · cases h
  have hne : Voms.L2.Sample.dawn ≠ Voms.L2.Sample.noon := by decide
  intro t t' x h h'
  rcases hset t x h with ⟨rfl, rfl⟩ | ⟨rfl, rfl⟩
  · rcases hset t' _ h' with ⟨rfl, -⟩ | ⟨-, heq⟩
    · rfl
    · exact absurd heq hne
  · rcases hset t' _ h' with ⟨-, heq⟩ | ⟨rfl, -⟩
    · exact absurd heq.symm hne
    · rfl

/-- A request of the group of the VO. -/
def lasting (lifetime : Int) : Arrival := .execute (xmlReqEncode "G/vo".toList [] [] lifetime)

end Sample

/-- A request for twelve hours is granted. -/
theorem issued_lasts_sample :
    ∃ a, IssuesTo Sample.timed (obliging ["/vo".toList]) Sample.party (Sample.lasting 43200) a ∧
      Lasts Sample.timed.signer a 43200 := by
  have hrun : makeAC Sample.timed (obliging ["/vo".toList]) (.start false) Sample.party
      (xmlReqEncode "G/vo".toList [] [] 43200) = .ok _ := rfl
  obtain ⟨a, ha, -⟩ := issues_of_makeAC hrun rfl (by decide)
  have hissue : IssuesTo Sample.timed (obliging ["/vo".toList]) Sample.party
      (Sample.lasting 43200) a := ⟨_, _, rfl, ha⟩
  exact ⟨a, hissue, (issued_lasts_iff Sample.timesDiffer hissue).mpr (by decide)⟩

/-- Without a lifetime, in XML or in the URL, the AC has expired when it is
issued. -/
theorem issued_expired :
    (∃ a, IssuesTo Sample.timed (obliging ["/vo".toList]) Sample.party (Sample.lasting 0) a ∧
      Lasts Sample.timed.signer a 0 ∧
      ¬ Lasts Sample.timed.signer a (due 43200 (Sample.timed.asked (Sample.lasting 0)))) ∧
    ∃ a, IssuesTo Sample.timed (obliging ["/vo".toList]) Sample.party
        (.get "/generate-ac?fqans=/vo".toList) a ∧
      Lasts Sample.timed.signer a 0 ∧
      ¬ Lasts Sample.timed.signer a
        (due 43200 (Sample.timed.asked (.get "/generate-ac?fqans=/vo".toList))) := by
  have hxml : makeAC Sample.timed (obliging ["/vo".toList]) (.start false) Sample.party
      (xmlReqEncode "G/vo".toList [] [] 0) = .ok _ := rfl
  have hurl : makeAC Sample.timed (obliging ["/vo".toList]) (.start false) Sample.party
      (xmlReqEncode "G/vo".toList [] [] (-1)) = .ok _ := rfl
  obtain ⟨a, ha, -⟩ := issues_of_makeAC hxml rfl (by decide)
  obtain ⟨b, hb, -⟩ := issues_of_makeAC hurl rfl (by decide)
  have hxml : IssuesTo Sample.timed (obliging ["/vo".toList]) Sample.party
      (Sample.lasting 0) a := ⟨_, _, rfl, ha⟩
  have hurl : IssuesTo Sample.timed (obliging ["/vo".toList]) Sample.party
      (.get "/generate-ac?fqans=/vo".toList) b := ⟨_, _, rfl, hb⟩
  refine ⟨⟨a, hxml, ?_, ?_⟩, b, hurl, ?_, ?_⟩
  · exact (lasts_iff Sample.timesDiffer hxml 0).mpr (by decide)
  · rw [lasts_iff Sample.timesDiffer hxml]
    decide
  · exact (lasts_iff Sample.timesDiffer hurl 0).mpr (by decide)
  · rw [lasts_iff Sample.timesDiffer hurl]
    decide

end Voms.L5
