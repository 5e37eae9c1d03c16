import Voms.L2Ac.Reencode
import Voms.L4Api.Safety
import Voms.L5Server.Lifetime

/-!
# The targets of an AC

A client joins its targets with commas; the server splits the text it is
given, joins it again, and `X509V3_EXT_conf_nid` makes the extension of it,
which reads more into a text than `targets_s2i` does. `issued_targets_iff`:
`GetTargets` gives back the list exactly if the text of the request comes in
one piece and nothing is read into it, and the issuer's certificate leaves
the AC readable. Without targets there is no extension.
-/
namespace Voms.L5

open Voms.Core Voms.L1 Voms.L1.Newformat Voms.L2 Voms.L3 Voms.L4

/-! ## The client's side -/

/-- The message of a client with these targets.
mirrors src/api/ccapi/voms_api.cc:284-295 -/
def targetsMessage (command ordering : Str) (targets : List Str) (duration : Int) : Str :=
  xmlReqEncode command ordering (join ',' targets) duration

/-- What `GetTargets` returns on the AC `a` as it was sent and read. `AC_dup`
writes and reads it once more. -/
def receivedTargets (O : OpenSsl) (W : World) (a : Ac) : Eval (List Str) :=
  getTargets { W with acDup := fun ac => Newformat.d2iAc O (Newformat.i2dAc O ac) }
    { VomsRecord.new with ac := Newformat.d2iAc O (Newformat.i2dAc O a) }

/-! ## The server's side -/

/-- The text of the element `targets`, as it comes to the server. -/
def Server.targetPieces (V : Server) (message : Str) : List Str :=
  textPieces "targets".toList (shallow 0 (V.expat message).1)

/-- The piece of it that is kept. -/
def Server.targetsTaken (V : Server) (message : Str) : Str :=
  (V.targetPieces message).getLast?.getD []

theorem interpretRequest_targs {V : Server} {D : Database} {vr vr' : VomsResult} {message : Str}
    {sel : Selection} (h : interpretRequest V D vr message = .ok (some sel, vr')) :
    sel.targs = parseTargets (V.targetsTaken message) := by
  obtain ⟨r, _, _, _, _, _, hr, -, -, -, -, rfl⟩ := interpretRequest_ok h
  rw [show V.targetsTaken message = r.targets from (decoded_targets hr).symm]

/-- Split and joined a text is what it was. -/
theorem targetText_parseTargets (text : Str) :
    targetText (parseTargets text) = if text = [] then none else some (cStr text) := by
  have hjoin : join ',' (parseTargets text) = text := List.intercalate_splitOn ','
  unfold targetText
  rw [hjoin]

/-- The extension, if there is one, is the last that is pushed. -/
theorem extByNid_writtenExts (S : Signer) (issuerc : X509) (issuerstack : Option (List X509))
    (attrs : List AcAttribute) (vo uri : Str) (targ : Option ExtBody) :
    extByNid (writtenExts S issuerc issuerstack attrs vo uri targ) .idceTargets =
      targ.map fun b => ⟨.idceTargets, true, b⟩ := by
  unfold writtenExts extByNid
  cases attrs <;> cases targ <;> rfl

/-- The extension of the AC: none for an empty text. -/
theorem issues_extension {V : Server} {D : Database} {vr : VomsResult} {P : Party} {message : Str}
    {a : Ac} (h : Issues V D vr P message a) :
    ∃ (exts : List X509Ext) (targ : Option ExtBody), (a.acinfo.bind (·.exts)) = some exts ∧
      extByNid exts .idceTargets = targ.map (fun b => ⟨.idceTargets, true, b⟩) ∧
      (if V.targetsTaken message = [] then none
        else some (confTargets V.signer (cStr (V.targetsTaken message)))) = targ.map some := by
  obtain ⟨sel, vr', serial, fqans, attribs, out, hint, ha, -⟩ := h
  obtain ⟨time1, time2, attrs, targ, -, -, -, htarg, rfl⟩ := createac_ok ha
  rw [interpretRequest_targs hint, targetText_parseTargets] at htarg
  refine ⟨_, targ, rfl, extByNid_writtenExts .., ?_⟩
  rw [← htarg]
  split <;> rfl

/-- The AC comes to the client exactly if the issuer has no unique identifier. -/
theorem issues_received {V : Server} {D : Database} {vr : VomsResult} {P : Party} {message : Str}
    {a : Ac} (h : Issues V D vr P message a) {O : OpenSsl} (hk : AcKept O a) :
    Tlv.Outcome (Newformat.d2iAc O (Newformat.i2dAc O a)) (P.issuer.issuerUID = none) a := by
  obtain ⟨sel, vr', serial, fqans, attribs, out, hint, ha, -⟩ := h
  obtain ⟨time1, time2, attrs, targ, -, -, -, -, hac⟩ := createac_ok ha
  exact writeac_outcome hac hk

/-! ### What a faithful parser hands over -/

/-- Elements of the second level, which leave of the last text what `last`
makes of it. -/
structure Level (name : Str) (es : List XmlEvent) (last : List Str → List Str) : Prop where
  flat : ∀ rest, shallow 1 (es ++ rest) = es ++ shallow 1 rest
  texts : ∀ t, (es.foldl (Element.step name) t).last = last t.last

theorem Level.nil (name : Str) : Level name [] id := ⟨fun _ => rfl, fun _ => rfl⟩

theorem Level.append {name : Str} {es es' : List XmlEvent} {last last' : List Str → List Str}
    (h : Level name es last) (h' : Level name es' last') :
    Level name (es ++ es') (last' ∘ last) := by
  refine ⟨fun rest => ?_, fun t => ?_⟩
  · rw [List.append_assoc, h.flat, h'.flat, List.append_assoc]
  · rw [List.foldl_append, h'.texts, h.texts]
    rfl

/-- The elements of a document. -/
theorem Level.document {name n : Str} {body : List XmlEvent} {last : List Str → List Str}
    (h : Level name body last) (hne : n ≠ name) :
    textPieces name (shallow 0 (.start n :: (body ++ [.stop n]))) = last [] := by
  have hstop : shallow 1 [.stop n] = [.stop n] := rfl
  unfold textPieces
  rw [shallow, if_neg (by decide), h.flat, hstop, List.foldl_cons, List.foldl_append]
  exact (if_neg hne).trans (h.texts _)

/-- An element with its text in pieces. -/
theorem level_pieces (name n : Str) (pieces : List Str) :
    Level name (.start n :: pieces.map .text ++ [.stop n])
      fun last => if n = name then pieces else last := by
  have hshallow : ∀ (pieces : List Str) (rest : List XmlEvent),
      shallow 2 (pieces.map .text ++ rest) = pieces.map .text ++ shallow 2 rest := by
    intro pieces rest
    induction pieces with
    | nil => rfl
    | cons p pieces ih => rw [List.map_cons, List.cons_append, shallow, ih, List.cons_append]
  have htexts : ∀ (pieces : List Str) (t : Element),
      (pieces.map XmlEvent.text).foldl (Element.step name) t = ⟨t.pieces ++ pieces, t.last⟩ := by
    intro pieces
    induction pieces with
    | nil => intro t; rw [List.append_nil]; rfl
    | cons p pieces ih =>
      intro t
      rw [List.map_cons, List.foldl_cons, ih]
      show (⟨t.pieces ++ [p] ++ pieces, t.last⟩ : Element) = _
      rw [List.append_assoc]
      rfl
  refine ⟨fun rest => ?_, fun t => ?_⟩
  · show shallow 1 (.start n :: (pieces.map .text ++ [.stop n] ++ rest)) = _
    rw [shallow, if_neg (by decide), List.append_assoc, hshallow]
    show _ :: (_ ++ shallow 2 (.stop n :: rest)) = _
    rw [shallow, if_neg (by decide)]
    simp
  · rw [List.cons_append, List.foldl_cons, List.foldl_append, htexts]
    rfl

theorem level_leaf {name n s : Str} {es : List XmlEvent} (hne : n ≠ name)
    (h : Delivers (leaf n s) es) : Level name es id := by
  obtain ⟨pieces, -, -, rfl⟩ := h.leaf_inv
  have hlevel := level_pieces name n pieces
  rwa [funext fun last => if_neg hne] at hlevel

theorem level_optional {name n s : Str} {es : List XmlEvent} (hne : n ≠ name)
    (h : Delivers (L3.optional n s) es) : Level name es id := by
  unfold L3.optional at h
  split at h
  · cases h
    exact .nil name
  · exact level_leaf hne h

theorem level_commands {name : Str} (hne : "command".toList ≠ name) {commands : List Str} :
    ∀ {es : List XmlEvent}, Delivers (commands.flatMap (leaf "command".toList)) es →
      Level name es id := by
  induction commands with
  | nil =>
    intro es h
    cases h
    exact .nil name
  | cons c commands ih =>
    intro es h
    obtain ⟨e1, e2, rfl, h1, h2⟩ := h.append_inv
    exact (level_leaf hne h1).append (ih h2)

/-- The element that is looked for. -/
theorem level_self {name s : Str} {es : List XmlEvent} (h : Delivers (L3.optional name s) es) :
    ∃ last, Level name es last ∧ (last []).flatten = s := by
  unfold L3.optional at h
  split at h
  · next hs =>
    cases h
    exact ⟨id, .nil name, hs.symm⟩
  · obtain ⟨pieces, -, hflat, rfl⟩ := h.leaf_inv
    refine ⟨_, level_pieces name name pieces, ?_⟩
    rw [if_pos rfl]
    exact hflat

/-- Of a request without markup the pieces are those of the text that was sent. -/
theorem targetPieces_request {V : Server} (hV : Faithful requestProlog V.expat)
    {command order targets : Str} {lifetime : Int}
    (hcommand : ∀ c ∈ getlines ',' command, charData c = true) (horder : charData order = true)
    (htargets : charData targets = true) :
    (V.targetPieces (xmlReqEncode command order targets lifetime)).flatten = targets := by
  have hwell : wellFormed (requestDoc (getlines ',' command) order targets lifetime) = true :=
    wellFormed_requestDoc hcommand horder htargets
  obtain ⟨es, hes, hx⟩ := hV _ hwell
  have hpieces : V.targetPieces (xmlReqEncode command order targets lifetime) =
      textPieces "targets".toList (shallow 0 es) := by
    unfold Server.targetPieces
    rw [xmlReqEncode_eq, hx]
  rw [hpieces]
  cases hes with
  | start hdoc =>
    obtain ⟨body, e7, rfl, hbody, h7⟩ := hdoc.append_inv
    cases h7 with
    | stop h7 =>
      cases h7
      obtain ⟨e1, es1, rfl, h1, hrest1⟩ := hbody.append_inv
      obtain ⟨e2, es2, rfl, h2, hrest2⟩ := hrest1.append_inv
      obtain ⟨e3, es3, rfl, h3, hrest3⟩ := hrest2.append_inv
      obtain ⟨e4, es4, rfl, h4, hrest4⟩ := hrest3.append_inv
      obtain ⟨e5, e6, rfl, h5, h6⟩ := hrest4.append_inv
      obtain ⟨last, hlast, hflat⟩ := level_self h3
      have hlevel := (level_commands (by decide) h1).append ((level_optional (by decide) h2).append
        (hlast.append ((level_leaf (by decide) h4).append
          ((level_leaf (by decide) h5).append (level_leaf (by decide) h6)))))
      exact (congrArg List.flatten (hlevel.document (by decide))).trans hflat

/-! ## What is read into a text -/

/-- What `X509V3_EXT_conf_nid` makes of a `DER:` or `ASN1:` text lists less
than the text itself does: two digits stand for a byte, or the string comes
behind the name of its type. -/
def GenericLonger (S : Signer) : Prop :=
  ∀ value body l names, S.genericExtension value = some body →
    X509Ext.d2iTargets ⟨.idceTargets, true, body⟩ = some l → targetNames l = .ok names →
      (join ',' names).length < value.length

theorem length_checkCriticalText (value : Str) :
    (checkCriticalText value).length ≤ value.length := by
  unfold checkCriticalText
  split
  · have := (List.dropWhile_sublist (l := value.drop 9) isSpace).length_le
    have := List.length_drop (l := value) (i := 9)
    omega
  · exact Nat.le_refl _

/-- What is left of a text is the whole text if nothing was dropped. -/
theorem checkCriticalText_eq_self (value : Str) :
    (checkCriticalText value).length = value.length ↔ ¬ "critical,".toList <+: value := by
  unfold checkCriticalText
  split
  · next hcritical =>
    have hcritical := List.isPrefixOf_iff_prefix.mp hcritical
    refine iff_of_false (fun heq => ?_) fun hnot => hnot hcritical
    have hlong : 9 ≤ value.length := hcritical.length_le
    have := (List.dropWhile_sublist (l := value.drop 9) isSpace).length_le
    have := List.length_drop (l := value) (i := 9)
    omega
  · next hcritical =>
    exact iff_of_true rfl fun hprefix => hcritical (List.isPrefixOf_iff_prefix.mpr hprefix)

theorem targetNames_s2i (data : Str) : targetNames (targets_s2i data) = .ok (data.splitOn ',') := by
  unfold targets_s2i
  induction data.splitOn ',' with
  | nil => rfl
  | cons d rest ih =>
    rw [List.map_cons, targetNames, Res.deref_some, Res.ok_bind, ih]
    rfl

/-- `GetTargets` on an AC that has come. -/
theorem receivedTargets_eq {O : OpenSsl} (W : World) {a : Ac} {uid : Option BitString}
    {exts : List X509Ext} (h : Tlv.Outcome (Newformat.d2iAc O (Newformat.i2dAc O a)) (uid = none) a)
    (hexts : a.acinfo.bind (·.exts) = some exts) :
    receivedTargets O W a = if uid = none then
      targetNames (((extByNid exts .idceTargets).bind (·.d2iTargets)).getD [])
      else .fault .nullDeref := by
  obtain ⟨info, hinfo, hinfoexts⟩ := Option.bind_eq_some_iff.mp hexts
  unfold receivedTargets getTargets getAC
  split
  · next huid =>
    rw [h.1 huid]
    simp only [Option.bind_some, h.1 huid, Res.deref_some, Res.ok_bind, hinfo, hinfoexts,
      Option.getD_some]
    cases (extByNid exts .idceTargets).bind (·.d2iTargets) <;> rfl
  · next huid =>
    rw [h.2 huid]
    rfl

/-! ## The list -/

/-- The text comes in one piece and is not cut, and nothing is read into it. -/
structure Plain (V : Server) (message text : Str) : Prop where
  whole : V.targetsTaken message = text
  noNul : '\x00' ∉ text
  notCritical : ¬ "critical,".toList <+: text
  notGeneric : checkGeneric text = false

/-- The AC carries these targets for `GetTargets`; without targets it carries
no extension. -/
def Targeted (O : OpenSsl) (W : World) (a : Ac) (targets : List Str) : Prop :=
  if targets = [] then extByNid ((a.acinfo.bind (·.exts)).getD []) .idceTargets = none
  else receivedTargets O W a = .ok targets

/-- The last piece is a part of the text. -/
theorem length_last_le {pieces : List Str} :
    (pieces.getLast?.getD []).length ≤ pieces.flatten.length ∧
      ((pieces.getLast?.getD []).length = pieces.flatten.length →
        pieces.getLast?.getD [] = pieces.flatten) := by
  rcases List.eq_nil_or_concat pieces with rfl | ⟨front, last, rfl⟩
  · exact ⟨Nat.le_refl _, fun _ => rfl⟩
  · simp only [List.concat_eq_append, List.getLast?_append, List.getLast?_singleton,
      Option.some_or, Option.getD_some, List.flatten_append, List.flatten_singleton,
      List.length_append]
    refine ⟨by omega, fun hlen => ?_⟩
    have hfront : front.flatten = [] := List.length_eq_zero_iff.mp (by omega)
    rw [hfront, List.nil_append]

/-- What is left of the text of an extension, and no shorter, is the text. -/
theorem conf_text_eq {text : Str} (h : (checkCriticalText (cStr text)).length = text.length) :
    '\x00' ∉ text ∧ ¬ "critical,".toList <+: text := by
  have hcut := length_cStr_le text
  have hdrop := length_checkCriticalText (cStr text)
  have hself : cStr text = text :=
    (List.takeWhile_prefix _).eq_of_length (by
      show (cStr text).length = text.length
      omega)
  rw [hself] at h
  exact ⟨cStr_eq_self.mp hself, (checkCriticalText_eq_self text).mp h⟩

/-- The targets the extension lists are those of the text exactly if nothing
is read into it. The text is no longer than theirs. -/
theorem confTargets_names {S : Signer} (hS : GenericLonger S) {r : Str} {targets : List Str}
    {body : ExtBody} (hbody : confTargets S (cStr r) = some body) (hne : targets ≠ [])
    (hcomma : ∀ t ∈ targets, ',' ∉ t) (hlen : r.length ≤ (join ',' targets).length) :
    targetNames ((X509Ext.d2iTargets ⟨.idceTargets, true, body⟩).getD []) = .ok targets ↔
      (r.length = (join ',' targets).length ∧ checkCriticalText (cStr r) = join ',' targets) ∧
        checkGeneric (join ',' targets) = false := by
  have hcut : (checkCriticalText (cStr r)).length ≤ r.length :=
    (length_checkCriticalText _).trans (length_cStr_le r)
  unfold confTargets at hbody
  simp only at hbody
  split at hbody
  · next hgeneric =>
    refine iff_of_false (fun hnames => ?_) fun h => ?_
    · cases hl : X509Ext.d2iTargets ⟨.idceTargets, true, body⟩ with
      | none =>
        rw [hl] at hnames
        cases hnames
        exact hne rfl
      | some l =>
        rw [hl] at hnames
        have := hS _ _ _ _ hbody hl hnames
        omega
    · rw [h.1.2, h.2] at hgeneric
      cases hgeneric
  · next hgeneric =>
    obtain rfl := Option.some.inj hbody
    show targetNames (targets_s2i (checkCriticalText (cStr r))) = .ok targets ↔ _
    rw [targetNames_s2i, Res.ok.injEq]
    constructor
    · intro hsplit
      have hjoin : checkCriticalText (cStr r) = join ',' targets := by
        rw [← hsplit]
        exact (List.intercalate_splitOn ',').symm
      rw [hjoin] at hcut hgeneric
      exact ⟨⟨by omega, hjoin⟩, Bool.eq_false_iff.mpr hgeneric⟩
    · rintro ⟨⟨-, hjoin⟩, -⟩
      rw [hjoin]
      exact List.splitOn_intercalate ',' hcomma hne

/-- `Plain`, by what becomes of the piece that is kept. -/
theorem plain_iff {V : Server} {message text : Str}
    (hwhole : (V.targetsTaken message).length = text.length → V.targetsTaken message = text) :
    Plain V message text ↔ ((V.targetsTaken message).length = text.length ∧
      checkCriticalText (cStr (V.targetsTaken message)) = text) ∧ checkGeneric text = false := by
  constructor
  · intro h
    rw [h.whole, cStr_of_noNul h.noNul]
    exact ⟨⟨rfl, if_neg fun hprefix => h.notCritical (List.isPrefixOf_iff_prefix.mp hprefix)⟩,
      h.notGeneric⟩
  · rintro ⟨⟨hlen, htext⟩, hgeneric⟩
    have hwhole := hwhole hlen
    rw [hwhole] at htext
    obtain ⟨hnul, hcritical⟩ := conf_text_eq (congrArg List.length htext)
    exact ⟨hwhole, hnul, hcritical, hgeneric⟩

theorem join_ne_nil {targets : List Str} (hne : targets ≠ [])
    (h : ∀ t ∈ targets, t ≠ [] ∧ ',' ∉ t) : join ',' targets ≠ [] := by
  intro hjoin
  have hsplit := List.splitOn_intercalate ',' (fun t ht => (h t ht).2) hne
  rw [show [','].intercalate targets = [] from hjoin, List.splitOn_nil] at hsplit
  exact (h [] (by rw [← hsplit]; exact List.mem_singleton_self [])).1 rfl

/-- **The targets come back exactly if the text of the request comes in one
piece and nothing is read into it, and the issuer's certificate has no unique
identifier.** -/
theorem issued_targets_iff (W : World) {V : Server} (hV : GenericLonger V.signer) {D : Database}
    {vr : VomsResult} {P : Party} {command ordering : Str} {duration : Int} {targets : List Str}
    (htargets : ∀ t ∈ targets, t ≠ [] ∧ ',' ∉ t) {a : Ac}
    (h : Issues V D vr P (targetsMessage command ordering targets duration) a)
    (hparse : (V.targetPieces (targetsMessage command ordering targets duration)).flatten =
      join ',' targets) {O : OpenSsl} (hk : AcKept O a) :
    Targeted O W a targets ↔ targets = [] ∨ P.issuer.issuerUID = none ∧
      Plain V (targetsMessage command ordering targets duration) (join ',' targets) := by
  obtain ⟨exts, targ, hexts, hfind, htarg⟩ := issues_extension h
  have hreceived := receivedTargets_eq W (issues_received h hk) hexts
  have hlast := @length_last_le (V.targetPieces (targetsMessage command ordering targets duration))
  rw [hparse] at hlast
  obtain ⟨hlen, hwhole⟩ := hlast
  have htaken : V.targetsTaken (targetsMessage command ordering targets duration) =
    (V.targetPieces (targetsMessage command ordering targets duration)).getLast?.getD [] := rfl
  rw [← htaken] at hlen hwhole
  unfold Targeted
  by_cases hnil : targets = []
  · rw [if_pos hnil]
    refine iff_of_true ?_ (.inl hnil)
    subst hnil
    have hempty : V.targetsTaken (targetsMessage command ordering [] duration) = [] :=
      List.length_eq_zero_iff.mp (Nat.le_zero.mp hlen)
    rw [if_pos hempty] at htarg
    rw [hexts, Option.getD_some, hfind, Option.map_eq_none_iff]
    exact Option.map_eq_none_iff.mp htarg.symm
  · rw [if_neg hnil, hreceived, hfind]
    split
    · next huid =>
      simp only [hnil, huid, false_or, true_and]
      split at htarg
      · next hempty =>
        obtain rfl := Option.map_eq_none_iff.mp htarg.symm
        refine iff_of_false (fun hok => ?_) fun hplain => ?_
        · cases hok
          exact hnil rfl
        · exact join_ne_nil hnil htargets (hplain.whole.symm.trans hempty)
      · obtain ⟨body, rfl, hbody⟩ := Option.map_eq_some_iff.mp htarg.symm
        rw [plain_iff fun hlen => hwhole hlen]
        exact confTargets_names hV hbody.symm hnil (fun t ht => (htargets t ht).2) hlen
    · next huid =>
      refine iff_of_false (fun hok => nomatch hok) ?_
      rintro (hnil' | ⟨huid', -⟩)
      · exact hnil hnil'
      · exact huid huid'

namespace Sample

open Voms.L2.Sample (signer server user dawn noon fqan openSsl madeNames table_keeps)

def targetExts (text : Str) : List X509Ext :=
  writtenExts signer server none [] "vo".toList "voms.example.org:15000".toList
    (confTargets signer text)

/-- The AC of the user with these targets. -/
def targeted (text : Str) : Ac :=
  signInfo signer server ⟨20⟩ (fillInfo server user ⟨false, [7]⟩ false dawn noon
    (makeCapabilities [fqan] (some "vo".toList) (some "voms.example.org:15000".toList))
    (targetExts text))

theorem targeted_kept (text : Str) :
    AcKept (openSsl madeNames (targetExts text)) (targeted text) where
  acinfo := by
    refine ⟨_, rfl, ?_⟩
    refine ⟨⟨_, rfl, rfl⟩, ⟨_, rfl, ?_, ?_, ?_⟩, ?_, ⟨_, rfl, rfl⟩, ⟨_, rfl, rfl⟩,
      ⟨_, rfl, ⟨_, rfl, rfl⟩, ⟨_, rfl, rfl⟩⟩, ⟨_, rfl, ?_⟩, ?_⟩
    · intro is his
      cases his
      exact ⟨⟨_, rfl, table_keeps (.head _) (by decide)⟩, ⟨_, rfl, rfl⟩⟩
    · exact fun n hn => (nomatch hn)
    · exact fun d hd => (nomatch hd)
    · intro f hf
      cases hf
      exact ⟨⟨_, rfl, table_keeps (.tail _ (.head _)) (by decide)⟩, fun is his => (nomatch his),
        fun d hd => (nomatch hd)⟩
    · intro a ha
      obtain rfl := List.mem_singleton.mp ha
      refine ⟨rfl, fun i hi => ?_⟩
      obtain rfl := List.mem_singleton.mp hi
      refine ⟨table_keeps (.tail _ (.tail _ (.head _))) (by decide), fun v hv => ?_⟩
      obtain rfl := List.mem_singleton.mp hv
      rfl
    · intro e he
      have hlen : (targetExts text).length ≤ 4 := by
        unfold targetExts writtenExts
        cases confTargets signer text <;> simp
      exact table_keeps he (by omega)
  sigAlg := ⟨_, rfl, rfl⟩
  signature := ⟨_, rfl, rfl⟩

theorem genericLonger : GenericLonger timed.signer := fun _ _ _ _ h => nomatch h

/-- What the server makes of a request for the VO's group with these targets. -/
def selected (targets : List Str) : Selection :=
  ⟨["G/vo".toList], targets, 43200, "/vo".toList, "G/vo".toList, ⟨["/vo".toList], []⟩⟩

def twoTargets : List Str := ["ce1.example.org".toList, "ce2.example.org".toList]

/-- The first name is the word for a critical extension. -/
def criticalTarget : List Str := ["critical".toList, "ce2.example.org".toList]

end Sample

/-- `issued_targets_iff` for two hosts. -/
theorem issued_targets_two : Targeted (Voms.L2.Sample.openSsl Voms.L2.Sample.madeNames
    (Sample.targetExts (join ',' Sample.twoTargets))) (L4.Sample.files .good).toWorld
    (Sample.targeted (join ',' Sample.twoTargets)) Sample.twoTargets := by
  have hissue : Issues Sample.timed (obliging ["/vo".toList]) (.start false) Sample.party
      (targetsMessage "G/vo".toList [] Sample.twoTargets 43200)
      (Sample.targeted (join ',' Sample.twoTargets)) :=
    ⟨Sample.selected Sample.twoTargets, { VomsResult.start false with base64 := true }, ⟨false, [7]⟩,
      [Voms.L2.Sample.fqan], [], _, rfl, rfl, rfl, rfl, rfl, rfl⟩
  refine (issued_targets_iff (L4.Sample.files .good).toWorld Sample.genericLonger (by decide) hissue
    (by decide) (Sample.targeted_kept _)).mpr (.inr ⟨rfl, ?_⟩)
  exact ⟨by decide, by decide, by decide, by decide⟩

/-- A target with the name `critical` is dropped from the front. -/
theorem issued_targets_critical :
    ∃ a, Issues Sample.timed (obliging ["/vo".toList]) (.start false) Sample.party
      (targetsMessage "G/vo".toList [] Sample.criticalTarget 43200) a ∧
    receivedTargets (Voms.L2.Sample.openSsl Voms.L2.Sample.madeNames
      (Sample.targetExts (join ',' Sample.criticalTarget))) (L4.Sample.files .good).toWorld a =
        .ok ["ce2.example.org".toList] ∧ Sample.criticalTarget ≠ ["ce2.example.org".toList] :=
  ⟨Sample.targeted (join ',' Sample.criticalTarget),
    ⟨Sample.selected Sample.criticalTarget, { VomsResult.start false with base64 := true },
      ⟨false, [7]⟩, [Voms.L2.Sample.fqan], [], _, rfl, rfl, rfl, rfl, rfl, rfl⟩, by decide,
    by decide⟩

end Voms.L5
