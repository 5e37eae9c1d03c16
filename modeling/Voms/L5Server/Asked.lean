import Voms.L3Wire.Requests
import Voms.L5Server.Rest

/-!
# The lifetime that is asked for

A client asks for a lifetime with the text of the last `lifetime` element of
its XML, or with the last `lifetime` of its URL. The decoder takes of a text
the last piece the parser hands over, and stops at the first element of a
third level (`decoded_field`); `http_get` puts -1 where the URL has no
lifetime (`httpGet_lifetime`).
-/
namespace Voms.L5

open Voms.Core Voms.L3

/-! ## In a message -/

/-- The text behind the last tag, in its pieces, and that of the last
`lifetime` element that has ended. -/
structure Texts where
  pieces : List Str
  lifetime : List Str
  deriving DecidableEq, Repr

def Texts.step (t : Texts) : XmlEvent → Texts
  | .start _ => { t with pieces := [] }
  | .stop name => ⟨[], if name = "lifetime".toList then t.pieces else t.lifetime⟩
  | .text s => { t with pieces := t.pieces ++ [s] }

/-- The text of the last `lifetime` element, in its pieces. -/
def lifetimePieces (es : List XmlEvent) : List Str := (es.foldl Texts.step ⟨[], []⟩).lifetime

/-- The calls up to the first element of a third level, or to a tag that ends
nothing. -/
def shallow : Nat → List XmlEvent → List XmlEvent
  | _, [] => []
  | depth, .start name :: es => if depth = 2 then [] else .start name :: shallow (depth + 1) es
  | depth, .stop name :: es => if depth = 0 then [] else .stop name :: shallow (depth - 1) es
  | depth, .text s :: es => .text s :: shallow depth es

/-- The text behind the last tag, in its pieces, and that of the last element
of a name that has ended. -/
structure Element where
  pieces : List Str
  last : List Str
  deriving DecidableEq, Repr

def Element.step (name : Str) (t : Element) : XmlEvent → Element
  | .start _ => { t with pieces := [] }
  | .stop n => ⟨[], if n = name then t.pieces else t.last⟩
  | .text s => { t with pieces := t.pieces ++ [s] }

/-- The text of the last element of that name, in its pieces. -/
def textPieces (name : Str) (es : List XmlEvent) : List Str :=
  (es.foldl (Element.step name) ⟨[], []⟩).last

theorem lifetimePieces_eq (es : List XmlEvent) :
    lifetimePieces es = textPieces "lifetime".toList es := by
  have hfold : ∀ (es : List XmlEvent) (t : Texts) (u : Element),
      u.pieces = t.pieces → u.last = t.lifetime →
      (es.foldl (Element.step "lifetime".toList) u).last = (es.foldl Texts.step t).lifetime := by
    intro es
    induction es with
    | nil => exact fun t u _ h => h
    | cons e es ih =>
      intro t u hpieces hlast
      rw [List.foldl_cons, List.foldl_cons]
      refine ih (t.step e) (u.step "lifetime".toList e) ?_ ?_
      · cases e with
        | start _ => rfl
        | stop _ => rfl
        | text s =>
          show u.pieces ++ [s] = t.pieces ++ [s]
          rw [hpieces]
      · cases e with
        | start _ => exact hlast
        | stop n =>
          show (if n = "lifetime".toList then u.pieces else u.last) =
            if n = "lifetime".toList then t.pieces else t.lifetime
          rw [hpieces, hlast]
        | text _ => exact hlast
  exact (hfold es ⟨[], []⟩ ⟨[], []⟩ rfl rfl).symm

/-- The decoder has the last pieces; `g` reads the text of the field. -/
structure Sees {α : Type} (field : Request → α) (g : Str → α) (d : ReqState) (t : Element) :
    Prop where
  value : d.value = t.pieces.getLast?.getD []
  field : field d.r = g (t.last.getLast?.getD [])

theorem fold_error (es : List XmlEvent) : ∀ {d : ReqState}, d.error = true →
    es.foldl ReqState.step d = d := by
  induction es with
  | nil => intro d _; rfl
  | cons e es ih =>
    intro d hd
    have hstep : ReqState.step d e = d := by
      cases e with
      | start name => exact if_pos hd
      | stop name => exact if_pos hd
      | text s => exact if_pos hd
    rw [List.foldl_cons, hstep, ih hd]

theorem setField_lifetime (r : Request) (name value : Str) :
    (setField r name value).lifetime =
      if name = "lifetime".toList then atoi value else r.lifetime := by
  unfold setField
  by_cases h1 : name = "order".toList
  · rw [if_pos h1, h1]
    rfl
  · rw [if_neg h1]
    by_cases h2 : name = "targets".toList
    · rw [if_pos h2, h2]
      rfl
    · rw [if_neg h2]
      by_cases h3 : name = "command".toList
      · rw [if_pos h3, h3]
        rfl
      · rw [if_neg h3]
        by_cases h4 : name = "lifetime".toList
        · rw [if_pos h4, if_pos h4]
        · rw [if_neg h4, if_neg h4]
          split
          · rfl
          · split <;> rfl

section
variable {α : Type} {field : Request → α} {g : Str → α} {name : Str}

/-- A tag that ends an element: the last piece goes to its field. -/
theorem Sees.stop
    (hset : ∀ r n v, field (setField r n v) = if n = name then g v else field r) {d : ReqState}
    {t : Element} (h : Sees field g d t) (n : Str) (depth : Nat) :
    Sees field g ⟨setField d.r n d.value, [], false, depth⟩ (t.step name (.stop n)) := by
  refine ⟨rfl, ?_⟩
  show field (setField d.r n d.value) =
    g ((if n = name then t.pieces else t.last).getLast?.getD [])
  rw [hset, h.value]
  split
  · rfl
  · exact h.field

/-- What the handlers make of a field that is set by the elements of one name. -/
theorem fold_field (hset : ∀ r n v, field (setField r n v) = if n = name then g v else field r)
    (es : List XmlEvent) : ∀ {d : ReqState} {t : Element}, d.error = false → Sees field g d t →
    field (es.foldl ReqState.step d).r =
      g (((shallow d.depth es).foldl (Element.step name) t).last.getLast?.getD []) := by
  induction es with
  | nil => intro d t _ h; exact h.field
  | cons e es ih =>
    intro d t hd h
    have hne : ¬ d.error = true := by rw [hd]; decide
    rw [List.foldl_cons]
    cases e with
    | start n =>
      have hstep : ReqState.step d (.start n) = startreq d := rfl
      rw [hstep, startreq, if_neg hne, shallow]
      by_cases hdepth : d.depth = 2
      · rw [if_pos hdepth, if_pos hdepth, fold_error es rfl]
        exact h.field
      · rw [if_neg hdepth, if_neg hdepth, List.foldl_cons]
        exact @ih _ (t.step name (.start n)) hd ⟨rfl, h.field⟩
    | stop n =>
      have hstep : ReqState.step d (.stop n) = endreq d n := rfl
      rw [hstep, endreq, if_neg hne, shallow]
      by_cases hdepth : d.depth = 0
      · rw [if_pos hdepth, if_pos hdepth, fold_error es rfl]
        exact h.field
      · rw [if_neg hdepth, if_neg hdepth, List.foldl_cons, hd]
        exact @ih ⟨_, _, _, _⟩ (t.step name (.stop n)) rfl (h.stop hset n _)
    | text s =>
      have hstep : ReqState.step d (.text s) = handlerreq d s := rfl
      rw [hstep, handlerreq, if_neg hne, shallow, List.foldl_cons]
      refine @ih _ (t.step name (.text s)) hd ⟨?_, h.field⟩
      show s = (t.pieces ++ [s]).getLast?.getD []
      rw [List.getLast?_append, List.getLast?_singleton]
      rfl

/-- **The decoder reads the last piece of the last element.** -/
theorem decoded_field (hset : ∀ r n v, field (setField r n v) = if n = name then g v else field r)
    (hnew : field ReqState.new.r = g []) {X : Wire} {message : Str} {r : Request}
    (h : xmlReqDecode X message = some r) :
    field r = g ((textPieces name (shallow 0 (X.expat message).1)).getLast?.getD []) := by
  have hr : ((X.expat message).1.foldl ReqState.step .new).r = r := by
    unfold xmlReqDecode at h
    simp only at h
    split at h
    · exact Option.some.inj h
    · cases h
  rw [← hr]
  exact @fold_field _ _ _ _ hset _ .new ⟨[], []⟩ rfl ⟨rfl, hnew⟩

end

theorem decoded_lifetime {X : Wire} {message : Str} {r : Request}
    (h : xmlReqDecode X message = some r) :
    r.lifetime = atoi ((lifetimePieces (shallow 0 (X.expat message).1)).getLast?.getD []) := by
  rw [lifetimePieces_eq]
  exact decoded_field setField_lifetime rfl h

theorem setField_targets (r : Request) (name value : Str) :
    (setField r name value).targets = if name = "targets".toList then value else r.targets := by
  unfold setField
  by_cases h1 : name = "order".toList
  · rw [if_pos h1, h1]
    rfl
  · rw [if_neg h1]
    by_cases h2 : name = "targets".toList
    · rw [if_pos h2, if_pos h2]
    · rw [if_neg h2, if_neg h2]
      split
      · rfl
      · split
        · rfl
        · split
          · rfl
          · split <;> rfl

theorem decoded_targets {X : Wire} {message : Str} {r : Request}
    (h : xmlReqDecode X message = some r) :
    r.targets =
      (textPieces "targets".toList (shallow 0 (X.expat message).1)).getLast?.getD [] :=
  decoded_field (g := id) setField_targets rfl h

/-! ## In a URL -/

/-- What stands between the separators behind the question mark. -/
def urlParameters (path : Str) : List Str :=
  match strstr "?".toList (cStr path) with
  | none => []
  | some s => ((cStr path).drop (s + 1)).splitOn '&'

/-- The values of the parameter `lifetime`. -/
def lifetimes (parameters : List Str) : List Str :=
  parameters.filterMap fun p => p.dropPrefix? "lifetime=".toList

/-- The name of a parameter ends at the first equals sign. -/
theorem getParameter_split {path name value : Str} (h : getParameter path = some (name, value)) :
    path = name ++ '=' :: value ∧ '=' ∉ name := by
  unfold getParameter at h
  cases hfind : strstr "=".toList path with
  | none =>
    rw [hfind] at h
    cases h
  | some equal =>
    rw [hfind] at h
    cases h
    have hsplit := strstr_split hfind
    obtain ⟨-, -, hfirst⟩ := strstr_eq_some.mp hfind
    refine ⟨by simpa using hsplit, fun hmem => ?_⟩
    obtain ⟨a, b, hab⟩ := List.append_of_mem hmem
    -- an earlier one would have been found
    have hlen : a.length < equal := by
      have := congrArg List.length hab
      simp only [List.length_take, List.length_append, List.length_cons] at this
      omega
    refine hfirst a.length hlen ?_
    rw [hsplit, hab, List.append_assoc, List.append_assoc, List.drop_left]
    exact List.prefix_append ['='] _

/-- Only a parameter of that name begins so. -/
theorem dropPrefix_lifetime {name value : Str} (h : '=' ∉ name) :
    (name ++ '=' :: value).dropPrefix? "lifetime=".toList =
      if name = "lifetime".toList then some value else none := by
  have hname : ∀ {a v : Str}, '=' ∉ a → (a ++ '=' :: v).takeWhile (· != '=') = a := by
    intro a v ha
    rw [List.takeWhile_append_of_pos fun c hc => by
      simp only [bne_iff_ne]
      rintro rfl
      exact ha hc]
    simp
  split
  · next heq =>
    exact List.dropPrefix?_eq_some_iff.mpr ⟨"lifetime=".toList, by rw [heq]; rfl, by decide⟩
  · next hne =>
    refine Option.eq_none_iff_forall_ne_some.mpr fun v hv => hne ?_
    obtain ⟨p, hp, hbeq⟩ := List.dropPrefix?_eq_some_iff.mp hv
    rw [eq_of_beq hbeq, show "lifetime=".toList ++ v = "lifetime".toList ++ '=' :: v from rfl] at hp
    rw [← hname h, hp, hname (by decide)]

theorem set_lifetime (q : RestParams) (name value : Str) :
    (q.set name value).lifetime = if name = "lifetime".toList then atoi value else q.lifetime := by
  unfold RestParams.set
  by_cases h : name = "lifetime".toList
  · rw [if_pos h, if_pos h]
  · rw [if_neg h, if_neg h]
    split
    · rfl
    · split
      · rfl
      · split <;> rfl

/-- A turn of the loop takes the lifetime of its parameter, if it has one. -/
theorem read_lifetime {q q' : RestParams} {path : Str} (h : q.read path = some q') :
    q'.lifetime = ((path.dropPrefix? "lifetime=".toList).map atoi).getD q.lifetime := by
  unfold RestParams.read at h
  cases hp : getParameter path with
  | none =>
    rw [hp] at h
    cases h
  | some entry =>
    obtain ⟨name, value⟩ := entry
    rw [hp] at h
    cases h
    obtain ⟨rfl, hequals⟩ := getParameter_split hp
    rw [set_lifetime, dropPrefix_lifetime hequals]
    split <;> rfl

/-- The parameters set the lifetime to their last one. -/
theorem fold_parameters (parameters : List Str) : ∀ {q q' : RestParams},
    parameters.foldlM RestParams.read q = some q' →
    q'.lifetime = ((lifetimes parameters).getLast?.map atoi).getD q.lifetime := by
  induction parameters with
  | nil =>
    intro q q' h
    cases h
    rfl
  | cons p parameters ih =>
    intro q q' h
    rw [List.foldlM_cons] at h
    obtain ⟨q1, hq1, h⟩ := Option.bind_eq_some_iff.mp h
    rw [ih h, read_lifetime hq1]
    unfold lifetimes
    rw [List.filterMap_cons]
    cases p.dropPrefix? "lifetime=".toList with
    | none => rfl
    | some value =>
      simp only [List.getLast?_cons]
      cases (parameters.filterMap fun p => p.dropPrefix? "lifetime=".toList).getLast? <;> rfl

/-- A URL without a lifetime is -1 to the handler. -/
theorem httpGet_lifetime {maingroup path command order targets : Str} {requested : Int}
    {unknown : Bool} (h : httpGet maingroup path = .makeACREST command order targets requested unknown) :
    requested = ((lifetimes (urlParameters path)).getLast?.map atoi).getD (-1) := by
  unfold httpGet at h
  unfold urlParameters
  cases hfind : strstr "?".toList (cStr path) with
  | none =>
    simp only [hfind, Option.elim_none] at h
    split at h
    · cases h
    · split at h
      · cases h
      · cases h
        rfl
  | some s =>
    simp only [hfind, Option.elim_some] at h
    split at h
    · cases h
    · cases hq : parseParameters ((cStr path).drop (s + 1)) with
      | none =>
        rw [hq] at h
        cases h
      | some q =>
        rw [hq] at h
        simp only at h
        split at h
        · cases h
        · cases h
          have hne : (cStr path).drop (s + 1) ≠ [] := by
            intro hnil
            rw [hnil] at hq
            cases hq
          rw [parseParameters_eq hne] at hq
          exact fold_parameters _ hq

end Voms.L5
