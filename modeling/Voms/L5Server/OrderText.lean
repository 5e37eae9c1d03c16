import Voms.L5Server.Interfaces
import Voms.L5Server.Ordering

/-!
# The order as a text

A user gives the order of the FQANs as a list. `parse_fqan(l, true)`
(`src/common/fqan.cc`) makes a text of it, with a colon for `/Role=` and
commas between, and `parse_order` (`src/server/vomsd.cc`) a map with a rank
for every FQAN. In the URL of a GET each `order` parameter is such a text, and
`http_get` (`src/server/vomsd-rest.cc`) joins them with a comma and a blank.

* `orders_one_iff`: one list is read as it was meant, unless it is empty or
  has the group `all`, which `FQANParse` makes an empty text.
* `orders_many_iff`: of several parameters each one behind the first that has
  an FQAN gets a blank in front of its first FQAN, and names another.
-/
namespace Voms.L5

open Voms.Core Voms.L3

/-! ## The text -/

/-- mirrors src/common/fqan.cc:49-79 -/
def FQANParse (fqan : Str) (add_command : Bool) : Option Str :=
  let command (c : Char) : Str := if add_command then [c] else []
  if fqan = "all".toList ∨ fqan = "ALL".toList then some (command 'A')
  else if (strstr "/Capability=".toList fqan).isSome then none
  else
    match strstr "/Role=".toList fqan with
    | some role_pos =>
      if 0 < role_pos then
        some (command 'B' ++ fqan.take role_pos ++ ":".toList ++ fqan.drop (role_pos + 6))
      else some (command 'R' ++ fqan.drop 6)
    | none => some (if fqan.head? = some '/' then command 'G' ++ fqan else fqan)

/-- mirrors src/common/fqan.cc:35-47 -/
def parseFqans (fqans : List Str) (clean : Bool) : Option Str :=
  (fqans.mapM fun fqan => FQANParse fqan (!clean)).map (join ',')

/-- The commands are those of the server's requests. -/
theorem parseFqans_commands (fqans : List Str) : parseFqans fqans false = parseFqan fqans := by
  have hparse : (fun fqan => FQANParse fqan (!false)) = fqanParse := by
    funext fqan
    rfl
  rw [parseFqans, hparse, parseFqan]

/-- A group, or a group with a role, that the server lets through. -/
def Fqan.Named : Fqan → Prop
  | .group g => g ≠ [] ∧ g.all filter = true
  | .groupRole g r => g ≠ [] ∧ g.all filter = true ∧ r.all filter = true
  | .role _ => False
  | .all => False

/-- What `FQANParse` takes for a request of everything. -/
def Fqan.Everything (f : Fqan) : Prop := f.text = "all".toList ∨ f.text = "ALL".toList

instance (f : Fqan) : Decidable f.Everything :=
  inferInstanceAs (Decidable (f.text = "all".toList ∨ f.text = "ALL".toList))

/-- The FQAN in the text of an order. -/
def Fqan.cleaned (f : Fqan) : Str :=
  if f.Everything then []
  else
    match f with
    | .group g => g
    | .groupRole g r => g ++ ":".toList ++ r
    | .role r => r
    | .all => []

theorem not_everything_role (g r : Str) : ¬ (Fqan.groupRole g r).Everything := by
  have hmem : '=' ∈ (Fqan.groupRole g r).text :=
    List.mem_append_left r (List.mem_append_right g (by decide))
  rintro (h | h)
  · exact absurd (h ▸ hmem) (by decide)
  · exact absurd (h ▸ hmem) (by decide)

theorem FQANParse_clean {f : Fqan} (h : f.Named) : FQANParse f.text false = some f.cleaned := by
  unfold FQANParse Fqan.cleaned
  cases f with
  | group g =>
    obtain ⟨-, hg⟩ := h
    by_cases hall : (Fqan.group g).Everything
    · have htext : (Fqan.group g).text = "all".toList ∨ (Fqan.group g).text = "ALL".toList := hall
      rw [if_pos hall, if_pos htext]
      rfl
    · have htext : ¬ ((Fqan.group g).text = "all".toList ∨ (Fqan.group g).text = "ALL".toList) :=
        hall
      rw [if_neg hall, if_neg htext, Fqan.text_group, strstr_equals hg (by decide),
        strstr_equals hg (by decide)]
      simp only [Option.isSome_none, Bool.false_eq_true, if_false, List.nil_append, ite_self]
  | groupRole g r =>
    obtain ⟨hne, hg, hr⟩ := h
    have hnot := not_everything_role g r
    have htext : ¬ ((Fqan.groupRole g r).text = "all".toList ∨
      (Fqan.groupRole g r).text = "ALL".toList) := hnot
    have hdrop : (g ++ "/Role=".toList ++ r).drop (g.length + 6) = r := by
      rw [List.append_assoc, ← List.drop_drop, List.drop_left]
      rfl
    have htake : (g ++ "/Role=".toList ++ r).take g.length = g := by
      rw [List.append_assoc, List.take_left]
    rw [if_neg hnot, if_neg htext, Fqan.text_groupRole, strstr_capability hg hr, strstr_role r hg]
    simp only [List.length_pos_iff.mpr hne, if_true, htake, hdrop, Option.isSome_none,
      Bool.false_eq_true, if_false, List.nil_append]
  | role r => exact h.elim
  | all => exact h.elim

/-- The text of an order. -/
def orderText (l : List Fqan) : Str := join ',' (l.map Fqan.cleaned)

theorem parseFqans_clean {l : List Fqan} (h : ∀ f ∈ l, f.Named) :
    parseFqans (l.map Fqan.text) true = some (orderText l) := by
  have hmap : (l.map Fqan.text).mapM (fun fqan => FQANParse fqan (!true)) =
      some (l.map Fqan.cleaned) := by
    induction l with
    | nil => rfl
    | cons f l ih =>
      rw [List.map_cons, List.mapM_cons, Bool.not_true, FQANParse_clean (h f (List.mem_cons_self ..))]
      rw [Bool.not_true] at ih
      simp [ih fun f hf => h f (List.mem_cons_of_mem _ hf)]
  rw [parseFqans, hmap]
  rfl

/-! ## Reading the text -/

theorem Fqan.Named.text_ne_nil {f : Fqan} (h : f.Named) : f.text ≠ [] := by
  cases f with
  | group g => exact h.1
  | groupRole g r => simp
  | role r => exact h.elim
  | all => exact h.elim

/-- An FQAN does not begin with a blank. -/
theorem Fqan.Named.head_ne {f : Fqan} (h : f.Named) : f.text.head? ≠ some ' ' := by
  have hblank : ∀ {g : Str}, g.all filter = true → ' ' ∉ g := fun hg =>
    notMem_of_filter hg (by decide)
  intro hhead
  cases f with
  | group g => exact hblank h.2 (List.mem_of_mem_head? hhead)
  | groupRole g r =>
    obtain ⟨c, g', rfl⟩ := List.exists_cons_of_ne_nil h.1
    exact hblank h.2.1 (List.mem_of_mem_head? hhead)
  | role r => exact h.elim
  | all => exact h.elim

/-- A list in the text of an order has no other separators than its own. -/
theorem cleaned_notMem {f : Fqan} (h : f.Named) : ',' ∉ f.cleaned := by
  have hcomma : ∀ {g : Str}, g.all filter = true → ',' ∉ g := fun hg =>
    notMem_of_filter hg (by decide)
  unfold Fqan.cleaned
  split
  · simp
  · cases f with
    | group g => exact hcomma h.2
    | groupRole g r => simp [hcomma h.2.1, hcomma h.2.2]
    | role r => exact h.elim
    | all => exact h.elim

/-- `parse_order` puts `/Role=` back. -/
theorem orderFqan_cleaned {f : Fqan} (h : f.Named) :
    orderFqan f.cleaned = if f.Everything then [] else f.text := by
  have hcolon : ∀ {g : Str}, g.all filter = true → strstr ":".toList g = none := fun hg =>
    strstr_none_of_mem (List.mem_singleton_self ':') (notMem_colon hg)
  unfold Fqan.cleaned
  split
  · rfl
  · cases f with
    | group g =>
      rw [orderFqan, hcolon h.2]
      rfl
    | groupRole g r =>
      have hdivider : strstr ":".toList (g ++ ":".toList ++ r) = some g.length :=
        strstr_append_self r (fun k h0 h1 => absurd h1 (Nat.not_lt.mpr h0)) (hcolon h.2.1)
      have hdrop : (g ++ ":".toList ++ r).drop (g.length + 1) = r := by
        rw [List.append_assoc, ← List.drop_drop, List.drop_left]
        rfl
      have htake : (g ++ ":".toList ++ r).take g.length = g := by
        rw [List.append_assoc, List.take_left]
      simp only [orderFqan, hdivider, htake, hdrop, Fqan.text_groupRole]
    | role r => exact h.elim
    | all => exact h.elim

theorem choices_nil : choices [] = [[]] := rfl

theorem choices_orderText {l : List Fqan} (h : ∀ f ∈ l, f.Named) (hne : l ≠ []) :
    choices (orderText l) = l.map fun f => orderFqan f.cleaned := by
  have hcomma : ∀ s ∈ l.map Fqan.cleaned, ',' ∉ s := by
    intro s hs
    obtain ⟨f, hf, rfl⟩ := List.mem_map.mp hs
    exact cleaned_notMem (h f hf)
  have hsplit := List.splitOn_intercalate ',' hcomma (by simpa using hne)
  rw [choices, orderText, join, hsplit, List.map_map]
  rfl

/-- The map has the FQANs of the list, each with the place where it is first,
and the first of them is returned. -/
def Orders (order : Str) (l : List Fqan) : Prop :=
  (∀ g, (parseOrder order []).2.find g = (l.map Fqan.text).idxOf? g) ∧
  (parseOrder order []).1 = (l.map Fqan.text).head?.getD []

theorem find_choices {order g : Str} :
    (parseOrder order []).2.find g = (choices order).idxOf? g := by
  rw [find_parseOrder]
  cases hplace : (choices order).idxOf? g with
  | none => rw [if_neg (List.idxOf?_eq_none_iff.mp hplace)]
  | some i =>
    have hmem : g ∈ choices order := by
      rw [← List.isSome_idxOf?, hplace]
      rfl
    rw [if_pos hmem, List.idxOf_eq_getD_idxOf?, hplace, Option.getD_some]

/-- What the map has is what the text names. -/
theorem Orders.mem_iff {order : Str} {l : List Fqan} (h : Orders order l) (g : Str) :
    g ∈ choices order ↔ g ∈ l.map Fqan.text := by
  rw [← List.isSome_idxOf?, ← List.isSome_idxOf?, ← find_choices, h.1 g]

theorem orders_of_choices {order : Str} {l : List Fqan} (hl : ∀ f ∈ l, f.text ≠ [])
    (h : choices order = l.map Fqan.text) : Orders order l := by
  refine ⟨fun g => ?_, ?_⟩
  · rw [find_choices, h]
  · show ((choices order).find? (· ≠ [])).getD [] = _
    rw [h]
    cases l with
    | nil => rfl
    | cons f l => simp [hl f (List.mem_cons_self ..)]

/-- One list. -/
theorem orders_one_iff {l : List Fqan} (h : ∀ f ∈ l, f.Named) :
    Orders (orderText l) l ↔ l ≠ [] ∧ ∀ f ∈ l, ¬ f.Everything := by
  constructor
  · intro horders
    have hne : l ≠ [] := by
      rintro rfl
      have hmem := (horders.mem_iff []).mp (List.mem_singleton_self [])
      cases hmem
    refine ⟨hne, fun f hf hall => ?_⟩
    have hmem := (horders.mem_iff f.text).mpr (List.mem_map_of_mem hf)
    rw [choices_orderText h hne] at hmem
    obtain ⟨f', hf', heq⟩ := List.mem_map.mp hmem
    rw [orderFqan_cleaned (h f' hf')] at heq
    split at heq
    · exact (h f hf).text_ne_nil heq.symm
    · next hnot =>
      refine hnot ?_
      unfold Fqan.Everything at hall ⊢
      rwa [heq]
  · intro ⟨hne, hnot⟩
    refine orders_of_choices (fun f hf => (h f hf).text_ne_nil) ?_
    rw [choices_orderText h hne]
    refine List.map_congr_left fun f hf => ?_
    rw [orderFqan_cleaned (h f hf), if_neg (hnot f hf)]

/-! ## Several parameters -/

/-- What one `order` parameter does. mirrors src/server/vomsd-rest.cc:203-208 -/
def addOrder (orderstring cvalue : Str) : Str :=
  if orderstring = [] then cvalue else orderstring ++ ", ".toList ++ cvalue

def orderValue (parameter : Str × Str) : Option Str :=
  if parameter.1 = "order".toList then some parameter.2 else none

/-- The values of the `order` parameters of a query. -/
def orderValues (s : Str) : List Str :=
  ((s.splitOn '&').filterMap getParameter).filterMap orderValue

theorem set_orderstring (q : RestParams) (cname cvalue : Str) :
    (q.set cname cvalue).orderstring =
      if cname = "order".toList then addOrder q.orderstring cvalue else q.orderstring := by
  unfold RestParams.set
  by_cases horder : cname = "order".toList
  · subst horder
    rw [if_neg (by decide), if_neg (by decide), if_pos rfl, if_pos rfl]
    rfl
  · rw [if_neg horder]
    split_ifs <;> rfl

/-- No other parameter matters. -/
theorem foldlM_orderstring : ∀ {paths : List Str} {q q' : RestParams},
    paths.foldlM RestParams.read q = some q' →
    q'.orderstring =
      ((paths.filterMap getParameter).filterMap orderValue).foldl addOrder q.orderstring
  | [], q, q', h => by
    cases h
    rfl
  | path :: paths, q, q', h => by
    rw [List.foldlM_cons] at h
    obtain ⟨q1, hq1, h⟩ := Option.bind_eq_some_iff.mp h
    obtain ⟨⟨cname, cvalue⟩, hpath, rfl⟩ := Option.map_eq_some_iff.mp hq1
    have ih := foldlM_orderstring h
    rw [ih, set_orderstring, List.filterMap_cons_some hpath]
    by_cases horder : cname = "order".toList
    · have hvalue : orderValue (cname, cvalue) = some cvalue := if_pos horder
      rw [if_pos horder, List.filterMap_cons_some hvalue, List.foldl_cons]
    · have hvalue : orderValue (cname, cvalue) = none := if_neg horder
      rw [if_neg horder, List.filterMap_cons_none hvalue]

theorem orderstring_eq {s : Str} {q : RestParams} (h : parseParameters s = some q) :
    q.orderstring = (orderValues s).foldl addOrder [] := by
  have hne : s ≠ [] := by
    rintro rfl
    cases h
  rw [parseParameters_eq hne] at h
  exact foldlM_orderstring h

/-- The text starts with the first value that has one. -/
theorem foldl_addOrder_nil : ∀ values : List Str,
    values.foldl addOrder [] = match values.dropWhile (· = []) with
      | [] => []
      | v :: vs => vs.foldl addOrder v
  | [] => rfl
  | v :: vs => by
    rw [List.foldl_cons, addOrder, if_pos rfl]
    by_cases hv : v = []
    · rw [hv, foldl_addOrder_nil vs, List.dropWhile_cons_of_pos (by simp)]
    · rw [List.dropWhile_cons_of_neg (by simpa using hv)]

/-- A blank in front of a text is in front of the first FQAN. -/
theorem orderFqan_blank (attrib : Str) : orderFqan (' ' :: attrib) = ' ' :: orderFqan attrib := by
  unfold orderFqan
  rw [strstr_cons_of_not (by simp [List.cons_prefix_cons])]
  cases strstr ":".toList attrib <;> rfl

theorem choices_addOrder {o : Str} (ho : o ≠ []) (v : Str) : ∃ c cs, choices v = c :: cs ∧
    choices (addOrder o v) = choices o ++ (' ' :: c) :: cs := by
  obtain ⟨p, ps, hv⟩ := List.exists_cons_of_ne_nil (List.splitOn_ne_nil ',' v)
  refine ⟨orderFqan p, ps.map orderFqan, by rw [choices, hv, List.map_cons], ?_⟩
  have hcut : o ++ ", ".toList ++ v = o ++ ',' :: ' ' :: v := by simp
  have hblank : (' ' :: v).splitOn ',' = (' ' :: p) :: ps := by
    rw [List.splitOn_cons_eq_if_modifyHead, hv]
    rfl
  rw [addOrder, if_neg ho, hcut, choices, List.splitOn_append_cons_of_beq _ _ (by simp), hblank,
    List.map_append, List.map_cons, orderFqan_blank, choices]

theorem addOrder_ne_nil {o : Str} (ho : o ≠ []) (v : Str) : addOrder o v ≠ [] := by
  simp [addOrder, ho]

/-- What is named is empty, or in one of the values, or begins with a blank. -/
theorem mem_foldl_addOrder : ∀ {values : List Str} {o c : Str}, o ≠ [] →
    c ∈ choices (values.foldl addOrder o) →
    c ∈ choices o ∨ c.head? = some ' ' ∨ ∃ v ∈ values, c ∈ choices v
  | [], _, _, _, h => Or.inl h
  | v :: vs, o, c, ho, h => by
    obtain ⟨d, ds, hv, hadd⟩ := choices_addOrder ho v
    rcases mem_foldl_addOrder (addOrder_ne_nil ho v) h with h | h | ⟨w, hw, h⟩
    · rw [hadd, List.mem_append, List.mem_cons] at h
      rcases h with h | rfl | h
      · exact Or.inl h
      · exact Or.inr (Or.inl rfl)
      · exact Or.inr (Or.inr ⟨v, List.mem_cons_self .., by rw [hv]; exact List.mem_cons_of_mem _ h⟩)
    · exact Or.inr (Or.inl h)
    · exact Or.inr (Or.inr ⟨w, List.mem_cons_of_mem _ hw, h⟩)

/-- What was named stays named. -/
theorem choices_subset_foldl : ∀ {values : List Str} {o c : Str}, o ≠ [] → c ∈ choices o →
    c ∈ choices (values.foldl addOrder o)
  | [], _, _, _, h => h
  | v :: vs, o, c, ho, h => by
    obtain ⟨d, ds, -, hadd⟩ := choices_addOrder ho v
    rw [List.foldl_cons]
    refine choices_subset_foldl (addOrder_ne_nil ho v) ?_
    rw [hadd]
    exact List.mem_append_left _ h

/-- Every parameter behind a text names something with a blank in front. -/
theorem blank_foldl {values : List Str} {o : Str} (ho : o ≠ []) (hne : values ≠ []) :
    ∃ c ∈ choices (values.foldl addOrder o), c.head? = some ' ' := by
  obtain ⟨v, vs, rfl⟩ := List.exists_cons_of_ne_nil hne
  obtain ⟨d, ds, -, hadd⟩ := choices_addOrder ho v
  rw [List.foldl_cons]
  refine ⟨' ' :: d, choices_subset_foldl (addOrder_ne_nil ho v) ?_, rfl⟩
  rw [hadd]
  exact List.mem_append_right _ (List.mem_cons_self ..)

variable {lists : List (List Fqan)}

/-- An FQAN named by one of the parameters, in the text of the order. -/
theorem named_of_mem (h : ∀ l ∈ lists, ∀ f ∈ l, f.Named) {c : Str}
    (hc : c ∈ choices ((lists.map orderText).foldl addOrder [])) :
    c = [] ∨ c.head? = some ' ' ∨ ∃ l ∈ lists, ∃ f ∈ l, ¬ f.Everything ∧ c = f.text := by
  have hlist : ∀ l ∈ lists, c ∈ choices (orderText l) →
      c = [] ∨ c.head? = some ' ' ∨ ∃ l ∈ lists, ∃ f ∈ l, ¬ f.Everything ∧ c = f.text := by
    intro l hl hmem
    by_cases hne : l = []
    · subst hne
      exact Or.inl (List.mem_singleton.mp hmem)
    · rw [choices_orderText (h l hl) hne] at hmem
      obtain ⟨f, hf, rfl⟩ := List.mem_map.mp hmem
      rw [orderFqan_cleaned (h l hl f hf)]
      split
      · exact Or.inl rfl
      · next hnot => exact Or.inr (Or.inr ⟨l, hl, f, hf, hnot, rfl⟩)
  have hvalue : ∀ v ∈ lists.map orderText, c ∈ choices v →
      c = [] ∨ c.head? = some ' ' ∨ ∃ l ∈ lists, ∃ f ∈ l, ¬ f.Everything ∧ c = f.text := by
    intro v hv hmem
    obtain ⟨l, hl, rfl⟩ := List.mem_map.mp hv
    exact hlist l hl hmem
  rw [foldl_addOrder_nil] at hc
  split at hc
  · exact Or.inl (List.mem_singleton.mp hc)
  · next v vs hdrop =>
    have hsub : ∀ w ∈ v :: vs, w ∈ lists.map orderText := fun w hw =>
      (List.dropWhile_sublist _).subset (hdrop ▸ hw)
    have hv : v ≠ [] := by
      have := List.dropWhile_get_zero_not (· = []) (lists.map orderText) (by rw [hdrop]; simp)
      simpa [hdrop] using this
    rcases mem_foldl_addOrder hv hc with hc | hc | ⟨w, hw, hc⟩
    · exact hvalue v (hsub v (List.mem_cons_self ..)) hc
    · exact Or.inr (Or.inl hc)
    · exact hvalue w (hsub w (List.mem_cons_of_mem _ hw)) hc

/-- Where no list has a group `all`, the text of a list is empty only for
the empty list. -/
theorem orderText_eq_nil {l : List Fqan} (h : ∀ f ∈ l, f.Named) (hnot : ∀ f ∈ l, ¬ f.Everything) :
    orderText l = [] ↔ l = [] := by
  constructor
  · intro hnil
    by_contra hne
    have hchoices := choices_orderText h hne
    rw [hnil, choices_nil] at hchoices
    obtain ⟨f, rest, rfl⟩ := List.exists_cons_of_ne_nil hne
    have hhead : [] = orderFqan f.cleaned := (List.cons.inj hchoices).1
    rw [orderFqan_cleaned (h f (List.mem_cons_self ..)), if_neg (hnot f (List.mem_cons_self ..))]
      at hhead
    exact (h f (List.mem_cons_self ..)).text_ne_nil hhead.symm
  · rintro rfl
    rfl

theorem dropWhile_orderText : ∀ {lists : List (List Fqan)}, (∀ l ∈ lists, ∀ f ∈ l, f.Named) →
    (∀ l ∈ lists, ∀ f ∈ l, ¬ f.Everything) →
    (lists.map orderText).dropWhile (· = []) = (lists.dropWhile (· = [])).map orderText
  | [], _, _ => rfl
  | l :: lists, h, hnot => by
    obtain ⟨hl, hlists⟩ := List.forall_mem_cons.mp h
    obtain ⟨hnotl, hnotlists⟩ := List.forall_mem_cons.mp hnot
    have hnil := orderText_eq_nil hl hnotl
    rw [List.map_cons]
    by_cases hempty : l = []
    · rw [List.dropWhile_cons_of_pos (by simpa using hnil.mpr hempty),
        List.dropWhile_cons_of_pos (by simpa using hempty), dropWhile_orderText hlists hnotlists]
    · rw [List.dropWhile_cons_of_neg (by simpa using mt hnil.mp hempty),
        List.dropWhile_cons_of_neg (by simpa using hempty), List.map_cons]

theorem flatten_dropWhile : ∀ lists : List (List Fqan),
    (lists.dropWhile (· = [])).flatten = lists.flatten
  | [] => rfl
  | l :: lists => by
    by_cases hempty : l = []
    · rw [List.dropWhile_cons_of_pos (by simpa using hempty), flatten_dropWhile lists, hempty]
      rfl
    · rw [List.dropWhile_cons_of_neg (by simpa using hempty)]

/-- A second parameter names what nobody asked for. -/
theorem orders_single (h : ∀ l ∈ lists, ∀ f ∈ l, f.Named)
    (hnot : ∀ l ∈ lists, ∀ f ∈ l, ¬ f.Everything)
    (horders : Orders ((lists.map orderText).foldl addOrder []) lists.flatten) :
    (lists.dropWhile (· = [])).length ≤ 1 := by
  by_contra hlong
  rw [foldl_addOrder_nil, dropWhile_orderText h hnot] at horders
  match hdrop : lists.dropWhile (· = []), hlong, horders with
  | [], hlong, _ => exact hlong (Nat.zero_le _)
  | [l], hlong, _ => exact hlong (Nat.le_refl _)
  | l :: l' :: rest, _, horders =>
    have hl : l ∈ lists := (List.dropWhile_sublist _).subset (hdrop ▸ List.mem_cons_self ..)
    have hne : l ≠ [] := by
      have := List.dropWhile_get_zero_not (· = []) lists (by rw [hdrop]; simp)
      simpa [hdrop] using this
    have htext : orderText l ≠ [] := mt (orderText_eq_nil (h l hl) (hnot l hl)).mp hne
    obtain ⟨c, hc, hblank⟩ := @blank_foldl ((l' :: rest).map orderText) _ htext (by simp)
    obtain ⟨f, hf, rfl⟩ := List.mem_map.mp ((horders.mem_iff c).mp hc)
    obtain ⟨k, hk, hf⟩ := List.mem_flatten.mp hf
    exact (h k hk f hf).head_ne hblank

/-- Several parameters: of those that name an FQAN there is one, and it is
the last of all. -/
theorem orders_many_iff (h : ∀ l ∈ lists, ∀ f ∈ l, f.Named) :
    Orders ((lists.map orderText).foldl addOrder []) lists.flatten ↔
      lists.flatten ≠ [] ∧ (∀ l ∈ lists, ∀ f ∈ l, ¬ f.Everything) ∧
        (lists.dropWhile (· = [])).length ≤ 1 := by
  constructor
  · intro horders
    have hnot : ∀ l ∈ lists, ∀ f ∈ l, ¬ f.Everything := by
      intro l hl f hf hall
      have hmem : f.text ∈ lists.flatten.map Fqan.text :=
        List.mem_map_of_mem (List.mem_flatten_of_mem hl hf)
      rcases named_of_mem h ((horders.mem_iff _).mpr hmem) with heq | hhead | ⟨_, _, g, _, hg, heq⟩
      · exact (h l hl f hf).text_ne_nil heq
      · exact (h l hl f hf).head_ne hhead
      · exact hg (by unfold Fqan.Everything at hall ⊢; rwa [← heq])
    refine ⟨fun hempty => ?_, hnot, orders_single h hnot horders⟩
    have hnil : ∀ l ∈ lists, l = [] := List.flatten_eq_nil_iff.mp hempty
    have hdrop : lists.dropWhile (· = []) = [] :=
      List.dropWhile_eq_nil_iff.mpr fun l hl => by simpa using hnil l hl
    rw [foldl_addOrder_nil, dropWhile_orderText h hnot, hdrop, hempty] at horders
    have hmem := (horders.mem_iff []).mp (List.mem_singleton_self [])
    cases hmem
  · intro ⟨hne, hnot, hone⟩
    have hflat := flatten_dropWhile lists
    rw [foldl_addOrder_nil, dropWhile_orderText h hnot]
    match hdrop : lists.dropWhile (· = []), hone with
    | [], _ =>
      rw [hdrop] at hflat
      exact absurd hflat.symm hne
    | [l], _ =>
      rw [hdrop, List.flatten_singleton] at hflat
      have hl : l ∈ lists := (List.dropWhile_sublist _).subset (hdrop ▸ List.mem_cons_self ..)
      rw [← hflat] at hne ⊢
      exact (orders_one_iff (h l hl)).mpr ⟨hne, hnot l hl⟩

/-- **Exactly one order that names an FQAN, and no group `all`.** -/
theorem orders_exact (l : List Fqan) (s : Str) (q : RestParams) (lists : List (List Fqan)) :
    ((∀ f ∈ l, f.Named) → ∃ order, parseFqans (l.map Fqan.text) true = some order ∧
      (Orders order l ↔ l ≠ [] ∧ ∀ f ∈ l, ¬ f.Everything)) ∧
    (parseParameters s = some q → (∀ l ∈ lists, ∀ f ∈ l, f.Named) →
      (lists.map fun l => parseFqans (l.map Fqan.text) true) = (orderValues s).map some →
      (Orders q.orderstring lists.flatten ↔
        lists.flatten ≠ [] ∧ (∀ l ∈ lists, ∀ f ∈ l, ¬ f.Everything) ∧
          (lists.dropWhile (· = [])).length ≤ 1)) := by
  refine ⟨fun h => ⟨orderText l, parseFqans_clean h, orders_one_iff h⟩,
    fun hq h hvalues => ?_⟩
  have htexts : (lists.map fun l => parseFqans (l.map Fqan.text) true) =
      (lists.map orderText).map some := by
    rw [List.map_map]
    exact List.map_congr_left fun l hl => parseFqans_clean (h l hl)
  rw [htexts] at hvalues
  have hinj := List.map_injective_iff.mpr (Option.some_injective Str) hvalues
  rw [orderstring_eq hq, ← hinj]
  exact orders_many_iff h

namespace Sample

/-- First one group, then a role in another. -/
def preferred : List Fqan := [.group "/vo/a".toList, .groupRole "/vo/b".toList "c".toList]

end Sample

theorem preferred_named : ∀ f ∈ Sample.preferred, f.Named :=
  List.forall_mem_cons.mpr ⟨⟨by decide, by decide⟩,
    List.forall_mem_singleton.mpr ⟨by decide, by decide, by decide⟩⟩

theorem orders_exact_one :
    ∃ q, parseParameters "order=/vo/a,/vo/b:c".toList = some q ∧
      Orders q.orderstring Sample.preferred ∧
      ∃ order, parseFqans (Sample.preferred.map Fqan.text) true = some order ∧
        (Orders order Sample.preferred ↔
          Sample.preferred ≠ [] ∧ ∀ f ∈ Sample.preferred, ¬ f.Everything) := by
  refine ⟨_, rfl, ?_⟩
  have hexact := orders_exact Sample.preferred "order=/vo/a,/vo/b:c".toList
    { RestParams.new with orderstring := "/vo/a,/vo/b:c".toList } [Sample.preferred]
  exact ⟨(hexact.2 rfl (List.forall_mem_singleton.mpr preferred_named) rfl).mpr
    ⟨by decide, by decide, Nat.le_refl _⟩, hexact.1 preferred_named⟩

/-- As two parameters the second is not found under its name. -/
theorem orders_blank : ∃ q, parseParameters "order=/vo/a&order=/vo/b:c".toList = some q ∧
    q.orderstring = "/vo/a, /vo/b:c".toList ∧
    (parseOrder q.orderstring []).2 =
      [("/vo/a".toList, 0), (" /vo/b/Role=c".toList, 1)] ∧
    ¬ Orders q.orderstring Sample.preferred := by
  refine ⟨_, rfl, rfl, rfl, fun h => ?_⟩
  have hfind := h.1 "/vo/b/Role=c".toList
  exact absurd hfind (by decide)

end Voms.L5
