import Voms.L3Wire.Requests
import Voms.L4Api.ContactRest
import Voms.L5Server.Fqan

/-!
# What the URL keeps of a command

The commands of a client go through `parse_commands` (`src/api/ccapi/voms_api.cc`)
into the URL and through `FQANParse` (`src/common/fqan.cc`) out of it again.
`command_kept`: a command comes back exactly if no name of a group or a role
contains one of the letters before a slash. `parameter_kept`: a list of them
comes back exactly if all of them do, and "all" is first only if it is alone.
-/
namespace Voms.L5

open Voms.Core Voms.L3 Voms.L4

/-! ## One command there and back -/

/-- What the server's `FQANParse` can make of a text. -/
theorem fqanParse_cases {s q : Str} (h : fqanParse s = some q) :
    q = "A".toList ∧ (s = "all".toList ∨ s = "ALL".toList) ∨
      (∃ a b, s = a ++ "/Role=".toList ++ b ∧ q = 'B' :: (a ++ ":".toList ++ b)) ∨
      (∃ b, s = "/Role=".toList ++ b ∧ q = 'R' :: b) ∨
      (s.head? = some '/' ∧ q = 'G' :: s) ∨ (s.head? ≠ some '/' ∧ q = s) := by
  unfold fqanParse at h
  split at h
  · next hall => exact Or.inl ⟨(Option.some.inj h).symm, hall⟩
  · split at h
    · cases h
    · split at h
      · next pos hpos =>
        have hcut := strstr_split hpos
        have hlen : "/Role=".toList.length = 6 := rfl
        rw [hlen] at hcut
        split at h
        · refine Or.inr (Or.inl ⟨_, _, hcut, ?_⟩)
          rw [← Option.some.inj h]
          rfl
        · next hzero =>
          obtain rfl : pos = 0 := by omega
          refine Or.inr (Or.inr (Or.inl ⟨s.drop 6, ?_, (Option.some.inj h).symm⟩))
          simpa using hcut
      · split at h
        · next hslash => exact Or.inr (Or.inr (Or.inr (Or.inl ⟨hslash, (Option.some.inj h).symm⟩)))
        · next hslash => exact Or.inr (Or.inr (Or.inr (Or.inr ⟨hslash, (Option.some.inj h).symm⟩)))

theorem notMem_colon {s : Str} (h : s.all filter = true) : ':' ∉ s :=
  notMem_of_filter h (by decide)

/-- A command without a role. -/
theorem text_kept {p : Str} (hp : p.all filter = true) (hslash : p.head? ≠ some '/')
    (hall : p ≠ "all".toList) (hALL : p ≠ "ALL".toList) :
    fqanParse (rewritten p) = some p ↔ Plain p ∨ ∃ t, p = 'G' :: '/' :: t ∧ Plain t := by
  have hself := rewritten_eq_self (notMem_colon hp)
  have hgroup : ∀ {t : Str}, p = 'G' :: '/' :: t → t.all filter = true := by
    intro t ht
    rw [ht, List.all_cons, List.all_cons, Bool.and_eq_true, Bool.and_eq_true] at hp
    exact hp.2.2
  constructor
  · intro h
    rcases fqanParse_cases h with ⟨rfl, -⟩ | ⟨a, b, -, hq⟩ | ⟨b, hs, hq⟩ | ⟨hhead, hq⟩ | ⟨-, hq⟩
    · exact Or.inl ⟨by decide, by decide, by decide⟩
    · have hmem : ':' ∈ p := by
        rw [hq]
        simp
      exact absurd hmem (notMem_colon hp)
    · -- the role would be five characters longer than the command for one `=`
      have hlen := length_rewritten_le (notMem_colon hp)
      have hb : b.count '=' = 0 := by
        rw [hq, List.all_cons, Bool.and_eq_true] at hp
        exact List.count_eq_zero.mpr (notMem_of_filter hp.2 (by decide))
      have hrole : "/Role=".toList.count '=' = 1 := by decide
      have hsix : "/Role=".toList.length = 6 := rfl
      rw [hs, List.count_append, hb, hrole, List.length_append, hsix, hq, List.length_cons] at hlen
      omega
    · obtain ⟨t, ht⟩ : ∃ t, rewritten p = '/' :: t := by
        cases hr : rewritten p with
        | nil => rw [hr] at hhead; cases hhead
        | cons c t => rw [hr] at hhead; exact ⟨t, by rw [Option.some.inj hhead]⟩
      rw [ht] at hq
      have hcolon := notMem_colon (hgroup hq)
      rw [hq, rewritten_group hcolon] at ht
      exact Or.inr ⟨t, hq, (rewritten_eq_self hcolon).mp (List.cons.inj ht).2⟩
    · exact Or.inl (hself.mp hq.symm)
  · intro h
    rcases h with h | ⟨t, rfl, ht⟩
    · rw [hself.mpr h, fqanParse_text hp hall hALL, if_neg hslash]
    · have hfilter := hgroup rfl
      have hslash' : ('/' :: t).all filter = true := by
        rw [List.all_cons, hfilter]
        rfl
      rw [rewritten_group (notMem_colon hfilter),
        (rewritten_eq_self (notMem_colon hfilter)).mpr ht, fqanParse_text hslash' nofun nofun]
      rfl

/-- A command for a group with a role. -/
theorem pair_kept {g r : Str} (hg : g.all filter = true) (hr : r.all filter = true) (hne : g ≠ []) :
    fqanParse (rewritten ('B' :: g ++ ":".toList ++ r)) = some ('B' :: g ++ ":".toList ++ r) ↔
      ∃ k t, g ++ "/Role=".toList ++ r = List.replicate k 'B' ++ '/' :: t ∧ Plain t := by
  have hcolons : rewritten ('B' :: g ++ ":".toList ++ r) =
      rewritten ('B' :: (g ++ "/Role=".toList ++ r)) := by
    rw [← rewritten_colons ('B' :: g ++ ":".toList ++ r), colons_append, colons_append,
      colons_eq_self (notMem_colon hr), colons_eq_self (by simpa using notMem_colon hg)]
    rfl
  have hcolon : ':' ∉ g ++ "/Role=".toList ++ r := by
    rw [List.mem_append, List.mem_append, not_or, not_or]
    exact ⟨⟨notMem_colon hg, by decide⟩, notMem_colon hr⟩
  rw [hcolons, ← rewritten_pair_iff hcolon]
  constructor
  · intro h
    have hnot := notMem_rewritten ('B' :: (g ++ "/Role=".toList ++ r))
    rcases fqanParse_cases h with ⟨hq, -⟩ | ⟨a, b, hs, hq⟩ | ⟨b, -, hq⟩ | ⟨-, hq⟩ | ⟨-, hq⟩
    · have hlen := congrArg List.length hq
      have hpos := List.length_pos_of_ne_nil hne
      simp at hlen
    · rw [hs] at hnot
      rw [List.mem_append, List.mem_append, not_or, not_or] at hnot
      have hcut : g ++ ':' :: r = a ++ ':' :: b := by simpa using hq
      obtain ⟨rfl, -, rfl⟩ := (List.append_cons_inj_of_notMem (notMem_colon hg)
        (notMem_colon hr)).mp hcut
      exact hs
    · cases hq
    · cases hq
    · rw [← hq] at hnot
      simp at hnot
  · intro h
    rw [h, fqanParse_role hg hr, if_neg hne]

/-- The command `FQANParse` makes of an FQAN. -/
def Fqan.command : Fqan → Str
  | .group g =>
    if g = "all".toList ∨ g = "ALL".toList then "A".toList
    else if g.head? = some '/' then 'G' :: g
    else g
  | .groupRole g r => if g = [] then 'R' :: r else 'B' :: g ++ ":".toList ++ r
  | .role r => 'R' :: r
  | .all => "A".toList

theorem fqanParse_command {f : Fqan} (h : f.Acceptable) : fqanParse f.text = some f.command := by
  cases f with
  | group g =>
    show fqanParse g = some (if g = "all".toList ∨ g = "ALL".toList then "A".toList
      else if g.head? = some '/' then 'G' :: g else g)
    by_cases hall : g = "all".toList ∨ g = "ALL".toList
    · rw [if_pos hall]
      unfold fqanParse
      rw [if_pos hall]
    · rw [if_neg hall]
      rw [not_or] at hall
      exact fqanParse_text h hall.1 hall.2
  | groupRole g r => exact fqanParse_role h.1 h.2
  | role r =>
    have hparse := @fqanParse_role [] r rfl h
    rw [List.nil_append, if_pos rfl] at hparse
    exact hparse
  | all => rfl

/-- The names keep their letters on the way through the URL. -/
def Fqan.Kept : Fqan → Prop
  | .group g => g = "all".toList ∨ g = "ALL".toList ∨ Plain g ∨ ∃ t, g = 'G' :: '/' :: t ∧ Plain t
  | .groupRole g r =>
    if g = [] then Plain ('R' :: r)
    else ∃ k t, g ++ "/Role=".toList ++ r = List.replicate k 'B' ++ '/' :: t ∧ Plain t
  | .role r => Plain ('R' :: r)
  | .all => True

theorem plain_slash {t : Str} : Plain ('/' :: t) ↔ Plain t := by
  have hin : ∀ {c : Char}, c ≠ '/' → ([c, '/'] <:+: '/' :: t ↔ [c, '/'] <:+: t) := by
    intro c hc
    rw [List.infix_cons_iff]
    refine or_iff_right fun hpre => hc ?_
    rw [List.cons_prefix_cons] at hpre
    exact hpre.1
  have hG : "G/".toList <:+: '/' :: t ↔ "G/".toList <:+: t := hin (by decide)
  have hB : "B/".toList <:+: '/' :: t ↔ "B/".toList <:+: t := hin (by decide)
  have hR : "R/".toList <:+: '/' :: t ↔ "R/".toList <:+: t := hin (by decide)
  unfold Plain
  rw [hG, hB, hR]

theorem not_plain_group (t : Str) : ¬ Plain ('G' :: '/' :: t) := fun h =>
  h.1 (List.prefix_append "G/".toList t).isInfix

theorem role_kept {r : Str} (h : r.all filter = true) :
    fqanParse (rewritten ('R' :: r)) = some ('R' :: r) ↔ Plain ('R' :: r) := by
  have hfilter : ('R' :: r).all filter = true := by
    rw [List.all_cons, h]
    rfl
  rw [text_kept hfilter nofun nofun nofun]
  refine or_iff_left ?_
  rintro ⟨t, ht, -⟩
  cases ht

/-- A command comes back as it was exactly if its names are kept. -/
theorem command_kept {f : Fqan} (h : f.Acceptable) :
    fqanParse (rewritten f.command) = some f.command ↔ f.Kept := by
  cases f with
  | group g =>
    rw [Fqan.command, Fqan.Kept]
    by_cases hall : g = "all".toList ∨ g = "ALL".toList
    · rw [if_pos hall]
      refine iff_of_true (by decide) ?_
      rcases hall with hall | hall
      · exact Or.inl hall
      · exact Or.inr (Or.inl hall)
    · rw [if_neg hall]
      rw [not_or] at hall
      rw [or_iff_right hall.1, or_iff_right hall.2]
      by_cases hslash : g.head? = some '/'
      · obtain ⟨t, rfl⟩ : ∃ t, g = '/' :: t := by
          cases g with
          | nil => cases hslash
          | cons c t => exact ⟨t, by rw [Option.some.inj hslash]⟩
        have hfilter : ('G' :: '/' :: t).all filter = true := by
          rw [List.all_cons, show List.all ('/' :: t) filter = true from h]
          rfl
        rw [if_pos hslash, text_kept hfilter nofun nofun nofun, plain_slash,
          or_iff_right (not_plain_group t)]
        constructor
        · rintro ⟨t', ht', hplain⟩
          cases ht'
          exact Or.inl hplain
        · rintro (hplain | ⟨t', ht', -⟩)
          · exact ⟨t, rfl, hplain⟩
          · cases ht'
      · rw [if_neg hslash]
        exact text_kept h hslash hall.1 hall.2
  | groupRole g r =>
    rw [Fqan.command, Fqan.Kept]
    by_cases hne : g = []
    · rw [if_pos hne, if_pos hne]
      exact role_kept h.2
    · rw [if_neg hne, if_neg hne]
      exact pair_kept h.1 h.2 hne
  | role r => exact role_kept h
  | all => exact iff_of_true (by decide) trivial

/-! ## What is asked for -/

/-- What a client asks for. -/
structure Wish where
  fqans : List Fqan
  order : Str
  targets : List Str
  lifetime : Int

def Wish.commands (w : Wish) : List Str := w.fqans.map Fqan.command

/-- The client asks for everything before anything else. -/
def Wish.Everything (w : Wish) : Prop := (join ',' w.commands).head? = some 'A'

instance (w : Wish) : Decidable w.Everything := by
  unfold Wish.Everything
  infer_instance

/-- What is asked for is kept: everything alone, or behind it nothing but an
empty FQAN; or names that are kept. -/
def Wish.KeepsFqans (w : Wish) : Prop :=
  if w.Everything then w.commands = ["A".toList] ∨ w.commands = ["A".toList, []]
  else ∀ f ∈ w.fqans, f.Kept

/-- The value of `fqans` in the URL. -/
def Wish.parameter (w : Wish) : Str :=
  if w.Everything then "all".toList else rewritten (join ',' w.commands)

/-- A command has the characters of names, and a colon between two of them. -/
theorem mem_command {f : Fqan} (h : f.Acceptable) {c : Char} (hc : c ∈ f.command) :
    filter c = true ∨ c = ':' := by
  have htext : ∀ {s : Str}, s.all filter = true → c ∈ s → filter c = true := fun hs =>
    List.all_eq_true.mp hs c
  have hcons : ∀ {a : Char} {s : Str}, filter a = true → s.all filter = true → c ∈ a :: s →
      filter c = true := by
    intro a s ha hs hmem
    rcases List.mem_cons.mp hmem with rfl | hmem
    · exact ha
    · exact htext hs hmem
  cases f with
  | group g =>
    rw [Fqan.command] at hc
    split at hc
    · exact Or.inl (hcons rfl rfl hc)
    · split at hc
      · exact Or.inl (hcons rfl h hc)
      · exact Or.inl (htext h hc)
  | groupRole g r =>
    rw [Fqan.command] at hc
    split at hc
    · exact Or.inl (hcons rfl h.2 hc)
    · rcases List.mem_append.mp hc with hc | hc
      · rcases List.mem_append.mp hc with hc | hc
        · exact Or.inl (hcons rfl h.1 hc)
        · exact Or.inr (List.mem_singleton.mp hc)
      · exact Or.inl (htext h.2 hc)
  | role r => exact Or.inl (hcons rfl h hc)
  | all => exact Or.inl (hcons rfl rfl hc)

theorem command_head {f : Fqan} : f.command.head? ≠ some '/' := by
  cases f with
  | group g =>
    rw [Fqan.command]
    split
    · decide
    · split
      · exact fun h => absurd (Option.some.inj h) (by decide)
      · assumption
  | groupRole g r =>
    rw [Fqan.command]
    split <;> exact fun h => absurd (Option.some.inj h) (by decide)
  | role r => exact fun h => absurd (Option.some.inj h) (by decide)
  | all => decide

theorem join_cons (s t : Str) (l : List Str) : join ',' (s :: t :: l) = s ++ ',' :: join ',' (t :: l) := by
  simp [join, List.intercalate]

theorem join_head (w : Wish) : (join ',' w.commands).head? ≠ some '/' := by
  unfold Wish.commands
  cases w.fqans with
  | nil => exact nofun
  | cons f l =>
    have hf := @command_head f
    cases l with
    | nil => simpa [join] using hf
    | cons g l =>
      rw [List.map_cons, List.map_cons, join_cons]
      cases hc : f.command with
      | nil => exact fun h => absurd (Option.some.inj h) (by decide)
      | cons a s =>
        rw [hc] at hf
        exact hf

variable {w : Wish}

theorem command_notMem (h : ∀ f ∈ w.fqans, f.Acceptable) {c : Char} (hc : filter c = false)
    (hcolon : c ≠ ':') : ∀ s ∈ w.commands, c ∉ s := by
  intro s hs hmem
  obtain ⟨f, hf, rfl⟩ := List.mem_map.mp hs
  rcases mem_command (h f hf) hmem with hc' | hc'
  · rw [hc] at hc'
    cases hc'
  · exact hcolon hc'

theorem mapM_some {α β : Type} {f : α → Option β} : ∀ {l : List α} {l' : List β},
    l.mapM f = some l' ↔ List.Forall₂ (fun a b => f a = some b) l l'
  | [], l' => by
    rw [List.mapM_nil, List.forall₂_nil_left_iff]
    exact ⟨fun h => (Option.some.inj h).symm, fun h => by rw [h]; rfl⟩
  | a :: l, l' => by
    have ih := @mapM_some α β f l
    rw [List.mapM_cons, List.forall₂_cons_left_iff]
    simp only [Option.bind_eq_bind, Option.bind_eq_some_iff, ih, Option.pure_def, Option.some.injEq]
    exact ⟨fun ⟨b, hb, l1, hl1, h⟩ => ⟨b, l1, hb, hl1, h.symm⟩,
      fun ⟨b, l1, hb, hl1, h⟩ => ⟨b, hb, l1, hl1, h.symm⟩⟩

theorem exists_of_forall₂ {α β : Type} {R : α → β → Prop} {l : List α} {l' : List β}
    (h : List.Forall₂ R l l') : ∀ {b : β}, b ∈ l' → ∃ a ∈ l, R a b := by
  induction h with
  | nil => exact nofun
  | cons hab _ ih =>
    intro b hb
    rcases List.mem_cons.mp hb with rfl | hb
    · exact ⟨_, List.mem_cons_self .., hab⟩
    · obtain ⟨a, ha, hr⟩ := ih hb
      exact ⟨a, List.mem_cons_of_mem _ ha, hr⟩

/-- What the client makes of its FQANs. -/
theorem parseFqan_commands (h : ∀ f ∈ w.fqans, f.Acceptable) :
    parseFqan (w.fqans.map Fqan.text) = some (join ',' w.commands) := by
  have hmap : (w.fqans.map Fqan.text).mapM fqanParse = some w.commands := by
    rw [mapM_some, Wish.commands, List.forall₂_map_left_iff, List.forall₂_map_right_iff,
      List.forall₂_same]
    exact fun f hf => fqanParse_command (h f hf)
  unfold parseFqan
  rw [hmap]
  rfl

/-- Lists of commands of one length are told apart by their text. -/
theorem getlines_join_inj {l l' : List Str} (h : ∀ c ∈ l, ',' ∉ c) (h' : ∀ c ∈ l', ',' ∉ c)
    (hlen : l.length = l'.length) (heq : getlines ',' (join ',' l) = getlines ',' (join ',' l')) :
    l = l' := by
  rw [getlines_join h, getlines_join h'] at heq
  have hpos : ∀ {k : List Str}, k.getLast? = some [] → 0 < k.length := by
    intro k hk
    cases k with
    | nil => cases hk
    | cons _ _ => exact Nat.succ_pos _
  by_cases hlast : l.getLast? = some []
  · have := hpos hlast
    by_cases hlast' : l'.getLast? = some []
    · rw [if_pos hlast, if_pos hlast'] at heq
      rw [← List.dropLast_append_getLast? [] hlast, ← List.dropLast_append_getLast? [] hlast', heq]
    · rw [if_pos hlast, if_neg hlast'] at heq
      have := congrArg List.length heq
      rw [List.length_dropLast] at this
      omega
  · by_cases hlast' : l'.getLast? = some []
    · have := hpos hlast'
      rw [if_neg hlast, if_pos hlast'] at heq
      have := congrArg List.length heq
      rw [List.length_dropLast] at this
      omega
    · rw [if_neg hlast, if_neg hlast'] at heq
      exact heq

theorem fqanParse_notMem {s q : Str} (hs : ',' ∉ s) (h : fqanParse s = some q) : ',' ∉ q := by
  rcases fqanParse_cases h with ⟨rfl, -⟩ | ⟨a, b, rfl, rfl⟩ | ⟨b, rfl, rfl⟩ | ⟨-, rfl⟩ | ⟨-, rfl⟩
  · decide
  · simp only [List.mem_append, List.mem_cons, not_or] at hs ⊢
    exact ⟨by decide, ⟨hs.1.1, by decide⟩, hs.2⟩
  · simp only [List.mem_append, List.mem_cons, not_or] at hs ⊢
    exact ⟨by decide, hs.2⟩
  · rw [List.mem_cons, not_or]
    exact ⟨by decide, hs⟩
  · exact hs

theorem notMem_of_rewritten {s : Str} {c : Char} (hs : c ∉ s) (hc : c ∉ "/Role=".toList) :
    c ∉ rewritten s := by
  intro h
  rcases mem_rewritten h with h | h
  · unfold colons at h
    obtain ⟨a, ha, h⟩ := List.mem_flatMap.mp h
    split at h
    · exact hc h
    · rw [List.mem_singleton.mp h] at hs
      exact hs ha
  · exact hc h

/-- Everything alone, or something in between. -/
theorem everything_kept (h : ∀ f ∈ w.fqans, f.Acceptable) :
    getlines ',' (join ',' w.commands) = ["A".toList] ↔
      w.commands = ["A".toList] ∨ w.commands = ["A".toList, []] := by
  rw [getlines_join (command_notMem h (by decide) (by decide))]
  constructor
  · intro heq
    split at heq
    · next hlast =>
      rw [← List.dropLast_append_getLast? [] hlast, heq]
      exact Or.inr rfl
    · exact Or.inl heq
  · rintro (heq | heq) <;> rw [heq] <;> rfl

/-- The server makes of the URL the commands the client had, exactly if the
client's wish is kept. -/
theorem parameter_kept (h : ∀ f ∈ w.fqans, f.Acceptable) :
    (∃ c, parseFqan (w.parameter.splitOn ',') = some c ∧
      getlines ',' c = getlines ',' (join ',' w.commands)) ↔ w.KeepsFqans := by
  have hcomma : ∀ s ∈ w.commands, ',' ∉ s := command_notMem h (by decide) (by decide)
  unfold Wish.parameter Wish.KeepsFqans
  by_cases hall : w.Everything
  · rw [if_pos hall, if_pos hall, ← everything_kept h]
    have hparse : parseFqan ("all".toList.splitOn ',') = some "A".toList := by decide
    have hget : getlines ',' "A".toList = ["A".toList] := by decide
    rw [hparse]
    simp only [Option.some.injEq, exists_eq_left', hget]
    exact eq_comm
  · rw [if_neg hall, if_neg hall, rewritten_join]
    by_cases hnil : w.fqans = []
    · unfold Wish.commands
      rw [hnil]
      refine iff_of_true ⟨[], by decide, rfl⟩ ?_
      intro f hf
      cases hf
    · have hne : w.commands.map rewritten ≠ [] := by
        unfold Wish.commands
        simpa using hnil
      have hpieces : ∀ s ∈ w.commands.map rewritten, ',' ∉ s := by
        intro s hs
        obtain ⟨p, hp, rfl⟩ := List.mem_map.mp hs
        exact notMem_of_rewritten (hcomma p hp) (by decide)
      have hsplit : (join ',' (w.commands.map rewritten)).splitOn ',' = w.commands.map rewritten :=
        List.splitOn_intercalate ',' hpieces hne
      have heach : (w.commands.map rewritten).mapM fqanParse = some w.commands ↔
          ∀ f ∈ w.fqans, f.Kept := by
        rw [mapM_some, List.forall₂_map_left_iff, List.forall₂_same, Wish.commands,
          List.forall_mem_map]
        exact forall₂_congr fun f hf => command_kept (h f hf)
      rw [hsplit, ← heach]
      unfold parseFqan
      constructor
      · rintro ⟨c, hc, hget⟩
        obtain ⟨l, hl, rfl⟩ := Option.map_eq_some_iff.mp hc
        have hall2 := mapM_some.mp hl
        have hlcomma : ∀ q ∈ l, ',' ∉ q := by
          intro q hq
          obtain ⟨s, hs, hparse⟩ := exists_of_forall₂ hall2 hq
          exact fqanParse_notMem (hpieces s hs) hparse
        have hlen : l.length = w.commands.length := by
          rw [← hall2.length_eq, List.length_map]
        rw [hl, getlines_join_inj hlcomma hcomma hlen hget]
      · intro hl
        rw [hl]
        exact ⟨_, rfl, rfl⟩

end Voms.L5
