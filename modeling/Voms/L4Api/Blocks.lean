import Voms.L4Api.Lsc

/-!
# The blocks of an LSC file

An LSC file is a list of blocks between marker lines; a block lists the
subject and the issuer of each certificate of a chain. The loop of
`check_from_file` (`src/api/ccapi/api_util.cc`) compares the certificates of
the AC with one block after the other. It takes the end of a block for no
end: a block that goes on behind the last certificate matches, and one that
stops before is read on into the marker, which costs the next block.

* `matchFile_heard`: the loop finds exactly whether one of the blocks it
  gets to see (`heard`) begins with the names of the certificates.
* `matchFile_exact`: when that is whether a block lists them.

The file is taken as `readdn` reads it: every line shorter than its buffer
and read to its end (`Legible`). Names are those of `X509_NAME_oneline`,
empty or beginning with a slash (`Printed`).
-/
namespace Voms.L4

open Voms.Core Voms.L1

/-! ## Blocks -/

/-- The line between two chains. -/
def marker : Str := "------ NEXT CHAIN ------".toList

/-- The names of a block, line by line. -/
abbrev Block := List Str

/-- The first block of a file, and the others. Blank lines say nothing. -/
def splitBlocks : List Str → Block × List Block
  | [] => ([], [])
  | line :: file =>
    if cStr line = marker then ([], (splitBlocks file).1 :: (splitBlocks file).2)
    else
      match lineDn (cStr line) with
      | .ok [] => splitBlocks file
      | .ok dn => (dn :: (splitBlocks file).1, (splitBlocks file).2)
      | _ => splitBlocks file

def blocks (file : List Str) : List Block := (splitBlocks file).1 :: (splitBlocks file).2

/-- Every line is one that `readdn` reads. -/
def Legible (file : List Str) : Prop :=
  ∀ line ∈ file, line.length < 998 ∧ ∃ dn, lineDn (cStr line) = .ok dn

/-- The names a certificate has in text. -/
structure Printed (cert : X509) : Prop where
  subject : ∀ c ∈ cert.subject.oneline.head?, c = '/'
  issuer : ∀ c ∈ cert.issuer.oneline.head?, c = '/'

/-- Two lines name the certificate and its issuer. -/
def named (cert : X509) (subject issuer : Str) : Bool :=
  dncompare cert.subject.oneline subject && dncompare cert.issuer.oneline issuer

/-- The block has subject and issuer of each certificate, and nothing else. -/
def lists : List X509 → Block → Bool
  | [], [] => true
  | cert :: certs, subject :: issuer :: b => named cert subject issuer && lists certs b
  | _, _ => false

/-- It has them first. -/
def begins : List X509 → Block → Bool
  | [], _ => true
  | cert :: certs, subject :: issuer :: b => named cert subject issuer && begins certs b
  | _ :: _, _ => false

/-- It ends before a name differs. -/
def cut : List X509 → Block → Bool
  | [], _ => false
  | cert :: certs, subject :: issuer :: b => named cert subject issuer && cut certs b
  | _ :: _, _ => true

theorem lists_iff : ∀ {certs : List X509} {b : Block},
    lists certs b = true ↔ begins certs b = true ∧ b.length = 2 * certs.length
  | [], [] => by simp [lists, begins]
  | [], _ :: _ => by simp [lists]
  | _ :: _, [] => by simp [lists, begins]
  | _ :: _, [_] => by simp [lists, begins]
  | cert :: certs, subject :: issuer :: b => by
    simp only [lists, begins, Bool.and_eq_true, lists_iff (b := b), List.length_cons, and_assoc]
    refine and_congr_right fun _ => and_congr_right fun _ => ?_
    omega

/-- How many blocks go by behind one that is cut: if it ends with an issuer
and an empty one follows, two markers are taken for names. -/
def skips (b : Block) (rest : List Block) : Nat :=
  if b.length % 2 = 0 ∧ rest.head? = some [] then 2 else 1

/-- The blocks the loop begins to compare, `skip` blocks on. -/
def heard (certs : List X509) : Nat → List Block → List Block
  | _, [] => []
  | skip + 1, _ :: rest => heard certs skip rest
  | 0, b :: rest => b :: heard certs (if cut certs b then skips b rest else 0) rest

theorem heard_drop (certs : List X509) : ∀ (skip : Nat) (bs : List Block),
    heard certs skip bs = heard certs 0 (bs.drop skip)
  | 0, _ => by rw [List.drop_zero]
  | _ + 1, [] => rfl
  | skip + 1, _ :: rest => by
    rw [List.drop_succ_cons]
    exact heard_drop certs skip rest

/-! ## The marker is no name -/

/-- A slash at the front is kept, whatever is replaced behind it. -/
theorem changeLoop_head {src dst : Str} (hdst : dst.head? = some '/') :
    ∀ (n : Nat) {copy : Str} (pos : Option Nat), (∀ c ∈ copy.head?, c = '/') →
      ∀ c ∈ (L1.changeLoop src dst n copy pos).head?, c = '/'
  | 0, _, _, h => h
  | _ + 1, _, none, h => h
  | n + 1, copy, some pos, h => by
    unfold L1.changeLoop
    refine changeLoop_head hdst n _ fun c hc => ?_
    rw [List.append_assoc, List.head?_append, List.head?_take] at hc
    cases hpos : (if pos = 0 then none else copy.head?) with
    | none =>
      rw [hpos, Option.none_or, List.head?_append, hdst] at hc
      simpa using hc.symm
    | some c' =>
      rw [hpos] at hc
      cases hc
      split at hpos
      · cases hpos
      · exact h c hpos

theorem normalize_head {str : Str} (h : ∀ c ∈ str.head?, c = '/') :
    ∀ c ∈ (normalize str).head?, c = '/' :=
  changeLoop_head rfl _ _ (changeLoop_head rfl _ _ (changeLoop_head rfl _ _ h))

theorem dncompare_marker {name : Str} (h : ∀ c ∈ name.head?, c = '/') :
    dncompare name marker = false := by
  have hdash : ∀ {s : Str}, (∀ c ∈ s.head?, c = '/') → (s == marker) = false := by
    intro s hs
    cases hmarker : s == marker with
    | false => rfl
    | true =>
      rw [eq_of_beq hmarker] at hs
      exact absurd (hs '-' rfl) (by decide)
  have hnormal : normalize marker = marker := by rfl
  unfold dncompare
  rw [hnormal, hdash h, hdash (normalize_head h)]
  rfl

/-! ## Reading by blocks -/

theorem Legible.tail {line : Str} {file : List Str} (h : Legible (line :: file)) :
    Legible file := fun l hl => h l (List.mem_cons_of_mem _ hl)

/-- What is left of the file has these blocks, or nothing is left. -/
def Remaining (r : Option (List Str)) (bs : List Block) : Prop :=
  (r = none ∧ bs = []) ∨ ∃ file, r = some file ∧ Legible file ∧ blocks file = bs

theorem nextChain_cons {line : Str} {file : List Str} :
    nextChain (line :: file) =
      if line.length < 999 then if cStr line = marker then some file else nextChain file
      else none := rfl

/-- To behind the next marker is to the next block. -/
theorem nextChain_blocks : ∀ {file : List Str}, Legible file →
    Remaining (nextChain file) (splitBlocks file).2
  | [], _ => Or.inl ⟨rfl, rfl⟩
  | line :: file, h => by
    obtain ⟨hlength, dn, hdn⟩ := h line List.mem_cons_self
    unfold splitBlocks
    rw [nextChain_cons, if_pos (by omega)]
    by_cases hmarker : cStr line = marker
    · rw [if_pos hmarker, if_pos hmarker]
      exact Or.inr ⟨file, rfl, h.tail, rfl⟩
    · have hrest := nextChain_blocks h.tail
      rw [if_neg hmarker, if_neg hmarker, hdn]
      cases dn <;> exact hrest

/-- The first line of a block that is not at its end. -/
theorem readdn_line : ∀ {file : List Str} {dn : Str} {b : Block} {rest : List Block},
    Legible file → splitBlocks file = (dn :: b, rest) →
      ∃ file', readdn file = .ok (some (dn, file')) ∧ Legible file' ∧ splitBlocks file' = (b, rest)
  | [], _, _, _, _, hsplit => by cases hsplit
  | line :: file, dn, b, rest, h, hsplit => by
    obtain ⟨hlength, text, htext⟩ := h line List.mem_cons_self
    unfold splitBlocks at hsplit
    unfold readdn
    rw [if_pos hlength, htext, Res.ok_bind]
    split at hsplit
    · cases hsplit
    · rw [htext] at hsplit
      cases text with
      | nil => exact readdn_line h.tail hsplit
      | cons c text =>
        cases hsplit
        exact ⟨file, rfl, h.tail, rfl⟩

/-- At the end of a block a marker is read, or the stream fails. -/
theorem readdn_end : ∀ {file : List Str} {rest : List Block},
    Legible file → splitBlocks file = ([], rest) →
      (readdn file = .ok none ∧ rest = []) ∨
        ∃ file', readdn file = .ok (some (marker, file')) ∧ Legible file' ∧ blocks file' = rest
  | [], rest, _, hsplit => by
    cases hsplit
    exact Or.inl ⟨rfl, rfl⟩
  | line :: file, rest, h, hsplit => by
    obtain ⟨hlength, text, htext⟩ := h line List.mem_cons_self
    unfold splitBlocks at hsplit
    unfold readdn
    rw [if_pos hlength]
    split at hsplit
    · next hmarker =>
      cases hsplit
      have hdn : lineDn marker = .ok marker := by rfl
      right
      rw [hmarker, hdn]
      exact ⟨file, rfl, h.tail, rfl⟩
    · rw [htext] at hsplit ⊢
      cases text with
      | nil => exact readdn_end h.tail hsplit
      | cons c text => cases hsplit

/-! ## One turn -/

/-- A mismatch: with another block, or at the end. -/
def ChainMatch.ofNext : Option (List Str) → ChainMatch
  | none => .failed
  | some file => .next file

theorem matchChain_cons {cert : X509} {certs : List X509} {file file' file'' : List Str}
    {subject issuer : Str} (hsubject : readdn file = .ok (some (subject, file')))
    (hissuer : readdn file' = .ok (some (issuer, file''))) :
    matchChain (cert :: certs) file =
      if named cert subject issuer then matchChain certs file''
      else .ok (.ofNext (nextChain file'')) := by
  conv_lhs => unfold matchChain
  rw [hsubject, Res.ok_bind]
  simp only []
  rw [hissuer, Res.ok_bind]
  simp only []
  change (if named cert subject issuer then _ else _) = _
  split
  · rfl
  · cases nextChain file'' <;> rfl

theorem matchChain_end {cert : X509} {certs : List X509} {file : List Str}
    (h : readdn file = .ok none ∨
      ∃ subject file', readdn file = .ok (some (subject, file')) ∧ readdn file' = .ok none) :
    matchChain (cert :: certs) file = .ok (.ofNext none) := by
  unfold matchChain
  rcases h with h | ⟨subject, file', hsubject, hissuer⟩
  · rw [h]
    rfl
  · rw [hsubject, Res.ok_bind]
    simp only []
    rw [hissuer]
    rfl

/-- What is left of the blocks behind one that does not match. -/
def behind (certs : List X509) (b : Block) (rest : List Block) : List Block :=
  rest.drop (if cut certs b then skips b rest else 0)

/-- **One turn of the loop**: it succeeds on a block that begins right, and
goes on behind any other. -/
theorem matchChain_blocks : ∀ {certs : List X509} {file : List Str} {b : Block}
    {rest : List Block}, (∀ cert ∈ certs, Printed cert) → Legible file →
      splitBlocks file = (b, rest) →
      (begins certs b = true ∧ matchChain certs file = .ok .success) ∨
        begins certs b = false ∧ ∃ r, matchChain certs file = .ok (.ofNext r) ∧
          Remaining r (behind certs b rest)
  | [], _, _, _, _, _, _ => Or.inl ⟨rfl, rfl⟩
  | cert :: certs, file, subject :: issuer :: b, rest, hprinted, h, hsplit => by
    obtain ⟨file', hsubject, h', hsplit'⟩ := readdn_line h hsplit
    obtain ⟨file'', hissuer, h'', hsplit''⟩ := readdn_line h' hsplit'
    rw [matchChain_cons hsubject hissuer]
    unfold begins behind cut
    cases hnamed : named cert subject issuer with
    | false =>
      have hnext := nextChain_blocks h''
      rw [hsplit''] at hnext
      exact Or.inr ⟨rfl, _, rfl, hnext⟩
    | true =>
      have hskips : skips (subject :: issuer :: b) rest = skips b rest := by
        unfold skips
        rw [List.length_cons, List.length_cons, Nat.add_assoc, Nat.add_mod_right]
      rw [hskips]
      exact matchChain_blocks (fun c hc => hprinted c (List.mem_cons_of_mem _ hc)) h'' hsplit''
  | cert :: certs, file, [subject], rest, hprinted, h, hsplit => by
    right
    refine ⟨rfl, ?_⟩
    obtain ⟨file', hsubject, h', hsplit'⟩ := readdn_line h hsplit
    rcases readdn_end h' hsplit' with ⟨hend, rfl⟩ | ⟨file'', hmarker, h'', rfl⟩
    · exact ⟨none, matchChain_end (Or.inr ⟨_, _, hsubject, hend⟩), Or.inl ⟨rfl, rfl⟩⟩
    · have hnamed : named cert subject marker = false := by
        unfold named
        rw [dncompare_marker (hprinted cert List.mem_cons_self).issuer, Bool.and_false]
      rw [matchChain_cons hsubject hmarker, hnamed]
      exact ⟨_, rfl, nextChain_blocks h''⟩
  | cert :: certs, file, [], rest, hprinted, h, hsplit => by
    right
    refine ⟨rfl, ?_⟩
    have hnamed (issuer : Str) : named cert marker issuer = false := by
      unfold named
      rw [dncompare_marker (hprinted cert List.mem_cons_self).subject, Bool.false_and]
    rcases readdn_end h hsplit with ⟨hend, rfl⟩ | ⟨file', hmarker, h', rfl⟩
    · exact ⟨none, matchChain_end (Or.inl hend), Or.inl ⟨rfl, rfl⟩⟩
    · obtain ⟨b', rest', hsplit'⟩ : ∃ b' rest', splitBlocks file' = (b', rest') := ⟨_, _, rfl⟩
      have hblocks : blocks file' = b' :: rest' := by unfold blocks; rw [hsplit']
      rw [hblocks]
      cases b' with
      | cons issuer b' =>
        obtain ⟨file'', hissuer, h'', hsplit''⟩ := readdn_line h' hsplit'
        have hnext := nextChain_blocks h''
        rw [hsplit''] at hnext
        rw [matchChain_cons hmarker hissuer, hnamed]
        exact ⟨_, rfl, hnext⟩
      | nil =>
        rcases readdn_end h' hsplit' with ⟨hend, rfl⟩ | ⟨file'', hissuer, h'', rfl⟩
        · exact ⟨none, matchChain_end (Or.inr ⟨_, _, hmarker, hend⟩), Or.inl ⟨rfl, rfl⟩⟩
        · rw [matchChain_cons hmarker hissuer, hnamed]
          exact ⟨_, rfl, nextChain_blocks h''⟩

/-! ## The loop -/

theorem matchFileLoop_heard {certs : List X509} (hprinted : ∀ cert ∈ certs, Printed cert) :
    ∀ {turns : Nat} {file : List Str}, file.length < turns → Legible file →
      matchFileLoop certs turns file = .ok ((heard certs 0 (blocks file)).any (begins certs))
  | 0, _, hturns, _ => absurd hturns (Nat.not_lt_zero _)
  | turns + 1, file, hturns, h => by
    obtain ⟨b, rest, hsplit⟩ : ∃ b rest, splitBlocks file = (b, rest) := ⟨_, _, rfl⟩
    have hblocks : blocks file = b :: rest := by unfold blocks; rw [hsplit]
    rw [hblocks, heard, List.any_cons, heard_drop]
    unfold matchFileLoop
    rcases matchChain_blocks hprinted h hsplit with ⟨hbegins, hmatch⟩ | ⟨hbegins, r, hmatch, hr⟩
    · rw [hmatch, hbegins]
      rfl
    · rw [hmatch, hbegins, Bool.false_or]
      change Remaining r (rest.drop _) at hr
      rcases hr with ⟨rfl, hrest⟩ | ⟨file', rfl, h', hrest⟩
      · rw [hrest]
        rfl
      · have hshorter := matchChain_shorter hmatch
        rw [← hrest]
        exact matchFileLoop_heard hprinted (by omega) h'

/-- **What the loop finds**: a block, among those it gets to see, that begins
with the names of the certificates. -/
theorem matchFile_heard {certs : List X509} {file : List Str}
    (hprinted : ∀ cert ∈ certs, Printed cert) (h : Legible file) :
    matchFile certs file = .ok ((heard certs 0 (blocks file)).any (begins certs)) :=
  matchFileLoop_heard hprinted (Nat.lt_succ_self _) h

/-! ## What it should find -/

theorem mem_of_mem_heard {certs : List X509} {b : Block} : ∀ {skip : Nat} {bs : List Block},
    b ∈ heard certs skip bs → b ∈ bs
  | _, [], h => by cases h
  | _ + 1, _ :: _, h => List.mem_cons_of_mem _ (mem_of_mem_heard h)
  | 0, _ :: _, h => by
    rcases List.mem_cons.mp h with rfl | h
    · exact List.mem_cons_self
    · exact List.mem_cons_of_mem _ (mem_of_mem_heard h)

/-- Matching says whether a block lists the certificates. -/
def MatchesBlocks (certs : List X509) (file : List Str) : Prop :=
  ∃ found, matchFile certs file = .ok found ∧
    (found = true ↔ ∃ b ∈ blocks file, lists certs b = true)

/-- What the file has to be for that. -/
structure Separate (certs : List X509) (bs : List Block) : Prop where
  /-- No longer block is got to that begins right, unless some block lists them. -/
  longer : ∀ b ∈ heard certs 0 bs, begins certs b = true → 2 * certs.length < b.length →
    ∃ b ∈ bs, lists certs b = true
  /-- Not every block that begins right stands where the end of a shorter one
  was taken for names. -/
  shorter : (∃ b ∈ bs, lists certs b = true) → ∃ b ∈ heard certs 0 bs, begins certs b = true

theorem begins_length : ∀ {certs : List X509} {b : Block}, begins certs b = true →
    2 * certs.length ≤ b.length
  | [], _, _ => Nat.zero_le _
  | _ :: _, [], h => by cases h
  | _ :: _, [_], h => by cases h
  | _ :: certs, _ :: _ :: b, h => by
    have : 2 * certs.length ≤ b.length := begins_length (Bool.and_eq_true _ _ ▸ h).2
    simp only [List.length_cons]
    omega

/-- **When the loop matches a stack of certificates against the blocks**, for
every legible file: exactly if no longer block passes for one that lists
them, and not every one that does is missed behind a shorter one. -/
theorem matchFile_exact {certs : List X509} {content : Str}
    (hprinted : ∀ cert ∈ certs, Printed cert) (h : Legible (fileLines content)) :
    MatchesBlocks certs (fileLines content) ↔ Separate certs (blocks (fileLines content)) := by
  have hmatch := matchFile_heard hprinted h
  constructor
  · rintro ⟨found, hfound, hiff⟩
    cases hmatch.symm.trans hfound
    rw [List.any_eq_true] at hiff
    exact ⟨fun b hb hbegins _ => hiff.mp ⟨b, hb, hbegins⟩, hiff.mpr⟩
  · intro hseparate
    refine ⟨_, hmatch, ?_⟩
    rw [List.any_eq_true]
    refine ⟨fun ⟨b, hb, hbegins⟩ => ?_, hseparate.shorter⟩
    rcases Nat.lt_or_eq_of_le (begins_length hbegins) with hlonger | hlength
    · exact hseparate.longer b hb hbegins hlonger
    · exact ⟨b, mem_of_mem_heard hb, lists_iff.mpr ⟨hbegins, hlength.symm⟩⟩

namespace Sample

export Voms.L1.Sample (server root)

/-- A block for another server, and one for `server`. -/
def twoBlocks : Str :=
  "/CN=other\n/CN=ca\n------ NEXT CHAIN ------\n/CN=voms\n/CN=ca\n".toList

/-- A block for `server` and the CA above it. -/
def longBlock : Str := "/CN=voms\n/CN=ca\n/CN=ca\n/CN=ca\n".toList

/-- The same behind a block for `server` alone. -/
def shortBlock : Str := "/CN=voms\n/CN=ca\n------ NEXT CHAIN ------\n".toList ++ longBlock

theorem printed : ∀ cert ∈ [server, root], Printed cert := by
  intro cert hcert
  have hslash {name : X509Name} (h : name.oneline.head? = some '/') :
      ∀ c ∈ name.oneline.head?, c = '/' := fun c hc => Option.some.inj (hc.symm.trans h)
  rcases List.mem_pair.mp hcert with rfl | rfl
  · exact ⟨hslash rfl, hslash rfl⟩
  · exact ⟨hslash rfl, hslash rfl⟩

end Sample

/-- `matchFile_exact` where the second block lists the certificate. -/
theorem matchFile_exact_twoBlocks : MatchesBlocks [Sample.server] (fileLines Sample.twoBlocks) := by
  have hprinted : ∀ cert ∈ [Sample.server], Printed cert := fun cert hcert =>
    Sample.printed cert (List.mem_of_mem_take (i := 1) hcert)
  have hlegible : Legible (fileLines Sample.twoBlocks) := fun line hline => by
    have hread : ∀ line ∈ fileLines Sample.twoBlocks,
      line.length < 998 ∧ (lineDn (cStr line)).isOk = true := by decide
    exact ⟨(hread line hline).1, Res.isOk_iff.mp (hread line hline).2⟩
  refine (matchFile_exact hprinted hlegible).mpr ⟨?_, fun _ => by decide⟩
  intro b hb hbegins hlonger
  have hshort : ∀ b ∈ heard [Sample.server] 0 (blocks (fileLines Sample.twoBlocks)),
    b.length = 2 := by decide
  rw [hshort b hb] at hlonger
  exact absurd hlonger (by decide)

/-- A longer block passes for the stack, and one behind a shorter block is
not found. -/
theorem matchFile_misses :
    ¬ MatchesBlocks [Sample.server] (fileLines Sample.longBlock) ∧
      ¬ MatchesBlocks [Sample.server, Sample.root] (fileLines Sample.shortBlock) := by
  constructor
  · rintro ⟨found, hfound, hiff⟩
    have htrue : matchFile [Sample.server] (fileLines Sample.longBlock) = .ok true := by rfl
    cases htrue.symm.trans hfound
    exact absurd (hiff.mp rfl) (by decide)
  · rintro ⟨found, hfound, hiff⟩
    have hfalse : matchFile [Sample.server, Sample.root] (fileLines Sample.shortBlock) =
      .ok false := by rfl
    cases hfalse.symm.trans hfound
    exact absurd (hiff.mpr (by decide)) (by decide)

end Voms.L4
