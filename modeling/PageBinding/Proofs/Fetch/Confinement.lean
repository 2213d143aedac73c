/-
# Answers from below a directory

An address spells names (`Spells`), and the file that it leads to is the served directory's path
continued by those of them that lead somewhere.  An address with the name `..` leads to no file,
so no other one leads out of the directory, however it is spelled.

| address | names | file below `site` |
| --- | --- | --- |
| `/a//./b?x=..` | empty, `a`, empty, `.`, `b` | `site/a/b` |
| `/.../%2e%2e/` | empty, `...`, `%2e%2e`, empty | `site/.../%2e%2e` |
| `a/../b` | `a`, `..`, `b` | none |

What there is at that file decides what is answered (`Served.answers_iff`), and what there is or is
locked from the directory down along the names is all that has a part in it (`Served.answer_congr`).
Addresses that are spelled differently, but whose names lead the same way, have the same answer
(`Respelled`).
-/

import Mathlib.Data.List.TakeWhile
import Mathlib.Tactic.ByContra
import PageBinding.Fetch.Served
import PageBinding.Proofs.Files.Guarding
import PageBinding.Proofs.Text.Encoded
import PageBinding.Proofs.Tree.Views

namespace PageBinding
namespace Fetch

open Files (FileSystem Guarded Path Component Location Plain isStay leading mem_leading
  leading_append)

/-- What is left of an address behind the part that names a file: nothing, or what begins with a
question mark or a number sign. -/
def Ending (rest : List Char) : Prop := ∀ c ∈ rest.head?, c = '?' ∨ c = '#'

/-- The names that an address spells, with slashes between them. -/
structure Spells (url : String) (names : List String) : Prop where
  ne_nil : names ≠ []
  plain : ∀ name ∈ names, ∀ c ∈ name.toList, c ≠ '/' ∧ c ≠ '?' ∧ c ≠ '#'
  text : ∃ rest, url.toList = ['/'].intercalate (names.map String.toList) ++ rest ∧ Ending rest

/-- Two addresses differ only in their endings, in more slashes than one and in dots that stay where
they are met. -/
inductive Respelled : List Char → List Char → Prop
  | refl (s : List Char) : Respelled s s
  | symm {s t : List Char} : Respelled s t → Respelled t s
  | trans {s t u : List Char} : Respelled s t → Respelled t u → Respelled s u
  | ending {s q r : List Char} : Ending q → Ending r → Respelled (s ++ q) (s ++ r)
  | front {n s : List Char} : n = [] ∨ n = ['.'] → Respelled s (n ++ '/' :: s)
  | between {n s t : List Char} : n = [] ∨ n = ['.'] →
    Respelled (s ++ '/' :: t) (s ++ '/' :: (n ++ '/' :: t))
  | back {n s : List Char} : n = [] ∨ n = ['.'] → Respelled s (s ++ '/' :: n)

variable {url : String} {names : List String} {root p : Path} {s t q rest : List Char}

/-! ## Names -/

/-- The characters of the part of an address that names a file. -/
def isUnmarked (c : Char) : Bool := c ≠ '?' && c ≠ '#'

/-- A character is unmarked if it opens neither the query nor the fragment. -/
theorem isUnmarked_iff {c : Char} : isUnmarked c = true ↔ c ≠ '?' ∧ c ≠ '#' := by
  simp [isUnmarked]

/-- The names of an address by its text. -/
def namesOf (s : List Char) : List String :=
  (Text.splitAt '/' (s.takeWhile isUnmarked)).map String.ofList

/-- The names of the file of an address are those between the slashes, before any query or
fragment. -/
theorem names_fileOf (url : String) : (fileOf url).names = namesOf url.toList := by
  rw [Path.names, fileOf, String.toList_ofList]
  rfl

/-- An ending, being empty or marked at its front, has nothing to take before the mark. -/
theorem takeWhile_ending (h : Ending rest) : rest.takeWhile isUnmarked = [] := by
  cases rest with
  | nil => rfl
  | cons c r =>
    refine List.takeWhile_cons_of_neg ?_
    rw [isUnmarked_iff]
    rintro ⟨hquestion, hnumber⟩
    exact (h c rfl).elim hquestion hnumber

/-- What is dropped up to the first mark is an ending. -/
theorem ending_dropWhile (s : List Char) : Ending (s.dropWhile isUnmarked) := by
  intro c hc
  have hmarked := List.head?_dropWhile_not isUnmarked s
  rw [Option.mem_def.1 hc] at hmarked
  by_contra h
  rw [not_or, ← isUnmarked_iff] at h
  exact Bool.false_ne_true (hmarked.symm.trans h)

/-- **The names that an address spells** are those of its file. -/
theorem spells_iff : Spells url names ↔ (fileOf url).names = names := by
  rw [names_fileOf]
  constructor
  · rintro ⟨hne, hplain, rest, htext, hrest⟩
    have hpart : ∀ c ∈ ['/'].intercalate (names.map String.toList), isUnmarked c = true := by
      intro c hc
      rw [isUnmarked_iff]
      rcases Text.of_mem_intercalate hc with rfl | ⟨piece, hpiece, hc⟩
      · decide
      · obtain ⟨name, hname, rfl⟩ := List.mem_map.1 hpiece
        exact (hplain name hname c hc).2
    have hsplit : Text.splitAt '/' (['/'].intercalate (names.map String.toList)) =
        names.map String.toList := by
      refine Text.splitAt_intercalate (by simpa using hne) fun piece hpiece hslash => ?_
      obtain ⟨name, hname, rfl⟩ := List.mem_map.1 hpiece
      exact (hplain name hname '/' hslash).1 rfl
    rw [namesOf, htext, List.takeWhile_append_of_pos hpart, takeWhile_ending hrest, List.append_nil,
      hsplit, List.map_map]
    exact List.map_id'' (fun _ => String.ofList_toList) names
  · rintro rfl
    have hpieces : (namesOf url.toList).map String.toList =
        Text.splitAt '/' (url.toList.takeWhile isUnmarked) := by
      rw [namesOf, List.map_map]
      exact List.map_id'' (fun _ => String.toList_ofList) _
    refine ⟨?_, fun name hname c hc => ?_, url.toList.dropWhile isUnmarked, ?_, ending_dropWhile _⟩
    · rw [namesOf, Ne, List.map_eq_nil_iff]
      exact Text.splitAt_ne_nil '/' _
    · obtain ⟨hslash, hmem⟩ := Text.of_mem_splitAt (hpieces ▸ List.mem_map_of_mem hname)
      have hunmarked := List.mem_takeWhile_imp (hmem c hc)
      exact ⟨fun h => hslash (h ▸ hc), isUnmarked_iff.1 hunmarked⟩
    · rw [hpieces, Text.intercalate_splitAt, List.takeWhile_append_dropWhile]

/-! ## Files -/

/-- Dropping the stays drops no step up. -/
theorem up_mem_leading : ".." ∈ leading names ↔ ".." ∈ names := by
  rw [mem_leading]
  exact and_iff_left rfl

/-- The names of a file that an address leads to are plain. -/
theorem plain_leading (h : Spells url names) (hup : ".." ∉ names) :
    ∀ name ∈ leading names, Plain name := by
  intro name hname
  obtain ⟨hmem, hstay⟩ := mem_leading.1 hname
  exact ⟨fun hslash => (h.plain name hmem '/' hslash).1 rfl, hstay, fun heq => hup (heq ▸ hmem)⟩

/-- The file of an address is told by the names that lead somewhere. -/
theorem pathBelow?_eq (root : Path) (h : Spells url names) : pathBelow? root url =
    if ".." ∈ leading names then none
    else some ((leading names).foldl (fun p n => p.join ⟨n⟩) root) := by
  simp only [pathBelow?, spells_iff.1 h, up_mem_leading]
  rfl

/-- Of an address that spells names a path is made unless one of them is a step up, and it is the
root joined with the names that are no stays. -/
theorem pathBelow?_eq_some_iff (root : Path) (h : Spells url names) : pathBelow? root url = some p ↔
    ".." ∉ names ∧ p = (leading names).foldl (fun p n => p.join ⟨n⟩) root := by
  rw [pathBelow?_eq root h, Option.ite_none_left_eq_some, up_mem_leading, Option.some.injEq]
  exact and_congr_right fun _ => eq_comm

/-! ## Spellings -/

/-- The ending has no part in the names. -/
theorem namesOf_ending (h : Ending q) : namesOf (s ++ q) = namesOf s := by
  rw [namesOf, List.takeWhile_append, takeWhile_ending h, List.append_nil]
  split_ifs with hlength
  · rw [namesOf, (List.takeWhile_prefix isUnmarked).eq_of_length hlength]
  · rfl

/-- What follows a mark has no part in the names. -/
theorem namesOf_append_of_marked (h : ¬ ∀ c ∈ s, isUnmarked c = true) (t : List Char) :
    namesOf (s ++ t) = namesOf s := by
  rw [namesOf, List.takeWhile_append, if_neg, namesOf]
  intro hlength
  exact h (List.takeWhile_eq_self_iff.1 ((List.takeWhile_prefix isUnmarked).eq_of_length hlength))

/-- At a slash before the first mark the names of an address split. -/
theorem namesOf_slash (h : ∀ c ∈ s, isUnmarked c = true) (t : List Char) :
    namesOf (s ++ '/' :: t) = namesOf s ++ namesOf t := by
  rw [namesOf, List.takeWhile_append_of_pos h, List.takeWhile_cons_of_pos (by decide),
    Text.splitAt_append, List.map_append, namesOf, List.takeWhile_eq_self_iff.2 h]
  rfl

/-- A name that stays where it is met leads nowhere. -/
theorem stays_unmarked {n : List Char} (h : n = [] ∨ n = ['.']) :
    leading (namesOf n) = [] ∧ ∀ c ∈ n, isUnmarked c = true := by
  rcases h with rfl | rfl
  · exact ⟨by decide, nofun⟩
  · exact ⟨by decide, List.forall_mem_singleton.2 (by decide)⟩

/-- **Addresses that are spelled differently** have the same names that lead somewhere. -/
theorem leading_respelled (h : Respelled s t) : leading (namesOf s) = leading (namesOf t) := by
  induction h with
  | refl => rfl
  | symm _ ih => exact ih.symm
  | trans _ _ ih₁ ih₂ => exact ih₁.trans ih₂
  | ending hq hr => rw [namesOf_ending hq, namesOf_ending hr]
  | front hn =>
    have hstay := stays_unmarked hn
    rw [namesOf_slash hstay.2, leading_append, hstay.1, List.nil_append]
  | @between n s t hn =>
    have hstay := stays_unmarked hn
    by_cases hs : ∀ c ∈ s, isUnmarked c = true
    · rw [namesOf_slash hs, namesOf_slash hs, namesOf_slash hstay.2, leading_append, leading_append,
        leading_append, hstay.1, List.nil_append]
    · rw [namesOf_append_of_marked hs, namesOf_append_of_marked hs]
  | @back n s hn =>
    have hstay := (stays_unmarked hn).1
    by_cases hs : ∀ c ∈ s, isUnmarked c = true
    · rw [namesOf_slash hs, leading_append, hstay, List.append_nil]
    · rw [namesOf_append_of_marked hs]

/-! ## Answers -/

namespace Served

/-- **What is answered for a path,** by what there is where it leads. -/
inductive Answers (g : Guarded) (p : Path) : Except Failure String → Prop
  | directory {here : Location} : g.locate p = .ok here → g.files.at? here = some .directory →
    Answers g p (.error (.status 404))
  | nothing {here : Location} : g.locate p = .ok here → g.files.at? here = none →
    Answers g p (.error (.status 404))
  | locked {here : Location} {bytes : ByteArray} : g.locate p = .ok here →
    g.files.at? here = some (.file bytes) → g.locked here = true → Answers g p (.error (.status 403))
  | text {here : Location} {bytes : ByteArray} {text : String} : g.locate p = .ok here →
    g.files.at? here = some (.file bytes) → g.locked here = false →
    String.fromUTF8? bytes = some text → Answers g p (.ok text)
  | notText {here : Location} {bytes : ByteArray} : g.locate p = .ok here →
    g.files.at? here = some (.file bytes) → g.locked here = false →
    String.fromUTF8? bytes = none → Answers g p (.error (.unreadable p .notText))
  | lost : g.locate p = .error .notFound → Answers g p (.error (.status 404))
  | denied : g.locate p = .error .denied → Answers g p (.error (.status 403))
  | failed {why : Files.Failure} : g.locate p = .error why → why ≠ .notFound → why ≠ .denied →
    Answers g p (.error (.unreadable p why))

variable {s : Served} {result : Except Failure String}

/-- The answer where the path leads to a place. -/
theorem answer_of_locate {here : Location} (hpath : pathBelow? s.root url = some p)
    (hto : s.files.locate p = .ok here) : s.answer url =
      match s.files.files.at? here with
      | none => .error (.status 404)
      | some .directory => .error (.status 404)
      | some (.file bytes) =>
        if s.files.locked here then .error (.status 403)
        else match String.fromUTF8? bytes with
          | none => .error (.unreadable p .notText)
          | some text => .ok text := by
  have hdirectory := Guarded.isDirectory_iff hto
  rw [answer, hpath]
  dsimp only
  rw [Guarded.readText_of_locate hto]
  cases hat : s.files.files.at? here with
  | none => rw [if_neg fun h => nomatch hat.symm.trans (hdirectory.1 h)]; rfl
  | some e =>
    cases e with
    | directory => rw [if_pos (hdirectory.2 hat)]; rfl
    | file bytes =>
      rw [if_neg fun h => nomatch hat.symm.trans (hdirectory.1 h)]
      dsimp only [Files.Entry.text]
      cases s.files.locked here with
      | true => rfl
      | false => cases String.fromUTF8? bytes <;> rfl

/-- The answer where the path leads nowhere. -/
theorem answer_of_lost {why : Files.Failure} (hpath : pathBelow? s.root url = some p)
    (hto : s.files.locate p = .error why) : s.answer url =
      match why with
      | .notFound => .error (.status 404)
      | .denied => .error (.status 403)
      | why => .error (.unreadable p why) := by
  rw [answer, hpath]
  dsimp only
  rw [if_neg (by rw [Guarded.isDirectory_of_lost hto]; exact Bool.false_ne_true),
    Guarded.readText_of_lost hto]
  cases why <;> rfl

/-- **What there is where the path leads is what is answered.** -/
theorem answers_iff (hpath : pathBelow? s.root url = some p) :
    Answers s.files p result ↔ s.answer url = result := by
  constructor
  · rintro (⟨hto, hat⟩ | ⟨hto, hat⟩ | ⟨hto, hat, hlocked⟩ | ⟨hto, hat, hlocked, htext⟩ |
      ⟨hto, hat, hlocked, htext⟩ | hto | hto | ⟨hto, hlost, hdenied⟩)
    · rw [answer_of_locate hpath hto, hat]
    · rw [answer_of_locate hpath hto, hat]
    · rw [answer_of_locate hpath hto, hat]
      exact if_pos hlocked
    · rw [answer_of_locate hpath hto, hat]
      dsimp only
      rw [hlocked, htext]
      rfl
    · rw [answer_of_locate hpath hto, hat]
      dsimp only
      rw [hlocked, htext]
      rfl
    · rw [answer_of_lost hpath hto]
    · rw [answer_of_lost hpath hto]
    · rw [answer_of_lost hpath hto]
      split
      · exact absurd rfl hlost
      · exact absurd rfl hdenied
      · rfl
  · rintro rfl
    cases hto : s.files.locate p with
    | error why =>
      rw [answer_of_lost hpath hto]
      cases why with
      | notFound => exact .lost hto
      | denied => exact .denied hto
      | _ => exact .failed hto nofun nofun
    | ok here =>
      rw [answer_of_locate hpath hto]
      cases hat : s.files.files.at? here with
      | none => exact .nothing hto hat
      | some e =>
        cases e with
        | directory => exact .directory hto hat
        | file bytes =>
          dsimp only
          cases hlocked : s.files.locked here with
          | true => exact .locked hto hat hlocked
          | false =>
            cases htext : String.fromUTF8? bytes with
            | none => exact .notText hto hat hlocked htext
            | some text => exact .text hto hat hlocked htext

/-- What is answered depends on the file of the address alone. -/
theorem answer_congr {files : Guarded} (hpath : pathBelow? s.root url = some p)
    (hdirectory : files.isDirectory p = s.files.isDirectory p)
    (hread : files.readText p = s.files.readText p) :
    answer ⟨files, s.root⟩ url = s.answer url := by
  simp only [answer, hpath, hdirectory, hread]

/-- **An address cannot leave the served directory.**  It leads to no file just if one of its names
is `..`, and then it is refused whatever files there are.  Otherwise its file is the directory's
path and then its names, those left out that stay where they are met; so it is below the
directory also when its names are followed.  What there is decides what is answered, and nothing
else in the file system has a part in that.  An address that is spelled differently has the same
answer. -/
theorem answers_from_below (s : Served) :
    (∀ url names, Spells url names →
      (pathBelow? s.root url = none ↔ ".." ∈ names) ∧
      (".." ∈ names → ∀ files, answer ⟨files, s.root⟩ url = .error (.status 403)) ∧
      (".." ∉ names → ∃ p, pathBelow? s.root url = some p ∧
        p.components = s.root.components ++ (leading names).map .name ∧
        Component.settle? [] (p.components.drop s.root.components.length) = some (leading names) ∧
        (∀ there, s.files.locate p = .ok there →
          ∃ here, s.files.follow s.root = .ok here ∧ there = here ++ leading names) ∧
        (∀ result, Answers s.files p result ↔ s.answer url = result) ∧
        (∀ files : Guarded, files.isDirectory p = s.files.isDirectory p →
          files.readText p = s.files.readText p → answer ⟨files, s.root⟩ url = s.answer url) ∧
        ∀ files : Guarded, files.follow s.root = s.files.follow s.root →
          (∀ here, s.files.follow s.root = .ok here → ∀ front, front <+: leading names →
            files.files.at? (here ++ front) = s.files.files.at? (here ++ front) ∧
              files.locked (here ++ front) = s.files.locked (here ++ front)) →
          answer ⟨files, s.root⟩ url = s.answer url)) ∧
    (∀ url, ∃ names, Spells url names) ∧
    ∀ url other : String, Respelled url.toList other.toList →
      pathBelow? s.root url = pathBelow? s.root other ∧ s.answer url = s.answer other := by
  refine ⟨fun url names h => ⟨?_, fun hup files => ?_, fun hup => ?_⟩, fun url => ?_,
    fun url other h => ?_⟩
  · rw [pathBelow?_eq_none_iff, spells_iff.1 h]
  · have hnone : pathBelow? s.root url = none := by
      rwa [pathBelow?_eq_none_iff, spells_iff.1 h]
    rw [answer, hnone]
    rfl
  · have hplain := plain_leading h hup
    have hpath := (pathBelow?_eq_some_iff s.root h).2 ⟨hup, rfl⟩
    have hcomponents := Path.components_joins s.root hplain
    refine ⟨_, hpath, hcomponents, ?_, fun there hthere => ?_, fun result => answers_iff hpath,
      fun files => answer_congr hpath, fun files hfollow hat => ?_⟩
    · rw [hcomponents, List.drop_left, Component.settle?_names, List.nil_append]
    · exact Guarded.of_follow_joins hplain (Guarded.follow_of_locate hthere).2
    · obtain ⟨hdirectory, hread⟩ := Guarded.found_congr hplain hfollow hat
      exact answer_congr hpath hdirectory hread
  · exact ⟨_, spells_iff.2 rfl⟩
  · have hleading := leading_respelled h
    have hpath : pathBelow? s.root url = pathBelow? s.root other := by
      rw [pathBelow?_eq s.root (spells_iff.2 (names_fileOf url)),
        pathBelow?_eq s.root (spells_iff.2 (names_fileOf other)), hleading]
    exact ⟨hpath, by rw [answer, answer, hpath]⟩

/-- A file that is there, an address that leads back to it from outside, and a locked file. -/
theorem answers_from_below_of_file :
    let s : Served := ⟨⟨⟨[], [(["site"], .directory), (["site", "a"], .file "1".toUTF8),
      (["site", "b"], .file "2".toUTF8)]⟩, (· = ["site", "b"])⟩, ⟨"site"⟩⟩
    Spells "/./a?x=.." ["", ".", "a"] ∧ pathBelow? s.root "/./a?x=.." = some ⟨"site/a"⟩ ∧
      s.answer "/./a?x=.." = .ok "1" ∧ s.answer "/./a?x=.." = s.answer "a" ∧
      s.answer "/b" = .error (.status 403) ∧ s.answer "/../site/a" = .error (.status 403) := by
  intro s
  have hspells : Spells "/./a?x=.." ["", ".", "a"] := spells_iff.2 (by decide +kernel)
  have hlocked : Spells "/b" ["", "b"] := spells_iff.2 (by decide +kernel)
  have hup : Spells "/../site/a" ["", "..", "site", "a"] := spells_iff.2 (by decide +kernel)
  have h := answers_from_below s
  have hending : Ending "?x=..".toList := fun c hc => .inl (Option.mem_some_iff.1 hc).symm
  have hrespelled : Respelled "/./a?x=..".toList "a".toList := by
    have hdot : Respelled "/./a".toList "a".toList :=
      .trans (.symm (.front (.inl rfl))) (.symm (.front (.inr rfl)))
    exact .trans (.ending (s := "/./a".toList) (r := []) hending nofun) hdot
  have hpath : pathBelow? s.root "/./a?x=.." = some ⟨"site/a"⟩ := by decide +kernel
  have hpath' : pathBelow? s.root "/b" = some ⟨"site/b"⟩ := by decide +kernel
  obtain ⟨p, hp, -, -, -, htext, -⟩ := (h.1 _ _ hspells).2.2 (by decide)
  obtain rfl := Option.some.inj (hp.symm.trans hpath)
  obtain ⟨q, hq, -, -, -, hdenied, -⟩ := (h.1 _ _ hlocked).2.2 (by decide)
  obtain rfl := Option.some.inj (hq.symm.trans hpath')
  have hto : s.files.locate ⟨"site/a"⟩ = .ok ["site", "a"] := by decide +kernel
  have hat : s.files.files.at? ["site", "a"] = some (.file "1".toUTF8) := by
    simp [s, FileSystem.at?, List.lookup_cons]
  have hto' : s.files.locate ⟨"site/b"⟩ = .ok ["site", "b"] := by decide +kernel
  have hat' : s.files.files.at? ["site", "b"] = some (.file "2".toUTF8) := by
    simp [s, FileSystem.at?, List.lookup_cons]
  have hopen : s.files.locked ["site", "a"] = false := by simp [s]
  have hshut : s.files.locked ["site", "b"] = true := by simp [s]
  exact ⟨hspells, hpath, (htext _).1 (.text hto hat hopen (Text.fromUTF8?_toUTF8 "1")),
    (h.2.2 _ _ hrespelled).2, (hdenied _).1 (.locked hto' hat' hshut),
    (h.1 _ _ hup).2.1 (by decide) s.files⟩

end Served
end Fetch
end PageBinding
