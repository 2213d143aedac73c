/-
# Directories that are made

Making the directory of a path changes a file system by directories only, at places where nothing
was and that are on the way of the path (`Grown`).  A path that leads somewhere leads there still,
and one that fails for another reason than that something is not there fails still
(`Grown.foldlM_step`).  Where making a directory succeeds, the path leads to one
(`ensureDirectory_ok`), and where the path leads to one already, nothing changes
(`ensureDirectory_there`).
-/

import Mathlib.Data.List.TakeWhile
import PageBinding.Proofs.Files.Following

namespace PageBinding
namespace Files
namespace FileSystem

variable {fs gs hs : FileSystem} {p : Path} {here there origin place : Location} {name : String}
  {names : List String} {f : Failure} {e : Entry}

/-- A file system with more directories. -/
structure Grown (fs gs : FileSystem) : Prop where
  current : gs.current = fs.current
  at? : ∀ here, gs.at? here = fs.at? here ∨ fs.at? here = none ∧ gs.HasDirectory here

/-- A file system grows into itself. -/
theorem Grown.refl (fs : FileSystem) : Grown fs fs := ⟨rfl, fun _ => .inl rfl⟩

/-- Growing is transitive. -/
theorem Grown.trans (h : Grown fs gs) (h' : Grown gs hs) : Grown fs hs := by
  refine ⟨h'.current.trans h.current, fun here => ?_⟩
  rcases h.at? here with hsame | ⟨hnone, hdir⟩
  · rw [← hsame]
    exact h'.at? here
  · rcases h'.at? here with hsame' | ⟨hnone', -⟩
    · exact .inr ⟨hnone, hsame'.trans hdir⟩
    · rw [hdir] at hnone'
      cases hnone'

/-- What is there stays. -/
theorem Grown.at?_eq (h : Grown fs gs) (hhere : fs.at? here = some e) : gs.at? here = some e := by
  rcases h.at? here with hsame | ⟨hnone, -⟩
  · rw [hsame, hhere]
  · rw [hnone] at hhere
    cases hhere

/-- A directory put where nothing was is growth. -/
theorem grown_put (h : fs.at? here = none) : Grown fs (fs.put here .directory) := by
  have hroot : here ≠ [] := by
    rintro rfl
    cases h
  refine ⟨rfl, fun there => ?_⟩
  by_cases hthere : there = here
  · rw [hthere]
    exact .inr ⟨h, at?_put_self fs .directory hroot⟩
  · exact .inl (at?_put_of_ne fs .directory hthere)

/-- A step that found something leads to the same after growth. -/
theorem Grown.step (h : Grown fs gs) (hstep : fs.step here name ≠ .error .notFound) :
    gs.step here name = fs.step here name := by
  cases hhere : fs.at? here with
  | none =>
    refine absurd ?_ hstep
    rw [FileSystem.step, hhere]
  | some e => rw [FileSystem.step, FileSystem.step, hhere, h.at?_eq hhere]

/-- **Names lead where they led,** unless something was not there. -/
theorem Grown.foldlM_step (h : Grown fs gs)
    (hnames : names.foldlM fs.step here ≠ .error .notFound) :
    names.foldlM gs.step here = names.foldlM fs.step here := by
  induction names generalizing here with
  | nil => rfl
  | cons name names ih =>
    rw [List.foldlM_cons] at hnames
    have hstep : fs.step here name ≠ .error .notFound := by
      intro hstep
      rw [hstep] at hnames
      exact hnames rfl
    rw [List.foldlM_cons, List.foldlM_cons, h.step hstep]
    cases hnext : fs.step here name with
    | error f => rfl
    | ok next =>
      rw [hnext] at hnames
      exact ih hnames

/-- Names that lead to a place in the end led there, or something was not there. -/
theorem Grown.of_foldlM_step (h : Grown fs gs) (hto : names.foldlM gs.step here = .ok there) :
    names.foldlM fs.step here = .ok there ∨ names.foldlM fs.step here = .error .notFound := by
  by_cases hnames : names.foldlM fs.step here = .error .notFound
  · exact .inr hnames
  · exact .inl (h.foldlM_step hnames ▸ hto)

/-- A place that the first of some names lead to. -/
def Passes (fs : FileSystem) (origin : Location) (names : List String) (here : Location) : Prop :=
  ∃ front, front <+: names ∧ front.foldlM fs.step origin = .ok here

/-- A place passed on the way is still passed after growth. -/
theorem Grown.passes (h : Grown fs gs) (hpasses : fs.Passes origin names here) :
    gs.Passes origin names here := by
  obtain ⟨front, hfront, hto⟩ := hpasses
  exact ⟨front, hfront, by rw [h.foldlM_step (by rw [hto]; exact nofun), hto]⟩

/-- What can be followed after growth could be followed before, or nothing was there. -/
theorem Grown.follow (h : Grown fs gs) (hto : gs.follow p = .ok there) :
    fs.follow p = .ok there ∨ fs.follow p = .error .notFound := by
  have hstart : gs.start p = fs.start p := by rw [start, start, h.current]
  rw [FileSystem.follow, hstart] at hto
  exact h.of_foldlM_step hto

/-! ## One directory -/

/-- Names that stay lead from a directory to it. -/
theorem foldlM_step_stay (h : ∀ n ∈ names, isStay n = true) (hhere : fs.HasDirectory here) :
    names.foldlM fs.step here = .ok here := by
  induction names with
  | nil => rfl
  | cons name names ih =>
    obtain ⟨hname, hnames⟩ := List.forall_mem_cons.1 h
    rw [List.foldlM_cons, step_stay hname hhere]
    exact ih hnames

/-- The names of a path that is to be made, in their order: some names and then empty ones. -/
theorem reverse_eq (names : List String) : ∃ blanks, (∀ n ∈ blanks, n = "") ∧
    names.reverse = (names.dropWhile (· = "")).reverse ++ blanks := by
  refine ⟨(names.takeWhile (· = "")).reverse, fun n hn => ?_, ?_⟩
  · simpa using List.mem_takeWhile_imp (List.mem_reverse.1 hn)
  · rw [← List.reverse_append, List.takeWhile_append_dropWhile]

/-- Making a directory that succeeds adds only what is on the way, and then there is a directory at
the end of the way. -/
theorem makeDirectory_ok (h : fs.makeDirectory origin names = .ok gs) :
    Grown fs gs ∧ (∀ here, gs.at? here = fs.at? here ∨ gs.Passes origin names.reverse here) ∧
      ∃ here, names.reverse.foldlM gs.step origin = .ok here ∧ gs.HasDirectory here := by
  obtain ⟨blanks, hblanks, hnames⟩ := reverse_eq names
  rw [makeDirectory] at h
  cases hto : (names.dropWhile (· = "")).reverse.foldlM fs.step origin with
  | error f => rw [hto] at h; cases h
  | ok here =>
    rw [hto] at h
    cases hhere : fs.at? here with
    | some e => simp only [bind, Except.bind, hhere] at h; cases h
    | none =>
      simp only [bind, Except.bind, hhere] at h
      obtain rfl := Except.ok.inj h
      have hgrown := grown_put hhere
      have hmade : (fs.put here .directory).HasDirectory here := by
        refine at?_put_self fs .directory ?_
        rintro rfl
        cases hhere
      have hto' := (hgrown.foldlM_step (by rw [hto]; exact nofun)).trans hto
      refine ⟨hgrown, fun there => ?_, here, ?_, hmade⟩
      · by_cases hthere : there = here
        · exact .inr ⟨_, ⟨blanks, hnames.symm⟩, hthere ▸ hto'⟩
        · exact .inl (at?_put_of_ne fs .directory hthere)
      · rw [hnames, List.foldlM_append, hto']
        exact foldlM_step_stay (fun n hn => hblanks n hn ▸ rfl) hmade

/-- The check whether names lead to a directory says just that. -/
theorem leadsToDirectory_iff : fs.leadsToDirectory origin names = true ↔
    ∃ here, names.reverse.foldlM fs.step origin = .ok here ∧ fs.HasDirectory here := by
  rw [leadsToDirectory]
  cases names.reverse.foldlM fs.step origin with
  | error f => simp
  | ok here =>
    simp only [Except.ok.injEq, exists_eq_left', HasDirectory]
    split
    · rename_i hdir
      simp [hdir]
    · rename_i hnot
      exact ⟨nofun, fun hdir => (hnot hdir).elim⟩

/-- A directory that is there is not made. -/
theorem makeDirectory_there (hto : names.reverse.foldlM fs.step origin = .ok here)
    (hhere : fs.HasDirectory here) : fs.makeDirectory origin names = .error .exists := by
  obtain ⟨blanks, hblanks, hnames⟩ := reverse_eq names
  rw [hnames, List.foldlM_append] at hto
  rw [makeDirectory]
  cases hfirst : (names.dropWhile (· = "")).reverse.foldlM fs.step origin with
  | error f => rw [hfirst] at hto; cases hto
  | ok last =>
    rw [hfirst] at hto
    have hlast : fs.HasDirectory last := by
      cases blanks with
      | nil => exact Except.ok.inj hto ▸ hhere
      | cons blank blanks =>
        change (blank :: blanks).foldlM fs.step last = _ at hto
        rw [List.foldlM_cons] at hto
        cases hstep : fs.step last blank with
        | error f => rw [hstep] at hto; cases hto
        | ok next => exact hasDirectory_of_step hstep
    simp only [bind, Except.bind]
    rw [hlast]
    rfl

/-! ## Directories above -/

/-- A file system with more directories, each of them on the way of some names. -/
structure GrownAlong (fs gs : FileSystem) (origin : Location) (names : List String) : Prop where
  grown : Grown fs gs
  passes : ∀ here, gs.at? here = fs.at? here ∨ gs.Passes origin names here

/-- A file system grows into itself along any names. -/
theorem GrownAlong.refl (fs : FileSystem) (origin : Location) (names : List String) :
    GrownAlong fs fs origin names :=
  ⟨.refl fs, fun _ => .inl rfl⟩

/-- Growth along the first names followed by growth along all of them is growth along all of them.
-/
theorem GrownAlong.trans {front : List String} (h : GrownAlong fs gs origin front)
    (hfront : front <+: names) (h' : GrownAlong gs hs origin names) :
    GrownAlong fs hs origin names := by
  refine ⟨h.grown.trans h'.grown, fun here => ?_⟩
  rcases h.passes here with hsame | ⟨first, hfirst, hto⟩
  · rw [← hsame]
    exact h'.passes here
  · exact .inr (h'.grown.passes ⟨first, hfirst.trans hfront, hto⟩)

/-- Making the last directory of a path grows the file system along that path. -/
theorem ensureLast_grown (fs : FileSystem) (origin : Location) (names : List String) :
    GrownAlong fs (fs.ensureLast origin names).1 origin names.reverse := by
  rw [ensureLast]
  split
  · rename_i made hmade
    obtain ⟨hgrown, hpasses, -⟩ := makeDirectory_ok hmade
    exact ⟨hgrown, hpasses⟩
  · exact .refl fs origin _

/-- If making the last directory of a path succeeds, the path leads to a directory. -/
theorem ensureLast_ok (h : fs.ensureLast origin names = (gs, .ok ())) :
    ∃ here, names.reverse.foldlM gs.step origin = .ok here ∧ gs.HasDirectory here := by
  rw [ensureLast] at h
  split at h
  · rename_i made hmade
    obtain ⟨rfl, -⟩ := Prod.mk.inj h
    exact (makeDirectory_ok hmade).2.2
  · obtain ⟨rfl, hleads⟩ := Prod.mk.inj h
    split_ifs at hleads with hdir
    exact leadsToDirectory_iff.1 hdir

/-- The parent's names are the first of a path's names. -/
theorem above_isPrefix (names : List String) : (above names).reverse <+: names.reverse := by
  rw [List.reverse_prefix]
  exact ((List.dropWhile_suffix _).trans (List.drop_suffix 1 _)).trans (List.dropWhile_suffix _)

/-- Making all directories of a path grows the file system along that path, whether it succeeds or
not. -/
theorem makeDirectories_grown (fs : FileSystem) (origin : Location) (names : List String) :
    GrownAlong fs (fs.makeDirectories origin names).1 origin names.reverse := by
  fun_induction makeDirectories fs origin names with
  | case1 => exact .refl fs origin _
  | case2 names hne _ made f hmade ih =>
    rw [hmade] at ih
    exact ih.trans (above_isPrefix names) (.refl made origin _)
  | case3 names hne _ made hmade ih =>
    rw [hmade] at ih
    exact ih.trans (above_isPrefix names) (ensureLast_grown made origin names)
  | case4 => exact ensureLast_grown fs origin _

/-- If making all directories of a path succeeds, the path leads to a directory. -/
theorem makeDirectories_ok (hne : names ≠ [])
    (h : fs.makeDirectories origin names = (gs, .ok ())) :
    ∃ here, names.reverse.foldlM gs.step origin = .ok here ∧ gs.HasDirectory here := by
  rw [makeDirectories, dif_neg hne] at h
  split at h
  · split at h
    · cases h
    · exact ensureLast_ok h
  · exact ensureLast_ok h

/-! ## The directory of a path -/

/-- Every path has at least one name, the empty one if need be. -/
theorem names_ne_nil (p : Path) : p.names ≠ [] := by
  rw [Path.names, Ne, List.map_eq_nil_iff]
  exact Text.splitAt_ne_nil '/' _

/-- **Making the directory of a path** adds directories on its way, at places where nothing was. -/
theorem ensureDirectory_grown (fs : FileSystem) (p : Path) :
    GrownAlong fs (fs.ensureDirectory p).1 (fs.start p) p.names := by
  rw [ensureDirectory]
  split_ifs with hempty
  · exact .refl fs _ _
  · split
    · exact .refl fs _ _
    · have hgrown := makeDirectories_grown fs (fs.start p) p.names.reverse
      rwa [List.reverse_reverse] at hgrown

/-- The directory of a path that is refused cannot be made. -/
theorem refusal?_of_ensureDirectory (h : fs.ensureDirectory p = (gs, .ok ())) :
    p.text = "" ∨ refusal? p = none := by
  rw [ensureDirectory] at h
  split_ifs at h with hempty
  · exact .inl hempty
  · split at h
    · cases h
    · exact .inr (by assumption)

/-- Where the directory of a path can be made, the path leads to one then. -/
theorem ensureDirectory_ok (hcurrent : p.text = "" → fs.HasDirectory fs.current)
    (h : fs.ensureDirectory p = (gs, .ok ())) :
    ∃ here, gs.follow p = .ok here ∧ gs.HasDirectory here := by
  have hgrown := ensureDirectory_grown fs p
  rw [h] at hgrown
  have hstart : gs.start p = fs.start p := by rw [start, start, hgrown.grown.current]
  rw [follow, hstart]
  rw [ensureDirectory] at h
  split_ifs at h with hempty
  · obtain ⟨rfl, -⟩ := Prod.mk.inj h
    have hnames : p.names = [""] := by rw [Path.names, hempty]; rfl
    have hfrom : fs.start p = fs.current := by rw [start, Path.isAbsolute, hempty]; rfl
    rw [hnames, hfrom]
    exact ⟨_, foldlM_step_stay (List.forall_mem_singleton.2 rfl) (hcurrent hempty), hcurrent hempty⟩
  · split at h
    · cases h
    · have hmade := makeDirectories_ok (by simpa using names_ne_nil p) h
      rwa [List.reverse_reverse] at hmade

/-- **A directory that is there already** is not made. -/
theorem ensureDirectory_there (hrefusal : p.text = "" ∨ refusal? p = none)
    (hto : fs.follow p = .ok here) (hhere : fs.HasDirectory here) :
    fs.ensureDirectory p = (fs, .ok ()) := by
  rw [ensureDirectory]
  split_ifs with hempty
  · rfl
  · have hto' : p.names.reverse.reverse.foldlM fs.step (fs.start p) = .ok here := by
      rwa [List.reverse_reverse]
    have hthere := makeDirectory_there hto' hhere
    rw [hrefusal.resolve_left hempty]
    dsimp only
    rw [makeDirectories, dif_neg (by simpa using names_ne_nil p), hthere]
    dsimp only
    rw [ensureLast, hthere]
    dsimp only
    rw [leadsToDirectory_iff.2 ⟨here, hto', hhere⟩, if_pos rfl]

end FileSystem
end Files
end PageBinding
