/-
# Directories that can be made

The directory of a path can be made if its names do not lead upwards and none of them is too long,
the path starts at a directory and no file is on its way (`ensureDirectory_clear`).  A dot at the
end of the path stays where a directory is, so it does not make one.
-/

import PageBinding.Proofs.Files.Making

namespace PageBinding
namespace Files
namespace FileSystem

variable {fs gs : FileSystem} {p : Path} {here there origin : Location} {name : String}
  {names : List String}

/-- From a place on, names lead downwards, none of them too long, and no file is on their way. -/
structure Clear (fs : FileSystem) (here : Location) (names : List String) : Prop where
  start : fs.HasDirectory here
  up : ".." ∉ names
  size : ∀ name ∈ names, name.utf8ByteSize ≤ maxName
  free : ∀ front, front <+: leading names → ∀ bytes, fs.at? (here ++ front) ≠ some (.file bytes)

/-- The first of names that are clear are clear. -/
theorem Clear.front {front back : List String} (h : fs.Clear here (front ++ back)) :
    fs.Clear here front where
  start := h.start
  up hup := h.up (List.mem_append_left _ hup)
  size name hname := h.size name (List.mem_append_left _ hname)
  free first hfirst :=
    h.free first (hfirst.trans (leading_append front back ▸ List.prefix_append ..))

/-- More directories do not stand in the way. -/
theorem Clear.grown (h : fs.Clear here names) (hgrown : Grown fs gs) : gs.Clear here names where
  start := hgrown.at?_eq h.start
  up := h.up
  size := h.size
  free front hfront bytes hfile := by
    rcases hgrown.at? (here ++ front) with hsame | ⟨-, hdir⟩
    · exact h.free front hfront bytes (hsame.symm.trans hfile)
    · rw [hdir] at hfile
      cases hfile

/-- **Names that are clear** lead to what they spell, or to a place where nothing is. -/
theorem Clear.foldlM_step (h : fs.Clear here names) :
    names.foldlM fs.step here = .ok (here ++ leading names) ∨
      names.foldlM fs.step here = .error .notFound := by
  induction names generalizing here with
  | nil => exact .inl (congrArg Except.ok (List.append_nil here).symm)
  | cons name names ih =>
    obtain ⟨hname, hnames⟩ := not_or.1 (mt List.mem_cons.2 h.up)
    obtain ⟨hsize, hsizes⟩ := List.forall_mem_cons.1 h.size
    cases hstay : isStay name with
    | true =>
      have hleading := leading_cons_of_stay hstay names
      rw [List.foldlM_cons, step_stay hstay h.start, hleading]
      exact ih ⟨h.start, hnames, hsizes, hleading ▸ h.free⟩
    | false =>
      have hleading := leading_cons_of_not_stay hstay names
      have hstep : fs.step here name = .ok (here ++ [name]) := by
        rw [step_of_hasDirectory hstay (Ne.symm hname) h.start, if_neg (by omega)]
      have hfree : ∀ front, front <+: leading names → ∀ bytes,
          fs.at? (here ++ [name] ++ front) ≠ some (.file bytes) := by
        intro front hfront
        rw [List.append_assoc]
        exact h.free _ (hleading ▸ (List.prefix_append_right_inj [name]).2 hfront)
      rw [List.foldlM_cons, hstep, hleading, List.append_cons here name (leading names)]
      change names.foldlM fs.step (here ++ [name]) = _ ∨ names.foldlM fs.step (here ++ [name]) = _
      cases hnext : fs.at? (here ++ [name]) with
      | none =>
        cases names with
        | nil => exact .inl (congrArg Except.ok (List.append_nil _).symm)
        | cons next names =>
          refine .inr ?_
          rw [List.foldlM_cons, step, hnext]
          rfl
      | some e =>
        cases e with
        | file bytes =>
          exact absurd hnext (h.free [name] (hleading ▸ List.prefix_append [name] _) bytes)
        | directory => exact ih ⟨hnext, hnames, hsizes, hfree⟩

/-! ## The last of the names -/

/-- Names, last one first, that do not end in a dot. -/
def Dotless (names : List String) : Prop := (names.dropWhile (· = "")).head? ≠ some "."

instance : DecidablePred Dotless := fun _ => inferInstanceAs (Decidable (_ ≠ _))

/-- The names of a dotless path are empty but for the leading ones, or begin with a proper name as
soon as the empty ones are dropped. -/
theorem Dotless.cases (h : Dotless names) : names.dropWhile (· = "") = [] ∨
    ∃ name front, isStay name = false ∧ names.dropWhile (· = "") = name :: front ∧
      names.dropWhile isStay = name :: front := by
  rw [Dotless] at h
  cases hdrop : names.dropWhile (· = "") with
  | nil => exact .inl rfl
  | cons name front =>
    rw [hdrop, List.head?_cons, Ne, Option.some.injEq] at h
    have hblank : name ≠ "" := by
      have hhead := List.head?_dropWhile_not (fun n : String => decide (n = "")) names
      rw [hdrop] at hhead
      simpa using hhead
    have hstay : isStay name = false := by simp [isStay, h, hblank]
    have hblanks : ∀ n ∈ names.takeWhile (· = ""), isStay n = true := by
      intro n hn
      have hblank : n = "" := by simpa using List.mem_takeWhile_imp hn
      rw [hblank]
      rfl
    refine .inr ⟨name, front, hstay, rfl, ?_⟩
    rw [← List.takeWhile_append_dropWhile (p := (· = "")) (l := names), hdrop,
      List.dropWhile_append_of_pos hblanks, List.dropWhile_cons_of_neg (by simp [hstay])]

/-- The parent of any path is dotless, since it is cut behind a name. -/
theorem dotless_above (names : List String) : Dotless (above names) := by
  cases habove : above names with
  | nil => exact nofun
  | cons name front =>
    have hstay : isStay name = false := by
      have hhead := List.head?_dropWhile_not isStay ((names.dropWhile isStay).drop 1)
      rw [← above, habove] at hhead
      simpa using hhead
    rw [isStay, Bool.or_eq_false_iff, decide_eq_false_iff_not] at hstay
    rw [Dotless, List.dropWhile_cons_of_neg (by simpa using hstay.1), List.head?_cons]
    simpa using hstay.2

/-- Names lead to the place above, then to their last. -/
theorem reverse_eq_above {front : List String} (h : names.dropWhile isStay = name :: front) :
    ∃ stays, (∀ n ∈ stays, isStay n = true) ∧
      (name :: front).reverse = (above names).reverse ++ stays ++ [name] := by
  refine ⟨(front.takeWhile isStay).reverse, fun n hn => ?_, ?_⟩
  · exact List.mem_takeWhile_imp (List.mem_reverse.1 hn)
  · rw [above, h, List.drop_succ_cons, List.drop_zero, ← List.reverse_append,
      List.takeWhile_append_dropWhile, List.reverse_cons]

/-- The last of some names is made, or it is there. -/
theorem ensureLast_clear (h : fs.Clear origin names.reverse)
    (hto : (names.dropWhile (· = "")).reverse.foldlM fs.step origin ≠ .error .notFound) :
    ∃ gs, fs.ensureLast origin names = (gs, .ok ()) := by
  obtain ⟨blanks, hblanks, hnames⟩ := reverse_eq names
  have hclear := (hnames ▸ h).front
  have hto := hclear.foldlM_step.resolve_right hto
  rw [ensureLast, makeDirectory, hto]
  simp only [bind, Except.bind]
  cases hhere : fs.at? (origin ++ leading (names.dropWhile (· = "")).reverse) with
  | none => exact ⟨_, rfl⟩
  | some e =>
    cases e with
    | file bytes => exact absurd hhere (hclear.free _ (List.prefix_refl _) bytes)
    | directory =>
      have hleads : fs.leadsToDirectory origin names = true := by
        refine leadsToDirectory_iff.2 ⟨_, ?_, hhere⟩
        rw [hnames, List.foldlM_append, hto]
        exact foldlM_step_stay (fun n hn => hblanks n hn ▸ rfl) hhere
      exact ⟨fs, by rw [hleads]; rfl⟩

/-- Where something was not there on the way, there is a name to be made. -/
theorem dropWhile_ne_nil (h : fs.Clear origin names.reverse)
    (hmade : fs.makeDirectory origin names = .error .notFound) : names.dropWhile (· = "") ≠ [] := by
  intro hnil
  rw [makeDirectory, hnil] at hmade
  simp only [List.reverse_nil, List.foldlM_nil, pure, Except.pure, bind, Except.bind] at hmade
  rw [h.start] at hmade
  cases hmade

/-- **The directory that names lead to can be made.** -/
theorem makeDirectories_clear (h : fs.Clear origin names.reverse) (hdot : Dotless names) :
    ∃ gs, fs.makeDirectories origin names = (gs, .ok ()) := by
  fun_induction makeDirectories fs origin names with
  | case1 => exact ⟨_, rfl⟩
  | case2 names hne hmade made f habove ih =>
    obtain ⟨back, hback⟩ := above_isPrefix names
    obtain ⟨gs, hgs⟩ := ih (hback ▸ h).front (dotless_above names)
    cases habove.symm.trans hgs
  | case3 names hne hmade made habove ih =>
    obtain ⟨back, hback⟩ := above_isPrefix names
    have hgrown := makeDirectories_grown fs origin (above names)
    rw [habove] at hgrown
    refine ensureLast_clear (h.grown hgrown.grown) ?_
    obtain ⟨name, front, hstay, hblanks, hstays⟩ :=
      hdot.cases.resolve_left (dropWhile_ne_nil h hmade)
    obtain ⟨stays, hstays', hfront⟩ := reverse_eq_above hstays
    -- The directory above is there now, and a step from it does not fail.
    have hto : ∃ here, (above names).reverse.foldlM made.step origin = .ok here ∧
        made.HasDirectory here := by
      by_cases hnil : above names = []
      · rw [hnil]
        exact ⟨origin, rfl, hgrown.grown.at?_eq h.start⟩
      · exact makeDirectories_ok hnil habove
    obtain ⟨here, hto, hhere⟩ := hto
    rw [hblanks, hfront, List.foldlM_append, List.foldlM_append, hto]
    change (stays.foldlM made.step here >>= fun there => [name].foldlM made.step there) ≠ _
    rw [foldlM_step_stay hstays' hhere]
    have hname : name ∈ names.reverse :=
      List.mem_reverse.2 ((List.dropWhile_suffix _).subset (hstays ▸ List.mem_cons_self))
    have hup : name ≠ ".." := fun hup => h.up (hup ▸ hname)
    change (made.step here name >>= pure) ≠ _
    rw [step_of_hasDirectory hstay hup hhere]
    split_ifs <;> simp [bind, Except.bind, pure, Except.pure]
  | case4 names hne hmade =>
    refine ensureLast_clear h fun hto => hmade ?_
    rw [makeDirectory, hto]
    rfl

/-- **The directory of a path can be made** if nothing is in the way. -/
theorem ensureDirectory_clear (hrefusal : p.text = "" ∨ refusal? p = none)
    (h : fs.Clear (fs.start p) p.names) (hdot : Dotless p.names.reverse) :
    ∃ gs, fs.ensureDirectory p = (gs, .ok ()) ∧ gs.follow p = .ok (fs.start p ++ leading p.names) ∧
      gs.HasDirectory (fs.start p ++ leading p.names) := by
  have hmakes : ∃ gs, fs.ensureDirectory p = (gs, .ok ()) := by
    rw [ensureDirectory]
    split_ifs with hempty
    · exact ⟨fs, rfl⟩
    · rw [hrefusal.resolve_left hempty]
      exact makeDirectories_clear (by rwa [List.reverse_reverse]) hdot
  obtain ⟨gs, hmakes⟩ := hmakes
  have hgrown := ensureDirectory_grown fs p
  rw [hmakes] at hgrown
  have hstart : gs.start p = fs.start p := by rw [start, start, hgrown.grown.current]
  have hcurrent : p.text = "" → fs.HasDirectory fs.current := by
    intro hempty
    have hfrom : fs.start p = fs.current := by rw [start, Path.isAbsolute, hempty]; rfl
    exact hfrom ▸ h.start
  obtain ⟨here, hto, hhere⟩ := ensureDirectory_ok hcurrent hmakes
  have hplace := eq_of_foldlM_step h.up hto
  rw [hstart] at hplace
  exact ⟨gs, hmakes, hplace ▸ hto, hplace ▸ hhere⟩

end FileSystem
end Files
end PageBinding
