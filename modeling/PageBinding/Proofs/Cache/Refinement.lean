/-
# A directory keeps what memory keeps

The file of a key is in the directory itself, and each key has a file of its own
(`fileName_injective`).  So after any calls a directory that was empty answers as a cache in
memory does that got the calls with proper keys (`refines_memory`).

| call | in the directory |
| --- | --- |
| with a text that is no key | a failure, nothing changes |
| `get` | what is in the file of the key, nothing if the file or the directory is not there |
| `set` | the directory is made if need be, then the file of the key is written |

The file system refuses a key that makes a name or a path too long (`takes`); such a key leaves
the others alone.
-/

import PageBinding.Cache.Directory
import PageBinding.Cache.Memory
import PageBinding.Proofs.Files.Clear
import PageBinding.Proofs.Text.Encoded

namespace PageBinding
namespace Cache

open Files (FileSystem Path Component Location Entry Plain isStay)

/-- A call of a cache. -/
inductive Call
  | get (key : String)
  | set (key text : String)

namespace Call

def key : Call → String
  | .get key => key
  | .set key _ => key

/-- The cache after a call. -/
def run {γ : Type} [Cache γ] (c : γ) : Call → γ
  | .get _ => c
  | .set key text => (Cache.set c key text).1

end Call

/-- The cache after some calls. -/
def after {γ : Type} [Cache γ] (c : γ) (calls : List Call) : γ := calls.foldl Call.run c

/-! ## Keys -/

variable {key other text : String} {place here : Location} {fs : FileSystem}

/-- **What a key is:** it is not empty, does not begin with a dot, and has ASCII letters, digits and
three other characters only. -/
theorem isKey_iff : isKey key = true ↔ key ≠ "" ∧ key.toList.head? ≠ some '.' ∧
    ∀ c ∈ key.toList, c.isAlphanum = true ∨ c = '-' ∨ c = '_' ∨ c = '.' := by
  rw [isKey]
  cases hkey : key.toList with
  | nil =>
    rw [String.toList_eq_nil_iff.1 hkey]
    simp
  | cons c r =>
    have hne : key ≠ "" := by
      rintro rfl
      cases hkey
    simp only [Bool.and_eq_true, List.all_eq_true, isKeyCharacter, Bool.or_eq_true,
      decide_eq_true_eq, List.head?_cons, Option.some.injEq, ne_eq, hne, not_false_eq_true,
      true_and, decide_not, Bool.not_eq_true', decide_eq_false_iff_not, or_assoc]

/-- The name of the file of a key. -/
def fileName (key : String) : String := key ++ ".json"

/-- The name of a key's file is the key followed by the extension. -/
theorem toList_fileName (key : String) : (fileName key).toList = key.toList ++ ".json".toList := by
  rw [fileName, String.toList_append]

/-- Different keys have different file names. -/
theorem fileName_injective (h : fileName key = fileName other) : key = other := by
  have hlist := congrArg String.toList h
  rw [toList_fileName, toList_fileName, List.append_left_inj] at hlist
  exact String.toList_inj.1 hlist

/-- A key's file name consists of letters, digits, `-`, `_` and `.` only. -/
theorem of_mem_fileName {c : Char} (h : isKey key = true) (hc : c ∈ (fileName key).toList) :
    c.isAlphanum = true ∨ c = '-' ∨ c = '_' ∨ c = '.' := by
  rw [toList_fileName, List.mem_append] at hc
  rcases hc with hc | hc
  · exact (isKey_iff.1 h).2.2 c hc
  · rw [show ".json".toList = ['.', 'j', 's', 'o', 'n'] from rfl] at hc
    simp only [List.mem_cons, List.not_mem_nil, or_false] at hc
    rcases hc with rfl | rfl | rfl | rfl | rfl <;> decide

/-- The name of the file of a key leads from a directory to what is in it. -/
theorem plain_fileName (h : isKey key = true) : Plain (fileName key) := by
  have hlength : 5 ≤ (fileName key).toList.length := by
    rw [toList_fileName, List.length_append]
    exact Nat.le_add_left ..
  have hne : ∀ s : String, s.toList.length < 5 → fileName key ≠ s := by
    rintro s hs rfl
    omega
  refine ⟨fun hslash => absurd (of_mem_fileName h hslash) (by decide), ?_, hne _ (by decide)⟩
  rw [isStay, Bool.or_eq_false_iff, decide_eq_false_iff_not, decide_eq_false_iff_not]
  exact ⟨hne _ (by decide), hne _ (by decide)⟩

namespace Directory

variable {d : Directory} {m : Memory}

/-- The path of the file of a key. -/
def filePath (d : Directory) (key : String) : Path := d.path.join ⟨fileName key⟩

/-- Whether a text is a key, and the name and the path of its file are not too long. -/
def takes (d : Directory) (key : String) : Bool :=
  isKey key && (fileName key).utf8ByteSize ≤ Files.maxName &&
    (d.filePath key).text.utf8ByteSize < Files.pathLimit

/-- A directory takes just the keys whose file name and path stay within the system's limits. -/
theorem takes_iff : d.takes key = true ↔ isKey key = true ∧
    (fileName key).utf8ByteSize ≤ Files.maxName ∧
      (d.filePath key).text.utf8ByteSize < Files.pathLimit := by
  simp [takes, and_assoc]

/-- The file of a key is the directory's path joined with the file name. -/
theorem fileFor_eq (h : isKey key = true) : d.fileFor key = .ok (d.filePath key) := if_pos h

/-- The file system with the directory. -/
def made (d : Directory) : FileSystem := (d.files.ensureDirectory d.path).1

/-! ## Files of keys -/

/-- The path of a key's file is refused only if it is too long. -/
theorem refusal?_filePath (hdir : d.path.text = "" ∨ FileSystem.refusal? d.path = none)
    (hkey : isKey key = true) : FileSystem.refusal? (d.filePath key) =
      if (d.filePath key).text.utf8ByteSize ≥ Files.pathLimit then some .nameTooLong else none := by
  have hslash := (plain_fileName hkey).slash
  have hname : '\x00' ∉ (fileName key).toList := fun hnul =>
    absurd (of_mem_fileName hkey hnul) (by decide)
  have hpath : '\x00' ∉ d.path.text.toList := by
    rcases hdir with hempty | hrefusal
    · simp [hempty]
    · intro hnul
      rw [FileSystem.refusal?, if_pos (by simpa using hnul)] at hrefusal
      cases hrefusal
  have htext : '\x00' ∉ (d.filePath key).text.toList ∧ (d.filePath key).text ≠ "" := by
    have hne : (fileName key).toList ≠ [] := by
      rw [toList_fileName]
      exact List.append_ne_nil_of_right_ne_nil _ (by decide)
    rw [filePath, Path.join, Path.isAbsolute_eq_false hslash, if_neg Bool.false_ne_true]
    split_ifs <;> rw [Ne, ← String.toList_eq_nil_iff] <;> simp [hname, hpath, hne]
  rw [FileSystem.refusal?, if_neg (by simpa using htext.1), if_neg htext.2]

/-- **Where the directory is there,** the file of a key is in it, unless its name or its path is
too long. -/
theorem locate_filePath (hdir : d.path.text = "" ∨ FileSystem.refusal? d.path = none)
    (hkey : isKey key = true) (hto : fs.follow d.path = .ok place)
    (hplace : fs.HasDirectory place) : fs.locate (d.filePath key) =
      if d.takes key = true then .ok (place ++ [fileName key]) else .error .nameTooLong := by
  have hplain := plain_fileName hkey
  have hrefusal := refusal?_filePath hdir hkey
  by_cases hpath : (d.filePath key).text.utf8ByteSize ≥ Files.pathLimit
  · rw [FileSystem.locate, hrefusal, if_pos hpath, if_neg]
    rw [takes_iff]
    omega
  · rw [if_neg hpath] at hrefusal
    rw [FileSystem.locate_eq_follow hrefusal, filePath,
      FileSystem.follow_join fs d.path hplain.slash, hto]
    change fs.step place (fileName key) = _
    rw [FileSystem.step_of_hasDirectory hplain.stay hplain.up hplace]
    by_cases hname : (fileName key).utf8ByteSize > Files.maxName
    · rw [if_pos hname, if_neg]
      rw [takes_iff]
      omega
    · rw [if_neg hname, if_pos (takes_iff.2 ⟨hkey, by omega, by omega⟩)]

/-- Where the directory is not there, nothing is found. -/
theorem locate_filePath_of_notFound (hdir : d.path.text = "" ∨ FileSystem.refusal? d.path = none)
    (hkey : d.takes key = true)
    (hto : fs.follow d.path = .error .notFound ∨
      ∃ place, fs.follow d.path = .ok place ∧ fs.at? place = none) :
    fs.locate (d.filePath key) = .error .notFound := by
  obtain ⟨hkey, -, hpath⟩ := takes_iff.1 hkey
  have hrefusal := refusal?_filePath hdir hkey
  rw [if_neg (by omega)] at hrefusal
  rw [FileSystem.locate_eq_follow hrefusal, filePath,
    FileSystem.follow_join fs d.path (plain_fileName hkey).slash]
  rcases hto with hto | ⟨place, hto, hplace⟩
  · rw [hto]
    rfl
  · rw [hto]
    change fs.step place (fileName key) = _
    rw [FileSystem.step, hplace]

/-- If the file of a key holds a text, that text is what is read. -/
theorem get_of_text (hkey : isKey key = true) (hto : d.files.locate (d.filePath key) = .ok here)
    (hhere : d.files.at? here = some (.file text.toUTF8)) : d.get key = .ok (some text) := by
  have hread : d.files.readText (d.filePath key) = .ok text := by
    simp only [FileSystem.readText, hto, bind, Except.bind, hhere, Entry.text, Text.fromUTF8?_toUTF8]
  simp only [get, fileFor_eq hkey, bind, Except.bind, hread]
  rfl

/-- If the file of a key is not there, or cannot be reached for want of a directory, nothing is read
and nothing fails. -/
theorem get_of_notFound (hkey : isKey key = true)
    (hto : d.files.locate (d.filePath key) = .error .notFound ∨
      ∃ here, d.files.locate (d.filePath key) = .ok here ∧ d.files.at? here = none) :
    d.get key = .ok none := by
  have hread : d.files.readText (d.filePath key) = .error .notFound := by
    rcases hto with hto | ⟨here, hto, hhere⟩
    · simp only [FileSystem.readText, hto, bind, Except.bind]
    · simp only [FileSystem.readText, hto, bind, Except.bind, hhere]
      rfl
  simp only [get, fileFor_eq hkey, bind, Except.bind, hread]
  rfl

/-! ## What is kept -/

/-- A directory that is there or can be made keeps what a cache in memory keeps.  Before it is
made there is nothing to keep. -/
structure Keeps (d : Directory) (place : Location) (m : Memory) : Prop where
  makes : (d.files.ensureDirectory d.path).2 = .ok ()
  leads : d.made.follow d.path = .ok place
  isDirectory : d.made.HasDirectory place
  kept : ∀ key, d.takes key = true →
    d.made.at? (place ++ [fileName key]) = (m.get? key).map fun text => .file text.toUTF8
  there : d.files = d.made ∨ ∀ key, m.get? key = none

/-- Making the directory adds directories along its own path and changes nothing else. -/
theorem grown_made (d : Directory) :
    FileSystem.GrownAlong d.files d.made (d.files.start d.path) d.path.names :=
  FileSystem.ensureDirectory_grown d.files d.path

/-- A directory that keeps what a cache keeps can be made. -/
theorem Keeps.ensureDirectory (h : d.Keeps place m) :
    d.files.ensureDirectory d.path = (d.made, .ok ()) :=
  Prod.ext rfl h.makes

/-- The path of a directory that keeps what a cache keeps is accepted by the system, or empty. -/
theorem Keeps.refusal? (h : d.Keeps place m) :
    d.path.text = "" ∨ FileSystem.refusal? d.path = none :=
  FileSystem.refusal?_of_ensureDirectory h.ensureDirectory

/-- In the directory that is made the file of a key that is taken is found. -/
theorem Keeps.locate (h : d.Keeps place m) (hkey : d.takes key = true) :
    d.made.locate (d.filePath key) = .ok (place ++ [fileName key]) := by
  rw [locate_filePath h.refusal? (takes_iff.1 hkey).1 h.leads h.isDirectory, if_pos hkey]

/-- **What a directory answers is what memory answers.** -/
theorem Keeps.get (h : d.Keeps place m) (hkey : d.takes key = true) :
    d.get key = .ok (m.get? key) := by
  have hkey' := (takes_iff.1 hkey).1
  have hkept := h.kept key hkey
  rcases h.there with hthere | hnone
  · have hto : d.files.locate (d.filePath key) = .ok (place ++ [fileName key]) :=
      hthere ▸ h.locate hkey
    rw [← hthere] at hkept
    cases hm : m.get? key with
    | none => exact get_of_notFound hkey' (.inr ⟨_, hto, by rw [hkept, hm]; rfl⟩)
    | some text => exact get_of_text hkey' hto (by rw [hkept, hm]; rfl)
  · have hgrown := (grown_made d).grown
    rw [hnone key] at hkept ⊢
    -- What is not there after the directory is made was not there before.
    have hfile : d.files.at? (place ++ [fileName key]) = none := by
      rcases hgrown.at? (place ++ [fileName key]) with hsame | ⟨hnone, -⟩
      · rw [← hsame, hkept]
        rfl
      · exact hnone
    refine get_of_notFound hkey' ?_
    rcases hgrown.follow h.leads with hto | hto
    · rcases hgrown.at? place with hsame | ⟨hnone, -⟩
      · refine .inr ⟨_, ?_, hfile⟩
        rw [locate_filePath h.refusal? hkey' hto (hsame.symm.trans h.isDirectory), if_pos hkey]
      · exact .inl (locate_filePath_of_notFound h.refusal? hkey (.inr ⟨_, hto, hnone⟩))
    · exact .inl (locate_filePath_of_notFound h.refusal? hkey (.inl hto))

/-! ## Texts that are set -/

/-- Which keys a directory takes depends on its path alone. -/
theorem takes_congr {d' : Directory} (h : d'.path = d.path) (key : String) :
    d'.takes key = d.takes key := by
  rw [takes, takes, filePath, filePath, h]

/-- The file system with a text set. -/
def written (d : Directory) (place : Location) (key text : String) : FileSystem :=
  d.made.put (place ++ [fileName key]) (.file text.toUTF8)

/-- Writing a key's file leaves every directory a directory. -/
theorem Keeps.isDirectory_written (h : d.Keeps place m) (hkey : d.takes key = true) (text : String)
    (hhere : d.made.HasDirectory here) : (d.written place key text).HasDirectory here := by
  refine (FileSystem.at?_put_of_ne _ _ ?_).trans hhere
  rintro rfl
  have hkept := (h.kept key hkey).symm.trans hhere
  cases hm : m.get? key with
  | none => rw [hm] at hkept; cases hkept
  | some old => rw [hm] at hkept; cases hkept

/-- **What setting a text does:** the file of the key is written in the directory. -/
theorem Keeps.set_eq (h : d.Keeps place m) (hkey : d.takes key = true) (text : String) :
    d.set key text = (⟨d.written place key text, d.path⟩, .ok ()) := by
  have hto := h.locate hkey
  have hwrite : d.made.writeText (d.filePath key) text = .ok (d.written place key text) := by
    have hkept := h.kept key hkey
    cases hm : m.get? key with
    | none =>
      rw [hm] at hkept
      simp only [FileSystem.writeText, hto, bind, Except.bind, hkept]
      rfl
    | some old =>
      rw [hm] at hkept
      simp only [FileSystem.writeText, hto, bind, Except.bind, hkept]
      rfl
  simp only [set, fileFor_eq (takes_iff.1 hkey).1, h.ensureDirectory, hwrite]

/-- A key whose file has too long a name or path makes the directory and nothing else. -/
theorem Keeps.set_of_not_takes (h : d.Keeps place m) (hkey : isKey key = true)
    (hnot : d.takes key = false) (text : String) :
    d.set key text = (⟨d.made, d.path⟩, .error (.writing (d.filePath key) .nameTooLong)) := by
  have hto : d.made.locate (d.filePath key) = .error .nameTooLong := by
    rw [locate_filePath h.refusal? hkey h.leads h.isDirectory, hnot, if_neg Bool.false_ne_true]
  simp only [set, fileFor_eq hkey, h.ensureDirectory, FileSystem.writeText, hto, bind, Except.bind]

/-- Once a text is set in both, the directory keeps what the cache keeps. -/
theorem Keeps.set (h : d.Keeps place m) (hkey : d.takes key = true) (text : String) :
    (d.set key text).1.Keeps place (m.set key text) := by
  have hdirectory := fun here (hhere : d.made.HasDirectory here) =>
    h.isDirectory_written hkey text hhere
  have hto : (d.written place key text).follow d.path = .ok place :=
    FileSystem.foldlM_step_of_directories hdirectory h.leads
  have hmade := FileSystem.ensureDirectory_there h.refusal? hto (hdirectory place h.isDirectory)
  rw [h.set_eq hkey text]
  have hthere : made ⟨d.written place key text, d.path⟩ = d.written place key text := by
    rw [made, hmade]
  refine ⟨by rw [hmade], by rwa [hthere], by rw [hthere]; exact hdirectory place h.isDirectory,
    fun other hother => ?_, .inl hthere.symm⟩
  rw [hthere, written]
  by_cases hsame : other = key
  · rw [hsame, FileSystem.at?_put_self _ _ (by simp), Memory.get?_set_self]
    rfl
  · rw [FileSystem.at?_put_of_ne, Memory.get?_set_of_ne m hsame]
    · exact h.kept other hother
    · intro hplace
      rw [List.append_cancel_left_eq, List.singleton_inj] at hplace
      exact hsame (fileName_injective hplace)

/-- The directory is made also by a text that is not kept. -/
theorem Keeps.made (h : d.Keeps place m) : Keeps ⟨d.made, d.path⟩ place m := by
  have hmade := FileSystem.ensureDirectory_there h.refusal? h.leads h.isDirectory
  have hthere : Directory.made ⟨d.made, d.path⟩ = d.made := by rw [Directory.made, hmade]
  exact ⟨by rw [hmade], by rw [hthere]; exact h.leads, by rw [hthere]; exact h.isDirectory,
    fun key hkey => by rw [hthere]; exact h.kept key hkey, .inl hthere.symm⟩

/-! ## Calls -/

/-- **What a call does** to a directory is what it does to memory if its key is taken. -/
theorem Keeps.run (h : d.Keeps place m) (call : Call) :
    (call.run d).path = d.path ∧
      (call.run d).Keeps place (if d.takes call.key = true then call.run m else m) := by
  cases call with
  | get key =>
    refine ⟨rfl, ?_⟩
    split_ifs <;> exact h
  | set key text =>
    change (d.set key text).1.path = _ ∧ (d.set key text).1.Keeps place
      (if d.takes key = true then m.set key text else m)
    by_cases hkey : isKey key = true
    · cases htakes : d.takes key with
      | true => exact ⟨by rw [h.set_eq htakes], h.set htakes text⟩
      | false =>
        rw [h.set_of_not_takes hkey htakes]
        exact ⟨rfl, h.made⟩
    · have htakes : ¬d.takes key = true := fun htakes => hkey (takes_iff.1 htakes).1
      rw [set_of_not_isKey d hkey, if_neg htakes]
      exact ⟨rfl, h⟩

/-- **After some calls** a directory keeps what memory keeps after those with keys that are
taken. -/
theorem Keeps.after (h : d.Keeps place m) (calls : List Call) :
    (after d calls).path = d.path ∧
      (after d calls).Keeps place (after m (calls.filter fun call => d.takes call.key)) := by
  induction calls generalizing d m with
  | nil => exact ⟨rfl, h⟩
  | cons call calls ih =>
    obtain ⟨hpath, hkeeps⟩ := h.run call
    obtain ⟨hpath', hkeeps'⟩ := ih hkeeps
    refine ⟨hpath'.trans hpath, ?_⟩
    simp only [takes_congr hpath] at hkeeps'
    rw [List.filter_cons]
    split_ifs at hkeeps' ⊢ <;> exact hkeeps'

/-! ## Files that have a part -/

/-- What setting a text changes besides the file of the key: directories are made on the way of
the path, where nothing was. -/
theorem Keeps.at?_set (h : d.Keeps place m) (hkey : isKey key = true) (text : String)
    (hhere : d.takes key = true → here ≠ place ++ [fileName key]) :
    let next := (d.set key text).1.files
    next.at? here = d.files.at? here ∨ d.files.at? here = none ∧ next.HasDirectory here ∧
      next.Passes (d.files.start d.path) d.path.names here := by
  have hgrown := grown_made d
  have hmade : d.made.at? here = d.files.at? here ∨ d.files.at? here = none ∧
      d.made.HasDirectory here ∧ d.made.Passes (d.files.start d.path) d.path.names here := by
    rcases hgrown.grown.at? here with hsame | ⟨hnone, hdir⟩
    · exact .inl hsame
    · refine .inr ⟨hnone, hdir, (hgrown.passes here).resolve_left fun hsame => ?_⟩
      rw [hnone, hdir] at hsame
      cases hsame
  cases htakes : d.takes key with
  | false => rwa [h.set_of_not_takes hkey htakes]
  | true =>
    rw [h.set_eq htakes]
    have hsame : (d.written place key text).at? here = d.made.at? here :=
      FileSystem.at?_put_of_ne _ _ (hhere htakes)
    refine hmade.imp hsame.trans fun ⟨hnone, hdir, front, hfront, hto⟩ =>
      ⟨hnone, hsame.trans hdir, front, hfront, ?_⟩
    exact FileSystem.foldlM_step_of_directories (fun _ => h.isDirectory_written htakes text) hto

/-- The path leads to no other place before the directory is made. -/
theorem Keeps.eq_of_follow (h : d.Keeps place m) (hto : d.files.follow d.path = .ok here) :
    here = place := by
  have hstart : d.made.start d.path = d.files.start d.path := by
    rw [FileSystem.start, FileSystem.start, (grown_made d).grown.current]
  have hto' : d.made.follow d.path = .ok here := by
    rw [FileSystem.follow] at hto
    rw [FileSystem.follow, hstart, (grown_made d).grown.foldlM_step]
    · exact hto
    · simp [hto]
  exact Except.ok.inj (hto'.symm.trans h.leads)

/-- In a directory that keeps what a cache keeps, the file of a key can only be at the place that is
named after the key. -/
theorem Keeps.eq_of_locate (h : d.Keeps place m) (hkey : isKey key = true)
    (hto : d.files.locate (d.filePath key) = .ok here) : here = place ++ [fileName key] := by
  obtain ⟨there, hthere, rfl⟩ := FileSystem.of_follow_joins
    (List.forall_mem_singleton.2 (plain_fileName hkey)) (FileSystem.follow_of_locate hto).2
  rw [h.eq_of_follow hthere]

/-- **What is read** is the file of the key in the directory, and nothing else. -/
theorem Keeps.get_congr (h : d.Keeps place m) (hkey : isKey key = true)
    (hfollow : fs.follow d.path = d.files.follow d.path)
    (hplace : fs.at? place = d.files.at? place)
    (hfile : fs.at? (place ++ [fileName key]) = d.files.at? (place ++ [fileName key])) :
    Directory.get ⟨fs, d.path⟩ key = d.get key := by
  have hread : fs.readText (d.filePath key) = d.files.readText (d.filePath key) := by
    refine (FileSystem.found_congr (List.forall_mem_singleton.2 (plain_fileName hkey)) hfollow
      fun here hhere front hfront => ?_).2
    obtain rfl := h.eq_of_follow hhere
    replace hfront : front <+: [] ++ [fileName key] := hfront
    rcases List.prefix_concat_iff.1 hfront with rfl | hnil
    · exact hfile
    · rwa [List.prefix_nil.1 hnil, List.append_nil]
  simp only [Directory.get, fileFor_eq hkey, bind, Except.bind]
  rw [show Directory.filePath ⟨fs, d.path⟩ key = d.filePath key from rfl, hread]

/-- The components of a key's file are those of the directory and the file name. -/
theorem components_filePath (d : Directory) (hkey : isKey key = true) :
    (d.filePath key).components = d.path.components ++ [.name (fileName key)] :=
  Path.components_join d.path (plain_fileName hkey)

/-- A file is found only for a key, and it is that key's own. -/
theorem isKey_of_fileFor {path : Path} (h : d.fileFor key = .ok path) :
    isKey key = true ∧ path = d.filePath key := by
  by_cases hkey : isKey key = true
  · rw [fileFor_eq hkey] at h
    exact ⟨hkey, (Except.ok.inj h).symm⟩
  · rw [fileFor, if_neg hkey] at h
    cases h

/-- **No two keys have the same file.** -/
theorem eq_of_fileFor {path : Path} (h : d.fileFor key = .ok path)
    (h' : d.fileFor other = .ok path) : key = other := by
  obtain ⟨hkey, rfl⟩ := isKey_of_fileFor h
  obtain ⟨hother, hpath⟩ := isKey_of_fileFor h'
  have hname := congrArg Path.components hpath
  rw [components_filePath d hkey, components_filePath d hother, List.append_cancel_left_eq,
    List.singleton_inj, Component.name.injEq] at hname
  exact fileName_injective hname

/-! ## Directories that are empty -/

/-- A directory that is there or can be made, at a place, and has no files of keys. -/
structure Ready (d : Directory) (place : Location) : Prop where
  makes : (d.files.ensureDirectory d.path).2 = .ok ()
  leads : d.made.follow d.path = .ok place
  isDirectory : d.made.HasDirectory place
  empty : ∀ key, isKey key = true → d.made.at? (place ++ [fileName key]) = none

/-- A directory that is ready keeps what the empty cache does. -/
theorem Ready.keeps (h : d.Ready place) : d.Keeps place .empty :=
  ⟨h.makes, h.leads, h.isDirectory, fun key hkey => h.empty key (takes_iff.1 hkey).1,
    .inr fun _ => rfl⟩

/-- A directory that is there and has no files of keys. -/
theorem ready_of_there (hrefusal : d.path.text = "" ∨ FileSystem.refusal? d.path = none)
    (hto : d.files.follow d.path = .ok place) (hplace : d.files.HasDirectory place)
    (hempty : ∀ key, isKey key = true → d.files.at? (place ++ [fileName key]) = none) :
    d.Ready place := by
  have hmakes := FileSystem.ensureDirectory_there hrefusal hto hplace
  have hmade : d.made = d.files := by rw [made, hmakes]
  exact ⟨by rw [hmakes], by rwa [hmade], by rwa [hmade], by rwa [hmade]⟩

/-- A directory that nothing stands in the way of and that has no files of keys. -/
theorem ready_of_clear (hrefusal : d.path.text = "" ∨ FileSystem.refusal? d.path = none)
    (hclear : d.files.Clear (d.files.start d.path) d.path.names)
    (hdot : FileSystem.Dotless d.path.names.reverse)
    (hplace : place = d.files.start d.path ++ Files.leading d.path.names)
    (hempty : ∀ key, isKey key = true → d.files.at? (place ++ [fileName key]) = none) :
    d.Ready place := by
  obtain ⟨files, hmakes, hto, hhere⟩ := FileSystem.ensureDirectory_clear hrefusal hclear hdot
  have hmade : d.made = files := by rw [made, hmakes]
  rw [← hplace] at hto hhere
  refine ⟨by rw [hmakes], by rwa [hmade], by rwa [hmade], fun key hkey => ?_⟩
  rcases (grown_made d).passes (place ++ [fileName key]) with hsame | ⟨front, ⟨back, hback⟩, hto⟩
  · rw [hsame, hempty key hkey]
  -- The directories that are made are no deeper than the directory itself.
  · have hup : ".." ∉ front := fun hup => hclear.up (hback ▸ List.mem_append_left _ hup)
    have hplace' := FileSystem.eq_of_foldlM_step hup hto
    rw [hplace, ← hback, Files.leading_append] at hplace'
    have hlength := congrArg List.length hplace'
    simp only [List.length_append, List.length_singleton] at hlength
    omega

/-- **A directory answers as a cache in memory** that got the calls with keys that are taken, if no
texts were in it at first.  A text that is no key is refused and changes nothing.  A text that is
set changes the file of its key and no other one; the directory is made for it if need be.  The
file of a key is in the directory itself, no two keys have the same one, and what is anywhere
else has no part in an answer. -/
theorem refines_memory (h : d.Ready place) (calls : List Call) :
    let now := after d calls
    let memory := after Memory.empty (calls.filter fun call => d.takes call.key)
    (∀ key, isKey key = true ↔ key ≠ "" ∧ key.toList.head? ≠ some '.' ∧
      ∀ c ∈ key.toList, c.isAlphanum = true ∨ c = '-' ∨ c = '_' ∨ c = '.') ∧
    (∀ key, isKey key = false → now.get key = .error (.invalidKey key) ∧
      ∀ text, now.set key text = (now, .error (.invalidKey key))) ∧
    (∀ key, d.takes key = true → now.get key = .ok (memory.get? key) ∧
      ∀ text, (now.set key text).2 = .ok () ∧
        (now.set key text).1.files.at? (place ++ [fileName key]) = some (.file text.toUTF8)) ∧
    (∀ key, isKey key = true →
      (∃ path, now.fileFor key = .ok path ∧
        path.components = d.path.components ++ [.name (fileName key)] ∧
        ∀ here, now.files.locate path = .ok here → here = place ++ [fileName key]) ∧
      (∀ fs : FileSystem, fs.follow d.path = now.files.follow d.path →
        fs.at? place = now.files.at? place →
        fs.at? (place ++ [fileName key]) = now.files.at? (place ++ [fileName key]) →
        Directory.get ⟨fs, d.path⟩ key = now.get key) ∧
      ∀ text here, (d.takes key = true → here ≠ place ++ [fileName key]) →
        let next := (now.set key text).1.files
        next.at? here = now.files.at? here ∨ now.files.at? here = none ∧ next.HasDirectory here ∧
          next.Passes (now.files.start d.path) d.path.names here) ∧
    ∀ key other path, now.fileFor key = .ok path → now.fileFor other = .ok path → key = other := by
  intro now memory
  obtain ⟨hpath, hkeeps⟩ := h.keeps.after calls
  have htakes := takes_congr hpath
  change now.path = d.path at hpath
  change now.Keeps place memory at hkeeps
  refine ⟨fun key => isKey_iff, fun key hkey => ?_, fun key hkey => ?_,
    fun key hkey => ⟨?_, ?_, ?_⟩, fun key other path hkey hother => ?_⟩
  · have hnot : ¬isKey key = true := by rw [hkey]; exact Bool.false_ne_true
    exact ⟨get_of_not_isKey now hnot, fun text => set_of_not_isKey now hnot text⟩
  · rw [← htakes key] at hkey
    refine ⟨hkeeps.get hkey, fun text => ?_⟩
    rw [hkeeps.set_eq hkey]
    exact ⟨rfl, FileSystem.at?_put_self _ _ (by simp)⟩
  · exact ⟨_, fileFor_eq hkey, hpath ▸ components_filePath now hkey,
      fun here => hkeeps.eq_of_locate hkey⟩
  · rw [← hpath]
    exact fun fs => hkeeps.get_congr hkey
  · rw [← hpath, ← htakes key]
    exact fun text here => hkeeps.at?_set hkey text
  · exact eq_of_fileFor hkey hother

/-- A directory that is yet to be made, below another one. -/
theorem refines_memory_of_new_directory :
    let d : Directory := ⟨⟨[], [(["var"], .directory)]⟩, ⟨"var/cache"⟩⟩
    let now := after d [.set "a" "1", .set "../a" "2", .set "a.json" "3"]
    d.Ready ["var", "cache"] ∧ now.get "a" = .ok (some "1") ∧ now.get "b" = .ok none ∧
      now.get "../a" = .error (.invalidKey "../a") := by
  intro d now
  have hready : d.Ready ["var", "cache"] := by
    have hstart : d.files.start d.path = [] := by decide +kernel
    have hnames : d.path.names = ["var", "cache"] := by decide +kernel
    have hleading : Files.leading ["var", "cache"] = ["var", "cache"] := by decide +kernel
    refine ready_of_clear (.inr (by decide +kernel)) ?_ (by decide +kernel)
      (by rw [hstart, hnames, hleading]; rfl)
      fun key _ => by simp [d, FileSystem.at?, List.lookup_cons]
    rw [hstart, hnames]
    refine ⟨rfl, by decide +kernel, by decide +kernel, fun front hfront bytes => ?_⟩
    rw [hleading] at hfront
    obtain rfl | ⟨front, rfl, hrest⟩ := List.prefix_cons_iff.1 hfront
    · simp [FileSystem.at?]
    obtain rfl | ⟨front, rfl, hnil⟩ := List.prefix_cons_iff.1 hrest
    · simp [d, FileSystem.at?]
    · rw [List.prefix_nil.1 hnil]
      simp [d, FileSystem.at?, List.lookup_cons]
  have h := refines_memory hready [.set "a" "1", .set "../a" "2", .set "a.json" "3"]
  refine ⟨hready, (h.2.2.1 "a" (by decide +kernel)).1.trans (by decide +kernel),
    (h.2.2.1 "b" (by decide +kernel)).1.trans (by decide +kernel),
    (h.2.1 "../a" (by decide +kernel)).1⟩

end Directory
end Cache
end PageBinding
