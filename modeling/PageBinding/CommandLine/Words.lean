/-
# The words of a command line

A word is an option if it begins with two hyphens, and the word `--` alone makes
all later ones plain.  What follows the first equals sign of an option is its
value; an option that takes a value and has none yet takes the next word, which
has to be a plain one.  No option may be given twice, and there may only be so
many plain words that are no values.

Whatever breaks these rules is no command line.  A request for help is one,
wherever it stands in front of what breaks them.
-/

namespace PageBinding
namespace CommandLine

/-- What a word is, seen for itself. -/
inductive Word
  | plain
  /-- What comes later is plain. -/
  | ending
  | option (name : String) (value : Option String)
  /-- A hyphen and letters. -/
  | short (letters : List Char)
  deriving DecidableEq, Repr

/-- The name and the value of an option. -/
def optionWord (s : List Char) : Word :=
  .option (String.ofList (s.takeWhile (· ≠ '=')))
    (match s.dropWhile (· ≠ '=') with
    | [] => none
    | _ :: value => some (String.ofList value))

/-- What a word is. -/
def Word.of (s : String) : Word :=
  match s.toList with
  | ['-'] => .plain
  | ['-', '-'] => .ending
  | '-' :: '-' :: r => optionWord r
  | '-' :: r => .short r
  | _ => .plain

example : ["-", "--", "--key=a=b", "--key", "-k", "key"].map Word.of =
    [.plain, .ending, .option "key" (some "a=b"), .option "key" none, .short ['k'], .plain] := by
  decide +kernel

/-- What the words of a command line give. -/
structure Given where
  plain : List String
  values : List (String × String)
  flags : List String
  deriving DecidableEq, Repr

namespace Given

def empty : Given := ⟨[], [], []⟩

/-- With one more value, if that is the first one of its name. -/
def addValue? (g : Given) (name value : String) : Option Given :=
  if (g.values.lookup name).isSome then none
  else some { g with values := g.values ++ [(name, value)] }

/-- With one more flag, if it is new. -/
def addFlag? (g : Given) (name : String) : Option Given :=
  if name ∈ g.flags then none else some { g with flags := g.flags ++ [name] }

/-- With more plain words, if there may be so many. -/
def addPlain? (g : Given) (limit : Nat) (words : List String) : Option Given :=
  if (g.plain ++ words).length ≤ limit then some { g with plain := g.plain ++ words } else none

end Given

/-- What a command line may have: so many plain words, options with values and
options without. -/
structure Vocabulary where
  plainLimit : Nat
  valued : List String
  flags : List String

/-- Why words are no command to be run. -/
inductive Misuse
  | wrong
  /-- Help is asked for. -/
  | help
  deriving DecidableEq, Repr

/-- What is left of a step that may be wrong. -/
def orWrong {α : Type} : Option α → Except Misuse α
  | some a => .ok a
  | none => .error .wrong

/-- What the words of a command line give, beyond what earlier ones gave. -/
def collect (v : Vocabulary) (g : Given) : List String → Except Misuse Given
  | [] => .ok g
  | w :: rest =>
    match Word.of w with
    | .plain => do collect v (← orWrong (g.addPlain? v.plainLimit [w])) rest
    | .ending => orWrong (g.addPlain? v.plainLimit rest)
    | .short ('h' :: _) => .error .help
    | .short _ => .error .wrong
    | .option name (some value) => do
      if name ∈ v.valued then collect v (← orWrong (g.addValue? name value)) rest
      else throw .wrong
    | .option "help" none => .error .help
    | .option name none => do
      if name ∈ v.flags then collect v (← orWrong (g.addFlag? name)) rest
      else if name ∈ v.valued then
        match rest with
        | [] => throw .wrong
        | value :: others =>
          if Word.of value = .plain then collect v (← orWrong (g.addValue? name value)) others
          else throw .wrong
      else throw .wrong

end CommandLine
end PageBinding
