/-
# Reading tokens

The tokens of a text by the rules for ordinary markup.  No element switches to
other rules, so the content of a script is read like any other.  What is wrong
is read as something else, never refused:

| text | reading |
| --- | --- |
| `<` before no letter, `/`, `!` or `?` | a text |
| `</` before no letter | a comment up to `>`, or nothing for `</>` |
| `<!` before no `--` and no doctype, `<?` | a comment up to `>` |
| a tag that is not closed by the end of the text | nothing |
| `<!-->` and `<!--->` | an empty comment |
| `--!>` | the end of a comment |

Carriage returns become line feeds first (`normalizeNewlines`).  NUL stays in a
text and becomes U+FFFD everywhere else.
-/

import PageBinding.Html.Reference
import PageBinding.Html.Token

namespace PageBinding
namespace Html

/-- The text with each line end written as a line feed. -/
def normalizeNewlines : List Char → List Char
  | [] => []
  | '\r' :: '\n' :: r => '\n' :: normalizeNewlines r
  | '\r' :: r => '\n' :: normalizeNewlines r
  | c :: r => c :: normalizeNewlines r

/-- White space inside a tag. -/
def isTagSpace (c : Char) : Bool := c = ' ' || c = '\n' || c = '\t' || c = '\x0c'

/-- NUL is kept in texts only. -/
def withoutNul (c : Char) : Char := if c = '\x00' then replacement else c

/-- A character of a tag or attribute name. -/
def nameChar (c : Char) : Char := withoutNul c.toLower

/-! ## Comments -/

/-- The data of a comment and what follows it.  At the end of the text up to two
hyphens, or `--!`, are taken for a part of the missing end. -/
def comment : List Char → List Char × List Char
  | [] => ([], [])
  | ['-'] => ([], [])
  | ['-', '-'] => ([], [])
  | ['-', '-', '!'] => ([], [])
  | '-' :: '-' :: '>' :: r => ([], r)
  | '-' :: '-' :: '!' :: '>' :: r => ([], r)
  | c :: r =>
    let (data, rest) := comment r
    (withoutNul c :: data, rest)

/-- What is left behind a comment is no longer than what it was read from. -/
theorem comment_length_le (s : List Char) : (comment s).2.length ≤ s.length := by
  fun_induction comment s <;> simp_all <;> omega

/-- A comment behind `<!--`. -/
def commentStart : List Char → List Char × List Char
  | '>' :: r => ([], r)
  | '-' :: '>' :: r => ([], r)
  | s => comment s

/-- What is left behind the opening of a comment is no longer than what it was read from. -/
theorem commentStart_length_le (s : List Char) : (commentStart s).2.length ≤ s.length := by
  unfold commentStart
  split
  · simp
  · simp; omega
  · exact comment_length_le _

/-- What follows the first `>`. -/
def afterClose (s : List Char) : List Char := (s.dropWhile (· ≠ '>')).drop 1

/-- What is left behind an end tag's `>` is no longer than what it was read from. -/
theorem afterClose_length_le (s : List Char) : (afterClose s).length ≤ s.length := by
  have := (List.dropWhile_suffix (l := s) (· ≠ '>')).length_le
  simp only [afterClose, List.length_drop]; omega

/-- A comment that goes up to the first `>`. -/
def bogusComment (s : List Char) : Token :=
  .comment (String.ofList ((s.takeWhile (· ≠ '>')).map withoutNul))

/-! ## Tags -/

def endsTagName (c : Char) : Bool := isTagSpace c || c = '/' || c = '>'

def endsAttributeName (c : Char) : Bool := endsTagName c || c = '='

def endsUnquoted (c : Char) : Bool := isTagSpace c || c = '>'

/-- Dropping leading characters leaves no more than there were. -/
theorem length_dropWhile_le {p : Char → Bool} (s : List Char) :
    (s.dropWhile p).length ≤ s.length :=
  (List.dropWhile_suffix p).length_le

/-- The text of an attribute value behind the equals sign, and what follows it.
A quoted value that is not closed takes the whole text. -/
def valueText (s : List Char) : List Char × List Char :=
  match s.dropWhile isTagSpace with
  | '\"' :: r => (r.takeWhile (· ≠ '\"'), (r.dropWhile (· ≠ '\"')).drop 1)
  | '\'' :: r => (r.takeWhile (· ≠ '\''), (r.dropWhile (· ≠ '\'')).drop 1)
  | r => (r.takeWhile (!endsUnquoted ·), r.dropWhile (!endsUnquoted ·))

/-- What is left behind an attribute's value is no longer than what it was read from. -/
theorem valueText_length_le (s : List Char) : (valueText s).2.length ≤ s.length := by
  have h := length_dropWhile_le (p := isTagSpace) s
  unfold valueText
  split
  · next r hr =>
    rw [hr] at h
    have := length_dropWhile_le (p := (· ≠ '\"')) r
    simp only [List.length_drop, List.length_cons] at *; omega
  · next r hr =>
    rw [hr] at h
    have := length_dropWhile_le (p := (· ≠ '\'')) r
    simp only [List.length_drop, List.length_cons] at *; omega
  · exact Nat.le_trans (length_dropWhile_le _) h

/-- An attribute whose name begins with `c`, and what follows it. -/
def attributeAt (c : Char) (s : List Char) : Attribute × List Char :=
  let name := String.ofList (nameChar c :: (s.takeWhile (!endsAttributeName ·)).map nameChar)
  match (s.dropWhile (!endsAttributeName ·)).dropWhile isTagSpace with
  | '=' :: r =>
    ((name, String.ofList (decode true ((valueText r).1.map withoutNul))), (valueText r).2)
  | r => ((name, ""), r)

/-- What is left behind an attribute is no longer than what follows its first character. -/
theorem attributeAt_length_le (c : Char) (s : List Char) : (attributeAt c s).2.length ≤ s.length := by
  have h := Nat.le_trans (length_dropWhile_le (p := isTagSpace) (s.dropWhile (!endsAttributeName ·)))
    (length_dropWhile_le s)
  unfold attributeAt
  dsimp only
  split
  · next r hr =>
    rw [hr] at h
    have := valueText_length_le r
    simp only [List.length_cons] at *; omega
  · exact h

/-- The part of a tag behind its name: its attributes in the order of the text,
whether it closes itself, and what follows; `none` if it is not closed. -/
def tagRest (s : List Char) : Option (List Attribute × Bool × List Char) :=
  match _h : s.dropWhile isTagSpace with
  | [] => none
  | '>' :: r => some ([], false, r)
  | '/' :: '>' :: r => some ([], true, r)
  | '/' :: r => tagRest r
  | c :: r =>
    match tagRest (attributeAt c r).2 with
    | none => none
    | some (attributes, selfClosing, rest) =>
      some ((attributeAt c r).1 :: attributes, selfClosing, rest)
termination_by s.length
decreasing_by
  · have := length_dropWhile_le (p := isTagSpace) s
    rw [_h, List.length_cons] at this
    omega
  · have := length_dropWhile_le (p := isTagSpace) s
    rw [_h, List.length_cons] at this
    have := attributeAt_length_le c r
    omega

/-- What is left behind a tag's attributes is no longer than what they were read from. -/
theorem tagRest_length_le {as : List Attribute} {s rest : List Char} {b : Bool}
    (h : tagRest s = some (as, b, rest)) : rest.length ≤ s.length := by
  fun_induction tagRest s generalizing as b rest with
  | case1 => simp at h
  | case2 s r hs =>
    have := length_dropWhile_le (p := isTagSpace) s
    simp_all; omega
  | case3 s r hs =>
    have := length_dropWhile_le (p := isTagSpace) s
    simp_all; omega
  | case4 s r _ hs ih =>
    have := length_dropWhile_le (p := isTagSpace) s
    have := ih h
    simp_all; omega
  | case5 => simp at h
  | case6 s c r _ _ _ hs as' b' rest' ha ih =>
    have := length_dropWhile_le (p := isTagSpace) s
    have := attributeAt_length_le c r
    have := ih ha
    simp only [Option.some.injEq, Prod.mk.injEq] at h
    obtain ⟨_, _, rfl⟩ := h
    rw [hs, List.length_cons] at *
    omega

/-- A tag behind its `<` or `</`: name, attributes, whether it closes itself, and
what follows. -/
def tag (s : List Char) : Option (Element × Bool × List Char) :=
  (tagRest (s.dropWhile (!endsTagName ·))).map fun (attributes, selfClosing, rest) =>
    (⟨String.ofList ((s.takeWhile (!endsTagName ·)).map nameChar), firstByName attributes⟩,
      selfClosing, rest)

/-- What is left behind a start tag is no longer than what it was read from. -/
theorem tag_length_le {s rest : List Char} {e : Element} {b : Bool}
    (h : tag s = some (e, b, rest)) : rest.length ≤ s.length := by
  obtain ⟨⟨as, b', r⟩, ht, he⟩ := Option.map_eq_some_iff.1 h
  simp only [Prod.mk.injEq] at he
  obtain ⟨_, _, rfl⟩ := he
  exact Nat.le_trans (tagRest_length_le ht) (length_dropWhile_le s)

/-! ## Tokens -/

/-- Whether a doctype follows `<!`. -/
def startsDoctype (s : List Char) : Bool :=
  (s.take 7).map Char.toLower = ['d', 'o', 'c', 't', 'y', 'p', 'e']

/-- The token at a `<` and what follows it. -/
def markup : List Char → List Token × List Char
  | '!' :: '-' :: '-' :: r =>
    let (data, rest) := commentStart r
    ([.comment (String.ofList data)], rest)
  | '!' :: r =>
    if startsDoctype r then ([.doctype], afterClose r) else ([bogusComment r], afterClose r)
  | '?' :: r => ([bogusComment ('?' :: r)], afterClose ('?' :: r))
  | '/' :: '>' :: r => ([], r)
  | '/' :: c :: r =>
    if c.isAlpha then
      match tag (c :: r) with
      | some (e, _, rest) => ([.endTag e.tag], rest)
      | none => ([], [])
    else ([bogusComment (c :: r)], afterClose (c :: r))
  | '/' :: [] => ([.text "</"], [])
  | c :: r =>
    if c.isAlpha then
      match tag (c :: r) with
      | some (e, selfClosing, rest) => ([.startTag e selfClosing], rest)
      | none => ([], [])
    else ([.text "<"], c :: r)
  | [] => ([.text "<"], [])

/-- What is left behind a piece of markup is no longer than what it was read from, so the tokenizer
ends. -/
theorem markup_length_le (s : List Char) : (markup s).2.length ≤ s.length := by
  unfold markup
  split
  · next r => have := commentStart_length_le r; simp only [List.length_cons]; omega
  · next r _ => have := afterClose_length_le r; split <;> simp only [List.length_cons] <;> omega
  · next r => exact afterClose_length_le _
  · next r => simp only [List.length_cons]; omega
  · next c r _ =>
    split
    · split
      · next h => have := tag_length_le h; simp only [List.length_cons] at *; omega
      · simp
    · have := afterClose_length_le (c :: r); simp only [List.length_cons] at *; omega
  · simp
  · next c r _ _ _ _ _ _ =>
    split
    · split
      · next h => exact tag_length_le h
      · simp
    · simp
  · simp

/-- The tokens of a text whose line ends are line feeds. -/
def tokensOf : List Char → List Token
  | [] => []
  | '<' :: r => (markup r).1 ++ tokensOf (markup r).2
  | c :: r =>
    .text (String.ofList (decode false (c :: r.takeWhile (· ≠ '<')))) ::
      tokensOf (r.dropWhile (· ≠ '<'))
termination_by s => s.length
decreasing_by
  · have := markup_length_le r; simp only [List.length_cons]; omega
  · have := length_dropWhile_le (p := (· ≠ '<')) r; simp only [List.length_cons]; omega

/-- The tokens of a text. -/
def tokens (text : String) : List Token := tokensOf (normalizeNewlines text.toList)

end Html
end PageBinding
