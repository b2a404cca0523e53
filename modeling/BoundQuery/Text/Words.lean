/-
# Words

A text read as the words between its white space, where white space is the space, tab, line feed,
form feed and carriage return. Other spaces, such as the no-break space, belong to words.
`normalize` writes the words with single spaces between them.
-/

namespace BoundQuery.Text

/-- Whether `c` separates words. -/
def isSeparator (c : Char) : Bool :=
  c == ' ' || c == '\t' || c == '\n' || c == '\x0c' || c == '\r'

/-- The pieces between the separators, empty ones included: always one more than separators. -/
def pieces : List Char → List (List Char)
  | [] => [[]]
  | c :: cs =>
    if isSeparator c then [] :: pieces cs
    else match pieces cs with
      | [] => [[c]]
      | piece :: rest => (c :: piece) :: rest

/-- The maximal runs of characters that are not separators. -/
def words (cs : List Char) : List (List Char) :=
  (pieces cs).filter fun piece => !piece.isEmpty

/-- The words of a text with single spaces between them and none around them. -/
def normalize (cs : List Char) : List Char :=
  [' '].intercalate (words cs)

/-! ### Laws -/

@[simp] theorem words_nil : words [] = [] := rfl

theorem words_cons_separator {c : Char} (h : isSeparator c = true) (cs : List Char) :
    words (c :: cs) = words cs := by
  simp [words, pieces, h]

end BoundQuery.Text
