/-!
# Texts split at a character
-/

namespace TeachingCpu.Text

/-- Puts a character in front of some pieces: a separator starts a new piece, any other character
goes to the first one. -/
def consPiece (separator c : Char) (pieces : List (List Char)) : List (List Char) :=
  if c = separator then [] :: pieces
  else match pieces with
    | [] => [[c]]
    | piece :: rest => (c :: piece) :: rest

/-- The pieces of a text between separators. There is one piece more than separators. -/
def splitAtChar (separator : Char) (cs : List Char) : List (List Char) :=
  cs.foldr (consPiece separator) [[]]

end TeachingCpu.Text
