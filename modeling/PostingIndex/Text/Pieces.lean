/-!
# Pieces of a text

## Contents

Cutting a text at every occurrence of a separator, and at its first one.
-/

namespace PostingIndex

namespace Text

/-- The pieces between the separators of a text.  There is always one. -/
def pieces (separator : Char) : List Char -> List (List Char)
  | [] => [[]]
  | c :: rest =>
      if c = separator then
        [] :: pieces separator rest
      else
        match pieces separator rest with
        | [] => [[c]]
        | first :: others => (c :: first) :: others

def cutAt? (separator : Char) : List Char -> Option (List Char × List Char)
  | [] => none
  | c :: rest =>
      if c = separator then
        some ([], rest)
      else
        (cutAt? separator rest).map fun (before, after) => (c :: before, after)

end Text

end PostingIndex
