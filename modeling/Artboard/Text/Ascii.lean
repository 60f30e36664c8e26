/-!
# Letters of the basic alphabet

Keywords, names of font families and switches are compared without regard to capital letters, which
here are those from A to Z alone; all other characters stay as they are.
-/

namespace Artboard.Text

/-- The text in small letters. -/
def asciiSmall (s : String) : String := String.ofList (s.toList.map Char.toLower)

/-- The text in capital letters. -/
def asciiCapital (s : String) : String := String.ofList (s.toList.map Char.toUpper)

/-- Whether two texts are equal but for capital letters. -/
def sameLetters (a b : String) : Bool := a.toList.map Char.toLower == b.toList.map Char.toLower

/-- Whether a text begins with a character. -/
def beginsWith (c : Char) (s : String) : Bool := s.toList.head? == some c

/-- Whether a text ends with a character. -/
def endsWith (c : Char) (s : String) : Bool := s.toList.getLast? == some c

end Artboard.Text
