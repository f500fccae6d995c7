import LessonDeck.Text.Numeral
/-!
# Values

A variable holds a whole number between minus and plus one billion.  Numbers from elsewhere are
signed 64-bit words and are clamped to that range before they are kept.
-/

namespace LessonDeck.Value

def least : Int64 := -1000000000

def greatest : Int64 := 1000000000

/-- The number of the range that is nearest to a word. -/
def clamp (v : Int64) : Int64 :=
  if v < least then least else if greatest < v then greatest else v

def text (v : Int64) : String :=
  Text.showInt v.toInt

end LessonDeck.Value
