/-!
Truth values in words.
-/

namespace InkBindings.Text

def falseWords : List String := ["0", "off", "f", "false", "n", "no"]
def trueWords : List String := ["1", "on", "t", "true", "y", "yes"]

/-- A truth value in words, whatever the case of their letters. -/
def truth? (s : String) : Option Bool :=
  let word := String.ofList (s.toList.map Char.toLower)
  if falseWords.contains word then some false
  else if trueWords.contains word then some true
  else none

end InkBindings.Text
