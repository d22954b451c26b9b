/-!
Control sequences that set the style of text on a terminal: an escape character, an opening bracket,
numbers and a letter.
-/

namespace InkBindings.Text

def isStyleParameter (c : Char) : Bool :=
  c.isDigit || c = ';' || c = '?'

/-- What follows a control sequence, after its escape character. -/
def afterStyle? : List Char → Option (List Char)
  | '[' :: rest =>
    match rest.dropWhile isStyleParameter with
    | c :: after => if c.isAlpha then some after else none
    | [] => none
  | _ => none

theorem afterStyle?_length {cs after : List Char} (h : afterStyle? cs = some after) :
    after.length < cs.length := by
  simp only [afterStyle?] at h
  split at h
  · rename_i rest
    split at h
    · rename_i c after' heq
      have hle : (rest.dropWhile isStyleParameter).length ≤ rest.length :=
        (List.dropWhile_sublist _).length_le
      rw [heq] at hle
      split at h
      · cases h
        simp only [List.length_cons] at hle ⊢
        omega
      · cases h
    · cases h
  · cases h

def plainChars : List Char → List Char
  | [] => []
  | c :: rest =>
    if c = '\x1b' then
      match h : afterStyle? rest with
      | some after =>
        have := afterStyle?_length h
        plainChars after
      | none => c :: plainChars rest
    else c :: plainChars rest
termination_by cs => cs.length
decreasing_by all_goals simp only [List.length_cons]; omega

def plain (s : String) : String :=
  String.ofList (plainChars s.toList)

end InkBindings.Text
