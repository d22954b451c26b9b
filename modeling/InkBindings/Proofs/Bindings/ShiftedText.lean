import InkBindings.Proofs.Bindings.Lexing

/-!
Reading texts that are shifted to the right. Margins stand between tokens or within literals, and
nothing but blanks is lost, so that reading a shifted text ends where reading the text does.
-/

namespace InkBindings.Bindings

open Text (indent indentLine isBlank lines unlines)

/-- Where a line may begin. -/
inductive Mode.IsStart : Mode → Prop
  | code : IsStart .code
  | short (mark : Mark) : IsStart (.short mark)
  | long (mark : Mark) : IsStart (.long mark 0)
  | broken : IsStart .broken

namespace Mode
variable {m : Mode}

theorem isStart_newline (m : Mode) : (m.step '\n').2.IsStart := by
  cases m with
  | code | comment => exact .code
  | broken => exact .broken
  | opening mark twice =>
      cases twice with
      | true => cases mark <;> exact .code
      | false => cases mark <;> exact .broken
  | short mark => cases mark <;> exact .broken
  | shortEscape mark | shortReturn mark => exact .short mark
  | long mark marks => cases mark <;> exact .long _
  | longEscape mark => exact .long mark

theorem read_margin (h : m.IsStart) : (m.read Text.margin.toList).2 = m := by
  cases h with
  | code | broken => rfl
  | short mark | long mark => cases mark <;> rfl

theorem step_blank (h : m.IsStart) {c : Char} (hc : isBlank c = true) :
    (m.step c).2 = m ∨ (m.step c).2 = broken ∧ (m.step '\n').2 = broken := by
  have hne {d : Char} (hd : isBlank d = false) : c ≠ d := by
    rintro rfl
    simp [hc] at hd
  have hnull : c.toNat ≠ 0 := by
    intro h0
    have hzero : isBlank c = false := by simp [isBlank, Text.isWhiteSpace, h0]
    simp [hc] at hzero
  have hmark (mark : Mark) : c ≠ mark.char := by cases mark <;> exact hne (by decide)
  have hslash : c ≠ '\\' := hne (by decide)
  cases h with
  | code =>
      have hquote : c ≠ '\'' ∧ c ≠ '"' ∧ c ≠ '#' :=
        ⟨hne (by decide), hne (by decide), hne (by decide)⟩
      simp [step, hnull, inCode, Mark.ofChar?, hquote]
  | broken => simp [step]
  | short mark =>
      by_cases hend : isLineEnd c = true
      · refine .inr ?_
        constructor
        · simp [step, hnull, inShort, hmark, hslash, hend]
        · cases mark <;> rfl
      · exact .inl (by simp [step, hnull, inShort, hmark, hslash, hend])
  | long mark => exact .inl (by simp [step, hnull, inLong, hmark, hslash])

theorem read_blanks (h : m.IsStart) {cs : List Char} (hcs : ∀ c ∈ cs, isBlank c = true) :
    (m.read (cs ++ ['\n'])).2 = (m.read ['\n']).2 := by
  induction cs with
  | nil => rfl
  | cons c rest ih =>
      obtain ⟨hc, hrest⟩ := List.forall_mem_cons.mp hcs
      rw [List.cons_append, read_cons]
      rcases step_blank h hc with hsame | ⟨hbroken, hend⟩
      · simpa only [hsame] using ih hrest
      · simp only [hbroken, read_broken, read_cons, hend]

theorem read_indentLine (h : m.IsStart) (line : String) :
    (m.read (indentLine line ++ "\n").toList).2 = (m.read (line ++ "\n").toList).2 := by
  rw [indentLine]
  split
  · next hblank =>
      rw [String.toList_append, String.toList_append]
      exact (read_blanks h (List.all_eq_true.mp hblank)).symm
  · rw [String.append_assoc, String.toList_append, read_append, read_margin h]

theorem read_indentLines (h : m.IsStart) {ls : List String} (hne : ls ≠ []) :
    (m.read (unlines (ls.map indentLine) ++ "\n").toList).2 =
      (m.read (unlines ls ++ "\n").toList).2 := by
  induction ls generalizing m with
  | nil => exact absurd rfl hne
  | cons l rest ih =>
      cases rest with
      | nil => simpa [unlines] using read_indentLine h l
      | cons k rest =>
          have hcons (l k : String) (rest : List String) :
              (unlines (l :: k :: rest) ++ "\n").toList =
                (l ++ "\n").toList ++ (unlines (k :: rest) ++ "\n").toList := by
            rw [unlines, String.intercalate_cons_cons, unlines]
            simp only [String.toList_append, List.append_assoc]
          rw [List.map_cons, List.map_cons, hcons, hcons, read_append, read_append]
          have hline := read_indentLine h l
          have hstart : (m.read (l ++ "\n").toList).2.IsStart := by
            rw [String.toList_append, read_append]
            exact isStart_newline _
          simp only [hline]
          exact ih hstart (List.cons_ne_nil k rest)

end Mode

theorem unlines_lines (s : String) : unlines (lines s) = s := by
  have hchars (cs : List Char) : ['\n'].intercalate (Text.splitLines cs) = cs := by
    induction cs with
    | nil => rfl
    | cons c rest ih =>
        rw [Text.splitLines]
        have hne := Text.splitLines_ne_nil rest
        split
        · next hc =>
            cases hrest : Text.splitLines rest with
            | nil => exact absurd hrest hne
            | cons line more =>
                rw [List.intercalate_cons_cons, ← hrest, ih, hc]
                rfl
        · cases hrest : Text.splitLines rest with
          | nil => exact absurd hrest hne
          | cons line more =>
              rw [hrest] at ih
              cases more with
              | nil => simpa using ih
              | cons => simpa using ih
  rw [← String.toList_inj, unlines, lines, String.toList_intercalate, List.map_map]
  have hid : String.toList ∘ String.ofList = id := funext fun cs => String.toList_ofList
  rw [hid, List.map_id]
  exact hchars s.toList

theorem lines_ne_nil (s : String) : lines s ≠ [] := by
  simpa [lines] using Text.splitLines_ne_nil s.toList

theorem indent_unlines {ls : List String} (hne : ls ≠ []) :
    indent (unlines ls) = unlines (ls.map indent) := by
  have hlines : lines (indent (unlines ls)) = lines (unlines (ls.map indent)) := by
    rw [Text.lines_indent, Text.lines_unlines hne, Text.lines_unlines (by simpa using hne),
      List.flatMap_map, List.map_flatMap]
    exact List.flatMap_congr fun l _ => (Text.lines_indent l).symm
  rw [← unlines_lines (indent (unlines ls)), hlines, unlines_lines]

/-- A shifted text leads where the text does. -/
theorem Alike.indent {s : String} (h : Alike s s) : Alike (indent s) (indent s) := by
  refine ⟨rfl, ?_⟩
  have hsame := Mode.read_indentLines .code (lines_ne_nil s)
  rw [unlines_lines] at hsame
  rw [tokens, Text.indent, hsame]
  exact h.back

end InkBindings.Bindings
