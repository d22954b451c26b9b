import InkBindings.Text.Lines
import Mathlib.Data.List.Basic

/-!
The lines of texts that are put together. Putting lines together and taking them apart again gives
back what each of them holds, and whatever is shifted to the right has no line that starts at the
left margin.
-/

namespace InkBindings.Text

theorem splitLines_ne_nil (cs : List Char) : splitLines cs ≠ [] := by
  cases cs with
  | nil => simp [splitLines]
  | cons c rest =>
      simp only [splitLines]
      by_cases hc : c = '\n'
      · simp [hc]
      · rw [if_neg hc]
        split <;> simp

theorem splitLines_newline (cs ds : List Char) :
    splitLines (cs ++ '\n' :: ds) = splitLines cs ++ splitLines ds := by
  induction cs with
  | nil => rfl
  | cons c rest ih =>
      rw [List.cons_append, splitLines, splitLines]
      by_cases hc : c = '\n'
      · rw [if_pos hc, if_pos hc, ih, List.cons_append]
      · rw [if_neg hc, if_neg hc, ih]
        cases hrest : splitLines rest with
        | nil => exact absurd hrest (splitLines_ne_nil rest)
        | cons line more => rfl

/-- What has no line feed belongs to the last line. -/
theorem splitLines_append {ds : List Char} (h : '\n' ∉ ds) (cs : List Char) :
    ∃ init last, splitLines cs = init ++ [last] ∧ splitLines (cs ++ ds) = init ++ [last ++ ds] := by
  induction cs with
  | nil =>
      refine ⟨[], [], rfl, ?_⟩
      rw [List.nil_append]
      induction ds with
      | nil => rfl
      | cons d rest ih =>
          obtain ⟨hd, hrest⟩ := not_or.mp (fun hmem => h (List.mem_cons.mpr hmem))
          rw [splitLines, if_neg (Ne.symm hd), ih hrest]
          rfl
  | cons c rest ih =>
      obtain ⟨init, last, hsplit, happend⟩ := ih
      rw [List.cons_append, splitLines, splitLines, hsplit, happend]
      by_cases hc : c = '\n'
      · rw [if_pos hc, if_pos hc]
        exact ⟨[] :: init, last, rfl, rfl⟩
      · rw [if_neg hc, if_neg hc]
        cases init with
        | nil => exact ⟨[], c :: last, rfl, rfl⟩
        | cons line more => exact ⟨(c :: line) :: more, last, rfl, rfl⟩

/-- What has no line feed belongs to the first line. -/
theorem splitLines_behind {cs : List Char} (h : '\n' ∉ cs) (ds : List Char) :
    ∃ first more, splitLines (cs ++ ds) = (cs ++ first) :: more := by
  induction cs with
  | nil =>
      obtain ⟨first, more, hsplit⟩ := List.exists_cons_of_ne_nil (splitLines_ne_nil ds)
      exact ⟨first, more, hsplit⟩
  | cons c rest ih =>
      obtain ⟨hc, hrest⟩ := not_or.mp (fun hmem => h (List.mem_cons.mpr hmem))
      obtain ⟨first, more, hsplit⟩ := ih hrest
      refine ⟨first, more, ?_⟩
      rw [List.cons_append, splitLines, if_neg (Ne.symm hc), hsplit]
      rfl

theorem splitLines_of_not_mem {cs : List Char} (h : '\n' ∉ cs) : splitLines cs = [cs] := by
  obtain ⟨init, last, hnil, happend⟩ := splitLines_append h []
  obtain ⟨rfl, rfl⟩ : init = [] ∧ last = [] := by
    cases init with
    | nil => simpa [splitLines, eq_comm] using hnil
    | cons line more => simp [splitLines] at hnil
  simpa using happend

theorem newline_not_mem_of_splitLines {cs line : List Char} (h : line ∈ splitLines cs) :
    '\n' ∉ line := by
  induction cs generalizing line with
  | nil => simp_all [splitLines]
  | cons c rest ih =>
      rw [splitLines] at h
      by_cases hc : c = '\n'
      · rw [if_pos hc] at h
        obtain rfl | hmem := List.mem_cons.mp h
        · exact List.not_mem_nil
        · exact ih hmem
      · rw [if_neg hc] at h
        cases hrest : splitLines rest with
        | nil => exact absurd hrest (splitLines_ne_nil rest)
        | cons first more =>
            rw [hrest] at h ih
            obtain rfl | hmem := List.mem_cons.mp h
            · simpa [Ne.symm hc] using ih List.mem_cons_self
            · exact ih (List.mem_cons_of_mem first hmem)

theorem lines_of_not_mem {s : String} (h : '\n' ∉ s.toList) : lines s = [s] := by
  rw [lines, splitLines_of_not_mem h, List.map_singleton, String.ofList_toList]

theorem lines_unlines {ls : List String} (hne : ls ≠ []) :
    lines (unlines ls) = ls.flatMap lines := by
  induction ls with
  | nil => exact absurd rfl hne
  | cons l rest ih =>
      cases rest with
      | nil => simp [unlines]
      | cons m rest =>
          have hrest := ih (List.cons_ne_nil m rest)
          have htext : (unlines (l :: m :: rest)).toList =
              l.toList ++ '\n' :: (unlines (m :: rest)).toList := by
            simp [unlines, String.intercalate_cons_cons]
          rw [List.flatMap_cons, ← hrest, lines, htext, splitLines_newline, List.map_append]
          rfl

/-- Whether the line does not start at the left margin. -/
def isInner (line : String) : Bool :=
  line.toList.head?.all (· == ' ')

theorem isInner_indentLine (line : String) : isInner (indentLine line) = true := by
  simp only [indentLine]
  split
  · rfl
  · simp [isInner, margin]

theorem newline_not_mem_indentLine {line : String} (h : '\n' ∉ line.toList) :
    '\n' ∉ (indentLine line).toList := by
  simp only [indentLine]
  split
  · simp
  · simpa [margin] using h

theorem lines_indent (s : String) : lines (indent s) = (lines s).map indentLine := by
  have hne : (lines s).map indentLine ≠ [] := by
    simpa [lines] using splitLines_ne_nil s.toList
  have hline : ∀ line ∈ (lines s).map indentLine, lines line = [line] := by
    intro line hline
    obtain ⟨l, hl, rfl⟩ := List.mem_map.mp hline
    obtain ⟨cs, hcs, rfl⟩ := List.mem_map.mp hl
    refine lines_of_not_mem (newline_not_mem_indentLine ?_)
    rw [String.toList_ofList]
    exact newline_not_mem_of_splitLines hcs
  rw [indent, lines_unlines hne, List.flatMap_congr hline, List.flatMap_singleton']

/-- A line that is not blank is shifted as it is. -/
theorem indent_of_line {s : String} (hline : '\n' ∉ s.toList)
    (hblank : s.toList.all isBlank = false) : indent s = margin ++ s := by
  rw [indent, lines_of_not_mem hline, List.map_singleton, unlines, String.intercalate_singleton,
    indentLine, hblank]
  rfl

theorem isInner_of_indent {s line : String} (h : line ∈ lines (indent s)) :
    isInner line = true := by
  rw [lines_indent] at h
  obtain ⟨l, -, rfl⟩ := List.mem_map.mp h
  exact isInner_indentLine l

end InkBindings.Text
