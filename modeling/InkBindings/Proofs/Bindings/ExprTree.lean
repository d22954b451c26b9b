import InkBindings.Proofs.Bindings.PlainTypes

/-!
Rendered references as expressions: dotted names, numbers, and names that are applied to arguments.
An annotation applies names in square brackets and a codec in round ones; numbers stand in codecs
only.
-/

namespace InkBindings.Bindings

open Naming (IsName isNameChar)

inductive ExprTree
  | name (segments : List String)
  | number (n : Nat)
  | applied (head : List String) (arguments : List ExprTree)

namespace ExprTree

def isIdentifier (s : String) : Bool :=
  s.toList.all isNameChar && s.toList.head?.any (!·.isDigit) && !Naming.keywords.contains s

/-- The segments of a dotted name. One keyword is a name too. -/
def segments? (w : String) : Option (List String) :=
  let segments := (w.toList.splitOn '.').map String.ofList
  if segments.all isIdentifier || w == "None" then some segments else none

mutual

/-- The expression that a phrase is where names are applied in these brackets. -/
def ofPhrase? (b : Bracket) : Phrase → Option ExprTree
  | .word w =>
    match natOfChars? w.toList with
    | some n => if b = .round then some (.number n) else none
    | none => (segments? w).map .name
  | .group head b' items =>
    if b' = b && (b = .round || !items.isEmpty) then do
      return .applied (← segments? head) (← ofPhrases? b items)
    else none

def ofPhrases? (b : Bracket) : List Phrase → Option (List ExprTree)
  | [] => some []
  | p :: rest => do return (← ofPhrase? b p) :: (← ofPhrases? b rest)

end

def read? (b : Bracket) (s : String) : Option ExprTree :=
  (Phrase.ofText? s).bind (ofPhrase? b)

/-! ### Dotted names -/

def dotted (segments : List String) : String :=
  ".".intercalate segments

/-- What stands before a name that is qualified by these segments. -/
def qualifier : List String → String
  | [] => ""
  | s :: rest => s ++ "." ++ qualifier rest

theorem dotted_cons (s : String) {rest : List String} (hne : rest ≠ []) :
    dotted (s :: rest) = s ++ "." ++ dotted rest := by
  cases rest with
  | nil => exact absurd rfl hne
  | cons t rest => rw [dotted, String.intercalate_cons_cons, dotted]

theorem qualifier_append (segments : List String) (name : String) :
    qualifier segments ++ name = dotted (segments ++ [name]) := by
  induction segments with
  | nil => simp [qualifier, dotted]
  | cons s rest ih =>
      rw [qualifier, List.cons_append, dotted_cons s (by simp), ← ih, String.append_assoc]

structure IsIdentifier (s : String) : Prop where
  name : IsName s
  head : ∀ c ∈ s.toList.head?, c.isDigit = false
  plain : s ∉ Naming.keywords

theorem isIdentifier_iff (s : String) : isIdentifier s = true ↔ IsIdentifier s := by
  have hhead : s.toList.head?.any (!·.isDigit) = true ↔
      s ≠ "" ∧ ∀ c ∈ s.toList.head?, c.isDigit = false := by
    cases hcs : s.toList with
    | nil => simp [String.toList_eq_nil_iff.mp hcs]
    | cons c rest =>
        have hne : s ≠ "" := fun h => by simp [h] at hcs
        simp [hne]
  simp only [isIdentifier, Bool.and_eq_true, hhead, Bool.not_eq_true', List.all_eq_true,
    List.contains_eq_mem, decide_eq_false_iff_not]
  exact ⟨fun ⟨⟨hchars, hne, hdigit⟩, hplain⟩ => ⟨⟨hne, hchars⟩, hdigit, hplain⟩,
    fun ⟨⟨hne, hchars⟩, hdigit, hplain⟩ => ⟨⟨hchars, hne, hdigit⟩, hplain⟩⟩

theorem segments_dotted {segments : List String} (hne : segments ≠ [])
    (h : ∀ s ∈ segments, IsIdentifier s) : segments? (dotted segments) = some segments := by
  have hdot : ∀ cs ∈ segments.map String.toList, '.' ∉ cs := by
    intro cs hcs hmem
    obtain ⟨s, hs, rfl⟩ := List.mem_map.mp hcs
    exact absurd ((h s hs).name.chars '.' hmem) (by decide)
  have hsplit : ((dotted segments).toList.splitOn '.').map String.ofList = segments := by
    have hlist : (dotted segments).toList = ['.'].intercalate (segments.map String.toList) :=
      String.toList_intercalate
    rw [hlist, List.splitOn_intercalate '.' hdot (by simpa using hne), List.map_map]
    simp [Function.comp_def]
  have hall : segments.all isIdentifier = true :=
    List.all_eq_true.mpr fun s hs => (isIdentifier_iff s).mpr (h s hs)
  simp only [segments?, hsplit, hall, Bool.true_or, if_true]

theorem exists_toList_dotted {segments : List String} (hne : segments ≠ [])
    (h : ∀ s ∈ segments, IsIdentifier s) :
    ∃ c cs, (dotted segments).toList = c :: cs ∧ c.isDigit = false := by
  cases segments with
  | nil => exact absurd rfl hne
  | cons s rest =>
      have hs := h s List.mem_cons_self
      cases hcs : s.toList with
      | nil => exact absurd (String.toList_eq_nil_iff.mp hcs) hs.name.nonempty
      | cons c cs =>
          have hc : c.isDigit = false := hs.head c (by rw [hcs]; rfl)
          cases rest with
          | nil => exact ⟨c, cs, by rw [dotted, String.intercalate_singleton, hcs], hc⟩
          | cons t rest =>
              refine ⟨c, cs ++ ("." ++ dotted (t :: rest)).toList, ?_, hc⟩
              rw [dotted_cons s (List.cons_ne_nil t rest), String.append_assoc,
                String.toList_append, hcs, List.cons_append]

theorem natOfChars_dotted {segments : List String} (hne : segments ≠ [])
    (h : ∀ s ∈ segments, IsIdentifier s) : natOfChars? (dotted segments).toList = none := by
  obtain ⟨c, cs, hdotted, hc⟩ := exists_toList_dotted hne h
  rw [hdotted, natOfChars?, if_neg]
  simp [hc]

theorem isWordChar_dotted {segments : List String} (h : ∀ s ∈ segments, IsIdentifier s) :
    ∀ c ∈ (dotted segments).toList, isWordChar c := by
  induction segments with
  | nil => simp [dotted]
  | cons s rest ih =>
      have hs := isWordChar_of_isName (h s List.mem_cons_self).name
      have hrest := ih fun t ht => h t (List.mem_cons_of_mem s ht)
      intro c hc
      cases rest with
      | nil =>
          rw [dotted, String.intercalate_singleton] at hc
          exact hs c hc
      | cons t rest =>
          rw [dotted_cons s (List.cons_ne_nil t rest), String.toList_append, String.toList_append,
            List.mem_append, List.mem_append] at hc
          obtain (hc | hc) | hc := hc
          · exact hs c hc
          · rw [List.mem_singleton.mp hc]
            rfl
          · exact hrest c hc

/-! ### Expressions of phrases -/

/-- A phrase is read as this expression, and so is its text. -/
structure Reads (b : Bracket) (p : Phrase) (t : ExprTree) : Prop where
  wellformed : p.Wellformed
  tree : ofPhrase? b p = some t

theorem Reads.read {b : Bracket} {p : Phrase} {t : ExprTree} (h : Reads b p t) :
    read? b p.text = some t := by
  rw [read?, Phrase.ofText_text h.wellformed, Option.bind_some, h.tree]

theorem reads_dotted (b : Bracket) {segments : List String} (hne : segments ≠ [])
    (h : ∀ s ∈ segments, IsIdentifier s) : Reads b (.word (dotted segments)) (.name segments) where
  wellformed := by
    refine .word (fun hempty => ?_) (isWordChar_dotted h)
    obtain ⟨c, cs, hdotted, -⟩ := exists_toList_dotted hne h
    rw [hempty] at hdotted
    cases hdotted
  tree := by
    rw [ofPhrase?, natOfChars_dotted hne h]
    dsimp only
    rw [segments_dotted hne h, Option.map_some]

theorem reads_number {n : Int} (h : 0 ≤ n) : Reads .round (numberPhrase n) (.number n.toNat) where
  wellformed := wellformed_number n
  tree := by
    have hnat : natOfChars? (toString n).toList = some n.natAbs := by
      rw [toList_number, if_neg (Int.not_lt.mpr h), natOfChars_repr]
    rw [numberPhrase, ofPhrase?, hnat]
    dsimp only
    rw [if_pos rfl, show n.natAbs = n.toNat by omega]

theorem ofPhrases_eq {b : Bracket} {ps : List Phrase} {ts : List ExprTree}
    (h : List.Forall₂ (Reads b) ps ts) : ofPhrases? b ps = some ts := by
  induction h with
  | nil => rfl
  | cons hp _ ih =>
      rw [ofPhrases?, hp.tree, ih]
      rfl

theorem reads_group {b : Bracket} {head : List String} {ps : List Phrase} {ts : List ExprTree}
    (hne : head ≠ []) (hhead : ∀ s ∈ head, IsIdentifier s) (hps : List.Forall₂ (Reads b) ps ts)
    (harguments : b = .round ∨ ps ≠ []) :
    Reads b (.group (dotted head) b ps) (.applied head ts) where
  wellformed := by
    refine .group (isWordChar_dotted hhead) fun p hp => ?_
    obtain ⟨t, -, ht⟩ := forall₂_right hps.flip hp
    exact ht.wellformed
  tree := by
    rw [ofPhrase?, if_pos (by simpa using harguments), segments_dotted hne hhead,
      ofPhrases_eq hps]
    rfl

end ExprTree
end InkBindings.Bindings
