import InkBindings.Proofs.Bindings.Literals
import InkBindings.Proofs.Bindings.MethodText

/-!
Names, annotations and codecs in the emitted module. Each is made of names and brackets, with no
mark that opens a literal, so that reading it leads back to the code.
-/

namespace InkBindings.Bindings

open Metadata (TypeId)
open Naming (IsName isNameChar)

/-! ### Words -/

theorem isPlainChar_of_isNameChar {c : Char} (h : isNameChar c = true) : isPlainChar c = true := by
  have hne {d : Char} (hd : isNameChar d = false) : c ≠ d := by
    rintro rfl
    simp [h] at hd
  have hnull : c.toNat ≠ 0 := by
    intro h0
    obtain rfl : c = Char.ofNat 0 := by rw [← h0, Char.ofNat_toNat]
    cases h
  have hmark : c ≠ '\'' ∧ c ≠ '"' := ⟨hne (by decide), hne (by decide)⟩
  have hother : c ≠ '#' ∧ c ≠ '\\' ∧ c ≠ '\n' ∧ c ≠ '\r' :=
    ⟨hne (by decide), hne (by decide), hne (by decide), hne (by decide)⟩
  simp [isPlainChar, Mark.ofChar?, Mode.isLineEnd, hnull, hmark, hother]

theorem isPlain_name {s : String} (h : IsName s) : IsPlain s :=
  fun c hc => isPlainChar_of_isNameChar (h.chars c hc)

theorem isPlain_number (n : Int) : IsPlain (toString n) := by
  intro c hc
  obtain rfl | hdigit := number_chars hc
  · decide
  · exact isPlainChar_of_isNameChar (by simp [isNameChar, Char.isAlphanum, hdigit])

theorem isComplete_name {s : String} (h : IsName s) : IsComplete s :=
  (isPlain_name h).isComplete

/-- A name in quotes, as the layouts have it. -/
theorem isComplete_quotedName {name : String} (h : IsName name) :
    IsComplete ("\"" ++ name ++ "\"") := by
  have hquoted := isComplete_quoted (t := "") (isPlain_name h).isLabel nofun (.inl h.nonempty)
  rwa [String.append_empty] at hquoted

theorem isComplete_intercalate {separator : String} (hseparator : IsComplete separator)
    {ls : List String} (h : ∀ l ∈ ls, IsComplete l) : IsComplete (separator.intercalate ls) := by
  induction ls with
  | nil => rfl
  | cons l rest ih =>
      obtain ⟨hl, hrest⟩ := List.forall_mem_cons.mp h
      cases rest with
      | nil => rwa [String.intercalate_singleton]
      | cons k rest =>
          rw [String.intercalate_cons_cons]
          exact (hl.append hseparator).append (ih hrest)

/-! ### Phrases -/

/-- Reading any word of the phrase leads back to the code. -/
inductive Phrase.Complete : Phrase → Prop
  | word {w : String} : IsComplete w → Complete (.word w)
  | group {head : String} {bracket : Bracket} {items : List Phrase} : IsComplete head →
      (∀ p ∈ items, Complete p) → Complete (.group head bracket items)

namespace Phrase.Complete
variable {p : Phrase}

theorem text (h : p.Complete) : IsComplete p.text := by
  induction h with
  | word hw => exact hw
  | @group head bracket items hhead _ ih =>
      have hopening : IsComplete (String.singleton bracket.opening) := by cases bracket <;> rfl
      have hclosing : IsComplete (String.singleton bracket.closing) := by cases bracket <;> rfl
      have hcomma : IsComplete ", " := isComplete_ofList rfl
      rw [Phrase.text, Phrase.texts_eq_map]
      refine ((hhead.append hopening).append (isComplete_intercalate hcomma fun l hl => ?_)).append
        hclosing
      obtain ⟨p, hp, rfl⟩ := List.mem_map.mp hl
      exact ih p hp

end Phrase.Complete

theorem closed_complete {words heads : List String} (hwords : ∀ w ∈ words, IsPlain w)
    (hheads : ∀ head ∈ heads, IsPlain head) : Phrase.Closed words heads Phrase.Complete where
  word hw := .word (hwords _ hw).isComplete
  group hhead hitems := .group (hheads _ hhead).isComplete hitems

/-! ### Annotations and codecs -/

theorem isComplete_reference {d : Metadata.Declaration} (hd : IsName d.name) (id : TypeId) :
    IsComplete (referenceName (entryReference d id)) := by
  simp only [entryReference]
  split
  · have hbefore := isComplete_name (isName_beforeId hd)
    exact hbefore.append (isPlain_number id).isComplete
  · exact isComplete_name hd

section
variable {s : Scope} (hs : ∀ d ∈ s.declarations, IsName d.name) {qualifier : String}
  (hqualifier : IsComplete qualifier)
include hs hqualifier

theorem complete_annotationPhrase {depth : Nat} {room : Room} {id : TypeId} {a : Annotation}
    (h : s.annotationWithin depth room id = .ok a) : (annotationPhrase qualifier a).Complete := by
  have hname {d : Metadata.Declaration} (hd : d ∈ s.declarations) :
      IsComplete (qualifier ++ d.name) :=
    hqualifier.append (isComplete_name (hs d hd))
  exact annotationPhrase_of_declared (closed_complete (by decide) (by decide))
    (fun d hd => .word (hname hd)) (fun d hd _ hps => .group (hname hd) hps) h

theorem complete_codecPhrase {depth : Nat} {room : Room} {id : TypeId} {c : Scale.Codec}
    (h : s.codecWithin depth room id = .ok c) : (codecPhrase qualifier c).Complete :=
  codecPhrase_of_declared (closed_complete (by decide) (by decide))
    (fun n => .word (isPlain_number n).isComplete)
    (fun d hd id => .word (hqualifier.append (isComplete_reference (hs d hd) id))) h

theorem isComplete_annotation {id : TypeId} {a : Annotation} (h : s.annotation id = .ok a) :
    IsComplete (a.text qualifier) := by
  rw [← text_annotationPhrase]
  exact (complete_annotationPhrase hs hqualifier h).text

theorem isComplete_codec {id : TypeId} {c : Scale.Codec} (h : s.codec id = .ok c) :
    IsComplete (expression qualifier c) := by
  rw [← text_codecPhrase]
  exact (complete_codecPhrase hs hqualifier h).text

end

end InkBindings.Bindings
