import InkBindings.Bindings.Printer
import InkBindings.Proofs.Bindings.Phrase
import InkBindings.Proofs.Naming
import InkBindings.Proofs.Scale.Parts

/-!
Codecs and layouts as phrases. What the printer writes for them is the text of these phrases.
-/

namespace InkBindings.Bindings

open Naming (IsName)

/-- A function of the codec library with its arguments. -/
def libraryPhrase (name : String) (arguments : List Phrase) : Phrase :=
  .group ("scale." ++ name) .round arguments

def numberPhrase (n : Int) : Phrase :=
  .word (toString n)

def natOfChars? (cs : List Char) : Option Nat :=
  if cs ≠ [] ∧ cs.all (·.isDigit) then some (Nat.ofDigitChars 10 cs 0) else none

/-- The number that characters write. -/
def intOfChars? : List Char → Option Int
  | '-' :: cs => (natOfChars? cs).map fun n : Nat => -(n : Int)
  | cs => (natOfChars? cs).map Int.ofNat

mutual

def codecPhrase (qualifier : String) : Scale.Codec → Phrase
  | .int kind => .word (intConstant kind)
  | .bool => .word "scale.BOOL"
  | .char => .word "scale.CHAR"
  | .str => .word "scale.STR"
  | .unit => .word "scale.UNIT"
  | .bytes => .word "scale.BYTES"
  | .accountId => .word "AccountId.SCALE"
  | .hash => .word "Hash.SCALE"
  | .fixedBytes length => libraryPhrase "FixedBytesCodec" [numberPhrase length]
  | .compact inner => libraryPhrase "CompactCodec" [codecPhrase qualifier inner]
  | .tuple items => libraryPhrase "TupleCodec" (codecPhrases qualifier items)
  | .array item length =>
    libraryPhrase "ArrayCodec" [codecPhrase qualifier item, numberPhrase length]
  | .sequence item => libraryPhrase "SequenceCodec" [codecPhrase qualifier item]
  | .option inner => libraryPhrase "OptionCodec" [codecPhrase qualifier inner]
  | .result ok err =>
    libraryPhrase "ResultCodec" [codecPhrase qualifier ok, codecPhrase qualifier err]
  | .map key value =>
    libraryPhrase "MapCodec" [codecPhrase qualifier key, codecPhrase qualifier value]
  | .langError => .word "LangError"
  | .raisedLangError => .word "InkLangError"
  | .reference r => .word (qualifier ++ referenceName r)

def codecPhrases (qualifier : String) : List Scale.Codec → List Phrase
  | [] => []
  | c :: rest => codecPhrase qualifier c :: codecPhrases qualifier rest

end

/-- A name in quotes. -/
def quotedPhrase (name : String) : Phrase :=
  .word ("\"" ++ name ++ "\"")

def fieldPhrase (qualifier : String) (f : String × Scale.Codec) : Phrase :=
  .group "" .round [quotedPhrase f.1, codecPhrase qualifier f.2]

def fieldsPhrase (qualifier : String) (fields : Scale.Fields) : Phrase :=
  .group "" .square (fields.map (fieldPhrase qualifier))

def alternativePhrase (qualifier : String) (a : String × Scale.Fields) : Phrase :=
  .group "" .round [.word a.1, fieldsPhrase qualifier a.2]

/-- What stands in the brackets of a layout. -/
def layoutItems (qualifier : String) : Layout → List Phrase
  | .record fields => fields.map (fieldPhrase qualifier)
  | .sum alternatives => alternatives.map (alternativePhrase qualifier)

/-! ### Numbers -/

theorem natOfChars_repr (n : Nat) : natOfChars? n.repr.toList = some n := by
  have hall : (Nat.toDigits 10 n).all (·.isDigit) = true :=
    List.all_eq_true.mpr fun c hc => Nat.isDigit_of_mem_toDigits (by decide) (by decide) hc
  rw [Nat.toList_repr, natOfChars?, if_pos ⟨Nat.toDigits_ne_nil, hall⟩,
    Nat.ofDigitChars_ten_toDigits]

theorem toList_number (n : Int) :
    (toString n).toList = if n < 0 then '-' :: n.natAbs.repr.toList else n.natAbs.repr.toList := by
  cases n with
  | ofNat m =>
      rw [if_neg (by simp)]
      rfl
  | negSucc m =>
      rw [if_pos (Int.negSucc_lt_zero m)]
      change ("-" ++ (m + 1).repr).toList = _
      rw [String.toList_append]
      rfl

theorem number_chars {n : Int} {c : Char} (h : c ∈ (toString n).toList) :
    c = '-' ∨ c.isDigit = true := by
  have hdigit : c ∈ n.natAbs.repr.toList → c.isDigit = true := by
    intro hc
    rw [Nat.toList_repr] at hc
    exact Nat.isDigit_of_mem_toDigits (by decide) (by decide) hc
  rw [toList_number] at h
  by_cases hn : n < 0
  · rw [if_pos hn] at h
    exact (List.mem_cons.mp h).imp_right hdigit
  · rw [if_neg hn] at h
    exact .inr (hdigit h)

theorem intOfChars_number (n : Int) : intOfChars? (toString n).toList = some n := by
  rw [toList_number]
  by_cases hn : n < 0
  · rw [if_pos hn, intOfChars?, natOfChars_repr, Option.map_some]
    exact congrArg some (by omega)
  · rw [if_neg hn]
    have hplain : intOfChars? n.natAbs.repr.toList =
        (natOfChars? n.natAbs.repr.toList).map Int.ofNat := by
      simp only [intOfChars?]
      split
      · next cs heq =>
          have hminus : '-' ∈ n.natAbs.repr.toList := heq ▸ List.mem_cons_self
          rw [Nat.toList_repr] at hminus
          exact absurd (Nat.isDigit_of_mem_toDigits (by decide) (by decide) hminus) (by decide)
      · rfl
    rw [hplain, natOfChars_repr, Option.map_some]
    exact congrArg some (Int.natAbs_of_nonneg (Int.not_lt.mp hn))

/-! ### The printer writes phrases -/

theorem codecPhrases_eq_map (qualifier : String) (cs : List Scale.Codec) :
    codecPhrases qualifier cs = cs.map (codecPhrase qualifier) := by
  induction cs with
  | nil => rfl
  | cons c rest ih => rw [codecPhrases, ih, List.map_cons]

/-- The codecs of the library, and those of the types that are imported beside it. -/
def libraryWords : List String :=
  ["scale.U8", "scale.U16", "scale.U32", "scale.U64", "scale.U128", "scale.U256",
    "scale.I8", "scale.I16", "scale.I32", "scale.I64", "scale.I128", "scale.I256",
    "scale.BOOL", "scale.CHAR", "scale.STR", "scale.UNIT", "scale.BYTES",
    "AccountId.SCALE", "Hash.SCALE", "InkLangError"]

/-- The functions of the library that make codecs. -/
def libraryHeads : List String :=
  ["scale.FixedBytesCodec", "scale.CompactCodec", "scale.TupleCodec", "scale.ArrayCodec",
    "scale.SequenceCodec", "scale.OptionCodec", "scale.ResultCodec", "scale.MapCodec"]

/-- What holds in the library holds of a codec if it does of its parts, and of what is declared. -/
theorem codecPhrase_of_parts {P : Phrase → Prop}
    (hlibrary : Phrase.Closed libraryWords libraryHeads P) (hnumber : ∀ n, P (numberPhrase n))
    {qualifier : String} {c : Scale.Codec} (hlang : c = .langError → P (.word "LangError"))
    (hreference : ∀ r, c = .reference r → P (.word (qualifier ++ referenceName r)))
    (h : ∀ d ∈ c.parts, P (codecPhrase qualifier d)) : P (codecPhrase qualifier c) := by
  cases c with
  | int kind =>
      obtain ⟨signed, width⟩ := kind
      cases signed <;> cases width <;> exact hlibrary.word (by decide)
  | bool | char | str | unit | bytes | accountId | hash | raisedLangError =>
      exact hlibrary.word (by decide)
  | fixedBytes length => exact hlibrary.one (by decide) (hnumber length)
  | compact inner | sequence inner | option inner =>
      exact hlibrary.one (by decide) (h inner List.mem_cons_self)
  | tuple items =>
      rw [codecPhrase, codecPhrases_eq_map]
      exact hlibrary.group (by decide) (List.forall_mem_map.mpr h)
  | array item length => exact hlibrary.two (by decide) (h item List.mem_cons_self) (hnumber length)
  | result first second | map first second =>
      exact hlibrary.two (by decide) (h first List.mem_cons_self)
        (h second (List.mem_cons_of_mem _ List.mem_cons_self))
  | langError => exact hlang rfl
  | reference r => exact hreference r rfl

theorem expressions_eq_map (qualifier : String) (cs : List Scale.Codec) :
    expressions qualifier cs = cs.map (expression qualifier) := by
  induction cs with
  | nil => rfl
  | cons c rest ih => rw [expressions, ih, List.map_cons]

theorem text_libraryPhrase (name : String) (arguments : List Phrase) :
    (libraryPhrase name arguments).text = call name (arguments.map Phrase.text) := by
  rw [libraryPhrase, Phrase.text, Phrase.texts_eq_map]
  rfl

theorem text_codecPhrase (qualifier : String) (c : Scale.Codec) :
    (codecPhrase qualifier c).text = expression qualifier c := by
  induction c using Scale.Codec.parts_induction with
  | step c ih =>
      cases c with
      | tuple items =>
          rw [codecPhrase, text_libraryPhrase, codecPhrases_eq_map, List.map_map, expression,
            expressions_eq_map]
          exact congrArg (call _) (List.map_congr_left ih)
      | compact c | sequence c | option c =>
          rw [codecPhrase, text_libraryPhrase, expression, List.map_singleton,
            ih c List.mem_cons_self]
      | array c length =>
          rw [codecPhrase, text_libraryPhrase, expression, List.map_cons, List.map_singleton,
            ih c List.mem_cons_self]
          rfl
      | result c d | map c d =>
          rw [codecPhrase, text_libraryPhrase, expression, List.map_cons, List.map_singleton,
            ih c List.mem_cons_self, ih d (List.mem_cons_of_mem _ List.mem_cons_self)]
      | fixedBytes length =>
          rw [codecPhrase, text_libraryPhrase, expression]
          rfl
      | _ => rfl

theorem text_fieldPhrase (qualifier : String) (f : String × Scale.Codec) :
    (fieldPhrase qualifier f).text = s!"(\"{f.1}\", {expression qualifier f.2})" := by
  change _ = "(\"" ++ f.1 ++ "\", " ++ expression qualifier f.2 ++ ")"
  rw [← String.toList_inj]
  simp [fieldPhrase, quotedPhrase, Phrase.text, Phrase.texts, text_codecPhrase, Bracket.opening,
    Bracket.closing]

theorem text_group_square (items : List Phrase) :
    (Phrase.group "" .square items).text =
      "[" ++ ", ".intercalate (items.map Phrase.text) ++ "]" := by
  rw [Phrase.text, Phrase.texts_eq_map]
  rfl

theorem text_fieldsPhrase (qualifier : String) (fields : Scale.Fields) :
    (fieldsPhrase qualifier fields).text = fieldList qualifier fields := by
  rw [fieldsPhrase, text_group_square, List.map_map, fieldList]
  exact congrArg (fun texts => "[" ++ ", ".intercalate texts ++ "]")
    (List.map_congr_left fun f _ => text_fieldPhrase qualifier f)

theorem text_alternativePhrase (qualifier : String) (a : String × Scale.Fields) :
    (alternativePhrase qualifier a).text = s!"({a.1}, {fieldList qualifier a.2})" := by
  change _ = "(" ++ a.1 ++ ", " ++ fieldList qualifier a.2 ++ ")"
  rw [← String.toList_inj]
  simp [alternativePhrase, Phrase.text, Phrase.texts, text_fieldsPhrase, Bracket.opening,
    Bracket.closing]

theorem text_layoutItems (qualifier : String) (layout : Layout) :
    (Phrase.group "" .square (layoutItems qualifier layout)).text =
      layoutText qualifier layout := by
  cases layout with
  | record fields => exact text_fieldsPhrase qualifier fields
  | sum alternatives =>
      rw [text_group_square, layoutItems, List.map_map, layoutText]
      exact congrArg (fun texts => "[" ++ ", ".intercalate texts ++ "]")
        (List.map_congr_left fun a _ => text_alternativePhrase qualifier a)

end InkBindings.Bindings
