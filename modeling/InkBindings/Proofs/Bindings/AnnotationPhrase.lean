import InkBindings.Proofs.Bindings.CodecPhrase
import InkBindings.Proofs.Bindings.Rendering

/-!
Annotations as phrases, and what an annotation can be of a type that has one. A descent gives the
annotation of an entry from those of the types it refers to, as it gives the codec, and those of
the parameters of declared types besides.
-/

namespace InkBindings.Bindings

open Metadata (TypeId TypeEntry)

/-! ### Phrases -/

def subscriptPhrase (name : String) (arguments : List Phrase) : Phrase :=
  .group name .square arguments

mutual

def annotationPhrase (qualifier : String) : Annotation → Phrase
  | .int => .word "int"
  | .bool => .word "bool"
  | .str => .word "str"
  | .none => .word "None"
  | .bytes => .word "bytes"
  | .accountId => .word "AccountId"
  | .hash => .word "Hash"
  | .langError => .word "InkLangError"
  | .tuple items => subscriptPhrase "Tuple" (annotationPhrases qualifier items)
  | .list item => subscriptPhrase "List" [annotationPhrase qualifier item]
  | .compact inner => subscriptPhrase "Compact" [annotationPhrase qualifier inner]
  | .optional inner => subscriptPhrase "Optional" [annotationPhrase qualifier inner]
  | .result ok err =>
    subscriptPhrase "Result" [annotationPhrase qualifier ok, annotationPhrase qualifier err]
  | .dict key value =>
    subscriptPhrase "Dict" [annotationPhrase qualifier key, annotationPhrase qualifier value]
  | .declared name [] => .word (qualifier ++ name)
  | .declared name arguments =>
    subscriptPhrase (qualifier ++ name) (annotationPhrases qualifier arguments)
  | .any => .word "Any"

def annotationPhrases (qualifier : String) : List Annotation → List Phrase
  | [] => []
  | a :: rest => annotationPhrase qualifier a :: annotationPhrases qualifier rest

end

theorem text_subscriptPhrase (name : String) (arguments : List Phrase) :
    (subscriptPhrase name arguments).text =
      Annotation.subscript name (Phrase.texts arguments) := rfl

mutual

theorem text_annotationPhrase (qualifier : String) (a : Annotation) :
    (annotationPhrase qualifier a).text = a.text qualifier := by
  cases a with
  | tuple items =>
      rw [annotationPhrase, text_subscriptPhrase, texts_annotationPhrases, Annotation.text]
  | list a | compact a | optional a =>
      rw [annotationPhrase, text_subscriptPhrase, Annotation.text, Phrase.texts, Phrase.texts,
        text_annotationPhrase qualifier a]
  | result a b | dict a b =>
      rw [annotationPhrase, text_subscriptPhrase, Annotation.text, Phrase.texts, Phrase.texts,
        Phrase.texts, text_annotationPhrase qualifier a, text_annotationPhrase qualifier b]
  | declared name arguments =>
      cases arguments with
      | nil => rfl
      | cons a rest =>
          rw [annotationPhrase, text_subscriptPhrase, texts_annotationPhrases, Annotation.text]
          all_goals exact nofun
  | _ => rfl

theorem texts_annotationPhrases (qualifier : String) (as : List Annotation) :
    Phrase.texts (annotationPhrases qualifier as) = Annotation.texts qualifier as := by
  cases as with
  | nil => rfl
  | cons a rest =>
      rw [annotationPhrases, Phrase.texts, Annotation.texts, text_annotationPhrase qualifier a,
        texts_annotationPhrases qualifier rest]

end

theorem annotationPhrases_eq_map (qualifier : String) (as : List Annotation) :
    annotationPhrases qualifier as = as.map (annotationPhrase qualifier) := by
  induction as with
  | nil => rfl
  | cons a rest ih => rw [annotationPhrases, ih, List.map_cons]

/-! ### Descents -/

/-- What the definition of an entry makes of its annotation, by the annotations of other types. -/
inductive AnnotationOf (s : Scope) (sub : TypeId → Annotation → Prop) (e : TypeEntry) :
    Annotation → Prop
  | primitive {p} : e.definition = .primitive p → AnnotationOf s sub e ( primitiveAnnotation p)
  | unit : e.definition = .tuple [] → AnnotationOf s sub e .none
  | tuple {item items as} : e.definition = .tuple (item :: items) →
      List.Forall₂ sub (item :: items) as → AnnotationOf s sub e (.tuple as)
  | fixedBytes {item length i} : e.definition = .array item length →
      s.registry.find? item = some i → i.isU8 = true → AnnotationOf s sub e .bytes
  | array {item length i a} : e.definition = .array item length →
      s.registry.find? item = some i → i.isU8 = false → sub item a →
      AnnotationOf s sub e (.list a)
  | bytes {item i} : e.definition = .sequence item → s.registry.find? item = some i →
      i.isU8 = true → AnnotationOf s sub e .bytes
  | sequence {item i a} : e.definition = .sequence item → s.registry.find? item = some i →
      i.isU8 = false → sub item a → AnnotationOf s sub e (.list a)
  | compact {item a} : e.definition = .compact item → sub item a →
      AnnotationOf s sub e (.compact a)
  | reserved {r} : e.definition.isStructured = true → NamedAs s e (.reserved r) →
      AnnotationOf s sub e r.annotation
  | option {inner a} : e.definition.isStructured = true → NamedAs s e (.option inner) →
      sub inner a → AnnotationOf s sub e (.optional a)
  | result {ok err a b} : e.definition.isStructured = true → NamedAs s e (.result ok err) →
      sub ok a → sub err b → AnnotationOf s sub e (.result a b)
  | map {key value a b} : e.definition.isStructured = true → NamedAs s e (.map key value) →
      sub key a → sub value b → AnnotationOf s sub e (.dict a b)
  | declared {d as} : e.definition.isStructured = true → NamedAs s e (.declared d) →
      List.Forall₂ sub e.arguments as → AnnotationOf s sub e (.declared d.name as)

namespace Scope
variable {s : Scope} {e : TypeEntry}

theorem structuredAnnotation_ok {sub : TypeId → Outcome Annotation} {a : Annotation}
    (hstructured : e.definition.isStructured = true)
    (h : (do match ← s.named e with
      | .reserved r => return r.annotation
      | .option inner => return .optional (← sub inner)
      | .result ok err =>
        let ok ← sub ok
        return .result ok (← sub err)
      | .map key value =>
        let key ← sub key
        return .dict key (← sub value)
      | .declared d => return .declared d.name (← e.arguments.mapM sub)) = .ok a) :
    AnnotationOf s (fun id a => sub id = .ok a) e a := by
  obtain ⟨n, hn, h⟩ := bind_ok h
  have hnamed := named_ok hn
  cases n with
  | reserved r =>
      cases h
      exact .reserved hstructured hnamed
  | option inner =>
      obtain ⟨b, hb, h⟩ := bind_ok h
      cases h
      exact .option hstructured hnamed hb
  | result ok err =>
      obtain ⟨b, hb, h⟩ := bind_ok h
      obtain ⟨b', hb', h⟩ := bind_ok h
      cases h
      exact .result hstructured hnamed hb hb'
  | map key value =>
      obtain ⟨b, hb, h⟩ := bind_ok h
      obtain ⟨b', hb', h⟩ := bind_ok h
      cases h
      exact .map hstructured hnamed hb hb'
  | declared d =>
      obtain ⟨bs, hbs, h⟩ := bind_ok h
      cases h
      exact .declared hstructured hnamed (forall₂_of_mapM hbs)

theorem entryAnnotation_ok {sub : TypeId → Outcome Annotation} {a : Annotation}
    (h : s.entryAnnotation sub e = .ok a) : AnnotationOf s (fun id a => sub id = .ok a) e a := by
  cases hdefinition : e.definition with
  | primitive p =>
      simp only [hdefinition, entryAnnotation] at h
      cases h
      exact .primitive hdefinition
  | tuple items =>
      cases items with
      | nil =>
          simp only [hdefinition, entryAnnotation] at h
          cases h
          exact .unit hdefinition
      | cons item items =>
          simp only [hdefinition, entryAnnotation] at h
          obtain ⟨as, has, h⟩ := bind_ok h
          cases h
          exact .tuple hdefinition (forall₂_of_mapM has)
  | array item length =>
      simp only [hdefinition, entryAnnotation] at h
      obtain ⟨i, hi, h⟩ := bind_ok h
      have hfind := find_of_resolve hi
      split at h
      · next hbyte =>
          cases h
          exact .fixedBytes hdefinition hfind hbyte
      · next hbyte =>
          obtain ⟨b, hb, h⟩ := bind_ok h
          cases h
          exact .array hdefinition hfind (by simpa using hbyte) hb
  | sequence item =>
      simp only [hdefinition, entryAnnotation] at h
      obtain ⟨i, hi, h⟩ := bind_ok h
      have hfind := find_of_resolve hi
      split at h
      · next hbyte =>
          cases h
          exact .bytes hdefinition hfind hbyte
      · next hbyte =>
          obtain ⟨b, hb, h⟩ := bind_ok h
          cases h
          exact .sequence hdefinition hfind (by simpa using hbyte) hb
  | compact item =>
      simp only [hdefinition, entryAnnotation] at h
      obtain ⟨b, hb, h⟩ := bind_ok h
      cases h
      exact .compact hdefinition hb
  | bitSequence store order =>
      simp only [hdefinition, entryAnnotation] at h
      cases h
  | composite fields | variant alternatives =>
      simp only [hdefinition, entryAnnotation] at h
      exact structuredAnnotation_ok (by rw [hdefinition]; rfl) h

/-- The annotation that a descent gives is that of the entry, from annotations that it gives with
less room. -/
theorem annotationWithin_ok {depth : Nat} {room : Room} {id : TypeId} {a : Annotation}
    (h : s.annotationWithin depth room id = .ok a) :
    ∃ depth' room' e, s.registry.find? id = some e ∧ depth = depth' + 1 ∧
      AnnotationOf s (fun id a => s.annotationWithin depth' room' id = .ok a) e a := by
  cases depth with
  | zero => cases h
  | succ depth =>
      rw [annotationWithin] at h
      split at h
      · cases h
      · obtain ⟨e, he, h⟩ := bind_ok h
        exact ⟨depth, _, e, find_of_resolve he, rfl, entryAnnotation_ok h⟩

end Scope

/-! ### What holds of all annotations -/

/-- The types of the language and those that are imported. -/
def annotationWords : List String :=
  ["int", "bool", "str", "None", "bytes", "AccountId", "Hash", "InkLangError"]

def annotationHeads : List String :=
  ["Tuple", "List", "Compact", "Optional", "Result", "Dict"]

section
variable {P : Phrase → Prop} (hP : Phrase.Closed annotationWords annotationHeads P)
  {s : Scope} {qualifier : String}
  (hname : ∀ d ∈ s.declarations, P (.word (qualifier ++ d.name)))
  (happlied : ∀ d ∈ s.declarations, ∀ ps, (∀ p ∈ ps, P p) →
    P (subscriptPhrase (qualifier ++ d.name) ps))
include hP hname happlied

/-- What holds of the words of annotations and of declared types holds of an annotation if it does
of those it is made of. -/
theorem annotationPhrase_of_annotationOf {sub : TypeId → Annotation → Prop} {e : TypeEntry}
    {a : Annotation} (hsub : ∀ id b, sub id b → P (annotationPhrase qualifier b))
    (h : AnnotationOf s sub e a) : P (annotationPhrase qualifier a) := by
  have hitems {ids : List TypeId} {bs : List Annotation} (hbs : List.Forall₂ sub ids bs) :
      ∀ p ∈ annotationPhrases qualifier bs, P p := by
    rw [annotationPhrases_eq_map]
    refine List.forall_mem_map.mpr fun b hb => ?_
    obtain ⟨id, -, hid⟩ := forall₂_right hbs hb
    exact hsub id b hid
  cases h with
  | primitive =>
      rename_i p _
      cases p <;> exact hP.word (by decide)
  | unit | bytes | fixedBytes => exact hP.word (by decide)
  | tuple _ hbs => exact hP.group (by decide) (hitems hbs)
  | array _ _ _ hitem | sequence _ _ _ hitem | compact _ hitem | option _ _ hitem =>
      exact hP.one (by decide) (hsub _ _ hitem)
  | reserved =>
      rename_i r _ _
      cases r <;> exact hP.word (by decide)
  | result _ _ hfirst hsecond | map _ _ hfirst hsecond =>
      exact hP.two (by decide) (hsub _ _ hfirst) (hsub _ _ hsecond)
  | @declared d as _ hnamed harguments =>
      cases hnamed with
      | declared _ hd =>
          have hmem := List.mem_of_find?_eq_some hd
          cases as with
          | nil => exact hname d hmem
          | cons a rest =>
              rw [annotationPhrase]
              · exact happlied d hmem _ (hitems harguments)
              · exact List.cons_ne_nil a rest

theorem annotationPhrase_of_declared {depth : Nat} {room : Room} {id : TypeId} {a : Annotation}
    (h : s.annotationWithin depth room id = .ok a) : P (annotationPhrase qualifier a) := by
  induction depth generalizing room id a with
  | zero => cases h
  | succ depth ih =>
      obtain ⟨depth', room', e, -, hdepth, ha⟩ := Scope.annotationWithin_ok h
      cases hdepth
      exact annotationPhrase_of_annotationOf hP hname happlied (fun _ _ hb => ih hb) ha

end

end InkBindings.Bindings
