import InkBindings.Metadata.Reading
import InkBindings.Proofs.Fallible

/-!
When a document is refused with an error that is not one of metadata. In a value only the bodies of
definitions can do that: one that has to be an object and is not, and an infinite number where an
integer is asked for. A text may hold a numeral that is too long besides, or be nested too deeply,
and bytes may be no text.
-/

namespace InkBindings.Metadata

def ReadFailure.IsMetadata (f : ReadFailure) : Prop :=
  ∃ e, f = .metadata e

/-- The computation fails, and with an error that is not one of metadata. -/
def Leaks {ε α : Type} (lift : ReadFailure → ε) (x : Except ε α) (f : ReadFailure) : Prop :=
  x = .error (lift f) ∧ ¬ f.IsMetadata

section
variable {ε α β : Type} {lift : ReadFailure → ε} {f : ReadFailure}

theorem not_leaks_ok (a : α) : ¬ Leaks lift (.ok a) f :=
  fun h => nomatch h.1

theorem leaks_bind {x : Except ε α} {g : α → Except ε β} :
    Leaks lift (x >>= g) f ↔ Leaks lift x f ∨ ∃ a, x = .ok a ∧ Leaks lift (g a) f := by
  rw [Leaks, bind_error_iff, or_and_right, ← exists_and_right]
  simp only [and_assoc, Leaks]

theorem leaks_map {x : Except ε α} {g : α → β} : Leaks lift (g <$> x) f ↔ Leaks lift x f := by
  rw [map_eq_pure_bind, leaks_bind]
  exact or_iff_left fun ⟨a, _, h⟩ => not_leaks_ok (g a) h

theorem leaks_mapM {g : α → Except ε β} {as : List α} :
    Leaks lift (as.mapM g) f ↔ ∃ before a after, as = before ++ a :: after ∧
      (∀ x ∈ before, ∃ b, g x = .ok b) ∧ Leaks lift (g a) f := by
  simp only [Leaks, mapM_error_iff, ← exists_and_right, and_assoc]

end

/-! ### What a definition is read by -/

def IsInfinite (j : Json) : Prop :=
  ∃ negative, j = .float (.infinity negative)

section
variable {f : ReadFailure}

theorem leaks_integer {j : Json} :
    Leaks .other (integer j) f ↔ IsInfinite j ∧ f = .infiniteNumber := by
  constructor
  · rintro ⟨h, hf⟩
    cases j with
    | float x =>
        cases x with
        | infinity negative =>
            cases h
            exact ⟨⟨negative, rfl⟩, rfl⟩
        | nan => cases h
        | finite negative mantissa exponent => cases h
    | str s =>
        simp only [integer] at h
        split at h <;> cases h
    | _ => cases h
  · rintro ⟨⟨negative, rfl⟩, rfl⟩
    exact ⟨rfl, fun ⟨_, h⟩ => nomatch h⟩

theorem not_leaks_parts {j : Json} : ¬ Leaks .other (parts j) f := by
  rintro ⟨h, -⟩
  cases j <;> cases h

theorem not_leaks_bodyMember {body : Json} {name : String} :
    ¬ Leaks .other (bodyMember body name) f := by
  rintro ⟨h, -⟩
  unfold bodyMember at h
  split at h
  · split at h <;> cases h
  all_goals cases h

theorem not_leaks_checkPart {α : Type} {model : String} {check : Check α} {j : Json} :
    ¬ Leaks .other (checkPart model check j) f := by
  rintro ⟨h, -⟩
  unfold checkPart at h
  split at h <;> cases h

theorem not_leaks_fieldsOf {id : TypeId} {context : String} {components : List Document.Component} :
    ¬ Leaks .other (fieldsOf id context components) f := by
  rintro ⟨h, hf⟩
  simp only [fieldsOf] at h
  split at h
  · cases h
  · split at h
    · cases h
    · cases h
      exact hf ⟨_, rfl⟩

theorem not_leaks_alternativeOf {id : TypeId} {v : Document.Variant} :
    ¬ Leaks .other (alternativeOf id v) f := by
  simp only [alternativeOf, bind_pure_comp, leaks_map]
  exact not_leaks_fieldsOf

theorem not_leaks_readPrimitive {id : TypeId} {body : Json} :
    ¬ Leaks .other (readPrimitive id body) f := by
  rintro ⟨h, hf⟩
  simp only [readPrimitive] at h
  split at h
  · cases h
  · cases h
    exact hf ⟨_, rfl⟩

theorem leaks_bodyParts {body : Json} {name : String} :
    Leaks .other (bodyParts body name) f ↔ body.isPresent = true ∧
      (∀ members, body ≠ .object members) ∧ f = .bodyNotAnObject body.typeName := by
  unfold bodyParts
  split
  · rename_i hpresent
    split
    · rename_i members
      refine iff_of_false not_leaks_parts fun h => h.2.1 members rfl
    · rename_i hother
      constructor
      · rintro ⟨h, -⟩
        cases h
        exact ⟨hpresent, hother, rfl⟩
      · rintro ⟨-, -, rfl⟩
        exact ⟨rfl, fun ⟨_, h⟩ => nomatch h⟩
  · rename_i habsent
    exact iff_of_false (not_leaks_ok _) fun h => habsent h.1

/-- The members of a body that are read as integers, in the order in which they are read. -/
def numbered : String → List String
  | "array" => ["type", "len"]
  | "sequence" | "compact" => ["type"]
  | "bitsequence" => ["bit_store_type", "bit_order_type"]
  | _ => []

/-- The member is there and is read as an integer. -/
def IsNumber (members : Json.Members) (name : String) : Prop :=
  ∃ j n, Json.member? members name = some j ∧ integer j = .ok n

/-- The body of a definition of this kind is refused with this error, which is not one of
metadata. -/
inductive Escapes (kind : String) (body : Json) : ReadFailure → Prop
  | body : kind = "composite" ∨ kind = "variant" → body.isPresent = true →
      (∀ members, body ≠ .object members) → Escapes kind body (.bodyNotAnObject body.typeName)
  | item {before j after} : kind = "tuple" → body = .array (before ++ j :: after) →
      (∀ x ∈ before, ∃ n, integer x = .ok n) → IsInfinite j → Escapes kind body .infiniteNumber
  | number {members before name j after} : body = .object members →
      numbered kind = before ++ name :: after → (∀ n ∈ before, IsNumber members n) →
      Json.member? members name = some j → IsInfinite j → Escapes kind body .infiniteNumber

/-- The members of the body, read as integers. -/
def readNumbers (body : Json) (names : List String) : Except BodyFailure (List Int) :=
  names.mapM fun name => bodyMember body name >>= integer

theorem bodyMember_ok_iff {body : Json} {name : String} {j : Json} :
    bodyMember body name = .ok j ↔
      ∃ members, body = .object members ∧ Json.member? members name = some j := by
  cases body with
  | object members =>
      simp only [bodyMember]
      cases h : Json.member? members name <;> simp [h]
  | _ => simp [bodyMember]

theorem leaks_readNumbers {body : Json} {names : List String} :
    Leaks .other (readNumbers body names) f ↔ f = .infiniteNumber ∧
      ∃ members before name j after, body = .object members ∧ names = before ++ name :: after ∧
        (∀ n ∈ before, IsNumber members n) ∧ Json.member? members name = some j ∧
        IsInfinite j := by
  rw [readNumbers, leaks_mapM]
  simp only [leaks_bind, not_leaks_bodyMember, false_or, leaks_integer, bodyMember_ok_iff]
  constructor
  · rintro ⟨before, name, after, hnames, hbefore, j, ⟨members, rfl, hj⟩, hinfinite, rfl⟩
    refine ⟨rfl, members, before, name, j, after, rfl, hnames, fun n hn => ?_, hj, hinfinite⟩
    obtain ⟨k, hk⟩ := hbefore n hn
    obtain ⟨j', hj', hk⟩ := bind_ok hk
    obtain ⟨_, heq, hj'⟩ := bodyMember_ok_iff.mp hj'
    cases heq
    exact ⟨j', k, hj', hk⟩
  · rintro ⟨rfl, members, before, name, j, after, rfl, hnames, hbefore, hj, hinfinite⟩
    refine ⟨before, name, after, hnames, fun n hn => ?_, j, ⟨members, rfl, hj⟩, hinfinite, rfl⟩
    obtain ⟨j', k, hj', hk⟩ := hbefore n hn
    exact ⟨k, (bind_of_ok (bodyMember_ok_iff.mpr ⟨members, rfl, hj'⟩) _).trans hk⟩

theorem leaks_integers {body : Json} :
    Leaks .other (parts body >>= fun items => items.mapM integer) f ↔ f = .infiniteNumber ∧
      ∃ before j after, body = .array (before ++ j :: after) ∧
        (∀ x ∈ before, ∃ n, integer x = .ok n) ∧ IsInfinite j := by
  simp only [leaks_bind, not_leaks_parts, false_or, leaks_mapM, leaks_integer]
  constructor
  · rintro ⟨items, hitems, before, j, after, rfl, hbefore, hinfinite, rfl⟩
    refine ⟨rfl, before, j, after, ?_, hbefore, hinfinite⟩
    obtain ⟨negative, rfl⟩ := hinfinite
    cases body with
    | array items =>
        cases hitems
        rfl
    | str s =>
        have hmem : Json.float (.infinity negative) ∈
            s.toList.map fun c => Json.str (String.singleton c) := by
          rw [Except.ok.inj hitems]
          simp
        simp at hmem
    | object members =>
        have hmem : Json.float (.infinity negative) ∈ members.map fun m => Json.str m.1 := by
          rw [Except.ok.inj hitems]
          simp
        simp at hmem
    | _ => cases hitems
  · rintro ⟨rfl, before, j, after, rfl, hbefore, hinfinite⟩
    exact ⟨_, rfl, before, j, after, rfl, hbefore, hinfinite, rfl⟩

/-- An object is asked for, and its parts are read with errors of metadata only. -/
theorem leaks_of_bodyParts {α : Type} {body : Json} {name : String}
    {g : List Json → Except BodyFailure α} (hg : ∀ js, ¬ Leaks .other (g js) f) :
    Leaks .other (bodyParts body name >>= g) f ↔ body.isPresent = true ∧
      (∀ members, body ≠ .object members) ∧ f = .bodyNotAnObject body.typeName := by
  rw [leaks_bind, leaks_bodyParts]
  exact or_iff_left fun ⟨js, _, h⟩ => hg js h

theorem not_leaks_mapM {α β : Type} {g : α → Except BodyFailure β} {as : List α}
    (hg : ∀ a, ¬ Leaks .other (g a) f) : ¬ Leaks .other (as.mapM g) f := by
  rw [leaks_mapM]
  rintro ⟨before, a, after, -, -, h⟩
  exact hg a h

/-! ### Definitions -/

/-- A kind of definition is read in one of three ways. -/
theorem escapes_iff {kind : String} {body : Json} :
    Escapes kind body f ↔
      (kind = "composite" ∨ kind = "variant") ∧ body.isPresent = true ∧
        (∀ members, body ≠ .object members) ∧ f = .bodyNotAnObject body.typeName ∨
      kind = "tuple" ∧ Leaks .other (parts body >>= fun items => items.mapM integer) f ∨
      Leaks .other (readNumbers body (numbered kind)) f := by
  rw [leaks_integers, leaks_readNumbers]
  constructor
  · rintro (⟨hkind, hpresent, hother⟩ | ⟨hkind, hbody, hbefore, hj⟩ |
      ⟨hbody, hnames, hbefore, hj, hinfinite⟩)
    · exact .inl ⟨hkind, hpresent, hother, rfl⟩
    · exact .inr (.inl ⟨hkind, rfl, _, _, _, hbody, hbefore, hj⟩)
    · exact .inr (.inr ⟨rfl, _, _, _, _, _, hbody, hnames, hbefore, hj, hinfinite⟩)
  · rintro (⟨hkind, hpresent, hother, rfl⟩ | ⟨hkind, rfl, _, _, _, hbody, hbefore, hj⟩ |
      ⟨rfl, _, _, _, _, _, hbody, hnames, hbefore, hj, hinfinite⟩)
    · exact .body hkind hpresent hother
    · exact .item hkind hbody hbefore hj
    · exact .number hbody hnames hbefore hj hinfinite

theorem not_leaks_readNumbers_nil {body : Json} : ¬ Leaks .other (readNumbers body []) f :=
  not_leaks_ok []

theorem leaks_readBody {id : TypeId} {kind : String} {body : Json} :
    Leaks .other (readBody id kind body) f ↔ Escapes kind body f := by
  rw [escapes_iff]
  unfold readBody
  split
  · -- primitive
    simp [numbered, not_leaks_readNumbers_nil, not_leaks_readPrimitive]
  · -- tuple
    simp [numbered, not_leaks_readNumbers_nil, leaks_bind, leaks_map]
  · -- array
    simp [numbered, readNumbers, List.mapM_cons, leaks_bind, leaks_map]
  · -- sequence
    simp [numbered, readNumbers, List.mapM_cons, leaks_bind, leaks_map]
  · -- compact
    simp [numbered, readNumbers, List.mapM_cons, leaks_bind, leaks_map]
  · -- composite
    have hparts (js : List Json) : ¬ Leaks .other
        (js.mapM (checkPart Check.componentModel Check.component)) f :=
      not_leaks_mapM fun _ => not_leaks_checkPart
    rw [leaks_of_bodyParts]
    · simp [numbered, not_leaks_readNumbers_nil]
    · simp [leaks_bind, leaks_map, hparts, not_leaks_fieldsOf]
  · -- variant
    have hparts (js : List Json) : ¬ Leaks .other
        (js.mapM (checkPart Check.variantModel Check.variant)) f :=
      not_leaks_mapM fun _ => not_leaks_checkPart
    have halternatives (vs : List Document.Variant) : ¬ Leaks .other
        (vs.mapM (alternativeOf id)) f :=
      not_leaks_mapM fun _ => not_leaks_alternativeOf
    rw [leaks_of_bodyParts]
    · simp [numbered, not_leaks_readNumbers_nil]
    · simp [leaks_bind, leaks_map, hparts, halternatives]
  · -- bit sequence
    simp [numbered, readNumbers, List.mapM_cons, leaks_bind, leaks_map]
  · -- another kind
    rename_i hprimitive htuple harray hsequence hcompact hcomposite hvariant hbits
    have hnumbered : numbered kind = [] := by
      unfold numbered
      split <;> first | contradiction | rfl
    rw [hnumbered]
    refine iff_of_false (fun h => h.2 ?_) ?_
    · exact ⟨_, BodyFailure.other.inj (Except.error.inj h.1).symm⟩
    · rintro (⟨h | h, -⟩ | ⟨h, -⟩ | h)
      · exact hcomposite h
      · exact hvariant h
      · exact htuple h
      · exact not_leaks_readNumbers_nil h

theorem leaks_readDefinition {typeId : TypeId} {definition : Json.Members} :
    Leaks id (readDefinition typeId definition) f ↔
      ∃ kind body, definition = [(kind, body)] ∧ Escapes kind body f := by
  unfold readDefinition
  split
  · rename_i kind body
    have hescapes : Leaks .other (readBody typeId kind body) f ↔ Escapes kind body f :=
      leaks_readBody
    have hsingle : (∃ kind' body', [(kind, body)] = [(kind', body')] ∧ Escapes kind' body' f) ↔
        Escapes kind body f := by
      simp
    rw [hsingle, ← hescapes]
    cases readBody typeId kind body with
    | ok d => exact iff_of_false (not_leaks_ok d) (not_leaks_ok d)
    | error b =>
        cases b with
        | problem p =>
            refine iff_of_false (fun h => h.2 ?_) fun h => nomatch h.1
            exact ⟨_, (Except.error.inj h.1).symm⟩
        | other g => simp [Leaks]
  · rename_i hmany
    refine iff_of_false (fun h => h.2 ?_) ?_
    · exact ⟨_, (Except.error.inj h.1).symm⟩
    · rintro ⟨kind, body, rfl, -⟩
      exact hmany kind body rfl

/-- A type is refused with this error: all before it have been read, its id is new, and the body of
its definition escapes. -/
def TypeEscapes (seen : List TypeEntry) (items : List Document.TypeItem) (f : ReadFailure) : Prop :=
  ∃ before item after types kind body, items = before ++ item :: after ∧
    readTypes seen before = .ok types ∧ (∀ e ∈ types, e.id ≠ item.id) ∧
    item.type.definition = [(kind, body)] ∧ Escapes kind body f

theorem leaks_readTypes {seen : List TypeEntry} {items : List Document.TypeItem} :
    Leaks id (readTypes seen items) f ↔ TypeEscapes seen items f := by
  induction items generalizing seen with
  | nil =>
      refine iff_of_false (not_leaks_ok seen) ?_
      rintro ⟨before, item, after, _, _, _, h, -⟩
      simp at h
  | cons item rest ih =>
      rw [readTypes]
      split
      · rename_i hseen
        refine iff_of_false (fun h => h.2 ⟨_, (Except.error.inj h.1).symm⟩) ?_
        rintro ⟨before, item', after, types, kind, body, heq, htypes, hnew, -⟩
        cases before with
        | nil =>
            obtain ⟨rfl, rfl⟩ := List.cons_eq_cons.mp heq
            cases htypes
            obtain ⟨e, he, hid⟩ := List.any_eq_true.mp hseen
            exact hnew e he (of_decide_eq_true hid)
        | cons first before =>
            obtain ⟨rfl, rfl⟩ := List.cons_eq_cons.mp heq
            rw [readTypes, if_pos hseen] at htypes
            cases htypes
      · rename_i hnew
        rw [leaks_bind, leaks_readDefinition]
        simp only [ih]
        constructor
        · rintro (⟨kind, body, hdefinition, hescapes⟩ |
            ⟨d, hd, before, item', after, types, kind, body, rfl, htypes, hrest⟩)
          · refine ⟨[], item, rest, seen, kind, body, rfl, rfl, fun e he hid => hnew ?_,
              hdefinition, hescapes⟩
            exact List.any_eq_true.mpr ⟨e, he, decide_eq_true hid⟩
          · refine ⟨item :: before, item', after, types, kind, body, rfl, ?_, hrest⟩
            rw [readTypes, if_neg hnew, bind_of_ok hd, htypes]
        · rintro ⟨before, item', after, types, kind, body, heq, htypes, hrest⟩
          cases before with
          | nil =>
              obtain ⟨rfl, rfl⟩ := List.cons_eq_cons.mp heq
              exact .inl ⟨kind, body, hrest.2⟩
          | cons first before =>
              obtain ⟨rfl, rfl⟩ := List.cons_eq_cons.mp heq
              rw [readTypes, if_neg hnew] at htypes
              obtain ⟨d, hd, htypes⟩ := bind_ok htypes
              exact .inr ⟨d, hd, before, item', after, types, kind, body, rfl, htypes, hrest⟩

/-! ### Documents -/

theorem not_leaks_liftError {α : Type} {x : Except MetadataError α} :
    ¬ Leaks id (liftError x) f := by
  rintro ⟨h, hf⟩
  cases x with
  | ok a => cases h
  | error e => exact hf ⟨e, (Except.error.inj h).symm⟩

theorem not_leaks_checkVersion {version : Option Version} :
    ¬ Leaks id (checkVersion version) f := by
  rintro ⟨h, hf⟩
  unfold checkVersion at h
  split at h
  · cases h
  · split at h
    · cases h
    · exact hf ⟨_, (Except.error.inj h).symm⟩

theorem not_leaks_readEntries {list : String} {index : Nat} {items : List Document.EntryItem} :
    ¬ Leaks id (readEntries list index items) f := by
  induction items generalizing index with
  | nil => exact not_leaks_ok []
  | cons e rest ih =>
      simp [readEntries, readEntry, leaks_bind, leaks_map, not_leaks_liftError, ih]

theorem leaks_ofDocument {d : Document} :
    Leaks id (ofDocument d) f ↔ checkVersion d.version = .ok () ∧ TypeEscapes [] d.types f := by
  have hversion : (∃ u, checkVersion d.version = .ok u) ↔ checkVersion d.version = .ok () :=
    ⟨fun ⟨(), h⟩ => h, fun h => ⟨(), h⟩⟩
  simp [ofDocument, leaks_bind, leaks_map, not_leaks_checkVersion, leaks_readTypes,
    not_leaks_readEntries, not_leaks_liftError, hversion]

end

/-- The value is a metadata document by its shape, and has a type that is refused with this
error. -/
def ValueEscapes (j : Json) (f : ReadFailure) : Prop :=
  ∃ members d, j = .object members ∧ (∀ m ∈ members, m.1 ≠ "V3" ∧ m.1 ≠ "V1") ∧
    Check.document members = .ok d ∧ checkVersion d.version = .ok () ∧ TypeEscapes [] d.types f

theorem leaks_ofJson {j : Json} {f : ReadFailure} : Leaks id (ofJson j) f ↔ ValueEscapes j f := by
  unfold ofJson
  split
  · rename_i members
    split
    · rename_i hlegacy
      refine iff_of_false (fun h => h.2 ⟨_, (Except.error.inj h.1).symm⟩) ?_
      rintro ⟨_, _, heq, hcurrent, -⟩
      cases heq
      obtain ⟨m, hm, hname⟩ := List.any_eq_true.mp hlegacy
      simp [hcurrent m hm] at hname
    · rename_i hcurrent
      have hcurrent : ∀ m ∈ members, m.1 ≠ "V3" ∧ m.1 ≠ "V1" := by simpa using hcurrent
      split
      · rename_i d hd
        rw [leaks_ofDocument]
        constructor
        · exact fun h => ⟨members, d, rfl, hcurrent, hd, h⟩
        · rintro ⟨_, _, heq, -, hd', h⟩
          cases heq
          cases hd.symm.trans hd'
          exact h
      · rename_i hbad
        refine iff_of_false (fun h => h.2 ⟨_, (Except.error.inj h.1).symm⟩) ?_
        rintro ⟨_, _, heq, -, hd, -⟩
        cases heq
        cases hbad.symm.trans hd
  · rename_i hother
    refine iff_of_false (fun h => h.2 ⟨_, (Except.error.inj h.1).symm⟩) ?_
    rintro ⟨members, _, rfl, -⟩
    exact hother members rfl

/-- What is read from a text is refused with this error, or a limit of the reader is. -/
inductive ReadEscapes (r : Except Json.ReadError Json) : ReadFailure → Prop
  | value {j f} : r = .ok j → ValueEscapes j f → ReadEscapes r f
  | tooManyDigits {count} : r = .error (.tooManyDigits count) → ReadEscapes r (.tooManyDigits count)
  | tooDeep {container} : r = .error (.tooDeep container) → ReadEscapes r (.tooDeep container)

theorem leaks_ofRead {text : String} {r : Except Json.ReadError Json} {f : ReadFailure} :
    Leaks id (ofRead text r) f ↔ ReadEscapes r f := by
  unfold ofRead
  split
  · rename_i j
    rw [leaks_ofJson]
    refine ⟨.value rfl, ?_⟩
    rintro (⟨heq, h⟩ | heq | heq)
    · cases heq
      exact h
    · cases heq
    · cases heq
  · refine iff_of_false (fun h => h.2 ⟨_, (Except.error.inj h.1).symm⟩) ?_
    rintro (⟨heq, -⟩ | heq | heq) <;> cases heq
  · constructor
    · rintro ⟨h, -⟩
      cases h
      exact .tooManyDigits rfl
    · rintro (⟨heq, -⟩ | heq | heq)
      · cases heq
      · cases heq
        exact ⟨rfl, fun ⟨_, h⟩ => nomatch h⟩
      · cases heq
  · constructor
    · rintro ⟨h, -⟩
      cases h
      exact .tooDeep rfl
    · rintro (⟨heq, -⟩ | heq | heq)
      · cases heq
      · cases heq
      · cases heq
        exact ⟨rfl, fun ⟨_, h⟩ => nomatch h⟩

/-- A document as it is given. -/
inductive Given
  | value (j : Json)
  | text (s : String)
  | bytes (b : Bytes)

namespace Given

def read : Given → Except ReadFailure Metadata
  | .value j => ofJson j
  | .text s => ofText s
  | .bytes b => ofBytes b

/-- Reading the document fails with this error, which is not one of metadata: it is no text, is
written with a numeral that is too long or nested too deeply, or has a definition whose body
escapes. -/
inductive Escapes : Given → ReadFailure → Prop
  | value {j f} : ValueEscapes j f → Escapes (.value j) f
  | text {s f} : ReadEscapes (Json.read s) f → Escapes (.text s) f
  | undecodable {b} : Json.textOfBytes? b = none → Escapes (.bytes b) .undecodable
  | decoded {b s f} : Json.textOfBytes? b = some s →
      ReadEscapes (Json.readChars s.toList) f → Escapes (.bytes b) f

theorem leaks_read (d : Given) {f : ReadFailure} : Leaks id d.read f ↔ d.Escapes f := by
  cases d with
  | value j => exact leaks_ofJson.trans ⟨.value, fun | .value h => h⟩
  | text s => exact leaks_ofRead.trans ⟨.text, fun | .text h => h⟩
  | bytes b =>
      rw [read, ofBytes]
      split
      · rename_i s htext
        rw [leaks_ofRead]
        refine ⟨.decoded htext, ?_⟩
        rintro (_ | _ | hnone | ⟨hother, h⟩)
        · cases htext.symm.trans hnone
        · cases htext.symm.trans hother
          exact h
      · rename_i hnone
        constructor
        · rintro ⟨h, -⟩
          cases h
          exact .undecodable hnone
        · rintro (_ | _ | _ | ⟨hother, -⟩)
          · exact ⟨rfl, fun ⟨_, h⟩ => nomatch h⟩
          · cases hnone.symm.trans hother

end Given

/-- Metadata is read, or an error of metadata says why it is not. -/
def IsTold (x : Except ReadFailure Metadata) : Prop :=
  (∃ m, x = .ok m) ∨ ∃ e, x = .error (.metadata e)

theorem isTold_iff {x : Except ReadFailure Metadata} {p : ReadFailure → Prop}
    (h : ∀ f, Leaks id x f ↔ p f) : (IsTold x ↔ ∀ f, ¬ p f) ∧ ∀ f, p f → x = .error f := by
  refine ⟨?_, fun f hf => ((h f).mpr hf).1⟩
  simp only [← h]
  constructor
  · rintro (⟨m, rfl⟩ | ⟨e, rfl⟩) f hf
    · exact not_leaks_ok m hf
    · exact hf.2 ⟨e, (Except.error.inj hf.1).symm⟩
  · intro hf
    cases x with
    | ok m => exact .inl ⟨m, rfl⟩
    | error f =>
        by_cases hmetadata : f.IsMetadata
        · obtain ⟨e, rfl⟩ := hmetadata
          exact .inr ⟨e, rfl⟩
        · exact absurd ⟨rfl, hmetadata⟩ (hf f)

/-- A document with one type, which is defined by this. -/
def documentDefining (kind : String) (body : Json) : Json :=
  .object [("source", .object [("hash", .str "0x00")]), ("spec", .object []),
    ("types", .array [.object [("id", .int 0),
      ("type", .object [("def", .object [(kind, body)])])]])]

end InkBindings.Metadata
