import InkBindings.Proofs.Metadata.Escaping
import InkBindings.Proofs.Metadata.ReadBack

/-!
The ids and lengths in the definitions of tuples, arrays, sequences and compacts. Where a document
writes them as integers these are what is read. But anything that can be converted to an integer is
taken for one, and anything that can be gone through for a list; so what is read is what the
document writes just if nothing in it is converted and no length is negative.
-/

namespace InkBindings.Metadata

/-! ### Definitions as they are written -/

/-- A member of an object; other values have none. -/
def memberOf? (j : Json) (name : String) : Option Json :=
  match j with
  | .object members => Json.member? members name
  | _ => none

/-- The one member of the definition in an item of the types. -/
def definitionIn? (item : Json) : Option (String × Json) := do
  let type ← memberOf? item "type"
  match (memberOf? type "def").or (memberOf? type "definition") with
  | some (.object [definition]) => some definition
  | _ => none

def definitionsIn? (document : Json) : Option (List (String × Json)) :=
  match memberOf? document "types" with
  | some (.array items) => items.mapM definitionIn?
  | _ => none

namespace Given

def json? : Given → Option Json
  | .value j => some j
  | .text s => (Json.read s).toOption
  | .bytes b => (Json.textOfBytes? b).bind fun s => (Json.readChars s.toList).toOption

/-- The kinds and bodies of the definitions in the document. -/
def definitions? (d : Given) : Option (List (String × Json)) :=
  d.json?.bind definitionsIn?

end Given

/-! ### What bodies give -/

def containerKinds : List String := ["tuple", "array", "sequence", "compact"]

def Definition.isContainer : Definition → Bool
  | .tuple _ | .array _ _ | .sequence _ | .compact _ => true
  | _ => false

/-- What an integer can be read from: truth values count, numbers lose their fraction, and texts
are numerals. -/
inductive Denotes : Json → Int → Prop
  | int (n : Int) : Denotes (.int n) n
  | bool (b : Bool) : Denotes (.bool b) (if b then 1 else 0)
  | float {x n} : x.truncate? = some n → Denotes (.float x) n
  | text {s n} : Text.readInteger s = .ok n → Denotes (.str s) n

/-- What a definition is read from. The items of a tuple may be characters of a text or names of
members. -/
inductive Gives : String → Json → Definition → Prop
  | items {js ids} : List.Forall₂ Denotes js ids → Gives "tuple" (.array js) (.tuple ids)
  | characters {s ids} :
      List.Forall₂ Denotes (s.toList.map fun c => .str (String.singleton c)) ids →
      Gives "tuple" (.str s) (.tuple ids)
  | names {members ids} : List.Forall₂ Denotes (members.map fun m => .str m.1) ids →
      Gives "tuple" (.object members) (.tuple ids)
  | array {body j k item length} : memberOf? body "type" = some j → Denotes j item →
      memberOf? body "len" = some k → Denotes k length → Gives "array" body (.array item length)
  | sequence {body j item} : memberOf? body "type" = some j → Denotes j item →
      Gives "sequence" body (.sequence item)
  | compact {body j item} : memberOf? body "type" = some j → Denotes j item →
      Gives "compact" body (.compact item)
  | other {kind body d} : kind ∉ containerKinds → d.isContainer = false → Gives kind body d

/-- The ids and the length of the definition are the integers that the body writes, and the length
is none below zero. -/
def WritesExactly (body : Json) : Definition → Prop
  | .tuple ids => body = .array (ids.map .int)
  | .array item length => memberOf? body "type" = some (.int item) ∧
      memberOf? body "len" = some (.int length) ∧ 0 ≤ length
  | .sequence item | .compact item => memberOf? body "type" = some (.int item)
  | _ => True

/-- There is something else in the body than the integers it asks for, or a length below zero. -/
inductive Coerced (kind : String) : Json → Prop
  | characters (s : String) : kind = "tuple" → Coerced kind (.str s)
  | names (members : Json.Members) : kind = "tuple" → Coerced kind (.object members)
  | item {js j} : kind = "tuple" → j ∈ js → (∀ n, j ≠ .int n) → Coerced kind (.array js)
  | number {body name j} : kind ∈ containerKinds → name ∈ numbered kind →
      memberOf? body name = some j → (∀ n, j ≠ .int n) → Coerced kind body
  | negative {body n} : kind = "array" → memberOf? body "len" = some (.int n) → n < 0 →
      Coerced kind body

/-- Whenever the document is read, the ids and lengths of its containers are the integers it
writes. -/
def Given.ReadExactly (d : Given) : Prop :=
  ∀ m, d.read = .ok m → ∃ definitions, d.definitions? = some definitions ∧
    List.Forall₂ (fun b e => WritesExactly b.2 e.definition) definitions m.types

theorem integer_eq_ok_iff {j : Json} {n : Int} : integer j = .ok n ↔ Denotes j n := by
  constructor
  · intro h
    cases j with
    | bool b =>
        cases h
        exact .bool b
    | int k =>
        cases h
        exact .int n
    | float x =>
        simp only [integer] at h
        split at h
        · next k hk =>
            cases h
            exact .float hk
        · split at h <;> cases h
    | str s =>
        simp only [integer] at h
        split at h
        · next k hk =>
            cases h
            exact .text hk
        · cases h
        · cases h
    | _ => cases h
  · rintro (_ | _ | hx | hs)
    · rfl
    · rfl
    · simp only [integer, hx]
    · simp only [integer, hs]

theorem mapM_integer_eq_ok_iff {js : List Json} {ns : List Int} :
    js.mapM integer = .ok ns ↔ List.Forall₂ Denotes js ns := by
  constructor
  · exact fun h => (forall₂_of_mapM h).imp fun _ _ => integer_eq_ok_iff.mp
  · exact fun h => mapM_of_forall₂ (h.imp fun _ _ => integer_eq_ok_iff.mpr)

theorem bodyMember_eq_ok_iff {body : Json} {name : String} {j : Json} :
    bodyMember body name = .ok j ↔ memberOf? body name = some j := by
  rw [bodyMember_ok_iff]
  cases body <;> simp [memberOf?]

theorem BodyRead.gives {id : TypeId} {kind : String} {body : Json} {d : Definition}
    (h : BodyRead id body kind d) : Gives kind body d := by
  cases h with
  | tuple hitems hids =>
      rw [mapM_integer_eq_ok_iff] at hids
      cases body with
      | array js =>
          cases hitems
          exact .items hids
      | str s =>
          cases hitems
          exact .characters hids
      | object members =>
          cases hitems
          exact .names hids
      | _ => cases hitems
  | array hj hitem hk hlength =>
      exact .array (bodyMember_eq_ok_iff.mp hj) (integer_eq_ok_iff.mp hitem)
        (bodyMember_eq_ok_iff.mp hk) (integer_eq_ok_iff.mp hlength)
  | sequence hj hitem =>
      exact .sequence (bodyMember_eq_ok_iff.mp hj) (integer_eq_ok_iff.mp hitem)
  | compact hj hitem =>
      exact .compact (bodyMember_eq_ok_iff.mp hj) (integer_eq_ok_iff.mp hitem)
  | primitive | composite | variant | bitSequence => exact .other (by decide) rfl

theorem readBody_eq_ok_iff {id : TypeId} {kind : String} {body : Json} {d : Definition}
    (hkind : kind ∈ containerKinds) : readBody id kind body = .ok d ↔ Gives kind body d := by
  refine ⟨fun h => (readBody_ok h).gives, fun h => ?_⟩
  cases h with
  | items hids | characters hids | names hids =>
      rw [← mapM_integer_eq_ok_iff] at hids
      simp only [readBody, parts]
      rw [bind_of_ok rfl, bind_of_ok hids]
      rfl
  | array hj hitem hk hlength =>
      simp only [readBody]
      rw [bind_of_ok (bodyMember_eq_ok_iff.mpr hj),
        bind_of_ok (integer_eq_ok_iff.mpr hitem),
        bind_of_ok (bodyMember_eq_ok_iff.mpr hk),
        bind_of_ok (integer_eq_ok_iff.mpr hlength)]
      rfl
  | sequence hj hitem | compact hj hitem =>
      simp only [readBody]
      rw [bind_of_ok (bodyMember_eq_ok_iff.mpr hj),
        bind_of_ok (integer_eq_ok_iff.mpr hitem)]
      rfl
  | other hother _ => exact absurd hkind hother

/-! ### What is converted -/

theorem eq_map_int {js : List Json} {ns : List Int} (h : List.Forall₂ Denotes js ns)
    (hint : ∀ j ∈ js, ∃ n, j = .int n) : js = ns.map .int := by
  induction h with
  | nil => rfl
  | cons hfirst _ ih =>
      obtain ⟨⟨k, rfl⟩, hrest⟩ := List.forall_mem_cons.mp hint
      cases hfirst
      rw [List.map_cons, ih hrest]

theorem array_eq_iff {js : List Json} {ids : List TypeId} (h : List.Forall₂ Denotes js ids) :
    Json.array js = .array (ids.map .int) ↔ ¬ Coerced "tuple" (.array js) := by
  constructor
  · rintro heq (_ | _ | ⟨-, hj, hother⟩ | ⟨-, hname, -⟩ | ⟨hkind, -⟩)
    · rw [Json.array.inj heq] at hj
      obtain ⟨n, -, rfl⟩ := List.mem_map.mp hj
      exact hother n rfl
    · cases hname
    · exact absurd hkind (by decide)
  · intro hcoerced
    have hint : ∀ j ∈ js, ∃ n, j = .int n := by
      intro j hj
      by_contra hother
      exact hcoerced (.item rfl hj fun n hn => hother ⟨n, hn⟩)
    rw [eq_map_int h hint]

section
variable {kind name : String} {body j : Json} {n : Int}

/-- What stands for an integer is this integer, if the body is not coerced. -/
theorem member_of_not_coerced (h : ¬ Coerced kind body) (hkind : kind ∈ containerKinds)
    (hname : name ∈ numbered kind) (hj : memberOf? body name = some j) (hn : Denotes j n) :
    memberOf? body name = some (.int n) := by
  rw [hj, Option.some.injEq]
  by_contra hne
  refine h (.number hkind hname hj fun k hk => ?_)
  subst hk
  cases hn
  exact hne rfl

/-- Where there are no items only numbers can be coerced, and a length. -/
theorem not_coerced_of_numbers (hkind : kind ≠ "tuple")
    (hnumbers : ∀ name ∈ numbered kind, ∃ n, memberOf? body name = some (.int n))
    (hlength : kind = "array" → ∀ n, memberOf? body "len" = some (.int n) → 0 ≤ n) :
    ¬ Coerced kind body := by
  rintro (⟨_, h⟩ | ⟨_, h⟩ | ⟨h, -⟩ | ⟨-, hname, hj, hother⟩ | ⟨harray, hlen, hn⟩)
  · exact hkind h
  · exact hkind h
  · exact hkind h
  · obtain ⟨n, hn⟩ := hnumbers _ hname
    exact hother n (Option.some.inj (hj.symm.trans hn))
  · exact absurd (hlength harray _ hlen) (by omega)

/-- Sequences and compacts ask for one id and nothing else. -/
theorem reference_exact_iff (hkind : kind = "sequence" ∨ kind = "compact")
    (hj : memberOf? body "type" = some j) (hn : Denotes j n) :
    memberOf? body "type" = some (.int n) ↔ ¬ Coerced kind body := by
  have hnumbered : numbered kind = ["type"] := by
    obtain rfl | rfl := hkind <;> rfl
  constructor
  · intro htype
    refine not_coerced_of_numbers ?_ (fun name hname => ⟨n, ?_⟩) ?_
    · obtain rfl | rfl := hkind <;> decide
    · rw [hnumbered, List.mem_singleton] at hname
      rwa [hname]
    · rintro rfl
      exact absurd hkind (by decide)
  · refine fun hcoerced => member_of_not_coerced hcoerced ?_ ?_ hj hn
    · obtain rfl | rfl := hkind <;> decide
    · rw [hnumbered]
      exact List.mem_singleton_self _

theorem array_exact_iff {k : Json} {length : Int} (hj : memberOf? body "type" = some j)
    (hn : Denotes j n) (hk : memberOf? body "len" = some k) (hlength : Denotes k length) :
    (memberOf? body "type" = some (.int n) ∧ memberOf? body "len" = some (.int length) ∧
      0 ≤ length) ↔ ¬ Coerced "array" body := by
  constructor
  · rintro ⟨htype, hlen, hle⟩
    refine not_coerced_of_numbers (by decide) (fun name hname => ?_) fun _ m hm => ?_
    · obtain rfl | rfl : name = "type" ∨ name = "len" := by simpa [numbered] using hname
      · exact ⟨n, htype⟩
      · exact ⟨length, hlen⟩
    · cases hlen.symm.trans hm
      exact hle
  · intro hcoerced
    have htype := member_of_not_coerced hcoerced (by decide) (by decide) hj hn
    have hlen := member_of_not_coerced hcoerced (by decide) (by decide) hk hlength
    refine ⟨htype, hlen, ?_⟩
    by_contra hneg
    exact hcoerced (.negative rfl hlen (by omega))

end

/-- What a body gives is what it writes, just if nothing in it is converted. -/
theorem writesExactly_iff {kind : String} {body : Json} {d : Definition} (h : Gives kind body d) :
    WritesExactly body d ↔ ¬ Coerced kind body := by
  cases h with
  | items hids => exact array_eq_iff hids
  | characters _ =>
      refine iff_of_false (fun heq => ?_) fun h => h (.characters _ rfl)
      cases heq
  | names _ =>
      refine iff_of_false (fun heq => ?_) fun h => h (.names _ rfl)
      cases heq
  | array hj hitem hk hlength => exact array_exact_iff hj hitem hk hlength
  | sequence hj hitem => exact reference_exact_iff (.inl rfl) hj hitem
  | compact hj hitem => exact reference_exact_iff (.inr rfl) hj hitem
  | other hkind hd =>
      refine iff_of_true ?_ ?_
      · cases d <;> trivial
      · rintro (⟨_, rfl⟩ | ⟨_, rfl⟩ | ⟨rfl, -⟩ | ⟨hmem, -⟩ | ⟨rfl, -⟩)
        · exact hkind (by decide)
        · exact hkind (by decide)
        · exact hkind (by decide)
        · exact hkind hmem
        · exact hkind (by decide)

/-! ### From the document to its types -/

theorem gives_of_readDefinition {id : TypeId} {members : Json.Members} {d : Definition}
    (h : readDefinition id members = .ok d) : ∃ b, members = [b] ∧ Gives b.1 b.2 d := by
  unfold readDefinition at h
  split at h
  · next kind body =>
      split at h
      · next hbody =>
          cases h
          exact ⟨(kind, body), rfl, (readBody_ok hbody).gives⟩
      · cases h
      · cases h
  · cases h

theorem memberOf?_of_findMember {members : Json.Members} {name found : String} {j : Json}
    (h : Check.findMember? members [name] = some (found, j)) :
    memberOf? (.object members) name = some j := by
  rw [memberOf?]
  cases hmember : Json.member? members name with
  | none => simp [Check.findMember?, hmember] at h
  | some k =>
      obtain ⟨-, rfl⟩ : name = found ∧ k = j := by simpa [Check.findMember?, hmember] using h
      rfl

theorem memberOf?_or_of_findMember {members : Json.Members} {name other found : String} {j : Json}
    (h : Check.findMember? members [name, other] = some (found, j)) :
    (memberOf? (.object members) name).or (memberOf? (.object members) other) = some j := by
  simp only [memberOf?]
  cases hmember : Json.member? members name with
  | none =>
      have hother : Check.findMember? members [other] = some (found, j) := by
        simpa [Check.findMember?, hmember] using h
      exact memberOf?_of_findMember hother
  | some k =>
      obtain ⟨-, rfl⟩ : name = found ∧ k = j := by simpa [Check.findMember?, hmember] using h
      rfl

theorem definition_of_typeNode {j : Json} {node : Document.TypeNode}
    (h : Check.typeNode j = .ok node) :
    (memberOf? j "def").or (memberOf? j "definition") = some (.object node.definition) := by
  obtain ⟨members, rfl, hmembers⟩ := Check.of_record_ok h
  obtain ⟨_, docs, hrest, -, hnode⟩ := Check.of_seq_ok hmembers
  obtain ⟨_, definition, hparameters, hdefinition, rfl⟩ := Check.of_seq_ok hrest
  obtain ⟨_, parameters, hpath, -, rfl⟩ := Check.of_seq_ok hparameters
  obtain ⟨path, -, rfl⟩ := Check.of_map_ok hpath
  subst hnode
  obtain ⟨name, k, hfind, hobject⟩ := Check.of_required_ok hdefinition
  rw [memberOf?_or_of_findMember hfind]
  cases k with
  | object definition =>
      cases hobject
      rfl
  | _ => cases hobject

theorem definitionIn?_of_typeItem {j : Json} {item : Document.TypeItem} {b : String × Json}
    (h : Check.typeItem j = .ok item) (hb : item.type.definition = [b]) :
    definitionIn? j = some b := by
  obtain ⟨members, rfl, hmembers⟩ := Check.of_record_ok h
  obtain ⟨_, node, hid, hnode, hitem⟩ := Check.of_seq_ok hmembers
  obtain ⟨id, -, rfl⟩ := Check.of_map_ok hid
  subst hitem
  obtain ⟨name, type, htype, hnode⟩ := Check.of_required_ok hnode
  have hdefinition : node.definition = [b] := hb
  simp only [definitionIn?, memberOf?_of_findMember htype, Option.bind_eq_bind, Option.bind_some,
    definition_of_typeNode hnode, hdefinition]

theorem exists_items {members : Json.Members} {d : Document} (h : Check.document members = .ok d) :
    ∃ js, memberOf? (.object members) "types" = some (.array js) ∧
      List.Forall₂ (fun j item => Check.typeItem j = .ok item) js d.types := by
  obtain ⟨_, spec, hrest, -, hd⟩ := Check.of_seq_ok h
  obtain ⟨_, types, hname, htypes, rfl⟩ := Check.of_seq_ok hrest
  obtain ⟨_, contract, hhash, -, rfl⟩ := Check.of_seq_ok hname
  obtain ⟨_, hash, hversion, -, rfl⟩ := Check.of_seq_ok hhash
  obtain ⟨version, -, rfl⟩ := Check.of_map_ok hversion
  subst hd
  obtain ⟨name, j, hfind, hlist⟩ := Check.of_required_ok htypes
  obtain ⟨js, rfl, hitems⟩ := Check.of_list_ok hlist
  exact ⟨js, memberOf?_of_findMember hfind, hitems⟩

/-- The types are read one by one, each from the definition in its item. -/
theorem definitions_of_readTypes {seen types : List TypeEntry} {items : List Document.TypeItem}
    (h : readTypes seen items = .ok types) : ∃ read, types = seen ++ read ∧
      List.Forall₂ (fun item e => readDefinition item.id item.type.definition = .ok e.definition)
        items read := by
  induction items generalizing seen with
  | nil =>
      cases h
      exact ⟨[], (List.append_nil _).symm, .nil⟩
  | cons item rest ih =>
      rw [readTypes] at h
      split at h
      · cases h
      · obtain ⟨definition, hdefinition, h⟩ := bind_ok h
        obtain ⟨read, rfl, hread⟩ := ih h
        exact ⟨_ :: read, List.append_assoc .., .cons hdefinition hread⟩

/-- The definitions in the items are those that the types are read from. -/
theorem gives_of_items {js : List Json} {items : List Document.TypeItem} {es : List TypeEntry}
    (hitems : List.Forall₂ (fun j item => Check.typeItem j = .ok item) js items)
    (hread : List.Forall₂ (fun (item : Document.TypeItem) (e : TypeEntry) =>
      readDefinition item.id item.type.definition = .ok e.definition) items es) :
    ∃ bs, js.mapM definitionIn? = some bs ∧
      List.Forall₂ (fun b e => Gives b.1 b.2 e.definition) bs es := by
  induction hitems generalizing es with
  | nil =>
      cases hread
      exact ⟨[], rfl, .nil⟩
  | cons hitem _ ih =>
      cases hread with
      | cons hdefinition hrest =>
          obtain ⟨b, hb, hgives⟩ := gives_of_readDefinition hdefinition
          obtain ⟨bs, hbs, hall⟩ := ih hrest
          refine ⟨b :: bs, ?_, .cons hgives hall⟩
          rw [List.mapM_cons, definitionIn?_of_typeItem hitem hb, hbs]
          rfl

theorem gives_of_ofJson {j : Json} {m : Metadata} (h : ofJson j = .ok m) :
    ∃ bs, definitionsIn? j = some bs ∧
      List.Forall₂ (fun b e => Gives b.1 b.2 e.definition) bs m.types := by
  unfold ofJson at h
  split at h
  · next members =>
      split at h
      · cases h
      · split at h
        · next d hd =>
            obtain ⟨js, hjs, hitems⟩ := exists_items hd
            obtain ⟨_, -, h⟩ := bind_ok h
            obtain ⟨types, htypes, h⟩ := bind_ok h
            obtain ⟨constructors, -, h⟩ := bind_ok h
            obtain ⟨messages, -, h⟩ := bind_ok h
            obtain ⟨codeHash, -, h⟩ := bind_ok h
            cases h
            obtain ⟨read, rfl, hread⟩ := definitions_of_readTypes htypes
            obtain ⟨bs, hbs, hgives⟩ := gives_of_items hitems hread
            refine ⟨bs, ?_, hgives⟩
            simp only [definitionsIn?, hjs, hbs]
        · cases h
  · cases h

theorem Given.exists_of_read {d : Given} {m : Metadata} (h : d.read = .ok m) :
    ∃ j, d.json? = some j ∧ ofJson j = .ok m := by
  have hread {text : String} {r : Except Json.ReadError Json} (h : ofRead text r = .ok m) :
      ∃ j, r.toOption = some j ∧ ofJson j = .ok m := by
    unfold ofRead at h
    split at h
    · exact ⟨_, rfl, h⟩
    · cases h
    · cases h
    · cases h
  cases d with
  | value j => exact ⟨j, rfl, h⟩
  | text s => exact hread h
  | bytes b =>
      rw [read, ofBytes] at h
      split at h
      · next s hs =>
          obtain ⟨j, hj, hm⟩ := hread h
          refine ⟨j, ?_, hm⟩
          rw [json?, hs, Option.bind_some, hj]
      · cases h

theorem Given.gives_of_read {d : Given} {m : Metadata} (h : d.read = .ok m) :
    ∃ bs, d.definitions? = some bs ∧
      List.Forall₂ (fun b e => Gives b.1 b.2 e.definition) bs m.types := by
  obtain ⟨j, hj, hm⟩ := Given.exists_of_read h
  obtain ⟨bs, hbs, hgives⟩ := gives_of_ofJson hm
  refine ⟨bs, ?_, hgives⟩
  rw [definitions?, hj, Option.bind_some, hbs]

theorem forall₂_writesExactly_iff {bs : List (String × Json)} {es : List TypeEntry}
    (h : List.Forall₂ (fun b e => Gives b.1 b.2 e.definition) bs es) :
    List.Forall₂ (fun b e => WritesExactly b.2 e.definition) bs es ↔
      ∀ b ∈ bs, ¬ Coerced b.1 b.2 := by
  induction h with
  | nil => exact ⟨nofun, fun _ => .nil⟩
  | cons hgives _ ih =>
      rw [List.forall₂_cons, List.forall_mem_cons, writesExactly_iff hgives, ih]

theorem Given.readExactly_iff {d : Given} :
    d.ReadExactly ↔ ∀ m definitions, d.read = .ok m → d.definitions? = some definitions →
      ∀ b ∈ definitions, ¬ Coerced b.1 b.2 := by
  refine ⟨fun h m bs hm hbs => ?_, fun h m hm => ?_⟩
  · obtain ⟨_, hdefinitions, hexact⟩ := h m hm
    obtain ⟨_, hsame, hgives⟩ := Given.gives_of_read hm
    cases hbs.symm.trans hdefinitions
    cases hbs.symm.trans hsame
    exact (forall₂_writesExactly_iff hgives).mp hexact
  · obtain ⟨bs, hbs, hgives⟩ := Given.gives_of_read hm
    exact ⟨bs, hbs, (forall₂_writesExactly_iff hgives).mpr (h m bs hm hbs)⟩

/-- Each definition of a document that is read gives what it is read as. These are the ids and
lengths that are written, just if none of the definitions is coerced; and the definition of a
container is refused only if it gives nothing. -/
theorem containers_read (d : Given) :
    (∀ m, d.read = .ok m → ∃ definitions, d.definitions? = some definitions ∧
      List.Forall₂ (fun b e => Gives b.1 b.2 e.definition) definitions m.types) ∧
    (d.ReadExactly ↔ ∀ m definitions, d.read = .ok m → d.definitions? = some definitions →
      ∀ b ∈ definitions, ¬ Coerced b.1 b.2) ∧
    ∀ id kind body definition, kind ∈ containerKinds →
      (readBody id kind body = .ok definition ↔ Gives kind body definition) :=
  ⟨fun _ => Given.gives_of_read, Given.readExactly_iff, fun _ _ _ _ => readBody_eq_ok_iff⟩

/-- A document with two types: bytes, and what is defined by this. -/
def documentContaining (kind : String) (body : Json) : Given :=
  .value (.object [("source", .object [("hash", .str ("0x" ++ Hex.encode (List.replicate 32 0)))]),
    ("spec", .object []), ("types", .array [
      .object [("id", .int 0), ("type", .object [("def", .object [("primitive", .str "u8")])])],
      .object [("id", .int 1), ("type", .object [("def", .object [(kind, body)])])]])])

theorem read_documentContaining {kind : String} {body : Json} {definition : Definition}
    (h : readBody 1 kind body = .ok definition) :
    (documentContaining kind body).read = .ok ⟨List.replicate 32 0,
      [⟨0, .primitive (.int ⟨false, .w8⟩), [], [], []⟩, ⟨1, definition, [], [], []⟩],
      [], [], [], none⟩ := by
  have hfirst : readDefinition 0 [("primitive", .str "u8")] =
      .ok (.primitive (.int ⟨false, .w8⟩)) := rfl
  have hhash : readHex "source.hash" (some hashSize)
      ("0x" ++ Hex.encode (List.replicate 32 0)) = .ok (List.replicate 32 0) :=
    readHex_written "source.hash" rfl
  change ofDocument ⟨none, "0x" ++ Hex.encode (List.replicate 32 0), none,
    [⟨0, ⟨[], [], [("primitive", .str "u8")], []⟩⟩, ⟨1, ⟨[], [], [(kind, body)], []⟩⟩],
    ⟨[], [], []⟩⟩ = _
  simp only [ofDocument, readTypes, readEntries, hfirst, readDefinition_of_body h, hhash]
  rfl

/-- A document that is read and has a definition that is coerced is not read exactly. -/
theorem not_readExactly_of_coerced {kind : String} {body : Json} {definition : Definition}
    (h : Coerced kind body) (hbody : readBody 1 kind body = .ok definition) :
    ¬ (documentContaining kind body).ReadExactly := by
  exact fun hexact => Given.readExactly_iff.mp hexact _ _ (read_documentContaining hbody) rfl
    (kind, body) (List.mem_cons_of_mem _ List.mem_cons_self) h

def twoAndAHalf : Json :=
  .float (.finite false (5 * 2 ^ 50) (-51))

theorem not_all_read_exactly :
    ¬ (documentContaining "array"
      (.object [("type", .int 0), ("len", twoAndAHalf)])).ReadExactly ∧
    ¬ (documentContaining "array" (.object [("type", .int 0), ("len", .int (-1))])).ReadExactly ∧
    ¬ (documentContaining "sequence" (.object [("type", twoAndAHalf)])).ReadExactly ∧
    ¬ (documentContaining "tuple" (.str "00")).ReadExactly := by
  have hfraction (n : Int) : twoAndAHalf ≠ .int n := nofun
  have hlength : "len" ∈ numbered "array" := by decide
  have hitem : "type" ∈ numbered "sequence" := by decide
  refine ⟨not_readExactly_of_coerced ?_ rfl, not_readExactly_of_coerced ?_ rfl,
    not_readExactly_of_coerced ?_ rfl, not_readExactly_of_coerced ?_ rfl⟩
  · exact .number (by decide) hlength rfl hfraction
  · exact .negative rfl rfl (by decide)
  · exact .number (by decide) hitem rfl hfraction
  · exact .characters _ rfl

end InkBindings.Metadata
