import InkBindings.Bindings.Reference
import InkBindings.Proofs.Bindings.CodecPhrase
import InkBindings.Proofs.Fallible

/-!
What a codec can be of a type that has one, by the definition of its entry. A descent gives the
codec of the entry from those of the types it refers to, each found with less room.
-/

namespace InkBindings.Bindings

open Metadata (TypeId TypeEntry Declaration)

/-- What the path of a composite or a variant makes of it. -/
inductive NamedAs (s : Scope) (e : TypeEntry) : Named → Prop
  | reserved {r} : e.kind = .reserved → Reserved.ofName? e.name = some r → NamedAs s e (.reserved r)
  | option {inner} : e.kind = .builtin → e.name = "Option" → e.arguments = [inner] →
      NamedAs s e (.option inner)
  | result {ok err} : e.kind = .builtin → e.name = "Result" → e.arguments = [ok, err] →
      NamedAs s e (.result ok err)
  | map {key value} : e.kind = .builtin → e.name = "BTreeMap" → e.arguments = [key, value] →
      NamedAs s e (.map key value)
  | declared {d} : e.kind = .custom → s.declaration? e = some d → NamedAs s e (.declared d)

/-- What the definition of an entry makes of its codec, by the codecs of other types. -/
inductive CodecOf (s : Scope) (sub : TypeId → Scale.Codec → Prop) (e : TypeEntry) :
    Scale.Codec → Prop
  | primitive {p} : e.definition = .primitive p → CodecOf s sub e (primitiveCodec p)
  | unit : e.definition = .tuple [] → CodecOf s sub e .unit
  | tuple {item items cs} : e.definition = .tuple (item :: items) →
      List.Forall₂ sub (item :: items) cs → CodecOf s sub e (.tuple cs)
  | fixedBytes {item length i} : e.definition = .array item length →
      s.registry.find? item = some i → i.isU8 = true → CodecOf s sub e (.fixedBytes length)
  | array {item length i c} : e.definition = .array item length →
      s.registry.find? item = some i → i.isU8 = false → sub item c →
      CodecOf s sub e (.array c length)
  | bytes {item i} : e.definition = .sequence item → s.registry.find? item = some i →
      i.isU8 = true → CodecOf s sub e .bytes
  | sequence {item i c} : e.definition = .sequence item → s.registry.find? item = some i →
      i.isU8 = false → sub item c → CodecOf s sub e (.sequence c)
  | compact {item c} : e.definition = .compact item → sub item c → CodecOf s sub e (.compact c)
  | reserved {r} : e.definition.isStructured = true → NamedAs s e (.reserved r) →
      CodecOf s sub e r.codec
  | option {inner c} : e.definition.isStructured = true → NamedAs s e (.option inner) →
      sub inner c → CodecOf s sub e (.option c)
  | result {ok err c c'} : e.definition.isStructured = true → NamedAs s e (.result ok err) →
      sub ok c → sub err c' → CodecOf s sub e (.result c c')
  | map {key value c c'} : e.definition.isStructured = true → NamedAs s e (.map key value) →
      sub key c → sub value c' → CodecOf s sub e (.map c c')
  | declared {d} : e.definition.isStructured = true → NamedAs s e (.declared d) →
      CodecOf s sub e (declaredCodec d e.id)

namespace Scope
variable {s : Scope} {e : TypeEntry}

theorem find_of_resolve {id : TypeId} (h : s.resolve id = .ok e) : s.registry.find? id = some e := by
  simp only [resolve, Metadata.Registry.resolve] at h
  split at h
  · next e' hfind =>
      cases h
      exact hfind
  · cases h

theorem builtin_ok {b : Builtin} {n : Named} (h : builtin e b = .ok n) :
    (∃ inner, b = .option ∧ e.arguments = [inner] ∧ n = .option inner) ∨
      (∃ ok err, b = .result ∧ e.arguments = [ok, err] ∧ n = .result ok err) ∨
      ∃ key value, b = .map ∧ e.arguments = [key, value] ∧ n = .map key value := by
  simp only [builtin] at h
  split at h
  · next inner harguments =>
      cases h
      exact .inl ⟨inner, rfl, harguments, rfl⟩
  · cases h
  · next ok err harguments =>
      cases h
      exact .inr (.inl ⟨ok, err, rfl, harguments, rfl⟩)
  · cases h
  · next key value harguments =>
      cases h
      exact .inr (.inr ⟨key, value, rfl, harguments, rfl⟩)
  · cases h

theorem name_of_builtin {name : String} {b : Builtin} (h : Builtin.ofName? name = some b) :
    name = match b with
      | .option => "Option"
      | .result => "Result"
      | .map => "BTreeMap" := by
  simp only [Builtin.ofName?] at h
  split at h <;> cases h <;> rfl

theorem named_ok {n : Named} (h : s.named e = .ok n) : NamedAs s e n := by
  simp only [named] at h
  split at h
  · next hkind =>
      split at h
      · next r hr =>
          cases h
          exact .reserved hkind hr
      · cases h
  · next hkind =>
      split at h
      · next b hb =>
          have hname := name_of_builtin hb
          obtain ⟨inner, rfl, harguments, rfl⟩ | ⟨ok, err, rfl, harguments, rfl⟩ |
            ⟨key, value, rfl, harguments, rfl⟩ := builtin_ok h
          · exact .option hkind hname harguments
          · exact .result hkind hname harguments
          · exact .map hkind hname harguments
      · cases h
  · next hkind =>
      split at h
      · next d hd =>
          cases h
          exact .declared hkind hd
      · cases h

theorem structuredCodec_ok {sub : TypeId → Outcome Scale.Codec} {c : Scale.Codec}
    (hstructured : e.definition.isStructured = true)
    (h : (do match ← s.named e with
      | .reserved r => return r.codec
      | .option inner => return .option (← sub inner)
      | .result ok err =>
        let ok ← sub ok
        return .result ok (← sub err)
      | .map key value =>
        let key ← sub key
        return .map key (← sub value)
      | .declared d => return declaredCodec d e.id) = .ok c) :
    CodecOf s (fun id c => sub id = .ok c) e c := by
  obtain ⟨n, hn, h⟩ := bind_ok h
  have hnamed := named_ok hn
  cases n with
  | reserved r =>
      cases h
      exact .reserved hstructured hnamed
  | option inner =>
      obtain ⟨c', hc, h⟩ := bind_ok h
      cases h
      exact .option hstructured hnamed hc
  | result ok err =>
      obtain ⟨c', hc, h⟩ := bind_ok h
      obtain ⟨d, hd, h⟩ := bind_ok h
      cases h
      exact .result hstructured hnamed hc hd
  | map key value =>
      obtain ⟨c', hc, h⟩ := bind_ok h
      obtain ⟨d, hd, h⟩ := bind_ok h
      cases h
      exact .map hstructured hnamed hc hd
  | declared d =>
      cases h
      exact .declared hstructured hnamed

theorem entryCodec_ok {sub : TypeId → Outcome Scale.Codec} {c : Scale.Codec}
    (h : s.entryCodec sub e = .ok c) : CodecOf s (fun id c => sub id = .ok c) e c := by
  cases hdefinition : e.definition with
  | primitive p =>
      simp only [entryCodec, hdefinition] at h
      cases h
      exact .primitive hdefinition
  | tuple items =>
      cases items with
      | nil =>
          simp only [entryCodec, hdefinition] at h
          cases h
          exact .unit hdefinition
      | cons item items =>
          simp only [entryCodec, hdefinition] at h
          obtain ⟨cs, hcs, h⟩ := bind_ok h
          cases h
          exact .tuple hdefinition (forall₂_of_mapM hcs)
  | array item length =>
      simp only [entryCodec, hdefinition] at h
      obtain ⟨i, hi, h⟩ := bind_ok h
      have hfind := find_of_resolve hi
      split at h
      · next hbyte =>
          cases h
          exact .fixedBytes hdefinition hfind hbyte
      · next hbyte =>
          obtain ⟨c', hc, h⟩ := bind_ok h
          cases h
          exact .array hdefinition hfind (by simpa using hbyte) hc
  | sequence item =>
      simp only [entryCodec, hdefinition] at h
      obtain ⟨i, hi, h⟩ := bind_ok h
      have hfind := find_of_resolve hi
      split at h
      · next hbyte =>
          cases h
          exact .bytes hdefinition hfind hbyte
      · next hbyte =>
          obtain ⟨c', hc, h⟩ := bind_ok h
          cases h
          exact .sequence hdefinition hfind (by simpa using hbyte) hc
  | compact item =>
      simp only [entryCodec, hdefinition] at h
      obtain ⟨c', hc, h⟩ := bind_ok h
      cases h
      exact .compact hdefinition hc
  | bitSequence store order =>
      simp only [entryCodec, hdefinition] at h
      cases h
  | composite fields | variant alternatives =>
      simp only [entryCodec, hdefinition] at h
      exact structuredCodec_ok (by rw [hdefinition]; rfl) h

/-- The codec that a descent gives is that of the entry, from codecs that it gives with less
room. -/
theorem codecWithin_ok {depth : Nat} {room : Room} {id : TypeId} {c : Scale.Codec}
    (h : s.codecWithin depth room id = .ok c) :
    ∃ depth' room' e, s.registry.find? id = some e ∧ depth = depth' + 1 ∧
      CodecOf s (fun id c => s.codecWithin depth' room' id = .ok c) e c := by
  cases depth with
  | zero => cases h
  | succ depth =>
      rw [codecWithin] at h
      split at h
      · cases h
      · obtain ⟨e, he, h⟩ := bind_ok h
        exact ⟨depth, _, e, find_of_resolve he, rfl, entryCodec_ok h⟩

end Scope
end InkBindings.Bindings
