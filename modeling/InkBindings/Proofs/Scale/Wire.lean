import InkBindings.Proofs.Scale.Nesting
import InkBindings.Proofs.Scale.Primitives

/-!
Which values a codec reads, and what they look like on the wire. The form of a value is kept apart
from its bytes: a value can have the form that reading gives and have no bytes, if too few of them
stand for the items of a sequence.
-/

namespace InkBindings.Scale

mutual

/-- The value looks as if it had been read by the codec. -/
inductive HasForm (env : Environment) : Codec → Value → Prop
  | int {kind n} : kind.least ≤ n → n ≤ kind.greatest → HasForm env (.int kind) (.int n)
  | bool (b) : HasForm env .bool (.bool b)
  | char (c) : HasForm env .char (.str (String.singleton c))
  | str {s} : (Bytes.ofText s).length < Compact.bound → HasForm env .str (.str s)
  | unit : HasForm env .unit .none
  | bytes {b} : b.length < Compact.bound → HasForm env .bytes (.bytes b)
  | accountId (id) : HasForm env .accountId (.accountId id)
  | hash (id) : HasForm env .hash (.hash id)
  | fixedBytes {length b} : length = (b.length : Int) → HasForm env (.fixedBytes length) (.bytes b)
  | compact {inner} {n : Nat} : n < Compact.bound →
      (∀ kind, inner.intKind? = some kind → (n : Int) ≤ kind.greatest) →
      HasForm env (.compact inner) (.compact (.int n))
  | tuple {items vs} : HaveForms env items vs → HasForm env (.tuple items) (.tuple vs)
  | array {item length vs} : length = (vs.length : Int) →
      HaveForms env (List.replicate vs.length item) vs → HasForm env (.array item length) (.list vs)
  | sequence {item vs} : vs.length < Compact.bound →
      HaveForms env (List.replicate vs.length item) vs → HasForm env (.sequence item) (.list vs)
  | absent {inner} : HasForm env (.option inner) .none
  | present {inner v} : v ≠ .none → HasForm env inner v → HasForm env (.option inner) v
  | ok {ok err v} : HasForm env ok v → HasForm env (.result ok err) (.ok v)
  | err {ok err v} : HasForm env err v → HasForm env (.result ok err) (.err v)
  | langError : HasForm env .langError .langError
  | raisedLangError : HasForm env .raisedLangError .raisedLangError
  | record {r fields vs v} : env.layout? r = some (.record fields) →
      HaveForms env (fields.map (·.2)) vs →
      env.makeRecord r.owner ((fields.map (·.1)).zip vs) = .ok v → HasForm env (.reference r) v
  | variant {r alternatives a vs v} : env.layout? r = some (.sum alternatives) →
      a ∈ alternatives → HaveForms env (a.fields.map (·.2)) vs →
      env.makeVariant r.owner a.label ((a.fields.map (·.1)).zip vs) = .ok v →
      HasForm env (.reference r) v

/-- Each value looks as if it had been read by the codec in its place. -/
inductive HaveForms (env : Environment) : List Codec → List Value → Prop
  | nil : HaveForms env [] []
  | cons {c v cs vs} : HasForm env c v → HaveForms env cs vs → HaveForms env (c :: cs) (v :: vs)

end

mutual

/-- The bytes from which a codec reads a value, if at least `pad` more bytes come behind. The
strict forms are those that writing gives: there are no maps, and nothing that is read as no value
is marked as one. -/
inductive Wire (env : Environment) (strict : Prop) (pad : Nat) : Codec → Value → Bytes → Prop
  | int {kind n} : kind.least ≤ n → n ≤ kind.greatest →
      Wire env strict pad (.int kind) (.int n) (Encoder.integerBytes kind n)
  | bool (b) : Wire env strict pad .bool (.bool b) [boolByte b]
  | char (c) : Wire env strict pad .char (.str (String.singleton c)) (Bytes.ofNat 4 c.toNat)
  | str {s} : (Bytes.ofText s).length < Compact.bound →
      Wire env strict pad .str (.str s) (countedForm (Bytes.ofText s))
  | unit : Wire env strict pad .unit .none []
  | bytes {b} : b.length < Compact.bound → Wire env strict pad .bytes (.bytes b) (countedForm b)
  | accountId (id) : Wire env strict pad .accountId (.accountId id) id.bytes
  | hash (id) : Wire env strict pad .hash (.hash id) id.bytes
  | fixedBytes {length b} : length = (b.length : Int) →
      Wire env strict pad (.fixedBytes length) (.bytes b) b
  | compact {inner} {n : Nat} : n < Compact.bound →
      (∀ kind, inner.intKind? = some kind → (n : Int) ≤ kind.greatest) →
      Wire env strict pad (.compact inner) (.compact (.int n)) (Compact.encode n)
  | tuple {items vs b} : WireAll env strict pad items vs b →
      Wire env strict pad (.tuple items) (.tuple vs) b
  | array {item length vs b} : length = (vs.length : Int) →
      WireAll env strict pad (List.replicate vs.length item) vs b →
      Wire env strict pad (.array item length) (.list vs) b
  | sequence {item vs b} : vs.length < Compact.bound →
      (item.isUnit = true ∨ vs.length ≤ b.length + pad) →
      WireAll env strict pad (List.replicate vs.length item) vs b →
      Wire env strict pad (.sequence item) (.list vs) (Compact.encode vs.length ++ b)
  | absent {inner} : Wire env strict pad (.option inner) .none [0]
  | present {inner v b} : (strict → v ≠ .none) → Wire env strict pad inner v b →
      Wire env strict pad (.option inner) v (1 :: b)
  | ok {ok err v b} : Wire env strict pad ok v b → Wire env strict pad (.result ok err) (.ok v) (0 :: b)
  | err {ok err v b} : Wire env strict pad err v b →
      Wire env strict pad (.result ok err) (.err v) (1 :: b)
  | map {key value count vs b} : ¬ strict → count < Compact.bound → count ≤ b.length + pad →
      WireAll env strict pad (List.replicate count [key, value]).flatten vs b →
      Wire env strict pad (.map key value) (Decoder.mapOf (Decoder.pairUp vs))
        (Compact.encode count ++ b)
  | langError : Wire env strict pad .langError .langError [langErrorIndex]
  | raisedLangError : Wire env strict pad .raisedLangError .raisedLangError [langErrorIndex]
  | record {r fields vs v b} : env.Readable r → env.layout? r = some (.record fields) →
      WireAll env strict pad (fields.map (·.2)) vs b →
      env.makeRecord r.owner ((fields.map (·.1)).zip vs) = .ok v →
      Wire env strict pad (.reference r) v b
  | variant {r alternatives a vs v b} : env.Readable r → env.layout? r = some (.sum alternatives) →
      a ∈ alternatives → WireAll env strict pad (a.fields.map (·.2)) vs b →
      env.makeVariant r.owner a.label ((a.fields.map (·.1)).zip vs) = .ok v →
      Wire env strict pad (.reference r) v (a.index :: b)

/-- The bytes from which values are read one after the other. -/
inductive WireAll (env : Environment) (strict : Prop) (pad : Nat) :
    List Codec → List Value → Bytes → Prop
  | nil : WireAll env strict pad [] [] []
  | cons {c v b cs vs bs} : Wire env strict pad c v b → WireAll env strict pad cs vs bs →
      WireAll env strict pad (c :: cs) (v :: vs) (b ++ bs)

end

variable {env : Environment} {strict : Prop} {pad : Nat}

mutual

/-- What stands on the wire in a strict form has been given it by reading. -/
theorem Wire.hasForm {c : Codec} {v : Value} {b : Bytes} (hstrict : strict) :
    Wire env strict pad c v b → HasForm env c v
  | .int hleast hgreatest => .int hleast hgreatest
  | .bool b => .bool b
  | .char c => .char c
  | .str h => .str h
  | .unit => .unit
  | .bytes h => .bytes h
  | .accountId id => .accountId id
  | .hash id => .hash id
  | .fixedBytes h => .fixedBytes h
  | .compact hn hkind => .compact hn hkind
  | .tuple h => .tuple (h.haveForms hstrict)
  | .array hlen h => .array hlen (h.haveForms hstrict)
  | .sequence hlen _ h => .sequence hlen (h.haveForms hstrict)
  | .absent => .absent
  | .present hv h => .present (hv hstrict) (h.hasForm hstrict)
  | .ok h => .ok (h.hasForm hstrict)
  | .err h => .err (h.hasForm hstrict)
  | .map hnot _ _ _ => absurd hstrict hnot
  | .langError => .langError
  | .raisedLangError => .raisedLangError
  | .record _ hlayout h hv => .record hlayout (h.haveForms hstrict) hv
  | .variant _ hlayout ha h hv => .variant hlayout ha (h.haveForms hstrict) hv

theorem WireAll.haveForms {cs : List Codec} {vs : List Value} {b : Bytes} (hstrict : strict) :
    WireAll env strict pad cs vs b → HaveForms env cs vs
  | .nil => .nil
  | .cons h hs => .cons (h.hasForm hstrict) (hs.haveForms hstrict)

end

end InkBindings.Scale
