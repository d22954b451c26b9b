import InkBindings.Scale.Decode
import InkBindings.Scale.Encode

/-!
The tree of a codec: its parts, those of the layouts it refers to, and what a tree needs to be used
at all. References may lead back to themselves, so that a tree has finitely many nodes only up to
the layouts of the environment.
-/

namespace InkBindings.Scale

namespace Codec

/-- The codecs that a codec is put together from. -/
def parts : Codec → List Codec
  | .compact inner | .option inner | .array inner _ | .sequence inner => [inner]
  | .tuple items => items
  | .result a b | .map a b => [a, b]
  | _ => []

theorem sizeOf_part {c d : Codec} (h : d ∈ c.parts) : sizeOf d < sizeOf c := by
  cases c with
  | tuple items =>
      have hlt := List.sizeOf_lt_of_mem (show d ∈ items from h)
      simp only [tuple.sizeOf_spec]
      omega
  | compact _ | option _ | array _ _ | sequence _ =>
      obtain rfl : d = _ := by simpa [parts] using h
      simp only [compact.sizeOf_spec, option.sizeOf_spec, array.sizeOf_spec,
        sequence.sizeOf_spec]
      omega
  | result a b | map a b =>
      obtain rfl | rfl : d = a ∨ d = b := by simpa [parts] using h
      all_goals simp only [result.sizeOf_spec, map.sizeOf_spec]; omega
  | _ => simp [parts] at h

/-- Induction on codecs, with all parts of a codec at once. -/
theorem parts_induction {motive : Codec → Prop}
    (step : ∀ c, (∀ d ∈ c.parts, motive d) → motive c) (c : Codec) : motive c :=
  step c fun d _ => parts_induction step d
termination_by sizeOf c
decreasing_by exact sizeOf_part ‹_›

mutual

/-- The references that stand in a codec. -/
def references : Codec → List Reference
  | .reference r => [r]
  | .compact inner | .option inner | .array inner _ | .sequence inner => references inner
  | .tuple items => referencesOfAll items
  | .result a b | .map a b => references a ++ references b
  | _ => []

def referencesOfAll : List Codec → List Reference
  | [] => []
  | c :: rest => references c ++ referencesOfAll rest

end

theorem referencesOfAll_eq_flatMap (cs : List Codec) :
    referencesOfAll cs = cs.flatMap references := by
  induction cs with
  | nil => rfl
  | cons c rest ih => rw [referencesOfAll, ih, List.flatMap_cons]

/-- A codec that is no reference itself has those of its parts. -/
theorem mem_references_iff {c : Codec} {r : Reference} :
    r ∈ c.references ↔ c = .reference r ∨ ∃ d ∈ c.parts, r ∈ d.references := by
  cases c with
  | tuple items => simp [references, parts, referencesOfAll_eq_flatMap]
  | reference _ => simp [references, parts, eq_comm]
  | _ => simp [references, parts]

theorem decoders_eq_map (declared : Room → Reference → Decoder) (room : Room)
    (items : List Codec) : decoders declared room items = items.map (decoder declared room) := by
  induction items with
  | nil => rfl
  | cons c rest ih => rw [decoders, ih, List.map_cons]

theorem encoders_eq_map (declared : Room → Reference → Encoder) (room : Room)
    (items : List Codec) : encoders declared room items = items.map (encoder declared room) := by
  induction items with
  | nil => rfl
  | cons c rest ih => rw [encoders, ih, List.map_cons]

end Codec

/-- The codecs of the components. -/
def Layout.codecs : Layout → List Codec
  | .record fields => fields.map (·.2)
  | .sum alternatives => alternatives.flatMap fun a => a.fields.map (·.2)

/-- The parts of a codec; those of a reference are in its layout. -/
def Environment.partsOf (env : Environment) : Codec → List Codec
  | .reference r => ((env.layout? r).map Layout.codecs).getD []
  | c => c.parts

/-- A codec stands somewhere in the tree of another. -/
inductive Reaches (env : Environment) : Codec → Codec → Prop
  | refl (c : Codec) : Reaches env c c
  | step {c d e : Codec} : d ∈ env.partsOf c → Reaches env d e → Reaches env c e

namespace Reaches
variable {env : Environment} {c d e : Codec}

theorem part (h : d ∈ env.partsOf c) : Reaches env c d := .step h (.refl d)

theorem trans (h1 : Reaches env c d) (h2 : Reaches env d e) : Reaches env c e := by
  induction h1 with
  | refl => exact h2
  | step hd _ ih => exact .step hd (ih h2)

theorem first {rest : List Codec} (h : Reaches env c d)
    (hparts : env.partsOf d = e :: rest := by rfl) : Reaches env c e :=
  h.trans (.part (hparts ▸ List.mem_cons_self))

theorem second {first : Codec} {rest : List Codec} (h : Reaches env c d)
    (hparts : env.partsOf d = first :: e :: rest := by rfl) : Reaches env c e :=
  h.trans (.part (hparts ▸ List.mem_cons_of_mem first List.mem_cons_self))

theorem replicate {count : Nat} (h : Reaches env c d) :
    ∀ e ∈ List.replicate count d, Reaches env c e :=
  fun _ he => List.eq_of_mem_replicate he ▸ h

theorem entries {key value : Codec} (h : Reaches env c (.map key value)) (count : Nat) :
    ∀ e ∈ (List.replicate count [key, value]).flatten, Reaches env c e := by
  intro e he
  obtain ⟨row, hrow, he⟩ := List.mem_flatten.mp he
  rw [List.eq_of_mem_replicate hrow] at he
  exact h.trans (.part he)

theorem mem_of_closed {nodes : List Codec} (hc : c ∈ nodes)
    (hclosed : ∀ d ∈ nodes, ∀ e ∈ env.partsOf d, e ∈ nodes) (h : Reaches env c e) :
    e ∈ nodes := by
  induction h with
  | refl => exact hc
  | step hd _ ih => exact ih (hclosed _ hc _ hd)

end Reaches

/-! ### Layouts that fit -/

theorem find_of_nodup {α : Type} [DecidableEq α] {β : Type} (key : β → α) {xs : List β} {x : β}
    (hnodup : (xs.map key).Nodup) (hx : x ∈ xs) : xs.find? (key · = key x) = some x := by
  induction xs with
  | nil => cases hx
  | cons y rest ih =>
      simp only [List.map_cons, List.nodup_cons] at hnodup
      rcases List.mem_cons.mp hx with rfl | hmem
      · simp
      · have hne : key y ≠ key x := fun h => hnodup.1 (h ▸ List.mem_map_of_mem hmem)
        rw [List.find?_cons_of_neg (by simpa using hne)]
        exact ih hnodup.2 hmem

/-- The fields are those of the class, each of them once. -/
def FieldsFit (fields : Fields) (attributes : List Attribute) : Prop :=
  (fields.map (·.1)).Nodup ∧ ∀ name, name ∈ fields.map (·.1) ↔ name ∈ attributes.map (·.name)

theorem FieldsFit.of_names {fields : Fields} {attributes : List Attribute}
    (hnodup : (fields.map (·.1)).Nodup) (h : fields.map (·.1) = attributes.map (·.name)) :
    FieldsFit fields attributes :=
  ⟨hnodup, fun name => by rw [h]⟩

namespace Environment

/-- The layout is for the class, and tells its alternatives apart by their indices. -/
def LayoutFits (env : Environment) (owner : String) : Layout → Prop
  | .record fields =>
      ∃ attributes, env.recordAttributes? owner = some attributes ∧ FieldsFit fields attributes
  | .sum alternatives =>
      (alternatives.map (·.index)).Nodup ∧ (alternatives.map (·.label)).Nodup ∧
      ∀ a ∈ alternatives, ∃ c, env.alternative? owner a.label = some c ∧
        FieldsFit a.fields c.attributes

/-- A layout that fits is bound to a reference, and no length is negative. -/
def Fits (env : Environment) : Codec → Prop
  | .fixedBytes length | .array _ length => 0 ≤ length
  | .reference r => ∃ layout, env.layout? r = some layout ∧ env.LayoutFits r.owner layout
  | _ => True

/-- All that stands in the tree of the codec fits, and calls may be nested without end. -/
structure Sound (env : Environment) (c : Codec) : Prop where
  room : env.room = .unbounded
  fits : ∀ d, Reaches env c d → env.Fits d

theorem mem_keys_of_layout {env : Environment} {r : Reference} {layout : Layout}
    (h : env.layout? r = some layout) : r.binding ∈ env.layouts.map (·.1) := by
  obtain ⟨p, hp, -⟩ := Option.map_eq_some_iff.mp h
  have hbinding : p.1 = r.binding := by simpa using List.find?_some hp
  exact hbinding ▸ List.mem_map_of_mem (List.mem_of_find?_eq_some hp)

theorem mem_partsOf_record {env : Environment} {r : Reference} {fields : Fields} {d : Codec}
    (hlayout : env.layout? r = some (.record fields)) (hd : d ∈ fields.map (·.2)) :
    d ∈ env.partsOf (.reference r) := by
  simpa [partsOf, hlayout, Layout.codecs] using hd

theorem mem_partsOf_sum {env : Environment} {r : Reference} {alternatives : List Alternative}
    {a : Alternative} {d : Codec} (hlayout : env.layout? r = some (.sum alternatives))
    (ha : a ∈ alternatives) (hd : d ∈ a.fields.map (·.2)) :
    d ∈ env.partsOf (.reference r) := by
  simp only [partsOf, hlayout, Option.map_some, Option.getD_some, Layout.codecs]
  exact List.mem_flatMap.mpr ⟨a, ha, hd⟩

namespace Sound
variable {env : Environment} {c d : Codec} {r : Reference}

theorem of_reaches (h : env.Sound c) (hd : Reaches env c d) : env.Sound d :=
  ⟨h.room, fun e he => h.fits e (hd.trans he)⟩

theorem of_parts (hroom : env.room = .unbounded) (hfits : env.Fits c)
    (hparts : ∀ e ∈ env.partsOf c, env.Sound e) : env.Sound c := by
  refine ⟨hroom, fun e he => ?_⟩
  cases he with
  | refl => exact hfits
  | step hpart hrest => exact (hparts _ hpart).fits e hrest

theorem layout_fits (h : env.Sound c) (hr : Reaches env c (.reference r)) {layout : Layout}
    (hlayout : env.layout? r = some layout) : env.LayoutFits r.owner layout := by
  obtain ⟨layout', hlayout', hfits⟩ := h.fits _ hr
  obtain rfl : layout' = layout := by simpa [hlayout'] using hlayout
  exact hfits

theorem record_fits (h : env.Sound c) (hr : Reaches env c (.reference r)) {fields : Fields}
    (hlayout : env.layout? r = some (.record fields)) {attributes : List Attribute}
    (hattributes : env.recordAttributes? r.owner = some attributes) :
    FieldsFit fields attributes := by
  obtain ⟨attributes', hattributes', hfit⟩ := h.layout_fits hr hlayout
  obtain rfl : attributes' = attributes := by simpa [hattributes'] using hattributes
  exact hfit

theorem variant_fits (h : env.Sound c) (hr : Reaches env c (.reference r))
    {alternatives : List Alternative} (hlayout : env.layout? r = some (.sum alternatives))
    {a : Alternative} (ha : a ∈ alternatives) {cls : AlternativeClass}
    (hcls : env.alternative? r.owner a.label = some cls) :
    FieldsFit a.fields cls.attributes := by
  obtain ⟨cls', hcls', hfit⟩ := (h.layout_fits hr hlayout).2.2 a ha
  obtain rfl : cls' = cls := by simpa [hcls'] using hcls
  exact hfit

end Sound

end Environment
end InkBindings.Scale
