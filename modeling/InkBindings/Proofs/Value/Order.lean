import InkBindings.Proofs.Fallible
import InkBindings.Proofs.Value.Number
import Mathlib.Data.String.Basic

/-!
Equality and order among the values that can be keys. A value is an atom, or a frame around other
values. Equal values have the same order to all others, and the order is transitive, though not all
values have one: a number that is none comes neither before nor after another.
-/

namespace InkBindings

theorem lessBytes_iff {b c : Bytes} : Value.lessBytes b c = true ↔ b < c := by
  induction b generalizing c with
  | nil => cases c <;> simp [Value.lessBytes]
  | cons x b ih => cases c <;> simp [Value.lessBytes, List.cons_lt_cons_iff, ih]

theorem lessBytes_trans {b c d : Bytes} (hbc : Value.lessBytes b c = true)
    (hcd : Value.lessBytes c d = true) : Value.lessBytes b d = true :=
  lessBytes_iff.mpr (List.lt_trans (lessBytes_iff.mp hbc) (lessBytes_iff.mp hcd))

theorem lessBytes_asymm {b c : Bytes} (h : Value.lessBytes b c = true) :
    Value.lessBytes c b = false :=
  Bool.eq_false_iff.mpr fun hcb => List.lt_asymm (lessBytes_iff.mp h) (lessBytes_iff.mp hcb)

theorem lessBytes_irrefl (b : Bytes) : Value.lessBytes b b = false :=
  Bool.eq_false_iff.mpr fun h => List.lt_irrefl b (lessBytes_iff.mp h)

/-- Of two different byte strings one comes first. -/
theorem lessBytes_or {b c : Bytes} (hne : b ≠ c) :
    Value.lessBytes b c = true ∨ Value.lessBytes c b = true := by
  by_contra hnot
  obtain ⟨hbc, hcb⟩ := not_or.mp hnot
  exact hne (List.le_antisymm (List.not_lt.mp fun hlt => hcb (lessBytes_iff.mpr hlt))
    (List.not_lt.mp fun hlt => hbc (lessBytes_iff.mpr hlt)))

/-- A value without parts, as far as equality and order can tell. -/
inductive Atom
  | none
  | number (x : Number)
  | str (s : String)
  | bytes (b : Bytes)
  | langError
  | raisedLangError
  | exception
  | member (kind text : String)

namespace Atom

def equals : Atom → Atom → Bool
  | .none, .none | .langError, .langError | .raisedLangError, .raisedLangError => true
  | .number x, .number y => x.compare? y == some .eq
  | .str s, .str t => s == t
  | .bytes b, .bytes c => b == c
  | .member kind text, .member kind' text' => kind == kind' && text == text'
  | _, _ => false

def less? : Atom → Atom → Option Bool
  | .number x, .number y => some (x.compare? y == some .lt)
  | .str s, .str t => some (decide (s < t))
  | .bytes b, .bytes c => some (Value.lessBytes b c)
  | _, _ => Option.none

/-- What kind of order an atom has to others. -/
def kind? : Atom → Option Value.OrderKind
  | .number _ => some .number
  | .str _ => some .text
  | .bytes _ => some .bytes
  | _ => Option.none

theorem equals_symm {x y : Atom} (h : x.equals y = true) : y.equals x = true := by
  cases x <;> cases y <;> simp only [equals, Bool.false_eq_true] at h ⊢
  case number.number x y =>
    obtain ⟨a, hx, hy⟩ := Number.compare_eq_iff.mp (beq_iff_eq.mp h)
    exact beq_iff_eq.mpr (Number.compare_eq_iff.mpr ⟨a, hy, hx⟩)
  all_goals simp_all

theorem equals_trans {x y z : Atom} (h : x.equals y = true) (h' : y.equals z = true) :
    x.equals z = true := by
  cases x <;> cases y <;> simp only [equals, Bool.false_eq_true] at h
  case number.number x y =>
    cases z <;> simp only [equals, Bool.false_eq_true] at h' ⊢
    obtain ⟨a, hx, hy⟩ := Number.compare_eq_iff.mp (beq_iff_eq.mp h)
    obtain ⟨b, hy', hz⟩ := Number.compare_eq_iff.mp (beq_iff_eq.mp h')
    obtain rfl : a = b := Option.some.inj (hy.symm.trans hy')
    exact beq_iff_eq.mpr (Number.compare_eq_iff.mpr ⟨a, hx, hz⟩)
  all_goals simp_all

theorem less_congr_left {x y : Atom} (h : x.equals y = true) (z : Atom) :
    x.less? z = y.less? z := by
  cases x <;> cases y <;> simp only [equals, Bool.false_eq_true] at h
  case number.number x y =>
    obtain ⟨a, hx, hy⟩ := Number.compare_eq_iff.mp (beq_iff_eq.mp h)
    cases z <;> simp [less?, Number.compare_eq_place, hx, hy]
  case str.str => rw [beq_iff_eq.mp h]
  case bytes.bytes => rw [beq_iff_eq.mp h]
  all_goals rfl

theorem less_congr_right {y z : Atom} (h : y.equals z = true) (x : Atom) :
    x.less? y = x.less? z := by
  cases y <;> cases z <;> simp only [equals, Bool.false_eq_true] at h
  case number.number y z =>
    obtain ⟨a, hy, hz⟩ := Number.compare_eq_iff.mp (beq_iff_eq.mp h)
    cases x <;> simp [less?, Number.compare_eq_place, hy, hz]
  case str.str => rw [beq_iff_eq.mp h]
  case bytes.bytes => rw [beq_iff_eq.mp h]
  all_goals cases x <;> rfl

theorem less_trans {x y z : Atom} (h : x.less? y = some true) (h' : y.less? z = some true) :
    x.less? z = some true := by
  cases x <;> cases y <;> simp only [less?, reduceCtorEq, Option.some.injEq] at h <;>
    cases z <;> simp only [less?, reduceCtorEq, Option.some.injEq] at h' ⊢
  case number.number.number x y z =>
    obtain ⟨a, b, hx, hy, hab⟩ := Number.compare_lt_iff.mp (beq_iff_eq.mp h)
    obtain ⟨b', c, hy', hz, hbc⟩ := Number.compare_lt_iff.mp (beq_iff_eq.mp h')
    obtain rfl : b = b' := Option.some.inj (hy.symm.trans hy')
    exact beq_iff_eq.mpr (Number.compare_lt_iff.mpr ⟨a, c, hx, hz, lt_trans hab hbc⟩)
  case str.str.str =>
    exact decide_eq_true (String.lt_trans (of_decide_eq_true h) (of_decide_eq_true h'))
  case bytes.bytes.bytes =>
    exact lessBytes_trans h h'

/-- What comes before another is not equal to it, and does not come after it. -/
theorem of_less {x y : Atom} (h : x.less? y = some true) :
    x.equals y = false ∧ y.less? x = some false := by
  cases x <;> cases y <;> simp only [less?, reduceCtorEq, Option.some.injEq] at h <;>
    simp only [less?, equals, Option.some.injEq]
  case number.number x y =>
    obtain ⟨a, b, hx, hy, hab⟩ := Number.compare_lt_iff.mp (beq_iff_eq.mp h)
    simp [Number.compare_eq_place, hx, hy, compare_lt_iff_lt.mpr hab, compare_gt_iff_gt.mpr hab]
  case str.str s t =>
    have hlt := of_decide_eq_true h
    exact ⟨beq_eq_false_iff_ne.mpr (String.ne_of_lt hlt), decide_eq_false (String.lt_asymm hlt)⟩
  case bytes.bytes b c =>
    refine ⟨beq_eq_false_iff_ne.mpr ?_, lessBytes_asymm h⟩
    rintro rfl
    simp [lessBytes_irrefl] at h

theorem less_isSome_comm (x y : Atom) : (x.less? y).isSome = (y.less? x).isSome := by
  cases x <;> cases y <;> rfl

/-- What is a number at all. -/
def IsPlaced : Atom → Prop
  | .number x => x.place? ≠ Option.none
  | _ => True

theorem less_of_not_less {x y : Atom} (hx : x.IsPlaced) (hy : y.IsPlaced)
    (hne : x.equals y = false) (h : x.less? y = some false) : y.less? x = some true := by
  cases x <;> cases y <;> simp only [less?, reduceCtorEq, Option.some.injEq] at h ⊢
  case number.number x y =>
    obtain ⟨a, ha⟩ := Option.ne_none_iff_exists'.mp hx
    obtain ⟨b, hb⟩ := Option.ne_none_iff_exists'.mp hy
    simp only [equals, Number.compare_eq_place, ha, hb, Option.bind_some, Option.map_some] at hne h ⊢
    rcases lt_trichotomy a b with hlt | rfl | hgt
    · simp [compare_lt_iff_lt.mpr hlt] at h
    · simp at hne
    · simp [compare_lt_iff_lt.mpr hgt]
  case str.str s t =>
    have hne' : s ≠ t := beq_eq_false_iff_ne.mp hne
    exact decide_eq_true (lt_of_le_of_ne (String.not_lt.mp (of_decide_eq_false h)) hne'.symm)
  case bytes.bytes b c =>
    exact (lessBytes_or (beq_eq_false_iff_ne.mp hne)).resolve_left (Bool.eq_false_iff.mp h)

end Atom

/-- What holds the parts of a value together. -/
inductive Frame
  | list
  | tuple
  | compact
  | ok
  | err
  | record (name : String) (fields : List String)
  | variant (owner label : String) (fields : List String)
  deriving DecidableEq

/-- Only sequences have an order. -/
def Frame.isSequence : Frame → Bool
  | .list | .tuple => true
  | _ => false

namespace Value

def atom? : Value → Option Atom
  | .none => some .none
  | .bool b => some (.number (.int (if b then 1 else 0)))
  | .int n => some (.number (.int n))
  | .float x => some (.number (.float x))
  | .str s => some (.str s)
  | .bytes b | .byteArray b => some (.bytes b)
  | .accountId id | .hash id => some (.bytes id.bytes)
  | .langError => some .langError
  | .raisedLangError => some .raisedLangError
  | .exception .. => some .exception
  | .member kind text => some (.member kind text)
  | _ => Option.none

def frame? : Value → Option (Frame × List Value)
  | .list vs => some (.list, vs)
  | .tuple vs => some (.tuple, vs)
  | .compact v => some (.compact, [v])
  | .ok v => some (.ok, [v])
  | .err v => some (.err, [v])
  | .record name fields => some (.record name (fields.map (·.1)), fields.map (·.2))
  | .variant owner label fields =>
    some (.variant owner label (fields.map (·.1)), fields.map (·.2))
  | _ => Option.none

theorem atom_of_frame {a : Value} {f : Frame} {xs : List Value} (h : a.frame? = some (f, xs)) :
    a.atom? = Option.none := by
  cases a <;> first | rfl | cases h

theorem frame_of_atom {a : Value} {x : Atom} (h : a.atom? = some x) : a.frame? = Option.none := by
  cases a <;> first | rfl | cases h

theorem equals_of_atom {a : Value} {x : Atom} (h : a.atom? = some x) (b : Value) :
    equals a b = b.atom?.any x.equals := by
  cases a with
  | list | tuple | dict | compact | ok | err | record | variant => cases h
  | _ =>
      obtain rfl := Option.some.inj h
      cases b <;> simp [equals, atomEquals, atom?, Atom.equals, number?, byteContent?]

theorem less_of_atom {a : Value} {x : Atom} (h : a.atom? = some x) (b : Value) :
    less? a b = b.atom?.bind x.less? := by
  cases a with
  | list | tuple | dict | compact | ok | err | record | variant => cases h
  | _ =>
      obtain rfl := Option.some.inj h
      cases b <;> simp [less?, atom?, Atom.less?, number?, byteContent?]

theorem equalItems_iff {xs ys : List Value} :
    equalItems xs ys = true ↔ List.Forall₂ (fun x y => equals x y = true) xs ys := by
  induction xs generalizing ys with
  | nil => cases ys <;> simp [equalItems]
  | cons x xs ih => cases ys <;> simp [equalItems, ih]

theorem equalFields_iff {fs gs : List (String × Value)} :
    equalFields fs gs = true ↔ fs.map (·.1) = gs.map (·.1) ∧
      List.Forall₂ (fun x y => equals x y = true) (fs.map (·.2)) (gs.map (·.2)) := by
  induction fs generalizing gs with
  | nil => cases gs <;> simp [equalFields]
  | cons f fs ih =>
      cases gs with
      | nil => simp [equalFields]
      | cons g gs =>
          simp only [equalFields, Bool.and_eq_true, beq_iff_eq, ih, List.map_cons,
            List.cons.injEq, List.forall₂_cons]
          tauto

theorem equals_of_frame {a : Value} {f : Frame} {xs : List Value} (h : a.frame? = some (f, xs))
    (b : Value) : equals a b = true ↔
      ∃ ys, b.frame? = some (f, ys) ∧ List.Forall₂ (fun x y => equals x y = true) xs ys := by
  cases a <;> simp only [frame?, Option.some.injEq, Prod.mk.injEq, reduceCtorEq] at h
  all_goals
    obtain ⟨rfl, rfl⟩ := h
    cases b <;> simp [equals, frame?, equalItems_iff, equalFields_iff, List.forall₂_cons]
  all_goals grind

theorem less_of_frame {a : Value} {f : Frame} {xs : List Value} (h : a.frame? = some (f, xs))
    (b : Value) : less? a b = b.frame?.bind fun p =>
      if p.1 = f ∧ f.isSequence then lessItems? xs p.2 else Option.none := by
  cases a <;> simp only [frame?, Option.some.injEq, Prod.mk.injEq, reduceCtorEq] at h
  all_goals
    obtain ⟨rfl, rfl⟩ := h
    cases b <;> simp [less?, frame?, Frame.isSequence, number?, byteContent?]

/-- There is no dictionary in the value. -/
inductive Dictless : Value → Prop
  | atom {v x} : v.atom? = some x → Dictless v
  | frame {v f vs} : v.frame? = some (f, vs) → (∀ u ∈ vs, Dictless u) → Dictless v

mutual

/-- What can be a key holds no dictionary. -/
theorem dictless_of_hashable : (v : Value) → v.isHashable = true → Dictless v
  | .none, _ => .atom rfl
  | .bool _, _ => .atom rfl
  | .int _, _ => .atom rfl
  | .float _, _ => .atom rfl
  | .str _, _ => .atom rfl
  | .bytes _, _ => .atom rfl
  | .accountId _, _ => .atom rfl
  | .hash _, _ => .atom rfl
  | .langError, _ => .atom rfl
  | .raisedLangError, _ => .atom rfl
  | .exception _ _, _ => .atom rfl
  | .member _ _, _ => .atom rfl
  | .tuple vs, h => .frame rfl (dictless_of_areHashable vs (by simpa [isHashable] using h))
  | .compact v, h => .frame rfl fun _ hu =>
      List.mem_singleton.mp hu ▸ dictless_of_hashable v (by simpa [isHashable] using h)
  | .ok v, h => .frame rfl fun _ hu =>
      List.mem_singleton.mp hu ▸ dictless_of_hashable v (by simpa [isHashable] using h)
  | .err v, h => .frame rfl fun _ hu =>
      List.mem_singleton.mp hu ▸ dictless_of_hashable v (by simpa [isHashable] using h)
  | .record _ fields, h =>
      .frame rfl (dictless_of_haveHashable fields (by simpa [isHashable] using h))
  | .variant _ _ fields, h =>
      .frame rfl (dictless_of_haveHashable fields (by simpa [isHashable] using h))
  termination_by structural v => v

theorem dictless_of_areHashable : (vs : List Value) → areHashable vs = true →
    ∀ u ∈ vs, Dictless u
  | [], _ => nofun
  | v :: vs, h => by
      simp only [areHashable, Bool.and_eq_true] at h
      exact List.forall_mem_cons.mpr
        ⟨dictless_of_hashable v h.1, dictless_of_areHashable vs h.2⟩
  termination_by structural vs => vs

theorem dictless_of_haveHashable : (fields : List (String × Value)) →
    haveHashable fields = true → ∀ u ∈ fields.map (·.2), Dictless u
  | [], _ => nofun
  | (_, v) :: fields, h => by
      simp only [haveHashable, Bool.and_eq_true] at h
      exact List.forall_mem_cons.mpr
        ⟨dictless_of_hashable v h.1, dictless_of_haveHashable fields h.2⟩
  termination_by structural fields => fields

end

/-! ### Equality and order -/

theorem exists_atom_of_equals {a b : Value} {x : Atom} (hx : a.atom? = some x)
    (h : equals a b = true) : ∃ y, b.atom? = some y ∧ x.equals y = true := by
  rw [equals_of_atom hx] at h
  exact (Option.any_eq_true ..).mp h

theorem exists_atom_of_less {a b : Value} {x : Atom} {answer : Bool} (hx : a.atom? = some x)
    (h : less? a b = some answer) : ∃ y, b.atom? = some y ∧ x.less? y = some answer := by
  rw [less_of_atom hx] at h
  exact Option.bind_eq_some_iff.mp h

/-- Two sequences of one kind have an order if the first parts that differ have one. -/
theorem exists_frame_of_less {a b : Value} {f : Frame} {xs : List Value} {answer : Bool}
    (hf : a.frame? = some (f, xs)) (h : less? a b = some answer) :
    ∃ ys, b.frame? = some (f, ys) ∧ f.isSequence = true ∧ lessItems? xs ys = some answer := by
  rw [less_of_frame hf] at h
  obtain ⟨⟨g, ys⟩, hb, hitems⟩ := Option.bind_eq_some_iff.mp h
  split at hitems
  · next hsame =>
      obtain ⟨rfl, hsequence⟩ := hsame
      exact ⟨ys, hb, hsequence, hitems⟩
  · cases hitems

theorem less_of_frames {a b : Value} {f : Frame} {xs ys : List Value}
    (ha : a.frame? = some (f, xs)) (hb : b.frame? = some (f, ys)) (hf : f.isSequence = true) :
    less? a b = lessItems? xs ys := by
  simp [less_of_frame ha, hb, hf]

theorem equals_symm {a b : Value} (ha : Dictless a) (h : equals a b = true) :
    equals b a = true := by
  induction ha generalizing b with
  | atom hx =>
      obtain ⟨y, hy, hxy⟩ := exists_atom_of_equals hx h
      rw [equals_of_atom hy, hx]
      exact Atom.equals_symm hxy
  | frame hf _ ih =>
      obtain ⟨ys, hb, hys⟩ := (equals_of_frame hf b).mp h
      exact (equals_of_frame hb _).mpr
        ⟨_, hf, (forall₂_imp_of_mem hys fun x hx y _ => ih x hx).flip⟩

theorem equals_trans {a b c : Value} (ha : Dictless a) (h : equals a b = true)
    (h' : equals b c = true) : equals a c = true := by
  induction ha generalizing b c with
  | atom hx =>
      obtain ⟨y, hy, hxy⟩ := exists_atom_of_equals hx h
      obtain ⟨z, hz, hyz⟩ := exists_atom_of_equals hy h'
      rw [equals_of_atom hx, hz]
      exact Atom.equals_trans hxy hyz
  | @frame a f xs hf hxs ih =>
      obtain ⟨ys, hb, hys⟩ := (equals_of_frame hf b).mp h
      obtain ⟨zs, hc, hzs⟩ := (equals_of_frame hb c).mp h'
      refine (equals_of_frame hf c).mpr ⟨zs, hc, ?_⟩
      clear hf hxs hb hc h h'
      induction hys generalizing zs with
      | nil => cases hzs; exact .nil
      | cons hxy _ ihs =>
          cases hzs with
          | cons hyz hrest =>
              exact .cons (ih _ List.mem_cons_self hxy hyz)
                (ihs (fun u hu => ih u (List.mem_cons_of_mem _ hu)) _ hrest)

theorem Dictless.of_equals {a b : Value} (ha : Dictless a) (h : equals a b = true) :
    Dictless b := by
  induction ha generalizing b with
  | atom hx =>
      obtain ⟨y, hy, -⟩ := exists_atom_of_equals hx h
      exact .atom hy
  | frame hf _ ih =>
      obtain ⟨ys, hb, hys⟩ := (equals_of_frame hf b).mp h
      refine .frame hb fun y hy => ?_
      obtain ⟨x, hx, hxy⟩ := forall₂_right hys hy
      exact ih x hx hxy

theorem equals_congr_left {a b : Value} (ha : Dictless a) (h : equals a b = true) (c : Value) :
    equals a c = equals b c :=
  Bool.eq_iff_iff.mpr ⟨equals_trans (ha.of_equals h) (equals_symm ha h), equals_trans ha h⟩

theorem equals_congr_right {b c : Value} (hb : Dictless b) (h : equals b c = true) {a : Value}
    (ha : Dictless a) : equals a b = equals a c :=
  Bool.eq_iff_iff.mpr ⟨fun hab => equals_trans ha hab h,
    fun hac => equals_trans ha hac (equals_symm hb h)⟩

theorem less_congr_left {a b : Value} (ha : Dictless a) (h : equals a b = true) (c : Value) :
    less? a c = less? b c := by
  induction ha generalizing b c with
  | atom hx =>
      obtain ⟨y, hy, hxy⟩ := exists_atom_of_equals hx h
      rw [less_of_atom hx, less_of_atom hy]
      exact congrArg _ (funext (Atom.less_congr_left hxy))
  | @frame a f xs hf hxs ih =>
      obtain ⟨ys, hb, hys⟩ := (equals_of_frame hf b).mp h
      have hitems (zs : List Value) : lessItems? xs zs = lessItems? ys zs := by
        clear hf hb h
        induction hys generalizing zs with
        | nil => rfl
        | cons hxy _ ihs =>
            cases zs with
            | nil => rfl
            | cons z zs =>
                simp only [lessItems?]
                rw [equals_congr_left (hxs _ List.mem_cons_self) hxy,
                  ih _ List.mem_cons_self hxy,
                  ihs (fun u hu => hxs u (List.mem_cons_of_mem _ hu))
                    (fun u hu => ih u (List.mem_cons_of_mem _ hu))]
      simp only [less_of_frame hf, less_of_frame hb, hitems]

theorem less_congr_right {b c : Value} (hb : Dictless b) (h : equals b c = true) {a : Value}
    (ha : Dictless a) : less? a b = less? a c := by
  induction ha generalizing b c with
  | @atom a x hx =>
      rw [less_of_atom hx, less_of_atom hx]
      cases hb with
      | atom hy =>
          obtain ⟨z, hz, hyz⟩ := exists_atom_of_equals hy h
          rw [hy, hz]
          exact Atom.less_congr_right hyz x
      | frame hf =>
          obtain ⟨zs, hc, -⟩ := (equals_of_frame hf c).mp h
          rw [atom_of_frame hf, atom_of_frame hc]
  | @frame a f xs hf hxs ih =>
      rw [less_of_frame hf, less_of_frame hf]
      cases hb with
      | atom hy =>
          obtain ⟨z, hz, -⟩ := exists_atom_of_equals hy h
          rw [frame_of_atom hy, frame_of_atom hz]
      | @frame _ g ys hg hys =>
          obtain ⟨zs, hc, hzs⟩ := (equals_of_frame hg c).mp h
          have hitems : lessItems? xs ys = lessItems? xs zs := by
            clear hf hg hc h
            induction hzs generalizing xs with
            | nil => rfl
            | @cons y z ys zs hyz _ ihs =>
                cases xs with
                | nil => rfl
                | cons x xs =>
                    simp only [lessItems?]
                    rw [equals_congr_right (hys _ List.mem_cons_self) hyz (hxs x List.mem_cons_self),
                      ih x List.mem_cons_self (hys _ List.mem_cons_self) hyz,
                      ihs (fun u hu => hxs u (List.mem_cons_of_mem _ hu))
                        (fun u hu => ih u (List.mem_cons_of_mem _ hu))
                        (fun u hu => hys u (List.mem_cons_of_mem _ hu))]
          simp only [hg, hc, Option.bind_some, hitems]

theorem Dictless.parts {a : Value} {f : Frame} {xs : List Value} (ha : Dictless a)
    (hf : a.frame? = some (f, xs)) : ∀ x ∈ xs, Dictless x := by
  cases ha with
  | atom hx => cases (frame_of_atom hx).symm.trans hf
  | frame hf' hxs =>
      cases hf'.symm.trans hf
      exact hxs

theorem equals_false_symm {a b : Value} (hb : Dictless b) (h : equals a b = false) :
    equals b a = false := by
  rw [← Bool.not_eq_true] at h ⊢
  exact fun hba => h (equals_symm hb hba)

/-- What comes before another is not equal to it, and does not come after it. -/
theorem of_less {a b : Value} (ha : Dictless a) (hb : Dictless b) (h : less? a b = some true) :
    equals a b = false ∧ less? b a = some false := by
  induction ha generalizing b with
  | atom hx =>
      obtain ⟨y, hy, hxy⟩ := exists_atom_of_less hx h
      rw [equals_of_atom hx, less_of_atom hy, hx, hy]
      exact Atom.of_less hxy
  | @frame a f xs hf hxs ih =>
      obtain ⟨ys, hg, hsequence, hitems⟩ := exists_frame_of_less hf h
      have hys := hb.parts hg
      rw [less_of_frames hg hf hsequence]
      have hof : ¬ List.Forall₂ (fun x y => equals x y = true) xs ys ∧
          lessItems? ys xs = some false := by
        clear hf hg hb h
        induction xs generalizing ys with
        | nil => cases ys <;> simp_all [lessItems?]
        | cons x xs ihs =>
            cases ys with
            | nil => simp [lessItems?] at hitems
            | cons y ys =>
                simp only [lessItems?] at hitems ⊢
                rw [List.forall₂_cons]
                by_cases hxy : equals x y = true
                · rw [if_pos hxy] at hitems
                  rw [if_pos (equals_symm (hxs x List.mem_cons_self) hxy)]
                  have hrest := ihs (fun u hu => hxs u (List.mem_cons_of_mem _ hu))
                    (fun u hu => ih u (List.mem_cons_of_mem _ hu)) ys hitems
                    (fun u hu => hys u (List.mem_cons_of_mem _ hu))
                  exact ⟨fun hall => hrest.1 hall.2, hrest.2⟩
                · rw [if_neg hxy] at hitems
                  obtain ⟨hne, hless⟩ := ih x List.mem_cons_self (hys y List.mem_cons_self) hitems
                  rw [equals_false_symm (hys y List.mem_cons_self) hne]
                  exact ⟨fun hall => hxy hall.1, hless⟩
      refine ⟨?_, hof.2⟩
      rw [← Bool.not_eq_true, equals_of_frame hf]
      rintro ⟨ys', hg', hequal⟩
      cases hg.symm.trans hg'
      exact hof.1 hequal

theorem less_trans {a b c : Value} (ha : Dictless a) (hb : Dictless b) (hc : Dictless c)
    (h : less? a b = some true) (h' : less? b c = some true) : less? a c = some true := by
  induction ha generalizing b c with
  | atom hx =>
      obtain ⟨y, hy, hxy⟩ := exists_atom_of_less hx h
      obtain ⟨z, hz, hyz⟩ := exists_atom_of_less hy h'
      rw [less_of_atom hx, hz]
      exact Atom.less_trans hxy hyz
  | @frame a f xs hf hxs ih =>
      obtain ⟨ys, hg, hsequence, hab⟩ := exists_frame_of_less hf h
      obtain ⟨zs, hg', -, hbc⟩ := exists_frame_of_less hg h'
      have hys := hb.parts hg
      have hzs := hc.parts hg'
      rw [less_of_frames hf hg' hsequence]
      clear hf hg hg' hb hc h h'
      induction xs generalizing ys zs with
      | nil =>
          cases ys with
          | nil => simp [lessItems?] at hab
          | cons y ys => cases zs <;> simp_all [lessItems?]
      | cons x xs ihs =>
          cases ys with
          | nil => simp [lessItems?] at hab
          | cons y ys =>
              cases zs with
              | nil => simp [lessItems?] at hbc
              | cons z zs =>
                  simp only [lessItems?] at hab hbc ⊢
                  have hx := hxs x List.mem_cons_self
                  have hy := hys y List.mem_cons_self
                  have hz := hzs z List.mem_cons_self
                  by_cases hxy : equals x y = true
                  · rw [if_pos hxy] at hab
                    rw [equals_congr_left hx hxy, less_congr_left hx hxy]
                    by_cases hyz : equals y z = true
                    · rw [if_pos hyz] at hbc ⊢
                      exact ihs (fun u hu => hxs u (List.mem_cons_of_mem _ hu))
                        (fun u hu => ih u (List.mem_cons_of_mem _ hu)) ys hab zs hbc
                        (fun u hu => hys u (List.mem_cons_of_mem _ hu))
                        (fun u hu => hzs u (List.mem_cons_of_mem _ hu))
                    · rwa [if_neg hyz] at hbc ⊢
                  · rw [if_neg hxy] at hab
                    by_cases hyz : equals y z = true
                    · rw [← equals_congr_right hy hyz hx, if_neg hxy,
                        ← less_congr_right hy hyz hx]
                      exact hab
                    · rw [if_neg hyz] at hbc
                      have hxz := ih x List.mem_cons_self hy hz hab hbc
                      rw [(of_less hx hz hxz).1]
                      exact hxz

/-- Whether two values have an order does not depend on which of them is asked about. -/
theorem less_isSome_comm {a b : Value} (ha : Dictless a) (hb : Dictless b) :
    (less? a b).isSome = (less? b a).isSome := by
  induction ha generalizing b with
  | atom hx =>
      rw [less_of_atom hx]
      cases hb with
      | atom hy =>
          rw [less_of_atom hy, hx, hy]
          exact Atom.less_isSome_comm _ _
      | frame hg => simp [less_of_frame hg, frame_of_atom hx, atom_of_frame hg]
  | @frame a f xs hf hxs ih =>
      cases hb with
      | atom hy => simp [less_of_atom hy, less_of_frame hf, frame_of_atom hy, atom_of_frame hf]
      | @frame _ g ys hg hys =>
          have hitems : (lessItems? xs ys).isSome = (lessItems? ys xs).isSome := by
            clear hf hg
            induction xs generalizing ys with
            | nil => cases ys <;> simp [lessItems?]
            | cons x xs ihs =>
                cases ys with
                | nil => simp [lessItems?]
                | cons y ys =>
                    simp only [lessItems?]
                    have hx := hxs x List.mem_cons_self
                    have hy := hys y List.mem_cons_self
                    by_cases hxy : equals x y = true
                    · rw [if_pos hxy, if_pos (equals_symm hx hxy)]
                      exact ihs (fun u hu => hxs u (List.mem_cons_of_mem _ hu))
                        (fun u hu => ih u (List.mem_cons_of_mem _ hu))
                        (fun u hu => hys u (List.mem_cons_of_mem _ hu))
                    · rw [if_neg hxy, if_neg fun hyx => hxy (equals_symm hy hyx)]
                      exact ih x List.mem_cons_self hy
          simp only [less_of_frame hf, less_of_frame hg, hf, hg, Option.bind_some]
          by_cases hfg : g = f
          · subst hfg
            cases g.isSequence <;> simp [hitems]
          · simp [hfg, Ne.symm hfg]

theorem exists_atom_of_orderKind {a : Value} {kind : OrderKind} (h : a.orderKind? = some kind) :
    ∃ x, a.atom? = some x ∧ x.kind? = some kind := by
  cases a <;> simp_all [orderKind?, byteContent?, atom?, Atom.kind?]

/-- Values of one kind have an order. -/
theorem isSome_of_orderKind {a b : Value} {kind : OrderKind} (ha : a.orderKind? = some kind)
    (hb : b.orderKind? = some kind) : (less? a b).isSome = true := by
  obtain ⟨x, hx, hkind⟩ := exists_atom_of_orderKind ha
  obtain ⟨y, hy, hkind'⟩ := exists_atom_of_orderKind hb
  rw [less_of_atom hx, hy]
  cases x <;> cases y <;> simp_all [Atom.kind?, Atom.less?]
  all_goals
    rw [← hkind] at hkind'
    cases hkind'

/-! ### Where all is told -/

/-- Where the order of values looks, there is no number that is none. -/
inductive Placed : Value → Prop
  | atom {v x} : v.atom? = some x → x.IsPlaced → Placed v
  | sequence {v f vs} : v.frame? = some (f, vs) → f.isSequence = true →
      (∀ u ∈ vs, Placed u) → Placed v
  | other {v} : v.atom? = Option.none → (∀ f vs, v.frame? = some (f, vs) → f.isSequence = false) →
      Placed v

theorem Placed.isPlaced {a : Value} {x : Atom} (h : Placed a) (hx : a.atom? = some x) :
    x.IsPlaced := by
  cases h with
  | atom hx' hplaced =>
      cases hx'.symm.trans hx
      exact hplaced
  | sequence hf => cases (atom_of_frame hf).symm.trans hx
  | other hnone => cases hnone.symm.trans hx

theorem Placed.parts {a : Value} {f : Frame} {xs : List Value} (h : Placed a)
    (hf : a.frame? = some (f, xs)) (hsequence : f.isSequence = true) : ∀ x ∈ xs, Placed x := by
  cases h with
  | atom hx => cases (frame_of_atom hx).symm.trans hf
  | sequence hf' _ hxs =>
      cases hf'.symm.trans hf
      exact hxs
  | other _ hother => simp [hother f xs hf] at hsequence

/-- Of two different values one comes before the other, if they have an order. -/
theorem less_of_not_less {a b : Value} (ha : Dictless a) (hb : Dictless b) (hpa : Placed a)
    (hpb : Placed b) (hne : equals a b = false) (h : less? a b = some false) :
    less? b a = some true := by
  induction ha generalizing b with
  | atom hx =>
      obtain ⟨y, hy, hxy⟩ := exists_atom_of_less hx h
      rw [equals_of_atom hx, hy] at hne
      rw [less_of_atom hy, hx]
      exact Atom.less_of_not_less (hpa.isPlaced hx) (hpb.isPlaced hy) hne hxy
  | @frame a f xs hf hxs ih =>
      obtain ⟨ys, hg, hsequence, hitems⟩ := exists_frame_of_less hf h
      have hys := hb.parts hg
      have hpxs := hpa.parts hf hsequence
      have hpys := hpb.parts hg hsequence
      rw [less_of_frames hg hf hsequence]
      have hdiffer : ¬ List.Forall₂ (fun x y => equals x y = true) xs ys := fun hall =>
        Bool.eq_false_iff.mp hne ((equals_of_frame hf b).mpr ⟨ys, hg, hall⟩)
      clear hf hg hb hpa hpb h hne
      induction xs generalizing ys with
      | nil => cases ys <;> simp_all [lessItems?]
      | cons x xs ihs =>
          cases ys with
          | nil => simp [lessItems?]
          | cons y ys =>
              simp only [lessItems?] at hitems ⊢
              rw [List.forall₂_cons] at hdiffer
              have hx := hxs x List.mem_cons_self
              have hy := hys y List.mem_cons_self
              by_cases hxy : equals x y = true
              · rw [if_pos hxy] at hitems
                rw [if_pos (equals_symm hx hxy)]
                exact ihs (fun u hu => hxs u (List.mem_cons_of_mem _ hu))
                  (fun u hu => ih u (List.mem_cons_of_mem _ hu))
                  ys hitems (fun u hu => hys u (List.mem_cons_of_mem _ hu))
                  (fun u hu => hpxs u (List.mem_cons_of_mem _ hu))
                  (fun u hu => hpys u (List.mem_cons_of_mem _ hu)) fun hall => hdiffer ⟨hxy, hall⟩
              · rw [if_neg hxy] at hitems
                rw [if_neg fun hyx => hxy (equals_symm hy hyx)]
                exact ih x List.mem_cons_self hy (hpxs x List.mem_cons_self)
                  (hpys y List.mem_cons_self) (Bool.not_eq_true _ ▸ hxy) hitems

end Value
end InkBindings
