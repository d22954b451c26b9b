import Mathlib.Data.List.Forall2

/-!
What computations that may fail have done when they have not.
-/

namespace InkBindings

variable {ε α β : Type}

theorem bind_ok {x : Except ε α} {f : α → Except ε β} {b : β} (h : (x >>= f) = .ok b) :
    ∃ a, x = .ok a ∧ f a = .ok b := by
  cases x with
  | error e => cases h
  | ok a => exact ⟨a, rfl, h⟩

theorem bind_of_ok {x : Except ε α} {a : α} (h : x = .ok a) (f : α → Except ε β) :
    (x >>= f) = f a := by
  rw [h]
  rfl

theorem bind_error_iff {x : Except ε α} {f : α → Except ε β} {e : ε} :
    (x >>= f) = .error e ↔ x = .error e ∨ ∃ a, x = .ok a ∧ f a = .error e := by
  cases x with
  | error e' =>
      refine ⟨fun h => .inl ?_, ?_⟩
      · cases h
        rfl
      · rintro (h | ⟨a, h, -⟩)
        · cases h
          rfl
        · cases h
  | ok a =>
      refine ⟨fun h => .inr ⟨a, rfl, h⟩, ?_⟩
      rintro (h | ⟨_, h, he⟩)
      · cases h
      · cases h
        exact he

/-- What comes after the first element that fails is not looked at. -/
theorem mapM_error_iff {f : α → Except ε β} {as : List α} {e : ε} :
    as.mapM f = .error e ↔ ∃ before a after, as = before ++ a :: after ∧
      (∀ x ∈ before, ∃ b, f x = .ok b) ∧ f a = .error e := by
  induction as with
  | nil =>
      refine ⟨(nomatch ·), ?_⟩
      rintro ⟨before, a, after, h, -⟩
      simp at h
  | cons first rest ih =>
      have hrest {b : β} :
          (rest.mapM f >>= fun bs => pure (b :: bs)) = .error e ↔ rest.mapM f = .error e := by
        rw [bind_error_iff]
        exact or_iff_left fun ⟨_, _, h⟩ => nomatch h
      rw [List.mapM_cons, bind_error_iff]
      simp only [hrest, ih]
      constructor
      · rintro (h | ⟨b, hb, before, a, after, rfl, hbefore, ha⟩)
        · exact ⟨[], first, rest, rfl, nofun, h⟩
        · exact ⟨first :: before, a, after, rfl, List.forall_mem_cons.mpr ⟨⟨b, hb⟩, hbefore⟩, ha⟩
      · rintro ⟨before, a, after, heq, hbefore, ha⟩
        cases before with
        | nil =>
            obtain ⟨rfl, rfl⟩ := List.cons_eq_cons.mp heq
            exact .inl ha
        | cons x before =>
            obtain ⟨rfl, rfl⟩ := List.cons_eq_cons.mp heq
            obtain ⟨⟨b, hb⟩, hbefore⟩ := List.forall_mem_cons.mp hbefore
            exact .inr ⟨b, hb, before, a, after, rfl, hbefore, ha⟩

theorem forall₂_of_mapM {f : α → Except ε β} {as : List α} {bs : List β}
    (h : as.mapM f = .ok bs) : List.Forall₂ (fun a b => f a = .ok b) as bs := by
  induction as generalizing bs with
  | nil =>
      cases h
      exact .nil
  | cons a rest ih =>
      rw [List.mapM_cons] at h
      obtain ⟨b, ha, h⟩ := bind_ok h
      obtain ⟨others, hrest, h⟩ := bind_ok h
      cases h
      exact .cons ha (ih hrest)

theorem mapM_of_forall₂ {f : α → Except ε β} {as : List α} {bs : List β}
    (h : List.Forall₂ (fun a b => f a = .ok b) as bs) : as.mapM f = .ok bs := by
  induction h with
  | nil => rfl
  | cons hfirst _ ih =>
      rw [List.mapM_cons, hfirst, ih]
      rfl

theorem exists_mapM_ok {f : α → Except ε β} {as : List α}
    (h : ∀ a ∈ as, ∃ b, f a = .ok b) : ∃ bs, as.mapM f = .ok bs := by
  induction as with
  | nil => exact ⟨[], rfl⟩
  | cons a rest ih =>
      obtain ⟨b, hb⟩ := h a List.mem_cons_self
      obtain ⟨bs, hbs⟩ := ih fun a ha => h a (List.mem_cons_of_mem _ ha)
      refine ⟨b :: bs, ?_⟩
      rw [List.mapM_cons, hb, hbs]
      rfl

/-- The computation fails in no other way. -/
def FailsOnly (p : ε → Prop) (x : Except ε α) : Prop :=
  ∀ e, x = .error e → p e

namespace FailsOnly

variable {p : ε → Prop}

theorem ok (a : α) : FailsOnly p (.ok a : Except ε α) :=
  fun _ h => nomatch h

theorem bind {x : Except ε α} {f : α → Except ε β} (hx : FailsOnly p x)
    (hf : ∀ a, x = .ok a → FailsOnly p (f a)) : FailsOnly p (x >>= f) := by
  cases x with
  | error e =>
      intro e' h
      cases h
      exact hx e rfl
  | ok a => exact hf a rfl

theorem mapM {f : α → Except ε β} {as : List α} (h : ∀ a ∈ as, FailsOnly p (f a)) :
    FailsOnly p (as.mapM f) := by
  induction as with
  | nil => exact ok []
  | cons a rest ih =>
      rw [List.mapM_cons]
      refine (h a List.mem_cons_self).bind fun b _ => ?_
      refine (ih fun a ha => h a (List.mem_cons_of_mem _ ha)).bind fun bs _ => ?_
      exact ok (b :: bs)

end FailsOnly

theorem map_eq_map_iff_forall₂ {γ : Type} {f : α → γ} {g : β → γ} {as : List α} {bs : List β} :
    as.map f = bs.map g ↔ List.Forall₂ (fun a b => f a = g b) as bs := by
  rw [← List.forall₂_eq_eq_eq, List.forall₂_map_left_iff, List.forall₂_map_right_iff]

theorem forall₂_right {r : α → β → Prop} {as : List α} {bs : List β}
    (h : List.Forall₂ r as bs) {b : β} (hb : b ∈ bs) : ∃ a ∈ as, r a b := by
  induction h with
  | nil => cases hb
  | cons hab _ ih =>
      obtain rfl | hmem := List.mem_cons.mp hb
      · exact ⟨_, List.mem_cons_self, hab⟩
      · obtain ⟨a, ha, hr⟩ := ih hmem
        exact ⟨a, List.mem_cons_of_mem _ ha, hr⟩

/-- What holds between each two elements, one of either list, by two accounts of them. -/
theorem forall₂_and {p q : α → β → Prop} {as : List α} {bs : List β} (hp : List.Forall₂ p as bs)
    (hq : List.Forall₂ q as bs) : List.Forall₂ (fun a b => p a b ∧ q a b) as bs := by
  induction hp with
  | nil => exact .nil
  | cons hfirst _ ih =>
      cases hq with
      | cons hfirst' hrest => exact .cons ⟨hfirst, hfirst'⟩ (ih hrest)

theorem forall₂_imp_of_mem {r s : α → β → Prop} {as : List α} {bs : List β}
    (h : List.Forall₂ r as bs) (himp : ∀ a ∈ as, ∀ b ∈ bs, r a b → s a b) :
    List.Forall₂ s as bs := by
  induction h with
  | nil => exact .nil
  | cons hab _ ih =>
      exact .cons (himp _ List.mem_cons_self _ List.mem_cons_self hab) (ih fun a ha b hb =>
        himp a (List.mem_cons_of_mem _ ha) b (List.mem_cons_of_mem _ hb))

theorem forall₂_comp {γ : Type} {r : α → β → Prop} {s : α → γ → Prop} {t : β → γ → Prop}
    {as : List α} {bs : List β} {cs : List γ} (h : List.Forall₂ r as bs)
    (h' : List.Forall₂ s as cs) (himp : ∀ a b c, r a b → s a c → t b c) :
    List.Forall₂ t bs cs := by
  induction h generalizing cs with
  | nil =>
      cases h'
      exact .nil
  | cons hab _ ih =>
      cases h' with
      | cons hac hrest => exact .cons (himp _ _ _ hab hac) (ih hrest)

/-- What is made of related elements is related. -/
theorem forall₂_made {γ δ : Type} {r : α → β → Prop} {p : α → γ → Prop} {q : β → δ → Prop}
    {t : γ → δ → Prop} (hmade : ∀ a b c d, r a b → p a c → q b d → t c d) {as : List α}
    {bs : List β} (h : List.Forall₂ r as bs) {cs : List γ} {ds : List δ}
    (hp : List.Forall₂ p as cs) (hq : List.Forall₂ q bs ds) : List.Forall₂ t cs ds := by
  have hleft : List.Forall₂ (fun b c => ∃ a, r a b ∧ p a c) bs cs :=
    forall₂_comp h hp fun a b c hr hp => ⟨a, hr, hp⟩
  refine forall₂_comp hleft hq ?_
  rintro b c d ⟨a, hr, hp⟩ hq
  exact hmade a b c d hr hp hq

theorem forall₂_zip {γ δ : Type} {r : α → β → Prop} {s : γ → δ → Prop} {as : List α}
    {bs : List β} (h : List.Forall₂ r as bs) {cs : List γ} {ds : List δ}
    (h' : List.Forall₂ s cs ds) :
    List.Forall₂ (fun x y => r x.1 y.1 ∧ s x.2 y.2) (as.zip cs) (bs.zip ds) := by
  induction h generalizing cs ds with
  | nil => exact .nil
  | cons ha _ ih =>
      cases h' with
      | nil => exact .nil
      | cons hc hrest => exact .cons ⟨ha, hc⟩ (ih hrest)

theorem forall₂_zipIdx {r : α → β → Prop} {as : List α} {bs : List β}
    (h : List.Forall₂ r as bs) (place : Nat) :
    List.Forall₂ (fun x y => r x.1 y.1 ∧ x.2 = y.2) (as.zipIdx place) (bs.zipIdx place) := by
  induction h generalizing place with
  | nil => exact .nil
  | cons ha _ ih =>
      rw [List.zipIdx_cons, List.zipIdx_cons]
      exact .cons ⟨ha, rfl⟩ (ih _)

/-- What is found in related lists by related tests is related. -/
theorem rel_find {r : α → β → Prop} {p : α → Bool} {q : β → Bool}
    (hpq : ∀ a b, r a b → p a = q b) {as : List α} {bs : List β} (h : List.Forall₂ r as bs) :
    Option.Rel r (as.find? p) (bs.find? q) := by
  induction h with
  | nil => exact .none
  | @cons a b as bs hab _ ih =>
      rw [List.find?_cons, List.find?_cons, ← hpq a b hab]
      split
      · exact .some hab
      · exact ih

theorem mapM_congr {γ : Type} {r : α → β → Prop} {f : α → Except ε γ} {g : β → Except ε γ}
    {as : List α} {bs : List β} (h : List.Forall₂ r as bs) (hfg : ∀ a b, r a b → g b = f a) :
    bs.mapM g = as.mapM f := by
  induction h with
  | nil => rfl
  | cons ha _ ih => rw [List.mapM_cons, List.mapM_cons, hfg _ _ ha, ih]

theorem forall₂_map_same {γ : Type} {r : α → β → Prop} {f : γ → α} {g : γ → β} {xs : List γ} :
    List.Forall₂ r (xs.map f) (xs.map g) ↔ ∀ x ∈ xs, r (f x) (g x) := by
  rw [List.forall₂_map_left_iff, List.forall₂_map_right_iff, List.forall₂_same]

theorem forall_mem_iff_of_forall₂ {p : α → Prop} {q : β → Prop} {as : List α} {bs : List β}
    (h : List.Forall₂ (fun a b => p a ↔ q b) as bs) : (∀ a ∈ as, p a) ↔ ∀ b ∈ bs, q b := by
  induction h with
  | nil => exact ⟨nofun, nofun⟩
  | cons hfirst _ ih => rw [List.forall_mem_cons, List.forall_mem_cons, hfirst, ih]

end InkBindings
