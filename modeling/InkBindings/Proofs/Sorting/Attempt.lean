import InkBindings.Proofs.Fallible
import InkBindings.Proofs.Sorting.Merge
import InkBindings.Sorting.Attempt
import Mathlib.Data.List.Pairwise
import Mathlib.Data.List.Sort

/-!
Sorting arranges the items if each two of them have an order, and is stuck otherwise. Merging two
neighbouring runs keeps what the runs so far hold, and one run is left in the end. Sorting by merging
halves asks for an order only among the items.
-/

namespace InkBindings.Sorting

variable {α : Type} {less? : α → α → Option Bool} {R : α → α → Prop}

namespace Progress

variable {clear : Prop} {all : List α} {p : Progress α}

/-- The runs hold these items, and each run is in order if it is clear which. -/
structure Fits (less? : α → α → Option Bool) (R : α → α → Prop) (clear : Prop) (all : List α)
    (p : Progress α) : Prop where
  perm : p.items.Perm all
  told : clear → all.Pairwise (Told less? R)
  nonempty : ∀ r ∈ p.runs, r.items ≠ []
  sorted : clear → ∀ r ∈ p.runs, r.items.Pairwise R

/-- The step leads to runs of the same items with a further property, or is stuck with the items. -/
def Keeps (less? : α → α → Option Bool) (R : α → α → Prop) (clear : Prop) (all : List α)
    (P : Progress α → Prop) : Attempt α (Progress α) → Prop
  | .ok p => p.Fits less? R clear all ∧ P p
  | .error left => Stuck less? all left

theorem Keeps.bind {P Q : Progress α → Prop} {s : Attempt α (Progress α)}
    {f : Progress α → Attempt α (Progress α)} (h : Keeps less? R clear all P s)
    (hf : ∀ p, p.Fits less? R clear all → P p → Keeps less? R clear all Q (f p)) :
    Keeps less? R clear all Q (s >>= f) := by
  cases s with
  | ok p => exact hf p h.1 h.2
  | error left => exact h

theorem Keeps.mono {P Q : Progress α → Prop} {s : Attempt α (Progress α)}
    (h : Keeps less? R clear all P s) (hPQ : ∀ p, P p → Q p) : Keeps less? R clear all Q s := by
  cases s with
  | ok p => exact ⟨h.1, hPQ p h.2⟩
  | error left => exact h

theorem items_cons (run : PlacedRun α) (runs : List (PlacedRun α)) (patience : Nat) :
    items ⟨run :: runs, patience⟩ = items ⟨runs, patience⟩ ++ run.items := by
  simp [items]

theorem Fits.of_perm {all' : List α} (h : p.Fits less? R clear all) (hperm : all.Perm all') :
    p.Fits less? R clear all' :=
  ⟨h.perm.trans hperm, fun hclear => told_of_perm hperm (h.told hclear), h.nonempty, h.sorted⟩

theorem Fits.parts {run : PlacedRun α} {runs : List (PlacedRun α)} (h : p.Fits less? R clear all)
    (hruns : p.runs = run :: runs) :
    (items ⟨runs, p.patience⟩ ++ run.items).Perm all ∧
      Fits less? R clear (items ⟨runs, p.patience⟩) ⟨runs, p.patience⟩ := by
  have hperm : (items ⟨runs, p.patience⟩ ++ run.items).Perm all := by
    rw [← items_cons, ← hruns]
    exact h.perm
  refine ⟨hperm, .rfl, fun hclear => ?_, fun r hr => ?_, fun hclear r hr => ?_⟩
  · exact (List.pairwise_append.mp (told_of_perm hperm.symm (h.told hclear))).1
  · exact h.nonempty r (hruns ▸ List.mem_cons_of_mem _ hr)
  · exact h.sorted hclear r (hruns ▸ List.mem_cons_of_mem _ hr)

/-- A run is put after the others. -/
theorem Fits.cons {run : PlacedRun α} {runs : List (PlacedRun α)} {patience patience' : Nat}
    {before : List α} (h : Fits less? R clear before ⟨runs, patience⟩)
    (hperm : (before ++ run.items).Perm all) (htold : clear → all.Pairwise (Told less? R))
    (hne : run.items ≠ []) (hsorted : clear → run.items.Pairwise R) :
    Fits less? R clear all ⟨run :: runs, patience'⟩ := by
  refine ⟨?_, htold, List.forall_mem_cons.mpr ⟨hne, h.nonempty⟩,
    fun hclear => List.forall_mem_cons.mpr ⟨hsorted hclear, h.sorted hclear⟩⟩
  rw [items_cons]
  exact (h.perm.append_right _).trans hperm

section
variable (htrans : ∀ a b c, R a b → R b c → R a c)
include htrans

theorem mergeLast_keeps (h : p.Fits less? R clear all) :
    Keeps less? R clear all (fun p' =>
      p'.runs.length = p.runs.length - min 1 (p.runs.length - 1)) (mergeLast less? p) := by
  unfold mergeLast
  split
  · next right left before hruns =>
      have hright := h.parts hruns
      have hleft := hright.2.parts rfl
      have hperm : (items ⟨before, p.patience⟩ ++ (left.items ++ right.items)).Perm all := by
        rw [← List.append_assoc]
        exact (hleft.1.append_right _).trans hright.1
      have htold (hclear : clear) : (left.items ++ right.items).Pairwise (Told less? R) :=
        (List.pairwise_append.mp (told_of_perm hperm.symm (h.told hclear))).2.1
      have hmerge := merge_fits htrans p.patience (h.nonempty right (by simp [hruns])) htold
        (fun hclear => h.sorted hclear left (by simp [hruns]))
        (fun hclear => h.sorted hclear right (by simp [hruns]))
      split
      · next merged patience heq =>
          rw [heq] at hmerge
          refine ⟨hleft.2.cons ((hmerge.perm.append_left _).trans hperm) h.told ?_ hmerge.sorted, ?_⟩
          · intro (hnil : merged = [])
            have hlength := hmerge.perm.length_eq
            have hpos := List.length_pos_iff.mpr (h.nonempty left (by simp [hruns]))
            simp only [hnil, List.length_append, List.length_nil] at hlength
            omega
          · simp [hruns]
      · next stuck heq =>
          rw [heq] at hmerge
          refine hmerge.mono ⟨_, List.perm_append_comm.trans hperm⟩ ?_
          exact (hmerge.perm.append_left _).trans hperm
  · next hshort =>
      refine ⟨h, ?_⟩
      cases hruns : p.runs with
      | nil => simp [hruns]
      | cons last before =>
          cases before with
          | nil => simp [hruns]
          | cons left before => exact absurd hruns (hshort last left before)

/-- The last run waits. -/
theorem mergeInner_keeps (h : p.Fits less? R clear all) :
    Keeps less? R clear all (fun p' =>
      p'.runs.length = p.runs.length - min 1 (p.runs.length - 2)) (mergeInner less? p) := by
  unfold mergeInner
  split
  · next last before hruns =>
      obtain ⟨hperm, hbefore⟩ := h.parts hruns
      have hmerge := mergeLast_keeps htrans hbefore
      cases hresult : mergeLast less? ⟨before, p.patience⟩ with
      | ok p' =>
          rw [hresult] at hmerge
          refine ⟨hmerge.1.cons hperm h.told (h.nonempty last (by simp [hruns]))
            (fun hclear => h.sorted hclear last (by simp [hruns])), ?_⟩
          have hlength := hmerge.2
          simp only [hruns, List.length_cons] at hlength ⊢
          omega
      | error left =>
          rw [hresult] at hmerge
          have hstuck : Stuck less? _ left := hmerge
          exact hstuck.mono ⟨_, hperm⟩ ((hstuck.perm.append_right _).trans hperm)
  · next hruns => exact ⟨h, by simp [hruns]⟩

theorem settle_keeps (depth fuel : Nat) (h : p.Fits less? R clear all) :
    Keeps less? R clear all (fun p' => p.runs ≠ [] → p'.runs ≠ []) (settle less? depth fuel p) := by
  induction fuel generalizing p with
  | zero => exact ⟨h, id⟩
  | succ fuel ih =>
      unfold settle
      split
      · next left before hruns =>
          split
          · refine (mergeLast_keeps htrans h).bind fun p₁ hfits hlength => ?_
            refine (ih hfits).mono fun p₂ hp₂ _ => hp₂ fun hnil => ?_
            simp [hnil, hruns] at hlength
          · exact ⟨h, id⟩
      · exact ⟨h, id⟩

/-- A new run lies behind the others, which are settled first. -/
theorem add_ok {size : Nat} {run : List α} {p' : Progress α} (h : p.Fits less? R clear all)
    (htold : clear → (all ++ run).Pairwise (Told less? R)) (hne : run ≠ [])
    (hsorted : clear → run.Pairwise R) (hok : p.add less? size run = .ok p') :
    p'.Fits less? R clear (all ++ run) := by
  unfold add at hok
  split at hok
  · next hruns =>
      cases hok
      have hnil : Fits less? R clear all ⟨[], p.patience⟩ :=
        ⟨by simpa [items, hruns] using h.perm, h.told, nofun, fun _ => nofun⟩
      exact hnil.cons .rfl htold hne hsorted
  · next last before hruns =>
      obtain ⟨p₁, hsettle, hok⟩ := bind_ok hok
      obtain ⟨hfits, hruns₁⟩ : Keeps less? R clear all (fun p' => p.runs ≠ [] → p'.runs ≠ [])
          (.ok p₁) := hsettle ▸ settle_keeps htrans _ _ h
      split at hok
      · next hnil => exact absurd hnil (hruns₁ (by simp [hruns]))
      · next last₁ before₁ hlast =>
          cases hok
          obtain ⟨hperm, hbefore⟩ := hfits.parts hlast
          have hlast₁ : last₁ ∈ p₁.runs := by simp [hlast]
          refine Fits.cons (?_ : Fits less? R clear all ⟨_, p₁.patience⟩) .rfl htold hne hsorted
          refine hbefore.cons hperm hfits.told ?_ ?_
          · exact hfits.nonempty last₁ hlast₁
          · exact fun hclear => hfits.sorted hclear last₁ hlast₁

theorem add_error {size : Nat} {run left : List α} (h : p.Fits less? R clear all)
    (herror : p.add less? size run = .error left) : Stuck less? all left := by
  unfold add at herror
  split at herror
  · cases herror
  · next last before hruns =>
      obtain hsettle | ⟨p₁, -, hok⟩ := bind_error_iff.mp herror
      · have hsettled : Keeps less? R clear all (fun p' => p.runs ≠ [] → p'.runs ≠ [])
            (.error left) := hsettle ▸ settle_keeps htrans _ _ h
        exact hsettled
      · split at hok <;> cases hok

theorem addAll_keeps (size least fuel : Nat) {rest : List α} (h : p.Fits less? R clear all)
    (htold : clear → (all ++ rest).Pairwise (Told less? R)) (hfuel : rest.length ≤ fuel) :
    Keeps less? R clear (all ++ rest) (fun _ => True) (addAll less? size least fuel p rest) := by
  induction fuel generalizing p all rest with
  | zero =>
      obtain rfl := List.length_eq_zero_iff.mp (Nat.le_zero.mp hfuel)
      rw [List.append_nil]
      exact ⟨h, trivial⟩
  | succ fuel ih =>
      cases rest with
      | nil =>
          rw [List.append_nil]
          exact ⟨h, trivial⟩
      | cons x rest =>
          unfold addAll
          cases htake : takeRun less? least (x :: rest) with
          | error left =>
              have hstuck := takeRun_error htake
              refine hstuck.mono ⟨p.items, List.perm_append_comm.trans (h.perm.append_right _)⟩ ?_
              simpa using h.perm.append hstuck.perm
          | ok r =>
              obtain ⟨run, after⟩ := r
              obtain ⟨taken, htaken, hrun, hshorter⟩ := takeRun_ok htrans htake
              have hlt := hshorter (by simp)
              rw [htaken, List.length_append] at hlt
              rw [htaken] at htold ⊢
              have hperm : (all ++ run).Perm (all ++ taken) := hrun.perm.append_left all
              rw [← List.append_assoc] at htold
              have htoldTaken (hclear : clear) : (all ++ taken).Pairwise (Told less? R) :=
                (List.pairwise_append.mp (htold hclear)).1
              have hne : run ≠ [] := by
                rintro rfl
                simp only [List.nil_perm.mp hrun.perm, List.length_nil] at hlt
                omega
              change Keeps less? R clear _ _ (Attempt.within [] (run ++ after) (p.add less? size run)
                >>= fun p => addAll less? size least fuel p after)
              cases hadd : p.add less? size run with
              | error left =>
                  have hstuck := add_error htrans h hadd
                  refine hstuck.mono ⟨taken ++ after, .rfl⟩ ?_
                  simpa using hstuck.perm.append (hrun.perm.append_right after)
              | ok p' =>
                  have hfits := add_ok htrans h
                    (fun hclear => told_of_perm hperm.symm (htoldTaken hclear)) hne
                    (fun hclear => hrun.sorted (List.pairwise_append.mp (htoldTaken hclear)).2.1) hadd
                  have hlength := congrArg List.length htaken
                  simp only [List.length_append, List.length_cons] at hlength hfuel
                  have hrest := ih (hfits.of_perm hperm) htold (by omega)
                  rw [List.append_assoc] at hrest
                  exact hrest

/-- One run is left of all if there are enough rounds. -/
theorem mergeAll_keeps (fuel : Nat) (h : p.Fits less? R clear all) (hfuel : p.runs.length ≤ fuel) :
    Keeps less? R clear all (fun p' => p'.runs.length ≤ 1) (mergeAll less? fuel p) := by
  induction fuel generalizing p with
  | zero => exact ⟨h, by omega⟩
  | succ fuel ih =>
      unfold mergeAll
      split
      · next last middle first before hruns =>
          have hstep : Keeps less? R clear all (fun p' => p'.runs.length < p.runs.length)
              (if first.items.length < last.items.length then mergeInner less? p
                else mergeLast less? p) := by
            split
            · refine (mergeInner_keeps htrans h).mono fun p' hp' => ?_
              simp only [hruns, List.length_cons] at hp' ⊢
              omega
            · refine (mergeLast_keeps htrans h).mono fun p' hp' => ?_
              simp only [hruns, List.length_cons] at hp' ⊢
              omega
          exact hstep.bind fun p' hfits hlt => ih hfits (by omega)
      · next hshort =>
          refine (mergeLast_keeps htrans h).mono fun p' hp' => ?_
          have htwo : p.runs.length ≤ 2 := by
            by_contra hthree
            obtain ⟨last, middle, first, before, hruns⟩ : ∃ last middle first before,
                p.runs = last :: middle :: first :: before := by
              match hruns : p.runs with
              | [] | [_] | [_, _] => simp [hruns] at hthree
              | last :: middle :: first :: before => exact ⟨last, middle, first, before, rfl⟩
            exact hshort last middle first before hruns
          omega

end

end Progress

/-- What sorting comes to: the items in order, or the items as they lie where two have no order. -/
def Sorts (less? : α → α → Option Bool) (R : α → α → Prop) (items : List α) :
    Attempt α (List α) → Prop
  | .ok sorted => Arranged R (items.Pairwise (Told less? R)) items sorted
  | .error left => Stuck less? items left

theorem sort_sorts (htrans : ∀ a b c, R a b → R b c → R a c)
    (items : List α) : Sorts less? R items (sort less? items) := by
  have hnone : Progress.Fits less? R (items.Pairwise (Told less? R)) []
      ⟨[], Merging.worthwhile⟩ := ⟨.rfl, fun _ => .nil, nofun, fun _ => nofun⟩
  have hadded := Progress.addAll_keeps htrans items.length (leastRun items.length false)
    items.length hnone (fun htold : items.Pairwise (Told less? R) => htold) (Nat.le_refl _)
  change Sorts less? R items
    (Progress.addAll less? items.length (leastRun items.length false) items.length
        ⟨[], Merging.worthwhile⟩ items >>= fun p =>
      Progress.mergeAll less? p.runs.length p >>= fun p => .ok p.items)
  cases hadd : Progress.addAll less? items.length (leastRun items.length false) items.length
      ⟨[], Merging.worthwhile⟩ items with
  | error left =>
      rw [hadd] at hadded
      exact hadded
  | ok p =>
      rw [hadd] at hadded
      have hmerged := Progress.mergeAll_keeps htrans p.runs.length hadded.1 (Nat.le_refl _)
      rw [bind_of_ok rfl]
      cases hmerge : Progress.mergeAll less? p.runs.length p with
      | error left =>
          rw [hmerge] at hmerged
          exact hmerged
      | ok p' =>
          rw [hmerge] at hmerged
          obtain ⟨hfits, hone⟩ := hmerged
          refine ⟨hfits.perm, fun htold => ?_⟩
          match hruns : p'.runs with
          | [] => simp [Progress.items, hruns]
          | [last] => simpa [Progress.items, hruns] using hfits.sorted htold last (by simp [hruns])
          | _ :: _ :: _ => simp [hruns] at hone

/-- Items of which none comes before the one ahead of it stay where they are. -/
theorem sort_of_isChain {items : List α}
    (h : items.IsChain fun a b => less? b a = some false) : sort less? items = .ok items := by
  cases items with
  | nil => rfl
  | cons x rest =>
      have hadd : Progress.addAll less? (x :: rest).length (leastRun (x :: rest).length false)
          (x :: rest).length ⟨[], Merging.worthwhile⟩ (x :: rest) =
            .ok ⟨[⟨0, x :: rest, 0⟩], Merging.worthwhile⟩ := by
        rw [List.length_cons, Progress.addAll, takeRun_of_isChain _ h]
        · cases rest.length <;> rfl
        · exact nofun
      rw [sort, hadd]
      simp [Progress.mergeAll, Progress.mergeLast, Progress.items, bind, Except.bind, pure,
        Except.pure]

/-! ### A comparison that is an order only among the items -/

section
variable {le : α → α → Bool} {items : List α}

/-- The comparison puts the two items in their order. -/
def Decides (le : α → α → Bool) (R : α → α → Prop) (a b : α) : Prop :=
  R a b ∧ le a b = true ∧ le b a = false ∨ R b a ∧ le b a = true ∧ le a b = false

instance : Std.Symm (Decides le R) := ⟨fun _ _ => Or.symm⟩

/-- A comparison need not be an order beyond the items. -/
theorem pairwise_mergeSort_of_mem
    (htrans : ∀ a ∈ items, ∀ b ∈ items, ∀ c ∈ items, le a b = true → le b c = true → le a c = true)
    (htotal : ∀ a ∈ items, ∀ b ∈ items, (le a b || le b a) = true) :
    (items.mergeSort le).Pairwise fun a b => le a b = true := by
  let inside (a b : { x // x ∈ items }) : Bool := le a.1 b.1
  have hsorted : (items.attach.mergeSort inside).Pairwise fun a b => inside a b = true :=
    List.pairwise_mergeSort
      (fun a b c : { x // x ∈ items } => htrans a.1 a.2 b.1 b.2 c.1 c.2)
      (fun a b : { x // x ∈ items } => htotal a.1 a.2 b.1 b.2) items.attach
  have hmap : (items.attach.mergeSort inside).map Subtype.val = items.mergeSort le := by
    rw [List.map_mergeSort (s := le) fun _ _ _ _ => rfl, List.attach_map_subtype_val]
  rw [← hmap]
  exact List.pairwise_map.mpr hsorted

/-- What the comparison decides between any two of the items is how they are sorted. -/
theorem mergeSort_sorted (htrans : ∀ a b c, R a b → R b c → R a c) (hasymm : ∀ a b, R a b → ¬ R b a)
    (hrefl : ∀ a ∈ items, le a a = true) (hdecides : items.Pairwise (Decides le R)) :
    (items.mergeSort le).Pairwise R := by
  have hcases {a b : α} (ha : a ∈ items) (hb : b ∈ items) : a = b ∨ Decides le R a b := by
    by_cases hab : a = b
    · exact .inl hab
    · exact .inr (hdecides.forall ha hb hab)
  have hof {a b : α} (ha : a ∈ items) (hb : b ∈ items) (hle : le a b = true) : a = b ∨ R a b := by
    refine (hcases ha hb).imp_right fun h => ?_
    rcases h with h | h
    · exact h.1
    · simp [h.2.2] at hle
  have hle {a b : α} (ha : a ∈ items) (hb : b ∈ items) (h : a = b ∨ R a b) : le a b = true := by
    rcases h with rfl | hab
    · exact hrefl a ha
    · rcases hcases ha hb with rfl | hdec | hdec
      · exact hrefl a ha
      · exact hdec.2.1
      · exact absurd hdec.1 (hasymm a b hab)
  have hsorted : (items.mergeSort le).Pairwise fun a b => le a b = true :=
    pairwise_mergeSort_of_mem (fun a ha b hb c hc hab hbc => by
      refine hle ha hc ?_
      rcases hof ha hb hab with rfl | hab
      · exact hof ha hc hbc
      · rcases hof hb hc hbc with rfl | hbc
        · exact .inr hab
        · exact .inr (htrans a b c hab hbc))
    (fun a ha b hb => by
      rcases hcases ha hb with rfl | h | h
      · simp [hrefl a ha]
      · simp [h.2.1]
      · simp [h.2.1])
  have hdecided := ((List.mergeSort_perm items le).pairwise_iff Or.symm).mpr hdecides
  refine (hsorted.and hdecided).imp fun ⟨hab, hdec⟩ => ?_
  rcases hdec with hdec | hdec
  · exact hdec.1
  · simp [hdec.2.2] at hab

end

end InkBindings.Sorting
