import InkBindings.Proofs.Sorting.Run
import InkBindings.Sorting.Merge

/-!
Merging keeps sorted what is sorted. Seen from the side from which two runs are merged, what is
merged lies nearer than what is left of either run, and the last item of the run that was copied out
lies behind the whole other run; so the merge may stop when one of the runs is used up or that item
is all that is left of its run.
-/

namespace InkBindings.Sorting

variable {α : Type} {less? : α → α → Option Bool} {R : α → α → Prop}

/-- The first item comes nearer to the side than the second. -/
def Nearer (R : α → α → Prop) (side : Side) (a b : α) : Prop :=
  match side with
  | .front => R a b
  | .back => R b a

theorem nearer_trans (htrans : ∀ a b c, R a b → R b c → R a c)
    {side : Side} {a b c : α} (hab : Nearer R side a b) (hbc : Nearer R side b c) :
    Nearer R side a c := by
  cases side with
  | front => exact htrans _ _ _ hab hbc
  | back => exact htrans _ _ _ hbc hab

theorem lying_perm (side : Side) (items : List α) : (side.lying items).Perm items := by
  cases side with
  | front => exact .rfl
  | back => exact List.reverse_perm items

theorem lying_sorted_iff {side : Side} {items : List α} :
    (side.lying items).Pairwise R ↔ items.Pairwise (Nearer R side) := by
  cases side with
  | front => exact Iff.rfl
  | back => exact List.pairwise_reverse

theorem length_lying (side : Side) (items : List α) :
    (side.lying items).length = items.length := (lying_perm side items).length_eq

namespace Merging

variable {side : Side} {clear : Prop} {all : List α} {m : Merging α}

theorem followedBy_eq (rest : List α) :
    m.followedBy side rest = side.lying (m.merged.reverse ++ rest) := by
  cases side <;> simp [followedBy, Side.lying]

/-- The run that was copied out of the gap. -/
def copied (side : Side) (m : Merging α) : List α :=
  match side with
  | .front => m.left
  | .back => m.right

/-- The run that lies where it was. -/
def staying (side : Side) (m : Merging α) : List α :=
  match side with
  | .front => m.right
  | .back => m.left

def size (m : Merging α) : Nat := m.left.length + m.right.length

/-- Something is left of both runs. -/
def Open (m : Merging α) : Prop := m.left ≠ [] ∧ m.right ≠ []

/-- How the items of a merge lie, seen from the side. -/
structure Ordered (R : α → α → Prop) (side : Side) (m : Merging α) : Prop where
  left : (m.merged.reverse ++ m.left).Pairwise (Nearer R side)
  right : (m.merged.reverse ++ m.right).Pairwise (Nearer R side)
  closing : ∀ x ∈ (m.copied side).getLast?, ∀ y ∈ m.staying side, Nearer R side y x

/-- The merge is one of these items, in order if it is clear which. -/
structure Fits (less? : α → α → Option Bool) (R : α → α → Prop) (side : Side) (clear : Prop)
    (all : List α) (m : Merging α) : Prop where
  perm : (m.merged ++ (m.left ++ m.right)).Perm all
  told : clear → all.Pairwise (Told less? R)
  ordered : clear → m.Ordered R side

end Merging

/-- A merge of these items may end so. -/
def Ending.Fits (less? : α → α → Option Bool) (R : α → α → Prop) (clear : Prop) (all : List α) :
    Ending α → Prop
  | .merged items _ => Arranged R clear all items
  | .stuck items => Stuck less? all items

/-- The stage leads to a merge of the items with a further property, or ends it. -/
def Stage.Keeps (less? : α → α → Option Bool) (R : α → α → Prop) (side : Side) (clear : Prop)
    (all : List α) (P : Merging α → Prop) : Stage α (Merging α) → Prop
  | .ok m => m.Fits less? R side clear all ∧ P m
  | .error e => e.Fits less? R clear all

namespace Stage

variable {side : Side} {clear : Prop} {all : List α} {P Q : Merging α → Prop}
  {s : Stage α (Merging α)}

theorem Keeps.bind {f : Merging α → Stage α (Merging α)} (h : Keeps less? R side clear all P s)
    (hf : ∀ m, m.Fits less? R side clear all → P m → Keeps less? R side clear all Q (f m)) :
    Keeps less? R side clear all Q (s >>= f) := by
  cases s with
  | ok m => exact hf m h.1 h.2
  | error e => exact h

theorem Keeps.mono (h : Keeps less? R side clear all P s) (hPQ : ∀ m, P m → Q m) :
    Keeps less? R side clear all Q s := by
  cases s with
  | ok m => exact ⟨h.1, hPQ m h.2⟩
  | error e => exact h

end Stage

namespace Merging

variable {side : Side} {clear : Prop} {all : List α} {m : Merging α}

theorem fits_with_patience (h : m.Fits less? R side clear all) (patience : Nat) :
    { m with patience := patience }.Fits less? R side clear all :=
  ⟨h.perm, h.told, fun hclear => ⟨(h.ordered hclear).left, (h.ordered hclear).right,
    (h.ordered hclear).closing⟩⟩

/-- A relation between any two of the items holds between the two runs. -/
theorem Fits.between (h : m.Fits less? R side clear all) {R : α → α → Prop}
    (hsymm : ∀ {a b}, R a b → R b a) (hall : all.Pairwise R) :
    ∀ x ∈ m.left, ∀ y ∈ m.right, R x y := by
  have hparts := (h.perm.pairwise_iff hsymm).mpr hall
  exact (List.pairwise_append.mp (List.pairwise_append.mp hparts).2.1).2.2

theorem Fits.perm_swapped (h : m.Fits less? R side clear all) :
    (m.merged ++ (m.right ++ m.left)).Perm all :=
  (List.perm_append_comm.append_left m.merged).trans h.perm

theorem followedBy_perm (side : Side) {rest : List α} (h : (m.merged ++ rest).Perm all) :
    (m.followedBy side rest).Perm all := by
  rw [followedBy_eq]
  exact (lying_perm side _).trans (((List.reverse_perm _).append_right rest).trans h)

theorem Fits.restored_perm (h : m.Fits less? R side clear all) : (m.restored side).Perm all := by
  cases side with
  | front => exact followedBy_perm .front h.perm
  | back => exact followedBy_perm .back h.perm_swapped

theorem arranged_followedBy {rest : List α} (hperm : (m.merged ++ rest).Perm all)
    (hsorted : clear →
      (m.merged.reverse ++ rest).Pairwise (Nearer R side)) :
    Arranged R clear all (m.followedBy side rest) := by
  refine ⟨followedBy_perm side hperm, fun hclear => ?_⟩
  rw [followedBy_eq]
  exact lying_sorted_iff.mpr (hsorted hclear)

/-! ### The end of a merge -/

theorem Fits.arranged_of_left_nil (h : m.Fits less? R side clear all) (hnil : m.left = []) :
    Arranged R clear all (m.restored side) := by
  have hperm := h.perm
  have hsorted (hclear : clear) := (h.ordered hclear).right
  cases side <;> simp only [restored, hnil, List.nil_append, List.append_nil] at hperm ⊢
  all_goals exact arranged_followedBy hperm hsorted

theorem Fits.arranged_of_right_nil (h : m.Fits less? R side clear all) (hnil : m.right = []) :
    Arranged R clear all (m.restored side) := by
  have hperm := h.perm
  have hsorted (hclear : clear) := (h.ordered hclear).left
  cases side <;> simp only [restored, hnil, List.nil_append, List.append_nil] at hperm ⊢
  all_goals exact arranged_followedBy hperm hsorted

/-- What stays may go before the last item of the run that was copied out. -/
theorem Ordered.pairwise_of_copied_singleton (h : m.Ordered R side) {x : α}
    (hx : m.copied side = [x]) :
    (m.merged.reverse ++ (m.staying side ++ m.copied side)).Pairwise (Nearer R side) := by
  have hclosing : ∀ y ∈ m.staying side, Nearer R side y x := h.closing x (by simp [hx])
  have hparts : (m.merged.reverse ++ m.staying side).Pairwise (Nearer R side) ∧
      (m.merged.reverse ++ m.copied side).Pairwise (Nearer R side) := by
    cases side with
    | front => exact ⟨h.right, h.left⟩
    | back => exact ⟨h.left, h.right⟩
  rw [← List.append_assoc, List.pairwise_append]
  refine ⟨hparts.1, (List.pairwise_append.mp hparts.2).2.1, fun a ha b hb => ?_⟩
  obtain ha | ha := List.mem_append.mp ha
  · exact (List.pairwise_append.mp hparts.2).2.2 a ha b hb
  · rw [hx] at hb
    obtain rfl := List.mem_singleton.mp hb
    exact hclosing a ha

theorem unlessOver_keeps (h : m.Fits less? R side clear all) :
    (m.unlessOver side).Keeps less? R side clear all fun m' => m' = m ∧ m.Open := by
  unfold unlessOver
  split
  · next hnil => exact h.arranged_of_left_nil hnil
  · next hnil _ => exact h.arranged_of_right_nil hnil
  · next hleft _ =>
      refine arranged_followedBy h.perm_swapped fun hclear => ?_
      exact (h.ordered hclear).pairwise_of_copied_singleton hleft
  · next hright _ =>
      refine arranged_followedBy h.perm fun hclear => ?_
      exact (h.ordered hclear).pairwise_of_copied_singleton hright
  · next hleft _ hright _ => exact ⟨h, rfl, hleft, hright⟩

/-! ### Taking items -/

theorem getLast?_of_drop {items : List α} {count : Nat} {x : α}
    (h : (items.drop count).getLast? = some x) : items.getLast? = some x := by
  have hne : items.drop count ≠ [] := by
    rintro hnil
    simp [hnil] at h
  rw [← List.take_append_drop count items, List.getLast?_append_of_ne_nil _ hne, h]

theorem pairwise_taken {R : α → α → Prop} {merged items other : List α} {count : Nat}
    (hother : (merged.reverse ++ other).Pairwise R) (hitems : (merged.reverse ++ items).Pairwise R)
    (htaken : ∀ x ∈ items.take count, ∀ y ∈ other, R x y) :
    (((items.take count).reverse ++ merged).reverse ++ other).Pairwise R := by
  rw [← List.take_append_drop count items, ← List.append_assoc] at hitems
  have hfirst := (List.pairwise_append.mp hitems).1
  rw [List.reverse_append, List.reverse_reverse]
  refine List.pairwise_append.mpr
    ⟨hfirst, (List.pairwise_append.mp hother).2.1, fun a ha b hb => ?_⟩
  obtain ha | ha := List.mem_append.mp ha
  · exact (List.pairwise_append.mp hother).2.2 a ha b hb
  · exact htaken a ha b hb

theorem pairwise_own {R : α → α → Prop} {merged items : List α} {count : Nat}
    (hitems : (merged.reverse ++ items).Pairwise R) :
    (((items.take count).reverse ++ merged).reverse ++ items.drop count).Pairwise R := by
  rwa [List.reverse_append, List.reverse_reverse, List.append_assoc, List.take_append_drop]

theorem perm_taken (merged items rest : List α) (count : Nat) :
    ((items.take count).reverse ++ merged ++ (items.drop count ++ rest)).Perm
      (merged ++ (items ++ rest)) := by
  have hfirst : ((items.take count).reverse ++ merged).Perm (merged ++ items.take count) :=
    List.perm_append_comm.trans ((List.reverse_perm _).append_left merged)
  refine (hfirst.append_right _).trans ?_
  rw [List.append_assoc, ← List.append_assoc (items.take count), List.take_append_drop]

/-- Items of the left run may be taken that lie nearer than all of the right one. -/
theorem takeLeft_keeps {count : Nat} (h : m.Fits less? R side clear all)
    (htaken : clear →
      ∀ x ∈ m.left.take count, ∀ y ∈ m.right, Nearer R side x y) :
    (m.takeLeft side count).Keeps less? R side clear all fun m' => m'.Open ∧
      m' = { m with left := m.left.drop count,
                    merged := (m.left.take count).reverse ++ m.merged } := by
  refine (unlessOver_keeps ⟨(perm_taken ..).trans h.perm, h.told, fun hclear => ?_⟩).mono
    fun m' hm' => ⟨hm'.1 ▸ hm'.2, hm'.1⟩
  have hordered := h.ordered hclear
  refine ⟨pairwise_own hordered.left,
    pairwise_taken hordered.right hordered.left (htaken hclear), ?_⟩
  have hclosing := hordered.closing
  cases side with
  | front => exact fun x hx y hy => hclosing x (getLast?_of_drop hx) y hy
  | back => exact fun x hx y hy => hclosing x hx y (List.mem_of_mem_drop hy)

theorem takeRight_keeps {count : Nat} (h : m.Fits less? R side clear all)
    (htaken : clear →
      ∀ y ∈ m.right.take count, ∀ x ∈ m.left, Nearer R side y x) :
    (m.takeRight side count).Keeps less? R side clear all fun m' => m'.Open ∧
      m' = { m with right := m.right.drop count,
                    merged := (m.right.take count).reverse ++ m.merged } := by
  have hperm := (perm_taken m.merged m.right m.left count).trans h.perm_swapped
  refine (unlessOver_keeps
    ⟨(List.perm_append_comm.append_left _).trans hperm, h.told, fun hclear => ?_⟩).mono
    fun m' hm' => ⟨hm'.1 ▸ hm'.2, hm'.1⟩
  have hordered := h.ordered hclear
  refine ⟨pairwise_taken hordered.left hordered.right (htaken hclear),
    pairwise_own hordered.right, ?_⟩
  have hclosing := hordered.closing
  cases side with
  | front => exact fun x hx y hy => hclosing x hx y (List.mem_of_mem_drop hy)
  | back => exact fun x hx y hy => hclosing x (getLast?_of_drop hx) y hy

theorem answered_keeps {β : Type} {answer : Option β} {f : β → Stage α (Merging α)}
    {P : Merging α → Prop} (h : m.Fits less? R side clear all)
    (hnone : answer = none → ¬ all.Pairwise (Comparable less?))
    (hf : ∀ b, answer = some b → (f b).Keeps less? R side clear all P) :
    (m.answered side answer >>= f).Keeps less? R side clear all P := by
  cases answer with
  | none => exact ⟨h.restored_perm, hnone rfl⟩
  | some b => exact hf b rfl

/-- The next items of the two runs, each nearer than all others of its run. -/
theorem Fits.nearer (h : m.Fits less? R side clear all)
    (htrans : ∀ a b c, R a b → R b c → R a c)
    (hclear : clear) {x y : α} {xs ys : List α} (hleft : m.left = x :: xs)
    (hright : m.right = y :: ys) :
    (Nearer R side x y → ∀ z ∈ m.right, Nearer R side x z) ∧
      (Nearer R side y x → ∀ z ∈ m.left, Nearer R side y z) := by
  have hordered := h.ordered hclear
  have hx := (List.pairwise_append.mp hordered.left).2.1
  have hy := (List.pairwise_append.mp hordered.right).2.1
  rw [hleft, List.pairwise_cons] at hx
  rw [hright, List.pairwise_cons] at hy
  rw [hleft, hright]
  refine ⟨fun hxy z hz => ?_, fun hyx z hz => ?_⟩
  · obtain rfl | hz := List.mem_cons.mp hz
    · exact hxy
    · exact nearer_trans htrans hxy (hy.1 z hz)
  · obtain rfl | hz := List.mem_cons.mp hz
    · exact hyx
    · exact nearer_trans htrans hyx (hx.1 z hz)

theorem oneByOne_keeps
    (htrans : ∀ a b c, R a b → R b c → R a c)
    (fuel leftWins rightWins : Nat) (h : m.Fits less? R side clear all) (hopen : m.Open) :
    (oneByOne less? side fuel leftWins rightWins m).Keeps less? R side clear all fun m' =>
      m'.Open ∧ m'.size + min fuel 1 ≤ m.size := by
  induction fuel generalizing leftWins rightWins m with
  | zero => exact ⟨h, hopen, Nat.le_refl _⟩
  | succ fuel ih =>
      obtain ⟨x, xs, hleft⟩ := List.exists_cons_of_ne_nil hopen.1
      obtain ⟨y, ys, hright⟩ := List.exists_cons_of_ne_nil hopen.2
      have hanswer : m.rightFirst? less? = less? y x := by simp [rightFirst?, hleft, hright]
      rw [oneByOne, hanswer]
      refine answered_keeps h (fun hnone hall => ?_) fun b hb => ?_
      · exact (h.between Comparable.symm hall x (by simp [hleft]) y (by simp [hright])).2 hnone
      have htoldxy (hclear : clear) : Told less? R x y :=
        h.between Told.symm (h.told hclear) x (by simp [hleft]) y (by simp [hright])
      split
      · next hwins =>
          have hyx (hclear : clear) : Nearer R side y x := by
            cases side with
            | front => exact (htoldxy hclear).yes' (hb.trans (by simpa using hwins))
            | back => exact (htoldxy hclear).no' (hb.trans (by simpa using hwins))
          refine (takeRight_keeps h fun hclear z hz => ?_).bind ?_
          · rw [hright] at hz
            obtain rfl : z = y := by simpa using hz
            exact (h.nearer htrans hclear hleft hright).2 (hyx hclear)
          · rintro m' hfits ⟨hopen', rfl⟩
            have hsize : m.right.length = (m.right.drop 1).length + 1 := by simp [hright]
            split
            · refine ⟨hfits, hopen', ?_⟩
              simp only [size]
              omega
            · refine (ih 0 _ hfits hopen').mono fun m'' hm'' => ⟨hm''.1, ?_⟩
              have hle := hm''.2
              simp only [size] at hle ⊢
              omega
      · next hwins =>
          have hxy (hclear : clear) : Nearer R side x y := by
            cases side with
            | front => exact (htoldxy hclear).no' (hb.trans (by simpa using hwins))
            | back => exact (htoldxy hclear).yes' (hb.trans (by simpa using hwins))
          refine (takeLeft_keeps h fun hclear z hz => ?_).bind ?_
          · rw [hleft] at hz
            obtain rfl : z = x := by simpa using hz
            exact (h.nearer htrans hclear hleft hright).1 (hxy hclear)
          · rintro m' hfits ⟨hopen', rfl⟩
            have hsize : m.left.length = (m.left.drop 1).length + 1 := by simp [hleft]
            split
            · refine ⟨hfits, hopen', ?_⟩
              simp only [size]
              omega
            · refine (ih _ 0 hfits hopen').mono fun m'' hm'' => ⟨hm''.1, ?_⟩
              have hle := hm''.2
              simp only [size] at hle ⊢
              omega

/-! ### Taking stretches -/

/-- What counts as near is seen from the side. -/
theorem stretch_cut {run : List α} {ask : α → Option Bool} {x : α} {n : Nat}
    (hseparates : Separates (R · x) (R x) ask (side.lying run))
    (h : stretch? side run ask = some n) :
    Cut (Nearer R side · x) (Nearer R side x) run n := by
  simp only [stretch?, List.size_toArray] at h
  cases side with
  | front => exact hseparates.cut_of_gallop (Nat.zero_le _) h
  | back =>
      obtain ⟨k, hk, rfl⟩ := Option.map_eq_some_iff.mp h
      have hcut := hseparates.cut_of_gallop (Nat.sub_le _ _) hk
      have hlength : (Side.back.lying run).length = run.length := length_lying ..
      have hle := hcut.le
      refine ⟨by omega, fun z hz => hcut.behind z ?_, fun z hz => hcut.before z ?_⟩
      · rw [Side.lying, List.drop_reverse, List.mem_reverse, ← hlength]
        exact hz
      · rw [Side.lying, List.take_reverse, List.mem_reverse, ← hlength]
        exact hz

theorem stretch_none {run : List α} {ask : α → Option Bool} (h : stretch? side run ask = none) :
    ∃ x ∈ run, ask x = none := by
  have hgallop : ∃ hint, gallop? (atPlace? (side.lying run).toArray ask)
      (side.lying run).toArray.size hint = none := by
    cases side with
    | front => exact ⟨_, h⟩
    | back => exact ⟨_, by simpa [stretch?] using h⟩
  obtain ⟨hint, hhint⟩ := hgallop
  obtain ⟨i, hi⟩ := gallop_none hhint
  obtain ⟨x, hx, hanswer⟩ := exists_of_atPlace_none hi
  exact ⟨x, (lying_perm side run).mem_iff.mp hx, hanswer⟩

section
variable (htrans : ∀ a b c, R a b → R b c → R a c)
include htrans

theorem leftStretch_cut (h : m.Fits less? R side clear all) (hclear : clear) {y : α}
    {ys : List α} (hright : m.right = y :: ys) {n : Nat}
    (hn : m.leftStretch? less? side = some n) :
    Cut (Nearer R side · y) (Nearer R side y) m.left n := by
  simp only [leftStretch?, hright] at hn
  refine stretch_cut (separates_of_asked htrans ?_ fun z hz => ?_) hn
  · exact lying_sorted_iff.mpr (List.pairwise_append.mp (h.ordered hclear).left).2.1
  · exact (h.between Told.symm (h.told hclear) z ((lying_perm side _).mem_iff.mp hz) y
      (by simp [hright])).symm

theorem rightStretch_cut (h : m.Fits less? R side clear all) (hclear : clear) {x : α}
    {xs : List α} (hleft : m.left = x :: xs) {n : Nat}
    (hn : m.rightStretch? less? side = some n) :
    Cut (Nearer R side · x) (Nearer R side x) m.right n := by
  simp only [rightStretch?, hleft] at hn
  refine stretch_cut (separates_of_asking htrans ?_ fun z hz => ?_) hn
  · exact lying_sorted_iff.mpr (List.pairwise_append.mp (h.ordered hclear).right).2.1
  · exact h.between Told.symm (h.told hclear) x (by simp [hleft]) z
      ((lying_perm side _).mem_iff.mp hz)

omit htrans in
theorem leftStretch_none (h : m.Fits less? R side clear all)
    (hn : m.leftStretch? less? side = none) :
    ¬ all.Pairwise (Comparable less?) := by
  intro hall
  unfold leftStretch? at hn
  split at hn
  · next y ys hright =>
      obtain ⟨x, hx, hanswer⟩ := stretch_none hn
      exact (h.between Comparable.symm hall x hx y (by simp [hright])).2 hanswer
  · cases hn

omit htrans in
theorem rightStretch_none (h : m.Fits less? R side clear all)
    (hn : m.rightStretch? less? side = none) :
    ¬ all.Pairwise (Comparable less?) := by
  intro hall
  unfold rightStretch? at hn
  split at hn
  · next x xs hleft =>
      obtain ⟨y, hy, hanswer⟩ := stretch_none hn
      refine (h.between Comparable.symm hall x (by simp [hleft]) y hy).2 ?_
      simpa using hanswer
  · cases hn

variable {P : Merging α → Prop} {f : Merging α → Stage α (Merging α)}

/-- A stretch of the left run is taken, and the item of the right run that it comes before. -/
theorem leftStretch_taken (h : m.Fits less? R side clear all) (hopen : m.Open) {n : Nat}
    (hn : m.leftStretch? less? side = some n)
    (hf : ∀ m', m'.Fits less? R side clear all → m'.Open → m'.size ≤ m.size →
      (f m').Keeps less? R side clear all P) :
    (m.takeLeft side n >>= fun m => m.takeRight side 1 >>= f).Keeps less? R side clear all P := by
  obtain ⟨y, ys, hright⟩ := List.exists_cons_of_ne_nil hopen.2
  refine (takeLeft_keeps h fun hclear x hx z hz => ?_).bind ?_
  · have hxy := (leftStretch_cut htrans h hclear hright hn).before x hx
    have hy := (List.pairwise_append.mp (h.ordered hclear).right).2.1
    rw [hright] at hy hz
    obtain rfl | hz := List.mem_cons.mp hz
    · exact hxy
    · exact nearer_trans htrans hxy ((List.pairwise_cons.mp hy).1 z hz)
  rintro m₁ hfits ⟨-, rfl⟩
  refine (takeRight_keeps hfits fun hclear z hz x hx => ?_).bind ?_
  · obtain rfl : z = y := by simpa [hright] using hz
    exact (leftStretch_cut htrans h hclear hright hn).behind x hx
  rintro m₂ hfits' ⟨hopen', rfl⟩
  refine hf _ hfits' hopen' ?_
  simp only [size, List.length_drop]
  omega

theorem rightStretch_taken (h : m.Fits less? R side clear all) (hopen : m.Open) {n : Nat}
    (hn : m.rightStretch? less? side = some n)
    (hf : ∀ m', m'.Fits less? R side clear all → m'.Open → m'.size ≤ m.size →
      (f m').Keeps less? R side clear all P) :
    (m.takeRight side n >>= fun m => m.takeLeft side 1 >>= f).Keeps less? R side clear all P := by
  obtain ⟨x, xs, hleft⟩ := List.exists_cons_of_ne_nil hopen.1
  refine (takeRight_keeps h fun hclear y hy z hz => ?_).bind ?_
  · have hyx := (rightStretch_cut htrans h hclear hleft hn).before y hy
    have hx := (List.pairwise_append.mp (h.ordered hclear).left).2.1
    rw [hleft] at hx hz
    obtain rfl | hz := List.mem_cons.mp hz
    · exact hyx
    · exact nearer_trans htrans hyx ((List.pairwise_cons.mp hx).1 z hz)
  rintro m₁ hfits ⟨-, rfl⟩
  refine (takeLeft_keeps hfits fun hclear z hz y hy => ?_).bind ?_
  · obtain rfl : z = x := by simpa [hleft] using hz
    exact (rightStretch_cut htrans h hclear hleft hn).behind y hy
  rintro m₂ hfits' ⟨hopen', rfl⟩
  refine hf _ hfits' hopen' ?_
  simp only [size, List.length_drop]
  omega

theorem byStretches_keeps (fuel : Nat) (h : m.Fits less? R side clear all) (hopen : m.Open) :
    (byStretches less? side fuel m).Keeps less? R side clear all fun m' =>
      m'.Open ∧ m'.size ≤ m.size := by
  induction fuel generalizing m with
  | zero => exact ⟨h, hopen, Nat.le_refl _⟩
  | succ fuel ih =>
      rw [byStretches]
      have hfits := fits_with_patience h (max 1 (m.patience - 1))
      refine answered_keeps hfits (leftStretch_none hfits) fun fromLeft hfromLeft => ?_
      refine leftStretch_taken htrans hfits hopen hfromLeft fun m₁ hfits₁ hopen₁ hsize₁ => ?_
      refine answered_keeps hfits₁ (rightStretch_none hfits₁) fun fromRight hfromRight => ?_
      refine rightStretch_taken htrans hfits₁ hopen₁ hfromRight fun m₂ hfits₂ hopen₂ hsize₂ => ?_
      have hsize : m₂.size ≤ m.size := Nat.le_trans hsize₂ hsize₁
      split
      · exact (ih hfits₂ hopen₂).mono fun m' hm' => ⟨hm'.1, Nat.le_trans hm'.2 hsize⟩
      · exact ⟨hfits₂, hopen₂, hsize⟩

/-- The rounds suffice: each takes an item, so that the merge ends before they do. -/
theorem run_keeps (fuel : Nat) (h : m.Fits less? R side clear all) (hopen : m.Open)
    (hfuel : m.size ≤ fuel) :
    (run less? side fuel m).Keeps less? R side clear all fun _ => False := by
  induction fuel generalizing m with
  | zero =>
      have hpos := List.length_pos_iff.mpr hopen.1
      simp only [size] at hfuel
      omega
  | succ fuel ih =>
      rw [run]
      refine (oneByOne_keeps htrans _ 0 0 h hopen).bind fun m₁ hfits₁ ⟨hopen₁, hsize₁⟩ => ?_
      have hpatient := fits_with_patience hfits₁ (m₁.patience + 1)
      refine (byStretches_keeps htrans _ hpatient hopen₁).bind fun m₂ hfits₂ ⟨hopen₂, hsize₂⟩ => ?_
      refine ih (fits_with_patience hfits₂ (m₂.patience + 1)) hopen₂ ?_
      have hpos := List.length_pos_iff.mpr hopen.1
      simp only [size] at hfuel hsize₁ hsize₂ ⊢
      omega

theorem finish_fits {s : Stage α (Merging α)} (h : s.Keeps less? R side clear all Merging.Open) :
    (finish less? side s).Fits less? R clear all := by
  have hrun := h.bind fun m hfits hopen =>
    run_keeps htrans (m.left.length + m.right.length) hfits hopen (Nat.le_refl _)
  unfold finish
  split
  · next e he => rwa [he] at hrun
  · next m hm =>
      rw [hm] at hrun
      exact hrun.2.elim

end

end Merging
/-! ### Two neighbouring runs -/

/-- The item that the right run begins with comes before the left run, and the one that the left
run ends with comes after the right run. -/
structure Overlap (R : α → α → Prop) (left right : List α) : Prop where
  first : ∀ y ∈ right.head?, ∀ x ∈ left, R y x
  last : ∀ x ∈ left.getLast?, ∀ y ∈ right, R y x

section
variable (htrans : ∀ a b c, R a b → R b c → R a c)
  {clear : Prop} {left right : List α}
include htrans

theorem mergeOverlap_fits (patience : Nat)
    (htold : clear → (left ++ right).Pairwise (Told less? R))
    (hleft : clear → left.Pairwise R) (hright : clear → right.Pairwise R)
    (hoverlap : clear → Overlap R left right) :
    (mergeOverlap less? patience left right).Fits less? R clear (left ++ right) := by
  unfold mergeOverlap
  split
  · have hfits : Merging.Fits less? R .front clear (left ++ right) ⟨left, right, [], patience⟩ :=
      ⟨.rfl, htold, fun hclear => ⟨hleft hclear, hright hclear, (hoverlap hclear).last⟩⟩
    refine Merging.finish_fits htrans ((Merging.takeRight_keeps hfits
      fun hclear y hy x hx => ?_).mono fun _ h => h.1)
    exact (hoverlap hclear).first y (by simpa [List.take_one] using hy) x hx
  · have hfits : Merging.Fits less? R .back clear (left ++ right)
        ⟨left.reverse, right.reverse, [], patience⟩ := by
      refine ⟨(List.reverse_perm left).append (List.reverse_perm right), htold, fun hclear => ?_⟩
      refine ⟨List.pairwise_reverse.mpr (hleft hclear), List.pairwise_reverse.mpr (hright hclear),
        fun x hx y hy => ?_⟩
      exact (hoverlap hclear).first x (by simpa [Merging.copied] using hx) y
        (by simpa [Merging.staying] using hy)
    refine Merging.finish_fits htrans ((Merging.takeLeft_keeps hfits
      fun hclear x hx y hy => ?_).mono fun _ h => h.1)
    exact (hoverlap hclear).last x (by simpa [List.take_one] using hx) y (List.mem_reverse.mp hy)

end

/-- How many items of the left run come before the right run, and how many items of the right run
come before the end of the left run. -/
def overlap? (less? : α → α → Option Bool) (left right : List α) : Option (Nat × Nat) := do
  let y ← right.head?
  let before ← gallop? (atPlace? left.toArray (less? y)) left.length 0
  match (left.drop before).getLast? with
  | none => return (before, 0)
  | some x =>
    let beyond? (y : α) : Option Bool := (less? y x).map not
    return (before, ← gallop? (atPlace? right.toArray beyond?) right.length (right.length - 1))

theorem merge_eq (patience : Nat) (left right : List α) : merge less? patience left right =
    match overlap? less? left right with
    | none => .stuck (left ++ right)
    | some (_, 0) => .merged (left ++ right) patience
    | some (before, count) =>
      (mergeOverlap less? patience (left.drop before) (right.take count)).within
        (left.take before) (right.drop count) := rfl

section
variable {left right : List α} {x y : α} {before count : Nat}

theorem overlap_none (hy : right.head? = some y) (h : overlap? less? left right = none) :
    ¬ (left ++ right).Pairwise (Comparable less?) := by
  intro hall
  have hbetween := (List.pairwise_append.mp hall).2.2
  simp only [overlap?, hy, bind, Option.bind_some, Option.bind_eq_none_iff] at h
  cases hbefore : gallop? (atPlace? left.toArray (less? y)) left.length 0 with
  | none =>
      obtain ⟨i, hi⟩ := gallop_none hbefore
      obtain ⟨x, hx, hanswer⟩ := exists_of_atPlace_none hi
      exact (hbetween x hx y (List.mem_of_head? hy)).2 hanswer
  | some before =>
      have hcount := h before hbefore
      split at hcount
      · cases hcount
      · next x hx =>
          simp only [Option.bind_eq_none_iff] at hcount
          cases hgallop : gallop? (atPlace? right.toArray fun y => (less? y x).map not) right.length
              (right.length - 1) with
          | some count => exact absurd (hcount count hgallop) (by simp [pure])
          | none =>
              obtain ⟨i, hi⟩ := gallop_none hgallop
              obtain ⟨z, hz, hanswer⟩ := exists_of_atPlace_none hi
              have hmem := List.mem_of_mem_drop (List.mem_of_getLast? hx)
              exact (hbetween x hmem z hz).2 (by simpa using hanswer)

/-- Where two runs are cut so that only what overlaps is left between the cuts. -/
theorem overlap_some
    (htrans : ∀ a b c, R a b → R b c → R a c)
    (htold : (left ++ right).Pairwise (Told less? R)) (hleft : left.Pairwise R)
    (hright : right.Pairwise R) (hy : right.head? = some y)
    (h : overlap? less? left right = some (before, count)) :
    Cut (R · y) (R y) left before ∧
      (left.drop before = [] ∧ count = 0 ∨ ∃ x, (left.drop before).getLast? = some x ∧
        Cut (R · x) (R x) right count) := by
  have hbetween := (List.pairwise_append.mp htold).2.2
  simp only [overlap?, hy, bind, Option.bind_some, Option.bind_eq_some_iff] at h
  obtain ⟨before', hbefore, h⟩ := h
  have hcut := (separates_of_asked htrans hleft fun z hz =>
    (hbetween z hz y (List.mem_of_head? hy)).symm).cut_of_gallop (Nat.zero_le _) hbefore
  split at h
  · next hnone =>
      cases h
      exact ⟨hcut, .inl ⟨by simpa using hnone, rfl⟩⟩
  · next x hx =>
      simp only [Option.bind_eq_some_iff] at h
      obtain ⟨count', hcount, h⟩ := h
      cases h
      have hmem := List.mem_of_mem_drop (List.mem_of_getLast? hx)
      exact ⟨hcut, .inr ⟨x, hx, (separates_of_asking htrans hright fun z hz =>
        hbetween x hmem z hz).cut_of_gallop (Nat.sub_le _ _) hcount⟩⟩

theorem eq_or_before_of_head (h : right.Pairwise R) (hy : right.head? = some y) :
    ∀ z ∈ right, z = y ∨ R y z := by
  obtain ⟨rest, rfl⟩ := List.head?_eq_some_iff.mp hy
  intro z hz
  exact (List.mem_cons.mp hz).imp_right ((List.pairwise_cons.mp h).1 z)

theorem eq_or_before_of_getLast (h : left.Pairwise R) (hx : left.getLast? = some x) :
    ∀ z ∈ left, z = x ∨ R z x := by
  obtain ⟨front, rfl⟩ := List.getLast?_eq_some_iff.mp hx
  intro z hz
  obtain hz | hz := List.mem_append.mp hz
  · exact .inr ((List.pairwise_append.mp h).2.2 z hz x List.mem_cons_self)
  · exact .inl (List.mem_singleton.mp hz)

end

theorem Ending.fits_within {clear : Prop} {before after given all : List α} {e : Ending α}
    (h : e.Fits less? R clear given) (hperm : (before ++ given ++ after).Perm all)
    (hsorted : clear → ∀ items, items.Perm given → items.Pairwise R →
      (before ++ items ++ after).Pairwise R) :
    (e.within before after).Fits less? R clear all := by
  have hwithin {items : List α} (hitems : items.Perm given) :
      (before ++ items ++ after).Perm all :=
    ((hitems.append_left before).append_right after).trans hperm
  cases e with
  | merged items patience =>
      exact ⟨hwithin h.perm, fun hclear => hsorted hclear items h.perm (h.sorted hclear)⟩
  | stuck items =>
      refine h.mono ⟨before ++ after, ?_⟩ (hwithin h.perm)
      refine List.Perm.trans ?_ hperm
      rw [← List.append_assoc]
      exact List.perm_append_comm.append_right after

section
variable (htrans : ∀ a b c, R a b → R b c → R a c)
  {clear : Prop} {left right : List α}
include htrans

omit htrans in
theorem pairwise_split {R : α → α → Prop} {items : List α} (h : items.Pairwise R) (n : Nat) :
    ∀ a ∈ items.take n, ∀ b ∈ items.drop n, R a b := by
  rw [← List.take_append_drop n items] at h
  exact (List.pairwise_append.mp h).2.2

theorem before_right_run {y : α} {before : Nat} (hright : right.Pairwise R)
    (hy : right.head? = some y) (hcut : Cut (R · y) (R y) left before) :
    ∀ a ∈ left.take before, ∀ z ∈ right, R a z := by
  intro a ha z hz
  obtain rfl | hyz := eq_or_before_of_head hright hy z hz
  · exact hcut.before a ha
  · exact htrans _ _ _ (hcut.before a ha) hyz

theorem behind_left_run {x : α} {count : Nat} (hleft : left.Pairwise R)
    (hx : left.getLast? = some x) (hcut : Cut (R · x) (R x) right count) :
    ∀ a ∈ left, ∀ z ∈ right.drop count, R a z := by
  intro a ha z hz
  obtain rfl | hax := eq_or_before_of_getLast hleft hx a ha
  · exact hcut.behind z hz
  · exact htrans _ _ _ hax (hcut.behind z hz)

/-- What lies outside the overlap of two runs is in its place already. -/
theorem merge_fits (patience : Nat) (hne : right ≠ [])
    (htold : clear → (left ++ right).Pairwise (Told less? R))
    (hleft : clear → left.Pairwise R)
    (hright : clear → right.Pairwise R) :
    (merge less? patience left right).Fits less? R clear (left ++ right) := by
  obtain ⟨y, hy⟩ : ∃ y, right.head? = some y := by
    obtain ⟨y, ys, rfl⟩ := List.exists_cons_of_ne_nil hne
    exact ⟨y, rfl⟩
  have hcuts {before count : Nat} (h : overlap? less? left right = some (before, count))
      (hclear : clear) := overlap_some htrans (htold hclear) (hleft hclear) (hright hclear) hy h
  rw [merge_eq]
  split
  · next hnone => exact ⟨.rfl, overlap_none hy hnone⟩
  · next before hsome =>
      refine ⟨.rfl, fun hclear => ?_⟩
      obtain ⟨hcut, hend⟩ := hcuts hsome hclear
      refine List.pairwise_append.mpr ⟨hleft hclear, hright hclear, fun a ha z hz => ?_⟩
      obtain ⟨hnil, -⟩ | ⟨x, hx, hbehind⟩ := hend
      · rw [← List.take_append_drop before left, hnil, List.append_nil] at ha
        exact before_right_run htrans (hright hclear) hy hcut a ha z hz
      · exact behind_left_run htrans (hleft hclear) (Merging.getLast?_of_drop hx) hbehind a ha z hz
  · next before count hcount hsome =>
      have hperm : (left.take before ++ (left.drop before ++ right.take count) ++
          right.drop count).Perm (left ++ right) := by
        rw [← List.append_assoc, List.take_append_drop, List.append_assoc, List.take_append_drop]
      refine Ending.fits_within (mergeOverlap_fits htrans patience (fun hclear => ?_)
        (fun hclear => (hleft hclear).drop) (fun hclear => (hright hclear).take)
        fun hclear => ?_) hperm fun hclear items hitems hsorted => ?_
      · have hparts := told_of_perm hperm.symm (htold hclear)
        exact (List.pairwise_append.mp (List.pairwise_append.mp hparts).1).2.1
      · obtain ⟨hcut, hend⟩ := hcuts hsome hclear
        obtain ⟨x, hx, hbehind⟩ := hend.resolve_left fun h => hcount h.2
        refine ⟨fun y' hy' => ?_, fun x' hx' => ?_⟩
        · obtain ⟨_, rfl⟩ : count ≠ 0 ∧ y = y' := by simpa [List.head?_take, hy] using hy'
          exact hcut.behind
        · obtain rfl : x' = x := by simpa [hx, eq_comm] using hx'
          exact hbehind.before
      · obtain ⟨hcut, hend⟩ := hcuts hsome hclear
        obtain ⟨x, hx, hbehind⟩ := hend.resolve_left fun h => hcount h.2
        have hfront := before_right_run htrans (hright hclear) hy hcut
        have hback := behind_left_run htrans (hleft hclear) (Merging.getLast?_of_drop hx) hbehind
        refine List.pairwise_append.mpr ⟨List.pairwise_append.mpr
          ⟨(hleft hclear).take, hsorted, fun a ha b hb => ?_⟩, (hright hclear).drop,
          fun a ha z hz => ?_⟩
        · obtain hb | hb := List.mem_append.mp (hitems.mem_iff.mp hb)
          · exact pairwise_split (hleft hclear) before a ha b hb
          · exact hfront a ha b (List.mem_of_mem_take hb)
        · obtain ha | ha := List.mem_append.mp ha
          · exact hback a (List.mem_of_mem_take ha) z hz
          · obtain ha | ha := List.mem_append.mp (hitems.mem_iff.mp ha)
            · exact hback a (List.mem_of_mem_drop ha) z hz
            · exact pairwise_split (hright hclear) count a ha z hz

end

end InkBindings.Sorting
