import InkBindings.Scale.Decode

/-!
Reading from a place in a byte string. What is read there is described by the bytes that it takes,
and the rules follow the ways in which decoders are put together.
-/

namespace InkBindings.Scale

/-- A computation that reads from an offset and gives the offset after what it has read. -/
abbrev Reader (α : Type) := Source → Int → Except DecodeFailure (α × Int)

/-- Reading behind `pre`, where `rest` is left: a failure is one that `E` allows, and a result
stands in the relation `P` with the bytes that were taken for it. -/
def Reads {α : Type} (E : DecodeFailure → Prop) (P : α → Bytes → Prop) (read : Reader α)
    (pre rest : Bytes) : Prop :=
  match read (.ofBytes (pre ++ rest)) pre.length with
  | .ok (a, next) =>
      ∃ used left, rest = used ++ left ∧ next = (pre ++ used).length ∧ P a used
  | .error f => E f

namespace Reads
variable {α β : Type} {E : DecodeFailure → Prop} {P : α → Bytes → Prop} {Q : β → Bytes → Prop}
  {pre rest : Bytes}

theorem of_ok {read : Reader α} {a : α} {used left : Bytes}
    (h : read (.ofBytes (pre ++ rest)) pre.length = .ok (a, (pre ++ used).length))
    (hrest : rest = used ++ left) (ha : P a used) : Reads E P read pre rest := by
  simp only [Reads]
  rw [h]
  exact ⟨used, left, hrest, rfl, ha⟩

theorem of_error {read : Reader α} {f : DecodeFailure}
    (h : read (.ofBytes (pre ++ rest)) pre.length = .error f) (hf : E f) :
    Reads E P read pre rest := by
  simp only [Reads]
  rw [h]
  exact hf

theorem done {a : α} (h : P a []) : Reads E P (fun _ next => .ok (a, next)) pre rest :=
  ⟨[], rest, rfl, by simp, h⟩

theorem fail {f : DecodeFailure} (h : E f) : Reads E P (fun _ _ => .error f) pre rest := h

theorem mono {P' : α → Bytes → Prop} {read : Reader α} (h : Reads E P read pre rest)
    (hP : ∀ a used left, rest = used ++ left → P a used → P' a used) :
    Reads E P' read pre rest := by
  unfold Reads at h ⊢
  split at h
  · obtain ⟨used, left, hrest, hnext, ha⟩ := h
    exact ⟨used, left, hrest, hnext, hP _ _ _ hrest ha⟩
  · exact h

theorem congr {read read' : Reader α}
    (heq : read' (.ofBytes (pre ++ rest)) pre.length = read (.ofBytes (pre ++ rest)) pre.length)
    (h : Reads E P read pre rest) : Reads E P read' pre rest := by
  unfold Reads at h ⊢
  rwa [heq]

/-- Reading on behind bytes that have been looked at. -/
theorem behind {read read' : Reader α} {used left : Bytes}
    (h : Reads E (fun a more => P a (used ++ more)) read (pre ++ used) left)
    (heq : read' (.ofBytes (pre ++ (used ++ left))) pre.length =
      read (.ofBytes (pre ++ (used ++ left))) (pre ++ used).length) :
    Reads E P read' pre (used ++ left) := by
  simp only [Reads] at h
  rw [List.append_assoc, ← heq] at h
  split at h
  · next hread =>
      obtain ⟨more, left', rfl, rfl, ha⟩ := h
      refine of_ok ?_ (List.append_assoc used more left').symm ha
      rw [hread, List.append_assoc]
  · next hread => exact of_error hread h

theorem bind {first : Reader α} {k : Source → α × Int → Except DecodeFailure (β × Int)}
    (h : Reads E P first pre rest)
    (hk : ∀ a used left, rest = used ++ left → P a used →
      Reads E (fun b more => Q b (used ++ more)) (fun data next => k data (a, next))
        (pre ++ used) left) :
    Reads E Q (fun data offset => first data offset >>= k data) pre rest := by
  simp only [Reads] at h
  cases hf : first (.ofBytes (pre ++ rest)) pre.length with
  | error f =>
      simp only [hf] at h
      exact of_error (by simp [hf, Bind.bind, Except.bind]) h
  | ok r =>
      obtain ⟨a, next⟩ := r
      simp only [hf] at h
      obtain ⟨used, left, rfl, rfl, ha⟩ := h
      have hb := hk a used left rfl ha
      simp only [Reads] at hb
      rw [List.append_assoc] at hb
      split at hb
      · next heq =>
          obtain ⟨more, left', rfl, rfl, hq⟩ := hb
          refine of_ok ?_ (List.append_assoc used more left').symm hq
          simpa [hf, Bind.bind, Except.bind] using heq
      · next heq => exact of_error (by simpa [hf, Bind.bind, Except.bind] using heq) hb

/-- What follows a look at the data that reads nothing. -/
theorem guard {c : Source → Int → Prop} [∀ data offset, Decidable (c data offset)]
    {f : DecodeFailure} {read : Reader α} (hf : c (.ofBytes (pre ++ rest)) pre.length → E f)
    (h : ¬ c (.ofBytes (pre ++ rest)) pre.length → Reads E P read pre rest) :
    Reads E P (fun data offset => do
      if c data offset then throw f
      read data offset) pre rest := by
  by_cases hc : c (.ofBytes (pre ++ rest)) pre.length
  · simpa [Reads, hc, Bind.bind, Except.bind, throw, throwThe, MonadExceptOf.throw] using hf hc
  · simpa [Reads, hc, Bind.bind, Except.bind, Pure.pure, Except.pure] using h hc

end Reads

/-! ### Taking bytes -/

namespace Source

theorem take_append (pre used left : Bytes) :
    take (.ofBytes (pre ++ (used ++ left))) pre.length used.length =
      .ok (.bytes used, (pre ++ used).length) := by
  rw [take_ofBytes (by simp)]
  simp

theorem takeBytes_append (pre used left : Bytes) :
    takeBytes (.ofBytes (pre ++ (used ++ left))) pre.length used.length =
      .ok (used, (pre ++ used).length) := by
  rw [takeBytes, take_append]
  rfl

theorem takeTag_append (pre : Bytes) (x : UInt8) (left : Bytes) :
    takeTag (.ofBytes (pre ++ (x :: left))) pre.length =
      .ok (.byte x, (pre ++ [x]).length) := by
  have h : take (.ofBytes (pre ++ (x :: left))) pre.length 1 =
      .ok (.bytes [x], (pre ++ [x]).length) := take_append pre [x] left
  rw [takeTag, h]
  rfl

theorem take_short {pre rest : Bytes} {count : Nat} (h : rest.length < count) :
    take (.ofBytes (pre ++ rest)) pre.length count =
      .error (.bytes (.truncated count pre.length rest.length)) := by
  have hsize : ((pre ++ rest).length : Int) = pre.length + rest.length := by simp
  have hlt : (pre.length : Int) + rest.length < pre.length + count := by omega
  have hleft : (pre.length : Int) + rest.length - pre.length = rest.length := by omega
  simp only [take, ofBytes, size?, List.size_toArray, hsize, hlt, if_true, hleft]

theorem takeTag_nil (pre : Bytes) :
    takeTag (.ofBytes (pre ++ [])) pre.length =
      .error (.bytes (.truncated 1 pre.length 0)) := by
  have h : take (.ofBytes (pre ++ [])) pre.length 1 = .error (.bytes (.truncated 1 pre.length 0)) :=
    take_short (by simp)
  rw [takeTag, h]
  rfl

end Source

namespace Reads
variable {E : DecodeFailure → Prop} {pre rest : Bytes}

theorem take (hE : ∀ e, E (.bytes e)) (count : Nat) :
    Reads E (fun s used => s = .bytes used ∧ used.length = count)
      (fun data offset => data.take offset count) pre rest := by
  by_cases h : count ≤ rest.length
  · have hlen : (rest.take count).length = count := by simp [h]
    have htake := Source.take_append pre (rest.take count) (rest.drop count)
    rw [List.take_append_drop, hlen] at htake
    exact of_ok htake (List.take_append_drop count rest).symm ⟨rfl, hlen⟩
  · exact of_error (Source.take_short (Nat.lt_of_not_le h)) (hE _)

theorem takeBytes (hE : ∀ e, E (.bytes e)) (count : Nat) :
    Reads E (fun raw used => raw = used ∧ used.length = count)
      (fun data offset => data.takeBytes offset count) pre rest := by
  simp only [Source.takeBytes]
  refine bind (take hE count) ?_
  rintro s used left - ⟨rfl, hlen⟩
  exact done ⟨by simp, by simpa using hlen⟩

theorem takeTag (hE : ∀ e, E (.bytes e)) :
    Reads E (fun tag used => ∃ x, tag = .byte x ∧ used = [x])
      (fun data offset => data.takeTag offset) pre rest := by
  simp only [Source.takeTag]
  refine bind (take hE 1) ?_
  rintro s used left - ⟨rfl, hlen⟩
  obtain ⟨x, rfl⟩ := List.length_eq_one_iff.mp hlen
  exact done ⟨x, rfl, by simp⟩

end Reads

/-! ### Two ways to read -/

/-- `Reads`, and the other computation gives the same wherever this one comes to an end. -/
def ReadsAs {α : Type} (E : DecodeFailure → Prop) (P : α → Bytes → Prop) (read other : Reader α)
    (pre rest : Bytes) : Prop :=
  Reads E P read pre rest ∧
    (read (.ofBytes (pre ++ rest)) pre.length = .error .endless ∨
      other (.ofBytes (pre ++ rest)) pre.length = read (.ofBytes (pre ++ rest)) pre.length)

theorem Reads.twice {α : Type} {E : DecodeFailure → Prop} {P : α → Bytes → Prop}
    {read : Reader α} {pre rest : Bytes} (h : Reads E P read pre rest) :
    ReadsAs E P read read pre rest :=
  ⟨h, .inr rfl⟩

namespace ReadsAs
variable {α β : Type} {E : DecodeFailure → Prop} {P : α → Bytes → Prop} {Q : β → Bytes → Prop}
  {read other : Reader α} {pre rest : Bytes}

theorem done {a : α} (h : P a []) :
    ReadsAs E P (fun _ next => .ok (a, next)) (fun _ next => .ok (a, next)) pre rest :=
  (Reads.done h).twice

theorem fail {f : DecodeFailure} (h : E f) :
    ReadsAs E P (fun _ _ => .error f) (fun _ _ => .error f) pre rest :=
  (Reads.fail h).twice

theorem endless (h : E .endless) : ReadsAs E P (fun _ _ => .error .endless) other pre rest :=
  ⟨.fail h, .inl rfl⟩

theorem mono {P' : α → Bytes → Prop} (h : ReadsAs E P read other pre rest)
    (hP : ∀ a used left, rest = used ++ left → P a used → P' a used) :
    ReadsAs E P' read other pre rest :=
  ⟨h.1.mono hP, h.2⟩

theorem bind {first first' : Reader α} {k k' : Source → α × Int → Except DecodeFailure (β × Int)}
    (h : ReadsAs E P first first' pre rest)
    (hk : ∀ a used left, rest = used ++ left → P a used →
      ReadsAs E (fun b more => Q b (used ++ more)) (fun data next => k data (a, next))
        (fun data next => k' data (a, next)) (pre ++ used) left) :
    ReadsAs E Q (fun data offset => first data offset >>= k data)
      (fun data offset => first' data offset >>= k' data) pre rest := by
  refine ⟨h.1.bind fun a used left hrest ha => (hk a used left hrest ha).1, ?_⟩
  obtain ⟨hread, hend | hsame⟩ := h
  · exact .inl (by simp [hend, Bind.bind, Except.bind])
  simp only [Reads] at hread
  cases hf : first (.ofBytes (pre ++ rest)) pre.length with
  | error f => exact .inr (by simp [hsame, hf, Bind.bind, Except.bind])
  | ok r =>
      obtain ⟨a, next⟩ := r
      simp only [hf] at hread
      obtain ⟨used, left, rfl, rfl, ha⟩ := hread
      have hnext := (hk a used left rfl ha).2
      rw [List.append_assoc] at hnext
      simpa only [hsame, hf, Bind.bind, Except.bind] using hnext

/-- What follows a look at the data that reads nothing. -/
theorem guard {c : Source → Int → Prop} [∀ data offset, Decidable (c data offset)]
    {f : DecodeFailure} (hf : c (.ofBytes (pre ++ rest)) pre.length → E f)
    (h : ¬ c (.ofBytes (pre ++ rest)) pre.length → ReadsAs E P read other pre rest) :
    ReadsAs E P (fun data offset => do
      if c data offset then throw f
      read data offset) (fun data offset => do
      if c data offset then throw f
      other data offset) pre rest := by
  refine ⟨.guard hf fun hc => (h hc).1, ?_⟩
  by_cases hc : c (.ofBytes (pre ++ rest)) pre.length
  · exact .inr (by simp [hc, Bind.bind, Except.bind, throw, throwThe, MonadExceptOf.throw])
  · simpa [hc, Bind.bind, Except.bind, Pure.pure, Except.pure] using (h hc).2

end ReadsAs

/-! ### What reading is sure to give -/

/-- The value is read from these bytes, and from nothing else, wherever they stand before at least
`pad` more. -/
def Yields {α : Type} (pad : Nat) (read : Reader α) (a : α) (b : Bytes) : Prop :=
  ∀ pre left, pad ≤ left.length →
    read (.ofBytes (pre ++ (b ++ left))) pre.length = .ok (a, (pre ++ b).length)

namespace Yields
variable {α β : Type} {pad : Nat} {a : α} {x : β} {b b' : Bytes}

theorem done (a : α) : Yields pad (fun _ next => .ok (a, next)) a [] := by
  intro pre left _
  rw [List.append_nil]

theorem bind {first : Reader α} {k : Source → α × Int → Except DecodeFailure (β × Int)}
    (h : Yields pad first a b) (hk : Yields pad (fun data next => k data (a, next)) x b') :
    Yields pad (fun data offset => first data offset >>= k data) x (b ++ b') := by
  intro pre left hpad
  have hsecond := hk (pre ++ b) left hpad
  have hfirst := h pre (b' ++ left) (by rw [List.length_append]; omega)
  rw [List.append_assoc] at hsecond
  rw [List.append_assoc b b' left]
  simp only [hfirst, Bind.bind, Except.bind, hsecond, List.append_assoc]

theorem bind_nil {first : Reader α} {k : Source → α × Int → Except DecodeFailure (β × Int)}
    (h : Yields pad first a b) (hk : Yields pad (fun data next => k data (a, next)) x []) :
    Yields pad (fun data offset => first data offset >>= k data) x b := by
  simpa using h.bind hk

/-- What follows a look at the data that reads nothing. -/
theorem guard {cond : Source → Int → Bool} {f : DecodeFailure} {read : Reader α}
    (hcond : ∀ pre left : Bytes, pad ≤ left.length →
      cond (.ofBytes (pre ++ (b ++ left))) pre.length = false)
    (h : Yields pad read a b) :
    Yields pad (fun data offset => do
      if cond data offset then throw f
      read data offset) a b := by
  intro pre left hpad
  simpa [hcond pre left hpad, Bind.bind, Except.bind, Pure.pure, Except.pure] using h pre left hpad

theorem take (pad : Nat) (b : Bytes) :
    Yields pad (fun data offset => data.take offset b.length) (.bytes b) b :=
  fun pre left _ => Source.take_append pre b left

theorem takeBytes (pad : Nat) (b : Bytes) :
    Yields pad (fun data offset => data.takeBytes offset b.length) b b :=
  fun pre left _ => Source.takeBytes_append pre b left

theorem takeTag (pad : Nat) (x : UInt8) :
    Yields pad (fun data offset => data.takeTag offset) (.byte x) [x] :=
  fun pre left _ => Source.takeTag_append pre x left

end Yields
end InkBindings.Scale
