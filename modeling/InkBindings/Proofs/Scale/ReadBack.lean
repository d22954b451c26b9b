import InkBindings.Proofs.Scale.Written

/-!
What stands on the wire is read back, at every level from some level on. Only the declared types
count for the level: it is enough for a row of values if it is enough for each of them.
-/

namespace InkBindings.Scale

theorem Decoder.fits_iff {count : Nat} {pre rest : Bytes} :
    fits count (.ofBytes (pre ++ rest)) pre.length = true ↔ count ≤ rest.length := by
  have hsize : (Source.ofBytes (pre ++ rest)).size = (pre ++ rest).length := rfl
  simp only [fits, hsize, decide_eq_true_eq, List.length_append]
  omega

theorem Decoder.fits_behind {count : Nat} {pre used rest : Bytes} :
    fits count (.ofBytes (pre ++ (used ++ rest))) (pre.length + used.length) =
      decide (count ≤ rest.length) := by
  have h : fits count (.ofBytes ((pre ++ used) ++ rest)) (pre ++ used).length = true ↔
      count ≤ rest.length := fits_iff
  rw [List.append_assoc, List.length_append, Int.natCast_add] at h
  rw [Bool.eq_iff_iff, h, decide_eq_true_iff]

theorem Decoder.fits_append {count pad : Nat} {b : Bytes} (h : count ≤ b.length + pad)
    (pre left : Bytes) (hpad : pad ≤ left.length) :
    fits count (.ofBytes (pre ++ (b ++ left))) pre.length = true := by
  rw [fits_iff, List.length_append]
  omega

theorem yields_each_cons {pad : Nat} {d : Decoder} {ds : List Decoder} {v : Value}
    {vs : List Value} {b bs : Bytes} (h : Yields pad d v b)
    (hs : Yields pad (Decoder.each ds) vs bs) :
    Yields pad (Decoder.each (d :: ds)) (v :: vs) (b ++ bs) :=
  h.bind (hs.bind_nil (.done (v :: vs)))

theorem yields_repeated {pad : Nat} {d : Decoder} {vs : List Value} {b : Bytes}
    (h : Yields pad (Decoder.each (List.replicate vs.length d)) vs b) :
    Yields pad (fun data => Decoder.repeated d data vs.length []) vs b := by
  rwa [Decoder.repeated_eq_each]

theorem yields_entries {pad count : Nat} {key value : Decoder} {vs : List Value} {b : Bytes}
    (h : Yields pad (Decoder.each (List.replicate count [key, value]).flatten) vs b) :
    Yields pad (fun data => Decoder.entries key value data count []) (Decoder.pairUp vs) b := by
  rw [Decoder.entries_eq_each]
  exact h.bind_nil (.done (Decoder.pairUp vs))

theorem yields_fields {pad : Nat} {decoder : Codec → Decoder} {fields : Fields}
    {vs : List Value} {b : Bytes}
    (h : Yields pad (Decoder.each ((fields.map (·.2)).map decoder)) vs b) :
    Yields pad (Decoder.fields decoder fields) ((fields.map (·.1)).zip vs) b := by
  rw [Decoder.fields_eq_each]
  exact h.bind_nil (.done ((fields.map (·.1)).zip vs))

section
variable {env : Environment} {strict : Prop} {pad : Nat} {root : Codec}

section
variable {r : Reference} (hreadable : env.Readable r) {vs : List Value} {v : Value} {b : Bytes}
  {level : Nat}
include hreadable

theorem yields_record {fields : Fields} (hlayout : env.layout? r = some (.record fields))
    (hv : env.makeRecord r.owner ((fields.map (·.1)).zip vs) = .ok v)
    (h : Yields pad (Decoder.each ((fields.map (·.2)).map (env.reading level))) vs b) :
    Yields pad (env.reading (level + 1) (.reference r)) v b := by
  rw [Environment.reading_of_readable hlayout hreadable]
  refine (yields_fields h).bind_nil ?_
  simp only [hv]
  exact .done _

/-- The index is read first, and no two alternatives share one. -/
theorem yields_variant {alternatives : List Alternative} {a : Alternative}
    (hnodup : (alternatives.map (·.index)).Nodup)
    (hlayout : env.layout? r = some (.sum alternatives)) (ha : a ∈ alternatives)
    (hv : env.makeVariant r.owner a.label ((a.fields.map (·.1)).zip vs) = .ok v)
    (h : Yields pad (Decoder.each ((a.fields.map (·.2)).map (env.reading level))) vs b) :
    Yields pad (env.reading (level + 1) (.reference r)) v (a.index :: b) := by
  rw [Environment.reading_of_readable hlayout hreadable]
  refine (yields_chosen (find_of_nodup Alternative.index hnodup ha)).bind
    ((yields_fields h).bind_nil ?_)
  simp only [hv]
  exact .done _

end

mutual

theorem Wire.yields (hsound : env.Sound root) {c : Codec} {v : Value} {b : Bytes} :
    Wire env strict pad c v b → Reaches env root c →
      ∃ enough, ∀ level, enough ≤ level → Yields pad (env.reading level c) v b
  | .int hleast hgreatest, _ => ⟨0, fun _ _ => yields_integer hleast hgreatest⟩
  | .bool b, _ => ⟨0, fun _ _ => yields_bool b⟩
  | .char c, _ => ⟨0, fun _ _ => yields_char c⟩
  | .str h, _ => ⟨0, fun _ _ => yields_str h⟩
  | .unit, _ => ⟨0, fun _ _ => .done Value.none⟩
  | .bytes h, _ => ⟨0, fun _ _ => yields_bytes h⟩
  | .accountId id, _ => ⟨0, fun _ _ => yields_identifier .account id⟩
  | .hash id, _ => ⟨0, fun _ _ => yields_identifier .hash id⟩
  | .fixedBytes hlen, _ => ⟨0, fun _ _ => hlen ▸ yields_fixedBytes b⟩
  | .compact hn hkind, _ => ⟨0, fun _ _ => yields_compactValue hn hkind⟩
  | .tuple h, hreach => by
      obtain ⟨enough, hyields⟩ := h.yields hsound fun d hd => hreach.trans (.part hd)
      refine ⟨enough, fun level hlevel => ?_⟩
      rw [Environment.reading_tuple]
      exact (hyields level hlevel).bind_nil (.done _)
  | .array hlen h, hreach => by
      obtain ⟨enough, hyields⟩ := h.yields hsound hreach.first.replicate
      refine ⟨enough, fun level hlevel => ?_⟩
      have heach := hyields level hlevel
      rw [List.map_replicate] at heach
      subst hlen
      exact (yields_repeated heach).bind_nil (.done _)
  | .sequence hlen hfits h, hreach => by
      obtain ⟨enough, hyields⟩ := h.yields hsound hreach.first.replicate
      refine ⟨enough, fun level hlevel => ?_⟩
      have heach := hyields level hlevel
      rw [List.map_replicate] at heach
      refine (yields_compact hlen).bind (.guard (fun pre left hpad => ?_)
        ((yields_repeated heach).bind_nil (.done _)))
      rcases hfits with hunit | hcount
      · simp [hunit]
      · simp [Decoder.fits_append hcount pre left hpad]
  | .absent, _ => ⟨0, fun _ _ => (Yields.takeTag pad 0).bind_nil (.done Value.none)⟩
  | .present _ h, hreach => by
      obtain ⟨enough, hyields⟩ := h.yields hsound hreach.first
      exact ⟨enough, fun level hlevel => (Yields.takeTag pad 1).bind (hyields level hlevel)⟩
  | .ok h, hreach => by
      obtain ⟨enough, hyields⟩ := h.yields hsound hreach.first
      exact ⟨enough, fun level hlevel =>
        (Yields.takeTag pad 0).bind ((hyields level hlevel).bind_nil (.done _))⟩
  | .err h, hreach => by
      obtain ⟨enough, hyields⟩ := h.yields hsound hreach.second
      exact ⟨enough, fun level hlevel =>
        (Yields.takeTag pad 1).bind ((hyields level hlevel).bind_nil (.done _))⟩
  | .map _ hcount hfits h, hreach => by
      obtain ⟨enough, hyields⟩ := h.yields hsound (hreach.entries _)
      refine ⟨enough, fun level hlevel => ?_⟩
      have heach := hyields level hlevel
      rw [List.map_flatten, List.map_replicate] at heach
      refine (yields_compact hcount).bind (.guard (fun pre left hpad => ?_)
        ((yields_entries heach).bind_nil (.done _)))
      simp [Decoder.fits_append hfits pre left hpad]
  | .langError, _ => ⟨0, fun _ _ => yields_langErrorOf .langError⟩
  | .raisedLangError, _ => ⟨0, fun _ _ => yields_langErrorOf .raisedLangError⟩
  | .record hreadable hlayout h hv, hreach => by
      obtain ⟨enough, hyields⟩ := h.yields hsound fun d hd =>
        hreach.trans (.part (Environment.mem_partsOf_record hlayout hd))
      refine ⟨enough + 1, fun level hlevel => ?_⟩
      obtain ⟨level, rfl⟩ := Nat.exists_eq_add_of_le' (Nat.le_trans (Nat.le_add_left 1 _) hlevel)
      exact yields_record hreadable hlayout hv (hyields level (Nat.le_of_succ_le_succ hlevel))
  | .variant hreadable hlayout ha h hv, hreach => by
      obtain ⟨enough, hyields⟩ := h.yields hsound fun d hd =>
        hreach.trans (.part (Environment.mem_partsOf_sum hlayout ha hd))
      refine ⟨enough + 1, fun level hlevel => ?_⟩
      obtain ⟨level, rfl⟩ := Nat.exists_eq_add_of_le' (Nat.le_trans (Nat.le_add_left 1 _) hlevel)
      exact yields_variant hreadable (hsound.layout_fits hreach hlayout).1 hlayout ha hv
        (hyields level (Nat.le_of_succ_le_succ hlevel))

theorem WireAll.yields (hsound : env.Sound root) {cs : List Codec} {vs : List Value} {b : Bytes} :
    WireAll env strict pad cs vs b → (∀ c ∈ cs, Reaches env root c) →
      ∃ enough, ∀ level, enough ≤ level →
        Yields pad (Decoder.each (cs.map (env.reading level))) vs b
  | .nil, _ => ⟨0, fun _ _ => .done []⟩
  | .cons h hs, hreach => by
      obtain ⟨first, hfirst⟩ := h.yields hsound (hreach _ List.mem_cons_self)
      obtain ⟨others, hothers⟩ := hs.yields hsound fun c hc =>
        hreach c (List.mem_cons_of_mem _ hc)
      exact ⟨max first others, fun level hlevel => yields_each_cons
        (hfirst level (Nat.le_trans (Nat.le_max_left ..) hlevel))
        (hothers level (Nat.le_trans (Nat.le_max_right ..) hlevel))⟩

end
end

end InkBindings.Scale
