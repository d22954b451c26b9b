import InkBindings.Proofs.Sandbox.Recording

/-!
The log of a run. Steps that accept an answer fill blocks, each higher than the one before it, and
the table holds the blocks of the run in their order as long as no two of the strings that were
hashed collide. So what it tells of a transaction never changes.
-/

namespace InkBindings.Sandbox

open Contract (Call Event Reply)

/-! ### Hashes -/

/-- The string that is hashed for a block. -/
def heightText (mark : String) (height : Nat) : Bytes :=
  Bytes.ofText mark ++ Bytes.ofNat 8 height

/-- The strings that have been hashed when a run has come to this height. A height that does not
fit is not hashed. -/
def hashed (height : Nat) : List Bytes :=
  ((List.range' 1 height).filter (· < heightBound)).flatMap fun k =>
    [heightText "block" k, heightText "tx" k]

/-- No two of the strings that have been hashed have the same digest. -/
def Collisionless (height : Nat) : Prop :=
  ∀ x ∈ hashed height, ∀ y ∈ hashed height,
    Blake2b.digest identifierSize x = Blake2b.digest identifierSize y → x = y

instance (height : Nat) : Decidable (Collisionless height) :=
  inferInstanceAs (Decidable (∀ x ∈ hashed height, ∀ y ∈ hashed height,
    Blake2b.digest identifierSize x = Blake2b.digest identifierSize y → x = y))

theorem heightText_injective {mark : String} {j k : Nat} (hj : j < heightBound)
    (hk : k < heightBound) (h : heightText mark j = heightText mark k) : j = k := by
  have hnumbers : Bytes.ofNat 8 j = Bytes.ofNat 8 k := List.append_cancel_left h
  have hvalues := congrArg Bytes.toNat hnumbers
  rwa [Bytes.toNat_ofNat hj, Bytes.toNat_ofNat hk] at hvalues

theorem mem_hashed {mark : String} (hmark : mark = "block" ∨ mark = "tx") {k height : Nat}
    (hpos : 0 < k) (hle : k ≤ height) (hfits : k < heightBound) :
    heightText mark k ∈ hashed height := by
  have hrange : k ∈ (List.range' 1 height).filter (· < heightBound) := by
    simp only [List.mem_filter, List.mem_range'_1, decide_eq_true_eq]
    omega
  refine List.mem_flatMap.mpr ⟨k, hrange, ?_⟩
  obtain rfl | rfl := hmark <;> simp

theorem hashed_subset {height higher : Nat} (h : height ≤ higher) :
    hashed height ⊆ hashed higher := by
  intro x hx
  obtain ⟨k, hk, hmem⟩ := List.mem_flatMap.mp hx
  refine List.mem_flatMap.mpr ⟨k, ?_, hmem⟩
  simp only [List.mem_filter, List.mem_range'_1, decide_eq_true_eq] at hk ⊢
  omega

theorem Collisionless.mono {height higher : Nat} (h : height ≤ higher)
    (hfree : Collisionless higher) : Collisionless height :=
  fun x hx y hy => hfree x (hashed_subset h hx) y (hashed_subset h hy)

theorem Collisionless.heightHash_ne {height : Nat} (hfree : Collisionless height) {mark : String}
    (hmark : mark = "block" ∨ mark = "tx") {j k : Nat} (hpos : 0 < j) (hlt : j < k)
    (hle : k ≤ height) (hfits : k < heightBound) : heightHash mark j ≠ heightHash mark k := by
  intro heq
  have htext : heightText mark j = heightText mark k :=
    hfree _ (mem_hashed hmark hpos (by omega) (by omega)) _
      (mem_hashed hmark (by omega) hle hfits) heq
  exact absurd (heightText_injective (by omega) hfits htext) (Nat.ne_of_lt hlt)

/-! ### Blocks -/

/-- The events that are entered for an emission, if it can be gone through. -/
def Emission.entered? : Emission → Option (List Event)
  | .events es | .uncounted es _ => some es
  | .failure _ => none

/-- The block of this height that an emission fills: its height and its events. -/
def Emission.block? (emission : Emission) (height : Nat) : Option (Nat × List Event) :=
  if height < heightBound then emission.entered?.map (height, ·) else none

variable {κ : Type} [Responder κ] {c : Connection}

/-- The block that a step fills. -/
def Operation.block? (c : Connection) (op : Operation) (context : κ) : Option (Nat × List Event) :=
  (op.accepted? c context).bind fun accepted => accepted.emission.block? (c.height + 1)

/-- The blocks that a run fills. -/
def Connection.blocks (env : Scale.Environment) (c : Connection) :
    List (Operation × κ) → List (Nat × List Event)
  | [] => []
  | (op, context) :: rest =>
    (op.block? c context).toList ++ (c.perform env op context).connection.blocks env rest

/-- A block as the table has it. -/
def entryOf (block : Nat × List Event) : Bytes × List Event :=
  ((txAt block.1).txHash, block.2)

/-- The table with a block entered, if there is one. -/
def entering (log : List (Bytes × List Event)) :
    Option (Nat × List Event) → List (Bytes × List Event)
  | none => log
  | some block => enter (entryOf block).1 (entryOf block).2 log

theorem Emission.height_of_block {emission : Emission} {height : Nat} {block : Nat × List Event}
    (h : emission.block? height = some block) : block.1 = height ∧ block.1 < heightBound := by
  obtain ⟨hfits, hentered⟩ := Option.ite_none_right_eq_some.mp h
  obtain ⟨es, -, rfl⟩ := Option.map_eq_some_iff.mp hentered
  exact ⟨rfl, hfits⟩

theorem Operation.height_of_block {op : Operation} {context : κ} {block : Nat × List Event}
    (h : op.block? c context = some block) : block.1 = c.height + 1 ∧ block.1 < heightBound := by
  obtain ⟨accepted, -, hblock⟩ := Option.bind_eq_some_iff.mp h
  exact Emission.height_of_block hblock

theorem log_fill (c : Connection) (emission : Emission) :
    (left (c.fill emission)).log =
      (c.height + 1, entering c.transactions (emission.block? (c.height + 1))) := by
  by_cases hfits : c.height + 1 < heightBound
  · simp only [Connection.fill, if_neg (Nat.not_le.mpr hfits), Emission.block?, if_pos hfits]
    cases emission <;> rfl
  · simp only [Connection.fill, if_pos (Nat.not_lt.mp hfits), Emission.block?, if_neg hfits]
    rfl

theorem Plan.left_run_record {α : Type} (emission : Emission) (tell : TxInfo → α) :
    left ((Plan.record emission tell).run c) = left (c.fill emission) := by
  rw [run]
  cases c.fill emission <;> rfl

namespace Connection

/-- What a step does to the log: it begins a block if it accepts an answer, and enters the events of
a block that it fills. -/
theorem perform_log (env : Scale.Environment) (op : Operation) (context : κ) :
    (c.perform env op context).connection.log =
      (if (op.accepted? c context).isSome then c.height + 1 else c.height,
        entering c.transactions (op.block? c context)) := by
  cases haccepted : op.accepted? c context with
  | none =>
      simp only [Operation.block?, haccepted]
      obtain hkept | ⟨-, reason, hpoisoned⟩ := perform_of_not_accepted env haccepted
      · rw [hkept]
        rfl
      · rw [hpoisoned]
        rfl
  | some accepted =>
      obtain ⟨hpoison, conclude, -, hplan⟩ := op.course_of_accepted env haccepted
      rw [perform_eq env hpoison, settle_log, hplan, Plan.left_run_record, log_fill]
      simp only [Operation.block?, haccepted]
      rfl

theorem perform_height (env : Scale.Environment) (op : Operation) (context : κ) :
    (c.perform env op context).connection.height =
      if (op.accepted? c context).isSome then c.height + 1 else c.height :=
  congrArg Prod.fst (perform_log env op context)

theorem perform_transactions (env : Scale.Environment) (op : Operation) (context : κ) :
    (c.perform env op context).connection.transactions =
      entering c.transactions (op.block? c context) :=
  congrArg Prod.snd (perform_log env op context)

theorem height_le_perform (env : Scale.Environment) (op : Operation) (context : κ) :
    c.height ≤ (c.perform env op context).connection.height := by
  rw [perform_height]
  split <;> omega

theorem height_of_filled (env : Scale.Environment) {op : Operation} {context : κ}
    {block : Nat × List Event} (h : op.block? c context = some block) :
    (c.perform env op context).connection.height = block.1 := by
  obtain ⟨accepted, haccepted, -⟩ := Option.bind_eq_some_iff.mp h
  rw [perform_height, haccepted, (Operation.height_of_block h).1]
  rfl

theorem height_le_after (env : Scale.Environment) (steps : List (Operation × κ)) :
    c.height ≤ (c.after env steps).height := by
  induction steps generalizing c with
  | nil => exact Nat.le_refl _
  | cons step rest ih => exact Nat.le_trans (height_le_perform env step.1 step.2) ih

theorem blocks_append (env : Scale.Environment) (earlier later : List (Operation × κ)) :
    c.blocks env (earlier ++ later) =
      c.blocks env earlier ++ (c.after env earlier).blocks env later := by
  induction earlier generalizing c with
  | nil => rfl
  | cons step rest ih => rw [List.cons_append, blocks, ih, blocks, List.append_assoc, after_cons]

/-- The blocks of a run are above the height it begins with, up to the one it ends with. -/
theorem height_of_mem_blocks (env : Scale.Environment) {steps : List (Operation × κ)}
    {block : Nat × List Event} (h : block ∈ c.blocks env steps) :
    c.height < block.1 ∧ block.1 ≤ (c.after env steps).height ∧ block.1 < heightBound := by
  induction steps generalizing c with
  | nil => cases h
  | cons step rest ih =>
      obtain hfirst | hrest := List.mem_append.mp h
      · have hblock := Option.mem_toList.mp hfirst
        obtain ⟨hheight, hfits⟩ := Operation.height_of_block hblock
        have hle := height_le_after (c := (c.perform env step.1 step.2).connection) env rest
        rw [height_of_filled env hblock] at hle
        exact ⟨by omega, hle, hfits⟩
      · obtain ⟨hlt, hle, hfits⟩ := ih hrest
        exact ⟨Nat.lt_of_le_of_lt (height_le_perform env step.1 step.2) hlt, hle, hfits⟩

theorem blocks_increasing (env : Scale.Environment) (steps : List (Operation × κ)) :
    (c.blocks env steps).Pairwise (·.1 < ·.1) := by
  induction steps generalizing c with
  | nil => exact .nil
  | cons step rest ih =>
      refine List.pairwise_append.mpr ⟨?_, ih, fun block hblock later hlater => ?_⟩
      · cases Operation.block? c step.1 step.2 <;> simp
      · have hheight := height_of_filled env (Option.mem_toList.mp hblock)
        have habove := (height_of_mem_blocks env hlater).1
        omega

/-- The table of a run: what was there before, and the blocks of the run in their order. -/
theorem after_transactions (env : Scale.Environment) (hlogged : c.Logged)
    (steps : List (Operation × κ)) (hfree : Collisionless (c.after env steps).height) :
    (c.after env steps).transactions = c.transactions ++ (c.blocks env steps).map entryOf := by
  induction steps generalizing c with
  | nil => exact (List.append_nil _).symm
  | cons step rest ih =>
      have hnext := ih (perform_logged env hlogged step.1 step.2) hfree
      rw [after_cons, hnext, perform_transactions, blocks, List.map_append, ← List.append_assoc]
      congr 1
      cases hblock : Operation.block? c step.1 step.2 with
      | none => exact (List.append_nil _).symm
      | some block =>
          refine enter_of_forall_ne (fun entry hentry => ?_) block.2
          obtain ⟨k, hpos, hle, hhash⟩ := hlogged entry hentry
          obtain ⟨hheight, hfits⟩ := Operation.height_of_block hblock
          have hreached := height_le_after (c := (c.perform env step.1 step.2).connection) env rest
          rw [height_of_filled env hblock] at hreached
          rw [hhash]
          exact hfree.heightHash_ne (.inr rfl) hpos (by omega) hreached hfits

end Connection

/-! ### Transactions -/

/-- The transaction that a turn returns. -/
def Turn.tx? (t : Turn Returned) : Option TxInfo :=
  match t.result with
  | .ok returned => returned.tx?
  | .error _ => none

namespace Connection

theorem tx_of_read (env : Scale.Environment) (given : Reply) (context : κ) :
    (c.perform env (.submit .read given) context).tx? = none := by
  cases given with
  | call call =>
      rw [perform, submit, Turn.map, Turn.andThen, Turn.tx?]
      cases (c.read env call context).result <;> rfl
  | value | handle =>
      cases hpoison : c.poison with
      | some reason =>
          rw [perform_poisoned env hpoison]
          rfl
      | none =>
          rw [perform_eq env hpoison]
          rfl

theorem tx_of_not_accepted (env : Scale.Environment) {op : Operation} {context : κ}
    (h : op.accepted? c context = none) : (c.perform env op context).tx? = none := by
  cases op with
  | events txHash =>
      rw [perform, Turn.tx?, answerEvents]
      cases c.events txHash <;> rfl
  | submit m given =>
      by_cases hread : m = .read
      · rw [hread]
        exact tx_of_read env given context
      · obtain ⟨failure, hfailure⟩ := result_of_not_accepted env hread h
        rw [Turn.tx?, hfailure]

/-- A transaction that is returned is that of the block which the step fills. -/
theorem perform_tx (env : Scale.Environment) {op : Operation} {context : κ} {tx : TxInfo}
    (h : (c.perform env op context).tx? = some tx) :
    tx = txAt (c.height + 1) ∧ ∃ accepted es, op.accepted? c context = some accepted ∧
      accepted.emission = .events es ∧ op.block? c context = some (c.height + 1, es) := by
  cases haccepted : op.accepted? c context with
  | none => cases (tx_of_not_accepted env haccepted).symm.trans h
  | some accepted =>
      obtain ⟨hpoison, conclude, hconcludes, hplan⟩ := op.course_of_accepted env haccepted
      rw [perform_eq env hpoison, Turn.tx?] at h
      split at h
      · next returned hreturned =>
          have hrun := settle_ok hreturned
          rw [hplan] at hrun
          obtain ⟨hheight, es, hemission, htell, -⟩ := Plan.run_record_ok hrun
          refine ⟨hconcludes.tx htell.symm h, accepted, es, rfl, hemission, ?_⟩
          simp only [Operation.block?, haccepted, Option.bind_some, Emission.block?, if_pos hheight,
            hemission]
          rfl
      · cases h

/-- Transactions are returned in the order of the blocks. -/
theorem infos_sublist (env : Scale.Environment) (steps : List (Operation × κ)) :
    ((c.turns env steps).filterMap Turn.tx?).Sublist
      ((c.blocks env steps).map fun block => txAt block.1) := by
  induction steps generalizing c with
  | nil => exact .slnil
  | cons step rest ih =>
      rw [turns, blocks, List.map_append]
      cases htx : (c.perform env step.1 step.2).tx? with
      | none =>
          rw [List.filterMap_cons_none htx]
          exact ih.trans (List.sublist_append_right _ _)
      | some tx =>
          obtain ⟨rfl, accepted, es, -, -, hblock⟩ := perform_tx env htx
          rw [List.filterMap_cons_some htx, hblock]
          exact ih.cons_cons _

/-- Asking for the events of a transaction gives these, and changes nothing. -/
def Tells (κ : Type) [Responder κ] (env : Scale.Environment) (c : Connection) (txHash : Bytes)
    (es : List Event) : Prop :=
  ∀ context : κ, c.perform env (.events txHash) context = ⟨.ok (.events es), none, c⟩

theorem tells_of_find {env : Scale.Environment} {txHash : Bytes} {es : List Event}
    (h : c.transactions.find? (·.1 = txHash) = some (txHash, es)) : Tells κ env c txHash es := by
  intro context
  rw [perform, answerEvents, events, h]

/-- What is told of a block of a run at its end: its events. -/
theorem tells_of_mem_blocks (env : Scale.Environment) (caller : Identifier)
    {steps : List (Operation × κ)}
    (hfree : Collisionless ((start caller).after env steps).height) {block : Nat × List Event}
    (h : block ∈ (start caller).blocks env steps) :
    Tells κ env ((start caller).after env steps) (txAt block.1).txHash block.2 := by
  have htable := after_transactions env (start_logged caller) steps hfree
  obtain ⟨hpos, hreached, hfits⟩ := height_of_mem_blocks env h
  have hincreasing := blocks_increasing (c := start caller) env steps
  have hmem : ∀ other ∈ (start caller).blocks env steps, 0 < other.1 :=
    fun other hother => (height_of_mem_blocks env hother).1
  obtain ⟨lower, higher, hsplit⟩ := List.append_of_mem h
  rw [hsplit] at htable hincreasing hmem
  -- No lower block has the same hash, so the look-up comes to this one.
  have hlower : (lower.map entryOf).find? (·.1 = (txAt block.1).txHash) = none := by
    refine List.find?_eq_none.mpr fun entry hentry => ?_
    obtain ⟨other, hother, rfl⟩ := List.mem_map.mp hentry
    have hlt := (List.pairwise_append.mp hincreasing).2.2 other hother block List.mem_cons_self
    have habove := hmem other (List.mem_append_left _ hother)
    have hne := hfree.heightHash_ne (.inr rfl) habove hlt hreached hfits
    exact fun heq => hne (of_decide_eq_true heq)
  refine tells_of_find ?_
  rw [htable, show (start caller).transactions = [] from rfl, List.nil_append, List.map_append,
    List.find?_append, hlower, List.map_cons, List.find?_cons_of_pos (by simp [entryOf])]
  rfl

/-- A hash that no block of a run has is not known at its end. -/
theorem unknown_of_forall_ne (env : Scale.Environment) (caller : Identifier)
    {steps : List (Operation × κ)}
    (hfree : Collisionless ((start caller).after env steps).height) {txHash : Bytes}
    (h : ∀ block ∈ (start caller).blocks env steps, (txAt block.1).txHash ≠ txHash) (context : κ) :
    ((start caller).after env steps).perform env (.events txHash) context =
      ⟨.error (.runtime (.dispatch "unknown transaction" (.str (Hex.encode txHash)))), none,
        (start caller).after env steps⟩ := by
  have hnone :
      ((start caller).after env steps).transactions.find? (·.1 = txHash) = none := by
    rw [after_transactions env (start_logged caller) steps hfree]
    refine List.find?_eq_none.mpr fun entry hentry => ?_
    obtain ⟨block, hblock, rfl⟩ := List.mem_map.mp hentry
    exact fun heq => h block hblock (of_decide_eq_true heq)
  rw [perform, answerEvents, events, hnone]

end Connection

/-! ### Runs -/

/-- What the log of a run is like. -/
structure StableLog (env : Scale.Environment) (c : Connection) (steps : List (Operation × κ)) :
    Prop where
  /-- All transactions that are returned have hashes of their own. -/
  distinct : ((c.turns env steps).filterMap Turn.tx?).Pairwise fun tx other =>
    tx.txHash ≠ other.txHash ∧ tx.blockHash ≠ other.blockHash
  /-- From the step that returns a transaction on, the events of the answer to it are told. -/
  told : ∀ earlier op context between later tx,
    steps = earlier ++ (op, context) :: between ++ later →
    ((c.after env earlier).perform env op context).tx? = some tx →
    ∃ r a es, ((c.after env earlier).perform env op context).asked = some r ∧
      Responder.respond context r = .ok a ∧ a.emission = .events es ∧
      (c.after env (earlier ++ (op, context) :: between)).Tells κ env tx.txHash es
  /-- A hash under which nothing has been recorded is refused, which changes nothing. -/
  unknown : ∀ earlier later txHash, steps = earlier ++ later →
    (∀ block ∈ c.blocks env earlier, (txAt block.1).txHash ≠ txHash) →
    ∀ context : κ, (c.after env earlier).perform env (.events txHash) context =
      ⟨.error (.runtime (.dispatch "unknown transaction" (.str (Hex.encode txHash)))), none,
        c.after env earlier⟩

theorem transactionLog_stable (env : Scale.Environment) (caller : Identifier)
    (steps : List (Operation × κ))
    (hfree : Collisionless ((Connection.start caller).after env steps).height) :
    StableLog env (.start caller) steps where
  distinct := by
    refine (List.Pairwise.sublist (Connection.infos_sublist env steps)) ?_
    rw [List.pairwise_map]
    refine (Connection.blocks_increasing env steps).imp_of_mem ?_
    intro block other hblock hother hlt
    have hpos := (Connection.height_of_mem_blocks env hblock).1
    obtain ⟨-, hreached, hfits⟩ := Connection.height_of_mem_blocks env hother
    have hpos' := Nat.zero_lt_of_lt hpos
    exact ⟨hfree.heightHash_ne (.inr rfl) hpos' hlt hreached hfits,
      hfree.heightHash_ne (.inl rfl) hpos' hlt hreached hfits⟩
  told := by
    rintro earlier op context between later tx rfl htx
    rw [Connection.after_append] at hfree
    have hpoint := hfree.mono (Connection.height_le_after env later)
    obtain ⟨rfl, accepted, es, haccepted, hemission, hblock⟩ := Connection.perform_tx env htx
    obtain ⟨r, a, hasked, hresponse, hanswer⟩ := Connection.asked_of_accepted env haccepted
    refine ⟨r, a, es, hasked, hresponse, hanswer ▸ hemission, ?_⟩
    have hmem : ((((Connection.start caller).after env earlier).height + 1, es)) ∈
        (Connection.start caller).blocks env (earlier ++ (op, context) :: between) := by
      rw [Connection.blocks_append, Connection.blocks, hblock]
      simp
    have htold := Connection.tells_of_mem_blocks env caller hpoint hmem
    exact htold
  unknown := by
    rintro earlier later txHash rfl hunknown context
    rw [Connection.after_append] at hfree
    have hpoint := hfree.mono (Connection.height_le_after env later)
    exact Connection.unknown_of_forall_ne env caller hpoint hunknown context

/-- A context whose answer comes with an event. -/
def loud : Context := .ok (.outcome ⟨[], false, .events [⟨nobody, [1]⟩], none⟩)

theorem loud_told :
    let steps := [(ping, loud), (ping, done), (ping, crash)]
    let last := (Connection.start nobody).after .empty steps
    Collisionless last.height ∧ last.poison = some "RuntimeError: boom" ∧
      last.Tells Context .empty (txAt 1).txHash [⟨nobody, [1]⟩] := by
  intro steps last
  have hheight : last.height = 2 := rfl
  have hfree : Collisionless last.height := by
    rw [hheight]
    decide +kernel
  refine ⟨hfree, rfl, ?_⟩
  obtain ⟨r, a, es, hasked, hresponse, hevents, htold⟩ :=
    (transactionLog_stable .empty nobody steps hfree).told
      [] ping loud [(ping, done), (ping, crash)] [] (txAt 1) rfl rfl
  cases hasked
  cases hresponse
  cases hevents
  exact htold

end InkBindings.Sandbox
