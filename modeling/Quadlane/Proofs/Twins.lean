import Quadlane.Proofs.Footprint
import Quadlane.Proofs.RunSteps
import Quadlane.Proofs.Tracking

/-! Two calls of one code, side by side. A sight is what both of them may read: cells, views, and
whether they may draw random numbers. If the two memories are the same as far as the sight goes, the
calls end alike and leave memories that are so again, whatever else the memories hold. Unlike a
footprint, a sight can hold some cells of a buffer and not the others, and a code that sets every
temporary before it reads it may find any temporaries. -/

namespace Quadlane

structure Sight where
  cells : BufferId → Nat → Prop
  views : Nat → Prop
  random : Prop

def Sight.whole (S : Sight) : Footprint :=
  { buffers := fun b => ∀ j, S.cells b j, views := S.views }

/-! ### Memories -/

namespace Memory

structure Twins (S : Sight) (m m' : Memory) : Prop where
  shape : m'.shape = m.shape
  cell : ∀ b j, S.cells b j → m.cell b j = m'.cell b j
  view : ∀ v, S.views v → m.views[v]? = m'.views[v]?

namespace Twins

variable {S : Sight} {m m' : Memory}

theorem agrees (h : Twins S m m') : Agrees S.whole m m' := by
  refine ⟨?_, h.view⟩
  intro b hb
  have hsize : (m.buffer b).size = (m'.buffer b).size := (bufferSize_of_shape h.shape b).symm
  apply Array.ext hsize
  intro j hj hj'
  have hcell := h.cell b j (hb j)
  have hget (m : Memory) (hj : j < (m.buffer b).size) : m.cell b j = (m.buffer b)[j] := by
    show (m.buffer b).getD j Quad.zero = _
    rw [Array.getD_eq_getD_getElem?, Array.getElem?_eq_getElem hj, Option.getD_some]
  rw [← hget m hj, ← hget m' hj', hcell]

theorem setCell (h : Twins S m m') (b : BufferId) (i : Nat) (q : Quad) :
    Twins S (m.setCell b i q) (m'.setCell b i q) := by
  refine ⟨by rw [setCell_shape, setCell_shape, h.shape], ?_, h.view⟩
  intro b' j hj
  rw [cell_setCell, cell_setCell, bufferSize_of_shape h.shape, h.cell b' j hj]

theorem writeRecord (h : Twins S m m') (hclosed : S.whole.Closed m) {id : Nat} (hid : S.views id)
    (var : Nat) (i : Int) (q : Quad) :
    Twins S (m.writeRecord id var i q) (m'.writeRecord id var i q) := by
  have hafter := h.agrees.writeRecord hclosed hid var i q
  refine ⟨by rw [writeRecord_shape, writeRecord_shape, h.shape], ?_, hafter.view⟩
  intro b j hj
  unfold Memory.writeRecord
  rw [← h.view id hid]
  cases hv : m.views[id]? with
  | none => exact h.cell b j hj
  | some v =>
    simp only [← h.agrees.locate (fun x b => hclosed id v x b hid hv) var i]
    split
    · exact (h.setCell _ _ q).cell b j hj
    · exact h.cell b j hj

theorem moveCursor (h : Twins S m m') {id : Nat} (hid : S.views id) (c : Cursor) :
    (m.moveCursor id c).1 = (m'.moveCursor id c).1 ∧
      Twins S (m.moveCursor id c).2 (m'.moveCursor id c).2 := by
  obtain ⟨hindex, hafter⟩ := h.agrees.moveCursor hid c
  have hcell (m : Memory) (b : BufferId) (j : Nat) :
      (m.moveCursor id c).2.cell b j = m.cell b j := by
    unfold Memory.moveCursor
    split <;> rfl
  refine ⟨hindex, by rw [moveCursor_shape, moveCursor_shape, h.shape], ?_, hafter.view⟩
  intro b j hj
  rw [hcell, hcell, h.cell b j hj]

end Twins
end Memory

/-! ### Actions -/

/-- The value of the source for instance `i` of the chunk is in sight, or is a temporary that is
known to be the same. -/
def Source.Seen (S : Sight) (known : Nat → Nat → Prop) (c : Chunk) (i : Nat) : Source → Prop
  | .register (.temporary r) => known r i
  | .register (.bound w) => S.cells w.buffer (w.start + c.first + i)
  | .register .unbound | .constant _ => True

theorem Source.Seen.mono {S : Sight} {known known' : Nat → Nat → Prop} {c : Chunk} {i : Nat}
    {source : Source} (h : source.Seen S known c i) (hmono : ∀ r j, known r j → known' r j) :
    source.Seen S known' c i := by
  match source with
  | .constant _ => exact trivial
  | .register (.temporary r) => exact hmono r i h
  | .register (.bound w) => exact h
  | .register .unbound => exact trivial

namespace Action

def Sees (S : Sight) (known : Nat → Nat → Prop) (c : Chunk) (i : Nat) : Action → Prop
  | skip => True
  | kernel k _ sources => (k = .random → S.random) ∧ ∀ s ∈ sources, s.Seen S known c i
  | cursor _ view _ cond => S.views view ∧ cond.Seen S known c i
  | read view _ _ index => S.views view ∧ index.Seen S known c i
  | write view _ index value => S.views view ∧ index.Seen S known c i ∧ value.Seen S known c i
  | valid view _ index => S.views view ∧ index.Seen S known c i
  | missing _ _ source => source.Seen S known c i

def target : Action → Slot
  | kernel _ dst _ | cursor _ _ dst _ | read _ _ dst _ | valid _ dst _ | missing _ dst _ => dst
  | skip | write _ _ _ _ => .unbound

theorem Sees.mono {S : Sight} {known known' : Nat → Nat → Prop} {c : Chunk} {i : Nat} {a : Action}
    (h : a.Sees S known c i) (hmono : ∀ r j, known r j → known' r j) : a.Sees S known' c i := by
  cases a with
  | skip => exact trivial
  | kernel k dst sources => exact ⟨h.1, fun s hs => (h.2 s hs).mono hmono⟩
  | cursor move view dst cond => exact ⟨h.1, h.2.mono hmono⟩
  | read view var dst index => exact ⟨h.1, h.2.mono hmono⟩
  | write view var index value => exact ⟨h.1, h.2.1.mono hmono, h.2.2.mono hmono⟩
  | valid view dst index => exact ⟨h.1, h.2.mono hmono⟩
  | missing p dst source => exact Source.Seen.mono h hmono

end Action

namespace Store

structure Twins (S : Sight) (known : Nat → Nat → Prop) (s s' : Store) : Prop where
  memory : Memory.Twins S s.memory s'.memory
  temporaries : ∀ r i, known r i → s.temporaries.get r i = s'.temporaries.get r i
  random : S.random → s.random = s'.random

variable {S : Sight} {known known' : Nat → Nat → Prop} {s s' : Store}

theorem Twins.mono (h : s.Twins S known s') (hmono : ∀ r i, known' r i → known r i) :
    s.Twins S known' s' :=
  ⟨h.memory, fun r i hri => h.temporaries r i (hmono r i hri), h.random⟩

theorem Twins.value (h : s.Twins S known s') {c : Chunk} {i : Nat} {source : Source}
    (hsource : source.Seen S known c i) : s.value c i source = s'.value c i source := by
  match source with
  | .constant q => rfl
  | .register (.temporary r) => exact h.temporaries r i hsource
  | .register (.bound w) => exact h.memory.cell _ _ hsource
  | .register .unbound => rfl

theorem Twins.assign (h : s.Twins S known s') (c : Chunk) (i : Nat) (dst : Slot) (q : Quad) :
    (s.assign c i dst q).Twins S (fun r j => known r j ∨ dst = .temporary r ∧ j = i)
      (s'.assign c i dst q) := by
  cases dst with
  | temporary t =>
    refine ⟨h.memory, ?_, h.random⟩
    intro r j hknown
    simp only [Store.assign, Temporaries.get_set]
    by_cases hset : r = t ∧ j = i
    · rw [if_pos hset, if_pos hset]
    · rw [if_neg hset, if_neg hset]
      rcases hknown with hknown | ⟨heq, hj⟩
      · exact h.temporaries r j hknown
      · exact absurd ⟨(Slot.temporary.inj heq).symm, hj⟩ hset
  | bound w =>
    refine ⟨h.memory.setCell _ _ q, ?_, h.random⟩
    rintro r j (hknown | ⟨heq, -⟩)
    · exact h.temporaries r j hknown
    · cases heq
  | unbound =>
    apply h.mono
    rintro r j (hknown | ⟨heq, -⟩)
    · exact hknown
    · cases heq

end Store

namespace Action

variable {S : Sight} {known : Nat → Nat → Prop} {s s' : Store} {a : Action} {c : Chunk}

theorem onInstance_twins (table : NoiseTable) {i : Nat} (ha : a.Sees S known c i)
    (hclosed : S.whole.Closed s.memory) (h : s.Twins S known s') :
    (a.onInstance table c s i).Twins S (fun r j => known r j ∨ a.target = .temporary r ∧ j = i)
      (a.onInstance table c s' i) := by
  cases a with
  | skip => exact h.mono fun r j hknown => hknown.resolve_right fun heq => by cases heq.1
  | kernel k dst sources =>
    have hvalues : sources.map (s.value c i) = sources.map (s'.value c i) :=
      List.map_congr_left fun source hsource => h.value (ha.2 source hsource)
    have hvalue : (k.apply table (sources.map (s'.value c i)) s.random).1 =
        (k.apply table (sources.map (s'.value c i)) s'.random).1 := by
      by_cases hk : k = .random
      · rw [h.random (ha.1 hk)]
      · exact Kernel.apply_value hk _ _ _
    simp only [onInstance, hvalues, hvalue]
    apply Store.Twins.assign
    refine ⟨h.memory, h.temporaries, ?_⟩
    intro hrandom
    show (k.apply table _ s.random).2 = (k.apply table _ s'.random).2
    rw [h.random hrandom]
  | cursor move view dst cond =>
    obtain ⟨hview, hcond⟩ := ha
    obtain ⟨hindex, hmemory⟩ := h.memory.moveCursor hview move
    simp only [onInstance, h.value hcond, hindex]
    split
    · apply Store.Twins.assign
      exact ⟨hmemory, h.temporaries, h.random⟩
    · exact h.assign c i dst _
  | read view var dst index =>
    obtain ⟨hview, hindex⟩ := ha
    simp only [onInstance, h.value hindex, h.memory.agrees.readRecord hclosed hview]
    exact h.assign c i dst _
  | write view var index value =>
    obtain ⟨hview, hindex, hvalue⟩ := ha
    simp only [onInstance, h.value hindex, h.value hvalue]
    refine ⟨h.memory.writeRecord hclosed hview _ _ _, ?_, h.random⟩
    rintro r j (hknown | ⟨heq, -⟩)
    · exact h.temporaries r j hknown
    · cases heq
  | valid view dst index =>
    obtain ⟨hview, hindex⟩ := ha
    simp only [onInstance, h.value hindex, h.memory.agrees.isValidIndex hview]
    exact h.assign c i dst _
  | missing p dst source => exact h.assign c i dst _

theorem foldl_onInstance_twins (table : NoiseTable) (ha : ∀ i < c.count, a.Sees S known c i)
    (hclosed : S.whole.Closed s.memory) (h : s.Twins S known s') {n : Nat} (hn : n ≤ c.count) :
    ((List.range n).foldl (a.onInstance table c) s).memory.shape = s.memory.shape ∧
      ((List.range n).foldl (a.onInstance table c) s).Twins S
        (fun r j => known r j ∨ a.target = .temporary r ∧ j < n)
        ((List.range n).foldl (a.onInstance table c) s') := by
  induction n with
  | zero =>
    refine ⟨rfl, h.mono fun r j hknown => hknown.resolve_right fun hlt => ?_⟩
    exact absurd hlt.2 (Nat.not_lt_zero j)
  | succ n ih =>
    obtain ⟨hshape, htwins⟩ := ih (by omega)
    rw [List.range_succ, List.foldl_append, List.foldl_append]
    refine ⟨(a.onInstance_shape table c _ n).trans hshape, ?_⟩
    have hsees : a.Sees S (fun r j => known r j ∨ a.target = .temporary r ∧ j < n) c n :=
      (ha n (by omega)).mono fun r j => .inl
    refine (onInstance_twins table hsees (hclosed.of_shape hshape) htwins).mono ?_
    rintro r j (hknown | ⟨htarget, hj⟩)
    · exact .inl (.inl hknown)
    · rcases Nat.lt_succ_iff_lt_or_eq.mp hj with hlt | heq
      · exact .inl (.inr ⟨htarget, hlt⟩)
      · exact .inr ⟨htarget, heq⟩

theorem reachFrom_twins (p : Probe) (dst : Slot) {source : Source} {i n : Nat}
    (hsource : ∀ j < i + n, source.Seen S known c j) (h : s.Twins S known s') :
    reachFrom c p dst source i s n = reachFrom c p dst source i s' n := by
  induction n generalizing i s s' with
  | zero => rfl
  | succ n ih =>
    have hnext : Store.Twins S known _ _ := (h.assign c i dst p.otherwise).mono fun r j => .inl
    rw [reachFrom, reachFrom, h.value (hsource i (by omega)),
      ih (fun j hj => hsource j (by omega)) hnext]

theorem reach_twins (ha : ∀ i < c.count, a.Sees S known c i) (h : s.Twins S known s') :
    a.reach c s = a.reach c s' := by
  cases a with
  | missing p dst source =>
    exact reachFrom_twins p dst (fun j hj => ha j (by omega)) h
  | _ => rfl

theorem perform_twins (table : NoiseTable) (ha : ∀ i < c.count, a.Sees S known c i)
    (hclosed : S.whole.Closed s.memory) (h : s.Twins S known s') :
    (a.perform table c s).Twins S
      (fun r j => known r j ∨ a.target = .temporary r ∧ j < a.reach c s)
      (a.perform table c s') := by
  rw [perform, perform, ← reach_twins ha h]
  exact (foldl_onInstance_twins table ha hclosed h (a.reach_le c s)).2

end Action

/-! ### Instructions -/

/-- Every temporary that is read is known before or is the destination of an earlier instruction. An
instruction without a destination sets none, whatever its byte for it is. -/
def SetsBeforeReading (known : UInt8 → Prop) : List Instruction → Prop
  | [] => True
  | ins :: rest =>
    (∀ j b, ins.sources[j]? = some b → sourceKind ins.mask j = .register → b < 64 → known b) ∧
      SetsBeforeReading (fun b => known b ∨ ins.op.hasDestination = true ∧ b = ins.destination) rest

theorem setsBeforeReading_of_known {known : UInt8 → Prop} (h : ∀ b, known b)
    (body : List Instruction) : SetsBeforeReading known body := by
  induction body generalizing known with
  | nil => exact trivial
  | cons ins body ih => exact ⟨fun _ b _ _ _ => h b, ih fun b => .inl (h b)⟩

namespace Frame

variable {f : Frame} {m m' : Memory} {ins : Instruction} {act : Action}

theorem hasVariable_of_shape (h : m'.shape = m.shape) (view var : Nat) :
    hasVariable m' view var = hasVariable m view var := by
  have hview := Memory.views_of_shape h view
  unfold hasVariable
  cases hv : m.views[view]? with
  | none =>
    rw [hv, Option.map_none, Option.map_eq_none_iff] at hview
    rw [hview]
  | some v =>
    obtain ⟨v', hv', -, hvars⟩ := Memory.view_of_shape h hv
    rw [hv']
    simp only [hvars]

theorem exists_of_mem_sources {mask : UInt8} {place : Nat} {bytes : List UInt8}
    {sources : List Source} (h : f.sources? m mask place bytes = some sources) {s : Source}
    (hs : s ∈ sources) :
    ∃ j b, bytes[j]? = some b ∧ f.source? m mask (place + j) b = some s := by
  induction bytes generalizing place sources with
  | nil =>
    obtain rfl := Option.some.inj h
    cases hs
  | cons b bytes ih =>
    unfold sources? at h
    split at h
    · cases h
    · next source hsource =>
      obtain ⟨rest, hrest, rfl⟩ := Option.map_eq_some_iff.mp h
      rcases List.mem_cons.mp hs with rfl | hs
      · exact ⟨0, b, rfl, hsource⟩
      · obtain ⟨j, b', hb', hj⟩ := ih hrest hs
        exact ⟨j + 1, b', hb', by rwa [Nat.add_right_comm, Nat.add_assoc] at hj⟩

theorem target_of_resolve {a : Arguments} (h : a.frame.resolve m ins = some act)
    (hop : ins.op.hasDestination = true) (hdst : ins.destination < 64) :
    act.target = .temporary ins.destination.toNat := by
  have hslot : a.frame.slot? ins.destination = some (.temporary ins.destination.toNat) :=
    slot_of_lt hdst
  have hguarded {sources : List Source} {usable : Bool} {b : Action}
      (h : guarded (.temporary ins.destination.toNat) sources usable b = some act) :
      usable = true ∧ act = b := by
    obtain ⟨hunbound, -⟩ | ⟨-, husable, rfl⟩ := guarded_cases h
    · cases hunbound
    · exact ⟨(Bool.and_eq_true_iff.mp husable).1, rfl⟩
  unfold resolve at h
  split at h
  · next hdone => simp [hdone, Opcode.hasDestination, Opcode.layout, Layout.hasDestination] at hop
  · simp only [hslot, Option.bind_eq_bind, Option.bind_some, Option.bind_eq_some_iff] at h
    obtain ⟨sources, -, hact⟩ := h
    rw [(hguarded hact).2, Action.target]
  · simp only [resolveOnSet, hslot, Option.bind_eq_bind, Option.bind_some,
      Option.bind_eq_some_iff] at h
    obtain ⟨set, -, cond, -, hact⟩ := h
    rw [(hguarded hact).2]
    cases set <;> rfl
  · simp only [hslot, Option.bind_eq_bind, Option.bind_some, Option.bind_eq_some_iff] at h
    obtain ⟨set, -, index, -, hact⟩ := h
    cases set with
    | some view => rw [(hguarded hact).2, Action.target]
    | none => cases (hguarded hact).1
  · next hwrite => simp [hwrite, Opcode.hasDestination, Opcode.layout, Layout.hasDestination] at hop
  · simp only [resolveOnSet, hslot, Option.bind_eq_bind, Option.bind_some,
      Option.bind_eq_some_iff] at h
    obtain ⟨set, -, index, -, hact⟩ := h
    rw [(hguarded hact).2]
    cases set <;> rfl

end Frame

namespace Arguments

structure Seen (S : Sight) (c : Chunk) (a : Arguments) : Prop where
  windows : ∀ w ∈ a.windows, ∀ i < c.count, S.cells w.buffer (w.start + c.first + i)
  constants : ∀ w, a.constants = .lent w → ∀ i < w.length, S.cells w.buffer (w.start + i)
  sets : ∀ id, some id ∈ a.sets → S.views id

variable {S : Sight} {c : Chunk} {a : Arguments} {m m' : Memory} {ins : Instruction} {act : Action}

theorem Seen.resolve_twins (ha : a.Seen S c) (h : Memory.Twins S m m') (ins : Instruction) :
    a.frame.resolve m' ins = a.frame.resolve m ins := by
  have hconstants : a.frame.constants.values m' = a.frame.constants.values m :=
    Constants.values_congr fun w hw i hi => (h.cell _ _ (ha.constants w hw i hi)).symm
  exact Frame.resolve_congr rfl hconstants rfl fun view _ => Frame.hasVariable_of_shape h.shape _ _

theorem Seen.sees_of_resolve {known : Nat → Nat → Prop} (ha : a.Seen S c)
    (h : a.frame.resolve m ins = some act) (hlength : ins.sources.length = ins.op.arity)
    (hread : ∀ j b, ins.sources[j]? = some b → sourceKind ins.mask j = .register → b < 64 →
      ∀ i < c.count, known b.toNat i)
    (hrandom : ins.op = .kernel .random → S.random) {i : Nat} (hi : i < c.count) :
    act.Sees S known c i := by
  have hsource {j : Nat} {b : UInt8} {source : Source} (hb : ins.sources[j]? = some b)
      (hfound : a.frame.source? m ins.mask j b = some source) : source.Seen S known c i := by
    unfold Frame.source? at hfound
    split at hfound
    · obtain ⟨q, -, rfl⟩ := Option.map_eq_some_iff.mp hfound
      exact trivial
    · next hkind =>
      obtain ⟨slot, hslot, rfl⟩ := Option.map_eq_some_iff.mp hfound
      cases slot with
      | temporary r =>
        obtain ⟨hlt, rfl⟩ := Frame.lt_of_slot_temporary hslot
        exact hread j b hb hkind hlt i hi
      | bound w => exact ha.windows w (Frame.mem_of_slot_bound hslot).2 i hi
      | unbound => exact trivial
  have hplace {j : Nat} (hj : j < ins.op.arity) :
      ins.sources[j]? = some (ins.sources.getD j 0) := by
    rw [List.getD_eq_getElem?_getD, List.getElem?_eq_getElem (hlength ▸ hj), Option.getD_some]
  have hview {set view : Nat} (hset : a.frame.sets[set]? = some (some view)) : S.views view :=
    ha.sets view (List.mem_of_getElem? hset)
  cases Frame.denotes_of_resolve h with
  | skip => exact trivial
  | kernel hop _ hsources =>
    refine ⟨fun hk => hrandom (hk ▸ hop), ?_⟩
    intro s hs
    obtain ⟨j, b, hb, hfound⟩ := Frame.exists_of_mem_sources hsources hs
    rw [Nat.zero_add] at hfound
    exact hsource hb hfound
  | cursor hop hset _ hcond => exact ⟨hview hset, hsource (hplace (by simp [hop])) hcond⟩
  | read hop hset _ hindex => exact ⟨hview hset, hsource (hplace (by simp [hop])) hindex⟩
  | write hop hset hindex hvalue =>
    exact ⟨hview hset, hsource (hplace (by simp [hop])) hindex,
      hsource (hplace (by simp [hop])) hvalue⟩
  | valid hop hset _ hindex => exact ⟨hview hset, hsource (hplace (by simp [hop])) hindex⟩
  | missing hop _ _ hfound =>
    exact hsource (hplace (by rcases hop with hop | ⟨c, hop⟩ <;> simp [hop])) hfound

end Arguments

/-! ### Runs and calls -/

section Run

variable {S : Sight} {a : Arguments} {c : Chunk} {known : Nat → Nat → Prop}
variable {assigned : UInt8 → Prop}
variable {s s' : Store} {offset : Nat} {code : List UInt8}

theorem runFrom_twins (table : NoiseTable) (ha : a.Seen S c)
    (hassigned : ∀ b, assigned b → b < 64 → ∀ i < c.count, known b.toNat i)
    (hbefore : SetsBeforeReading assigned (Code.bodyFrom offset code))
    (hrandom : ∀ ins ∈ Code.bodyFrom offset code, ins.op = .kernel .random → S.random)
    (hclosed : S.whole.Closed s.memory) (h : s.Twins S known s') :
    (runFrom table a.frame c offset s code).2 = (runFrom table a.frame c offset s' code).2 ∧
      (runFrom table a.frame c offset s code).1.Twins S known
        (runFrom table a.frame c offset s' code).1 := by
  -- `assigned` are the temporaries that the code before has set, for every instance of the chunk.
  induction hlen : code.length using Nat.strongRecOn generalizing offset s s' code known assigned with
  | ind len ih =>
    cases hsplit : Instruction.split offset code with
    | error e =>
      rw [runFrom_of_unreadable hsplit, runFrom_of_unreadable hsplit]
      exact ⟨rfl, h⟩
    | ok p =>
      obtain ⟨ins, rest⟩ := p
      by_cases hdone : ins.op = .done
      · rw [runFrom_of_done hsplit hdone, runFrom_of_done hsplit hdone]
        exact ⟨rfl, h⟩
      · rw [Code.bodyFrom_of_split hsplit, if_neg hdone] at hbefore hrandom
        rw [runFrom_of_split hsplit hdone, runFrom_of_split hsplit hdone,
          ha.resolve_twins h.memory]
        cases hact : a.frame.resolve s.memory ins with
        | none => exact ⟨rfl, h⟩
        | some act =>
          have hshorter := Instruction.split_decreasing hsplit
          have hsees : ∀ i < c.count, act.Sees S known c i := fun i hi =>
            ha.sees_of_resolve hact (Instruction.split_sources_length hsplit)
              (fun j b hb hkind hlt => hassigned b (hbefore.1 j b hb hkind hlt) hlt)
              (hrandom ins (List.mem_cons_self ..)) hi
          have hafter := Action.perform_twins table hsees hclosed h
          dsimp only
          rw [← Action.reach_twins hsees h]
          by_cases hstops : act.reach c s < c.count
          · rw [if_pos hstops, if_pos hstops]
            exact ⟨rfl, hafter.mono fun r j => .inl⟩
          · rw [if_neg hstops, if_neg hstops]
            have hassigned' : ∀ b,
                (assigned b ∨ ins.op.hasDestination = true ∧ b = ins.destination) → b < 64 →
                ∀ i < c.count,
                  known b.toNat i ∨ act.target = .temporary b.toNat ∧ i < act.reach c s := by
              rintro b (hb | ⟨hop, rfl⟩) hlt i hi
              · exact .inl (hassigned b hb hlt i hi)
              · exact .inr ⟨Frame.target_of_resolve hact hop hlt, by omega⟩
            obtain ⟨hending, hstores⟩ := ih rest.length (by omega) hassigned' hbefore.2
              (fun ins' hins' => hrandom ins' (List.mem_cons_of_mem _ hins'))
              (hclosed.of_shape (act.perform_shape table c s)) hafter rfl
            exact ⟨hending, hstores.mono fun r j => .inl⟩

end Run

namespace Machine

/-- Two machines that differ at most in their phase, in what earlier calls left in the registers, in
temporaries that are not known, and, unless `random`, in their random numbers. -/
structure Twins (random : Prop) (known : Nat → Nat → Prop) (m m' : Machine) : Prop where
  chunkSize : m.chunkSize = m'.chunkSize
  noise : m.noise = m'.noise
  recovers : m.recovers = m'.recovers
  temporaries : ∀ r i, known r i → m.temporaries.get r i = m'.temporaries.get r i
  random : random → m.random = m'.random

structure Sees (S : Sight) (known : Nat → Nat → Prop) (code : List UInt8) (a : Arguments) :
    Prop where
  windows : ∀ w ∈ a.inputs ++ a.outputs, ∀ j : Nat, (j : Int) < a.count →
    S.cells w.buffer (w.start + j)
  constants : ∀ w, a.constants = .lent w → ∀ i < w.length, S.cells w.buffer (w.start + i)
  sets : ∀ id, some id ∈ a.sets → S.views id
  temporaries : SetsBeforeReading (fun b => ∀ i, known b.toNat i) (Code.body code)
  random : ∀ ins ∈ Code.body code, ins.op = .kernel .random → S.random

variable {S : Sight} {known : Nat → Nat → Prop} {m m' : Machine} {a : Arguments} {code : List UInt8}
variable {memory memory' : Memory}

theorem Sees.chunk (h : Sees S known code a) {c : Chunk} (hc : (c.first + c.count : Int) ≤ a.count) :
    a.Seen S c := by
  refine ⟨?_, h.constants, h.sets⟩
  intro w hw i hi
  rw [Nat.add_assoc]
  apply h.windows w hw
  omega

theorem runChunks_twins (h : Sees S known code a)
    {chunks : Nat} (hchunks : ∀ k < chunks, ((m.chunk a.count k).first +
      (m.chunk a.count k).count : Int) ≤ a.count)
    {s s' : Store} (hclosed : S.whole.Closed s.memory) (hs : s.Twins S known s') (k remaining : Nat)
    (hk : k + remaining ≤ chunks) :
    (m.runChunks a code k s remaining).2 = (m.runChunks a code k s' remaining).2 ∧
      (m.runChunks a code k s remaining).1.Twins S known (m.runChunks a code k s' remaining).1 := by
  induction remaining generalizing k s s' with
  | zero => exact ⟨rfl, hs⟩
  | succ remaining ih =>
    have hshape := runFrom_shape m.noise a.frame (m.chunk a.count k) 0 s code
    have hrun := runFrom_twins m.noise (h.chunk (hchunks k (by omega)))
      (fun b hb _ i _ => hb i) h.temporaries h.random hclosed hs
    rw [runChunks_succ, runChunks_succ]
    generalize runFrom m.noise a.frame (m.chunk a.count k) 0 s code = run at hshape hrun ⊢
    generalize runFrom m.noise a.frame (m.chunk a.count k) 0 s' code = run' at hrun ⊢
    obtain ⟨t, ending⟩ := run
    obtain ⟨t', ending'⟩ := run'
    obtain ⟨rfl, hstores⟩ := hrun
    cases ending with
    | done => exact ih (hclosed.of_shape hshape) hstores (k + 1) (by omega)
    | error e => exact ⟨rfl, hstores⟩
    | fault offset => exact ⟨rfl, hstores⟩

theorem faulted_twins (hm : m.Twins S.random known m') (hmemory : memory.Twins S memory')
    (phase : Phase) (offset : Option Nat) :
    (m.faulted memory phase offset).outcome = (m'.faulted memory' phase offset).outcome ∧
      (m.faulted memory phase offset).machine.Twins S.random known
        (m'.faulted memory' phase offset).machine ∧
      (m.faulted memory phase offset).memory.Twins S (m'.faulted memory' phase offset).memory := by
  obtain ⟨hchunk, hnoise, hrecovers, htemporaries, hrandom⟩ := hm
  by_cases hrecovered : m.recovers = true
  · rw [faulted, faulted, if_pos hrecovered, if_pos (hrecovers ▸ hrecovered)]
    exact ⟨rfl, ⟨hchunk, hnoise, hrecovers, htemporaries, hrandom⟩, hmemory⟩
  · rw [faulted, faulted, if_neg hrecovered, if_neg (hrecovers ▸ hrecovered)]
    exact ⟨rfl, ⟨hchunk, hnoise, hrecovers, htemporaries, hrandom⟩, hmemory⟩

theorem conclude_twins {t t' : Store} (hm : m.Twins S.random known m')
    (hstores : t.Twins S known t') (ending : Ending) :
    (m.conclude (t, ending)).outcome = (m'.conclude (t', ending)).outcome ∧
      (m.conclude (t, ending)).machine.Twins S.random known (m'.conclude (t', ending)).machine ∧
      (m.conclude (t, ending)).memory.Twins S (m'.conclude (t', ending)).memory := by
  obtain ⟨hchunk, hnoise, hrecovers, -, -⟩ := hm
  obtain ⟨hmemory, htemporaries, hrandom⟩ := hstores
  cases ending with
  | done => exact ⟨rfl, ⟨hchunk, hnoise, hrecovers, htemporaries, hrandom⟩, hmemory⟩
  | error e => exact ⟨rfl, ⟨hchunk, hnoise, hrecovers, htemporaries, hrandom⟩, hmemory⟩
  | fault offset =>
    have hleft : Twins S.random known
        { m with temporaries := t.temporaries, random := t.random }
        { m' with temporaries := t'.temporaries, random := t'.random } :=
      ⟨hchunk, hnoise, hrecovers, htemporaries, hrandom⟩
    exact faulted_twins hleft hmemory _ _

theorem Twins.runChunks_eq (hm : m.Twins S.random known m') (k remaining : Nat) (s : Store) :
    m'.runChunks a code k s remaining = m.runChunks a code k s remaining := by
  induction remaining generalizing k s with
  | zero => rfl
  | succ remaining ih => simp only [runChunks_succ, chunk, ← hm.chunkSize, ← hm.noise, ih]

/-- Two calls that see the same end alike and leave the same, as far as they see. -/
theorem exec_twins (h : Sees S known code a) (hchunk : 1 ≤ m.chunkSize)
    (hsize : m.chunkSize < 2 ^ 63) (hcount : a.count < 2 ^ 63) (hclosed : S.whole.Closed memory)
    (hm : m.Twins S.random known m') (hmemory : memory.Twins S memory') :
    (m.exec code a memory).outcome = (m'.exec code a memory').outcome ∧
      (m.exec code a memory).machine.Twins S.random known (m'.exec code a memory').machine ∧
      (m.exec code a memory).memory.Twins S (m'.exec code a memory').memory := by
  cases hcheck : a.check with
  | error e =>
    simp only [exec, hcheck]
    exact ⟨trivial, ⟨hm.chunkSize, hm.noise, hm.recovers, hm.temporaries, hm.random⟩, hmemory⟩
  | ok _ =>
    have hnumber : m'.chunkCount a.count = m.chunkCount a.count := by
      simp only [chunkCount, hm.chunkSize]
    have hscratch : m'.hasScratch = m.hasScratch := by
      simp only [hasScratch, scratchSize, hm.chunkSize]
    have hreleased : Twins S.random known (m.release a) (m'.release a) :=
      ⟨hm.chunkSize, hm.noise, hm.recovers, hm.temporaries, hm.random⟩
    rw [exec_eq code hcheck, exec_eq code hcheck, hnumber, hscratch]
    split
    · exact faulted_twins hreleased hmemory _ _
    · have hnonneg := (Arguments.check_eq_ok_iff.mp hcheck).1
      have hstart : (m.store memory).Twins S known (m'.store memory') :=
        ⟨hmemory, hm.temporaries, hm.random⟩
      obtain ⟨hending, hstores⟩ := runChunks_twins (m := m) h
        (fun k hk => chunk_within hnonneg hcount hchunk hsize hk) hclosed hstart 0
        (m.chunkCount a.count).toNat (Nat.zero_add _).le
      rw [hm.runChunks_eq, ← Prod.mk.eta (p := m.runChunks a code 0 (m.store memory) _),
        ← Prod.mk.eta (p := m.runChunks a code 0 (m'.store memory') _), ← hending]
      exact conclude_twins hreleased hstores _

end Machine
end Quadlane
