import Quadlane.Proofs.Calls
import Quadlane.Proofs.Shape

/-! What a call depends on and what it changes. A footprint is a choice of buffers and views. A call
that reads only from a footprint does the same on all memories that agree there, and a call that
writes only to one leaves everything outside as it was. -/

namespace Quadlane

structure Footprint where
  buffers : BufferId → Prop
  views : Nat → Prop

def Footprint.outside (F : Footprint) : Footprint :=
  { buffers := fun b => ¬ F.buffers b, views := fun v => ¬ F.views v }

def Footprint.Closed (F : Footprint) (m : Memory) : Prop :=
  ∀ v view x b, F.views v → m.views[v]? = some view → (x, some b) ∈ view.vars → F.buffers b

theorem Footprint.Closed.of_shape {F : Footprint} {m m' : Memory} (h : F.Closed m)
    (hshape : m'.shape = m.shape) : F.Closed m' := by
  intro v view x b hv hview hvar
  obtain ⟨view', hview', -, hvars⟩ := Memory.view_of_shape hshape.symm hview
  exact h v view' x b hv hview' (hvars ▸ hvar)

namespace Memory

def buffer (m : Memory) (b : BufferId) : Buffer :=
  m.buffers.getD b #[]

theorem buffer_setCell (m : Memory) (b b' : BufferId) (i : Nat) (q : Quad) :
    (m.setCell b i q).buffer b' =
      if b' = b then (m.buffer b').setIfInBounds i q else m.buffer b' := by
  simp only [buffer, setCell, Array.getD_eq_getD_getElem?, Array.getElem?_modify]
  by_cases hb : b' = b
  · rw [if_pos hb, if_pos hb.symm]
    cases m.buffers[b']? with
    | none => rfl
    | some buffer => rfl
  · rw [if_neg hb, if_neg (Ne.symm hb)]

theorem mem_vars_of_locate {m : Memory} {v : View (Option BufferId)} {var k : Nat} {i : Int}
    {b : BufferId} (h : m.locate v var i = some (b, k)) : ∃ x, (x, some b) ∈ v.vars := by
  unfold locate at h
  split at h
  · next x b' hvar =>
    split at h
    · obtain ⟨rfl, -⟩ := Prod.mk.inj (Option.some.inj h)
      exact ⟨x, Array.mem_of_getElem? hvar⟩
    · cases h
  · cases h

structure Agrees (F : Footprint) (m m' : Memory) : Prop where
  buffer : ∀ b, F.buffers b → m.buffer b = m'.buffer b
  view : ∀ v, F.views v → m.views[v]? = m'.views[v]?

namespace Agrees

variable {F : Footprint} {m m' : Memory}

theorem refl (F : Footprint) (m : Memory) : Agrees F m m :=
  ⟨fun _ _ => rfl, fun _ _ => rfl⟩

/-! ### The same change on both sides -/

theorem setCell (h : Agrees F m m') (b : BufferId) (i : Nat) (q : Quad) :
    Agrees F (m.setCell b i q) (m'.setCell b i q) := by
  refine ⟨?_, h.view⟩
  intro b' hb'
  rw [buffer_setCell, buffer_setCell, h.buffer b' hb']

theorem setView (h : Agrees F m m') (id : Nat) (v : View (Option BufferId)) :
    Agrees F (m.setView id v) (m'.setView id v) := by
  refine ⟨h.buffer, ?_⟩
  intro id' hid'
  have hsame := h.view id' hid'
  simp only [Memory.setView, Array.getElem?_setIfInBounds]
  by_cases hid : id = id'
  · have hsize : id' < m.views.size ↔ id' < m'.views.size := by
      rw [← Nat.not_le, ← Nat.not_le, ← Array.getElem?_eq_none_iff, ← Array.getElem?_eq_none_iff,
        hsame]
    rw [if_pos hid, if_pos hid, hid]
    by_cases hlt : id' < m.views.size
    · rw [if_pos hlt, if_pos (hsize.mp hlt)]
    · rw [if_neg hlt, if_neg (mt hsize.mpr hlt)]
  · rw [if_neg hid, if_neg hid]
    exact hsame

theorem locate (h : Agrees F m m') {v : View (Option BufferId)}
    (hvars : ∀ x b, (x, some b) ∈ v.vars → F.buffers b) (var : Nat) (i : Int) :
    m.locate v var i = m'.locate v var i := by
  unfold Memory.locate
  split
  · next x b hvar =>
    have hb : m.buffer b = m'.buffer b :=
      h.buffer b (hvars x b (Array.mem_of_getElem? hvar))
    have hsize : m.bufferSize b = m'.bufferSize b := congrArg Array.size hb
    rw [hsize]
  · rfl

theorem cell (h : Agrees F m m') {b : BufferId} (hb : F.buffers b) (i : Nat) :
    m.cell b i = m'.cell b i :=
  congrArg (·.getD i Quad.zero) (h.buffer b hb)

theorem readRecord (h : Agrees F m m') (hclosed : F.Closed m) {id : Nat} (hid : F.views id)
    (var : Nat) (i : Int) : m.readRecord id var i = m'.readRecord id var i := by
  unfold Memory.readRecord
  rw [← h.view id hid]
  cases hv : m.views[id]? with
  | none => rfl
  | some v =>
    have hvars : ∀ x b, (x, some b) ∈ v.vars → F.buffers b := fun x b => hclosed id v x b hid hv
    simp only [← h.locate hvars var i]
    split
    · next b k hlocate =>
      obtain ⟨x, hvar⟩ := mem_vars_of_locate hlocate
      exact h.cell (hvars x b hvar) k
    · rfl

theorem writeRecord (h : Agrees F m m') (hclosed : F.Closed m) {id : Nat} (hid : F.views id)
    (var : Nat) (i : Int) (q : Quad) :
    Agrees F (m.writeRecord id var i q) (m'.writeRecord id var i q) := by
  unfold Memory.writeRecord
  rw [← h.view id hid]
  cases hv : m.views[id]? with
  | none => exact h
  | some v =>
    simp only [← h.locate (fun x b => hclosed id v x b hid hv) var i]
    split
    · exact h.setCell _ _ _
    · exact h.setView _ _

theorem moveCursor (h : Agrees F m m') {id : Nat} (hid : F.views id) (c : Cursor) :
    (m.moveCursor id c).1 = (m'.moveCursor id c).1 ∧
      Agrees F (m.moveCursor id c).2 (m'.moveCursor id c).2 := by
  unfold Memory.moveCursor
  rw [← h.view id hid]
  cases m.views[id]? with
  | none => exact ⟨rfl, h⟩
  | some v => exact ⟨rfl, h.setView id _⟩

theorem isValidIndex (h : Agrees F m m') {id : Nat} (hid : F.views id) (i : Int) :
    m.isValidIndex id i = m'.isValidIndex id i := by
  unfold Memory.isValidIndex
  rw [h.view id hid]

theorem hasVariable (h : Agrees F m m') {id : Nat} (hid : F.views id) (var : Nat) :
    Frame.hasVariable m id var = Frame.hasVariable m' id var := by
  unfold Frame.hasVariable
  rw [h.view id hid]

/-! ### A change inside the footprint, seen from outside -/

variable {W : Footprint}

theorem outside_setCell (h : Agrees W.outside m m') {b : BufferId} (hb : W.buffers b) (i : Nat)
    (q : Quad) : Agrees W.outside m (m'.setCell b i q) := by
  refine ⟨?_, h.view⟩
  intro b' hb'
  have hne : b' ≠ b := fun heq => hb' (heq ▸ hb)
  rw [buffer_setCell, if_neg hne]
  exact h.buffer b' hb'

theorem outside_setView (h : Agrees W.outside m m') {id : Nat} (hid : W.views id)
    (v : View (Option BufferId)) : Agrees W.outside m (m'.setView id v) := by
  refine ⟨h.buffer, ?_⟩
  intro id' hid'
  have hne : id ≠ id' := fun heq => hid' (heq ▸ hid)
  rw [Memory.setView, Array.getElem?_setIfInBounds_ne hne]
  exact h.view id' hid'

theorem outside_writeRecord (h : Agrees W.outside m m') (hclosed : W.Closed m') {id : Nat}
    (hid : W.views id) (var : Nat) (i : Int) (q : Quad) :
    Agrees W.outside m (m'.writeRecord id var i q) := by
  unfold Memory.writeRecord
  split
  · exact h
  · next v hv =>
    split
    · next b k hlocate =>
      obtain ⟨x, hvar⟩ := mem_vars_of_locate hlocate
      exact h.outside_setCell (hclosed id v x b hid hv hvar) _ _
    · exact h.outside_setView hid _

theorem outside_moveCursor (h : Agrees W.outside m m') {id : Nat} (hid : W.views id) (c : Cursor) :
    Agrees W.outside m (m'.moveCursor id c).2 := by
  unfold Memory.moveCursor
  split
  · exact h
  · exact h.outside_setView hid _

end Agrees
end Memory

/-! ### Actions -/

def Slot.Within (F : Footprint) : Slot → Prop
  | .bound w => F.buffers w.buffer
  | .temporary _ | .unbound => True

def Source.Within (F : Footprint) : Source → Prop
  | .register s => s.Within F
  | .constant _ => True

namespace Action

def ReadsWithin (F : Footprint) : Action → Prop
  | skip => True
  | kernel _ _ sources => ∀ s ∈ sources, s.Within F
  | cursor _ view _ cond => F.views view ∧ cond.Within F
  | read view _ _ index => F.views view ∧ index.Within F
  | write view _ index value => F.views view ∧ index.Within F ∧ value.Within F
  | valid view _ index => F.views view ∧ index.Within F
  | missing _ _ source => source.Within F

/-- What an action sets is in the footprint: its destination, its cursor, its records. -/
def WritesWithin (W : Footprint) : Action → Prop
  | skip => True
  | kernel _ dst _ => dst.Within W
  | cursor _ view dst _ => W.views view ∧ dst.Within W
  | read _ _ dst _ => dst.Within W
  | write view _ _ _ => W.views view
  | valid _ dst _ => dst.Within W
  | missing _ dst _ => dst.Within W

end Action

namespace Store

structure Agrees (F : Footprint) (s s' : Store) : Prop where
  memory : Memory.Agrees F s.memory s'.memory
  temporaries : s.temporaries = s'.temporaries
  random : s.random = s'.random

variable {F : Footprint} {s s' : Store}

theorem Agrees.value (h : s.Agrees F s') (c : Chunk) (i : Nat) {source : Source}
    (hsource : source.Within F) : s.value c i source = s'.value c i source := by
  match source with
  | .constant q => rfl
  | .register (.temporary r) => exact congrArg (·.get r i) h.temporaries
  | .register (.bound w) => exact h.memory.cell hsource _
  | .register .unbound => rfl

theorem Agrees.assign (h : s.Agrees F s') (c : Chunk) (i : Nat) (dst : Slot) (q : Quad) :
    (s.assign c i dst q).Agrees F (s'.assign c i dst q) := by
  cases dst with
  | temporary r => exact ⟨h.memory, congrArg (·.set r i q) h.temporaries, h.random⟩
  | bound w => exact ⟨h.memory.setCell _ _ _, h.temporaries, h.random⟩
  | unbound => exact h

theorem assign_outside {W : Footprint} {m : Memory} (h : Memory.Agrees W.outside m s.memory)
    (c : Chunk) (i : Nat) {dst : Slot} (hdst : dst.Within W) (q : Quad) :
    Memory.Agrees W.outside m (s.assign c i dst q).memory := by
  cases dst with
  | temporary r => exact h
  | bound w => exact h.outside_setCell hdst _ _
  | unbound => exact h

end Store

namespace Action

variable {F W : Footprint} {s s' : Store} {a : Action}

theorem onInstance_agrees (table : NoiseTable) (c : Chunk) (ha : a.ReadsWithin F)
    (hclosed : F.Closed s.memory) (h : s.Agrees F s') (i : Nat) :
    (a.onInstance table c s i).Agrees F (a.onInstance table c s' i) := by
  cases a with
  | skip => exact h
  | kernel k dst sources =>
    have hvalues : sources.map (s.value c i) = sources.map (s'.value c i) :=
      List.map_congr_left fun source hsource => h.value c i (ha source hsource)
    simp only [onInstance, hvalues, h.random]
    apply Store.Agrees.assign
    exact ⟨h.memory, h.temporaries, rfl⟩
  | cursor move view dst cond =>
    obtain ⟨hview, hcond⟩ := ha
    obtain ⟨hindex, hmemory⟩ := h.memory.moveCursor hview move
    simp only [onInstance, h.value c i hcond, hindex]
    split
    · apply Store.Agrees.assign
      exact ⟨hmemory, h.temporaries, h.random⟩
    · exact h.assign _ _ _ _
  | read view var dst index =>
    obtain ⟨hview, hindex⟩ := ha
    simp only [onInstance, h.value c i hindex, h.memory.readRecord hclosed hview]
    exact h.assign _ _ _ _
  | write view var index value =>
    obtain ⟨hview, hindex, hvalue⟩ := ha
    simp only [onInstance, h.value c i hindex, h.value c i hvalue]
    exact ⟨h.memory.writeRecord hclosed hview _ _ _, h.temporaries, h.random⟩
  | valid view dst index =>
    obtain ⟨hview, hindex⟩ := ha
    simp only [onInstance, h.value c i hindex, h.memory.isValidIndex hview]
    exact h.assign _ _ _ _
  | missing p dst source => exact h.assign _ _ _ _

theorem reachFrom_agrees (c : Chunk) (p : Probe) (dst : Slot) {source : Source}
    (hsource : source.Within F) (h : s.Agrees F s') (i n : Nat) :
    reachFrom c p dst source i s n = reachFrom c p dst source i s' n := by
  induction n generalizing i s s' with
  | zero => rfl
  | succ n ih => rw [reachFrom, reachFrom, h.value c i hsource, ih (h.assign c i dst _)]

theorem reach_agrees (c : Chunk) (ha : a.ReadsWithin F) (h : s.Agrees F s') :
    a.reach c s = a.reach c s' := by
  cases a with
  | missing p dst source => exact reachFrom_agrees c p dst ha h 0 c.count
  | _ => rfl

theorem perform_agrees (table : NoiseTable) (c : Chunk) (ha : a.ReadsWithin F)
    (hclosed : F.Closed s.memory) (h : s.Agrees F s') :
    (a.perform table c s).Agrees F (a.perform table c s') := by
  unfold perform
  rw [← reach_agrees c ha h]
  generalize List.range (a.reach c s) = instances
  induction instances generalizing s s' with
  | nil => exact h
  | cons i instances ih =>
    have hshape := a.onInstance_shape table c s i
    exact ih (hclosed.of_shape hshape) (onInstance_agrees table c ha hclosed h i)

theorem onInstance_outside (table : NoiseTable) (c : Chunk) {m : Memory} (ha : a.WritesWithin W)
    (hclosed : W.Closed s.memory) (h : Memory.Agrees W.outside m s.memory) (i : Nat) :
    Memory.Agrees W.outside m (a.onInstance table c s i).memory := by
  cases a with
  | skip => exact h
  | kernel k dst sources =>
    let random := (k.apply table (sources.map (s.value c i)) s.random).2
    exact Store.assign_outside (s := { s with random }) h c i ha _
  | cursor move view dst cond =>
    obtain ⟨hview, hdst⟩ := ha
    simp only [onInstance]
    split
    · exact Store.assign_outside (h.outside_moveCursor hview move) c i hdst _
    · exact Store.assign_outside h c i hdst _
  | read view var dst index => exact Store.assign_outside h c i ha _
  | write view var index value => exact h.outside_writeRecord hclosed ha _ _ _
  | valid view dst index => exact Store.assign_outside h c i ha _
  | missing p dst source => exact Store.assign_outside h c i ha _

theorem perform_outside (table : NoiseTable) (c : Chunk) {m : Memory} (ha : a.WritesWithin W)
    (hclosed : W.Closed s.memory) (h : Memory.Agrees W.outside m s.memory) :
    Memory.Agrees W.outside m (a.perform table c s).memory := by
  have hkept := a.perform_invariant table c
    (P := fun t => W.Closed t.memory ∧ Memory.Agrees W.outside m t.memory)
    (fun t i _ ht => ⟨ht.1.of_shape (a.onInstance_shape table c t i),
      onInstance_outside table c ha ht.1 ht.2 i⟩) ⟨hclosed, h⟩
  exact hkept.2

end Action

/-! ### Frames -/

namespace Frame

structure Within (F : Footprint) (f : Frame) : Prop where
  slots : ∀ b slot, f.slot? b = some slot → slot.Within F
  constants : ∀ w, f.constants = .lent w → F.buffers w.buffer
  sets : ∀ id, some id ∈ f.sets → F.views id

variable {F W : Footprint} {f : Frame} {m m' : Memory} {ins : Instruction} {act : Action}

theorem source_within (hf : f.Within F) {mask : UInt8} {place : Nat} {b : UInt8} {source : Source}
    (h : f.source? m mask place b = some source) : source.Within F := by
  unfold source? at h
  split at h
  · obtain ⟨q, -, rfl⟩ := Option.map_eq_some_iff.mp h
    exact trivial
  · obtain ⟨slot, hslot, rfl⟩ := Option.map_eq_some_iff.mp h
    exact hf.slots b slot hslot

theorem sources_within (hf : f.Within F) {mask : UInt8} {place : Nat} {bytes : List UInt8}
    {sources : List Source} (h : f.sources? m mask place bytes = some sources) :
    ∀ s ∈ sources, s.Within F := by
  induction bytes generalizing place sources with
  | nil =>
    obtain rfl := Option.some.inj h
    exact fun s hs => absurd hs List.not_mem_nil
  | cons b bytes ih =>
    unfold sources? at h
    split at h
    · cases h
    · next source hsource =>
      obtain ⟨rest, hrest, rfl⟩ := Option.map_eq_some_iff.mp h
      intro s hs
      rcases List.mem_cons.mp hs with rfl | hs
      · exact source_within hf hsource
      · exact ih hrest s hs

theorem readsWithin_of_resolve (hf : f.Within F) (h : f.resolve m ins = some act) :
    act.ReadsWithin F := by
  cases denotes_of_resolve h with
  | skip => exact trivial
  | kernel _ _ hsources => exact sources_within hf hsources
  | cursor _ hview _ hcond =>
    exact ⟨hf.sets _ (List.mem_of_getElem? hview), source_within hf hcond⟩
  | read _ hview _ hindex =>
    exact ⟨hf.sets _ (List.mem_of_getElem? hview), source_within hf hindex⟩
  | write _ hview hindex hvalue =>
    exact ⟨hf.sets _ (List.mem_of_getElem? hview), source_within hf hindex,
      source_within hf hvalue⟩
  | valid _ hview _ hindex =>
    exact ⟨hf.sets _ (List.mem_of_getElem? hview), source_within hf hindex⟩
  | missing _ _ _ hsource => exact source_within hf hsource

theorem writesWithin_of_resolve (hsets : ∀ id, some id ∈ f.sets → W.views id)
    (hdst : ∀ slot, f.slot? ins.destination = some slot → slot.Within W)
    (h : f.resolve m ins = some act) : act.WritesWithin W := by
  cases denotes_of_resolve h with
  | skip => exact trivial
  | kernel _ hslot _ => exact hdst _ hslot
  | cursor _ hview hslot _ => exact ⟨hsets _ (List.mem_of_getElem? hview), hdst _ hslot⟩
  | read _ _ hslot _ => exact hdst _ hslot
  | write _ hview _ _ => exact hsets _ (List.mem_of_getElem? hview)
  | valid _ _ hslot _ => exact hdst _ hslot
  | missing _ _ hslot _ => exact hdst _ hslot

theorem resolve_agrees (hf : f.Within F) (h : Memory.Agrees F m m') (ins : Instruction) :
    f.resolve m ins = f.resolve m' ins := by
  have hconstants : f.constants.values m = f.constants.values m' :=
    Constants.values_congr fun w hw _ _ => h.cell (hf.constants w hw) _
  exact resolve_congr rfl hconstants rfl fun view hview =>
    h.hasVariable (hf.sets view (List.mem_of_getElem? hview)) _

end Frame

theorem Arguments.frame_within {F : Footprint} {a : Arguments}
    (hinputs : ∀ w ∈ a.inputs, F.buffers w.buffer) (houtputs : ∀ w ∈ a.outputs, F.buffers w.buffer)
    (hconstants : ∀ w, a.constants = .lent w → F.buffers w.buffer)
    (hsets : ∀ id, some id ∈ a.sets → F.views id) : a.frame.Within F := by
  refine ⟨?_, hconstants, hsets⟩
  have hbound : ∀ (ws : List Window) (i : Nat), (∀ w ∈ ws, F.buffers w.buffer) →
      (Slot.ofWindow ws[i]?).Within F := by
    intro ws i hws
    cases hw : ws[i]? with
    | none => exact trivial
    | some w => exact hws w (List.mem_of_getElem? hw)
  intro b slot h
  rw [a.frame_slot, slot?] at h
  split at h
  · cases h
  · next i _ => exact Option.some.inj h ▸ hbound a.inputs i hinputs
  · next i _ => exact Option.some.inj h ▸ hbound a.outputs i houtputs
  · exact Option.some.inj h ▸ trivial

/-! ### Runs and calls -/

section Run

variable {F : Footprint} {f : Frame}

theorem runFrom_agrees (table : NoiseTable) (c : Chunk) (hf : f.Within F) {s s' : Store}
    (hclosed : F.Closed s.memory) (h : s.Agrees F s') (offset : Nat) (code : List UInt8) :
    (runFrom table f c offset s code).2 = (runFrom table f c offset s' code).2 ∧
      (runFrom table f c offset s code).1.Agrees F (runFrom table f c offset s' code).1 := by
  induction hlen : code.length using Nat.strongRecOn generalizing offset s s' code with
  | ind len ih =>
    cases hsplit : Instruction.split offset code with
    | error e =>
      rw [runFrom_of_unreadable hsplit, runFrom_of_unreadable hsplit]
      exact ⟨rfl, h⟩
    | ok p =>
      obtain ⟨ins, rest⟩ := p
      by_cases hdone : ins.op = .done
      · rw [runFrom_of_done hsplit hdone, runFrom_of_done hsplit hdone]
        exact ⟨rfl, h⟩
      · rw [runFrom_of_split hsplit hdone, runFrom_of_split hsplit hdone,
          ← Frame.resolve_agrees hf h.memory]
        cases hact : f.resolve s.memory ins with
        | none => exact ⟨rfl, h⟩
        | some act =>
          have hshorter := Instruction.split_decreasing hsplit
          have hreads := Frame.readsWithin_of_resolve hf hact
          have hperform := Action.perform_agrees table c hreads hclosed h
          dsimp only
          rw [← Action.reach_agrees c hreads h]
          split
          · exact ⟨rfl, hperform⟩
          · exact ih rest.length (by omega) (hclosed.of_shape (act.perform_shape table c s))
              hperform _ _ rfl

end Run

namespace Machine

variable {F W : Footprint} {m : Machine} {a : Arguments} {memory memory' : Memory}

theorem runChunks_agrees (hf : a.frame.Within F) {s s' : Store} (hclosed : F.Closed s.memory)
    (h : s.Agrees F s') (code : List UInt8) (k remaining : Nat) :
    (m.runChunks a code k s remaining).2 = (m.runChunks a code k s' remaining).2 ∧
      (m.runChunks a code k s remaining).1.Agrees F (m.runChunks a code k s' remaining).1 := by
  induction remaining generalizing k s s' with
  | zero => exact ⟨rfl, h⟩
  | succ remaining ih =>
    have hshape := runFrom_shape m.noise a.frame (m.chunk a.count k) 0 s code
    have hrun := runFrom_agrees m.noise (m.chunk a.count k) hf hclosed h 0 code
    rw [runChunks_succ, runChunks_succ]
    generalize runFrom m.noise a.frame (m.chunk a.count k) 0 s code = run at hshape hrun ⊢
    generalize runFrom m.noise a.frame (m.chunk a.count k) 0 s' code = run' at hrun ⊢
    obtain ⟨t, ending⟩ := run
    obtain ⟨t', ending'⟩ := run'
    obtain ⟨rfl, hstores⟩ := hrun
    cases ending with
    | done => exact ih (hclosed.of_shape hshape) hstores (k + 1)
    | error e => exact ⟨rfl, hstores⟩
    | fault offset => exact ⟨rfl, hstores⟩

/-- A call does the same on memories that agree on all its operands can refer to. -/
theorem exec_agrees (hf : a.frame.Within F) (hclosed : F.Closed memory)
    (h : Memory.Agrees F memory memory') (code : List UInt8) :
    (m.exec code a memory).outcome = (m.exec code a memory').outcome ∧
      (m.exec code a memory).machine = (m.exec code a memory').machine ∧
      Memory.Agrees F (m.exec code a memory).memory (m.exec code a memory').memory := by
  have hfaulted : ∀ (m : Machine) (phase : Phase) (offset : Option Nat) (mem mem' : Memory),
      Memory.Agrees F mem mem' →
      (m.faulted mem phase offset).outcome = (m.faulted mem' phase offset).outcome ∧
        (m.faulted mem phase offset).machine = (m.faulted mem' phase offset).machine ∧
        Memory.Agrees F (m.faulted mem phase offset).memory
          (m.faulted mem' phase offset).memory := by
    intro m phase offset mem mem' hmem
    unfold faulted
    split <;> exact ⟨rfl, rfl, hmem⟩
  cases hcheck : a.check with
  | error e =>
    simp only [exec, hcheck]
    exact ⟨trivial, trivial, h⟩
  | ok _ =>
    rw [exec_eq code hcheck, exec_eq code hcheck]
    split
    · exact hfaulted _ _ _ _ _ h
    · have hstores : (m.store memory).Agrees F (m.store memory') := ⟨h, rfl, rfl⟩
      have hrun := runChunks_agrees (m := m) hf hclosed hstores code 0 (m.chunkCount a.count).toNat
      generalize m.runChunks a code 0 (m.store memory) (m.chunkCount a.count).toNat = run at hrun ⊢
      generalize m.runChunks a code 0 (m.store memory') (m.chunkCount a.count).toNat = run'
        at hrun ⊢
      obtain ⟨t, ending⟩ := run
      obtain ⟨t', ending'⟩ := run'
      obtain ⟨rfl, hmemory, htemporaries, hrandom⟩ := hrun
      dsimp only at htemporaries hrandom hmemory
      cases ending with
      | done =>
        simp only [conclude, htemporaries, hrandom]
        exact ⟨trivial, trivial, hmemory⟩
      | error e =>
        simp only [conclude, htemporaries, hrandom]
        exact ⟨trivial, trivial, hmemory⟩
      | fault offset =>
        simp only [conclude, htemporaries, hrandom]
        exact hfaulted _ _ _ _ _ hmemory

theorem exec_outside (hsets : ∀ id, some id ∈ a.sets → W.views id) (hclosed : W.Closed memory)
    (code : List UInt8)
    (hdst : ∀ ins ∈ Code.body code, ∀ slot, a.frame.slot? ins.destination = some slot →
      slot.Within W) :
    Memory.Agrees W.outside memory (m.exec code a memory).memory := by
  have hkept := exec_invariant (m := m) (a := a) code
    (P := fun mem => W.Closed mem ∧ Memory.Agrees W.outside memory mem)
    (fun c ins hins act s hact hs => by
      have hwrites := Frame.writesWithin_of_resolve hsets (hdst ins hins) hact
      exact ⟨hs.1.of_shape (act.perform_shape m.noise c s),
        Action.perform_outside m.noise c hwrites hs.1 hs.2⟩)
    ⟨hclosed, Memory.Agrees.refl _ _⟩
  exact hkept.2

end Machine
end Quadlane
