import Quadlane.Proofs.Footprint

/-! How a call ends does not depend on what it computes. Looking up an operand asks only whether
there is a window, a constant, a view or a variable with its number, and no action changes how many
there are. So two calls of one code over arguments of the same shape end alike, whatever the lanes
hold and whatever their machines did before. -/

namespace Quadlane

/-- How many things of each kind operands can refer to, and how long they are. -/
structure Shape where
  inputs : List Nat
  outputs : List Nat
  constants : Nat
  /-- The number of variables of each view that is there. -/
  sets : List (Option Nat)
  deriving DecidableEq

def Memory.width? (m : Memory) (view : Nat) : Option Nat :=
  m.views[view]?.map (·.vars.size)

def Frame.shape (f : Frame) (m : Memory) : Shape :=
  { inputs := f.inputs.map (·.length)
    outputs := f.outputs.map (·.length)
    constants := f.constants.length
    sets := f.sets.map (·.bind m.width?) }

theorem Frame.shape_of_shape (f : Frame) {m m' : Memory} (h : m'.shape = m.shape) :
    f.shape m' = f.shape m := by
  have hwidth : m'.width? = m.width? := by
    funext view
    have hviews := Memory.views_of_shape h view
    have houtline := congrArg (Option.map fun o => o.2.2.size) hviews
    simpa [Memory.width?, View.outline, Function.comp_def] using houtline
  rw [shape, shape, hwidth]

/-! ### Looking up operands -/

def Slot.isBound : Slot → Bool
  | .unbound => false
  | _ => true

theorem Slot.isBound_ofWindow (w : Option Window) : (ofWindow w).isBound = w.isSome := by
  cases w <;> rfl

theorem isSome_bind_alike {α α' β β' γ : Type} {x : Option α} {x' : Option α'} {p : α → γ}
    {p' : α' → γ} {g : α → Option β} {g' : α' → Option β'} (hx : x.map p = x'.map p')
    (hg : ∀ y y', p y = p' y' → (g y).isSome = (g' y').isSome) :
    (x >>= g).isSome = (x' >>= g').isSome := by
  cases x <;> cases x'
  · rfl
  · simp at hx
  · simp at hx
  · next y y' => exact hg y y' (Option.some.inj hx)

namespace Frame

theorem guarded_isSome (dst : Slot) (sources : List Source) (usable : Bool) (a : Action) :
    (guarded dst sources usable a).isSome =
      (!dst.isBound || usable && sources.all Source.isBound) := by
  unfold guarded
  cases dst <;> cases usable <;> cases sources.all Source.isBound <;> rfl

theorem hasVariable_eq (m : Memory) (view var : Nat) :
    hasVariable m view var = (m.width? view).any (var < ·) := by
  unfold hasVariable Memory.width?
  cases m.views[view]? <;> rfl

theorem readSet_isSome (m : Memory) (set : Option Nat) (var : Nat) (dst : Slot) (index : Source) :
    (readSet m set var dst index).isSome =
      (!dst.isBound || (set.bind m.width?).any (var < ·) && index.isBound) := by
  cases set with
  | none => simp [readSet, guarded_isSome]
  | some view => simp [readSet, guarded_isSome, hasVariable_eq]

variable {a a' : Arguments} {m m' : Memory}

theorem window_alike {ws ws' : List Window} (h : ws.map (·.length) = ws'.map (·.length)) (i : Nat) :
    (Slot.ofWindow ws[i]?).isBound = (Slot.ofWindow ws'[i]?).isBound := by
  have hlength : ws.length = ws'.length := by simpa using congrArg List.length h
  rw [Slot.isBound_ofWindow, Slot.isBound_ofWindow, Bool.eq_iff_iff, isSome_getElem?,
    isSome_getElem?]
  exact hlength ▸ Iff.rfl

section

variable (h : a.frame.shape m = a'.frame.shape m')
include h

theorem slot_alike (b : UInt8) :
    (a.frame.slot? b).map Slot.isBound = (a'.frame.slot? b).map Slot.isBound := by
  rw [a.frame_slot, a'.frame_slot, Arguments.slot?, Arguments.slot?]
  rcases splitRegister b with _ | ⟨group, i⟩
  · rfl
  · cases group with
    | temporary | constant => rfl
    | input => exact congrArg some (window_alike (congrArg Shape.inputs h) i)
    | output => exact congrArg some (window_alike (congrArg Shape.outputs h) i)

theorem source_alike (mask : UInt8) (place : Nat) (b : UInt8) :
    (a.frame.source? m mask place b).map Source.isBound =
      (a'.frame.source? m' mask place b).map Source.isBound := by
  unfold source?
  cases sourceKind mask place with
  | constant =>
    have hlength : (a.constants.values m).length = (a'.constants.values m').length := by
      rw [Constants.length_values, Constants.length_values]
      exact congrArg Shape.constants h
    simp only [Arguments.frame_constants]
    by_cases hlt : b.toNat < (a.constants.values m).length
    · rw [List.getElem?_eq_getElem hlt, List.getElem?_eq_getElem (hlength ▸ hlt)]
      rfl
    · rw [List.getElem?_eq_none (Nat.not_lt.mp hlt),
        List.getElem?_eq_none (hlength ▸ Nat.not_lt.mp hlt)]
  | register =>
    have hbound : Source.isBound ∘ Source.register = Slot.isBound := by
      funext s
      cases s <;> rfl
    simp only [Option.map_map, hbound]
    exact slot_alike h b

theorem sources_alike (mask : UInt8) (place : Nat) (bs : List UInt8) :
    (a.frame.sources? m mask place bs).map (·.all Source.isBound) =
      (a'.frame.sources? m' mask place bs).map (·.all Source.isBound) := by
  induction bs generalizing place with
  | nil => rfl
  | cons b bs ih =>
    have hfirst := source_alike h mask place b
    have hrest := ih (place + 1)
    unfold sources?
    cases hs : a.frame.source? m mask place b <;> cases hs' : a'.frame.source? m' mask place b <;>
      simp only [hs, hs', Option.map_none, Option.map_some, reduceCtorEq,
        Option.some.injEq] at hfirst
    · rfl
    · cases hr : a.frame.sources? m mask (place + 1) bs <;>
        cases hr' : a'.frame.sources? m' mask (place + 1) bs <;> simp_all

theorem set_alike (i : Nat) :
    a.sets[i]?.map (·.bind m.width?) = a'.sets[i]?.map (·.bind m'.width?) := by
  have hsets := congrArg (fun s => s.sets[i]?) h
  simpa [shape] using hsets

theorem view_alike (hsets : none ∉ a.sets) (hsets' : none ∉ a'.sets) (i : Nat) :
    a.sets[i]?.join.map m.width? = a'.sets[i]?.join.map m'.width? := by
  have hset := set_alike h i
  rcases hview : a.sets[i]? with _ | _ | view
  · rw [hview] at hset
    rw [Option.map_eq_none_iff.mp hset.symm]
    rfl
  · exact absurd (List.mem_of_getElem? hview) hsets
  · rcases hview' : a'.sets[i]? with _ | _ | view'
    · rw [hview, hview'] at hset
      cases hset
    · exact absurd (List.mem_of_getElem? hview') hsets'
    · simpa [hview, hview'] using hset

theorem resolveOnSet_alike (make : Nat → Slot → Source → Action)
    (p : Probe) (ins : Instruction) :
    (a.frame.resolveOnSet m make p ins).isSome = (a'.frame.resolveOnSet m' make p ins).isSome := by
  refine isSome_bind_alike (set_alike h _) fun _ _ _ => ?_
  refine isSome_bind_alike (slot_alike h _) fun dst dst' hdst => ?_
  refine isSome_bind_alike (source_alike h _ _ _) fun source source' hsource => ?_
  simp [guarded_isSome, hdst, hsource]

theorem resolve_alike (hsets : none ∉ a.sets) (hsets' : none ∉ a'.sets) (ins : Instruction) :
    (a.frame.resolve m ins).isSome = (a'.frame.resolve m' ins).isSome := by
  unfold resolve
  cases ins.op with
  | done => rfl
  | cursor c => exact resolveOnSet_alike h (.cursor c) .cursor ins
  | indexValid => exact resolveOnSet_alike h .valid .valid ins
  | kernel k =>
    refine isSome_bind_alike (slot_alike h _) fun dst dst' hdst => ?_
    refine isSome_bind_alike (sources_alike h _ _ _) fun sources sources' hsources => ?_
    simp [guarded_isSome, hdst, hsources]
  | dataRead =>
    refine isSome_bind_alike (set_alike h _) fun set set' hset => ?_
    refine isSome_bind_alike (slot_alike h _) fun dst dst' hdst => ?_
    refine isSome_bind_alike (source_alike h _ _ _) fun index index' hindex => ?_
    rw [readSet_isSome, readSet_isSome, hset, hdst, hindex]
  | dataWrite =>
    refine isSome_bind_alike (view_alike h hsets hsets' _) fun view view' hview => ?_
    refine isSome_bind_alike (source_alike h _ _ _) fun index index' hindex => ?_
    refine isSome_bind_alike (source_alike h _ _ _) fun value value' hvalue => ?_
    simp only [hasVariable_eq, hview, hindex, hvalue]
    split <;> rfl

end

end Frame

/-! ### Runs -/

theorem runFrom_alike (table table' : NoiseTable) (c c' : Chunk) {a a' : Arguments} {s s' : Store}
    (hsets : none ∉ a.sets) (hsets' : none ∉ a'.sets)
    (h : a.frame.shape s.memory = a'.frame.shape s'.memory) (offset : Nat) (code : List UInt8) :
    (runFrom table a.frame c offset s code).2 = (runFrom table' a'.frame c' offset s' code).2 := by
  induction hlen : code.length using Nat.strongRecOn generalizing offset s s' code with
  | ind len ih =>
    rcases hsplit : Instruction.split offset code with e | ⟨ins, rest⟩
    · rw [runFrom_of_unreadable hsplit, runFrom_of_unreadable hsplit]
    · by_cases hdone : ins.op = .done
      · rw [runFrom_of_done hsplit hdone, runFrom_of_done hsplit hdone]
      · have hfound := Frame.resolve_alike h hsets hsets' ins
        rcases hact : a.frame.resolve s.memory ins with _ | act <;>
          rcases hact' : a'.frame.resolve s'.memory ins with _ | act' <;>
          simp only [hact, hact', Option.isSome_none, Option.isSome_some, reduceCtorEq] at hfound
        · rw [runFrom_of_split hsplit hdone, runFrom_of_split hsplit hdone, hact, hact']
        · -- The two actions differ, but neither changes what operands can refer to.
          have hpresent := Frame.resolve_present (f := a.frame) hsets hact
          have hpresent' := Frame.resolve_present (f := a'.frame) hsets' hact'
          have hshorter := Instruction.split_decreasing hsplit
          rw [runFrom_of_resolve hsplit hdone hact (act.reach_of_present c hpresent s),
            runFrom_of_resolve hsplit hdone hact' (act'.reach_of_present c' hpresent' s')]
          refine ih rest.length (by omega) ?_ _ _ rfl
          rw [a.frame.shape_of_shape (act.perform_shape table c s),
            a'.frame.shape_of_shape (act'.perform_shape table' c' s'), h]

theorem Arguments.short_alike {count : Int} {ws ws' : List Window}
    (h : ws.map (·.length) = ws'.map (·.length)) : short? count ws = short? count ws' := by
  have hlengths (ws : List Window) : short? count ws =
      ((ws.map (·.length)).zipIdx.find? fun p => decide ((p.1 : Int) < count)).map
        fun p => (p.2, p.1) := by
    rw [List.zipIdx_map, List.find?_map, Option.map_map]
    rfl
  rw [hlengths, hlengths, h]

theorem Arguments.check_alike {a a' : Arguments} {memory memory' : Memory}
    (hcount : a.count = a'.count) (h : a.frame.shape memory = a'.frame.shape memory') :
    a.check = a'.check := by
  have hinputs : a.inputs.map (·.length) = a'.inputs.map (·.length) := congrArg Shape.inputs h
  have houtputs : a.outputs.map (·.length) = a'.outputs.map (·.length) := congrArg Shape.outputs h
  have hconstants : a.constants.length = a'.constants.length := congrArg Shape.constants h
  have hinputCount : a.inputs.length = a'.inputs.length := by
    simpa using congrArg List.length hinputs
  have houtputCount : a.outputs.length = a'.outputs.length := by
    simpa using congrArg List.length houtputs
  simp only [check, hcount, hinputCount, houtputCount, hconstants, short_alike hinputs,
    short_alike houtputs]

namespace Machine

variable {m m' : Machine} {a a' : Arguments} {memory memory' : Memory}

theorem runChunks_alike (m m' : Machine) {s s' : Store} (hsets : none ∉ a.sets)
    (hsets' : none ∉ a'.sets) (h : a.frame.shape s.memory = a'.frame.shape s'.memory) (code : List UInt8)
    (k remaining : Nat) :
    (m.runChunks a code k s remaining).2 = (m'.runChunks a' code k s' remaining).2 := by
  induction remaining generalizing k s s' with
  | zero => rfl
  | succ remaining ih =>
    -- The chunks, like the noise, may differ: nothing is looked up by them.
    have hrun := runFrom_alike m.noise m'.noise (m.chunk a.count k) (m'.chunk a'.count k)
      hsets hsets' h 0 code
    have hshape := runFrom_shape m.noise a.frame (m.chunk a.count k) 0 s code
    have hshape' := runFrom_shape m'.noise a'.frame (m'.chunk a'.count k) 0 s' code
    rw [runChunks_succ, runChunks_succ]
    generalize runFrom m.noise a.frame (m.chunk a.count k) 0 s code = run at hrun hshape ⊢
    generalize runFrom m'.noise a'.frame (m'.chunk a'.count k) 0 s' code = run' at hrun hshape' ⊢
    obtain ⟨t, ending⟩ := run
    obtain ⟨t', ending'⟩ := run'
    obtain rfl : ending = ending' := hrun
    cases ending with
    | done =>
      refine ih ?_ (k + 1)
      rw [a.frame.shape_of_shape hshape, a'.frame.shape_of_shape hshape', h]
    | error e => rfl
    | fault offset => rfl

theorem faulted_alike (hrecovers : m.recovers = m'.recovers) (phase : Phase)
    (offset : Option Nat) :
    (m.faulted memory phase offset).outcome = (m'.faulted memory' phase offset).outcome ∧
      (m.faulted memory phase offset).machine.phase =
        (m'.faulted memory' phase offset).machine.phase := by
  unfold faulted
  rw [hrecovers]
  split <;> exact ⟨rfl, rfl⟩

/-- How a call ends is decided by the sizes of its chunks and the shape of its arguments. -/
theorem exec_alike (hchunk : m.chunkSize = m'.chunkSize) (hrecovers : m.recovers = m'.recovers)
    (hsets : none ∉ a.sets) (hsets' : none ∉ a'.sets) (hcount : a.count = a'.count)
    (h : a.frame.shape memory = a'.frame.shape memory') (code : List UInt8) :
    (m.exec code a memory).outcome = (m'.exec code a' memory').outcome ∧
      (m.exec code a memory).machine.phase = (m'.exec code a' memory').machine.phase := by
  have hcheck := Arguments.check_alike hcount h
  have hchunks : m.chunkCount a.count = m'.chunkCount a'.count := by
    rw [chunkCount, chunkCount, hchunk, hcount]
  have hroom : m.hasScratch = m'.hasScratch := by
    simp only [hasScratch, scratchSize, hchunk]
  cases hok : a.check with
  | error e =>
    simp only [exec, hok, ← hcheck]
    exact ⟨trivial, trivial⟩
  | ok =>
    have hrun (n : Nat) : (m.runChunks a code 0 (m.store memory) n).2 =
        (m'.runChunks a' code 0 (m'.store memory') n).2 := runChunks_alike m m' hsets hsets' h code 0 n
    rw [exec_eq code hok, exec_eq code (hcheck ▸ hok), hchunks, hroom]
    split
    · exact faulted_alike (by exact hrecovers) .notStarted none
    · replace hrun := hrun (m'.chunkCount a'.count).toNat
      generalize m.runChunks a code 0 (m.store memory) _ = run at hrun ⊢
      generalize m'.runChunks a' code 0 (m'.store memory') _ = run' at hrun ⊢
      obtain ⟨t, ending⟩ := run
      obtain ⟨t', ending'⟩ := run'
      obtain rfl : ending = ending' := hrun
      cases ending with
      | done => exact ⟨rfl, rfl⟩
      | error e => exact ⟨rfl, rfl⟩
      | fault offset => exact faulted_alike (by exact hrecovers) .dispatching (some offset)

/-! ### Earlier calls -/

/-- A call made before, and whether the machine was to recover from its faults. -/
structure Use where
  recovers : Bool
  code : List UInt8
  arguments : Arguments
  memory : Memory

def afterUses (m : Machine) (history : List Use) : Machine :=
  history.foldl (fun m u =>
    ({ m with recovers := u.recovers }.exec u.code u.arguments u.memory).machine) m

theorem afterUses_chunkSize (m : Machine) (history : List Use) :
    (m.afterUses history).chunkSize = m.chunkSize := by
  induction history generalizing m with
  | nil => rfl
  | cons u history ih => exact (ih _).trans (exec_chunkSize _ _ _ _)

def seasoned (chunk seed : Int) (noise : NoiseTable) (history : List Use) (recovers : Bool) :
    Machine :=
  { (new chunk seed noise).afterUses history with recovers }

theorem seasoned_chunkSize (chunk seed : Int) (noise : NoiseTable) (history : List Use)
    (recovers : Bool) : (seasoned chunk seed noise history recovers).chunkSize =
      if chunk ≤ 0 then defaultChunkSize else chunk :=
  afterUses_chunkSize _ _

end Machine

def Arguments.footprint (a : Arguments) (m : Memory) : Footprint :=
  { buffers := fun b => (∃ w ∈ a.inputs ++ a.outputs, w.buffer = b) ∨
      (∃ w, a.constants = .lent w ∧ w.buffer = b) ∨
      ∃ id, some id ∈ a.sets ∧ ∃ view x, m.views[id]? = some view ∧ (x, some b) ∈ view.vars
    views := fun id => some id ∈ a.sets }

theorem Arguments.footprint_closed (a : Arguments) (m : Memory) : (a.footprint m).Closed m :=
  fun id view x _ hid hview hvar => .inr (.inr ⟨id, hid, view, x, hview, hvar⟩)

theorem Arguments.within_footprint (a : Arguments) (m : Memory) :
    a.frame.Within (a.footprint m) :=
  frame_within (fun w hw => .inl ⟨w, List.mem_append_left _ hw, rfl⟩)
    (fun w hw => .inl ⟨w, List.mem_append_right _ hw, rfl⟩)
    (fun w hw => .inr (.inl ⟨w, hw, rfl⟩)) (fun _ hid => hid)

namespace Machine

/-- How a call ends depends on the shape of its arguments only, if no set is missing. Whatever an
earlier call left in the table of registers, each register stands for what this call gives, and a
buffer that it does not give is neither read nor written. -/
theorem exec_outcome_of_shape (chunk seed seed' : Int) (noise noise' : NoiseTable)
    (history history' : List Use) (recovers : Bool) (code : List UInt8) (a a' : Arguments)
    (memory memory' : Memory) (hsets : none ∉ a.sets) (hsets' : none ∉ a'.sets)
    (hcount : a.count = a'.count) (hshape : a.frame.shape memory = a'.frame.shape memory') :
    let m := seasoned chunk seed noise history recovers
    let m' := seasoned chunk seed' noise' history' recovers
    ((m.exec code a memory).outcome = (m'.exec code a' memory').outcome ∧
      (m.exec code a memory).machine.phase = (m'.exec code a' memory').machine.phase) ∧
      ((∀ b, (m.bound a).slot? b = a.slot? b) ∧ (m.bound a).constants = a.constants ∧
        (m.bound a).sets = a.sets) ∧
      Memory.Agrees (a.footprint memory).outside memory (m.exec code a memory).memory ∧
      ∀ other, Memory.Agrees (a.footprint memory) memory other →
        (m.exec code a memory).outcome = (m.exec code a other).outcome ∧
          (m.exec code a memory).machine = (m.exec code a other).machine ∧
          Memory.Agrees (a.footprint memory) (m.exec code a memory).memory
            (m.exec code a other).memory := by
  intro m m'
  have hchunk : m.chunkSize = m'.chunkSize := by rw [seasoned_chunkSize, seasoned_chunkSize]
  have hwithin := a.within_footprint memory
  have hclosed := a.footprint_closed memory
  refine ⟨exec_alike hchunk rfl hsets hsets' hcount hshape code, ?_, ?_, ?_⟩
  · rw [m.bound_eq a]
    exact ⟨a.frame_slot, rfl, rfl⟩
  · exact exec_outside (fun _ hid => hid) hclosed code fun ins _ => hwithin.slots ins.destination
  · intro other hother
    exact exec_agrees hwithin hclosed hother code

def lookup : List UInt8 :=
  [54, 0, 0, 64, 0, 58, 0, 1, 0, 0, 128, 0]

def lookupArguments (input output : BufferId) : Arguments :=
  { inputs := [⟨input, 0, 2⟩], outputs := [⟨output, 0, 2⟩], constants := .own []
    sets := [some 0], count := 2 }

-- The view has one variable only, so that the second instruction faults.
def lookupMemory (q : Quad) (size counter : Int) (x : Option BufferId) : Memory :=
  { buffers := #[Array.replicate 2 q, Array.replicate 2 Quad.zero]
    views := #[{ name := Text.lit "events", size, counter, vars := #[(Text.lit "x", x)] }] }

def lookupUse : Use :=
  ⟨true, lookup, lookupArguments 0 1, lookupMemory (Quad.splat Lane.one) 4 4 none⟩

theorem lookup_outcome_of_shape :
    let m := seasoned 2 0 .standard [] true
    let m' := seasoned 2 7 .standard [lookupUse, lookupUse] true
    let a := lookupArguments 0 1
    let a' := lookupArguments 1 0
    let memory := lookupMemory (Quad.splat Lane.one) 2 0 (some 1)
    let memory' := lookupMemory Quad.zero 9 5 none
    a.frame.shape memory = a'.frame.shape memory' ∧
      (m.exec lookup a memory).outcome = (m'.exec lookup a' memory').outcome ∧
      (m.exec lookup a memory).machine.phase = (m'.exec lookup a' memory').machine.phase := by
  intro m m' a a' memory memory'
  have hshape : a.frame.shape memory = a'.frame.shape memory' := by
    simp only [Frame.shape, Arguments.frame_inputs, Arguments.frame_outputs,
      Arguments.frame_constants, Arguments.frame_sets]
    rfl
  exact ⟨hshape, (exec_outcome_of_shape 2 0 7 .standard .standard [] [lookupUse, lookupUse] true
    lookup a a' memory memory' (by decide) (by decide) rfl hshape).1⟩

end Machine
end Quadlane
