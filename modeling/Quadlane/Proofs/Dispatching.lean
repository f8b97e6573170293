import Quadlane.Proofs.Calls
import Quadlane.Proofs.Decoding

/-! The executor takes a code apart while it runs it, and tools take it apart with `Instruction.read`.
Both go the same way. A run is given here with a log of what it dispatched; the log of every chunk is
the walk that reading makes from the start of the code, and the run ends as the walk does. -/

namespace Quadlane

/-! ### Reading from instruction to instruction -/

structure Code.Walk where
  /-- The instructions before the terminator, with their offsets. -/
  items : List (Nat × Instruction)
  /-- Why the terminator was not reached. -/
  stop : Option ReadError

def Code.walkFrom (code : List UInt8) (offset : Nat) : Walk :=
  match _h : Instruction.read code offset with
  | .error e => ⟨[], some e⟩
  | .ok (ins, next) =>
    if ins.op = .done then ⟨[], none⟩
    else
      let rest := walkFrom code next
      ⟨(offset, ins) :: rest.items, rest.stop⟩
termination_by code.length - offset
decreasing_by
  have := Instruction.read_bounds _h
  omega

def Code.walk (code : List UInt8) : Walk :=
  walkFrom code 0

def ReadError.offset : ReadError → Nat
  | pastEnd offset | unknownOpcode _ offset | missingOperands _ offset => offset

def RunError.offset : RunError → Nat
  | missingDone offset | unknownOpcode _ offset | missingOperands _ offset => offset

section Walk

variable {code rest : List UInt8} {offset : Nat} {ins : Instruction}

theorem Code.walkFrom_of_unreadable {e : ReadError}
    (h : Instruction.split offset (code.drop offset) = .error e) :
    walkFrom code offset = ⟨[], some e⟩ := by
  have hread : Instruction.read code offset = .error e := by rw [Instruction.read, h]
  rw [walkFrom]
  split
  · next e' he' => rw [Except.error.inj (hread.symm.trans he')]
  · next hok => simp [hread] at hok

theorem Code.walkFrom_of_split
    (h : Instruction.split offset (code.drop offset) = .ok (ins, rest)) :
    walkFrom code offset =
      if ins.op = .done then ⟨[], none⟩
      else ⟨(offset, ins) :: (walkFrom code (offset + ins.size)).items,
        (walkFrom code (offset + ins.size)).stop⟩ := by
  have hread : Instruction.read code offset = .ok (ins, offset + ins.size) := by
    rw [Instruction.read, h]
  rw [walkFrom]
  split
  · next herror => simp [hread] at herror
  · next ins' next' hok =>
    rw [hread] at hok
    obtain ⟨rfl, rfl⟩ := Prod.mk.inj (Except.ok.inj hok)
    rfl

theorem ReadError.inRun_offset (e : ReadError) : e.inRun.offset = e.offset := by
  cases e <;> rfl

theorem ReadError.inRun_report {e : ReadError} (h : ∀ offset, e ≠ .pastEnd offset) :
    e.inRun.report = e.report := by
  cases e with
  | pastEnd offset => exact absurd rfl (h offset)
  | unknownOpcode byte offset => rfl
  | missingOperands op offset => rfl

theorem ReadError.inRun_categories (e : ReadError) :
    e.inRun.report.categories = e.report.categories := by
  cases e <;> rfl

theorem ReadError.malformed (e : ReadError) : .malformedProgram ∈ e.report.categories := by
  cases e <;>
    simp [ReadError.report, Report.ofCategory, Category.withWider]

end Walk

/-! ### Runs with a log -/

structure Dispatch where
  offset : Nat
  op : Opcode
  /-- The bytes that were taken off the code after the opcode. -/
  operands : List UInt8
  action : Action

def Dispatch.item (d : Dispatch) : Nat × Instruction :=
  (d.offset, Instruction.ofOperands d.op d.operands)

/-- All operand bytes were taken and no more, and the action is that of the instruction. -/
def Dispatch.Exact (f : Frame) (d : Dispatch) : Prop :=
  d.operands.length = d.op.width ∧
    ∃ memory, f.resolve memory (Instruction.ofOperands d.op d.operands) = some d.action

/-- `runFrom` with a log. What a fetch took off the code is what is missing afterwards. -/
def loggedFrom (table : NoiseTable) (f : Frame) (c : Chunk) (offset : Nat) (s : Store)
    (code : List UInt8) : List Dispatch × Store × Ending :=
  match code with
  | [] => ([], s, .error (.missingDone offset))
  | byte :: rest =>
    match Opcode.ofByte? byte with
    | none => ([], s, .error (.unknownOpcode byte offset))
    | some .done => ([], s, .done)
    | some op =>
      if (rest.take op.width).length < op.width then ([], s, .error (.missingOperands op offset))
      else match _h : f.fetch s.memory op rest with
        | (none, _) => ([], s, .fault offset)
        | (some a, next) =>
          let d : Dispatch := ⟨offset, op, rest.take (rest.length - next.length), a⟩
          if a.reach c s < c.count then ([d], a.perform table c s, .fault offset)
          else
            let later := loggedFrom table f c (offset + 1 + op.width) (a.perform table c s) next
            (d :: later.1, later.2)
termination_by code.length
decreasing_by
  have := f.fetch_rest s.memory op rest
  simp only [_h] at this
  simp only [this, List.length_drop, List.length_cons]
  omega

section Logged

variable {table : NoiseTable} {f : Frame} {c : Chunk} {offset : Nat} {s : Store}
variable {code rest : List UInt8} {ins : Instruction}

theorem loggedFrom_run (table : NoiseTable) (f : Frame) (c : Chunk) (offset : Nat) (s : Store)
    (code : List UInt8) :
    (loggedFrom table f c offset s code).2 = runFrom table f c offset s code := by
  fun_induction loggedFrom table f c offset s code with
  | case1 offset s => rw [runFrom_nil]
  | case2 offset s byte rest hop => rw [runFrom_cons_unknown hop]
  | case3 offset s byte rest hop => rw [runFrom_cons_done hop]
  | case4 offset s byte rest op hdone hop hshort =>
    rw [runFrom_cons hop hdone, if_pos hshort]
  | case5 offset s byte rest op hdone hop hlong next hfetch =>
    rw [runFrom_cons hop hdone, if_neg hlong, hfetch]
  | case6 offset s byte rest op hdone hop hlong a next hfetch d hstops =>
    rw [runFrom_cons hop hdone, if_neg hlong, hfetch]
    exact (if_pos hstops).symm
  | case7 offset s byte rest op hdone hop hlong a next hfetch d hwhole later ih =>
    rw [runFrom_cons hop hdone, if_neg hlong, hfetch]
    exact ih.trans (if_neg hwhole).symm

theorem fetched {byte : UInt8} {op : Opcode} {m : Memory} {a : Action} {next : List UInt8}
    (hop : Opcode.ofByte? byte = some op) (hlong : ¬(rest.take op.width).length < op.width)
    (hfetch : f.fetch m op rest = (some a, next)) :
    Instruction.split offset (byte :: rest) =
        .ok (Instruction.ofOperands op (rest.take op.width), rest.drop op.width) ∧
      next = rest.drop op.width ∧
      Dispatch.item ⟨offset, op, rest.take (rest.length - next.length), a⟩ =
        (offset, Instruction.ofOperands op (rest.take op.width)) ∧
      Dispatch.Exact f ⟨offset, op, rest.take (rest.length - next.length), a⟩ := by
  have hwidth : op.width ≤ rest.length := by
    rw [List.length_take] at hlong
    omega
  rw [f.fetch_eq_resolve m hwidth, Prod.mk.injEq] at hfetch
  obtain ⟨haction, rfl⟩ := hfetch
  have htaken : rest.length - (rest.drop op.width).length = op.width := by
    rw [List.length_drop]
    omega
  rw [htaken]
  refine ⟨by simp only [Instruction.split, hop, hlong, if_false], rfl, rfl, ?_, m, haction⟩
  show (rest.take op.width).length = op.width
  rw [List.length_take]
  omega

def Code.Walk.ending (w : Code.Walk) : Ending :=
  match w.stop with
  | none => .done
  | some e => .error e.inRun

theorem Code.Walk.ending_eq_done_iff {w : Code.Walk} : w.ending = .done ↔ w.stop = none := by
  unfold ending
  split <;> simp_all

/-- A log is as much of a walk as was carried out. Without a fault that is all of it, and the run ends
with the walk. -/
structure Code.Walk.Logs (w : Code.Walk) (f : Frame) (log : List Dispatch) (ending : Ending) :
    Prop where
  leads : log.map Dispatch.item <+: w.items
  exact : ∀ d ∈ log, d.Exact f
  whole : (∀ at_, ending ≠ .fault at_) → log.map Dispatch.item = w.items ∧ ending = w.ending

namespace Code.Walk.Logs

variable {w : Code.Walk} {whole : List UInt8} {log : List Dispatch} {ending : Ending} {d : Dispatch}

theorem fault (w : Code.Walk) (f : Frame) (offset : Nat) : w.Logs f [] (.fault offset) :=
  ⟨List.nil_prefix, by simp, fun hfault => absurd rfl (hfault offset)⟩

theorem unreadable {e : ReadError}
    (h : Instruction.split offset (whole.drop offset) = .error e) :
    (walkFrom whole offset).Logs f [] (.error e.inRun) := by
  rw [walkFrom_of_unreadable h]
  exact ⟨List.nil_prefix, by simp, fun _ => ⟨rfl, rfl⟩⟩

theorem terminated (h : Instruction.split offset (whole.drop offset) = .ok (ins, rest))
    (hdone : ins.op = .done) : (walkFrom whole offset).Logs f [] .done := by
  rw [walkFrom_of_split h, if_pos hdone]
  exact ⟨List.nil_prefix, by simp, fun _ => ⟨rfl, rfl⟩⟩

theorem cons (h : Instruction.split offset (whole.drop offset) = .ok (ins, rest))
    (hdone : ins.op ≠ .done) (hitem : d.item = (offset, ins)) (hexact : d.Exact f)
    (hlater : (walkFrom whole (offset + ins.size)).Logs f log ending) :
    (walkFrom whole offset).Logs f (d :: log) ending := by
  rw [walkFrom_of_split h, if_neg hdone]
  refine ⟨?_, List.forall_mem_cons.mpr ⟨hexact, hlater.exact⟩, ?_⟩
  · rw [List.map_cons, hitem]
    exact (List.prefix_cons_inj _).mpr hlater.leads
  · intro hfault
    obtain ⟨hitems, hending⟩ := hlater.whole hfault
    exact ⟨by rw [List.map_cons, hitem, hitems], hending⟩

end Code.Walk.Logs

theorem loggedFrom_walk (table : NoiseTable) (f : Frame) (c : Chunk) (whole : List UInt8)
    (offset : Nat) (s : Store) (code : List UInt8) (hcode : code = whole.drop offset) :
    (Code.walkFrom whole offset).Logs f (loggedFrom table f c offset s code).1
      (loggedFrom table f c offset s code).2.2 := by
  fun_induction loggedFrom table f c offset s code with
  | case1 offset s =>
    refine .unreadable (e := .pastEnd offset) ?_
    rw [← hcode, Instruction.split]
  | case2 offset s byte rest hop =>
    refine .unreadable (e := .unknownOpcode byte offset) ?_
    simp only [← hcode, Instruction.split, hop]
  | case3 offset s byte rest hop =>
    have hsplit : Instruction.split offset (whole.drop offset) = .ok ({ op := .done }, rest) := by
      simp only [← hcode, Instruction.split, hop]
      rfl
    exact .terminated hsplit rfl
  | case4 offset s byte rest op hdone hop hshort =>
    refine .unreadable (e := .missingOperands op offset) ?_
    simp only [← hcode, Instruction.split, hop, hshort, if_true]
  | case5 offset s byte rest op hdone hop hlong next hfetch => exact .fault _ f offset
  | case6 offset s byte rest op hdone hop hlong a next hfetch d hstops =>
    obtain ⟨hsplit, -, hitem, hexact⟩ := fetched hop hlong hfetch
    exact .cons (hcode ▸ hsplit) (by rwa [Instruction.ofOperands_op]) hitem hexact (.fault _ f offset)
  | case7 offset s byte rest op hdone hop hlong a next hfetch d hwhole later ih =>
    obtain ⟨hsplit, hnext, hitem, hexact⟩ := fetched hop hlong hfetch
    refine .cons (hcode ▸ hsplit) (by rwa [Instruction.ofOperands_op]) hitem hexact ?_
    rw [Instruction.size, Instruction.ofOperands_op, ← Nat.add_assoc]
    refine ih ?_
    rw [hnext, Nat.add_assoc, ← List.drop_drop, ← hcode, Nat.add_comm 1, List.drop_succ_cons]

end Logged

namespace Machine

variable {m : Machine} {a : Arguments} {code : List UInt8} {s : Store}

def loggedChunks (m : Machine) (a : Arguments) (code : List UInt8) (k : Nat) (s : Store) :
    Nat → List (Chunk × List Dispatch) × Store × Ending
  | 0 => ([], s, .done)
  | remaining + 1 =>
    match loggedFrom m.noise a.frame (m.chunk a.count k) 0 s code with
    | (log, s, .done) =>
      let later := m.loggedChunks a code (k + 1) s remaining
      ((m.chunk a.count k, log) :: later.1, later.2)
    | (log, s, ending) => ([(m.chunk a.count k, log)], s, ending)

theorem loggedChunks_run (m : Machine) (a : Arguments) (code : List UInt8) (k : Nat) (s : Store)
    (remaining : Nat) :
    (m.loggedChunks a code k s remaining).2 = m.runChunks a code k s remaining := by
  induction remaining generalizing k s with
  | zero => rfl
  | succ remaining ih =>
    have hrun := loggedFrom_run m.noise a.frame (m.chunk a.count k) 0 s code
    rw [loggedChunks, runChunks_succ, ← hrun]
    rcases loggedFrom m.noise a.frame (m.chunk a.count k) 0 s code with ⟨log, s', ending⟩
    cases ending with
    | done => exact ih (k + 1) s'
    | error e => rfl
    | fault offset => rfl

theorem loggedChunks_walk (k remaining : Nat) (hpos : 0 < remaining)
    (hfault : ∀ offset, (m.loggedChunks a code k s remaining).2.2 ≠ .fault offset) :
    (∀ entry ∈ (m.loggedChunks a code k s remaining).1,
      entry.2.map Dispatch.item = (Code.walk code).items ∧ ∀ d ∈ entry.2, d.Exact a.frame) ∧
    (m.loggedChunks a code k s remaining).2.2 = (Code.walk code).ending ∧
    (m.loggedChunks a code k s remaining).1.map (·.1) =
      (if (Code.walk code).stop = none then List.range' k remaining else [k]).map
        (m.chunk a.count) := by
  induction remaining generalizing k s with
  | zero => exact absurd hpos (Nat.lt_irrefl 0)
  | succ remaining ih =>
    obtain ⟨-, hexact, hwalk⟩ :=
      loggedFrom_walk m.noise a.frame (m.chunk a.count k) code 0 s code rfl
    rw [loggedChunks] at hfault ⊢
    generalize loggedFrom m.noise a.frame (m.chunk a.count k) 0 s code = run at hfault hexact hwalk ⊢
    obtain ⟨log, s', ending⟩ := run
    cases ending with
    | fault offset => exact absurd rfl (hfault offset)
    | error e =>
      obtain ⟨hitems, hending⟩ := hwalk (by simp)
      have hstop : (Code.walk code).stop ≠ none := by
        rw [Ne, ← Code.Walk.ending_eq_done_iff]
        exact fun hdone => nomatch hending.trans hdone
      refine ⟨?_, hending, ?_⟩
      · intro entry hentry
        rw [List.mem_singleton.mp hentry]
        exact ⟨hitems, hexact⟩
      · rw [if_neg hstop]
        rfl
    | done =>
      obtain ⟨hitems, hending⟩ := hwalk (by simp)
      have hstop : (Code.walk code).stop = none := Code.Walk.ending_eq_done_iff.mp hending.symm
      simp only [hstop, if_true] at ih ⊢
      cases remaining with
      | zero =>
        refine ⟨?_, hending, rfl⟩
        intro entry hentry
        rw [List.mem_singleton.mp hentry]
        exact ⟨hitems, hexact⟩
      | succ remaining =>
        obtain ⟨hentries, hend, hchunks⟩ := ih (k + 1) (Nat.succ_pos _) hfault
        refine ⟨?_, hend, ?_⟩
        · intro entry hentry
          rcases List.mem_cons.mp hentry with rfl | hentry
          · exact ⟨hitems, hexact⟩
          · exact hentries entry hentry
        · rw [List.map_cons, hchunks]
          rfl

def log (m : Machine) (code : List UInt8) (a : Arguments) (memory : Memory) :
    List (Chunk × List Dispatch) :=
  (m.loggedChunks a code 0 (m.store memory) (m.chunkCount a.count).toNat).1

end Machine

def Outcome.IsFault : Outcome → Prop
  | ok | error (.arguments _) | error (.run _) => False
  | error (.recovered _) | fault _ => True

namespace Machine

variable {m : Machine} {a : Arguments} {code : List UInt8} {memory : Memory}

theorem faulted_isFault (m : Machine) (memory : Memory) (phase : Phase) (offset : Option Nat) :
    (m.faulted memory phase offset).outcome.IsFault := by
  unfold faulted
  split <;> trivial

theorem exec_of_not_fault (hcheck : a.check = .ok ()) (hchunks : 0 < m.chunkCount a.count)
    (hfault : ¬ (m.exec code a memory).outcome.IsFault) :
    (∀ offset, (m.runChunks a code 0 (m.store memory) (m.chunkCount a.count).toNat).2 ≠
      .fault offset) ∧
    ((m.runChunks a code 0 (m.store memory) (m.chunkCount a.count).toNat).2 = .done →
      (m.exec code a memory).outcome = .ok) ∧
    ∀ e, (m.runChunks a code 0 (m.store memory) (m.chunkCount a.count).toNat).2 = .error e →
      (m.exec code a memory).outcome = .error (.run e) ∧
        (m.exec code a memory).machine.phase = .aborted := by
  have hroom : m.hasScratch = true := by
    cases hroom : m.hasScratch with
    | true => rfl
    | false =>
      rw [exec_of_no_scratch code hcheck hroom hchunks] at hfault
      exact absurd (faulted_isFault ..) hfault
  rw [exec_eq code hcheck, hroom, Bool.not_true, Bool.and_false, if_neg (by simp)] at hfault ⊢
  generalize m.runChunks a code 0 (m.store memory) (m.chunkCount a.count).toNat = run at hfault ⊢
  obtain ⟨s, ending⟩ := run
  cases ending with
  | done => simp [conclude]
  | error e => simp [conclude]
  | fault offset => exact absurd (faulted_isFault ..) hfault

/-- Running and reading agree on every code: they end in the same way at the same place, and what is
dispatched for each chunk is what is read. A code that cannot be read to its end is run for the first
chunk only. -/
theorem exec_dispatches_walk (m : Machine) (code : List UInt8) (a : Arguments) (memory : Memory)
    (hcheck : a.check = .ok ()) (hchunks : 0 < m.chunkCount a.count)
    (hlookups : ¬ (m.exec code a memory).outcome.IsFault) :
    ((m.exec code a memory).outcome = .ok ↔ (Code.walk code).stop = none) ∧
    (∀ kind ∈ [Category.unknownOpcode, .truncatedProgram],
      (∃ e, (m.exec code a memory).outcome = .error e ∧ kind ∈ e.report.categories) ↔
        ∃ e, (Code.walk code).stop = some e ∧ kind ∈ e.report.categories) ∧
    (∀ e, (Code.walk code).stop = some e →
      ∃ e', (m.exec code a memory).outcome = .error (.run e') ∧ e'.offset = e.offset ∧
        ((∀ offset, e ≠ .pastEnd offset) → e'.report = e.report) ∧
        .malformedProgram ∈ e'.report.categories ∧
        (m.exec code a memory).machine.phase = .aborted ∧
        (m.log code a memory).map (·.1) = [m.chunk a.count 0]) ∧
    ((Code.walk code).stop = none →
      (m.log code a memory).map (·.1) =
        (List.range (m.chunkCount a.count).toNat).map (m.chunk a.count)) ∧
    (∀ entry ∈ m.log code a memory, entry.2.map Dispatch.item = (Code.walk code).items ∧
      ∀ d ∈ entry.2, d.Exact a.frame) ∧
    (∀ (f : Frame) (seen : Memory) (op : Opcode) (bytes : List UInt8),
      (f.fetch seen op bytes).2 = bytes.drop op.width) ∧
    (m.loggedChunks a code 0 (m.store memory) (m.chunkCount a.count).toNat).2 =
      m.runChunks a code 0 (m.store memory) (m.chunkCount a.count).toNat := by
  have hrun := loggedChunks_run m a code 0 (m.store memory) (m.chunkCount a.count).toNat
  obtain ⟨hnofault, hdone, herror⟩ := exec_of_not_fault hcheck hchunks hlookups
  rw [← hrun] at hnofault hdone herror
  obtain ⟨hentries, hending, hran⟩ := loggedChunks_walk 0 _ (by omega) hnofault
  rw [hending] at hdone herror
  refine ⟨?_, ?_, ?_, ?_, hentries, fun f seen op bytes => f.fetch_rest seen op bytes, hrun⟩
  · cases hstop : (Code.walk code).stop with
    | none => simp [hdone (Code.Walk.ending_eq_done_iff.mpr hstop)]
    | some e =>
      have hend : (Code.walk code).ending = .error e.inRun := by rw [Code.Walk.ending, hstop]
      simp [(herror _ hend).1]
  · intro kind hkind
    cases hstop : (Code.walk code).stop with
    | none => simp [hdone (Code.Walk.ending_eq_done_iff.mpr hstop)]
    | some e =>
      have hend : (Code.walk code).ending = .error e.inRun := by rw [Code.Walk.ending, hstop]
      simp [(herror _ hend).1, ExecError.report, e.inRun_categories]
  · intro e hstop
    have hend : (Code.walk code).ending = .error e.inRun := by rw [Code.Walk.ending, hstop]
    obtain ⟨houtcome, hphase⟩ := herror _ hend
    have hfirst : (m.log code a memory).map (·.1) = [m.chunk a.count 0] := by
      rw [hstop] at hran
      exact hran
    refine ⟨e.inRun, houtcome, e.inRun_offset, ReadError.inRun_report, ?_, hphase, hfirst⟩
    rw [e.inRun_categories]
    exact e.malformed
  · intro hstop
    rw [hstop, if_pos rfl, ← List.range_eq_range'] at hran
    exact hran

def stray : List UInt8 :=
  [53, 1, 0, 128, 255]

def strayArguments : Arguments :=
  { inputs := [], outputs := [⟨0, 0, 3⟩], constants := .own [Quad.splat Lane.one]
    sets := [], count := 3 }

def strayMemory : Memory :=
  { buffers := #[Array.replicate 3 Quad.zero], views := #[] }

theorem runFrom_stray (table : NoiseTable) (c : Chunk) (s : Store) :
    (runFrom table strayArguments.frame c 0 s stray).2 = .error (.unknownOpcode 255 4) := by
  have hsplit : Instruction.split 0 stray =
      .ok ({ op := .kernel (.unary .output), mask := 1, sources := [0], destination := 128 },
        [255]) := rfl
  have hstop : Instruction.split 4 [255] = .error (.unknownOpcode 255 4) := rfl
  have haction : strayArguments.frame.resolve s.memory
      { op := .kernel (.unary .output), mask := 1, sources := [0], destination := 128 } =
      some (.kernel (.unary .output) (.bound ⟨0, 0, 3⟩) [.constant (Quad.splat Lane.one)]) := by
    simp only [Frame.resolve, Arguments.frame_slot]
    rfl
  rw [runFrom_of_resolve hsplit (by decide) haction rfl]
  exact congrArg Prod.snd (runFrom_of_unreadable hstop)

theorem exec_stray :
    ((new 2 0 .standard).exec stray strayArguments strayMemory).outcome =
      .error (.run (.unknownOpcode 255 4)) := by
  have hcount : ((new 2 0 .standard).chunkCount strayArguments.count).toNat = 2 := by decide
  have hrun := runFrom_stray (new 2 0 .standard).noise
    ((new 2 0 .standard).chunk strayArguments.count 0) ((new 2 0 .standard).store strayMemory)
  rw [exec_eq stray rfl, if_neg (by decide), hcount, runChunks_succ]
  generalize runFrom (new 2 0 .standard).noise strayArguments.frame
    ((new 2 0 .standard).chunk strayArguments.count 0) 0 ((new 2 0 .standard).store strayMemory)
    stray = run at hrun ⊢
  obtain ⟨s, ending⟩ := run
  obtain rfl : ending = _ := hrun
  rfl

theorem stray_dispatches :
    strayArguments.check = .ok () ∧ 0 < (new 2 0 .standard).chunkCount strayArguments.count ∧
      ¬ ((new 2 0 .standard).exec stray strayArguments strayMemory).outcome.IsFault ∧
      (Code.walk stray).stop = some (.unknownOpcode 255 4) ∧
      ((new 2 0 .standard).exec stray strayArguments strayMemory).machine.phase = .aborted ∧
      ((new 2 0 .standard).log stray strayArguments strayMemory).map (·.1) = [⟨0, 2⟩] := by
  -- Of three instances in two chunks, the last is not reached.
  have hcheck : strayArguments.check = .ok () := rfl
  have hchunks : 0 < (new 2 0 .standard).chunkCount strayArguments.count := by decide
  have hlookups :
      ¬ ((new 2 0 .standard).exec stray strayArguments strayMemory).outcome.IsFault := by
    rw [exec_stray]
    exact id
  have hstop : (Code.walk stray).stop = some (.unknownOpcode 255 4) := by cbv
  obtain ⟨-, -, herror, -⟩ :=
    exec_dispatches_walk (new 2 0 .standard) stray strayArguments strayMemory hcheck hchunks hlookups
  obtain ⟨e, -, -, -, -, hphase, hfirst⟩ := herror _ hstop
  exact ⟨hcheck, hchunks, hlookups, hstop, hphase, hfirst⟩

end Machine
end Quadlane
