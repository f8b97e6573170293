import Quadlane.Proofs.Cursors
import Quadlane.Proofs.Loading
import Quadlane.Proofs.Soundness

/-! A tick of an emitter that is bound succeeds, or faults because its machine has no room for its
temporaries; either way the emitter stays bound. Its scripts are valid programs that are wired to
columns and data sets which exist, the rows they run on are within the capacity, and no step of the
tick changes how long a column is or moves a cursor out of its view. -/

namespace Quadlane.Simulation

abbrev Extents := Array (Text × Int × Array (Text × Nat))

/-! ### Columns -/

namespace Columns

variable {c : Columns} {width rows : Nat}

theorem fits_iff : c.Fits width rows ↔ c.size = width ∧ ∀ b ∈ c, b.size = rows := by
  rw [Fits, Array.eq_replicate_iff, Array.size_map]
  simp

theorem Fits.hasWindow (h : c.Fits width rows) {first count column : Nat} (hcolumn : column < width)
    (hrows : first + count ≤ rows) : c.hasWindow first count column = true := by
  obtain ⟨hsize, hlength⟩ := fits_iff.mp h
  have hlt : column < c.size := by omega
  have hcount := hlength _ (Array.getElem_mem hlt)
  simp only [Columns.hasWindow, Array.getElem?_eq_getElem hlt, decide_eq_true_eq]
  omega

theorem Fits.hasRows (h : c.Fits width rows) {columns count : Nat} (hcolumns : columns ≤ width)
    (hrows : count ≤ rows) : c.hasRows columns count = true := by
  obtain ⟨hsize, hlength⟩ := fits_iff.mp h
  rw [Columns.hasRows, Bool.and_eq_true, decide_eq_true_eq, Array.all_eq_true_iff_forall_mem]
  refine ⟨by omega, ?_⟩
  intro b hb
  rw [decide_eq_true_eq, hlength b hb]
  exact hrows

theorem sizes_moveRow (c : Columns) (source target : Nat) :
    (c.moveRow source target).map (·.size) = c.map (·.size) := by
  rw [moveRow, Array.map_map]
  congr 1
  funext b
  exact Array.size_setIfInBounds ..

theorem sizes_compactFrom (alive : Nat) (c : Columns) (i count : Nat) :
    (compactFrom alive c i count).1.map (·.size) = c.map (·.size) := by
  induction count generalizing c i with
  | zero => rfl
  | succ count ih =>
    unfold compactFrom
    split
    · exact ih c (i + 1)
    · exact (ih _ i).trans (sizes_moveRow c (i + count) i)

theorem compactFrom_bounds (alive : Nat) (c : Columns) (i count : Nat) :
    i ≤ (compactFrom alive c i count).2 ∧ (compactFrom alive c i count).2 ≤ i + count := by
  induction count generalizing c i with
  | zero => exact ⟨Nat.le_refl i, Nat.le_refl i⟩
  | succ count ih =>
    unfold compactFrom
    split
    · obtain ⟨hlower, hupper⟩ := ih c (i + 1)
      exact ⟨by omega, by omega⟩
    · obtain ⟨hlower, hupper⟩ := ih (c.moveRow (i + count) i) i
      exact ⟨hlower, by omega⟩

theorem Fits.compact (h : c.Fits width rows) (alive : Option Nat) (live : Nat) :
    (compact alive c live).1.Fits width rows ∧ (compact alive c live).2 ≤ live := by
  cases alive with
  | none => exact ⟨h, Nat.le_refl live⟩
  | some a =>
    have hle := (compactFrom_bounds a c 0 live).2
    exact ⟨(sizes_compactFrom a c 0 live).trans h, Nat.le_trans hle (Nat.le_of_eq (Nat.zero_add live))⟩

theorem size_fill (b : Buffer) (first : Nat) (q : Quad) (count : Nat) :
    (fill b first q count).size = b.size := by
  induction count generalizing b first with
  | zero => rfl
  | succ count ih => rw [fill, ih, Array.size_setIfInBounds]

theorem Fits.fillRows (h : c.Fits width rows) (values : List Quad) (first count : Nat) :
    (c.fillRows values first count).Fits width rows := by
  obtain ⟨hsize, hlength⟩ := fits_iff.mp h
  refine fits_iff.mpr ⟨by rw [Columns.fillRows, Array.size_mapIdx, hsize], ?_⟩
  intro b hb
  obtain ⟨i, hi, rfl⟩ := Array.mem_mapIdx.mp hb
  rw [size_fill]
  exact hlength _ (Array.getElem_mem hi)

end Columns

/-! ### Scripts -/

structure Script.WiredTo (s : Script) (p : Program) (width : Nat) (extents : Extents) : Prop where
  program : s.program = some p
  valid : p.validate = .ok ()
  constants : s.wiring.table.declared.length = p.constants.length
  inputs : s.wiring.inputs.length = p.inputs.length
  inputColumns : ∀ a ∈ s.wiring.inputs, a < width
  outputs : s.wiring.outputs.length = p.outputs.length
  outputColumns : ∀ a ∈ s.wiring.outputs, a < width
  setCount : s.wiring.sets.length = p.sets.length
  sets : ∀ (i : Nat) (d : SetDeclaration) (set : Option Nat), p.sets[i]? = some d →
    s.wiring.sets[i]? = some set →
      ∃ id x, set = some id ∧ extents[id]? = some x ∧ d.vars.length ≤ x.2.2.size

/-- Data sets that declare what they did when they were bound, with all cursors in range. -/
structure Settled (sets : Array OwnedView) (extents : Extents) : Prop where
  extents : sets.map OwnedView.extent = extents
  inRange : ∀ v ∈ sets, v.InRange

/-- Nothing failed; only where machines may lack room for temporaries can there be a fault. -/
def Excused (roomy : Prop) (f : Option TickFailure) : Prop :=
  f = none ∨ f = some .fault ∧ ¬roomy

theorem Excused.eq_none {roomy : Prop} {f : Option TickFailure} (h : Excused roomy f)
    (hroom : roomy) : f = none :=
  h.resolve_right fun hfault => hfault.2 hroom

structure Usable (m : Machine) (roomy : Prop) : Prop where
  recovers : m.recovers = false
  scratch : roomy → m.hasScratch = true

theorem Usable.exec {m : Machine} {roomy : Prop} (h : Usable m roomy) (code : List UInt8)
    (a : Arguments) (memory : Memory) : Usable (m.exec code a memory).machine roomy := by
  obtain ⟨hchunk, hrecovers⟩ := m.exec_settings code a memory
  refine ⟨hrecovers.trans h.recovers, ?_⟩
  simpa only [Machine.hasScratch, Machine.scratchSize, hchunk] using h.scratch

theorem Usable.exec_outcome {m : Machine} {roomy : Prop} (h : Usable m roomy) {program : Program}
    {a : Arguments} {memory : Memory} (hvalid : program.validate = .ok ())
    (hmatch : a.Matches program memory) :
    (m.exec program.bytes a memory).outcome = .ok ∨
      (m.exec program.bytes a memory).outcome = .fault none ∧ ¬roomy := by
  by_cases hroom : m.hasScratch = true ∨ m.chunkCount a.count ≤ 0
  · exact .inl (Machine.exec_of_validate hvalid hmatch hroom).1
  · obtain ⟨hscratch, hchunks⟩ := not_or.mp hroom
    refine .inr ⟨?_, fun hroomy => hscratch (h.scratch hroomy)⟩
    rw [Machine.exec_of_no_scratch _ (hmatch.check_ok hvalid) (Bool.eq_false_iff.mpr hscratch)
      (Int.not_le.mp hchunks)]
    exact Machine.faulted_outcome (m := m.release a) h.recovers ..

namespace Progress

structure Sound (p : Progress) (roomy : Prop) : Prop where
  front : p.front.Fits p.emitter.attributes.length p.emitter.capacity
  back : p.back.Fits p.emitter.attributes.length p.emitter.capacity
  live : p.live ≤ p.emitter.capacity
  machine : Usable p.machine roomy

variable {p : Progress} {sets : Array OwnedView} {extents : Extents} {s : Script}
variable {first count : Nat} {roomy : Prop}

theorem load_inRange (p : Progress) (h : ∀ v ∈ sets, v.InRange) : (p.load sets).InRange := by
  intro v hv
  have hown := Array.mem_map_of_mem (f := ownView (p.load sets)) hv
  rw [p.ownView_load sets] at hown
  exact ⟨(h _ hown).lower, (h _ hown).upper, (h _ hown).size⟩

theorem arguments_matches {program : Program}
    (hwired : s.WiredTo program p.emitter.attributes.length extents)
    (hsets : Settled sets extents) :
    (p.arguments s first count).Matches program (p.load sets) := by
  refine ⟨⟨?_, ?_, ?_, ?_, ?_⟩, Int.natCast_nonneg count, ?_⟩
  · simpa [arguments] using hwired.inputs
  · simpa [arguments] using hwired.outputs
  · simpa [arguments, Constants.length, ConstantTable.build] using hwired.constants
  · simpa [arguments] using hwired.setCount
  · intro i d set hd hset
    rw [Arguments.frame_sets] at hset
    obtain ⟨id, x, hid, hx, hvars⟩ := hwired.sets i d set hd hset
    rw [← hsets.extents, ← p.ownView_load sets] at hx
    simp only [Array.getElem?_map, Option.map_eq_some_iff] at hx
    obtain ⟨w, ⟨v, hv, rfl⟩, rfl⟩ := hx
    refine ⟨id, v, hid, hv, ?_⟩
    simpa [OwnedView.extent, ownView] using hvars
  · intro w hw
    rcases List.mem_append.mp hw with hw | hw
    · obtain ⟨a, -, rfl⟩ := List.mem_map.mp hw
      exact Int.le_refl _
    · obtain ⟨a, -, rfl⟩ := List.mem_map.mp hw
      exact Int.le_refl _

theorem hasWindows_of_fits
    (hfront : Columns.Fits p.front p.emitter.attributes.length p.emitter.capacity)
    (hback : Columns.Fits p.back p.emitter.attributes.length p.emitter.capacity) {program : Program}
    (hwired : s.WiredTo program p.emitter.attributes.length extents)
    (hrows : first + count ≤ p.emitter.capacity) : p.hasWindows s first count = true := by
  have hsource : (if s.stage = .spawn then p.back else p.front).Fits
      p.emitter.attributes.length p.emitter.capacity := by
    split
    · exact hback
    · exact hfront
  rw [Progress.hasWindows, Bool.and_eq_true, List.all_eq_true, List.all_eq_true]
  exact ⟨fun a ha => hsource.hasWindow (hwired.inputColumns a ha) hrows,
    fun a ha => hback.hasWindow (hwired.outputColumns a ha) hrows⟩

structure Continues (p p' : Progress) (sets' : Array OwnedView) (extents : Extents)
    (roomy : Prop) : Prop where
  sound : p'.Sound roomy
  emitter : p'.emitter = p.emitter
  live : p'.live = p.live
  sets : Settled sets' extents

theorem Sound.runScript (hp : p.Sound roomy) (hsets : Settled sets extents) {program : Program}
    (hwired : s.WiredTo program p.emitter.attributes.length extents)
    (hrows : first + count ≤ p.emitter.capacity) :
    ∃ p' sets' outcome, p.runScript sets s first count = (p', sets', outcome) ∧
      (outcome = .ok ∨ outcome = .fault none ∧ ¬roomy) ∧ p.Continues p' sets' extents roomy := by
  have hmatch : (p.arguments s first count).Matches program (p.load sets) :=
    arguments_matches hwired hsets
  have houtcome := hp.machine.exec_outcome hwired.valid hmatch
  have hmachine := hp.machine.exec program.bytes (p.arguments s first count) (p.load sets)
  have hshape := Machine.exec_shape (m := p.machine) (a := p.arguments s first count)
    program.bytes (p.load sets)
  have hrange := Machine.exec_inRange (m := p.machine) (a := p.arguments s first count)
    program.bytes (p.load_inRange hsets.inRange)
  rw [Progress.runScript, hasWindows_of_fits hp.front hp.back hwired hrows, if_pos rfl, runOnRows]
  simp only [hwired.program, Option.map_some, Option.getD_some]
  generalize p.machine.exec program.bytes (p.arguments s first count) (p.load sets) = r at *
  obtain ⟨hfront, hback⟩ := columns_of_shape hshape
  refine ⟨_, _, _, rfl, houtcome,
    ⟨hfront.trans hp.front, hback.trans hp.back, hp.live, hmachine⟩, rfl, rfl, ?_, ?_⟩
  · rw [extent_ownView hshape, p.ownView_load sets, hsets.extents]
  · intro v hv
    obtain ⟨w, hw, rfl⟩ := Array.mem_map.mp hv
    exact ⟨(hrange w hw).lower, (hrange w hw).upper, (hrange w hw).size⟩

theorem Sound.runScripts {scripts : List Script} (hp : p.Sound roomy)
    (hsets : Settled sets extents)
    (hwired : ∀ s ∈ scripts, ∃ program, s.WiredTo program p.emitter.attributes.length extents)
    (hrows : first + count ≤ p.emitter.capacity) :
    ∃ p' sets' f, p.runScripts none sets first count scripts = (p', sets', f) ∧
      Excused roomy f ∧ p.Continues p' sets' extents roomy := by
  induction scripts generalizing p sets with
  | nil => exact ⟨p, sets, none, by rw [Progress.runScripts], .inl rfl, hp, rfl, rfl, hsets⟩
  | cons s scripts ih =>
    obtain ⟨program, hs⟩ := hwired s (List.mem_cons_self ..)
    obtain ⟨p₁, sets₁, outcome, hrun, houtcome, hfirst⟩ := hp.runScript hsets hs hrows
    rw [Progress.runScripts]
    rcases houtcome with rfl | ⟨rfl, hroom⟩
    · obtain ⟨hp₁, hemitter₁, hlive₁, hsets₁⟩ := hfirst
      rw [← hemitter₁] at hrows hwired
      obtain ⟨p₂, sets₂, f, hrest, hf, hp₂, hemitter₂, hlive₂, hsets₂⟩ :=
        ih hp₁ hsets₁ (fun s hs => hwired s (List.mem_cons_of_mem _ hs)) hrows
      simp only [hrun, hrest]
      exact ⟨p₂, sets₂, f, rfl, hf, hp₂, hemitter₂.trans hemitter₁, hlive₂.trans hlive₁, hsets₂⟩
    · simp only [hrun]
      exact ⟨p₁, sets₁, _, rfl, .inr ⟨rfl, hroom⟩, hfirst⟩

theorem Sound.canCompact (hp : p.Sound roomy)
    (halive : ∀ a, p.emitter.aliveColumn = some a → a < p.emitter.attributes.length) :
    p.canCompact = true := by
  refine hp.back.hasRows ?_ hp.live
  cases hcolumn : p.emitter.aliveColumn with
  | none => exact Nat.zero_le _
  | some a => exact halive a hcolumn

theorem Sound.compact (hp : p.Sound roomy) : p.compact.Sound roomy := by
  obtain ⟨hback, hlive⟩ := hp.back.compact p.emitter.aliveColumn p.live
  exact ⟨hp.front, hback, Nat.le_trans hlive hp.live, hp.machine⟩

theorem Sound.spawnRows (hp : p.Sound roomy) (count : Nat) : (p.spawnRows count).Sound roomy :=
  ⟨hp.front, hp.back.fillRows _ _ _, hp.live, hp.machine⟩

end Progress

/-! ### Emitters -/

namespace Emitter

structure Bound (e : Emitter) (extents : Extents) (roomy : Prop) : Prop where
  columns : Columns.Fits e.columns e.attributes.length e.capacity
  live : e.live ≤ e.capacity
  machine : ∃ m, e.machine = some m ∧ Usable m roomy
  alive : ∀ a, e.aliveColumn = some a → a < e.attributes.length
  scripts : ∀ s ∈ e.scripts, ∃ program, s.WiredTo program e.attributes.length extents

def outline (e : Emitter) : Text × List Text × Nat :=
  (e.name, e.attributes, e.capacity)

variable {e : Emitter} {sets : Array OwnedView} {extents : Extents} {roomy : Prop}

theorem room_le (e : Emitter) (live : Nat) (h : live ≤ e.capacity) (n : Int) :
    live + e.room live n ≤ e.capacity := by
  simp only [room]
  omega

theorem Bound.spawn (h : e.Bound extents roomy) (n : Int) :
    (e.spawn n).2.Bound extents roomy ∧ (e.spawn n).2.outline = e.outline :=
  ⟨⟨h.columns.fillRows _ _ _, e.room_le e.live h.live n, h.machine, h.alive, h.scripts⟩, rfl⟩

theorem bound_finish {p : Progress} (h : e.Bound extents roomy) (hp : p.Sound roomy)
    (hemitter : p.emitter = e) (count : Nat) (hrows : p.live + count ≤ e.capacity) :
    (p.finish count).Bound extents roomy ∧ (p.finish count).outline = e.outline := by
  subst hemitter
  exact ⟨⟨hp.back, hrows, ⟨p.machine, rfl, hp.machine⟩, h.alive, h.scripts⟩, rfl⟩

theorem bound_abandon {p : Progress} (h : e.Bound extents roomy) (hp : p.Sound roomy)
    (hemitter : p.emitter = e) :
    p.abandon.Bound extents roomy ∧ p.abandon.outline = e.outline := by
  subst hemitter
  exact ⟨⟨hp.front, h.live, ⟨p.machine, rfl, hp.machine⟩, h.alive, h.scripts⟩, rfl⟩

theorem tick_of_failure {m : Machine} {p : Progress} {sets' : Array OwnedView} {f : TickFailure}
    (hm : e.machine = some m) (hrows : Columns.hasRows e.columns e.attributes.length e.live = true)
    (hrun : (Progress.start e m).runScripts none sets 0 e.live
      ((Progress.start e m).scriptsOf .update) = (p, sets', some f)) :
    e.tick none sets = (p.abandon, sets', some f) := by
  replace hrun : (Progress.start e m).runScripts none sets 0 (Progress.start e m).live
      ((Progress.start e m).scriptsOf .update) = (p, sets', some f) := hrun
  unfold Emitter.tick
  simp only [hm, hrun]
  rw [if_neg (by simp [Progress.start, hrows])]

theorem Bound.tick (h : e.Bound extents roomy) (hsets : Settled sets extents) :
    ∃ e' sets' f, e.tick none sets = (e', sets', f) ∧ Excused roomy f ∧
      (e'.Bound extents roomy ∧ e'.outline = e.outline) ∧ Settled sets' extents := by
  obtain ⟨m, hm, hmachine⟩ := h.machine
  have hstart : (Progress.start e m).Sound roomy := ⟨h.columns, h.columns, h.live, hmachine⟩
  have hscripts : ∀ stage, ∀ s ∈ e.scripts.filter (·.stage = stage),
      ∃ program, s.WiredTo program e.attributes.length extents :=
    fun stage s hs => h.scripts s (List.mem_filter.mp hs).1
  have hall : 0 + e.live ≤ e.capacity := by
    rw [Nat.zero_add]
    exact h.live
  have hrows := h.columns.hasRows (Nat.le_refl _) h.live
  -- The update scripts run on all live rows.
  obtain ⟨p₁, sets₁, f₁, hupdate, hf₁, hp₁, hemitter₁, -, hsets₁⟩ :=
    hstart.runScripts hsets (hscripts .update) hall
  rcases hf₁ with rfl | ⟨rfl, hroom⟩
  swap
  · exact ⟨_, _, _, tick_of_failure hm hrows hupdate, .inr ⟨rfl, hroom⟩,
      bound_abandon h hp₁ hemitter₁, hsets₁⟩
  have hcompact : p₁.canCompact = true := hp₁.canCompact (by rw [hemitter₁]; exact h.alive)
  have hp₂ := hp₁.compact
  have hemitter₂ : p₁.compact.emitter = e := hemitter₁
  have hroom := e.room_le p₁.compact.live (hemitter₂ ▸ hp₂.live) (p₁.compact.demand sets₁)
  replace hupdate : (Progress.start e m).runScripts none sets 0 (Progress.start e m).live
      ((Progress.start e m).scriptsOf .update) = (p₁, sets₁, none) := hupdate
  unfold Emitter.tick
  simp only [hm, hupdate]
  rw [if_neg (by simp [Progress.start, hrows]), if_neg (by simp [hcompact])]
  generalize e.room p₁.compact.live (p₁.compact.demand sets₁) = count at hroom ⊢
  by_cases hnone : count = 0
  · rw [if_pos hnone]
    exact ⟨_, _, _, rfl, .inl rfl, bound_finish h hp₂ hemitter₂ 0 (by omega), hsets₁⟩
  · have hfilled : p₁.compact.back.hasRows e.attributes.length (p₁.compact.live + count) = true :=
      hp₂.back.hasRows (hemitter₂ ▸ Nat.le_refl _) (hemitter₂ ▸ hroom)
    rw [if_neg hnone, if_neg (by simp [hfilled])]
    -- The spawn scripts run on the new rows alone, which are behind the live ones.
    have hp₃ := hp₂.spawnRows count
    have hemitter₃ : (p₁.compact.spawnRows count).emitter = e := hemitter₁
    have hlive₃ : (p₁.compact.spawnRows count).live = p₁.compact.live := rfl
    generalize p₁.compact.spawnRows count = p₃ at hp₃ hemitter₃ hlive₃ ⊢
    have hwired : ∀ s ∈ p₃.scriptsOf .spawn,
        ∃ program, s.WiredTo program p₃.emitter.attributes.length extents := by
      rw [Progress.scriptsOf, hemitter₃]
      exact hscripts .spawn
    rw [← hlive₃] at hroom
    obtain ⟨p₄, sets₄, f₄, hspawn, hf₄, hp₄, hemitter₄, hlive₄, hsets₄⟩ :=
      hp₃.runScripts hsets₁ hwired (hemitter₃ ▸ hroom)
    have hemitter : p₄.emitter = e := hemitter₄.trans hemitter₃
    rw [← hlive₄] at hroom
    simp only [hspawn]
    rcases hf₄ with rfl | ⟨rfl, hfault⟩
    · exact ⟨_, _, _, rfl, .inl rfl, bound_finish h hp₄ hemitter count hroom, hsets₄⟩
    · exact ⟨_, _, _, rfl, .inr ⟨rfl, hfault⟩, bound_abandon h hp₄ hemitter, hsets₄⟩

end Emitter
end Quadlane.Simulation
