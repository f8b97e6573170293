import Quadlane.Proofs.Reception
import Quadlane.Proofs.Schedules
import Quadlane.Proofs.ScriptRuns

/-! Events go from one emitter to another through a data set that spawns the other. In a tick the source
notes an event for each of its instances whose condition is positive; the sink, which comes later, is
given an instance for each event there is room for, and each of them takes one event. Every event
noted ends up in exactly one instance or stays in the data set. -/

namespace Quadlane

/-- A machine that there can be: its temporaries, counted in 64-bit arithmetic, fit a buffer. -/
structure Machine.Sized (m : Machine) : Prop where
  lower : 1 ≤ m.chunkSize
  upper : m.chunkSize < 2 ^ 63
  scratch : m.canExist = true

theorem Machine.Sized.fits {m : Machine} (h : m.Sized) :
    ∃ c : Nat, m.chunkSize = c ∧ 1 ≤ c ∧ ∀ n ≤ Buffer.maxSize, n + c ≤ 2 ^ 63 := by
  obtain ⟨hlower, hupper, hscratch⟩ := h
  obtain ⟨c, hc⟩ := Int.eq_ofNat_of_zero_le (Int.le_of_lt hlower)
  refine ⟨c, hc, by omega, ?_⟩
  intro n hn
  -- The temporaries of a chunk that comes near the limit would not fit a buffer.
  simp only [canExist, scratchSize, Buffer.canHold, Limit.temporaries, Buffer.maxSize,
    Bool.and_eq_true, decide_eq_true_eq, wrap_eq_bmod, Int.bmod_def] at hscratch hn
  split at hscratch <;> omega

/-- The events are the first records of variable 0, and the cursor is behind them. -/
structure Memory.HoldsEvents (m : Memory) (id : Nat) (b : BufferId) (size : Nat)
    (events : List Quad) : Prop where
  records : m.HasRecords id 0 b size
  counter : m.views[id]?.map View.counter = some (events.length : Int)
  cell : ∀ j q, events[j]? = some q → m.cell b j = q

structure OwnedView.Holds (v : OwnedView) (size : Nat) (events : List Quad) : Prop where
  size_eq : v.size = size
  counter : v.counter = events.length
  records : ∃ x b, v.vars[0]? = some (x, b) ∧ size ≤ b.size ∧ b.toList.take events.length = events

namespace Simulation

/-! ### Events in a loaded memory -/

namespace Progress

variable {p : Progress} {sets : Array OwnedView} {d size : Nat} {v : OwnedView} {events : List Quad}

theorem exists_buffer_of_numberViews {base : Nat} {l : List OwnedView} {i : Nat}
    {view : View (Option BufferId)} {x : Text} {ref : Option BufferId}
    (hview : (numberViews base l)[i]? = some view) (hvar : (x, ref) ∈ view.vars) :
    ∃ b, ref = some b := by
  induction l generalizing base i with
  | nil => cases hview
  | cons u l ih =>
    cases i with
    | zero =>
      obtain rfl := Option.some.inj hview
      obtain ⟨k, hk, heq⟩ := Array.mem_mapIdx.mp hvar
      exact ⟨_, (Prod.mk.inj heq).2.symm⟩
    | succ i => exact ih hview

theorem load_holds (hv : sets[d]? = some v) (h : v.Holds size events) :
    ∃ b, (p.load sets).HoldsEvents d b size events ∧ p.front.size + p.back.size ≤ b := by
  have hget := congrArg (·[d]?) (p.ownView_load sets)
  simp only [Array.getElem?_map, hv, Option.map_eq_some_iff] at hget
  obtain ⟨view, hview, rfl⟩ := hget
  obtain ⟨hsize, hcounter, x, buffer, hvar, hroom, hevents⟩ := h
  simp only [ownView, Array.getElem?_map, Option.map_eq_some_iff] at hvar
  obtain ⟨⟨x', ref⟩, hvar, heq⟩ := hvar
  obtain ⟨rfl, hbuffer⟩ := Prod.mk.inj heq
  have hnumber := hview
  rw [load_view] at hnumber
  obtain ⟨b, rfl⟩ := exists_buffer_of_numberViews hnumber (Array.mem_of_getElem? hvar)
  replace hbuffer : (p.load sets).buffers.getD b #[] = buffer := hbuffer
  refine ⟨b, ⟨⟨⟨view, hview, hsize, x', hvar⟩, ?_⟩, ?_, ?_⟩,
    le_of_numberViews hnumber (Array.mem_of_getElem? hvar)⟩
  · rw [Memory.bufferSize, hbuffer]
    exact hroom
  · rw [hview, Option.map_some]
    exact congrArg some hcounter
  · intro j q hq
    have hrecord : (buffer.toList.take events.length)[j]? = some q := by rwa [hevents]
    rw [List.getElem?_take_of_lt (List.getElem?_eq_some_iff.mp hq).1, Array.getElem?_toList] at hrecord
    rw [Memory.cell, hbuffer, Array.getD_eq_getD_getElem?, hrecord, Option.getD_some]

theorem holds_ownView {m : Memory} {b : BufferId} (h : m.HoldsEvents d b size events)
    (hle : events.length ≤ size) :
    ∃ v, (m.views.map (ownView m))[d]? = some v ∧ v.Holds size events := by
  obtain ⟨⟨⟨view, hview, hsize, x, hvar⟩, hroom⟩, hcounter, hcell⟩ := h
  refine ⟨ownView m view, by rw [Array.getElem?_map, hview, Option.map_some], hsize, ?_, ?_⟩
  · rw [hview, Option.map_some] at hcounter
    exact Option.some.inj hcounter
  · refine ⟨x, m.buffers.getD b #[], ?_, hroom, ?_⟩
    · simp only [ownView, Array.getElem?_map, hvar, Option.map_some, Option.getD_some]
    · apply List.ext_getElem?
      intro j
      by_cases hj : j < events.length
      · have hlt : j < (m.buffers.getD b #[]).size := hj.trans_le (hle.trans hroom)
        have hrecord := hcell j _ (List.getElem?_eq_getElem hj)
        rw [Memory.cell, Array.getD_eq_getD_getElem?, Array.getElem?_eq_getElem hlt,
          Option.getD_some] at hrecord
        rw [List.getElem?_take_of_lt hj, Array.getElem?_toList, Array.getElem?_eq_getElem hlt, hrecord,
          List.getElem?_eq_getElem hj]
      · rw [List.getElem?_take_eq_none (by omega), List.getElem?_eq_none (by omega)]

end Progress

/-! ### The two scripts -/

/-- The script notes an event in a data set for each instance with a positive value in one column: its
value in another. -/
structure Script.Emits (s : Script) (set cond value : Nat) : Prop where
  stage : s.stage = .update
  sets : s.wiring.sets[0]? = some (some set)
  code : ∃ condByte valueByte i j,
    Code.body s.code = emission 0 0 0 condByte valueByte ∧
      splitRegister condByte = some (.input, i) ∧ s.wiring.inputs[i]? = some cond ∧
      splitRegister valueByte = some (.input, j) ∧ s.wiring.inputs[j]? = some value

/-- The script gives each new instance an event of a data set, as its value in a column. -/
structure Script.Receives (s : Script) (set target : Nat) : Prop where
  stage : s.stage = .spawn
  sets : s.wiring.sets[0]? = some (some set)
  code : Code.body s.code = reception 0
  one : ∃ q, (s.wiring.table.build s.constants)[0]? = some q ∧ q.x = Lane.one
  output : s.wiring.outputs[0]? = some target

namespace Progress

variable {p p' : Progress} {sets sets' : Array OwnedView} {s : Script} {first n c d size : Nat}
variable {v : OwnedView} {events : List Quad}

theorem hasWindows_of_ok (h : p.runScript sets s first n = (p', sets', .ok)) :
    p.hasWindows s first n = true ∧
      p.unload (p.machine.exec s.code (p.arguments s first n) (p.load sets)) = (p', sets', .ok) := by
  unfold runScript at h
  split at h
  · next hwindows => exact ⟨hwindows, h⟩
  · cases h

theorem lt_size_of_hasWindow {columns : Columns} {a : Nat}
    (h : columns.hasWindow first n a = true) :
    a < columns.size ∧ first + n ≤ (columns.getD a #[]).size := by
  unfold Columns.hasWindow at h
  split at h
  · next b hb =>
    refine ⟨(Array.getElem?_eq_some_iff.mp hb).1, ?_⟩
    rw [Array.getD_eq_getD_getElem?, hb, Option.getD_some]
    exact of_decide_eq_true h
  · cases h

theorem runScript_emits {cond value : Nat} (hs : s.Emits d cond value)
    (hchunk : p.machine.chunkSize = c) (hc : 1 ≤ c) (hfits : n + c ≤ 2 ^ 63)
    (hv : sets[d]? = some v) (hholds : v.Holds size []) (hsize : size ≤ 2 ^ 24)
    (hrun : p.runScript sets s 0 n = (p', sets', .ok)) :
    ∃ v', sets'[d]? = some v' ∧
      v'.Holds size ((noted (p.front.cell cond) (p.front.cell value) n).take size) := by
  obtain ⟨hwindows, hunload⟩ := hasWindows_of_ok hrun
  obtain ⟨b, hloaded, hb⟩ := p.load_holds hv hholds
  obtain ⟨condByte, valueByte, i, j, hcode, hcondByte, hcond, hvalueByte, hvalue⟩ := hs.code
  -- An input register is a window on a column of the previous tick.
  have hinput : ∀ {byte : UInt8} {k a : Nat} (place : Nat), splitRegister byte = some (.input, k) →
      s.wiring.inputs[k]? = some a →
      (∀ m, (p.arguments s 0 n).frame.source? m 0 place byte =
        some (.register (.bound ⟨a, 0, n⟩))) ∧ a < p.front.size := by
    intro byte k a place hbyte ha
    have hkind : sourceKind 0 place = .register := by simp [sourceKind]
    constructor
    · intro m
      simp [Frame.source?, hkind, Arguments.frame_slot, Arguments.slot?, hbyte, arguments, ha,
        hs.stage, Slot.ofWindow, Slot.rebind]
    · simp only [hasWindows, hs.stage, Bool.and_eq_true, List.all_eq_true] at hwindows
      exact (lt_size_of_hasWindow (hwindows.1 a (List.mem_of_getElem? ha))).1
  have hgiven : ∀ a < p.front.size,
      (fun i => Source.given (p.load sets) i (.register (.bound ⟨a, 0, n⟩))) = p.front.cell a := by
    intro a ha
    funext i
    have hbuffer := congrArg (·.getD i Quad.zero) (load_front p sets ha)
    rw [Source.given, Nat.zero_add]
    exact hbuffer
  obtain ⟨hcondSource, hcondColumn⟩ := hinput 0 hcondByte hcond
  obtain ⟨hvalueSource, hvalueColumn⟩ := hinput 1 hvalueByte hvalue
  have hok : (p.machine.exec s.code (p.arguments s 0 n) (p.load sets)).outcome = .ok :=
    congrArg (·.2.2) hunload
  have hapart : ∀ a < p.front.size, Source.Apart b (.register (.bound ⟨a, 0, n⟩)) :=
    fun a ha => Nat.ne_of_lt (ha.trans_le ((Nat.le_add_right ..).trans hb))
  have hnoted := Machine.exec_emission 0 hchunk hc (n := n) rfl hfits hcode hs.sets
    hloaded.records hsize rfl hcondSource (hapart cond hcondColumn) hvalueSource
    (hapart value hvalueColumn) hloaded.counter (Nat.zero_le _) hok
  rw [hgiven cond hcondColumn, hgiven value hvalueColumn] at hnoted
  have hsets : sets' = _ := (congrArg (·.2.1) hunload).symm
  rw [hsets]
  refine holds_ownView (b := b) ⟨hloaded.records.of_shape hnoted.shape, ?_, ?_⟩
    (List.length_take_le ..)
  · rw [hnoted.counter, List.length_take, Nat.zero_add, Nat.min_comm]
  · intro j q hq
    rw [List.getElem?_take] at hq
    split at hq
    · next hj => rw [hnoted.cell, if_pos ⟨rfl, Nat.zero_le _, hj⟩, Nat.sub_zero, hq, Option.getD_some]
    · cases hq

theorem runScript_receives {target : Nat} (hs : s.Receives d target)
    (hchunk : p.machine.chunkSize = c) (hc : 1 ≤ c) (hfits : n + c ≤ 2 ^ 63)
    (hv : sets[d]? = some v) (hholds : v.Holds size events) (hsize : size ≤ 2 ^ 24)
    (hle : events.length ≤ size) (hn : n ≤ events.length)
    (hrun : p.runScript sets s first n = (p', sets', .ok)) :
    (∃ v', sets'[d]? = some v' ∧ v'.Holds size (events.take (events.length - n))) ∧
      target < p.back.size ∧
      (List.range n).map (fun j => p'.back.cell target (first + j)) = events.reverse.take n := by
  obtain ⟨hwindows, hunload⟩ := hasWindows_of_ok hrun
  obtain ⟨b, hloaded, hb⟩ := p.load_holds hv hholds
  obtain ⟨one, hone, hlane⟩ := hs.one
  have hwindow : target < p.back.size ∧ first + n ≤ (p.back.getD target #[]).size := by
    simp only [hasWindows, Bool.and_eq_true, List.all_eq_true] at hwindows
    exact lt_size_of_hasWindow (hwindows.2 target (List.mem_of_getElem? hs.output))
  obtain ⟨htarget, hrows⟩ := hwindow
  have hout : (p.arguments s first n).outputs[0]? = some ⟨p.front.size + target, first, n⟩ := by
    simp [arguments, hs.output]
  have hroom : first + n ≤ (p.load sets).bufferSize (p.front.size + target) := by
    have hbuffer := congrArg Array.size (load_back p sets htarget)
    exact hrows.trans_eq hbuffer.symm
  have hok : (p.machine.exec s.code (p.arguments s first n) (p.load sets)).outcome = .ok :=
    congrArg (·.2.2) hunload
  have hapart : p.front.size + target ≠ b :=
    Nat.ne_of_lt ((Nat.add_lt_add_left htarget _).trans_le hb)
  have hreceived := Machine.exec_reception (n := n) hchunk hc rfl hfits hs.code hs.sets
    hloaded.records hsize hle rfl hone hlane hout hapart hroom hn hloaded.counter hok
  have hsets : sets' = _ := (congrArg (·.2.1) hunload).symm
  refine ⟨?_, htarget, ?_⟩
  · rw [hsets]
    refine holds_ownView (b := b) ⟨hloaded.records.of_shape hreceived.shape, ?_, ?_⟩
      ((List.length_take_le' ..).trans hle)
    · rw [hreceived.counter, List.length_take, Nat.min_eq_left (Nat.sub_le ..)]
    · intro j q hq
      rw [List.getElem?_take] at hq
      split at hq
      · rw [hreceived.cell, if_neg fun heq => hapart heq.1.symm, hloaded.cell j q hq]
      · cases hq
  · apply List.ext_getElem?
    intro j
    by_cases hj : j < n
    · have hevent : events[events.length - 1 - j]? = some events[events.length - 1 - j] :=
        List.getElem?_eq_getElem (by omega)
      have hcell : p'.back.cell target (first + j) = events[events.length - 1 - j] := by
        have hcolumn := congrArg (·.getD (first + j) Quad.zero)
          (unload_back p (p.machine.exec s.code (p.arguments s first n) (p.load sets)) htarget)
        rw [hunload] at hcolumn
        refine hcolumn.trans ?_
        have hrow := hreceived.cell (p.front.size + target) (first + j)
        rw [if_pos ⟨rfl, Nat.le_add_right .., Nat.add_lt_add_left hj _⟩,
          Nat.add_sub_cancel_left, hloaded.cell _ _ hevent] at hrow
        exact hrow
      rw [List.getElem?_map, List.getElem?_range hj, Option.map_some, hcell,
        List.getElem?_take_of_lt hj, List.getElem?_reverse (by omega), hevent]
    · rw [List.getElem?_eq_none (by simp; omega), List.getElem?_take_eq_none (by omega)]

end Progress

/-! ### The two emitters -/

def Emitter.OnlyUser (e : Emitter) (set : Nat) (s : Script) : Prop :=
  e.scripts.filter (set ∈ ·.wiring.found) = [s]

namespace Emitter

variable {e e' : Emitter} {sets sets' : Array OwnedView} {s : Script} {d size : Nat}
variable {m : Machine} {v : OwnedView} {events : List Quad}

theorem OnlyUser.of_mem (h : e.OnlyUser d s) {s' : Script} (hs' : s' ∈ e.scripts)
    (hd : d ∈ s'.wiring.found) : s' = s := by
  have hmem : s' ∈ e.scripts.filter (d ∈ ·.wiring.found) :=
    List.mem_filter.mpr ⟨hs', decide_eq_true hd⟩
  rw [OnlyUser] at h
  rw [h] at hmem
  exact List.mem_singleton.mp hmem

theorem OnlyUser.other_stage (h : e.OnlyUser d s) (stage : Stage) (hstage : s.stage ≠ stage) :
    ∀ s' ∈ e.scripts.filter (·.stage = stage), d ∉ s'.wiring.found := by
  intro s' hs' hd
  obtain ⟨hmem, hstage'⟩ := List.mem_filter.mp hs'
  exact hstage (h.of_mem hmem hd ▸ of_decide_eq_true hstage')

theorem OnlyUser.own_stage (h : e.OnlyUser d s) :
    ∃ before after, e.scripts.filter (·.stage = s.stage) = before ++ s :: after ∧
      (∀ s' ∈ before, s' ∈ e.scripts ∧ d ∉ s'.wiring.found) ∧
      ∀ s' ∈ after, s' ∈ e.scripts ∧ s'.stage = s.stage ∧ d ∉ s'.wiring.found := by
  obtain ⟨before, after, hscripts, hbefore, -, hafter⟩ := List.filter_eq_cons_iff.mp h
  refine ⟨before.filter (·.stage = s.stage), after.filter (·.stage = s.stage), ?_, ?_, ?_⟩
  · rw [hscripts, List.filter_append, List.filter_cons_of_pos (by simp)]
  · intro s' hs'
    have hmem := (List.mem_filter.mp hs').1
    exact ⟨hscripts ▸ List.mem_append_left _ hmem, by simpa using hbefore s' hmem⟩
  · intro s' hs'
    obtain ⟨hmem, hstage⟩ := List.mem_filter.mp hs'
    refine ⟨hscripts ▸ List.mem_append_right _ (List.mem_cons_of_mem _ hmem),
      of_decide_eq_true hstage, ?_⟩
    have hnot := List.filter_eq_nil_iff.mp hafter s' hmem
    simpa using hnot

theorem tick_emits {cond value : Nat} (htick : e.tick none sets = (e', sets', none))
    (honly : e.OnlyUser d s) (hs : s.Emits d cond value) (hvalid : ∀ s ∈ e.scripts, s.Validated)
    (hm : e.machine = some m) (hsized : m.Sized) (hlive : e.live ≤ Buffer.maxSize)
    (hv : sets[d]? = some v) (hholds : v.Holds size []) (hsize : size ≤ 2 ^ 24) :
    ∃ v', sets'[d]? = some v' ∧ v'.Holds size
      ((noted (Columns.cell e.columns cond) (Columns.cell e.columns value) e.live).take size) := by
  obtain ⟨c, hchunk, hc, hfits⟩ := hsized.fits
  obtain ⟨m', p, sets₁, count, hm', hupdate, -, -, hend⟩ := tick_ok htick
  obtain rfl : m = m' := Option.some.inj (hm.symm.trans hm')
  -- The scripts before find the data set and the columns as they are at the start.
  obtain ⟨before, after, hsplit, hbefore, hafter⟩ := honly.own_stage
  rw [hs.stage] at hsplit
  rw [hsplit] at hupdate
  obtain ⟨p₁, sets₂, hfirst, hrest⟩ := Progress.runScripts_append_ok hupdate
  obtain ⟨p₂, sets₃, hemit, hlast⟩ := Progress.runScripts_cons_ok hrest
  have hset₂ : sets₂[d]? = some v :=
    (Progress.runScripts_set hfirst fun s' hs' => (hbefore s' hs').2).trans hv
  have hfront : p₁.front = e.columns := Progress.runScripts_front hfirst
    fun s' hs' => .inr (hvalid s' (hbefore s' hs').1).keepsInputs
  have hchunk₁ : p₁.machine.chunkSize = c := (Progress.runScripts_chunkSize hfirst).trans hchunk
  obtain ⟨v', hv', hholds'⟩ := Progress.runScript_emits hs hchunk₁ hc (hfits _ hlive) hset₂
    hholds hsize hemit
  rw [hfront] at hholds'
  -- Those behind and the spawn scripts leave it alone.
  have hset₁ : sets₁[d]? = some v' :=
    (Progress.runScripts_set hlast fun s' hs' => (hafter s' hs').2.2).trans hv'
  refine ⟨v', ?_, hholds'⟩
  rcases hend with ⟨-, -, rfl⟩ | ⟨p₃, hspawn, -⟩
  · exact hset₁
  · have hother := honly.other_stage .spawn (by rw [hs.stage]; exact Stage.noConfusion)
    exact (Progress.runScripts_set hspawn hother).trans hset₁

theorem tick_receives {target : Nat} (htick : e.tick none sets = (e', sets', none))
    (honly : e.OnlyUser d s) (hs : s.Receives d target) (hvalid : ∀ s ∈ e.scripts, s.Validated)
    (halone : ∀ s ∈ e.scripts, s.stage = .spawn → d ∉ s.wiring.found → target ∉ s.wiring.outputs)
    (hspawnSet : e.spawnSet = some d) (hspawnCount : e.spawnCount = 0)
    (hm : e.machine = some m) (hsized : m.Sized) (hv : sets[d]? = some v)
    (hholds : v.Holds size events) (hsize : size ≤ 2 ^ 24) (hle : events.length ≤ size) {k : Nat}
    (hk : k = min events.length (e.capacity - e.survivors sets)) :
    e'.live = e.survivors sets + k ∧
      (∃ v', sets'[d]? = some v' ∧ v'.Holds size (events.take (events.length - k))) ∧
      (List.range k).map (fun j => Columns.cell e'.columns target (e.survivors sets + j)) =
        events.reverse.take k := by
  obtain ⟨c, hchunk, hc, hfits⟩ := hsized.fits
  obtain ⟨m', p, sets₁, count, hm', hupdate, hcompact, hcount, hend⟩ := tick_ok htick
  obtain rfl : m = m' := Option.some.inj (hm.symm.trans hm')
  have hother := honly.other_stage .update (by rw [hs.stage]; exact Stage.noConfusion)
  have hset₁ : sets₁[d]? = some v := (Progress.runScripts_set hupdate hother).trans hv
  have hlive := compact_live hm hupdate hcompact
  have hemitter : p.emitter = e := (Progress.runScripts_progress hupdate).1
  -- The tick asks for an instance for each event.
  have hdemand : p.compact.demand sets₁ = events.length := by
    have hspawner : p.compact.emitter = e := hemitter
    simp only [Progress.demand, hspawner, hspawnSet, Option.bind_some, hset₁, hspawnCount,
      hholds.counter, Int.zero_add]
    exact wrap_of_mem (by omega) (by omega)
  obtain rfl : count = k := by
    rw [hcount, hdemand, hlive, Emitter.room, hk]
    omega
  rw [← hlive] at hk ⊢
  rcases hend with ⟨hnone, rfl, rfl⟩ | ⟨p₂, hspawn, rfl⟩
  · subst hnone
    exact ⟨rfl, ⟨v, hset₁, by rwa [Nat.sub_zero, List.take_length]⟩, rfl⟩
  · obtain ⟨before, after, hsplit, hbefore, hafter⟩ := honly.own_stage
    rw [hs.stage] at hsplit hafter
    rw [hsplit] at hspawn
    obtain ⟨p₃, sets₃, hfirst, hrest⟩ := Progress.runScripts_append_ok hspawn
    obtain ⟨p₄, sets₄, hreceive, hlast⟩ := Progress.runScripts_cons_ok hrest
    have hset₃ : sets₃[d]? = some v :=
      (Progress.runScripts_set hfirst fun s' hs' => (hbefore s' hs').2).trans hset₁
    have hchunk₁ : p.machine.chunkSize = c := (Progress.runScripts_chunkSize hupdate).trans hchunk
    have hchunk₃ : p₃.machine.chunkSize = c := (Progress.runScripts_chunkSize hfirst).trans hchunk₁
    obtain ⟨⟨v', hv', hholds'⟩, htarget, hrows⟩ := Progress.runScript_receives hs hchunk₃ hc
      (hfits count (by rw [Buffer.maxSize]; omega)) hset₃ hholds hsize hle (by omega) hreceive
    have hset' : sets'[d]? = some v' :=
      (Progress.runScripts_set hlast fun s' hs' => (hafter s' hs').2.2).trans hv'
    have hback₄ : p₄.back.size = p₃.back.size := by
      have hkept := p₃.runScript_back_size sets₃ s p.compact.live count
      rwa [hreceive] at hkept
    have hcolumn := Progress.runScripts_column hlast (fun s' hs' => hvalid s' (hafter s' hs').1)
      (hback₄ ▸ htarget) fun s' hs' => by
        obtain ⟨hmem, hstage, hset⟩ := hafter s' hs'
        exact halone s' hmem hstage hset
    have hlive₂ : p₂.live = p.compact.live := (Progress.runScripts_progress hspawn).2
    refine ⟨congrArg (· + count) hlive₂, ⟨v', hset', hholds'⟩, ?_⟩
    rw [← hrows]
    refine List.map_congr_left fun j _ => ?_
    exact congrArg (·.getD (p.compact.live + j) Quad.zero) hcolumn

end Emitter

/-! ### Ticks -/

/-- However the steps of a tick that succeeds were mixed, it ends as if the emitters had been ticked one
after the other. -/
theorem World.TicksTo.in_order {w : World} {stop : Option Interruption} {s : Scene}
    (h : w.TicksTo stop s) (hw : w.Grouped) (hfailure : s.run.failure = none) :
    (w.solo (List.range w.emitters.length)).failure = none ∧
      s.run.emitters = (w.solo (List.range w.emitters.length)).emitters ∧
      s.run.sets = (w.solo (List.range w.emitters.length)).sets := by
  obtain ⟨hsteps, hover⟩ := h
  obtain ⟨hended, hsolo⟩ := (Scene.follows_of_steps hw hsteps).ended hover
    (Scene.reports_of_steps hsteps) hfailure
  -- One emitter after the other is one of the ways to mix the steps, and all ways end alike.
  have hworks := Scene.works_in_order hw hsolo _ (Nat.le_refl _)
  have hquiet := (Scene.quiet_of_works hw hsolo hworks).failure
  obtain ⟨hended', -⟩ := (Scene.follows_of_works hw hworks).ended (fun t ht => by
      obtain ⟨g, hg, rfl⟩ := List.mem_map.mp ht
      have hnone : g.filter (w.emitters.length ≤ ·) = [] :=
        List.filter_eq_nil_iff.mpr fun i hi => by simpa using hw.lt_length hg hi
      rw [Scene.ahead, hnone]
      rfl)
    (Scene.reports_of_steps (Relation.ReflTransGen.mono (fun _ _ => .work) _ _ hworks)) hquiet
  exact ⟨hquiet, hended.unique hw hended'⟩

/-- In a tick of the world a source notes events in a data set and a sink, which comes later, is spawned
from it. No other script uses the data set. -/
structure Handover (w : World) where
  set : Nat
  size : Nat
  view : OwnedView
  view_get : w.sets[set]? = some view
  size_eq : view.size = size
  size_le : size ≤ 2 ^ 24
  room : ∃ x b, view.vars[0]? = some (x, b) ∧ size ≤ b.size
  sourcePlace : Nat
  source : Emitter
  source_get : w.emitters[sourcePlace]? = some source
  sinkPlace : Nat
  sink : Emitter
  sink_get : w.emitters[sinkPlace]? = some sink
  later : sourcePlace < sinkPlace
  cond : Nat
  value : Nat
  emit : Script
  emit_only : source.OnlyUser set emit
  emits : emit.Emits set cond value
  target : Nat
  receive : Script
  receive_only : sink.OnlyUser set receive
  receives : receive.Receives set target
  others : ∀ i e, w.emitters[i]? = some e → i ≠ sourcePlace → i ≠ sinkPlace →
    ∀ s ∈ e.scripts, set ∉ s.wiring.found
  spawnSet : sink.spawnSet = some set
  spawnCount : sink.spawnCount = 0
  validated : ∀ s ∈ source.scripts ++ sink.scripts, s.Validated
  target_alone : ∀ s ∈ sink.scripts, s.stage = .spawn → set ∉ s.wiring.found →
    target ∉ s.wiring.outputs
  sourceMachine : Machine
  source_machine : source.machine = some sourceMachine
  source_sized : sourceMachine.Sized
  source_live : source.live ≤ Buffer.maxSize
  sinkMachine : Machine
  sink_machine : sink.machine = some sinkMachine
  sink_sized : sinkMachine.Sized

namespace Handover

variable {w : World} (h : Handover w)

def events : List Quad :=
  noted (Columns.cell h.source.columns h.cond) (Columns.cell h.source.columns h.value) h.source.live

def recorded : List Quad :=
  h.events.take h.size

def turn : Array OwnedView :=
  (w.solo (List.range h.sinkPlace)).sets

def survivors : Nat :=
  h.sink.survivors h.turn

def spawned : Nat :=
  min h.recorded.length (h.sink.capacity - h.survivors)

def received (sink' : Emitter) : List Quad :=
  (List.range h.spawned).map fun j => Columns.cell sink'.columns h.target (h.survivors + j)

theorem recorded_length_le : h.recorded.length ≤ h.size :=
  List.length_take_le ..

theorem turn_holds (hall : (w.solo (List.range w.emitters.length)).failure = none) :
    ∃ v, h.turn[h.set]? = some v ∧ v.Holds h.size h.recorded := by
  have hsource := (List.getElem?_eq_some_iff.mp h.source_get).1
  have hsink := (List.getElem?_eq_some_iff.mp h.sink_get).1
  -- Up to the source the data set is as it was reset.
  have hreset : (w.solo (List.range h.sourcePlace)).sets[h.set]? = some h.view.reset := by
    have hkept := World.solo_set (i := 0) (d := h.set) hall (Nat.zero_le _) (Nat.le_of_lt hsource)
      fun l e _ hl he => h.others l e he (Nat.ne_of_lt hl) (Nat.ne_of_lt (hl.trans h.later))
    rw [hkept]
    simp [World.solo, World.Run.group, Scene.start, h.view_get]
  have hempty : OwnedView.Holds h.view.reset h.size [] := by
    obtain ⟨x, b, hvar, hroom⟩ := h.room
    exact ⟨h.size_eq, rfl, x, b, hvar, hroom, rfl⟩
  obtain ⟨e', sets', htick, hsets, -⟩ := World.solo_step hall hsource h.source_get
  obtain ⟨v, hv, hholds⟩ := Emitter.tick_emits htick h.emit_only h.emits
    (fun s hs => h.validated s (List.mem_append_left _ hs)) h.source_machine h.source_sized
    h.source_live hreset hempty h.size_le
  refine ⟨v, ?_, hholds⟩
  rw [turn, World.solo_set (i := h.sourcePlace + 1) (d := h.set) hall h.later (Nat.le_of_lt hsink)
    fun l e hl hls he => h.others l e he (by omega) (by omega), hsets, hv]

theorem sink_receives (hall : (w.solo (List.range w.emitters.length)).failure = none) :
    ∃ sink' v, (w.solo (List.range w.emitters.length)).emitters[h.sinkPlace]? = some sink' ∧
      (w.solo (List.range w.emitters.length)).sets[h.set]? = some v ∧
      sink'.live = h.survivors + h.spawned ∧
      v.Holds h.size (h.recorded.take (h.recorded.length - h.spawned)) ∧
      h.received sink' = h.recorded.reverse.take h.spawned := by
  have hsink := (List.getElem?_eq_some_iff.mp h.sink_get).1
  obtain ⟨u, hu, hholds⟩ := h.turn_holds hall
  obtain ⟨sink', sets', htick, hsets, hget⟩ := World.solo_step hall hsink h.sink_get
  obtain ⟨hlive, ⟨v, hv, hrest⟩, hrows⟩ := Emitter.tick_receives htick h.receive_only h.receives
    (fun s hs => h.validated s (List.mem_append_right _ hs)) h.target_alone h.spawnSet h.spawnCount
    h.sink_machine h.sink_sized hu hholds h.size_le h.recorded_length_le (k := h.spawned) rfl
  refine ⟨sink', v, hget, ?_, hlive, hrest, hrows⟩
  rw [World.solo_set (i := h.sinkPlace + 1) (d := h.set) hall hsink (Nat.le_refl _)
    fun l e hl _ he => h.others l e he (by have := h.later; omega) (by omega), hsets, hv]

end Handover

/-- In a tick that succeeds, events are handed over exactly once: as many are recorded as the data set
has room for, as many instances are spawned as the sink has room for, these hold the last events, the
last one first, and what none of them holds is still in the data set. -/
theorem events_handed_over {w w₀ w₁ w₂ : World} (hbind : w.bind = (w₀, none))
    (hreached : Reached w₀ w₁) (h : Handover w₁) {stop : Option Interruption} {s : Scene}
    (hticks : w₁.TicksTo stop s) (hsucceeds : w₁.conclude s.run = (w₂, none)) :
    ∃ sink' v, w₂.emitters[h.sinkPlace]? = some sink' ∧ w₂.sets[h.set]? = some v ∧
      h.recorded.length = min h.size ((List.range h.source.live).countP fun i =>
        (Columns.cell h.source.columns h.cond i).x.isPositive) ∧
      (∃ u, h.turn[h.set]? = some u ∧ u.Holds h.size h.recorded) ∧
      sink'.live = h.survivors + h.spawned ∧
      h.received sink' = h.recorded.reverse.take h.spawned ∧
      h.recorded = h.recorded.take (h.recorded.length - h.spawned) ++ (h.received sink').reverse ∧
      v.Holds h.size (h.recorded.take (h.recorded.length - h.spawned)) ∧
      v.counter = (h.recorded.length - h.spawned : Nat) ∧
      (h.recorded.length ≤ h.sink.capacity - h.survivors →
        h.received sink' = h.recorded.reverse) := by
  obtain ⟨-, hw⟩ := hreached.grouped hbind
  have hfailure := World.failure_of_conclude hsucceeds
  obtain ⟨hall, hemitters, hsets⟩ := hticks.in_order hw hfailure
  obtain ⟨sink', v, hget, hv, hlive, hholds, hrows⟩ := h.sink_receives hall
  rw [World.conclude_of_failure_none hfailure, hemitters, hsets] at hsucceeds
  obtain rfl := (Prod.mk.inj hsucceeds).1
  have hspawned : h.spawned ≤ h.recorded.length := Nat.min_le_left ..
  refine ⟨sink', v, hget, hv, ?_, h.turn_holds hall, hlive, hrows, ?_, hholds, ?_, ?_⟩
  · rw [Handover.recorded, List.length_take, Handover.events, noted, List.length_map,
      ← List.countP_eq_length_filter]
  · rw [hrows, List.take_reverse, List.reverse_reverse, List.take_append_drop]
  · rw [hholds.counter, List.length_take, Nat.min_eq_left (Nat.sub_le ..)]
  · intro hroom
    have hk : h.spawned = h.recorded.length := Nat.min_eq_left hroom
    rw [hrows, hk, ← List.length_reverse, List.take_length]

/-! ### A world with a source and a sink -/

/-- `acquireindex t0, s0, i0` and `shareddatawrite s0, v0, t0, i1`. -/
def flaring : Program :=
  { code := some [54, 0, 0, 64, 0, 59, 0, 0, 0, 0, 65, 0]
    inputs := [Text.lit "heat", Text.lit "x"]
    sets := [⟨Text.lit "events", [Text.lit "x"]⟩] }

/-- `consumeindex t0, s0, c0`, `sub t1, t0, c0` and `shareddataread o0, s0, v0, t1`. -/
def settling : Program :=
  { code := some [56, 0, 1, 0, 0, 2, 2, 0, 0, 1, 58, 0, 0, 0, 1, 128, 0]
    constants := [⟨Text.lit "one", Quad.splat Lane.one⟩]
    outputs := [Text.lit "x"]
    sets := [⟨Text.lit "events", [Text.lit "x"]⟩] }

def flares (machine : Option Machine) (wiring : Wiring) : Emitter :=
  { Emitter.new (Text.lit "flares") 4 [Text.lit "heat", Text.lit "x"] with
    scripts := [{ name := Text.lit "flare", stage := .update, program := some flaring, wiring }]
    machine }

def ashes (machine : Option Machine) (wiring : Wiring) (spawnSet : Option Nat) : Emitter :=
  { Emitter.new (Text.lit "ashes") 1 [Text.lit "x"] with
    spawnFrom := Text.lit "events"
    scripts := [{ name := Text.lit "settle", stage := .spawn, program := some settling, wiring }]
    machine
    spawnSet }

def fire (o : Options) : World :=
  ((((World.new o).addDataSet sparkEvents).1.addEmitter (flares none {})).1.addEmitter
    (ashes none {} none)).1

def flaresWiring : Wiring :=
  ⟨⟨[], by decide⟩, [0, 1], [], [some 0]⟩

def ashesWiring : Wiring :=
  ⟨⟨settling.constants, by decide⟩, [], [0], [some 0]⟩

def burning (o : Options) (m : Nat → Machine) : World :=
  { World.new o with
    emitters := [flares (some (m 0)) flaresWiring, ashes (some (m 1)) ashesWiring (some 0)]
    sets := #[sparkEvents]
    groups := [[0, 1]]
    bound := true }

theorem built_fire (o : Options) : Built o (fire o) :=
  (((Built.new.addDataSet (Text.lit "events") 2 [Text.lit "x"]).addEmitter (Text.lit "flares") 4
    [Text.lit "heat", Text.lit "x"] 0 [] [] [] (flares none {}).scripts)).addEmitter (Text.lit "ashes") 1
    [Text.lit "x"] 0 (Text.lit "events") [] [] (ashes none {} none).scripts

theorem bind_fire {o : Options} {m : Nat → Machine}
    (hm : ∀ i : Nat, Machine.new o.chunkSize (wrap (o.seed + i)) o.noise = m i)
    (hexists : ∀ i, (m i).canExist = true) : (fire o).bind = (burning o m, none) := by
  have hflares : (flares none {}).bind o #[sparkEvents] 0 =
      (flares (some (m 0)) flaresWiring, none) := by
    have hscripts : bindScripts (flares (some (m 0)) {}) #[sparkEvents] (flares none {}).scripts =
        ((flares none flaresWiring).scripts, none) := by
      cbv
    exact Emitter.bind_of_steps (hm 0) (hexists 0) rfl rfl rfl hscripts
  have hashes : (ashes none {} none).bind o #[sparkEvents] 1 =
      (ashes (some (m 1)) ashesWiring (some 0), none) := by
    have hspawn : (ashes (some (m 1)) {} none).bindSpawnSet #[sparkEvents] =
        (ashes (some (m 1)) {} (some 0), none) := by
      cbv
    have hscripts : bindScripts (ashes (some (m 1)) {} (some 0)) #[sparkEvents]
        (ashes none {} none).scripts = ((ashes none ashesWiring none).scripts, none) := by
      cbv
    exact Emitter.bind_of_steps (hm 1) (hexists 1) rfl hspawn rfl hscripts
  have hworld : fire o = { World.new o with
      emitters := [flares none {}, ashes none {} none], sets := #[sparkEvents] } := by
    cbv
  have hemitters : bindEmitters o #[sparkEvents] 0 [flares none {}, ashes none {} none] =
      ((burning o m).emitters, none) :=
    bindEmitters_cons hflares (bindEmitters_cons hashes rfl)
  have huses : (burning o m).emitters.map Emitter.uses = [[0], [0, 0]] := rfl
  have hgroups : groups [[0], [0, 0]] = [[0, 1]] := by
    cbv
  rw [hworld, World.bind]
  simp only [World.new, hemitters, huses, hgroups]
  rfl

def ember (i : Nat) : Quad :=
  Quad.splat (Lane.ofInt i)

def blaze : Columns :=
  #[#[ember 1, ember 0, ember 1, ember 1], #[ember 1, ember 2, ember 3, ember 4]]

def blazing (o : Options) (m : Nat → Machine) : World :=
  { burning o m with
    emitters := [
      { flares (some (m 0)) flaresWiring with columns := blaze, live := 4 },
      ashes (some (m 1)) ashesWiring (some 0)] }

theorem validated_flares (m : Option Machine) : ∀ s ∈ (flares m flaresWiring).scripts, s.Validated := by
  have hvalid : flaring.validate = .ok () := by cbv
  intro s hs
  obtain rfl := List.mem_singleton.mp hs
  exact ⟨_, rfl, hvalid⟩

theorem validated_ashes (m : Option Machine) (spawnSet : Option Nat) :
    ∀ s ∈ (ashes m ashesWiring spawnSet).scripts, s.Validated := by
  have hvalid : settling.validate = .ok () := by cbv
  intro s hs
  obtain rfl := List.mem_singleton.mp hs
  exact ⟨_, rfl, hvalid⟩

theorem flare_emits (m : Option Machine) :
    ∀ s ∈ (flares m flaresWiring).scripts, s.Emits 0 0 1 := by
  have hbody : Code.body flaring.bytes = emission 0 0 0 64 65 := by cbv
  intro s hs
  obtain rfl := List.mem_singleton.mp hs
  exact ⟨rfl, rfl, 64, 65, 0, 1, hbody, by decide, rfl, by decide, rfl⟩

theorem settle_receives (m : Option Machine) (spawnSet : Option Nat) :
    ∀ s ∈ (ashes m ashesWiring spawnSet).scripts, s.Receives 0 0 := by
  have hbody : Code.body settling.bytes = reception 0 := by cbv
  intro s hs
  obtain rfl := List.mem_singleton.mp hs
  exact ⟨rfl, rfl, hbody, ⟨_, rfl, rfl⟩, rfl⟩

def blazingHandover (o : Options) (m : Nat → Machine) (hm : ∀ i, (m i).Sized) :
    Handover (blazing o m) where
  set := 0
  size := 2
  view := sparkEvents
  view_get := rfl
  size_eq := rfl
  size_le := by decide
  room := ⟨_, _, rfl, by decide⟩
  sourcePlace := 0
  source := _
  source_get := rfl
  sinkPlace := 1
  sink := _
  sink_get := rfl
  later := by decide
  cond := 0
  value := 1
  emit := _
  emit_only := rfl
  emits := flare_emits (some (m 0)) _ (List.mem_singleton.mpr rfl)
  target := 0
  receive := _
  receive_only := rfl
  receives := settle_receives (some (m 1)) (some 0) _ (List.mem_singleton.mpr rfl)
  others := by
    rintro (_ | _ | i) e he hsource hsink
    · exact absurd rfl hsource
    · exact absurd rfl hsink
    · cases he
  spawnSet := rfl
  spawnCount := rfl
  validated := by
    intro s hs
    rcases List.mem_append.mp hs with hs | hs
    · exact validated_flares (some (m 0)) s hs
    · exact validated_ashes (some (m 1)) (some 0) s hs
  target_alone := by
    intro s hs _ hset
    obtain rfl := List.mem_singleton.mp hs
    exact absurd (List.mem_singleton.mpr rfl) hset
  sourceMachine := m 0
  source_machine := rfl
  source_sized := hm 0
  source_live := (by decide : 4 ≤ Buffer.maxSize)
  sinkMachine := m 1
  sink_machine := rfl
  sink_sized := hm 1

theorem reached_blazing (o : Options) (m : Nat → Machine) : Reached (burning o m) (blazing o m) :=
  .edit .refl rfl rfl rfl

theorem sound_blazing {o : Options} {m : Nat → Machine} {extents : Extents} {roomy : Prop}
    (h : (burning o m).Sound extents roomy) : (blazing o m).Sound extents roomy := by
  have hfits : blaze.Fits 2 4 := Columns.fits_iff.mpr ⟨rfl, by simp [blaze]⟩
  refine ⟨rfl, ?_, h.sets⟩
  intro e he
  rcases List.mem_cons.mp he with rfl | he
  · obtain ⟨-, -, hmachine, halive, hscripts⟩ := h.emitters _ (List.mem_cons_self ..)
    exact ⟨hfits, Nat.le_refl 4, hmachine, halive, hscripts⟩
  · exact h.emitters e (List.mem_cons_of_mem _ he)

theorem sized_threes (seed : Int) (noise : NoiseTable) : (Machine.new 3 seed noise).Sized := by
  refine ⟨by simp [Machine.new], by simp [Machine.new], ?_⟩
  simp only [Machine.canExist, Machine.scratchSize, Machine.new]
  decide

theorem blazing_handed_over :
    ∃ (w₀ w₁ w₂ : World) (h : Handover w₁) (s : Scene) (sink' : Emitter) (v : OwnedView),
      (fire { chunkSize := 3 }).bind = (w₀, none) ∧ Reached w₀ w₁ ∧ w₁.TicksTo none s ∧
      w₁.conclude s.run = (w₂, none) ∧ h.source.live = 4 ∧ h.recorded = [ember 1, ember 3] ∧
      h.survivors = 0 ∧ h.spawned = 1 ∧ w₂.emitters[1]? = some sink' ∧ w₂.sets[0]? = some v ∧
      sink'.live = 1 ∧ Columns.cell sink'.columns 0 0 = ember 3 ∧ v.counter = 1 := by
  -- In chunks of three, three of the four flares are hot, there is room for two events, and one
  -- ash takes the second of them.
  let m (i : Nat) : Machine := Machine.new 3 (wrap (0 + i)) NoiseTable.standard
  have hsized : ∀ i, (m i).Sized := fun i => sized_threes _ _
  have hbind := bind_fire (o := { chunkSize := 3 }) (m := m) (fun _ => rfl) fun i => (hsized i).scratch
  have hfresh := World.fresh_of_built (built_fire { chunkSize := 3 })
  have hsound := (hfresh.bind hbind).1
  obtain ⟨w₂, htick, -⟩ := (sound_blazing hsound).tick fun _ => by decide
  obtain ⟨s, hticks, hs⟩ := World.tick_ticksTo (sound_blazing hsound).bound none
  rw [htick] at hs
  have hreached := reached_blazing { chunkSize := 3 } m
  let h := blazingHandover { chunkSize := 3 } m hsized
  have hrecorded : h.recorded = [ember 1, ember 3] := by
    rfl
  have hsurvivors : h.survivors = 0 := rfl
  have hspawned : h.spawned = 1 := by
    rw [Handover.spawned, hrecorded, hsurvivors]
    rfl
  obtain ⟨sink', v, hget, hv, -, -, hlive, hrows, -, -, hcounter, -⟩ := events_handed_over hbind hreached
    h hticks hs
  rw [hrecorded, hspawned] at hrows hcounter
  rw [hsurvivors, hspawned] at hlive
  rw [Handover.received, hspawned, hsurvivors] at hrows
  exact ⟨_, _, w₂, h, s, sink', v, hbind, hreached, hticks, hs, rfl, hrecorded, hsurvivors, hspawned,
    hget, hv, hlive, (List.cons.inj hrows).1, hcounter⟩

end Simulation
end Quadlane
