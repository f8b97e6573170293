import Quadlane.Proofs.Binding

/-! After a world was bound, no call fails or leaves the bounds of the world. The invariant is that
every emitter is bound and within its capacity and every cursor within its view: binding establishes
it, and spawning, ticking and the edits that need no binding keep it. A script can fault inside of a
tick only if the machines have no room for their temporaries, and then the invariant is kept too. -/

namespace Quadlane.Simulation

/-- Worlds that are made by adding new data sets and new emitters. -/
inductive Built (o : Options) : World → Prop
  | new : Built o (World.new o)
  | addDataSet {w : World} (h : Built o w) (name : Text) (size : Int) (vars : List Text) :
    Built o (w.addDataSet (newDataSet name size vars)).1
  | addEmitter {w : World} (h : Built o w) (name : Text) (capacity : Int) (attributes : List Text)
    (spawnCount : Int) (spawnFrom alive : Text) (defaults : Bindings) (scripts : List Script) :
    Built o (w.addEmitter { Emitter.new name capacity attributes with
      spawnCount, spawnFrom, alive, defaults, scripts }).1

inductive Call where
  | spawn (emitter : Text) (n : Int)
  | tick
  | run (n : Nat)
  | configure (emitter : Text) (spawnCount : Int) (spawnFrom alive : Text) (defaults : Bindings)
  | setConstant (emitter : Text) (script : Nat) (name : Text) (value : Quad)

def Call.ticks : Call → Nat
  | tick => 1
  | run n => n
  | _ => 0

inductive CallError where
  /-- There are no rows for the instances that are spawned. -/
  | noRows
  | world (e : WorldError)
  deriving DecidableEq

def Emitter.canSpawn (e : Emitter) (n : Int) : Bool :=
  Columns.hasRows e.columns e.attributes.length (e.live + e.room e.live n)

/-! ### Parts of a world -/

theorem Script.WiredTo.setConstant {s : Script} {p : Program} {width : Nat} {extents : Extents}
    (h : s.WiredTo p width extents) (name : Text) (value : Quad) :
    (s.setConstant name value).WiredTo p width extents :=
  ⟨h.program, h.valid, h.constants, h.inputs, h.inputColumns, h.outputs, h.outputColumns,
    h.setCount, h.sets⟩

theorem Settled.reset {sets : Array OwnedView} {extents : Extents} (h : Settled sets extents) :
    Settled (sets.map View.reset) extents := by
  refine ⟨?_, ?_⟩
  · rw [← h.extents, Array.map_map]
    rfl
  · intro v hv
    obtain ⟨u, hu, rfl⟩ := Array.mem_map.mp hv
    obtain ⟨hlower, hupper, hsize⟩ := h.inRange u hu
    exact ⟨Int.le_refl 0, Int.le_trans hlower hupper, hsize⟩

def Filled (extents : Extents) : Prop :=
  ∀ x ∈ extents, ∀ y ∈ x.2.2, y.2 = x.2.1.toNat

theorem inRange_newDataSet (name : Text) (size : Int) (vars : List Text) :
    (newDataSet name size vars).InRange := by
  have hmax : (0 : Int) ≤ View.maxSize := by decide
  refine ⟨Int.le_refl 0, ?_, ?_⟩ <;> simp only [newDataSet, View.new] <;> omega

theorem filled_newDataSet (name : Text) (size : Int) (vars : List Text) :
    ∀ y ∈ (newDataSet name size vars).extent.2.2,
      y.2 = (newDataSet name size vars).extent.2.1.toNat := by
  intro y hy
  simp only [newDataSet, OwnedView.extent, Array.mem_map, List.mem_toArray, List.mem_map] at hy
  obtain ⟨_, ⟨_, -, rfl⟩, rfl⟩ := hy
  exact Array.size_replicate

theorem Emitter.pooled_new (name : Text) (capacity : Int) (attributes : List Text) :
    (Emitter.new name capacity attributes).Pooled := by
  refine ⟨Columns.fits_iff.mpr ⟨?_, ?_⟩, Nat.zero_le _⟩
  · simp [Emitter.new]
  · simp [Emitter.new]

namespace World

def call (w : World) : Call → World × Option CallError
  | .spawn name n =>
    if w.emitters.all fun e => e.name ≠ name || e.canSpawn n then
      (w.modifyEmitter name fun e => (e.spawn n).2, none)
    else (w, some .noRows)
  | .tick => (w.advance none).map id (·.map .world)
  | .run n => (w.run none n).map id (·.map .world)
  | .configure name spawnCount spawnFrom alive defaults =>
    (w.modifyEmitter name fun e => { e with spawnCount, spawnFrom, alive, defaults }, none)
  | .setConstant name script constant value =>
    (w.modifyEmitter name fun e =>
      { e with scripts := e.scripts.modify script (·.setConstant constant value) }, none)

def calls (w : World) : List Call → World × Option CallError
  | [] => (w, none)
  | c :: rest =>
    match w.call c with
    | (w, some e) => (w, some e)
    | (w, none) => w.calls rest

/-- What stays as it is from the start: names, attributes and capacities, and the extents of the
data sets. -/
def outline (w : World) : List (Text × List Text × Nat) × Extents :=
  (w.emitters.map Emitter.outline, w.sets.map OwnedView.extent)

structure Sound (w : World) (extents : Extents) (roomy : Prop) : Prop where
  bound : w.bound = true
  emitters : ∀ e ∈ w.emitters, e.Bound extents roomy
  sets : Settled w.sets extents

structure Advances (w w' : World) (extents : Extents) (roomy : Prop) (ticks : Nat) : Prop where
  sound : w'.Sound extents roomy
  ticks : w'.ticks = w.ticks + ticks
  emitters : w'.emitters.map Emitter.outline = w.emitters.map Emitter.outline

variable {w w' w'' : World} {extents : Extents} {roomy : Prop}

theorem Sound.refl (h : w.Sound extents roomy) : w.Advances w extents roomy 0 :=
  ⟨h, rfl, rfl⟩

theorem Advances.trans {m n : Nat} (h : w.Advances w' extents roomy m)
    (h' : w'.Advances w'' extents roomy n) : w.Advances w'' extents roomy (m + n) :=
  ⟨h'.sound, by rw [h'.ticks, h.ticks, Nat.add_assoc], h'.emitters.trans h.emitters⟩

/-! ### Edits -/

theorem Sound.modifyEmitter (h : w.Sound extents roomy) (name : Text) {f : Emitter → Emitter}
    (hf : ∀ e, e.Bound extents roomy → (f e).Bound extents roomy ∧ (f e).outline = e.outline) :
    w.Advances (w.modifyEmitter name f) extents roomy 0 := by
  refine ⟨⟨h.bound, ?_, h.sets⟩, rfl, ?_⟩
  · intro e he
    obtain ⟨t, ht, rfl⟩ := List.mem_map.mp he
    split
    · exact (hf t (h.emitters t ht)).1
    · exact h.emitters t ht
  · simp only [World.modifyEmitter, List.map_map]
    refine List.map_congr_left fun e he => ?_
    simp only [Function.comp_apply]
    split
    · exact (hf e (h.emitters e he)).2
    · rfl

/-! ### Ticks -/

structure Run.Sound (r : Run) (before : List Emitter) (extents : Extents) (roomy : Prop) : Prop where
  stop : r.stop = none
  failure : Excused roomy r.failure
  emitters : ∀ e ∈ r.emitters, e.Bound extents roomy
  outline : r.emitters.map Emitter.outline = before.map Emitter.outline
  sets : Settled r.sets extents

theorem Run.Sound.set {r : Run} {before : List Emitter} {i : Nat} {e e' : Emitter}
    {sets' : Array OwnedView} (h : r.Sound before extents roomy) (he : r.emitters[i]? = some e)
    (hbound : e'.Bound extents roomy) (houtline : e'.outline = e.outline)
    (hsets : Settled sets' extents) :
    Run.Sound { r with emitters := r.emitters.set i e', sets := sets' } before extents roomy := by
  refine ⟨h.stop, h.failure, ?_, ?_, hsets⟩
  · intro t ht
    rcases List.mem_or_eq_of_mem_set ht with ht | rfl
    · exact h.emitters t ht
    · exact hbound
  · -- The emitter goes back to its own place and has the outline that stood there.
    have hi : (r.emitters.map Emitter.outline)[i]? = some e.outline := by
      rw [List.getElem?_map, he, Option.map_some]
    obtain ⟨_, hget⟩ := List.getElem?_eq_some_iff.mp hi
    rw [← h.outline, List.map_set, houtline, ← hget, List.set_getElem_self]

theorem Run.Sound.fault {r : Run} {before : List Emitter} (h : r.Sound before extents roomy)
    (hroom : ¬roomy) : (r.fail .fault).Sound before extents roomy := by
  refine ⟨h.stop, .inr ⟨?_, hroom⟩, h.emitters, h.outline, h.sets⟩
  rcases h.failure with hfailure | ⟨hfailure, -⟩ <;> rw [Run.fail, hfailure] <;> rfl

theorem Run.Sound.group {r : Run} {before : List Emitter} (h : r.Sound before extents roomy)
    (indices : List Nat) : (r.group indices).Sound before extents roomy := by
  induction indices generalizing r with
  | nil => exact h
  | cons i indices ih =>
    unfold Run.group
    cases he : r.emitters[i]? with
    | none => exact ih h
    | some e =>
      obtain ⟨e', sets', f, htick, hf, ⟨hbound, houtline⟩, hsets⟩ :=
        (h.emitters e (List.mem_of_getElem? he)).tick h.sets
      have hset := h.set he hbound houtline hsets
      simp only [h.stop] at hset ⊢
      rcases hf with rfl | ⟨rfl, hroom⟩
      · simp only [htick]
        exact ih hset
      · simp only [htick]
        exact hset.fault hroom

theorem Run.Sound.groups {r : Run} {before : List Emitter} (h : r.Sound before extents roomy)
    (groups : List (List Nat)) : (groups.foldl Run.group r).Sound before extents roomy := by
  induction groups generalizing r with
  | nil => exact h
  | cons group groups ih => exact ih (h.group group)

/-- A tick succeeds, or it faults and only the count of ticks is behind. -/
theorem Sound.tick_cases (h : w.Sound extents roomy) :
    ∃ w', w.Advances w' extents roomy 1 ∧ (w.tick none = (w', none) ∨
      w.tick none = ({ w' with ticks := w.ticks }, some (.tick w.ticks .fault)) ∧ ¬roomy) := by
  -- The groups start from views that are reset; nothing has failed yet.
  have hstart : (Run.mk w.emitters (w.sets.map View.reset) none none).Sound w.emitters extents roomy :=
    ⟨rfl, .inl rfl, h.emitters, rfl, h.sets.reset⟩
  obtain ⟨-, hfailure, hemitters, houtline, hsets⟩ := hstart.groups w.groups
  rw [World.tick, if_pos h.bound, tickBound]
  generalize w.groups.foldl Run.group _ = r at *
  refine ⟨{ w with emitters := r.emitters, sets := r.sets, ticks := w.ticks + 1 },
    ⟨⟨h.bound, hemitters, hsets⟩, rfl, houtline⟩, ?_⟩
  rcases hfailure with hfailure | ⟨hfailure, hroom⟩
  · left
    simp only [hfailure]
  · right
    simp only [hfailure]
    exact ⟨trivial, hroom⟩

theorem Sound.tick (h : w.Sound extents roomy) (hroom : roomy) :
    ∃ w', w.tick none = (w', none) ∧ w.Advances w' extents roomy 1 := by
  obtain ⟨w', hw', htick | ⟨-, hfull⟩⟩ := h.tick_cases
  · exact ⟨w', htick, hw'⟩
  · exact absurd hroom hfull

theorem Sound.advance (h : w.Sound extents roomy) :
    ∃ w', w.advance none = (w', none) ∧ w.Advances w' extents roomy 1 := by
  obtain ⟨w', hw', htick | ⟨htick, -⟩⟩ := h.tick_cases
  · exact ⟨w', by rw [World.advance, htick], hw'⟩
  · refine ⟨w', ?_, hw'⟩
    rw [World.advance, htick]
    simp only [← hw'.ticks]

theorem Sound.run (h : w.Sound extents roomy) (n : Nat) :
    ∃ w', w.run none n = (w', none) ∧ w.Advances w' extents roomy n := by
  induction n generalizing w with
  | zero => exact ⟨w, rfl, h.refl⟩
  | succ n ih =>
    obtain ⟨w₁, hadvance, hfirst⟩ := h.advance
    obtain ⟨w₂, hrun, hrest⟩ := ih hfirst.sound
    refine ⟨w₂, ?_, Nat.add_comm 1 n ▸ hfirst.trans hrest⟩
    simp only [World.run, hadvance, hrun]

/-! ### Calls -/

theorem calls_cons {c : Call} {rest : List Call} (h : w.call c = (w', none)) :
    w.calls (c :: rest) = w'.calls rest := by
  rw [calls, h]

theorem Sound.call (h : w.Sound extents roomy) (c : Call) :
    ∃ w', w.call c = (w', none) ∧ w.Advances w' extents roomy c.ticks := by
  cases c with
  | spawn name n =>
    -- Also the emitters of other names have the rows, so the names need not be told apart.
    have hrows : (w.emitters.all fun e => e.name ≠ name || e.canSpawn n) = true := by
      rw [List.all_eq_true]
      intro e he
      have hbound := h.emitters e he
      have hcan : e.canSpawn n = true :=
        hbound.columns.hasRows (Nat.le_refl _) (e.room_le e.live hbound.live n)
      rw [hcan, Bool.or_true]
    simp only [World.call, if_pos hrows]
    exact ⟨_, rfl, h.modifyEmitter name fun e he => he.spawn n⟩
  | tick =>
    obtain ⟨w', hadvance, hw'⟩ := h.advance
    exact ⟨w', by simp only [World.call, hadvance, Prod.map, Option.map_none, id], hw'⟩
  | run n =>
    obtain ⟨w', hrun, hw'⟩ := h.run n
    exact ⟨w', by simp only [World.call, hrun, Prod.map, Option.map_none, id], hw'⟩
  | configure name spawnCount spawnFrom alive defaults =>
    refine ⟨_, rfl, h.modifyEmitter name fun e he => ⟨?_, rfl⟩⟩
    exact ⟨he.columns, he.live, he.machine, he.alive, he.scripts⟩
  | setConstant name script constant value =>
    refine ⟨_, rfl, h.modifyEmitter name fun e he => ⟨?_, rfl⟩⟩
    refine ⟨he.columns, he.live, he.machine, he.alive, ?_⟩
    intro s hs
    obtain ⟨k, hk⟩ := List.mem_iff_getElem?.mp hs
    rw [List.getElem?_modify] at hk
    obtain ⟨t, ht, rfl⟩ := Option.map_eq_some_iff.mp hk
    obtain ⟨program, hwired⟩ := he.scripts t (List.mem_of_getElem? ht)
    refine ⟨program, ?_⟩
    split
    · exact hwired.setConstant constant value
    · exact hwired

theorem Sound.calls (h : w.Sound extents roomy) (calls : List Call) :
    ∃ w', w.calls calls = (w', none) ∧
      w.Advances w' extents roomy (calls.map Call.ticks).sum := by
  induction calls generalizing w with
  | nil => exact ⟨w, rfl, h.refl⟩
  | cons c calls ih =>
    obtain ⟨w₁, hcall, hfirst⟩ := h.call c
    obtain ⟨w₂, hcalls, hrest⟩ := ih hfirst.sound
    exact ⟨w₂, (calls_cons hcall).trans hcalls, hfirst.trans hrest⟩

/-! ### Worlds that are built -/

structure Fresh (w : World) (o : Options) : Prop where
  options : w.options = o
  emitters : ∀ e ∈ w.emitters, e.Pooled
  inRange : ∀ v ∈ w.sets, v.InRange
  filled : Filled (w.sets.map OwnedView.extent)

theorem fresh_of_built {o : Options} (h : Built o w) : w.Fresh o := by
  induction h with
  | new => exact ⟨rfl, by simp [World.new], by simp [World.new], by simp [World.new, Filled]⟩
  | addDataSet _ name size vars ih =>
    unfold World.addDataSet
    split
    · exact ih
    · refine ⟨ih.options, ih.emitters, ?_, ?_⟩
      · intro v hv
        rcases Array.mem_push.mp hv with hv | rfl
        · exact ih.inRange v hv
        · exact inRange_newDataSet name size vars
      · intro x hx
        rw [Array.map_push] at hx
        rcases Array.mem_push.mp hx with hx | rfl
        · exact ih.filled x hx
        · exact filled_newDataSet name size vars
  | addEmitter _ name capacity attributes _ _ _ _ _ ih =>
    unfold World.addEmitter
    split
    · exact ih
    · refine ⟨ih.options, ?_, ih.inRange, ih.filled⟩
      intro e he
      rcases List.mem_append.mp he with he | he
      · exact ih.emitters e he
      · rw [List.mem_singleton.mp he]
        obtain ⟨hcolumns, hlive⟩ := Emitter.pooled_new name capacity attributes
        exact ⟨hcolumns, hlive⟩

theorem Fresh.bind {o : Options} (h : w.Fresh o) (hbind : w.bind = (w', none)) :
    w'.Sound (w.sets.map OwnedView.extent) o.Roomy ∧ w'.outline = w.outline := by
  unfold World.bind at hbind
  split at hbind
  · simp at hbind
  · next emitters hemitters =>
    obtain rfl := (Prod.mk.inj hbind).1
    rw [h.options] at hemitters
    obtain ⟨hbound, houtline⟩ := bindEmitters_ok h.emitters hemitters
    exact ⟨⟨rfl, hbound, rfl, h.inRange⟩, Prod.ext houtline rfl⟩

end World

/-! ### Machines without room for temporaries -/

def idle : Script :=
  { name := Text.lit "idle", stage := .update, program := some { code := some [0] } }

def sparkEvents : OwnedView :=
  newDataSet (Text.lit "events") 2 [Text.lit "x"]

end Quadlane.Simulation
