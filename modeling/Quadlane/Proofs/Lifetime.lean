import Quadlane.Proofs.Handover
import Quadlane.Proofs.Rebinding

/-! The life of a world: it is built, edited, bound and ticked, in any order and any number of times;
bindings may fail, and ticks may be interrupted or fail anywhere. Throughout, every column is as long as
its emitter can hold instances. After a binding that succeeds, and as long as nobody changes what it
resolved, every script is wired to columns and data sets that exist. Whether the machines have room for
their temporaries is not asked here; without it a tick fails, and an emitter that fails stays fit for
the next tick. -/

namespace Quadlane.Simulation

/-! ### Emitters that can be ticked -/

structure Emitter.Sized (e : Emitter) : Prop extends e.Pooled where
  capacity : e.capacity < 2 ^ 63

structure Emitter.Ready (e : Emitter) (extents : Extents) : Prop extends e.Sized where
  machine : ∃ m, e.machine = some m ∧ 1 ≤ m.chunkSize ∧ m.chunkSize < 2 ^ 63
  alive : ∀ a, e.aliveColumn = some a → a < e.attributes.length
  scripts : ∀ s ∈ e.scripts, ∃ program, s.WiredTo program e.attributes.length extents

theorem Script.WiredTo.validated {s : Script} {p : Program} {width : Nat} {extents : Extents}
    (h : s.WiredTo p width extents) : s.Validated :=
  ⟨p, h.program, h.valid⟩

/-- What a tick cannot take from an emitter, for it sets the columns, the count and the machine only. -/
structure Emitter.Lasting (R : Emitter → Prop) : Prop where
  pooled : ∀ e, R e → e.Pooled
  set : ∀ e m m' columns live, R e → e.machine = some m → m'.chunkSize = m.chunkSize →
    Columns.Fits columns e.attributes.length e.capacity → live ≤ e.capacity →
    R { e with columns, live, machine := some m' }

theorem Emitter.lasting_sized : Emitter.Lasting Emitter.Sized where
  pooled _ h := h.toPooled
  set _ _ _ _ _ h _ _ hcolumns hlive := ⟨⟨hcolumns, hlive⟩, h.capacity⟩

theorem Emitter.lasting_ready (extents : Extents) : Emitter.Lasting (·.Ready extents) where
  pooled _ h := h.toPooled
  set e m m' columns live h hm hchunk hcolumns hlive := by
    obtain ⟨m₀, hm₀, hlower, hupper⟩ := h.machine
    obtain rfl : m₀ = m := Option.some.inj (hm₀.symm.trans hm)
    rw [← hchunk] at hlower hupper
    exact ⟨⟨⟨hcolumns, hlive⟩, h.capacity⟩, ⟨m', rfl, hlower, hupper⟩, h.alive, h.scripts⟩

structure Progress.During (R : Emitter → Prop) (p : Progress) : Prop where
  emitter : R p.emitter
  front : Columns.Fits p.front p.emitter.attributes.length p.emitter.capacity
  back : Columns.Fits p.back p.emitter.attributes.length p.emitter.capacity
  live : p.live ≤ p.emitter.capacity
  machine : ∃ m, p.emitter.machine = some m ∧ p.machine.chunkSize = m.chunkSize

abbrev Progress.Ready (p : Progress) (extents : Extents) : Prop :=
  p.During (·.Ready extents)

namespace Progress.During

variable {R : Emitter → Prop} {p : Progress} {sets : Array OwnedView} {s : Script}
variable {first count : Nat}

theorem start (hR : Emitter.Lasting R) {e : Emitter} (h : R e) {m : Machine}
    (hm : e.machine = some m) : (Progress.start e m).During R :=
  ⟨h, (hR.pooled e h).columns, (hR.pooled e h).columns, (hR.pooled e h).live, m, hm, rfl⟩

theorem runScript (h : p.During R) (sets : Array OwnedView) (s : Script) (first count : Nat) :
    (p.runScript sets s first count).1.During R := by
  by_cases hwindows : p.hasWindows s first count = true
  · have hshape := Machine.exec_shape (m := p.machine) (a := p.arguments s first count) s.code
      (p.load sets)
    have hchunk := Machine.exec_chunkSize p.machine s.code (p.arguments s first count) (p.load sets)
    rw [Progress.runScript, if_pos hwindows, runOnRows_eq]
    obtain ⟨hfront, hback⟩ := columns_of_shape hshape
    obtain ⟨m, hm, hsame⟩ := h.machine
    exact ⟨h.emitter, hfront.trans h.front, hback.trans h.back, h.live, m, hm, hchunk.trans hsame⟩
  · rw [Progress.runScript, if_neg hwindows]
    exact h

theorem compact (h : p.During R) : p.compact.During R := by
  obtain ⟨hback, hlive⟩ := h.back.compact p.emitter.aliveColumn p.live
  exact ⟨h.emitter, h.front, hback, Nat.le_trans hlive h.live, h.machine⟩

theorem spawnRows (h : p.During R) (count : Nat) : (p.spawnRows count).During R :=
  ⟨h.emitter, h.front, h.back.fillRows _ _ _, h.live, h.machine⟩

theorem abandon (hR : Emitter.Lasting R) (h : p.During R) : R p.abandon := by
  obtain ⟨m, hm, hchunk⟩ := h.machine
  exact hR.set _ m _ _ _ h.emitter hm hchunk h.front (hR.pooled _ h.emitter).live

theorem finish (hR : Emitter.Lasting R) (h : p.During R) (count : Nat)
    (hrows : p.live + count ≤ p.emitter.capacity) : R (p.finish count) := by
  obtain ⟨m, hm, hchunk⟩ := h.machine
  exact hR.set _ m _ _ _ h.emitter hm hchunk h.back hrows

variable {extents : Extents}

theorem chunk (h : p.Ready extents) : 1 ≤ p.machine.chunkSize := by
  obtain ⟨m, hm, hsame⟩ := h.machine
  obtain ⟨m', hm', hlower, -⟩ := h.emitter.machine
  obtain rfl : m' = m := Option.some.inj (hm'.symm.trans hm)
  exact hsame ▸ hlower

theorem size (h : p.Ready extents) : p.machine.chunkSize < 2 ^ 63 := by
  obtain ⟨m, hm, hsame⟩ := h.machine
  obtain ⟨m', hm', -, hupper⟩ := h.emitter.machine
  obtain rfl : m' = m := Option.some.inj (hm'.symm.trans hm)
  exact hsame ▸ hupper

end Progress.During

theorem Settled.runScript {sets : Array OwnedView} {extents : Extents} (h : Settled sets extents)
    (p : Progress) (s : Script) (first count : Nat) :
    Settled (p.runScript sets s first count).2.1 extents := by
  refine ⟨(p.runScript_extents sets s first count).trans h.extents, ?_⟩
  by_cases hwindows : p.hasWindows s first count = true
  · have hrange := Machine.exec_inRange (m := p.machine) (a := p.arguments s first count) s.code
      (p.load_inRange h.inRange)
    rw [Progress.runScript, if_pos hwindows, Progress.runOnRows_eq]
    intro v hv
    obtain ⟨w, hw, rfl⟩ := Array.mem_map.mp hv
    exact ⟨(hrange w hw).lower, (hrange w hw).upper, (hrange w hw).size⟩
  · rw [Progress.runScript, if_neg hwindows]
    exact h.inRange

/-! ### Ticks -/

def Stand.During (R : Emitter → Prop) : Stand → Prop
  | updating p _ | spawning p => p.During R
  | initializing p count _ => p.During R ∧ p.live + count ≤ p.emitter.capacity

def Turn.Leads (R : Emitter → Prop) : Turn → Prop
  | going st => st.During R
  | finished e | failed e _ => R e

section Ticks

variable {R : Emitter → Prop} (hR : Emitter.Lasting R)
include hR

namespace Stand

variable {stop : Option Interruption} {sets : Array OwnedView} {extents : Extents} {p : Progress}

theorem scriptStep_leads {s : Script} {first count : Nat} {next : Progress → Stand}
    (h : p.During R) (hsets : Settled sets extents)
    (hnext : ∀ p', p'.During R → p'.live = p.live → p'.emitter = p.emitter → (next p').During R) :
    (scriptStep stop sets p s first count next).1.Leads R ∧
      Settled (scriptStep stop sets p s first count next).2 extents := by
  unfold scriptStep
  cases stop with
  | some i => exact ⟨h.abandon hR, hsets⟩
  | none =>
    have hp := h.runScript sets s first count
    have hsets' := hsets.runScript p s first count
    have hlive := p.runScript_live sets s first count
    have hemitter := p.runScript_emitter sets s first count
    dsimp only
    generalize p.runScript sets s first count = r at hp hsets' hlive hemitter ⊢
    obtain ⟨p', sets', outcome⟩ := r
    cases outcome with
    | ok => exact ⟨hnext p' hp hlive hemitter, hsets'⟩
    | error e => exact ⟨hp.abandon hR, hsets'⟩
    | fault offset => exact ⟨hp.abandon hR, hsets'⟩

theorem step_leads (stop : Option Interruption) {st : Stand} (h : st.During R)
    (hsets : Settled sets extents) :
    (st.step stop sets).1.Leads R ∧ Settled (st.step stop sets).2 extents := by
  cases st with
  | updating p scripts =>
    replace h : p.During R := h
    cases scripts with
    | cons s rest => exact scriptStep_leads hR h hsets fun _ hp _ _ => hp
    | nil =>
      rw [step]
      split
      · exact ⟨h.abandon hR, hsets⟩
      · exact ⟨h.compact, hsets⟩
  | spawning p =>
    replace h : p.During R := h
    have hroom := p.emitter.room_le p.live h.live (p.demand sets)
    simp only [step]
    split
    · exact ⟨h.finish hR 0 h.live, hsets⟩
    · split
      · exact ⟨h.abandon hR, hsets⟩
      · exact ⟨⟨h.spawnRows _, hroom⟩, hsets⟩
  | initializing p count scripts =>
    obtain ⟨hp, hrows⟩ := h
    cases scripts with
    | cons s rest =>
      refine scriptStep_leads hR hp hsets fun p' hp' hlive hemitter => ⟨hp', ?_⟩
      rw [hlive, hemitter]
      exact hrows
    | nil => exact ⟨hp.finish hR count hrows, hsets⟩

end Stand

theorem Emitter.during_begin {e : Emitter} {st : Stand} (h : R e) (hbegin : e.begin = some st) :
    st.During R := by
  unfold Emitter.begin at hbegin
  split at hbegin
  · cases hbegin
  · next m hm =>
    dsimp only at hbegin
    split at hbegin
    · cases hbegin
    · obtain rfl := Option.some.inj hbegin
      exact Progress.During.start hR h hm

omit hR in
structure Scene.During (R : Emitter → Prop) (extents : Extents) (s : Scene) : Prop where
  emitters : ∀ e ∈ s.run.emitters, R e
  sets : Settled s.run.sets extents
  stands : ∀ i st rest, Task.ticking i st rest ∈ s.tasks → st.During R

theorem Task.advance_during {r : World.Run} {t : Task} {extents : Extents}
    (hemitters : ∀ e ∈ r.emitters, R e) (hsets : Settled r.sets extents)
    (ht : ∀ i st rest, t = .ticking i st rest → st.During R) :
    (∀ e ∈ (t.advance r).2.emitters, R e) ∧ Settled (t.advance r).2.sets extents ∧
      ∀ i st rest, (t.advance r).1 = .ticking i st rest → st.During R := by
  have hset {i : Nat} {e : Emitter} (he : R e) : ∀ e' ∈ r.emitters.set i e, R e' := by
    intro e' he'
    rcases List.mem_or_eq_of_mem_set he' with hold | rfl
    · exact hemitters e' hold
    · exact he
  cases t with
  | waiting rest =>
    refine ⟨by rwa [advance_waiting], by rwa [advance_waiting], ?_⟩
    intro i st rest' hgoing
    cases rest with
    | nil => cases hgoing
    | cons j rest =>
      simp only [advance] at hgoing
      cases he : r.emitters[j]? with
      | none => simp [he] at hgoing
      | some e =>
        cases hbegin : e.begin with
        | none => simp [he, hbegin] at hgoing
        | some st' =>
          simp only [he, hbegin] at hgoing
          obtain ⟨-, rfl, -⟩ := Task.ticking.inj hgoing
          exact Emitter.during_begin hR (hemitters e (List.mem_of_getElem? he)) hbegin
  | ticking i st rest =>
    have hstep := Stand.step_leads hR r.stop (ht i st rest rfl) hsets
    simp only [advance]
    generalize st.step r.stop r.sets = turn at hstep ⊢
    obtain ⟨turn, sets'⟩ := turn
    obtain ⟨hturn, hsets'⟩ := hstep
    cases turn with
    | going st' =>
      refine ⟨hemitters, hsets', ?_⟩
      intro i' st'' rest' hgoing
      obtain ⟨-, rfl, -⟩ := Task.ticking.inj hgoing
      exact hturn
    | finished e => exact ⟨hset hturn, hsets', fun _ _ _ hgoing => by cases hgoing⟩
    | failed e f => exact ⟨hset hturn, hsets', fun _ _ _ hgoing => by cases hgoing⟩
  | failing i f =>
    refine ⟨?_, ?_, fun _ _ _ hgoing => by cases hgoing⟩
    · rwa [advance, World.Run.fail_emitters]
    · rwa [advance, World.Run.fail_sets]
  | failed i f => exact ⟨hemitters, hsets, fun _ _ _ hgoing => by cases hgoing⟩

namespace Scene.During

variable {s s' : Scene} {extents : Extents}

theorem step (h : s.During R extents) (hstep : s.Step s') : s'.During R extents := by
  cases hstep with
  | interrupt _ i => exact ⟨h.emitters, h.sets, h.stands⟩
  | work hworks =>
    obtain ⟨ht, -⟩ := hworks
    obtain ⟨hemitters, hsets, hgoing⟩ := Task.advance_during hR h.emitters h.sets
      fun i st rest heq => h.stands i st rest (heq ▸ List.mem_of_getElem? ht)
    refine ⟨hemitters, hsets, ?_⟩
    intro i st rest hmem
    rcases List.mem_or_eq_of_mem_set hmem with hold | heq
    · exact h.stands i st rest hold
    · exact hgoing i st rest heq.symm

theorem of_steps {w : World} {stop : Option Interruption} (hemitters : ∀ e ∈ w.emitters, R e)
    (hsets : Settled w.sets extents)
    (h : Relation.ReflTransGen Scene.Step (Scene.start w stop) s) : s.During R extents := by
  induction h with
  | refl =>
    refine ⟨hemitters, hsets.reset, ?_⟩
    intro i st rest hmem
    obtain ⟨g, -, hg⟩ := List.mem_map.mp hmem
    cases hg
  | tail _ hstep ih => exact ih.step hR hstep

end Scene.During
end Ticks

/-! ### Edits -/

def Emitter.fixed (e : Emitter) :
    Option Machine × Option Nat × Option Nat × List (Stage × Option Program × Wiring) :=
  (e.machine, e.aliveColumn, e.spawnSet, e.scripts.map fun s => (s.stage, s.program, s.wiring))

/-- A caller may write attributes, spawn instances, change settings, scripts and constants. An edit that
is `steady` keeps what binding resolved. -/
structure Emitter.Edited (steady : Bool) (e e' : Emitter) : Prop where
  attributes : e'.attributes = e.attributes
  capacity : e'.capacity = e.capacity
  sizes : e'.columns.map Array.size = e.columns.map Array.size
  live : e'.live ≤ e.capacity
  fixed : steady = true → e'.fixed = e.fixed

namespace Emitter.Edited

variable {steady : Bool} {e e' : Emitter} {extents : Extents}

theorem sized (h : Edited steady e e') (he : e.Sized) : e'.Sized where
  columns := by
    rw [Columns.Fits, h.attributes, h.capacity, h.sizes]
    exact he.columns
  live := h.capacity ▸ h.live
  capacity := h.capacity ▸ he.capacity

theorem ready (h : Edited true e e') (he : e.Ready extents) : e'.Ready extents := by
  obtain ⟨hmachine, hpair⟩ := Prod.mk.inj (h.fixed rfl)
  obtain ⟨halive, hpair⟩ := Prod.mk.inj hpair
  obtain ⟨-, hscripts⟩ := Prod.mk.inj hpair
  refine ⟨h.sized he.toSized, hmachine ▸ he.machine, ?_, ?_⟩
  · rw [halive, h.attributes]
    exact he.alive
  · intro s' hs'
    have hmem := List.mem_map_of_mem (f := fun s : Script => (s.stage, s.program, s.wiring)) hs'
    rw [hscripts] at hmem
    obtain ⟨s, hs, heq⟩ := List.mem_map.mp hmem
    obtain ⟨-, hpair⟩ := Prod.mk.inj heq
    obtain ⟨hprogram, hwiring⟩ := Prod.mk.inj hpair
    obtain ⟨program, hwired⟩ := he.scripts s hs
    rw [h.attributes]
    exact ⟨program, hprogram ▸ hwired.program, hwired.valid, hwiring ▸ hwired.constants,
      hwiring ▸ hwired.inputs, hwiring ▸ hwired.inputColumns, hwiring ▸ hwired.outputs,
      hwiring ▸ hwired.outputColumns, hwiring ▸ hwired.setCount, hwiring ▸ hwired.sets⟩

theorem uses (h : Edited true e e') : e'.uses = e.uses := by
  obtain ⟨-, hpair⟩ := Prod.mk.inj (h.fixed rfl)
  obtain ⟨-, hpair⟩ := Prod.mk.inj hpair
  obtain ⟨hspawn, hscripts⟩ := Prod.mk.inj hpair
  have hsets := congrArg (List.flatMap fun x : Stage × Option Program × Wiring => x.2.2.found) hscripts
  simp only [List.flatMap_map] at hsets
  rw [Emitter.uses, Emitter.uses, hspawn, hsets]

theorem refl (steady : Bool) (he : e.Pooled) : Edited steady e e :=
  ⟨rfl, rfl, rfl, he.live, fun _ => rfl⟩

theorem spawn (steady : Bool) (he : e.Pooled) (n : Int) : Edited steady e (e.spawn n).2 where
  attributes := rfl
  capacity := rfl
  sizes := by
    show (Columns.fillRows e.columns _ _ _).map Array.size = _
    rw [he.columns.fillRows, he.columns]
  live := e.room_le e.live he.live n
  fixed _ := rfl

end Emitter.Edited

structure World.Edited (steady : Bool) (w w' : World) : Prop where
  options : w'.options = w.options
  bound : w'.bound = w.bound
  groups : w'.groups = w.groups
  emitters : List.Forall₂ (Emitter.Edited steady) w.emitters w'.emitters
  extents : w'.sets.map OwnedView.extent = w.sets.map OwnedView.extent
  inRange : ∀ v ∈ w'.sets, v.InRange

/-! ### Worlds -/

theorem mem_bindEmitters {o : Options} {sets : Array OwnedView} {index : Nat}
    {emitters emitters' : List Emitter} (h : bindEmitters o sets index emitters = (emitters', none))
    {e' : Emitter} (he' : e' ∈ emitters') :
    ∃ e ∈ emitters, ∃ index, e.bind o sets index = (e', none) := by
  induction emitters generalizing emitters' index with
  | nil =>
    obtain rfl : [] = emitters' := (Prod.mk.inj h).1
    cases he'
  | cons e emitters ih =>
    unfold bindEmitters at h
    split at h
    · simp at h
    · next e₁ he₁ =>
      obtain ⟨rfl, herror⟩ := Prod.mk.inj h
      rcases List.mem_cons.mp he' with rfl | he'
      · exact ⟨e, List.mem_cons_self .., index, he₁⟩
      · obtain ⟨e₂, he₂, hbind⟩ := ih (Prod.ext rfl herror) he'
        exact ⟨e₂, List.mem_cons_of_mem _ he₂, hbind⟩

theorem Emitter.Sized.of_bare {e e' : Emitter} (h : e.Sized) (hbare : e'.bare = e.bare) :
    e'.Sized := by
  have hattributes : e'.attributes = e.attributes := congrArg (·.attributes) hbare
  have hcapacity : e'.capacity = e.capacity := congrArg (·.capacity) hbare
  have hcolumns : e'.columns = e.columns := congrArg (·.columns) hbare
  have hlive : e'.live = e.live := congrArg (·.live) hbare
  refine ⟨⟨?_, ?_⟩, hcapacity ▸ h.capacity⟩
  · rw [hattributes, hcapacity, hcolumns]
    exact h.columns
  · rw [hcapacity, hlive]
    exact h.live

/-- The worlds that a caller gets to; `steady` if the last binding succeeded, nothing was added since,
and nothing that it resolved was changed. Ticks may be mixed, interrupted and fail in any way, also
those of worlds that a failed binding left bound in part; the numbers that the caller gives are of 64
bits. -/
inductive Lives (o : Options) : (steady : Bool) → World → Prop
  | new : Lives o false (World.new o)
  | addDataSet {b : Bool} {w : World} (h : Lives o b w) (name : Text) (size : Int)
    (vars : List Text) :
    Lives o (b && (w.addDataSet (newDataSet name size vars)).1.bound)
      (w.addDataSet (newDataSet name size vars)).1
  | addEmitter {b : Bool} {w : World} (h : Lives o b w) (name : Text) (capacity : Int)
    (hcapacity : capacity < 2 ^ 63) (attributes : List Text) (spawnCount : Int)
    (spawnFrom alive : Text) (defaults : Bindings) (scripts : List Script) :
    Lives o
      (b && (w.addEmitter { Emitter.new name capacity attributes with
        spawnCount, spawnFrom, alive, defaults, scripts }).1.bound)
      (w.addEmitter { Emitter.new name capacity attributes with
        spawnCount, spawnFrom, alive, defaults, scripts }).1
  | edit {b b' : Bool} {w w' : World} (h : Lives o b w) (hedit : w.Edited b' w')
    (hsteady : b' = true → b = true) : Lives o b' w'
  | bind {b : Bool} {w w' : World} (h : Lives o b w) (hbind : w.bind = (w', none)) :
    Lives o true w'
  | bindFails {b : Bool} {w w' : World} {e : WorldError} (h : Lives o b w)
    (hbind : w.bind = (w', some e)) : Lives o false w'
  | tick {b : Bool} {w : World} {stop : Option Interruption} {s : Scene} (h : Lives o b w)
    (hbound : w.bound = true) (hticks : w.TicksTo stop s) : Lives o b (w.conclude s.run).1

/-- The invariant of a world, which says more while it is steady. -/
structure World.Ready (w : World) (o : Options) (steady : Bool) : Prop where
  options : w.options = o
  sized : ∀ e ∈ w.emitters, e.Sized
  inRange : ∀ v ∈ w.sets, v.InRange
  bound : steady = true → w.bound = true
  grouped : steady = true → w.Grouped
  emitters : steady = true → ∀ e ∈ w.emitters, e.Ready (w.sets.map OwnedView.extent)

namespace World.Ready

variable {w w' : World} {o : Options} {b b' : Bool}

theorem edit (h : w.Ready o b) (hedit : w.Edited b' w') (hsteady : b' = true → b = true) :
    w'.Ready o b' := by
  have hpair {e' : Emitter} (he' : e' ∈ w'.emitters) :
      ∃ e ∈ w.emitters, Emitter.Edited b' e e' := by
    obtain ⟨i, hi, rfl⟩ := List.getElem_of_mem he'
    have hlength := hedit.emitters.length_eq
    exact ⟨_, List.getElem_mem (hlength ▸ hi), hedit.emitters.get (hlength ▸ hi) hi⟩
  refine ⟨hedit.options.trans h.options, ?_, hedit.inRange, ?_, ?_, ?_⟩
  · intro e' he'
    obtain ⟨e, he, hedited⟩ := hpair he'
    exact hedited.sized (h.sized e he)
  · intro hb'
    rw [hedit.bound]
    exact h.bound (hsteady hb')
  · rintro rfl
    have huses : w'.emitters.map Emitter.uses = w.emitters.map Emitter.uses := by
      apply List.ext_get
      · rw [List.length_map, List.length_map, hedit.emitters.length_eq]
      · intro i hi hi'
        rw [List.length_map] at hi hi'
        simpa only [List.get_eq_getElem, List.getElem_map] using (hedit.emitters.get hi' hi).uses
    rw [World.Grouped, hedit.groups, huses]
    exact h.grouped (hsteady rfl)
  · rintro rfl e' he'
    obtain ⟨e, he, hedited⟩ := hpair he'
    rw [hedit.extents]
    exact hedited.ready (h.emitters (hsteady rfl) e he)

theorem tick {stop : Option Interruption} {s : Scene} (h : w.Ready o b)
    (hticks : w.TicksTo stop s) : (w.conclude s.run).1.Ready o b := by
  have hsized := Scene.During.of_steps Emitter.lasting_sized h.sized ⟨rfl, h.inRange⟩ hticks.1
  have hsets : (w.conclude s.run).1.sets = s.run.sets := by
    unfold World.conclude
    split <;> rfl
  have hoptions : (w.conclude s.run).1.options = w.options := by
    unfold World.conclude
    split <;> rfl
  have hemitters := w.conclude_emitters s.run
  refine ⟨hoptions.trans h.options, ?_, ?_, ?_, ?_, ?_⟩
  · rw [hemitters]
    exact hsized.emitters
  · rw [hsets]
    exact hsized.sets.inRange
  · intro hb
    rw [w.conclude_bound]
    exact h.bound hb
  · intro hb
    have huses := (Scene.follows_of_steps (h.grouped hb) hticks.1).uses
    rw [World.Grouped, w.conclude_groups, hemitters, huses]
    exact h.grouped hb
  · intro hb
    have hready := Scene.During.of_steps (Emitter.lasting_ready _) (h.emitters hb) ⟨rfl, h.inRange⟩
      hticks.1
    rw [hemitters, hsets, hready.sets.extents]
    exact hready.emitters

theorem bind (h : w.Ready o b) (hsize : o.chunkSize < 2 ^ 63) (hbind : w.bind = (w', none)) :
    w'.Ready o true := by
  obtain ⟨-, hgrouped⟩ := World.grouped_of_bind hbind
  obtain ⟨emitters, hemitters, rfl⟩ : ∃ emitters,
      bindEmitters w.options w.sets 0 w.emitters = (emitters, none) ∧
        w' = { w with
          emitters
          groups := Simulation.groups (emitters.map Emitter.uses)
          bound := true } := by
    unfold World.bind at hbind
    split at hbind
    · cases hbind
    · next emitters hemitters => exact ⟨emitters, hemitters, (Prod.mk.inj hbind).1.symm⟩
  have hready : ∀ e' ∈ emitters, e'.Ready (w.sets.map OwnedView.extent) := by
    intro e' he'
    obtain ⟨e, he, index, hbound⟩ := mem_bindEmitters hemitters he'
    obtain ⟨m, aliveColumn, spawnSet, scripts, rfl, -, rfl, hcolumn, hscripts⟩ := Emitter.bind_ok hbound
    have hsized := h.sized e he
    have hchunk : 1 ≤ o.chunk := o.chunk_pos
    have hbelow : o.chunk < 2 ^ 63 := by
      unfold Options.chunk
      split
      · decide
      · exact hsize
    rw [← h.options] at hchunk hbelow
    exact ⟨⟨⟨hsized.columns, hsized.live⟩, hsized.capacity⟩, ⟨_, rfl, hchunk, hbelow⟩, hcolumn,
      hscripts⟩
  exact ⟨h.options, fun e he => (hready e he).toSized, h.inRange, fun _ => rfl, fun _ => hgrouped,
    fun _ => hready⟩

theorem bindFails {e : WorldError} (h : w.Ready o b) (hbind : w.bind = (w', some e)) :
    w'.Ready o false := by
  obtain ⟨hworld, hbare, -⟩ := World.bind_failed hbind
  have hoptions : w'.options = w.options := by rw [hworld]
  have hsets : w'.sets = w.sets := by rw [hworld]
  refine ⟨hoptions.trans h.options, ?_, hsets ▸ h.inRange, by simp, by simp, by simp⟩
  intro e' he'
  have hmem := List.mem_map_of_mem (f := Emitter.bare) he'
  rw [hbare] at hmem
  obtain ⟨e, he, heq⟩ := List.mem_map.mp hmem
  exact (h.sized e he).of_bare heq.symm

end World.Ready

theorem Lives.ready {o : Options} (hsize : o.chunkSize < 2 ^ 63) {b : Bool} {w : World}
    (h : Lives o b w) : w.Ready o b := by
  induction h with
  | new => exact ⟨rfl, by simp [World.new], by simp [World.new], by simp, by simp, by simp⟩
  | @addDataSet b w _ name size vars ih =>
    unfold World.addDataSet
    split
    · cases b with
      | false => exact ih
      | true =>
        rw [Bool.true_and, ih.bound rfl]
        exact ih
    · rw [Bool.and_false]
      refine ⟨ih.options, ih.sized, ?_, by simp, by simp, by simp⟩
      intro v hv
      rcases Array.mem_push.mp hv with hv | rfl
      · exact ih.inRange v hv
      · exact inRange_newDataSet name size vars
  | @addEmitter b w _ name capacity hcapacity attributes spawnCount spawnFrom alive defaults scripts
      ih =>
    unfold World.addEmitter
    split
    · cases b with
      | false => exact ih
      | true =>
        rw [Bool.true_and, ih.bound rfl]
        exact ih
    · rw [Bool.and_false]
      refine ⟨ih.options, ?_, ih.inRange, by simp, by simp, by simp⟩
      intro e he
      rcases List.mem_append.mp he with he | he
      · exact ih.sized e he
      · obtain rfl := List.mem_singleton.mp he
        have hpooled := Emitter.pooled_new name capacity attributes
        refine ⟨⟨hpooled.columns, hpooled.live⟩, ?_⟩
        show capacity.toNat < 2 ^ 63
        omega
  | edit _ hedit hsteady ih => exact ih.edit hedit hsteady
  | bind _ hbind ih => exact ih.bind hsize hbind
  | bindFails _ hbind ih => exact ih.bindFails hbind
  | tick _ _ hticks ih => exact ih.tick hticks

/-! ### Histories -/

def Operation.Fresh : Operation → Prop
  | addDataSet v => ∃ name size vars, v = newDataSet name size vars
  | addEmitter e => ∃ name capacity attributes spawnCount spawnFrom alive defaults scripts,
    capacity < 2 ^ 63 ∧ e = { Emitter.new name capacity attributes with
      spawnCount, spawnFrom, alive, defaults, scripts }
  | _ => True

namespace Lives

variable {o : Options} {b : Bool} {w : World}

theorem modifyEmitter (hsize : o.chunkSize < 2 ^ 63) (h : Lives o b w) {steady : Bool}
    (hsteady : steady = true → b = true) (name : Text) {f : Emitter → Emitter}
    (hf : ∀ e, e.Pooled → Emitter.Edited steady e (f e)) : Lives o steady (w.modifyEmitter name f) := by
  have hready := h.ready hsize
  refine h.edit ⟨rfl, rfl, rfl, ?_, rfl, hready.inRange⟩ hsteady
  refine List.forall₂_map_right_iff.mpr (List.forall₂_same.mpr fun e he => ?_)
  have hpooled := (hready.sized e he).toPooled
  split
  · exact hf e hpooled
  · exact .refl steady hpooled

theorem counted (hsize : o.chunkSize < 2 ^ 63) (h : Lives o b w) {ticks : Nat} :
    Lives o b { w with ticks } := by
  have hready := h.ready hsize
  refine h.edit ⟨rfl, rfl, rfl, ?_, rfl, hready.inRange⟩ id
  exact List.forall₂_same.mpr fun e he => .refl b (hready.sized e he).toPooled

theorem perform (hsize : o.chunkSize < 2 ^ 63) (h : Lives o b w) {op : Operation} (hop : op.Fresh) :
    ∃ b', Lives o b' (w.perform op).1 := by
  have htick {b : Bool} {w : World} (h : Lives o b w) (hbound : w.bound = true)
      (stop : Option Interruption) : ∃ b', Lives o b' (w.tick stop).1 := by
    obtain ⟨s, hticks, hs⟩ := World.tick_ticksTo hbound stop
    rw [← hs]
    exact ⟨b, h.tick hbound hticks⟩
  cases op with
  | addDataSet v =>
    obtain ⟨name, size, vars, rfl⟩ := hop
    exact ⟨_, h.addDataSet name size vars⟩
  | addEmitter e =>
    obtain ⟨name, capacity, attributes, spawnCount, spawnFrom, alive, defaults, scripts, hcapacity,
      rfl⟩ := hop
    exact ⟨_, h.addEmitter name capacity hcapacity attributes spawnCount spawnFrom alive defaults
      scripts⟩
  | bind =>
    rcases hbind : w.bind with ⟨w', _ | e⟩
    · exact ⟨true, by simpa only [World.perform, hbind] using h.bind hbind⟩
    · exact ⟨false, by simpa only [World.perform, hbind] using h.bindFails hbind⟩
  | tick stop =>
    have hticked : ∃ b', Lives o b' (w.tick stop).1 := by
      by_cases hbound : w.bound = true
      · exact htick h hbound stop
      · -- The world is bound first.
        rcases hbind : w.bind with ⟨w', _ | e⟩
        · have hbound' := World.bind_bound hbind
          have hsame : w.tick stop = w'.tick stop := by
            rw [World.tick_of_bound hbound', World.tick, if_neg hbound, hbind]
          rw [hsame]
          exact htick (h.bind hbind) hbound' stop
        · have hsame : w.tick stop = (w', some e) := by
            rw [World.tick, if_neg hbound, hbind]
          rw [hsame]
          exact ⟨false, h.bindFails hbind⟩
    obtain ⟨b', hlives⟩ := hticked
    refine ⟨b', ?_⟩
    rcases w.advance_cases stop with heq | ⟨_, -, heq⟩
    · rwa [World.perform, heq]
    · rw [World.perform, heq]
      exact hlives.counted hsize
  | spawn name n => exact ⟨b, h.modifyEmitter hsize id name fun e he => .spawn b he n⟩
  | configure name spawnCount spawnFrom alive defaults =>
    exact ⟨b, h.modifyEmitter hsize id name fun e he =>
      ⟨rfl, rfl, rfl, he.live, fun _ => rfl⟩⟩
  | rewrite name script program constants =>
    -- What was resolved for the program that stood there means nothing for the new one.
    exact ⟨false, h.modifyEmitter hsize (by simp) name fun e he =>
      ⟨rfl, rfl, rfl, he.live, by simp⟩⟩

/-- Every history leads to a world that lives. -/
theorem after (hsize : o.chunkSize < 2 ^ 63) {history : List Operation}
    (hfresh : ∀ op ∈ history, op.Fresh) : ∃ b, Lives o b ((World.new o).after history) := by
  induction history using List.reverseRecOn with
  | nil => exact ⟨false, .new⟩
  | append_singleton history op ih =>
    rw [List.forall_mem_append, List.forall_mem_singleton] at hfresh
    obtain ⟨b, hlives⟩ := ih hfresh.1
    rw [World.after_snoc]
    exact hlives.perform hsize hfresh.2

end Lives
end Quadlane.Simulation
