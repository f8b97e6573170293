import Quadlane.Proofs.ScriptRuns
import Quadlane.Proofs.Twins

/-! Scripts run side by side on two emitters. What a script does depends on the rows it is run on, on
the data sets it is wired to, on the random numbers if it draws any, and on the temporaries that it
reads before it sets them; on nothing else that the two emitters hold. -/

namespace Quadlane.Simulation

/-- What scripts on both sides may read: cells of the next tick by column and row, data sets, and
random numbers. The columns of the previous tick are always in sight. -/
structure RowSight where
  rows : Nat → Nat → Prop
  sets : Nat → Prop
  random : Prop

def Script.Draws (s : Script) : Prop :=
  ∃ ins ∈ Code.body s.code, ins.op = .kernel .random

structure Script.Sees (S : RowSight) (known : Nat → Nat → Prop) (first count : Nat) (s : Script) :
    Prop where
  inputs : s.stage = .spawn → ∀ a ∈ s.wiring.inputs, ∀ row, first ≤ row → row < first + count →
    S.rows a row
  outputs : ∀ a ∈ s.wiring.outputs, ∀ row, first ≤ row → row < first + count → S.rows a row
  sets : ∀ v ∈ s.wiring.found, S.sets v
  temporaries : SetsBeforeReading (fun b => ∀ i, known b.toNat i) (Code.body s.code)
  random : s.Draws → S.random

theorem Columns.hasWindow_of_sizes {cols cols' : Columns}
    (h : cols'.map Array.size = cols.map Array.size) (first count column : Nat) :
    cols'.hasWindow first count column = cols.hasWindow first count column := by
  have hcolumn := congrArg (·[column]?) h
  simp only [Array.getElem?_map] at hcolumn
  unfold hasWindow
  cases hb : cols[column]? with
  | none =>
    rw [hb, Option.map_none, Option.map_eq_none_iff] at hcolumn
    rw [hcolumn]
  | some b =>
    rw [hb, Option.map_some, Option.map_eq_some_iff] at hcolumn
    obtain ⟨b', hb', hsize⟩ := hcolumn
    rw [hb']
    simp only [hsize]

theorem Columns.cell_congr {cols cols' : Columns} (hsize : cols'.size = cols.size) {a row : Nat}
    (h : a < cols.size → cols'.cell a row = cols.cell a row) :
    cols'.cell a row = cols.cell a row := by
  by_cases ha : a < cols.size
  · exact h ha
  · have hnone {t : Columns} (ht : t.size = cols.size) : t.getD a #[] = #[] := by
      rw [Array.getD_eq_getD_getElem?, Array.getElem?_eq_none (by omega)]
      rfl
    rw [cell, cell, hnone hsize, hnone rfl]

namespace Progress

structure Twins (S : RowSight) (known : Nat → Nat → Prop) (p : Progress) (sets : Array OwnedView)
    (p' : Progress) (sets' : Array OwnedView) : Prop where
  front : p'.front = p.front
  sizes : p'.back.map Array.size = p.back.map Array.size
  cell : ∀ a row, S.rows a row → Columns.cell p.back a row = Columns.cell p'.back a row
  extents : sets'.map OwnedView.extent = sets.map OwnedView.extent
  view : ∀ v, S.sets v → sets[v]? = sets'[v]?
  machine : Machine.Twins S.random known p.machine p'.machine

variable {S : RowSight} {known : Nat → Nat → Prop} {p p' : Progress} {sets sets' : Array OwnedView}
variable {s : Script} {first count : Nat}

/-! ### One memory -/

theorem outline_numberViews {l l' : List OwnedView} (base : Nat)
    (h : l'.map OwnedView.extent = l.map OwnedView.extent) :
    (numberViews base l').map View.outline = (numberViews base l).map View.outline := by
  induction l generalizing l' base with
  | nil =>
    obtain rfl := List.map_eq_nil_iff.mp h
    rfl
  | cons v l ih =>
    cases l' with
    | nil => cases h
    | cons v' l' =>
      obtain ⟨hfirst, hrest⟩ := List.cons.inj h
      obtain ⟨hname, hpair⟩ := Prod.mk.inj hfirst
      obtain ⟨hsize, hvars⟩ := Prod.mk.inj hpair
      have hwidth : v'.vars.size = v.vars.size := by simpa using congrArg Array.size hvars
      -- The variables have the same names, and their numbers count from the same base.
      have hnumbered : (v'.vars.mapIdx fun i x => (x.1, some (base + i))) =
          v.vars.mapIdx fun i x => (x.1, some (base + i)) := by
        apply Array.ext
        · simpa using hwidth
        · intro i hi hi'
          simp only [Array.size_mapIdx] at hi hi'
          have hnames := congrArg (·[i]?) hvars
          simp only [Array.getElem?_map, Array.getElem?_eq_getElem hi,
            Array.getElem?_eq_getElem hi', Option.map_some, Option.some.injEq,
            Prod.mk.injEq] at hnames
          simp only [Array.getElem_mapIdx, hnames.1]
      rw [numberViews, numberViews, List.map_cons, List.map_cons, hwidth, ih _ hrest]
      exact congrArg (· :: _) (Prod.ext hname (Prod.ext hsize hnumbered))

theorem load_shape (hfront : p'.front = p.front)
    (hsizes : p'.back.map Array.size = p.back.map Array.size)
    (hextents : sets'.map OwnedView.extent = sets.map OwnedView.extent) :
    (p'.load sets').shape = (p.load sets).shape := by
  have hback : p'.back.size = p.back.size := by simpa using congrArg Array.size hsizes
  refine Prod.ext ?_ ?_
  · have hbuffers (sets : Array OwnedView) :
        (sets.flatMap fun v => v.vars.map (·.2)).map Array.size =
          (sets.map OwnedView.extent).flatMap fun x => x.2.2.map (·.2) := by
      simp [Array.map_flatMap, Array.flatMap_map, OwnedView.extent, Function.comp_def]
    simp only [Memory.shape, load, Array.map_append, hbuffers, hfront, hsizes, hextents]
  · have hlists : sets'.toList.map OwnedView.extent = sets.toList.map OwnedView.extent := by
      rw [← Array.toList_map, ← Array.toList_map, hextents]
    have hviews := outline_numberViews (p.front.size + p.back.size) hlists
    simp only [Memory.shape, load, List.map_toArray, hfront, hback, hviews]

end Progress

def RowSight.sight (S : RowSight) (p : Progress) (sets : Array OwnedView) : Sight where
  cells b j := b < p.front.size ∨ (∃ a < p.back.size, b = p.front.size + a ∧ S.rows a j) ∨
    ∃ v view x, S.sets v ∧ (p.load sets).views[v]? = some view ∧ (x, some b) ∈ view.vars
  views := S.sets
  random := S.random

namespace Progress

variable {S : RowSight} {known : Nat → Nat → Prop} {p p' : Progress} {sets sets' : Array OwnedView}
variable {s : Script} {first count : Nat}

theorem sight_closed (S : RowSight) (p : Progress) (sets : Array OwnedView) :
    (S.sight p sets).whole.Closed (p.load sets) :=
  fun v view x _ hv hview hvar _ => .inr (.inr ⟨v, view, x, hv, hview, hvar⟩)

theorem back_size_of_sizes (h : p'.back.map Array.size = p.back.map Array.size) :
    p'.back.size = p.back.size := by
  simpa using congrArg Array.size h

theorem load_buffer_of_ge (p : Progress) (sets : Array OwnedView) {b : BufferId}
    (hb : p.front.size + p.back.size ≤ b) :
    (p.load sets).buffer b = (sets.flatMap fun v => v.vars.map (·.2)).getD
      (b - (p.front.size + p.back.size)) #[] := by
  rw [Memory.buffer, load, Array.getD_eq_getD_getElem?,
    Array.getElem?_append_right (by rwa [Array.size_append]), Array.size_append,
    Array.getD_eq_getD_getElem?]

theorem Twins.load (h : p.Twins S known sets p' sets') :
    Memory.Twins (S.sight p sets) (p.load sets) (p'.load sets') := by
  have hback := back_size_of_sizes h.sizes
  have hwidths : sets.map (·.vars.size) = sets'.map (·.vars.size) := by
    have hsizes := congrArg (Array.map fun x => x.2.2.size) h.extents
    simpa [Function.comp_def, OwnedView.extent] using hsizes.symm
  have hsame : SameSets S.sets sets sets' := ⟨hwidths, h.view⟩
  -- The other columns do not change how data sets are numbered.
  have hnumbers (v : Nat) : (p'.load sets).views[v]? = (p.load sets).views[v]? := by
    rw [load_view, load_view, h.front, hback]
  have hagrees := load_agrees (p := p') hsame
  refine ⟨load_shape h.front h.sizes h.extents, ?_,
    fun v hv => (hnumbers v).symm.trans (hagrees.view v hv)⟩
  rintro b j (hlt | ⟨a, ha, rfl, hrow⟩ | ⟨v, view, x, hv, hview, hvar⟩)
  · have hbuffer : (p.load sets).buffer b = (p'.load sets').buffer b := by
      rw [load_front p sets hlt, load_front p' sets' (by rwa [h.front]), h.front]
    exact congrArg (·.getD j Quad.zero) hbuffer
  · have hbuffer : (p.load sets).buffer (p.front.size + a) = p.back.getD a #[] :=
      load_back p sets ha
    have hbuffer' : (p'.load sets').buffer (p.front.size + a) = p'.back.getD a #[] := by
      rw [← h.front]
      exact load_back p' sets' (hback ▸ ha)
    have hcell (m : Memory) (b : BufferId) : m.cell b j = (m.buffer b).getD j Quad.zero := rfl
    rw [hcell, hcell, hbuffer, hbuffer']
    exact h.cell a j hrow
  · have hle : p.front.size + p.back.size ≤ b := by
      rw [load_view] at hview
      exact le_of_numberViews hview hvar
    have hmoved : (p.load sets).buffer b = (p'.load sets).buffer b := by
      rw [load_buffer_of_ge p sets hle, load_buffer_of_ge p' sets (by rwa [h.front, hback]), h.front,
        hback]
    have hbuffer := hmoved.trans
      (hagrees.buffer b (.inr ⟨v, view, x, hv, (hnumbers v).trans hview, hvar⟩))
    exact congrArg (·.getD j Quad.zero) hbuffer

/-! ### One script -/

theorem sees_arguments (hs : s.Sees S known first count) (hwindows : p.hasWindows s first count = true)
    (sets : Array OwnedView) :
    Machine.Sees (S.sight p sets) known s.code (p.arguments s first count) := by
  rw [hasWindows, Bool.and_eq_true, List.all_eq_true, List.all_eq_true] at hwindows
  have hcolumn {cols : Columns} {a : Nat} (ha : cols.hasWindow first count a = true) :
      a < cols.size := by
    unfold Columns.hasWindow at ha
    split at ha
    · next b hb => exact (Array.getElem?_eq_some_iff.mp hb).1
    · cases ha
  have hback {a j : Nat} (ha : p.back.hasWindow first count a = true)
      (hrows : ∀ row, first ≤ row → row < first + count → S.rows a row) (hj : j < count) :
      (S.sight p sets).cells (p.front.size + a) (first + j) :=
    .inr (.inl ⟨a, hcolumn ha, rfl, hrows _ (Nat.le_add_right first j) (Nat.add_lt_add_left hj first)⟩)
  refine ⟨?_, fun w hw => Constants.noConfusion hw, fun v hv => hs.sets v (mem_found.mpr hv),
    hs.temporaries, fun ins hins hop => hs.random ⟨ins, hins, hop⟩⟩
  intro w hw j hj
  replace hj : j < count := Int.ofNat_lt.mp hj
  rcases List.mem_append.mp hw with hw | hw
  · obtain ⟨a, ha, rfl⟩ := List.mem_map.mp hw
    have hwindow := hwindows.1 a ha
    by_cases hstage : s.stage = .spawn
    · rw [if_pos hstage] at hwindow ⊢
      exact hback hwindow (hs.inputs hstage a ha) hj
    · rw [if_neg hstage] at hwindow ⊢
      exact .inl (hcolumn hwindow)
  · obtain ⟨a, ha, rfl⟩ := List.mem_map.mp hw
    exact hback (hwindows.2 a ha) (hs.outputs a ha) hj

theorem Twins.unload (h : p.Twins S known sets p' sets') {r r' : Machine.Result}
    (hmachine : Machine.Twins S.random known r.machine r'.machine)
    (hmemory : Memory.Twins (S.sight p sets) r.memory r'.memory)
    (hshape : r.memory.shape = (p.load sets).shape) :
    (p.unload r).1.Twins S known (p.unload r).2.1 (p'.unload r').1 (p'.unload r').2.1 := by
  have hback := back_size_of_sizes h.sizes
  have hshape' : r'.memory.shape = (p'.load sets').shape := by
    rw [hmemory.shape, hshape, load_shape h.front h.sizes h.extents]
  have hcolumns := buffers_size_of_shape hshape
  have hcolumns' := buffers_size_of_shape hshape'
  have hsizes := (columns_of_shape hshape).2
  have hsizes' := (columns_of_shape hshape').2
  refine ⟨?_, ?_, ?_, ?_, ?_, hmachine⟩
  · show r'.memory.buffers.extract 0 p'.front.size = r.memory.buffers.extract 0 p.front.size
    rw [h.front] at hcolumns' ⊢
    rw [hback] at hcolumns'
    refine (extract_congr hcolumns hcolumns' (Nat.le_add_right _ _) fun b _ hb => ?_).symm
    exact hmemory.agrees.buffer b fun _ => .inl hb
  · exact (hsizes'.trans h.sizes).trans hsizes.symm
  · intro a row hrow
    have hsize : (p.unload r).1.back.size = (p'.unload r').1.back.size := by
      have hsame := (hsizes.trans h.sizes.symm).trans hsizes'.symm
      simpa [Progress.unload] using congrArg Array.size hsame
    refine Columns.cell_congr hsize fun ha' => ?_
    have ha : a < p.back.size := by
      have hkept := congrArg Array.size hsizes'
      simp only [Array.size_map] at hkept
      rw [← hback, ← hkept]
      exact ha'
    show ((p.unload r).1.back.getD a #[]).getD row Quad.zero =
      ((p'.unload r').1.back.getD a #[]).getD row Quad.zero
    rw [unload_back p r ha, unload_back p' r' (hback ▸ ha : a < p'.back.size), h.front]
    exact hmemory.cell _ _ (.inr (.inl ⟨a, ha, rfl, hrow⟩))
  · show (r'.memory.views.map (ownView r'.memory)).map OwnedView.extent =
      (r.memory.views.map (ownView r.memory)).map OwnedView.extent
    exact extent_ownView hmemory.shape
  · intro v hv
    show (r.memory.views.map (ownView r.memory))[v]? = (r'.memory.views.map (ownView r'.memory))[v]?
    rw [Array.getElem?_map, Array.getElem?_map, ← hmemory.view v hv]
    cases hview : r.memory.views[v]? with
    | none => rfl
    | some view =>
      refine congrArg some (ownView_congr fun x b hvar => ?_)
      exact hmemory.agrees.buffer b
        (((sight_closed S p sets).of_shape hshape) v view x b hv hview hvar)

theorem runScript_twins (hs : s.Sees S known first count) (hchunk : 1 ≤ p.machine.chunkSize)
    (hsize : p.machine.chunkSize < 2 ^ 63) (hcount : count < 2 ^ 63)
    (h : p.Twins S known sets p' sets') :
    (p.runScript sets s first count).2.2 = (p'.runScript sets' s first count).2.2 ∧
      (p.runScript sets s first count).1.Twins S known (p.runScript sets s first count).2.1
        (p'.runScript sets' s first count).1 (p'.runScript sets' s first count).2.1 := by
  have hwindows : p'.hasWindows s first count = p.hasWindows s first count := by
    have hback : Columns.hasWindow p'.back first count = Columns.hasWindow p.back first count := by
      funext column
      exact Columns.hasWindow_of_sizes h.sizes first count column
    by_cases hstage : s.stage = .spawn
    · simp only [hasWindows, h.front, hstage, if_true, hback]
    · simp only [hasWindows, h.front, hstage, if_false, hback]
  have harguments : p'.arguments s first count = p.arguments s first count := by
    simp only [arguments, h.front]
  by_cases hrun : p.hasWindows s first count = true
  · have hsees := sees_arguments hs hrun sets
    have hcount' : (p.arguments s first count).count < 2 ^ 63 := by
      show (count : Int) < 2 ^ 63
      omega
    obtain ⟨houtcome, hmachine, hmemory⟩ := Machine.exec_twins hsees hchunk hsize hcount'
      (sight_closed S p sets) h.machine h.load
    rw [runScript, runScript, if_pos hrun, if_pos (hwindows.trans hrun), runOnRows_eq, runOnRows_eq,
      harguments]
    exact ⟨houtcome, h.unload hmachine hmemory (Machine.exec_shape s.code (p.load sets))⟩
  · rw [runScript, runScript, if_neg hrun, if_neg (hwindows ▸ hrun)]
    exact ⟨rfl, h⟩

theorem runScript_chunkSize (p : Progress) (sets : Array OwnedView) (s : Script) (first count : Nat) :
    (p.runScript sets s first count).1.machine.chunkSize = p.machine.chunkSize := by
  unfold runScript
  split
  · exact Machine.exec_chunkSize ..
  · rfl

/-- Scripts that see the same succeed on both sides or on neither. -/
theorem runScripts_twins {scripts : List Script} (stop : Option Interruption)
    (hs : ∀ s ∈ scripts, s.Sees S known first count) (hchunk : 1 ≤ p.machine.chunkSize)
    (hsize : p.machine.chunkSize < 2 ^ 63) (hcount : count < 2 ^ 63)
    (h : p.Twins S known sets p' sets') :
    ((p.runScripts stop sets first count scripts).2.2 = none ↔
        (p'.runScripts stop sets' first count scripts).2.2 = none) ∧
      (p.runScripts stop sets first count scripts).1.Twins S known
        (p.runScripts stop sets first count scripts).2.1
        (p'.runScripts stop sets' first count scripts).1
        (p'.runScripts stop sets' first count scripts).2.1 := by
  induction scripts generalizing p p' sets sets' with
  | nil =>
    rw [runScripts_nil, runScripts_nil]
    exact ⟨Iff.rfl, h⟩
  | cons s scripts ih =>
    rw [runScripts_cons, runScripts_cons]
    cases stop with
    | some i => exact ⟨by simp, h⟩
    | none =>
      have hkept := p.runScript_chunkSize sets s first count
      obtain ⟨houtcome, hafter⟩ := runScript_twins (hs s (List.mem_cons_self ..)) hchunk hsize hcount h
      dsimp only
      generalize p.runScript sets s first count = r at hkept houtcome hafter ⊢
      generalize p'.runScript sets' s first count = r' at houtcome hafter ⊢
      obtain ⟨p₁, sets₁, outcome⟩ := r
      obtain ⟨p₁', sets₁', outcome'⟩ := r'
      obtain rfl : outcome = outcome' := houtcome
      dsimp only at hkept hafter
      cases outcome with
      | ok =>
        exact ih (fun s hs' => hs s (List.mem_cons_of_mem _ hs')) (hkept ▸ hchunk) (hkept ▸ hsize)
          hafter
      | error e => exact ⟨by simp, hafter⟩
      | fault offset => exact ⟨by simp, hafter⟩

end Progress
end Quadlane.Simulation
