import Quadlane.Proofs.Compaction
import Quadlane.Proofs.Lifetime
import Quadlane.Proofs.ScriptTwins

/-! The stages of a tick do not get in each other's way. Update scripts read the columns of the
previous tick at any time of their run; what they and the removal of the dead leave is not touched
afterwards; and the spawn scripts see of all rows only those of the new instances. -/

namespace Quadlane

/-! ### The middle of a call -/

def Machine.midway (m : Machine) (code : List UInt8) (a : Arguments) (memory : Memory)
    (chunks instructions : Nat) : Store :=
  performAll m.noise a.frame (m.chunk a.count chunks)
    (m.runChunks a code 0 (m.store memory) chunks).1 ((Code.body code).take instructions)

theorem performAll_invariant {table : NoiseTable} {f : Frame} {c : Chunk} {P : Store → Prop}
    {body : List Instruction} {s : Store}
    (hstep : ∀ ins ∈ body, ∀ act s, f.resolve s.memory ins = some act → P s →
      P (act.perform table c s)) (hs : P s) : P (performAll table f c s body) := by
  induction body generalizing s with
  | nil => exact hs
  | cons ins body ih =>
    unfold performAll
    split
    · exact hs
    · next act hact =>
      apply ih fun ins' hins' => hstep ins' (List.mem_cons_of_mem _ hins')
      exact hstep ins (List.mem_cons_self ..) act s hact hs

namespace Machine

variable {m : Machine} {a : Arguments} {code : List UInt8} {memory : Memory}

theorem midway_invariant (code : List UInt8) (memory : Memory) {P : Store → Prop}
    (hstep : ∀ c, ∀ ins ∈ Code.body code, ∀ act s, a.frame.resolve s.memory ins = some act →
      P s → P (act.perform m.noise c s)) (hs : P (m.store memory)) (chunks instructions : Nat) :
    P (m.midway code a memory chunks instructions) := by
  apply performAll_invariant fun ins hins => hstep _ ins (List.mem_of_mem_take hins)
  exact runChunks_invariant code hstep 0 chunks hs

theorem exists_targets (hchunk : 1 ≤ m.chunkSize) (hsize : m.chunkSize < 2 ^ 63)
    (hcount : a.count < 2 ^ 63) {b : BufferId} {j : Nat}
    (h : (m.exec code a memory).memory.cell b j ≠ memory.cell b j) :
    ∃ ins : Instruction, ins.Targets a memory b j := by
  have hcheck : a.check = .ok () := by
    cases hcheck : a.check with
    | ok _ => rfl
    | error e => simp [exec, hcheck] at h
  obtain ⟨entry, hentry, d, hd, hwrites⟩ := exec_writes h
  obtain ⟨-, ⟨k, hk, hentryChunk⟩, mem, hresolve⟩ := log_entry hentry hd
  have hwithin := chunk_within (Arguments.check_eq_ok_iff.mp hcheck).1 hcount hchunk hsize hk
  rw [← hentryChunk] at hwithin
  exact ⟨d.item.2, targets_of_writes hresolve hwithin hwrites⟩

end Machine

namespace Simulation

/-! ### Rows that are set -/

namespace Columns

theorem getD_fill (b : Buffer) (first : Nat) (q : Quad) (count row : Nat) :
    (fill b first q count).getD row Quad.zero =
      if first ≤ row ∧ row < first + count ∧ row < b.size then q else b.getD row Quad.zero := by
  induction count generalizing b first with
  | zero => rw [fill, if_neg (by omega)]
  | succ count ih =>
    rw [fill, ih, Array.size_setIfInBounds]
    by_cases hlater : first + 1 ≤ row ∧ row < first + 1 + count ∧ row < b.size
    · rw [if_pos hlater, if_pos (by omega)]
    · rw [if_neg hlater]
      simp only [Array.getD_eq_getD_getElem?, Array.getElem?_setIfInBounds]
      by_cases hrow : first = row
      · by_cases hlt : first < b.size
        · rw [if_pos hrow, if_pos hlt, if_pos (by omega), Option.getD_some]
        · rw [if_pos hrow, if_neg hlt, if_neg (by omega), Array.getElem?_eq_none (by omega)]
      · rw [if_neg hrow, if_neg (by omega)]

variable {cols : Columns} {values : List Quad} {first count a row : Nat}

theorem fillRows_column (cols : Columns) (values : List Quad) (first count : Nat) {a : Nat}
    (ha : a < cols.size) : (cols.fillRows values first count).getD a #[] =
      fill (cols.getD a #[]) first (values.getD a Quad.zero) count := by
  simp only [fillRows, Array.getD_eq_getD_getElem?, Array.getElem?_mapIdx,
    Array.getElem?_eq_getElem ha, Option.map_some, Option.getD_some]

theorem cell_fillRows_outside (h : row < first ∨ first + count ≤ row) :
    (cols.fillRows values first count).cell a row = cols.cell a row := by
  have hsize : (cols.fillRows values first count).size = cols.size := by
    rw [fillRows, Array.size_mapIdx]
  refine cell_congr hsize fun ha => ?_
  rw [cell, fillRows_column cols values first count ha, getD_fill, if_neg (by omega), ← cell]

theorem Fits.cell_fillRows {width rows : Nat} (h : cols.Fits width rows) (ha : a < width)
    (hrow : first ≤ row) (hlt : row < first + count) (hrows : row < rows) :
    (cols.fillRows values first count).cell a row = values.getD a Quad.zero := by
  obtain ⟨hsize, hlength⟩ := fits_iff.mp h
  have hcolumn : a < cols.size := by omega
  have hlong : (cols.getD a #[]).size = rows := by
    rw [Array.getD_eq_getD_getElem?, Array.getElem?_eq_getElem hcolumn]
    exact hlength _ (Array.getElem_mem hcolumn)
  rw [cell, fillRows_column cols values first count hcolumn, getD_fill,
    if_pos ⟨hrow, hlt, hlong ▸ hrows⟩]

end Columns

namespace Progress

variable {p p' : Progress} {sets sets' : Array OwnedView} {s : Script} {first count : Nat}

/-! ### Rows that are left alone -/

theorem runScript_rows (hchunk : 1 ≤ p.machine.chunkSize) (hsize : p.machine.chunkSize < 2 ^ 63)
    (hcount : count < 2 ^ 63) {row : Nat} (hrow : row < first ∨ first + count ≤ row) (a : Nat) :
    Columns.cell (p.runScript sets s first count).1.back a row = Columns.cell p.back a row := by
  refine Columns.cell_congr (p.runScript_back_size sets s first count) fun ha => ?_
  by_cases hwindows : p.hasWindows s first count = true
  · rw [runScript, if_pos hwindows, runOnRows_eq]
    show ((p.unload _).1.back.getD a #[]).getD row Quad.zero =
      (p.back.getD a #[]).getD row Quad.zero
    rw [unload_back p _ ha, ← load_back p sets ha]
    by_contra hchanged
    have hbelow : (p.arguments s first count).count < 2 ^ 63 := by
      show (count : Int) < 2 ^ 63
      omega
    obtain ⟨ins, hins⟩ := Machine.exists_targets hchunk hsize hbelow hchanged
    rcases hins with ⟨-, w, hslot, -, i, hi, hj⟩ | ⟨-, id, v, x, -, hv, hvar, -⟩
    · -- All windows start at the first of the rows.
      have hstart : w.start = first := by
        rcases List.mem_append.mp (Frame.mem_of_slot_bound hslot).2 with hw | hw
        · obtain ⟨a', -, rfl⟩ := List.mem_map.mp hw
          rfl
        · obtain ⟨a', -, rfl⟩ := List.mem_map.mp hw
          rfl
      replace hi : i < count := Int.ofNat_lt.mp hi
      omega
    · rw [load_view] at hv
      have hle := le_of_numberViews hv (Array.mem_of_getElem? hvar)
      omega
  · rw [runScript, if_neg hwindows]

theorem runScripts_rows {scripts : List Script} {stop : Option Interruption} {f : Option TickFailure}
    (hrun : p.runScripts stop sets first count scripts = (p', sets', f))
    (hchunk : 1 ≤ p.machine.chunkSize) (hsize : p.machine.chunkSize < 2 ^ 63)
    (hcount : count < 2 ^ 63) {row : Nat} (hrow : row < first ∨ first + count ≤ row) (a : Nat) :
    Columns.cell p'.back a row = Columns.cell p.back a row := by
  have hkept := runScripts_invariant hrun
    (P := fun q _ => q.machine.chunkSize = p.machine.chunkSize ∧
      Columns.cell q.back a row = Columns.cell p.back a row)
    (fun s _ q sets hq => ⟨(q.runScript_chunkSize sets s first count).trans hq.1,
      (runScript_rows (hq.1 ▸ hchunk) (hq.1 ▸ hsize) hcount hrow a).trans hq.2⟩) ⟨rfl, rfl⟩
  exact hkept.2

/-! ### Inputs -/

/-- At any time of its run, an input register of the script that is wired to a column has the value of
that column in the row of the instance. -/
def Shows (p : Progress) (sets : Array OwnedView) (s : Script) (columns : Columns) : Prop :=
  ∀ (chunks instructions : Nat) (b : UInt8) (n column : Nat),
    splitRegister b = some (.input, n) → s.wiring.inputs[n]? = some column →
    ∃ slot, (p.arguments s 0 p.live).frame.slot? b = some slot ∧
      ∀ i, (p.machine.midway s.code (p.arguments s 0 p.live) (p.load sets) chunks
          instructions).value (p.machine.chunk p.live chunks) i (.register slot) =
        columns.cell column ((p.machine.chunk p.live chunks).first + i)

theorem shows_front (hstage : s.stage = .update) (hkeeps : s.KeepsInputs)
    (hwindows : p.hasWindows s 0 p.live = true) : p.Shows sets s p.front := by
  intro chunks instructions b n column hb hcolumn
  let W := p.writable sets (· ∈ s.wiring.found)
  have hkept := Machine.midway_invariant (m := p.machine) (a := p.arguments s 0 p.live) s.code
    (p.load sets)
    (P := fun t => W.Closed t.memory ∧ Memory.Agrees W.outside (p.load sets) t.memory)
    (fun c ins hins act t hact ht => by
      have hwrites := Frame.writesWithin_of_resolve (W := W)
        (fun v hv => mem_found.mpr (by rwa [Arguments.frame_sets] at hv))
        (fun slot hslot => slot_writable hwindows (fun _ => id) (.inr (hkeeps ins hins)) hslot) hact
      exact ⟨ht.1.of_shape (act.perform_shape p.machine.noise c t),
        Action.perform_outside p.machine.noise c hwrites ht.1 ht.2⟩)
    ⟨p.writable_closed sets _, .refl _ _⟩ chunks instructions
  have hslot : (p.arguments s 0 p.live).frame.slot? b = some (.bound ⟨column, 0, p.live⟩) := by
    have hspawn : ¬ s.stage = .spawn := by rw [hstage]; decide
    simp [Arguments.frame_slot, Arguments.slot?, hb, arguments, hcolumn, hspawn, Slot.ofWindow,
      Slot.rebind]
  have hlt : column < p.front.size := by
    have hinputs := (Bool.and_eq_true _ _ ▸ hwindows : _ ∧ _).1
    have hwindow := List.all_eq_true.mp hinputs column (List.mem_of_getElem? hcolumn)
    rw [if_neg (by rw [hstage]; decide)] at hwindow
    exact (lt_size_of_hasWindow hwindow).1
  refine ⟨_, hslot, fun i => ?_⟩
  have hcell := hkept.2.cell (b := column) (fun hin => absurd hin.1 (Nat.not_le.mpr hlt))
    (0 + (p.machine.chunk p.live chunks).first + i)
  rw [Nat.zero_add] at hcell
  have hfront := congrArg
    (·.getD ((p.machine.chunk p.live chunks).first + i) Quad.zero) (load_front p sets hlt)
  show Memory.cell _ column (0 + (p.machine.chunk p.live chunks).first + i) = _
  rw [Nat.zero_add]
  exact hcell.symm.trans hfront

/-! ### Survivors -/

theorem compact_of_none (h : p.emitter.aliveColumn = none) : p.compact = p := by
  rw [Progress.compact, h]
  rfl

theorem During.exists_origin {R : Emitter → Prop} (h : p.During R) :
    ∃ origin : Nat → Nat,
      Set.BijOn origin (Set.Iio p.compact.live) {row | row < p.live ∧
        ∀ a, p.emitter.aliveColumn = some a → (Columns.cell p.back a row).x.isPositive = true} ∧
      ∀ column row, row < p.compact.live →
        Columns.cell p.compact.back column row = Columns.cell p.back column (origin row) := by
  cases halive : p.emitter.aliveColumn with
  | none =>
    have hall : {row | row < p.live ∧ ∀ a, (none : Option Nat) = some a →
        (Columns.cell p.back a row).x.isPositive = true} = Set.Iio p.live := by
      ext row
      simp
    rw [compact_of_none halive, hall]
    exact ⟨id, Set.bijOn_id _, fun _ _ _ => rfl⟩
  | some a =>
    have htall : Columns.Tall p.live p.back := by
      intro b hb
      rw [(Columns.fits_iff.mp h.back).2 b hb]
      exact h.live
    obtain ⟨origin, hremoved⟩ := Columns.exists_removed (a := a) 0 p.live htall (Nat.zero_add _).le
    rw [compact_eq halive]
    refine ⟨origin, ?_, fun column row hrow => hremoved.cell column row (Nat.zero_le row) hrow⟩
    have hrows : Set.Iio (Columns.compactFrom a p.back 0 p.live).2 =
        Set.Ico 0 (Columns.compactFrom a p.back 0 p.live).2 := by
      ext row
      simp
    have hliving : {row | row < p.live ∧ ∀ a', some a = some a' →
        (Columns.cell p.back a' row).x.isPositive = true} = Columns.living a p.back 0 (0 + p.live) := by
      ext row
      simp [Columns.living]
    rw [hrows, hliving]
    exact hremoved.bijOn

theorem During.runScripts {R : Emitter → Prop} {scripts : List Script} {stop : Option Interruption}
    {f : Option TickFailure} (h : p.During R)
    (hrun : p.runScripts stop sets first count scripts = (p', sets', f)) : p'.During R :=
  runScripts_invariant hrun (P := fun q _ => q.During R)
    (fun s _ _ sets hq => hq.runScript sets s first count) h

/-! ### New instances -/

def newRows (first count : Nat) : RowSight where
  rows _ row := first ≤ row ∧ row < first + count
  sets _ := True
  random := True

theorem sees_newRows (s : Script) (first count : Nat) :
    s.Sees (newRows first count) (fun _ _ => True) first count where
  inputs _ _ _ _ hle hlt := ⟨hle, hlt⟩
  outputs _ _ _ hle hlt := ⟨hle, hlt⟩
  sets _ _ := trivial
  temporaries := setsBeforeReading_of_known (fun _ _ => trivial) _
  random _ := trivial

theorem During.born {extents : Extents} {scripts : List Script} (h : p.Ready extents)
    (hrows : p.live + count ≤ p.emitter.capacity)
    (hrun : (p.spawnRows count).runScripts none sets p.live count scripts = (p', sets', none))
    {pool : Columns} (hsizes : pool.map Array.size = p.back.map Array.size)
    (hvalues : ∀ a name, p.emitter.attributes[a]? = some name → ∀ j < count,
      pool.cell a (p.live + j) = (p.emitter.defaults.lookup name).getD Quad.zero) :
    ∃ q : Progress,
      Progress.runScripts none { p with back := pool } sets p.live count scripts = (q, sets', none) ∧
      ∀ a, ∀ j < count, Columns.cell p'.back a (p.live + j) = Columns.cell q.back a (p.live + j) := by
  have hfilled := h.back.fillRows p.emitter.spawnValues p.live count
  have hcount : count < 2 ^ 63 := by
    have hcapacity := h.emitter.capacity
    omega
  have htwins : (p.spawnRows count).Twins (newRows p.live count) (fun _ _ => True) sets
      { p with back := pool } sets := by
    refine ⟨rfl, ?_, ?_, rfl, fun _ _ => rfl, rfl, rfl, rfl, fun _ _ _ => rfl, fun _ => rfl⟩
    · exact hsizes.trans (h.back.trans hfilled.symm)
    · rintro a row ⟨hle, hlt⟩
      obtain ⟨j, rfl⟩ := Nat.exists_eq_add_of_le hle
      show Columns.cell (Columns.fillRows _ _ _ _) a _ = Columns.cell pool a _
      have hsize : (Columns.fillRows p.back p.emitter.spawnValues p.live count).size = pool.size := by
        simpa using congrArg Array.size ((h.back.trans hfilled.symm).symm.trans hsizes.symm)
      refine Columns.cell_congr hsize fun hlt' => ?_
      have ha : a < p.emitter.attributes.length := by
        rw [← (Columns.fits_iff.mp hfilled).1, hsize]
        exact hlt'
      have hname := List.getElem?_eq_getElem ha
      rw [h.back.cell_fillRows ha hle hlt (by omega), hvalues a _ hname j (by omega),
        Emitter.spawnValues, List.getD_eq_getElem?_getD, List.getElem?_map, hname,
        Option.map_some, Option.getD_some]
  obtain ⟨hsuccess, hafter⟩ := runScripts_twins (p := p.spawnRows count) none
    (fun s (_ : s ∈ scripts) => sees_newRows s p.live count) h.chunk h.size hcount htwins
  rw [hrun] at hsuccess hafter
  refine ⟨_, Prod.ext rfl (Prod.ext ?_ (hsuccess.mp rfl)), ?_⟩
  · apply Array.ext_getElem?
    intro v
    exact (hafter.view v trivial).symm
  · intro a j hj
    exact hafter.cell a (p.live + j) ⟨Nat.le_add_right _ _, Nat.add_lt_add_left hj _⟩

end Progress

/-! ### Ticks -/

namespace Emitter

/-- A tick of `e` on the data sets `sets` that succeeds with `e'` and `sets'`, stage by stage. The
update scripts leave `p` and `between`, and `count` instances are spawned. -/
structure Staged (e : Emitter) (sets : Array OwnedView) (p : Progress) (between : Array OwnedView)
    (count : Nat) (e' : Emitter) (sets' : Array OwnedView) : Prop where
  updated : ∃ m, e.machine = some m ∧ (Progress.start e m).runScripts none sets 0 e.live
    (e.scripts.filter (·.stage = .update)) = (p, between, none)
  /-- Every update script reads the columns of the previous tick, whatever those before it wrote. -/
  inputs : ∀ before s after, e.scripts.filter (·.stage = .update) = before ++ s :: after →
    ∃ m q sets₀, e.machine = some m ∧
      (Progress.start e m).runScripts none sets 0 e.live before = (q, sets₀, none) ∧
      q.live = e.live ∧ q.Shows sets₀ s e.columns
  /-- The rows that are left come from those that are alive after the update scripts; a column that no
  update script outputs to has the values of the previous tick there. -/
  survivors : ∃ origin : Nat → Nat,
    Set.BijOn origin (Set.Iio p.compact.live) {row | row < e.live ∧
      ∀ a, e.aliveColumn = some a → (Columns.cell p.back a row).x.isPositive = true} ∧
    ∀ row < p.compact.live, ∀ a,
      Columns.cell e'.columns a row = Columns.cell p.back a (origin row) ∧
      ((∀ s ∈ e.scripts, s.stage = .update → a ∉ s.wiring.outputs) →
        Columns.cell e'.columns a row = Columns.cell e.columns a (origin row))
  /-- Neither spawning nor the spawn scripts touch what compaction left. -/
  kept : ∀ row < p.compact.live, ∀ a,
    Columns.cell e'.columns a row = Columns.cell p.compact.back a row
  spawned : count = e.room p.compact.live (p.compact.demand between)
  live : e'.live = p.compact.live + count
  /-- The new rows are what the spawn scripts make of the defaults, whatever the other rows hold. -/
  born : count = 0 ∧ sets' = between ∨
    ∀ pool : Columns, pool.map Array.size = e.columns.map Array.size →
      (∀ a name, e.attributes[a]? = some name → ∀ j < count,
        pool.cell a (p.compact.live + j) = (e.defaults.lookup name).getD Quad.zero) →
      ∃ q : Progress, Progress.runScripts none { p.compact with back := pool } between
          p.compact.live count (e.scripts.filter (·.stage = .spawn)) = (q, sets', none) ∧
        ∀ a, ∀ j < count, Columns.cell e'.columns a (p.compact.live + j) =
          Columns.cell q.back a (p.compact.live + j)

variable {e e' : Emitter} {sets sets' : Array OwnedView} {extents : Extents}

theorem mem_updates {s : Script} (hs : s ∈ e.scripts.filter (·.stage = .update)) :
    s ∈ e.scripts ∧ s.stage = .update := by
  simpa using List.mem_filter.mp hs

theorem Ready.validated (h : e.Ready extents) {s : Script} (hs : s ∈ e.scripts) : s.Validated := by
  obtain ⟨program, hwired⟩ := h.scripts s hs
  exact hwired.validated

theorem Ready.inputs (h : e.Ready extents) {m : Machine} {p : Progress} {between : Array OwnedView}
    {before after : List Script} {s : Script} (hstage : s.stage = .update)
    (hmem : ∀ t ∈ before ++ s :: after, t ∈ e.scripts)
    (hrun : (Progress.start e m).runScripts none sets 0 e.live (before ++ s :: after) =
      (p, between, none)) :
    ∃ q sets₀, (Progress.start e m).runScripts none sets 0 e.live before = (q, sets₀, none) ∧
      q.live = e.live ∧ q.Shows sets₀ s e.columns := by
  obtain ⟨q, sets₀, hbefore, hrest⟩ := Progress.runScripts_append_ok hrun
  obtain ⟨q₁, sets₁, hscript, -⟩ := Progress.runScripts_cons_ok hrest
  have hkeeps {t : Script} (ht : t ∈ before ++ s :: after) : t.KeepsInputs :=
    (h.validated (hmem t ht)).keepsInputs
  have hlive : q.live = e.live := (Progress.runScripts_progress hbefore).2
  have hfront : q.front = e.columns := Progress.runScripts_front hbefore fun t ht =>
    .inr (hkeeps (List.mem_append_left _ ht))
  refine ⟨q, sets₀, hbefore, hlive, ?_⟩
  rw [← hlive] at hscript
  rw [← hfront]
  exact Progress.shows_front hstage (hkeeps (List.mem_append_right _ (List.mem_cons_self ..)))
    (Progress.hasWindows_of_ok hscript).1

theorem Ready.unwritten (h : e.Ready extents) {m : Machine} {p : Progress}
    {between : Array OwnedView} (hrun : (Progress.start e m).runScripts none sets 0 e.live
      (e.scripts.filter (·.stage = .update)) = (p, between, none)) {a : Nat}
    (ha : ∀ s ∈ e.scripts, s.stage = .update → a ∉ s.wiring.outputs) (row : Nat) :
    Columns.cell p.back a row = Columns.cell e.columns a row := by
  have hsize : p.back.size = e.columns.size :=
    Progress.runScripts_invariant hrun (P := fun q _ => q.back.size = e.columns.size)
      (fun s _ q sets hq => (q.runScript_back_size sets s 0 e.live).trans hq) rfl
  refine Columns.cell_congr hsize fun hlt => ?_
  have hcolumn := Progress.runScripts_column hrun (fun s hs => h.validated (mem_updates hs).1) hlt
    fun s hs => ha s (mem_updates hs).1 (mem_updates hs).2
  exact congrArg (·.getD row Quad.zero) hcolumn

theorem Ready.staged (h : e.Ready extents) (htick : e.tick none sets = (e', sets', none)) :
    ∃ p between count, e.Staged sets p between count e' sets' := by
  obtain ⟨m, p, between, count, hm, hupdate, -, hcount, hend⟩ := tick_ok htick
  have hp : p.Ready extents :=
    (Progress.During.start (lasting_ready extents) h hm).runScripts hupdate
  obtain ⟨hemitter, hlive⟩ := Progress.runScripts_progress hupdate
  replace hemitter : p.emitter = e := hemitter
  replace hlive : p.live = e.live := hlive
  have hrows : p.compact.live + count ≤ e.capacity := by
    rw [hcount]
    exact e.room_le _ (hemitter ▸ hp.compact.live) _
  have hcapacity := h.capacity
  -- In either case the rows below stay, whatever was spawned.
  have hkept : ∀ row < p.compact.live, ∀ a,
      Columns.cell e'.columns a row = Columns.cell p.compact.back a row := by
    intro row hrow a
    rcases hend with ⟨-, rfl, -⟩ | ⟨p₂, hspawn, rfl⟩
    · rfl
    · have hscripts := Progress.runScripts_rows hspawn hp.compact.chunk hp.compact.size (by omega)
        (.inl hrow) a
      exact hscripts.trans (Columns.cell_fillRows_outside (.inl hrow))
  obtain ⟨origin, hbijOn, horigin⟩ := hp.exists_origin
  rw [hemitter, hlive] at hbijOn
  refine ⟨p, between, count, ⟨m, hm, hupdate⟩, ?_, ⟨origin, hbijOn, ?_⟩, hkept, hcount, ?_, ?_⟩
  · intro before s after hsplit
    rw [hsplit] at hupdate
    have hmem : ∀ t ∈ before ++ s :: after, t ∈ e.scripts ∧ t.stage = .update := by
      intro t ht
      rw [← hsplit] at ht
      exact mem_updates ht
    have hstage := (hmem s (List.mem_append_right _ (List.mem_cons_self ..))).2
    obtain ⟨q, sets₀, hbefore, hq⟩ := h.inputs hstage (fun t ht => (hmem t ht).1) hupdate
    exact ⟨m, q, sets₀, hm, hbefore, hq⟩
  · intro row hrow a
    have hcell := (hkept row hrow a).trans (horigin a row hrow)
    exact ⟨hcell, fun ha => hcell.trans (h.unwritten hupdate ha (origin row))⟩
  · rcases hend with ⟨rfl, rfl, -⟩ | ⟨p₂, hspawn, rfl⟩
    · rfl
    · exact congrArg (· + count) (Progress.runScripts_progress hspawn).2
  · rcases hend with ⟨hnone, -, rfl⟩ | ⟨p₂, hspawn, rfl⟩
    · exact .inl ⟨hnone, rfl⟩
    · right
      intro pool hsizes hvalues
      have hback : pool.map Array.size = p.compact.back.map Array.size := by
        have hfits := hp.compact.back
        rw [show p.compact.emitter = e from hemitter] at hfits
        rw [hsizes, h.columns, hfits]
      rw [← show p.compact.emitter = e from hemitter] at hvalues hrows
      exact hp.compact.born hrows hspawn hback hvalues

end Emitter

/-- A tick of a world that succeeds ticks every emitter in stages. -/
theorem World.Ready.staged {w w' : World} {o : Options} (h : w.Ready o true)
    {stop : Option Interruption} {s : Scene} (hticks : w.TicksTo stop s)
    (hsucceeds : w.conclude s.run = (w', none)) {i : Nat} {e : Emitter}
    (he : w.emitters[i]? = some e) :
    ∃ e' p between count sets', w'.emitters[i]? = some e' ∧
      e.tick none (w.solo (List.range i)).sets = (e', sets', none) ∧
      e.Staged (w.solo (List.range i)).sets p between count e' sets' := by
  have hfailure := World.failure_of_conclude hsucceeds
  obtain ⟨hall, hemitters, hsets⟩ := hticks.in_order (h.grouped rfl) hfailure
  have hi := (List.getElem?_eq_some_iff.mp he).1
  obtain ⟨e', sets', htick, -, hget⟩ := World.solo_step hall hi he
  rw [World.conclude_of_failure_none hfailure, hemitters, hsets] at hsucceeds
  obtain rfl := (Prod.mk.inj hsucceeds).1
  obtain ⟨p, between, count, hstaged⟩ :=
    (h.emitters rfl e (List.mem_of_getElem? he)).staged htick
  exact ⟨e', p, between, count, sets', hget, htick, hstaged⟩

/-- In every world that a caller can get to and whose emitters are bound, a tick that succeeds keeps the
stages of every emitter apart, and what it leaves is what the next tick that succeeds reads. -/
theorem tick_stages_isolated {o : Options} (hsize : o.chunkSize < 2 ^ 63) {w w' : World}
    (hlives : Lives o true w) {stop : Option Interruption} {s : Scene} (hticks : w.TicksTo stop s)
    (hsucceeds : w.conclude s.run = (w', none)) {i : Nat} {e : Emitter}
    (he : w.emitters[i]? = some e) :
    ∃ e' p between count sets', w'.emitters[i]? = some e' ∧
      e.tick none (w.solo (List.range i)).sets = (e', sets', none) ∧
      e.Staged (w.solo (List.range i)).sets p between count e' sets' ∧
      ∀ (stop' : Option Interruption) (s' : Scene) (w'' : World), w'.TicksTo stop' s' →
        w'.conclude s'.run = (w'', none) →
        ∃ e'' p' between' count' sets'', w''.emitters[i]? = some e'' ∧
          e'.tick none (w'.solo (List.range i)).sets = (e'', sets'', none) ∧
          e'.Staged (w'.solo (List.range i)).sets p' between' count' e'' sets'' := by
  have hready := hlives.ready hsize
  obtain ⟨e', p, between, count, sets', hget, htick, hstaged⟩ := hready.staged hticks hsucceeds he
  refine ⟨e', p, between, count, sets', hget, htick, hstaged, ?_⟩
  intro stop' s' w'' hticks' hsucceeds'
  have hready' := hready.tick hticks
  rw [hsucceeds] at hready'
  exact hready'.staged hticks' hsucceeds' hget

/-! ### Sprouts that grow, widen and come up -/

def adding (input output : Text) : Program :=
  { code := some [1, 2, 64, 0, 128, 0]
    constants := [⟨Text.lit "one", Quad.splat Lane.one⟩]
    inputs := [input]
    outputs := [output] }

def widening : Program :=
  { code := some [37, 1, 0, 0, 1, 0, 64, 0, 128, 0]
    constants := [⟨Text.lit "one", Quad.splat Lane.one⟩]
    inputs := [Text.lit "width"]
    outputs := [Text.lit "width"] }

def grow (wiring : Wiring) : Script :=
  { name := Text.lit "grow", stage := .update,
    program := some (adding (Text.lit "height") (Text.lit "height")), wiring }

def widen (wiring : Wiring) : Script :=
  { name := Text.lit "widen", stage := .update, program := some widening, wiring }

def seed (wiring : Wiring) : Script :=
  { name := Text.lit "seed", stage := .spawn,
    program := some (adding (Text.lit "width") (Text.lit "height")), wiring }

def sproutWiring (input output : Nat) : Wiring :=
  ⟨⟨widening.constants, by decide⟩, [input], [output], []⟩

def sprouts (machine : Option Machine) (scripts : List Script) : Emitter :=
  { Emitter.new (Text.lit "sprouts") 3 [Text.lit "height", Text.lit "width", Text.lit "kind"] with
    spawnCount := 1
    defaults := [(Text.lit "kind", ember 7)]
    scripts
    machine }

def sproutScripts : List Script :=
  [grow (sproutWiring 0 0), widen (sproutWiring 1 1), seed (sproutWiring 1 0)]

def garden (o : Options) : World :=
  ((World.new o).addEmitter (sprouts none [grow {}, widen {}, seed {}])).1

def planted (o : Options) (m : Machine) : World :=
  { World.new o with
    emitters := [sprouts (some m) sproutScripts]
    groups := [[0]]
    bound := true }

theorem bind_garden {o : Options} {m : Machine}
    (hm : Machine.new o.chunkSize (wrap (o.seed + (0 : Nat))) o.noise = m)
    (hexists : m.canExist = true) : (garden o).bind = (planted o m, none) := by
  have hsprouts : (sprouts none [grow {}, widen {}, seed {}]).bind o #[] 0 =
      (sprouts (some m) sproutScripts, none) := by
    have hscripts : bindScripts (sprouts (some m) [grow {}, widen {}, seed {}]) #[]
        [grow {}, widen {}, seed {}] = (sproutScripts, none) := by
      cbv
    exact Emitter.bind_of_steps hm hexists rfl rfl (by cbv) hscripts
  have hworld : garden o =
      { World.new o with emitters := [sprouts none [grow {}, widen {}, seed {}]] } := by
    cbv
  have hemitters : bindEmitters o #[] 0 [sprouts none [grow {}, widen {}, seed {}]] =
      ((planted o m).emitters, none) :=
    bindEmitters_cons hsprouts rfl
  have huses : (planted o m).emitters.map Emitter.uses = [[]] := rfl
  have hgroups : groups [[]] = [[0]] := by
    cbv
  rw [hworld, World.bind]
  simp only [World.new, hemitters, huses, hgroups]
  rfl

def sproutColumns : Columns :=
  #[#[ember 1, ember 0, ember 0], #[ember 2, ember 0, ember 0], #[ember 5, ember 0, ember 0]]

theorem fits_sproutColumns : sproutColumns.Fits 3 3 :=
  Columns.fits_iff.mpr ⟨rfl, by simp [sproutColumns]⟩

def sprout (m : Machine) : Emitter :=
  { sprouts (some m) sproutScripts with columns := sproutColumns, live := 1 }

def sprouting (o : Options) (m : Machine) : World :=
  { planted o m with emitters := [sprout m] }

theorem lives_sprouting {o : Options} {m : Machine} (hbind : (garden o).bind = (planted o m, none)) :
    Lives o true (sprouting o m) := by
  have hgarden := Lives.new.addEmitter (o := o) (Text.lit "sprouts") 3 (by decide)
    [Text.lit "height", Text.lit "width", Text.lit "kind"] 1 [] [] [(Text.lit "kind", ember 7)]
    [grow {}, widen {}, seed {}]
  have hplanted : Lives o true (planted o m) := hgarden.bind hbind
  have hsizes : (sprout m).columns.map Array.size =
      (sprouts (some m) sproutScripts).columns.map Array.size := by
    have hnew := (Emitter.pooled_new (Text.lit "sprouts") 3
      [Text.lit "height", Text.lit "width", Text.lit "kind"]).columns
    exact fits_sproutColumns.trans hnew.symm
  refine hplanted.edit ⟨rfl, rfl, rfl, ?_, rfl, by simp [sprouting, planted, World.new]⟩ id
  exact .cons ⟨rfl, rfl, hsizes, (by decide : 1 ≤ 3), fun _ => rfl⟩ .nil

theorem sound_sprouting {o : Options} {m : Machine} (hbind : (garden o).bind = (planted o m, none)) :
    ∃ extents, (sprouting o m).Sound extents o.Roomy := by
  have hbuilt : Built o (garden o) :=
    Built.new.addEmitter (Text.lit "sprouts") 3
      [Text.lit "height", Text.lit "width", Text.lit "kind"] 1 [] [] [(Text.lit "kind", ember 7)]
      [grow {}, widen {}, seed {}]
  have hsound := ((World.fresh_of_built hbuilt).bind hbind).1
  refine ⟨_, rfl, ?_, hsound.sets⟩
  intro e he
  obtain rfl := List.mem_singleton.mp he
  obtain ⟨-, -, hmachine, halive, hscripts⟩ := hsound.emitters _ (List.mem_cons_self ..)
  exact ⟨fits_sproutColumns, (by decide : 1 ≤ 3), hmachine, halive, hscripts⟩

theorem sprouting_isolated :
    ∃ (w w' : World) (s : Scene) (e e' : Emitter), Lives { chunkSize := 3 } true w ∧
      w.TicksTo none s ∧ w.conclude s.run = (w', none) ∧ w.emitters[0]? = some e ∧
      w'.emitters[0]? = some e' ∧ e.live = 1 ∧ e'.live = 2 ∧
      Columns.cell e'.columns 2 0 = ember 5 := by
  -- A second sprout comes up, and the first keeps its kind.
  let m : Machine := Machine.new 3 (wrap (0 + (0 : Nat))) NoiseTable.standard
  have hbind := bind_garden (o := { chunkSize := 3 }) (m := m) rfl (sized_threes _ _).scratch
  obtain ⟨extents, hsound⟩ := sound_sprouting (o := { chunkSize := 3 }) hbind
  obtain ⟨w', htick, -⟩ := hsound.tick fun _ => by decide
  obtain ⟨s, hticks, hs⟩ := World.tick_ticksTo hsound.bound none
  rw [htick] at hs
  have hlives := lives_sprouting hbind
  obtain ⟨e', p, between, count, sets', hget, -, hstaged, -⟩ :=
    tick_stages_isolated (i := 0) (e := sprout m) (by decide) hlives hticks hs rfl
  obtain ⟨_, -, hrun⟩ := hstaged.updated
  obtain ⟨hemitter, hlive⟩ := Progress.runScripts_progress hrun
  replace hemitter : p.emitter = sprout m := hemitter
  replace hlive : p.live = 1 := hlive
  have hcompact : p.compact = p := Progress.compact_of_none (by rw [hemitter]; rfl)
  have hcount : count = 1 := by
    rw [hstaged.spawned, hcompact, hlive, Progress.demand, hemitter]
    rfl
  have hafter := hstaged.live
  rw [hcompact, hlive, hcount] at hafter
  obtain ⟨origin, hbijOn, hrows⟩ := hstaged.survivors
  rw [hcompact, hlive] at hbijOn hrows
  have horigin : origin 0 = 0 := Nat.lt_one_iff.mp (hbijOn.mapsTo Nat.one_pos).1
  have hkind : ∀ s ∈ sproutScripts, s.stage = .update → 2 ∉ s.wiring.outputs := by
    simp [sproutScripts, grow, widen, seed, sproutWiring]
  have hcell := (hrows 0 Nat.one_pos 2).2 hkind
  rw [horigin] at hcell
  exact ⟨_, w', s, sprout m, e', hlives, hticks, hs, rfl, hget, rfl, hafter, hcell⟩

end Simulation
end Quadlane
