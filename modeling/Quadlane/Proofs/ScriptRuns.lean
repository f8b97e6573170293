import Quadlane.Proofs.Confinement
import Quadlane.Proofs.Independence

/-! Lists of scripts and whole ticks that succeed, taken apart: which scripts ran on what, and what the
others left alone on the way. -/

namespace Quadlane.Simulation

def Script.Validated (s : Script) : Prop :=
  ∃ p, s.program = some p ∧ p.validate = .ok ()

theorem Script.Validated.keepsInputs {s : Script} (h : s.Validated) : s.KeepsInputs := by
  obtain ⟨p, hp, hvalid⟩ := h
  have hcode : s.code = p.bytes := by rw [Script.code, hp]; rfl
  rw [Script.KeepsInputs, hcode]
  exact p.destination_ne_input hvalid

namespace Progress

variable {p p' : Progress} {sets sets' : Array OwnedView} {s : Script} {first count : Nat}
variable {scripts rest : List Script}

/-! ### Lists of scripts -/

theorem runScripts_cons_ok
    (h : p.runScripts none sets first count (s :: rest) = (p', sets', none)) :
    ∃ p₁ sets₁, p.runScript sets s first count = (p₁, sets₁, .ok) ∧
      p₁.runScripts none sets₁ first count rest = (p', sets', none) := by
  rw [runScripts_cons] at h
  dsimp only at h
  rcases hrun : p.runScript sets s first count with ⟨p₁, sets₁, _ | e | offset⟩
  · rw [hrun] at h
    exact ⟨p₁, sets₁, rfl, h⟩
  · rw [hrun] at h
    cases h
  · rw [hrun] at h
    cases h

theorem runScripts_append_ok
    (h : p.runScripts none sets first count (scripts ++ rest) = (p', sets', none)) :
    ∃ p₁ sets₁, p.runScripts none sets first count scripts = (p₁, sets₁, none) ∧
      p₁.runScripts none sets₁ first count rest = (p', sets', none) := by
  induction scripts generalizing p sets with
  | nil => exact ⟨p, sets, runScripts_nil, h⟩
  | cons s scripts ih =>
    obtain ⟨p₁, sets₁, hrun, hrest⟩ := runScripts_cons_ok h
    obtain ⟨p₂, sets₂, hscripts, hlast⟩ := ih hrest
    refine ⟨p₂, sets₂, ?_, hlast⟩
    rw [runScripts_cons]
    simp only [hrun, hscripts]

/-- What each script keeps, a list of scripts keeps, however it ends. -/
theorem runScripts_invariant {P : Progress → Array OwnedView → Prop} {stop : Option Interruption}
    {f : Option TickFailure}
    (hrun : p.runScripts stop sets first count scripts = (p', sets', f))
    (hstep : ∀ s ∈ scripts, ∀ p sets, P p sets →
      P (p.runScript sets s first count).1 (p.runScript sets s first count).2.1) (h : P p sets) :
    P p' sets' := by
  induction scripts generalizing p sets with
  | nil =>
    rw [runScripts_nil] at hrun
    cases hrun
    exact h
  | cons s scripts ih =>
    have hs := hstep s (List.mem_cons_self ..) p sets h
    rw [runScripts_cons] at hrun
    cases stop with
    | some i =>
      cases hrun
      exact h
    | none =>
      dsimp only at hrun
      generalize p.runScript sets s first count = r at hs hrun
      obtain ⟨p₁, sets₁, outcome⟩ := r
      cases outcome with
      | ok => exact ih hrun (fun s hs => hstep s (List.mem_cons_of_mem _ hs)) hs
      | error e =>
        cases hrun
        exact hs
      | fault offset =>
        cases hrun
        exact hs

section Kept

variable {stop : Option Interruption} {f : Option TickFailure}
variable (hrun : p.runScripts stop sets first count scripts = (p', sets', f))
include hrun

theorem runScripts_set {d : Nat} (h : ∀ s ∈ scripts, d ∉ s.wiring.found) : sets'[d]? = sets[d]? :=
  runScripts_invariant hrun (P := fun _ sets' => sets'[d]? = sets[d]?)
    (fun s hs p sets' hd => by rw [← (p.runScript_elsewhere sets' s first count).view d (h s hs), hd])
    rfl

theorem runScripts_chunkSize : p'.machine.chunkSize = p.machine.chunkSize := by
  refine runScripts_invariant hrun (P := fun p' _ => p'.machine.chunkSize = p.machine.chunkSize)
    (fun s _ p' sets' hp => ?_) rfl
  unfold runScript
  split
  · exact (Machine.exec_chunkSize ..).trans hp
  · exact hp

theorem runScripts_front (h : ∀ s ∈ scripts, s.stage = .spawn ∨ s.KeepsInputs) :
    p'.front = p.front :=
  runScripts_invariant hrun (P := fun p' _ => p'.front = p.front)
    (fun s hs _ _ hp => (runScript_front (h s hs)).trans hp) rfl

theorem runScripts_progress : p'.emitter = p.emitter ∧ p'.live = p.live := by
  have hkept := p.runScripts_kept stop sets first count scripts
  rwa [hrun] at hkept

end Kept

/-! ### Columns of the next tick -/

theorem load_back (p : Progress) (sets : Array OwnedView) {a : Nat} (ha : a < p.back.size) :
    (p.load sets).buffer (p.front.size + a) = p.back.getD a #[] := by
  rw [load_buffer_of_lt p sets (Nat.add_lt_add_left ha _), Array.getD_eq_getD_getElem?,
    Array.getElem?_append_right (Nat.le_add_right _ _), Nat.add_sub_cancel_left,
    Array.getD_eq_getD_getElem?]

theorem load_front (p : Progress) (sets : Array OwnedView) {a : Nat} (ha : a < p.front.size) :
    (p.load sets).buffer a = p.front.getD a #[] := by
  rw [load_buffer_of_lt p sets (Nat.lt_add_right _ ha), Array.getD_eq_getD_getElem?,
    Array.getElem?_append_left ha, Array.getD_eq_getD_getElem?]

theorem unload_back (p : Progress) (r : Machine.Result) {a : Nat} (ha : a < p.back.size) :
    (p.unload r).1.back.getD a #[] = r.memory.buffer (p.front.size + a) := by
  simp only [unload, Memory.buffer, Array.getD_eq_getD_getElem?, Array.getElem?_extract]
  split
  · rfl
  · rw [Array.getElem?_eq_none (by omega)]

theorem runScript_sizes (p : Progress) (sets : Array OwnedView) (s : Script) (first count : Nat) :
    (p.runScript sets s first count).1.back.map Array.size = p.back.map Array.size := by
  unfold runScript
  split
  · have hshape := Machine.exec_shape (m := p.machine) (a := p.arguments s first count) s.code
      (p.load sets)
    rw [runOnRows_eq]
    exact (columns_of_shape hshape).2
  · rfl

theorem runScript_back_size (p : Progress) (sets : Array OwnedView) (s : Script) (first count : Nat) :
    (p.runScript sets s first count).1.back.size = p.back.size := by
  simpa using congrArg Array.size (p.runScript_sizes sets s first count)

theorem runScript_extents (p : Progress) (sets : Array OwnedView) (s : Script) (first count : Nat) :
    (p.runScript sets s first count).2.1.map OwnedView.extent = sets.map OwnedView.extent := by
  unfold runScript
  split
  · have hshape := Machine.exec_shape (m := p.machine) (a := p.arguments s first count) s.code
      (p.load sets)
    rw [runOnRows_eq]
    exact (extent_ownView hshape).trans (congrArg _ (p.ownView_load sets))
  · rfl

theorem runScript_column (hs : s.Validated) {a : Nat} (ha : a < p.back.size)
    (hout : a ∉ s.wiring.outputs) :
    (p.runScript sets s first count).1.back.getD a #[] = p.back.getD a #[] := by
  obtain ⟨program, hprogram, hvalid⟩ := hs
  have hcode : s.code = program.bytes := by rw [Script.code, hprogram]; rfl
  by_cases hwindows : p.hasWindows s first count = true
  · rw [runScript, if_pos hwindows, runOnRows_eq, unload_back _ _ ha, hcode,
      Machine.exec_keeps_inputs hvalid, load_back p sets ha]
    · intro w hw
      obtain ⟨a', ha', rfl⟩ := List.mem_map.mp hw
      intro heq
      obtain rfl : a' = a := Nat.add_left_cancel heq
      exact hout ha'
    · -- The buffers of data sets come after all columns.
      intro id _ v hv x hvar
      rw [load_view] at hv
      have hle := le_of_numberViews hv hvar
      omega
  · rw [runScript, if_neg hwindows]

theorem runScripts_column {stop : Option Interruption} {f : Option TickFailure}
    (hrun : p.runScripts stop sets first count scripts = (p', sets', f))
    (hvalid : ∀ s ∈ scripts, s.Validated) {a : Nat} (ha : a < p.back.size)
    (hout : ∀ s ∈ scripts, a ∉ s.wiring.outputs) : p'.back.getD a #[] = p.back.getD a #[] := by
  have hkept := runScripts_invariant hrun
    (P := fun p' _ => p'.back.size = p.back.size ∧ p'.back.getD a #[] = p.back.getD a #[])
    (fun s hs p' _ hp => ⟨(runScript_back_size ..).trans hp.1,
      (runScript_column (hvalid s hs) (hp.1 ▸ ha) (hout s hs)).trans hp.2⟩) ⟨rfl, rfl⟩
  exact hkept.2

end Progress

/-! ### Removing the dead -/

namespace Columns

variable {cols : Columns}

theorem cell_moveRow (cols : Columns) (source target column row : Nat) :
    (cols.moveRow source target).cell column row =
      if row = target ∧ target < (cols.getD column #[]).size then cols.cell column source
      else cols.cell column row := by
  simp only [cell, moveRow, Array.getD_eq_getD_getElem?, Array.getElem?_map]
  cases cols[column]? with
  | none => simp
  | some b =>
    simp only [Option.map_some, Option.getD_some, Array.getElem?_setIfInBounds]
    by_cases hrow : target = row
    · subst hrow
      by_cases hlt : target < b.size
      · simp [hlt]
      · simp [hlt]
    · rw [if_neg hrow, if_neg fun h => hrow h.1.symm]

theorem size_column_moveRow (cols : Columns) (source target column : Nat) :
    ((cols.moveRow source target).getD column #[]).size = (cols.getD column #[]).size := by
  simp only [moveRow, Array.getD_eq_getD_getElem?, Array.getElem?_map]
  cases cols[column]? with
  | none => rfl
  | some b => simp

theorem compactFrom_live {alive i count : Nat} (h : i + count ≤ (cols.getD alive #[]).size) :
    (compactFrom alive cols i count).2 =
      i + (List.range' i count).countP fun row => (cols.cell alive row).x.isPositive := by
  -- As many rows are left as are alive, for a dead row gives way to the last one.
  induction count generalizing cols i with
  | zero => simp [compactFrom]
  | succ count ih =>
    unfold compactFrom
    split
    · next hpositive =>
      rw [ih (by omega), List.range'_succ, List.countP_cons, if_pos hpositive]
      omega
    · next hdead =>
      have hsize := size_column_moveRow cols (i + count) i alive
      rw [ih (by omega), List.range'_succ, List.countP_cons, if_neg hdead]
      cases count with
      | zero => rfl
      | succ count =>
        -- The last row is counted at the place of the dead one.
        have hmoved : (cols.moveRow (i + (count + 1)) i).cell alive i =
            cols.cell alive (i + 1 + count) := by
          rw [cell_moveRow, if_pos ⟨rfl, by omega⟩]
          congr 1
          omega
        have hothers : (List.range' (i + 1) count).countP
              (fun row => ((cols.moveRow (i + (count + 1)) i).cell alive row).x.isPositive) =
            (List.range' (i + 1) count).countP fun row => (cols.cell alive row).x.isPositive := by
          refine List.countP_congr fun row hrow => ?_
          have hne : row ≠ i := by
            have hle := (List.mem_range'_1.mp hrow).1
            omega
          rw [cell_moveRow, if_neg fun heq => hne heq.1]
        rw [List.range'_succ, List.countP_cons, hmoved, hothers, List.range'_1_concat,
          List.countP_append, List.countP_singleton]
        omega

end Columns

/-! ### Ticks -/

namespace Emitter

variable {e e' : Emitter} {sets sets' : Array OwnedView} {d : Nat}

theorem tick_ok (h : e.tick none sets = (e', sets', none)) :
    ∃ m p sets₁ count, e.machine = some m ∧
      (Progress.start e m).runScripts none sets 0 e.live (e.scripts.filter (·.stage = .update)) =
        (p, sets₁, none) ∧
      p.canCompact = true ∧ count = e.room p.compact.live (p.compact.demand sets₁) ∧
      (count = 0 ∧ e' = p.compact.finish 0 ∧ sets' = sets₁ ∨
        ∃ p₂, (p.compact.spawnRows count).runScripts none sets₁ p.compact.live count
            (e.scripts.filter (·.stage = .spawn)) = (p₂, sets', none) ∧
          e' = p₂.finish count) := by
  unfold Emitter.tick at h
  split at h
  · cases h
  · next m hm =>
    dsimp only at h
    split at h
    · cases h
    · split at h
      · cases h
      · next p sets₁ hupdate =>
        have hemitter : p.emitter = e := (Progress.runScripts_progress hupdate).1
        split at h
        · cases h
        · next hcompact =>
          rw [Bool.not_eq_true, Bool.not_eq_false'] at hcompact
          refine ⟨m, p, sets₁, _, hm, hupdate, hcompact, rfl, ?_⟩
          split at h
          · next hnone =>
            obtain ⟨rfl, hrest⟩ := Prod.mk.inj h
            obtain ⟨rfl, -⟩ := Prod.mk.inj hrest
            exact .inl ⟨hnone, rfl, rfl⟩
          · split at h
            · cases h
            · split at h
              · cases h
              · next p₂ sets₂ hspawn =>
                obtain ⟨rfl, hrest⟩ := Prod.mk.inj h
                obtain ⟨rfl, -⟩ := Prod.mk.inj hrest
                have hscripts : e.scripts.filter (·.stage = .spawn) = p.scriptsOf .spawn := by
                  rw [Progress.scriptsOf, hemitter]
                refine .inr ⟨p₂, ?_, rfl⟩
                rw [hscripts]
                exact hspawn

theorem tick_set (h : e.tick none sets = (e', sets', none)) (hd : ∀ s ∈ e.scripts, d ∉ s.wiring.found) :
    sets'[d]? = sets[d]? := by
  have hstage : ∀ stage, ∀ s ∈ e.scripts.filter (·.stage = stage), d ∉ s.wiring.found :=
    fun stage s hs => hd s (List.mem_filter.mp hs).1
  obtain ⟨m, p, sets₁, count, -, hupdate, -, -, hend⟩ := tick_ok h
  have hfirst := Progress.runScripts_set hupdate (hstage .update)
  rcases hend with ⟨-, -, rfl⟩ | ⟨p₂, hspawn, -⟩
  · exact hfirst
  · exact (Progress.runScripts_set hspawn (hstage .spawn)).trans hfirst

def updated (e : Emitter) (sets : Array OwnedView) : Columns :=
  match e.machine with
  | none => e.columns
  | some m => ((Progress.start e m).runScripts none sets 0 e.live
      (e.scripts.filter (·.stage = .update))).1.back

def survivors (e : Emitter) (sets : Array OwnedView) : Nat :=
  match e.aliveColumn with
  | none => e.live
  | some a => (List.range e.live).countP fun row => ((e.updated sets).cell a row).x.isPositive

theorem compact_live {m : Machine} {p : Progress} {sets₁ : Array OwnedView} (hm : e.machine = some m)
    (hupdate : (Progress.start e m).runScripts none sets 0 e.live
      (e.scripts.filter (·.stage = .update)) = (p, sets₁, none))
    (hcompact : p.canCompact = true) : p.compact.live = e.survivors sets := by
  have hemitter : p.emitter = e := (Progress.runScripts_progress hupdate).1
  have hlive : p.live = e.live := (Progress.runScripts_progress hupdate).2
  simp only [Progress.compact, Columns.compact, survivors, updated, hm, hemitter, hlive, hupdate]
  cases halive : e.aliveColumn with
  | none => rfl
  | some a =>
    simp only [Progress.canCompact, hemitter, halive, hlive, Option.elim_some, Columns.hasRows,
      Bool.and_eq_true, decide_eq_true_eq, Array.all_eq_true_iff_forall_mem] at hcompact
    have hcolumn : e.live ≤ (p.back.getD a #[]).size := by
      rw [Array.getD_eq_getD_getElem?, Array.getElem?_eq_getElem hcompact.1]
      exact hcompact.2 _ (Array.getElem_mem _)
    rw [Columns.compactFrom_live (by omega), Nat.zero_add, List.range_eq_range']

end Emitter

/-! ### One emitter after the other -/

namespace World

variable {w : World} {e : Emitter} {n i j d : Nat}

theorem solo_failure (h : (w.solo (List.range n)).failure = none) (hj : j ≤ n) :
    (w.solo (List.range j)).failure = none := by
  obtain ⟨k, rfl⟩ := Nat.exists_eq_add_of_le hj
  rw [List.range_add] at h
  exact Run.failure_of_append rfl h

theorem solo_append {a b : List Nat} (h : (w.solo a).failure = none) :
    w.solo (a ++ b) = (w.solo a).group b := by
  rw [solo, Run.group_append rfl]
  exact if_pos h

theorem solo_step (h : (w.solo (List.range n)).failure = none) (hj : j < n)
    (he : w.emitters[j]? = some e) :
    ∃ e' sets', e.tick none (w.solo (List.range j)).sets = (e', sets', none) ∧
      (w.solo (List.range (j + 1))).sets = sets' ∧
      (w.solo (List.range n)).emitters[j]? = some e' := by
  have hfirst := solo_failure h hj
  have hbefore := solo_failure h (Nat.le_of_lt hj)
  rw [List.range_succ] at hfirst
  obtain ⟨e', sets', htick, hplace⟩ := Run.group_done (r := (Scene.start w none).run) rfl
    (List.range_succ ▸ List.nodup_range) hfirst he
  refine ⟨e', sets', htick, ?_, ?_⟩
  · rw [List.range_succ, solo, Run.group_snoc rfl hbefore (by simp) he htick]
  · obtain ⟨k, rfl⟩ := Nat.exists_eq_add_of_le hj
    have hlater : j ∉ (List.range k).map (j.succ + ·) := by
      intro hmem
      obtain ⟨l, -, hl⟩ := List.mem_map.mp hmem
      omega
    rw [List.range_add, solo_append (solo_failure h hj), Run.group_elsewhere hlater,
      List.range_succ]
    exact hplace

theorem solo_set (h : (w.solo (List.range n)).failure = none) (hij : i ≤ j) (hj : j ≤ n)
    (hd : ∀ l e, i ≤ l → l < j → w.emitters[l]? = some e → ∀ s ∈ e.scripts, d ∉ s.wiring.found) :
    (w.solo (List.range j)).sets[d]? = (w.solo (List.range i)).sets[d]? := by
  induction j, hij using Nat.le_induction with
  | base => rfl
  | succ j hij ih =>
    have hbefore := ih (Nat.le_of_succ_le hj) fun l e hl hlj => hd l e hl (Nat.lt_succ_of_lt hlj)
    cases he : w.emitters[j]? with
    | none =>
      have hskip : w.solo (List.range (j + 1)) = w.solo (List.range j) := by
        have hnone : (w.solo (List.range j)).emitters[j]? = none :=
          (Run.group_elsewhere (by simp)).trans he
        rw [List.range_succ, solo_append (solo_failure h (Nat.le_of_succ_le hj)),
          Run.group_of_none hnone, Run.group]
      rw [hskip, hbefore]
    | some e =>
      obtain ⟨e', sets', htick, rfl, -⟩ := solo_step h hj he
      rw [Emitter.tick_set htick (hd j e hij (Nat.lt_succ_self j) he), hbefore]

end World
end Quadlane.Simulation
