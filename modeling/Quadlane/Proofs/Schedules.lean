import Quadlane.Proofs.Independence
import Quadlane.Proofs.WorldSafety

/-! The order in which groups take their steps does not matter. If one order of the steps succeeds, so
do all, and they end in the same world, which is also the one that the emitters make one after the
other in the order in which they were added. -/

namespace Quadlane.Simulation

open Relation

def World.Schedule (w : World) (s : Scene) : Prop :=
  ReflTransGen Scene.Works (Scene.start w none) s ∧ s.IsOver

/-! ### The end of a tick -/

structure World.Run.Ended (w : World) (r : World.Run) : Prop where
  emitters : ∀ g ∈ w.groups, ∀ i ∈ g, r.emitters[i]? = (w.solo g).emitters[i]?
  sets : ∀ g ∈ w.groups, SameSets (w.GroupUses g) r.sets (w.solo g).sets
  unused : SameSets (fun v => ∀ g ∈ w.groups, ¬ w.GroupUses g v) r.sets (w.sets.map View.reset)
  length : r.emitters.length = w.emitters.length

theorem World.Run.Ended.unique {w : World} {r r' : World.Run} (hw : w.Grouped) (h : r.Ended w)
    (h' : r'.Ended w) : r.emitters = r'.emitters ∧ r.sets = r'.sets := by
  constructor
  · apply List.ext_getElem?
    intro i
    by_cases hi : i < w.emitters.length
    · obtain ⟨g, hg, hmem⟩ := hw.exists_group hi
      rw [h.emitters g hg i hmem, h'.emitters g hg i hmem]
    · have hle := Nat.le_of_not_lt hi
      rw [List.getElem?_eq_none (h.length ▸ hle), List.getElem?_eq_none (h'.length ▸ hle)]
  · apply Array.ext_getElem?
    intro v
    by_cases hv : ∃ g ∈ w.groups, w.GroupUses g v
    · obtain ⟨g, hg, hv⟩ := hv
      rw [(h.sets g hg).view v hv, (h'.sets g hg).view v hv]
    · have hunused : ∀ g ∈ w.groups, ¬ w.GroupUses g v := fun g hg huses => hv ⟨g, hg, huses⟩
      rw [h.unused.view v hunused, h'.unused.view v hunused]

theorem Scene.Follows.ended {w : World} {s : Scene} (h : s.Follows w) (hover : s.IsOver)
    (hreports : s.Reports) (hfailure : s.run.failure = none) :
    s.run.Ended w ∧ ∀ g ∈ w.groups, (w.solo g).failure = none := by
  have hdone : ∀ g ∈ w.groups, Partway w s.run g [] ∧
      SameSets (w.GroupUses g) s.run.sets (w.solo g).sets := by
    intro g hg
    obtain ⟨t, hmem, hfollows⟩ := h.exists_task hg
    rcases Task.eq_of_isOver (hover t hmem) with rfl | ⟨i, f, rfl⟩
    · obtain ⟨before, hsplit, hpart, hsame⟩ := hfollows
      rw [List.append_nil] at hsplit
      rw [hsplit]
      exact ⟨hpart, hsplit ▸ hsame⟩
    · exact absurd hfailure (hreports.reported i f hmem)
  refine ⟨⟨fun g hg => (hdone g hg).1.done, fun g hg => (hdone g hg).2, h.unused, ?_⟩,
    fun g hg => (hdone g hg).1.succeeded⟩
  simpa using congrArg List.length h.uses

/-! ### Ticks in which nothing fails -/

theorem Task.Follows.proceeds {w : World} {g : List Nat} {r : World.Run} {t : Task}
    (h : t.Follows w g r) (hsolo : (w.solo g).failure = none) (hnodup : g.Nodup)
    (hstop : r.stop = none) (ht : t.culprit? = none) :
    (t.advance r).1.culprit? = none ∧ (t.advance r).2.stop = none ∧
      (t.advance r).2.failure = r.failure := by
  -- The group alone ticks each of its emitters, with success.
  have hticks : ∀ {before i rest} {e : Emitter}, g = before ++ i :: rest →
      w.emitters[i]? = some e → (e.tick none (w.solo before).sets).2.2 = none := by
    rintro before i rest e rfl he
    obtain ⟨e', sets', htick, -⟩ := World.Run.group_done rfl hnodup hsolo he
    exact congrArg (·.2.2) htick
  match t with
  | waiting [] => exact ⟨rfl, hstop, rfl⟩
  | waiting (i :: rest) =>
    obtain ⟨before, hg, hpart, -⟩ := h
    have hget := hpart.untouched i (List.mem_cons_self ..)
    simp only [Task.advance]
    cases he : r.emitters[i]? with
    | none => exact ⟨rfl, hstop, rfl⟩
    | some e =>
      have htick := hticks hg (hget.symm.trans he)
      rw [Emitter.tick_eq_run] at htick
      dsimp only
      cases hbegin : e.begin with
      | none =>
        rw [hbegin] at htick
        cases htick
      | some st => exact ⟨rfl, hstop, rfl⟩
  | ticking i st rest =>
    obtain ⟨before, e, sets, hg, hpart, he, hst, hsame, hrun⟩ := h
    have huses : ∀ v, e.Touches v → w.GroupUses g v :=
      fun v hv => ⟨i, hg ▸ List.mem_append_right _ (List.mem_cons_self ..), e, he, hv⟩
    have htick := hticks hg he
    obtain ⟨sets'', -, hfollows⟩ := Stand.step_follows hst huses hsame
    rw [← hrun, hfollows] at htick
    simp only [Task.advance, hstop]
    generalize st.step none r.sets = turn at htick ⊢
    obtain ⟨turn, sets'⟩ := turn
    cases turn with
    | going st' => exact ⟨rfl, rfl, rfl⟩
    | finished e' => exact ⟨rfl, rfl, rfl⟩
    | failed e' f => cases htick
  | failing i f => cases ht
  | failed i f => cases ht

structure Scene.Quiet (s : Scene) : Prop where
  stop : s.run.stop = none
  failure : s.run.failure = none
  tasks : ∀ t ∈ s.tasks, t.culprit? = none

namespace Scene

variable {w : World} {s s' : Scene}

theorem follows_of_works (hw : w.Grouped) (h : ReflTransGen Works (start w none) s) : s.Follows w :=
  follows_of_steps hw (ReflTransGen.mono (fun _ _ => .work) _ _ h)

theorem Quiet.works (h : s.Quiet) (hfollows : s.Follows w) (hw : w.Grouped)
    (hsolo : ∀ g ∈ w.groups, (w.solo g).failure = none) (hstep : s.Works s') : s'.Quiet := by
  obtain @⟨k, t, ht, _⟩ := hstep
  obtain ⟨g, hg, htask⟩ := hfollows.exists_group ht
  have hmem := List.mem_of_getElem? hg
  obtain ⟨hculprit, hstop, hfailure⟩ := htask.proceeds (hsolo g hmem) (hw.nodup hmem) h.stop
    (h.tasks t (List.mem_of_getElem? ht))
  refine ⟨hstop, hfailure.trans h.failure, ?_⟩
  intro t' ht'
  rcases List.mem_or_eq_of_mem_set ht' with hmem | rfl
  · exact h.tasks t' hmem
  · exact hculprit

theorem quiet_of_works (hw : w.Grouped) (hsolo : ∀ g ∈ w.groups, (w.solo g).failure = none)
    (h : ReflTransGen Works (start w none) s) : s.Quiet := by
  induction h with
  | refl =>
    refine ⟨rfl, rfl, ?_⟩
    intro t ht
    obtain ⟨g, -, rfl⟩ := List.mem_map.mp ht
    rfl
  | tail hworks hstep ih => exact ih.works (follows_of_works hw hworks) hw hsolo hstep

/-! ### One emitter after the other -/

def ahead (j : Nat) (g : List Nat) : Task :=
  .waiting (g.filter (j ≤ ·))

theorem ahead_of_mem {g : List Nat} {j : Nat} (hsorted : g.Pairwise (· < ·)) (hj : j ∈ g) :
    ahead j g = .waiting (j :: g.filter (j + 1 ≤ ·)) := by
  refine congrArg Task.waiting ?_
  induction g with
  | nil => cases hj
  | cons i g ih =>
    obtain ⟨hi, hsorted⟩ := List.pairwise_cons.mp hsorted
    rcases List.mem_cons.mp hj with rfl | hj
    · -- All that follows `j` is above it.
      have hkeep : g.filter (j ≤ ·) = g.filter (j + 1 ≤ ·) := by
        apply List.filter_congr
        intro k hk
        have hlt := hi k hk
        simp only [decide_eq_decide]
        omega
      simp [hkeep]
    · have hlt := hi j hj
      rw [List.filter_cons_of_neg (by simpa using hlt), ih hsorted hj,
        List.filter_cons_of_neg (by simp only [decide_eq_true_eq]; omega)]

theorem ahead_of_not_mem {g : List Nat} {j : Nat} (hj : j ∉ g) : ahead j g = ahead (j + 1) g := by
  refine congrArg Task.waiting (List.filter_congr ?_)
  intro k hk
  have hne : k ≠ j := fun heq => hj (heq ▸ hk)
  simp only [decide_eq_decide]
  omega

theorem set_ahead (hw : w.Grouped) {g : List Nat} {j k : Nat} (hk : w.groups[k]? = some g)
    (hj : j ∈ g) : (w.groups.map (ahead (j + 1))).set k (ahead j g) = w.groups.map (ahead j) := by
  apply List.ext_getElem?
  intro l
  rw [List.getElem?_map]
  rcases eq_or_ne k l with rfl | hne
  · have hlt : k < (w.groups.map (ahead (j + 1))).length := by
      rw [List.length_map]
      exact (List.getElem?_eq_some_iff.mp hk).1
    rw [List.getElem?_set_self hlt, hk, Option.map_some]
  · rw [List.getElem?_set_ne hne, List.getElem?_map]
    cases hl : w.groups[l]? with
    | none => rfl
    | some g' => rw [Option.map_some, Option.map_some, ahead_of_not_mem (hw.not_mem_of_ne hk hl hne hj)]

/-- The emitters can be ticked in the order in which they were added. -/
theorem works_in_order (hw : w.Grouped) (hsolo : ∀ g ∈ w.groups, (w.solo g).failure = none) (j : Nat)
    (hj : j ≤ w.emitters.length) :
    ReflTransGen Works (start w none) ⟨w.solo (List.range j), w.groups.map (ahead j)⟩ := by
  induction j with
  | zero =>
    have htasks : w.groups.map (ahead 0) = w.groups.map .waiting := by
      simp [ahead]
    rw [htasks]
    exact .refl
  | succ j ih =>
    have hworks := ih (Nat.le_of_succ_le hj)
    have hquiet := quiet_of_works hw hsolo hworks
    obtain ⟨g, hg, hmem⟩ := hw.exists_group hj
    obtain ⟨k, hk⟩ := List.mem_iff_getElem?.mp hg
    have hplace : k < (w.groups.map (ahead (j + 1))).length := by
      rw [List.length_map]
      exact (List.getElem?_eq_some_iff.mp hk).1
    have hbefore := set_ahead hw hk hmem
    rw [ahead_of_mem (hw.sorted hg) hmem] at hbefore
    have hafter : (w.groups.map (ahead (j + 1))).set k (.waiting (g.filter (j + 1 ≤ ·))) =
        w.groups.map (ahead (j + 1)) := by
      have hget : (w.groups.map (ahead (j + 1)))[k]? = some (ahead (j + 1) g) := by
        rw [List.getElem?_map, hk, Option.map_some]
      obtain ⟨hlt, hget⟩ := List.getElem?_eq_some_iff.mp hget
      rw [← ahead, ← hget, List.set_getElem_self]
    rcases works_tick hplace (w.solo (List.range j)) j (g.filter (j + 1 ≤ ·)) with
      ⟨htick, -⟩ | ⟨f, hfailed⟩
    · rw [hbefore, hafter] at htick
      have hrange : w.solo (List.range (j + 1)) = (w.solo (List.range j)).group [j] := by
        rw [List.range_succ, World.solo, World.Run.group_append rfl]
        exact if_pos hquiet.failure
      rw [hrange]
      exact hworks.trans htick
    · rw [hbefore] at hfailed
      have hquiet' := quiet_of_works hw hsolo (hworks.trans hfailed)
      cases hquiet'.tasks _ (List.mem_set hplace (.failed j f))

end Scene

theorem World.conclude_of_failure_none {w : World} {r : World.Run} (h : r.failure = none) :
    w.conclude r =
      ({ w with emitters := r.emitters, sets := r.sets, ticks := w.ticks + 1 }, none) := by
  simp only [conclude, h]

theorem World.failure_of_conclude {w w' : World} {r : World.Run} (h : w.conclude r = (w', none)) :
    r.failure = none := by
  unfold conclude at h
  split at h
  · cases h
  · assumption

/-- If a tick succeeds, the order of its steps does not matter, and all emitters can as well be ticked
one after the other. -/
theorem tick_schedule_independent {w w₀ w₁ w₂ : World} (hbind : w.bind = (w₀, none))
    (hreached : Reached w₀ w₁) {s : Scene} (hs : w₁.Schedule s)
    (hsucceeds : w₁.conclude s.run = (w₂, none)) :
    (∀ s', w₁.Schedule s' → w₁.conclude s'.run = (w₂, none)) ∧
      w₁.conclude (w₁.solo (List.range w₁.emitters.length)) = (w₂, none) ∧
      w₁.tick none = (w₂, none) := by
  obtain ⟨hbound, hw⟩ := hreached.grouped hbind
  obtain ⟨hworks, hover⟩ := hs
  have hreports : ∀ {s'}, ReflTransGen Scene.Works (Scene.start w₁ none) s' → s'.Reports :=
    fun h => Scene.reports_of_steps (ReflTransGen.mono (fun _ _ => .work) _ _ h)
  obtain ⟨hended, hsolo⟩ := (Scene.follows_of_works hw hworks).ended hover (hreports hworks)
    (World.failure_of_conclude hsucceeds)
  have hagree : ∀ s', w₁.Schedule s' → w₁.conclude s'.run = (w₂, none) := by
    rintro s' ⟨hworks', hover'⟩
    have hfailure := (Scene.quiet_of_works hw hsolo hworks').failure
    obtain ⟨hended', -⟩ := (Scene.follows_of_works hw hworks').ended hover' (hreports hworks') hfailure
    obtain ⟨hemitters, hsets⟩ := hended'.unique hw hended
    rw [← hsucceeds, World.conclude_of_failure_none hfailure, hemitters, hsets,
      World.conclude_of_failure_none (World.failure_of_conclude hsucceeds)]
  refine ⟨hagree, ?_, ?_⟩
  · refine hagree _ ⟨Scene.works_in_order hw hsolo _ (Nat.le_refl _), ?_⟩
    intro t ht
    obtain ⟨g, hg, rfl⟩ := List.mem_map.mp ht
    have hnone : g.filter (w₁.emitters.length ≤ ·) = [] := by
      apply List.filter_eq_nil_iff.mpr
      intro i hi
      have hlt := hw.lt_length hg hi
      simpa using hlt
    rw [Scene.ahead, hnone]
    rfl
  · obtain ⟨s', hworks', hover', hrun⟩ := Scene.tickBound_works w₁ none
    rw [World.tick, if_pos hbound, ← hrun]
    exact hagree s' ⟨hworks', hover'⟩

/-! ### A world with two groups -/

def smoke (machine : Option Machine) : Emitter :=
  { Emitter.new (Text.lit "smoke") 2 [Text.lit "x"] with
    spawnCount := 1
    spawnFrom := Text.lit "events"
    machine }

def flame (machine : Option Machine) : Emitter :=
  { Emitter.new (Text.lit "flame") 2 [Text.lit "life"] with
    spawnCount := 1
    alive := Text.lit "life"
    scripts := [{ idle with stage := .spawn }]
    machine }

def embers (machine : Option Machine) (wiring : Wiring) : Emitter :=
  { Emitter.new (Text.lit "embers") 3 [Text.lit "x", Text.lit "y"] with
    spawnCount := 1
    scripts := [{ name := Text.lit "glow", stage := .update, program := some Machine.noting, wiring }]
    machine }

def kindling (o : Options) : World :=
  (((((World.new o).addDataSet sparkEvents).1.addEmitter (smoke none)).1.addEmitter
    (flame none)).1.addEmitter (embers none {})).1

def kindled (o : Options) (m : Nat → Machine) : World :=
  { World.new o with
    emitters := [
      { smoke (some (m 0)) with spawnSet := some 0 },
      { flame (some (m 1)) with aliveColumn := some 0 },
      embers (some (m 2))
        ⟨⟨Machine.noting.constants, by decide⟩, [0], [1], [some 0]⟩]
    sets := #[sparkEvents]
    groups := [[0, 2], [1]]
    bound := true }

theorem built_kindling (o : Options) : Built o (kindling o) :=
  (((Built.new.addDataSet (Text.lit "events") 2 [Text.lit "x"]).addEmitter (Text.lit "smoke") 2
    [Text.lit "x"] 1 (Text.lit "events") [] [] []).addEmitter (Text.lit "flame") 2 [Text.lit "life"] 1
    [] (Text.lit "life") [] (flame none).scripts).addEmitter (Text.lit "embers") 3
    [Text.lit "x", Text.lit "y"] 1 [] [] [] (embers none {}).scripts

theorem bind_kindling {o : Options} {m : Nat → Machine}
    (hm : ∀ i : Nat, Machine.new o.chunkSize (wrap (o.seed + i)) o.noise = m i)
    (hexists : ∀ i, (m i).canExist = true) : (kindling o).bind = (kindled o m, none) := by
  have hsmoke : (smoke none).bind o #[sparkEvents] 0 =
      ({ smoke (some (m 0)) with spawnSet := some 0 }, none) := by
    have hspawn : (smoke (some (m 0))).bindSpawnSet #[sparkEvents] =
        ({ smoke (some (m 0)) with spawnSet := some 0 }, none) := by
      cbv
    exact Emitter.bind_of_steps (hm 0) (hexists 0) rfl hspawn rfl rfl
  have hflame : (flame none).bind o #[sparkEvents] 1 =
      ({ flame (some (m 1)) with aliveColumn := some 0 }, none) := by
    have hscripts : bindScripts { flame (some (m 1)) with aliveColumn := some 0 } #[sparkEvents]
        (flame none).scripts = ((flame none).scripts, none) := by
      cbv
    exact Emitter.bind_of_steps (hm 1) (hexists 1) rfl rfl rfl hscripts
  have hembers : (embers none {}).bind o #[sparkEvents] 2 =
      (embers (some (m 2)) ⟨⟨Machine.noting.constants, by decide⟩, [0], [1], [some 0]⟩, none) := by
    have hscripts : bindScripts (embers (some (m 2)) {}) #[sparkEvents] (embers none {}).scripts =
        ((embers none ⟨⟨Machine.noting.constants, by decide⟩, [0], [1], [some 0]⟩).scripts, none) := by
      cbv
    exact Emitter.bind_of_steps (hm 2) (hexists 2) rfl rfl rfl hscripts
  have hworld : kindling o = { World.new o with
      emitters := [smoke none, flame none, embers none {}], sets := #[sparkEvents] } := by
    cbv
  have hemitters : bindEmitters o #[sparkEvents] 0 [smoke none, flame none, embers none {}] =
      ((kindled o m).emitters, none) :=
    bindEmitters_cons hsmoke (bindEmitters_cons hflame (bindEmitters_cons hembers rfl))
  have huses : (kindled o m).emitters.map Emitter.uses = [[0], [], [0]] := rfl
  have hgroups : groups [[0], [], [0]] = [[0, 2], [1]] := by
    cbv
  rw [hworld, World.bind]
  simp only [World.new, hemitters, huses, hgroups]
  rfl

theorem exists_kindled : ∃ m, (kindling {}).bind = (kindled {} m, none) := by
  refine ⟨_, bind_kindling (fun _ => rfl) fun i => ?_⟩
  simp only [Machine.canExist, Machine.scratchSize, Machine.new]
  decide

theorem kindling_in_any_order :
    ∃ w₀ w₁ w₂ s, (kindling {}).bind = (w₀, none) ∧ w₀.groups = [[0, 2], [1]] ∧
      w₀.tick none = (w₁, none) ∧ Reached w₀ w₁ ∧ w₁.Schedule s ∧
      w₁.conclude s.run = (w₂, none) ∧
      (∀ s', w₁.Schedule s' → w₁.conclude s'.run = (w₂, none)) ∧
      w₁.conclude (w₁.solo (List.range w₁.emitters.length)) = (w₂, none) ∧
      w₁.tick none = (w₂, none) := by
  -- In the second tick the embers note events, the flame is dead, and there is more smoke.
  obtain ⟨m, hbind⟩ := exists_kindled
  have hsound := ((World.fresh_of_built (built_kindling {})).bind hbind).1
  have hroom : Options.Roomy {} := fun _ => by decide
  obtain ⟨w₁, htick, hadvances⟩ := hsound.tick hroom
  obtain ⟨w₂, htick', -⟩ := hadvances.sound.tick hroom
  have hreached : Reached (kindled {} m) w₁ := by
    obtain ⟨s, hticks, hs⟩ := World.tick_ticksTo hsound.bound none
    have hreached := Reached.tick .refl hticks
    rwa [hs, htick] at hreached
  obtain ⟨s, hworks, hover, hs⟩ := Scene.tickBound_works w₁ none
  rw [World.tick, if_pos hadvances.sound.bound] at htick'
  have hsucceeds := hs.trans htick'
  exact ⟨_, w₁, w₂, s, hbind, rfl, htick, hreached, ⟨hworks, hover⟩, hsucceeds,
    tick_schedule_independent hbind hreached ⟨hworks, hover⟩ hsucceeds⟩

end Quadlane.Simulation
