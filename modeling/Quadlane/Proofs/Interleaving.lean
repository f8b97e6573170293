import Mathlib.Logic.Relation
import Quadlane.Proofs.Components
import Quadlane.Proofs.Sharing

/-! Ticks step by step. The groups of a world are worked on at the same time, in any order of their
steps: a step starts the tick of an emitter, runs one script, removes the dead or spawns. A tick may be
interrupted between any two steps. `World.tick` is one of these runs, the one that works on one group
after the other. -/

namespace Quadlane.Simulation

open Relation

/-! ### The steps of a tick -/

/-- A tick of an emitter between two of its steps. -/
inductive Stand where
  /-- Update scripts are left; after them the dead are removed. -/
  | updating (p : Progress) (scripts : List Script)
  /-- The dead are removed, and it is time to spawn. -/
  | spawning (p : Progress)
  /-- Spawn scripts are left to run on the new rows. -/
  | initializing (p : Progress) (count : Nat) (scripts : List Script)

inductive Turn where
  | going (st : Stand)
  | finished (e : Emitter)
  | failed (e : Emitter) (f : TickFailure)

def Emitter.begin (e : Emitter) : Option Stand :=
  match e.machine with
  | none => none
  | some m =>
    let p := Progress.start e m
    if !p.back.hasRows e.attributes.length p.live then none
    else some (.updating p (p.scriptsOf .update))

namespace Stand

def progress : Stand → Progress
  | updating p _ | spawning p | initializing p _ _ => p

def scripts : Stand → List Script
  | updating _ scripts | initializing _ _ scripts => scripts
  | spawning _ => []

def scriptStep (stop : Option Interruption) (sets : Array OwnedView) (p : Progress) (s : Script)
    (first count : Nat) (next : Progress → Stand) : Turn × Array OwnedView :=
  match stop with
  | some i => (.failed p.abandon (.interrupted i), sets)
  | none =>
    match p.runScript sets s first count with
    | (p, sets, .ok) => (.going (next p), sets)
    | (p, sets, .error e) => (.failed p.abandon (.script p.emitter.name s.name e), sets)
    | (p, sets, .fault _) => (.failed p.abandon .fault, sets)

def step (stop : Option Interruption) (sets : Array OwnedView) : Stand → Turn × Array OwnedView
  | updating p (s :: rest) => scriptStep stop sets p s 0 p.live (updating · rest)
  | updating p [] =>
    if !p.canCompact then (.failed p.abandon .fault, sets) else (.going (.spawning p.compact), sets)
  | spawning p =>
    let count := p.emitter.room p.live (p.demand sets)
    if count = 0 then (.finished (p.finish 0), sets)
    else if !p.back.hasRows p.emitter.attributes.length (p.live + count) then
      (.failed p.abandon .fault, sets)
    else (.going (.initializing (p.spawnRows count) count (p.scriptsOf .spawn)), sets)
  | initializing p count (s :: rest) =>
    scriptStep stop sets p s p.live count (initializing · count rest)
  | initializing p count [] => (.finished (p.finish count), sets)

def afterSpawns (count : Nat) : Progress × Array OwnedView × Option TickFailure →
    Emitter × Array OwnedView × Option TickFailure
  | (p, sets, some f) => (p.abandon, sets, some f)
  | (p, sets, none) => (p.finish count, sets, none)

def runSpawning (stop : Option Interruption) (sets : Array OwnedView) (p : Progress) :
    Emitter × Array OwnedView × Option TickFailure :=
  let count := p.emitter.room p.live (p.demand sets)
  if count = 0 then (p.finish 0, sets, none)
  else if !p.back.hasRows p.emitter.attributes.length (p.live + count) then
    (p.abandon, sets, some .fault)
  else
    afterSpawns count
      ((p.spawnRows count).runScripts stop sets p.live count (p.scriptsOf .spawn))

def afterUpdates (stop : Option Interruption) : Progress × Array OwnedView × Option TickFailure →
    Emitter × Array OwnedView × Option TickFailure
  | (p, sets, some f) => (p.abandon, sets, some f)
  | (p, sets, none) =>
    if !p.canCompact then (p.abandon, sets, some .fault) else runSpawning stop sets p.compact

def run (stop : Option Interruption) (sets : Array OwnedView) :
    Stand → Emitter × Array OwnedView × Option TickFailure
  | updating p scripts => afterUpdates stop (p.runScripts stop sets 0 p.live scripts)
  | spawning p => runSpawning stop sets p
  | initializing p count scripts => afterSpawns count (p.runScripts stop sets p.live count scripts)

def runTurn (stop : Option Interruption) :
    Turn × Array OwnedView → Emitter × Array OwnedView × Option TickFailure
  | (.going st, sets) => st.run stop sets
  | (.finished e, sets) => (e, sets, none)
  | (.failed e f, sets) => (e, sets, some f)

end Stand

section Run

variable {stop : Option Interruption} {sets : Array OwnedView} {p : Progress}

namespace Progress

variable {first count : Nat} {scripts : List Script}

theorem runScripts_nil : p.runScripts stop sets first count [] = (p, sets, none) := by
  rw [runScripts]

theorem runScripts_cons (s : Script) :
    p.runScripts stop sets first count (s :: scripts) =
      match stop with
      | some i => (p, sets, some (.interrupted i))
      | none =>
        match p.runScript sets s first count with
        | (p, sets, .ok) => p.runScripts stop sets first count scripts
        | (p, sets, .error e) => (p, sets, some (.script p.emitter.name s.name e))
        | (p, sets, .fault _) => (p, sets, some .fault) :=
  (runScripts.eq_def ..).trans rfl

theorem runScripts_kept (p : Progress) (stop : Option Interruption) (sets : Array OwnedView)
    (first count : Nat) (scripts : List Script) :
    (p.runScripts stop sets first count scripts).1.emitter = p.emitter ∧
      (p.runScripts stop sets first count scripts).1.live = p.live := by
  induction scripts generalizing p sets with
  | nil =>
    rw [runScripts_nil]
    exact ⟨rfl, rfl⟩
  | cons s scripts ih =>
    have hemitter := p.runScript_emitter sets s first count
    have hlive := p.runScript_live sets s first count
    rw [runScripts_cons]
    cases stop with
    | some i => exact ⟨rfl, rfl⟩
    | none =>
      dsimp only
      generalize p.runScript sets s first count = r at hemitter hlive ⊢
      obtain ⟨p', sets', outcome⟩ := r
      dsimp only at hemitter hlive
      cases outcome with
      | ok =>
        obtain ⟨hemitter', hlive'⟩ := ih p' sets'
        exact ⟨hemitter'.trans hemitter, hlive'.trans hlive⟩
      | error e => exact ⟨hemitter, hlive⟩
      | fault offset => exact ⟨hemitter, hlive⟩

end Progress

namespace Stand

theorem runTurn_scriptStep {s : Script} {first count : Nat} {next : Progress → Stand}
    {rest : List Script} {after : Progress × Array OwnedView × Option TickFailure →
      Emitter × Array OwnedView × Option TickFailure}
    (hfail : ∀ p sets f, after (p, sets, some f) = (p.abandon, sets, some f))
    (hnext : ∀ p' sets', p'.live = p.live → (next p').run stop sets' =
      after (p'.runScripts stop sets' first count rest)) :
    after (p.runScripts stop sets first count (s :: rest)) =
      runTurn stop (scriptStep stop sets p s first count next) := by
  have hlive := p.runScript_live sets s first count
  rw [Progress.runScripts_cons]
  unfold scriptStep
  cases stop with
  | some i => exact hfail p sets _
  | none =>
    dsimp only
    generalize p.runScript sets s first count = r at hlive ⊢
    obtain ⟨p', sets', outcome⟩ := r
    cases outcome with
    | ok => exact (hnext p' sets' hlive).symm
    | error e => exact hfail p' sets' _
    | fault offset => exact hfail p' sets' _

theorem run_step (stop : Option Interruption) (sets : Array OwnedView) (st : Stand) :
    st.run stop sets = runTurn stop (st.step stop sets) := by
  match st with
  | updating p [] =>
    rw [run, Progress.runScripts_nil, afterUpdates, step]
    split <;> rfl
  | updating p (s :: rest) =>
    rw [run, step]
    apply runTurn_scriptStep (fun p sets f => rfl)
    intro p' sets' hlive
    rw [run, hlive]
  | spawning p =>
    rw [run, runSpawning, step]
    split
    · rfl
    · split <;> rfl
  | initializing p count [] =>
    rw [run, Progress.runScripts_nil]
    rfl
  | initializing p count (s :: rest) =>
    rw [run, step]
    apply runTurn_scriptStep (fun p sets f => rfl)
    intro p' sets' hlive
    rw [run, hlive]

end Stand

theorem Emitter.tick_eq_run (e : Emitter) (stop : Option Interruption) (sets : Array OwnedView) :
    e.tick stop sets =
      match e.begin with
      | none => (e, sets, some .fault)
      | some st => st.run stop sets := by
  unfold Emitter.tick Emitter.begin
  cases e.machine with
  | none => rfl
  | some m =>
    dsimp only
    split
    · rfl
    · dsimp only [Stand.run]
      have hemitter := ((Progress.start e m).runScripts_kept stop sets 0 (Progress.start e m).live
        ((Progress.start e m).scriptsOf .update)).1
      generalize (Progress.start e m).runScripts stop sets 0 (Progress.start e m).live
        ((Progress.start e m).scriptsOf .update) = r at hemitter ⊢
      obtain ⟨p, sets', failure⟩ := r
      obtain rfl : p.emitter = e := hemitter
      cases failure with
      | some f => rfl
      | none =>
        dsimp only [Stand.afterUpdates]
        split
        · rfl
        · rw [Stand.runSpawning]
          rfl

end Run

/-! ### Groups that work at the same time -/

inductive Task where
  /-- The emitters that are still to be ticked. -/
  | waiting (rest : List Nat)
  | ticking (i : Nat) (st : Stand) (rest : List Nat)
  /-- The tick of the emitter has failed, which nobody else knows yet. -/
  | failing (i : Nat) (f : TickFailure)
  | failed (i : Nat) (f : TickFailure)

namespace Task

def isOver : Task → Bool
  | waiting [] | failed _ _ => true
  | _ => false

theorem eq_of_isOver {t : Task} (h : t.isOver = true) :
    t = waiting [] ∨ ∃ i f, t = failed i f := by
  cases t with
  | waiting rest =>
    cases rest with
    | nil => exact .inl rfl
    | cons i rest => cases h
  | ticking i st rest => cases h
  | failing i f => cases h
  | failed i f => exact .inr ⟨i, f, rfl⟩

def culprit? : Task → Option Nat
  | failing i _ | failed i _ => some i
  | _ => none

def advance (r : World.Run) : Task → Task × World.Run
  | waiting [] => (waiting [], r)
  | waiting (i :: rest) =>
    match r.emitters[i]? with
    | none => (waiting rest, r)
    | some e =>
      match e.begin with
      | none => (failing i .fault, r)
      | some st => (ticking i st rest, r)
  | ticking i st rest =>
    match st.step r.stop r.sets with
    | (.going st, sets) => (ticking i st rest, { r with sets })
    | (.finished e, sets) => (waiting rest, { r with emitters := r.emitters.set i e, sets })
    | (.failed e f, sets) => (failing i f, { r with emitters := r.emitters.set i e, sets })
  | failing i f => (failed i f, r.fail f)
  | failed i f => (failed i f, r)

end Task

structure Scene where
  run : World.Run
  tasks : List Task

namespace Scene

def start (w : World) (stop : Option Interruption) : Scene where
  run := { emitters := w.emitters, sets := w.sets.map View.reset, stop }
  tasks := w.groups.map .waiting

def IsOver (s : Scene) : Prop :=
  ∀ t ∈ s.tasks, t.isOver = true

inductive Works : Scene → Scene → Prop
  | advance {s : Scene} {k : Nat} {t : Task} (ht : s.tasks[k]? = some t) (hopen : t.isOver = false) :
    Works s { run := (t.advance s.run).2, tasks := s.tasks.set k (t.advance s.run).1 }

/-- Some group takes a step, or the tick is interrupted from outside. -/
inductive Step : Scene → Scene → Prop
  | work {s s' : Scene} (h : Works s s') : Step s s'
  | interrupt {s : Scene} (h : s.run.stop = none) (i : Interruption) :
    Step s { s with run := { s.run with stop := some i } }

end Scene

def World.TicksTo (w : World) (stop : Option Interruption) (s : Scene) : Prop :=
  ReflTransGen Scene.Step (Scene.start w stop) s ∧ s.IsOver

/-! ### Reports -/

theorem World.Run.fail_failure (r : World.Run) (f : TickFailure) :
    (r.fail f).failure = some f ∨ ∃ g, r.failure = some g ∧ (r.fail f).failure = some g := by
  cases hfailure : r.failure with
  | none => cases f <;> simp [fail, hfailure]
  | some g =>
    by_cases hg : g = .fault <;> cases f <;> simp [fail, hfailure, hg, Option.filter]

theorem World.Run.fail_failure_ne_none (r : World.Run) (f : TickFailure) :
    (r.fail f).failure ≠ none := by
  rcases r.fail_failure f with hfailure | ⟨g, -, hfailure⟩ <;> rw [hfailure] <;>
    exact Option.some_ne_none _

@[simp]
theorem World.Run.fail_emitters (r : World.Run) (f : TickFailure) :
    (r.fail f).emitters = r.emitters := by
  cases f <;> rfl

@[simp]
theorem World.Run.fail_sets (r : World.Run) (f : TickFailure) : (r.fail f).sets = r.sets := by
  cases f <;> rfl

theorem Task.advance_report {t : Task} {r : World.Run} (hopen : t.isOver = false) :
    ((∀ i f, (t.advance r).1 ≠ .failed i f) ∧ (t.advance r).2.failure = r.failure) ∨
      ∃ i f, (t.advance r).1 = .failed i f ∧ (t.advance r).2 = r.fail f := by
  match t with
  | waiting [] => cases hopen
  | waiting (i :: rest) =>
    left
    simp only [advance]
    cases r.emitters[i]? with
    | none => exact ⟨fun _ _ => Task.noConfusion, rfl⟩
    | some e =>
      dsimp only
      cases e.begin <;> exact ⟨fun _ _ => Task.noConfusion, rfl⟩
  | ticking i st rest =>
    left
    simp only [advance]
    generalize st.step r.stop r.sets = turn
    obtain ⟨turn, sets⟩ := turn
    cases turn <;> exact ⟨fun _ _ => Task.noConfusion, rfl⟩
  | failing i f => exact .inr ⟨i, f, rfl, rfl⟩
  | failed i f => cases hopen

structure Scene.Reports (s : Scene) : Prop where
  reported : ∀ i f, Task.failed i f ∈ s.tasks → s.run.failure ≠ none
  blamed : ∀ f, s.run.failure = some f → ∃ i, Task.failed i f ∈ s.tasks

namespace Scene

variable {s s' : Scene}

theorem Reports.works (h : s.Reports) (hworks : s.Works s') : s'.Reports := by
  obtain @⟨k, t, ht, hopen⟩ := hworks
  have hk : k < s.tasks.length := (List.getElem?_eq_some_iff.mp ht).1
  -- A group that has failed takes no steps, so its task stays.
  have hstays : ∀ {i f}, Task.failed i f ∈ s.tasks →
      Task.failed i f ∈ s.tasks.set k (t.advance s.run).1 := by
    intro i f hmem
    obtain ⟨l, hl⟩ := List.mem_iff_getElem?.mp hmem
    have hne : k ≠ l := by
      rintro rfl
      rw [ht] at hl
      rw [Option.some.inj hl] at hopen
      cases hopen
    apply List.mem_of_getElem?
    rw [List.getElem?_set_ne hne, hl]
  rcases Task.advance_report (r := s.run) hopen with ⟨hopen', hfailure⟩ | ⟨i, f, htask, hrun⟩
  · constructor
    · intro i f hmem
      rw [hfailure]
      rcases List.mem_or_eq_of_mem_set hmem with hmem | heq
      · exact h.reported i f hmem
      · exact absurd heq.symm (hopen' i f)
    · intro f hf
      rw [hfailure] at hf
      obtain ⟨i, hmem⟩ := h.blamed f hf
      exact ⟨i, hstays hmem⟩
  · constructor
    · intro _ _ _
      rw [hrun]
      exact s.run.fail_failure_ne_none f
    · intro f' hf'
      rw [hrun] at hf'
      rcases s.run.fail_failure f with hfailure | ⟨f'', hbefore, hfailure⟩
      · obtain rfl : f = f' := Option.some.inj (hfailure.symm.trans hf')
        refine ⟨i, ?_⟩
        rw [← htask]
        exact List.mem_set hk _
      · obtain rfl : f'' = f' := Option.some.inj (hfailure.symm.trans hf')
        obtain ⟨i, hmem⟩ := h.blamed f'' hbefore
        exact ⟨i, hstays hmem⟩

theorem Reports.step (h : s.Reports) (hstep : s.Step s') : s'.Reports := by
  cases hstep with
  | work hworks => exact h.works hworks
  | interrupt hstop i => exact ⟨h.reported, h.blamed⟩

theorem reports_of_steps {w : World} {stop : Option Interruption}
    (h : ReflTransGen Step (start w stop) s) : s.Reports := by
  induction h with
  | refl =>
    refine ⟨fun i f hmem => ?_, fun f hf => by cases hf⟩
    obtain ⟨g, -, hg⟩ := List.mem_map.mp hmem
    cases hg
  | tail _ hstep ih => exact ih.step hstep

end Scene

def World.conclude (w : World) (r : World.Run) : World × Option WorldError :=
  let w' := { w with emitters := r.emitters, sets := r.sets }
  match r.failure with
  | some f => (w', some (.tick w.ticks f))
  | none => ({ w' with ticks := w.ticks + 1 }, none)

theorem World.tickBound_eq (w : World) (stop : Option Interruption) :
    w.tickBound stop = w.conclude (w.groups.foldl World.Run.group (Scene.start w stop).run) :=
  rfl

theorem World.Run.group_cons (r : World.Run) (i : Nat) (rest : List Nat) :
    r.group (i :: rest) =
      match r.emitters[i]? with
      | none => r.group rest
      | some e =>
        match e.tick r.stop r.sets with
        | (e, sets, none) =>
          World.Run.group { r with emitters := r.emitters.set i e, sets } rest
        | (e, sets, some f) =>
          World.Run.fail { r with emitters := r.emitters.set i e, sets } f :=
  rfl

/-! ### Working on one group after the other -/

namespace Stand

def size : Stand → Nat
  | updating p scripts => scripts.length + p.emitter.scripts.length + 3
  | spawning p => p.emitter.scripts.length + 2
  | initializing _ _ scripts => scripts.length + 1

theorem scriptStep_going {stop : Option Interruption} {sets : Array OwnedView} {p : Progress}
    {s : Script} {first count : Nat} {next : Progress → Stand} {st : Stand}
    (h : (scriptStep stop sets p s first count next).1 = .going st) :
    st = next (p.runScript sets s first count).1 := by
  unfold scriptStep at h
  cases stop with
  | some i => cases h
  | none =>
    dsimp only at h
    split at h
    · next hrun =>
      rw [hrun]
      exact (Turn.going.inj h).symm
    · cases h
    · cases h

theorem size_step {stop : Option Interruption} {sets : Array OwnedView} {st st' : Stand}
    (h : (st.step stop sets).1 = .going st') : st'.size < st.size := by
  match st with
  | updating p [] =>
    rw [step] at h
    split at h
    · cases h
    · obtain rfl := Turn.going.inj h
      show p.emitter.scripts.length + 2 < ([] : List Script).length + p.emitter.scripts.length + 3
      simp
  | updating p (s :: rest) =>
    rw [step] at h
    rw [scriptStep_going h]
    simp only [size, Progress.runScript_emitter, List.length_cons]
    omega
  | spawning p =>
    rw [step] at h
    split at h
    · cases h
    · split at h
      · cases h
      · obtain rfl := Turn.going.inj h
        have hle := List.length_filter_le (fun s : Script => decide (s.stage = .spawn))
          p.emitter.scripts
        simp only [size, Progress.scriptsOf]
        omega
  | initializing p count [] =>
    rw [step] at h
    cases h
  | initializing p count (s :: rest) =>
    rw [step] at h
    rw [scriptStep_going h]
    simp only [size, List.length_cons]
    omega

end Stand

namespace Scene

variable {r : World.Run} {tasks : List Task} {k i : Nat} {rest : List Nat}

theorem works_advance (hk : k < tasks.length) {t : Task} (hopen : t.isOver = false) :
    Works ⟨r, tasks.set k t⟩ ⟨(t.advance r).2, tasks.set k (t.advance r).1⟩ := by
  have hget : (tasks.set k t)[k]? = some t := by
    rw [List.getElem?_set_self hk]
  have hworks := Works.advance (s := ⟨r, tasks.set k t⟩) hget hopen
  rwa [List.set_set] at hworks

def afterTick (i : Nat) (rest : List Nat) : Option TickFailure → Task
  | none => .waiting rest
  | some f => .failing i f

theorem works_run (hk : k < tasks.length) (r : World.Run) (i : Nat) (rest : List Nat) (st : Stand) :
    ReflTransGen Works ⟨r, tasks.set k (.ticking i st rest)⟩
      ⟨{ r with
          emitters := r.emitters.set i (st.run r.stop r.sets).1
          sets := (st.run r.stop r.sets).2.1 },
        tasks.set k (afterTick i rest (st.run r.stop r.sets).2.2)⟩ := by
  induction hsize : st.size using Nat.strongRecOn generalizing st r with
  | ind size ih =>
    have hworks := works_advance (r := r) hk (t := .ticking i st rest) rfl
    rw [Stand.run_step]
    have hsmaller : ∀ st', (st.step r.stop r.sets).1 = .going st' → st'.size < st.size :=
      fun _ => Stand.size_step
    rw [Task.advance] at hworks
    generalize st.step r.stop r.sets = turn at hworks hsmaller ⊢
    obtain ⟨turn, sets⟩ := turn
    cases turn with
    | going st' =>
      have hlater := ih st'.size (hsize ▸ hsmaller st' rfl) { r with sets } st' rfl
      exact ReflTransGen.head hworks hlater
    | finished e => exact ReflTransGen.single hworks
    | failed e f => exact ReflTransGen.single hworks

theorem works_tick (hk : k < tasks.length) (r : World.Run) (i : Nat) (rest : List Nat) :
    (ReflTransGen Works ⟨r, tasks.set k (.waiting (i :: rest))⟩
        ⟨r.group [i], tasks.set k (.waiting rest)⟩ ∧
      r.group (i :: rest) = (r.group [i]).group rest) ∨
    ∃ f, ReflTransGen Works ⟨r, tasks.set k (.waiting (i :: rest))⟩
      ⟨r.group (i :: rest), tasks.set k (.failed i f)⟩ := by
  have hworks := works_advance (r := r) hk (t := .waiting (i :: rest)) rfl
  rw [Task.advance] at hworks
  rw [World.Run.group_cons r i rest, World.Run.group_cons r i []]
  cases he : r.emitters[i]? with
  | none =>
    simp only [he] at hworks
    exact .inl ⟨ReflTransGen.single hworks, rfl⟩
  | some e =>
    simp only [he] at hworks
    have hset : r.emitters.set i e = r.emitters := by
      obtain ⟨hlt, hget⟩ := List.getElem?_eq_some_iff.mp he
      rw [← hget, List.set_getElem_self]
    dsimp only
    rw [Emitter.tick_eq_run]
    cases hbegin : e.begin with
    | none =>
      simp only [hbegin] at hworks
      refine .inr ⟨.fault, ReflTransGen.head hworks (ReflTransGen.single ?_)⟩
      simp only [hset]
      exact works_advance hk rfl
    | some st =>
      simp only [hbegin] at hworks
      have hrun := works_run hk r i rest st
      dsimp only
      generalize st.run r.stop r.sets = result at hrun ⊢
      obtain ⟨e', sets', failure⟩ := result
      cases failure with
      | none => exact .inl ⟨ReflTransGen.head hworks hrun, rfl⟩
      | some f =>
        refine .inr ⟨f, ReflTransGen.head hworks (hrun.tail ?_)⟩
        exact works_advance (r := { r with emitters := r.emitters.set i e', sets := sets' }) hk
          (t := .failing i f) rfl

theorem works_group (hk : k < tasks.length) (r : World.Run) (g : List Nat) :
    ∃ t : Task, t.isOver = true ∧
      ReflTransGen Works ⟨r, tasks.set k (.waiting g)⟩ ⟨r.group g, tasks.set k t⟩ := by
  induction g generalizing r with
  | nil => exact ⟨.waiting [], rfl, .refl⟩
  | cons i rest ih =>
    rcases works_tick hk r i rest with ⟨hfirst, hgroup⟩ | ⟨f, hfailed⟩
    · obtain ⟨t, hover, hlater⟩ := ih (r.group [i])
      rw [hgroup]
      exact ⟨t, hover, hfirst.trans hlater⟩
    · exact ⟨.failed i f, rfl, hfailed⟩

theorem works_groups (r : World.Run) (done : List Task) (hdone : ∀ t ∈ done, t.isOver = true)
    (groups : List (List Nat)) :
    ∃ s, ReflTransGen Works ⟨r, done ++ groups.map .waiting⟩ s ∧ s.IsOver ∧
      s.run = groups.foldl World.Run.group r := by
  induction groups generalizing r done with
  | nil =>
    refine ⟨_, .refl, ?_, rfl⟩
    simpa [IsOver] using hdone
  | cons g groups ih =>
    have hplace : done.length < (done ++ (g :: groups).map Task.waiting).length := by simp
    obtain ⟨t, hover, hgroup⟩ := works_group hplace r g
    have hset : ∀ t, (done ++ (g :: groups).map Task.waiting).set done.length t =
        done ++ t :: groups.map .waiting := by
      intro t
      rw [List.set_append_right _ _ (Nat.le_refl _), Nat.sub_self, List.map_cons, List.set_cons_zero]
    rw [hset, hset] at hgroup
    have hdone' : ∀ u ∈ done ++ [t], u.isOver = true := by
      intro u hu
      rcases List.mem_append.mp hu with hu | hu
      · exact hdone u hu
      · rw [List.mem_singleton.mp hu]
        exact hover
    obtain ⟨s, hworks, hs, hrun⟩ := ih (r.group g) (done ++ [t]) hdone'
    rw [List.append_assoc] at hworks
    exact ⟨s, hgroup.trans hworks, hs, hrun⟩

/-- The tick of a world is a run in which one group works after the other. -/
theorem tickBound_works (w : World) (stop : Option Interruption) :
    ∃ s, ReflTransGen Works (start w stop) s ∧ s.IsOver ∧ w.conclude s.run = w.tickBound stop := by
  obtain ⟨s, hworks, hover, hrun⟩ := works_groups (start w stop).run [] (by simp) w.groups
  exact ⟨s, hworks, hover, by rw [World.tickBound_eq, hrun]⟩

end Scene

theorem World.tick_ticksTo {w : World} (h : w.bound = true) (stop : Option Interruption) :
    ∃ s, w.TicksTo stop s ∧ w.conclude s.run = w.tick stop := by
  obtain ⟨s, hworks, hover, hrun⟩ := Scene.tickBound_works w stop
  refine ⟨s, ⟨ReflTransGen.mono (fun _ _ => .work) _ _ hworks, hover⟩, ?_⟩
  rw [hrun, World.tick, if_pos h]

end Quadlane.Simulation
