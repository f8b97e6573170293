import Quadlane.Proofs.Interleaving

/-! Groups do not disturb each other. However the steps of a tick are mixed, a group sees its own
emitters and data sets as if it were ticked alone: its steps depend on the data sets of the group and
change no others, and no other group has a step that touches them. -/

namespace Quadlane.Simulation

open Relation

def Emitter.KeepsInputs (e : Emitter) : Prop :=
  ∀ s ∈ e.scripts, s.stage = .spawn ∨ s.KeepsInputs

def Emitter.Kept (e e' : Emitter) : Prop :=
  ∃ machine, e' = { e with machine }

/-! ### One step of a tick -/

structure Stand.Of (e : Emitter) (st : Stand) : Prop where
  emitter : st.progress.emitter = e
  scripts : ∀ s ∈ st.scripts, s ∈ e.scripts
  front : e.KeepsInputs → st.progress.front = e.columns

def Turn.Of (e : Emitter) : Turn → Prop
  | going st => st.Of e
  | finished e' => e'.uses = e.uses
  | failed e' _ => e'.uses = e.uses ∧ (e.KeepsInputs → e.Kept e')

theorem Emitter.begin_of {e : Emitter} {st : Stand} (h : e.begin = some st) : st.Of e := by
  unfold Emitter.begin at h
  split at h
  · cases h
  · next m hm =>
    dsimp only at h
    split at h
    · cases h
    · obtain rfl := Option.some.inj h
      exact ⟨rfl, fun s hs => (List.mem_filter.mp hs).1, fun _ => rfl⟩

namespace Stand

variable {stop : Option Interruption} {sets sets' : Array OwnedView} {used : Nat → Prop}
variable {e : Emitter} {st : Stand} {p : Progress}

theorem abandon_of (hp : p.emitter = e) (hfront : e.KeepsInputs → p.front = e.columns)
    (f : TickFailure) :
    (Turn.failed p.abandon f).Of e := by
  subst hp
  refine ⟨rfl, fun hkeeps => ⟨some p.machine, ?_⟩⟩
  rw [Progress.abandon, hfront hkeeps]

theorem finish_of (hp : p.emitter = e) (count : Nat) : (Turn.finished (p.finish count)).Of e := by
  subst hp
  rfl

theorem demand_same (h : SameSets used sets sets')
    (hspawn : ∀ v, p.emitter.spawnSet = some v → used v) : p.demand sets = p.demand sets' := by
  unfold Progress.demand
  cases hset : p.emitter.spawnSet with
  | none => rfl
  | some v =>
    have hview := h.view v (hspawn v hset)
    simp only [Option.bind_some, hview]

section Script

variable {s : Script} {first count : Nat} {next : Progress → Stand}

theorem scriptStep_same (h : SameSets used sets sets') (hs : ∀ v ∈ s.wiring.found, used v) :
    (scriptStep stop sets p s first count next).1 =
        (scriptStep stop sets' p s first count next).1 ∧
      SameSets used (scriptStep stop sets p s first count next).2
        (scriptStep stop sets' p s first count next).2 := by
  unfold scriptStep
  cases stop with
  | some i => exact ⟨rfl, h⟩
  | none =>
    obtain ⟨hprogress, houtcome, hsets⟩ :=
      p.runScript_same first count h hs
    dsimp only
    generalize p.runScript sets s first count = r at *
    generalize p.runScript sets' s first count = r' at *
    obtain ⟨q, qsets, outcome⟩ := r
    obtain ⟨q', qsets', outcome'⟩ := r'
    obtain rfl : q = q' := hprogress
    obtain rfl : outcome = outcome' := houtcome
    cases outcome <;> exact ⟨rfl, hsets⟩

theorem scriptStep_elsewhere :
    SameSets (· ∉ s.wiring.found) sets (scriptStep stop sets p s first count next).2 := by
  unfold scriptStep
  cases stop with
  | some i => exact .refl _ _
  | none =>
    have hsets := p.runScript_elsewhere sets s first count
    dsimp only
    generalize p.runScript sets s first count = r at hsets ⊢
    obtain ⟨q, qsets, outcome⟩ := r
    cases outcome <;> exact hsets

theorem scriptStep_of (hp : p.emitter = e) (hfront : e.KeepsInputs → p.front = e.columns)
    (hs : s ∈ e.scripts)
    (hnext : ∀ p', p'.emitter = e → (e.KeepsInputs → p'.front = e.columns) → (next p').Of e) :
    (scriptStep stop sets p s first count next).1.Of e := by
  unfold scriptStep
  cases stop with
  | some i => exact abandon_of hp hfront _
  | none =>
    have hemitter : (p.runScript sets s first count).1.emitter = e :=
      (p.runScript_emitter sets s first count).trans hp
    have hcolumns : e.KeepsInputs → (p.runScript sets s first count).1.front = e.columns :=
      fun hkeeps => (Progress.runScript_front (hkeeps s hs)).trans (hfront hkeeps)
    dsimp only
    generalize p.runScript sets s first count = r at hemitter hcolumns ⊢
    obtain ⟨q, qsets, outcome⟩ := r
    cases outcome with
    | ok => exact hnext q hemitter hcolumns
    | error e => exact abandon_of hemitter hcolumns _
    | fault offset => exact abandon_of hemitter hcolumns _

end Script

theorem step_same (stop : Option Interruption) (hst : st.Of e) (huses : ∀ v, e.Touches v → used v)
    (h : SameSets used sets sets') :
    (st.step stop sets).1 = (st.step stop sets').1 ∧
      SameSets used (st.step stop sets).2 (st.step stop sets').2 := by
  have hscript : ∀ s ∈ st.scripts, ∀ v ∈ s.wiring.found, used v :=
    fun s hs v hv => huses v (.inr ⟨s, hst.scripts s hs, hv⟩)
  match st with
  | updating p [] =>
    rw [step, step]
    split <;> exact ⟨rfl, h⟩
  | updating p (s :: rest) => exact scriptStep_same h (hscript s (List.mem_cons_self ..))
  | spawning p =>
    have hemitter : p.emitter = e := hst.emitter
    have hdemand := demand_same h fun v hv => huses v (.inl (hemitter ▸ hv))
    rw [step, step, hdemand]
    split
    · exact ⟨rfl, h⟩
    · split <;> exact ⟨rfl, h⟩
  | initializing p count [] => exact ⟨rfl, h⟩
  | initializing p count (s :: rest) => exact scriptStep_same h (hscript s (List.mem_cons_self ..))

theorem step_elsewhere (hst : st.Of e) :
    SameSets (fun v => ¬ e.Touches v) sets (st.step stop sets).2 := by
  have hscript : ∀ s ∈ st.scripts, ∀ v, ¬ e.Touches v → v ∉ s.wiring.found :=
    fun s hs v hv hmem => hv (.inr ⟨s, hst.scripts s hs, hmem⟩)
  match st with
  | updating p [] =>
    rw [step]
    split <;> exact .refl _ _
  | updating p (s :: rest) => exact scriptStep_elsewhere.mono (hscript s (List.mem_cons_self ..))
  | spawning p =>
    rw [step]
    split
    · exact .refl _ _
    · split <;> exact .refl _ _
  | initializing p count [] => exact .refl _ _
  | initializing p count (s :: rest) =>
    exact scriptStep_elsewhere.mono (hscript s (List.mem_cons_self ..))

theorem step_of (stop : Option Interruption) (sets : Array OwnedView) (hst : st.Of e) :
    (st.step stop sets).1.Of e := by
  obtain ⟨hemitter, hscripts, hfront⟩ := hst
  match st with
  | updating p [] =>
    rw [step]
    split
    · exact abandon_of hemitter hfront _
    · exact ⟨hemitter, fun s hs => absurd hs List.not_mem_nil, hfront⟩
  | updating p (s :: rest) =>
    exact scriptStep_of hemitter hfront (hscripts s (List.mem_cons_self ..)) fun p' hp' hfront' =>
      ⟨hp', fun s hs => hscripts s (List.mem_cons_of_mem _ hs), hfront'⟩
  | spawning p =>
    rw [step]
    split
    · exact finish_of hemitter 0
    · split
      · exact abandon_of hemitter hfront _
      · refine ⟨hemitter, fun s hs => ?_, hfront⟩
        obtain rfl : p.emitter = e := hemitter
        exact (List.mem_filter.mp hs).1
  | initializing p count [] => exact finish_of hemitter count
  | initializing p count (s :: rest) =>
    exact scriptStep_of hemitter hfront (hscripts s (List.mem_cons_self ..)) fun p' hp' hfront' =>
      ⟨hp', fun s hs => hscripts s (List.mem_cons_of_mem _ hs), hfront'⟩

theorem step_of_stop (stop : Option Interruption) (sets : Array OwnedView) (st : Stand) :
    st.step stop sets = st.step none sets ∨ ∃ e' f, (st.step stop sets).1 = .failed e' f := by
  -- An interruption is seen by a step that runs a script, and then the tick fails.
  cases stop with
  | none => exact .inl rfl
  | some i =>
    match st with
    | updating p [] => exact .inl rfl
    | updating p (s :: rest) => exact .inr ⟨_, _, rfl⟩
    | spawning p => exact .inl rfl
    | initializing p count [] => exact .inl rfl
    | initializing p count (s :: rest) => exact .inr ⟨_, _, rfl⟩

theorem step_follows (hst : st.Of e) (huses : ∀ v, e.Touches v → used v)
    (h : SameSets used sets sets') :
    ∃ sets'', SameSets used (st.step none sets).2 sets'' ∧
      st.run none sets' = runTurn none ((st.step none sets).1, sets'') := by
  obtain ⟨hturn, hsame⟩ := step_same none hst huses h
  refine ⟨(st.step none sets').2, hsame, ?_⟩
  rw [run_step, hturn]

theorem step_follows_of_going (stop : Option Interruption) (hst : st.Of e)
    (huses : ∀ v, e.Touches v → used v) (h : SameSets used sets sets')
    (hgoing : ∀ e' f, (st.step stop sets).1 ≠ .failed e' f) :
    ∃ sets'', SameSets used (st.step stop sets).2 sets'' ∧
      st.run none sets' = runTurn none ((st.step stop sets).1, sets'') := by
  -- An interrupted step fails, so a step that does not is the one that is not interrupted.
  rcases step_of_stop stop sets st with hstop | ⟨e', f, hfailed⟩
  · rw [hstop]
    exact step_follows hst huses h
  · exact absurd hfailed (hgoing e' f)

end Stand

/-! ### A group alone -/

namespace World.Run

variable {r : World.Run} {i : Nat} {a b : List Nat} {e : Emitter}

theorem group_of_none (he : r.emitters[i]? = none) : r.group (i :: a) = r.group a := by
  rw [group_cons, he]

section Tick

variable {e' : Emitter} {sets' : Array OwnedView}

theorem group_of_tick (he : r.emitters[i]? = some e)
    (htick : e.tick r.stop r.sets = (e', sets', none)) :
    r.group (i :: a) = group { r with emitters := r.emitters.set i e', sets := sets' } a := by
  rw [group_cons, he]
  simp only [htick]

theorem group_of_failure {f : TickFailure} (he : r.emitters[i]? = some e)
    (htick : e.tick r.stop r.sets = (e', sets', some f)) :
    r.group (i :: a) = fail { r with emitters := r.emitters.set i e', sets := sets' } f := by
  rw [group_cons, he]
  simp only [htick]

end Tick

theorem group_elsewhere (h : i ∉ a) : (r.group a).emitters[i]? = r.emitters[i]? := by
  induction a generalizing r with
  | nil => rfl
  | cons j a ih =>
    have hne : j ≠ i := fun heq => h (heq ▸ List.mem_cons_self ..)
    have ha : i ∉ a := fun hmem => h (List.mem_cons_of_mem _ hmem)
    cases he : r.emitters[j]? with
    | none =>
      rw [group_of_none he]
      exact ih ha
    | some e =>
      rcases htick : e.tick r.stop r.sets with ⟨e', sets', _ | f⟩
      · rw [group_of_tick he htick, ih ha]
        exact List.getElem?_set_ne hne
      · rw [group_of_failure he htick, fail_emitters]
        exact List.getElem?_set_ne hne

theorem group_append (hr : r.failure = none) :
    r.group (a ++ b) = if (r.group a).failure = none then (r.group a).group b else r.group a := by
  induction a generalizing r with
  | nil => exact (if_pos hr).symm
  | cons i a ih =>
    rw [List.cons_append]
    cases he : r.emitters[i]? with
    | none =>
      rw [group_of_none he, group_of_none he]
      exact ih hr
    | some e =>
      rcases htick : e.tick r.stop r.sets with ⟨e', sets', _ | f⟩
      · rw [group_of_tick he htick, group_of_tick he htick]
        apply ih
        exact hr
      · rw [group_of_failure he htick, group_of_failure he htick, if_neg]
        exact fail_failure_ne_none _ f

theorem group_stop (h : (r.group a).failure = none) : (r.group a).stop = r.stop := by
  induction a generalizing r with
  | nil => rfl
  | cons i a ih =>
    cases he : r.emitters[i]? with
    | none =>
      rw [group_of_none he] at h ⊢
      exact ih h
    | some e =>
      rcases htick : e.tick r.stop r.sets with ⟨e', sets', _ | f⟩
      · rw [group_of_tick he htick] at h ⊢
        exact ih h
      · rw [group_of_failure he htick] at h
        exact absurd h (fail_failure_ne_none _ f)

theorem failure_of_append (hr : r.failure = none) (h : (r.group (a ++ b)).failure = none) :
    (r.group a).failure = none := by
  rw [group_append hr] at h
  split at h
  · assumption
  · exact h

theorem group_snoc (hr : r.failure = none) (ha : (r.group a).failure = none) (hi : i ∉ a)
    (he : r.emitters[i]? = some e) {e' : Emitter} {sets' : Array OwnedView}
    (htick : e.tick r.stop (r.group a).sets = (e', sets', none)) :
    r.group (a ++ [i]) =
      { r.group a with emitters := (r.group a).emitters.set i e', sets := sets' } := by
  rw [← group_elsewhere hi] at he
  rw [← group_stop ha] at htick
  rw [group_append hr, if_pos ha, group_of_tick he htick, group]

theorem group_done (hr : r.failure = none) (hnodup : (a ++ i :: b).Nodup)
    (h : (r.group (a ++ i :: b)).failure = none) (he : r.emitters[i]? = some e) :
    ∃ e' sets', e.tick r.stop (r.group a).sets = (e', sets', none) ∧
      (r.group (a ++ i :: b)).emitters[i]? = some e' := by
  have ha := failure_of_append hr h
  obtain ⟨-, hb, hdisjoint⟩ := List.nodup_append.mp hnodup
  have hia : i ∉ a := fun hmem => hdisjoint i hmem i (List.mem_cons_self ..) rfl
  have hib : i ∉ b := (List.nodup_cons.mp hb).1
  rw [← group_elsewhere hia] at he
  rw [group_append hr, if_pos ha] at h ⊢
  rw [← group_stop ha]
  rcases htick : e.tick (r.group a).stop (r.group a).sets with ⟨e', sets', _ | f⟩
  · refine ⟨e', sets', rfl, ?_⟩
    rw [group_of_tick he htick, group_elsewhere hib]
    exact List.getElem?_set_self (List.getElem?_eq_some_iff.mp he).1
  · rw [group_of_failure he htick] at h
    exact absurd h (fail_failure_ne_none _ f)

end World.Run

def World.solo (w : World) (g : List Nat) : World.Run :=
  (Scene.start w none).run.group g

def World.GroupUses (w : World) (g : List Nat) (v : Nat) : Prop :=
  ∃ i ∈ g, ∃ e, w.emitters[i]? = some e ∧ e.Touches v

structure Partway (w : World) (r : World.Run) (before rest : List Nat) : Prop where
  succeeded : (w.solo before).failure = none
  done : ∀ i ∈ before, r.emitters[i]? = (w.solo before).emitters[i]?
  untouched : ∀ i ∈ rest, r.emitters[i]? = w.emitters[i]?

/-- The work on a group stands where it could stand if the group were alone. In the middle of a tick,
the data sets are such that running to the end gives what the whole tick gives. -/
def Task.Follows (w : World) (g : List Nat) (r : World.Run) : Task → Prop
  | waiting rest => ∃ before, g = before ++ rest ∧ Partway w r before rest ∧
    SameSets (w.GroupUses g) r.sets (w.solo before).sets
  | ticking i st rest => ∃ before e sets, g = before ++ i :: rest ∧
    Partway w r before (i :: rest) ∧ w.emitters[i]? = some e ∧ st.Of e ∧
    SameSets (w.GroupUses g) r.sets sets ∧ st.run none sets = e.tick none (w.solo before).sets
  | failing i _ | failed i _ => ∃ before rest e e', g = before ++ i :: rest ∧
    Partway w r before rest ∧ w.emitters[i]? = some e ∧ r.emitters[i]? = some e' ∧
    (e.KeepsInputs → e.Kept e')

section Follows

variable {w : World} {g before rest : List Nat} {r r' : World.Run} {t : Task} {i : Nat} {e : Emitter}

theorem Partway.congr (h : Partway w r before rest)
    (hbefore : ∀ i ∈ before, r'.emitters[i]? = r.emitters[i]?)
    (hrest : ∀ i ∈ rest, r'.emitters[i]? = r.emitters[i]?) : Partway w r' before rest :=
  ⟨h.succeeded, fun i hi => (hbefore i hi).trans (h.done i hi),
    fun i hi => (hrest i hi).trans (h.untouched i hi)⟩

theorem Task.Follows.congr (h : t.Follows w g r)
    (hemitters : ∀ i ∈ g, r'.emitters[i]? = r.emitters[i]?)
    (hsets : SameSets (w.GroupUses g) r'.sets r.sets) : t.Follows w g r' := by
  match t with
  | waiting rest =>
    obtain ⟨before, rfl, hpart, hsame⟩ := h
    exact ⟨before, rfl, hpart.congr (fun i hi => hemitters i (List.mem_append_left _ hi))
      (fun i hi => hemitters i (List.mem_append_right _ hi)), hsets.trans hsame⟩
  | ticking i st rest =>
    obtain ⟨before, e, sets, rfl, hpart, he, hst, hsame, hrun⟩ := h
    exact ⟨before, e, sets, rfl, hpart.congr (fun i hi => hemitters i (List.mem_append_left _ hi))
      (fun i hi => hemitters i (List.mem_append_right _ hi)), he, hst, hsets.trans hsame, hrun⟩
  | failing i f | failed i f =>
    obtain ⟨before, rest, e, e', rfl, hpart, he, he', hkept⟩ := h
    refine ⟨before, rest, e, e', rfl, hpart.congr
      (fun i hi => hemitters i (List.mem_append_left _ hi))
      (fun i hi => hemitters i (List.mem_append_right _ (List.mem_cons_of_mem _ hi))), he, ?_, hkept⟩
    rw [hemitters i (List.mem_append_right _ (List.mem_cons_self ..))]
    exact he'

theorem Partway.tail (h : Partway w r before (i :: rest)) : Partway w r before rest :=
  ⟨h.succeeded, h.done, fun j hj => h.untouched j (List.mem_cons_of_mem _ hj)⟩

theorem Partway.set (h : Partway w r before rest) (hi : i ∉ before ++ rest) (e' : Emitter)
    (sets' : Array OwnedView) :
    Partway w { r with emitters := r.emitters.set i e', sets := sets' } before rest := by
  have hne : ∀ j ∈ before ++ rest, i ≠ j := fun j hj heq => hi (heq ▸ hj)
  apply h.congr
  · exact fun j hj => List.getElem?_set_ne (hne j (List.mem_append_left _ hj))
  · exact fun j hj => List.getElem?_set_ne (hne j (List.mem_append_right _ hj))

theorem Partway.snoc (h : Partway w r before (i :: rest)) (hi : i ∉ before ++ rest)
    (he : w.emitters[i]? = some e) {e' : Emitter} {sets' : Array OwnedView}
    (htick : e.tick none (w.solo before).sets = (e', sets', none)) (sets'' : Array OwnedView) :
    Partway w { r with emitters := r.emitters.set i e', sets := sets'' } (before ++ [i]) rest ∧
      (w.solo (before ++ [i])).sets = sets' := by
  have hbefore : i ∉ before := fun hmem => hi (List.mem_append_left _ hmem)
  have hsolo : w.solo (before ++ [i]) =
      { w.solo before with emitters := (w.solo before).emitters.set i e', sets := sets' } :=
    World.Run.group_snoc rfl h.succeeded hbefore he htick
  have hlt : i < r.emitters.length :=
    (List.getElem?_eq_some_iff.mp ((h.untouched i (List.mem_cons_self ..)).trans he)).1
  have hlt' : i < (w.solo before).emitters.length := by
    have hget : (w.solo before).emitters[i]? = some e := (World.Run.group_elsewhere hbefore).trans he
    exact (List.getElem?_eq_some_iff.mp hget).1
  have hset := h.tail.set hi e' sets''
  refine ⟨⟨?_, ?_, hset.untouched⟩, ?_⟩
  · rw [hsolo]
    exact h.succeeded
  · intro j hj
    rw [hsolo]
    rcases List.mem_append.mp hj with hj | hj
    · have hne : i ≠ j := fun heq => hbefore (heq ▸ hj)
      rw [hset.done j hj, List.getElem?_set_ne hne]
    · rw [List.mem_singleton.mp hj, List.getElem?_set_self hlt, List.getElem?_set_self hlt']
  · rw [hsolo]

theorem Task.Follows.advance (h : t.Follows w g r) (hnodup : g.Nodup)
    (hin : ∀ i ∈ g, i < w.emitters.length) :
    (t.advance r).1.Follows w g (t.advance r).2 := by
  match t with
  | waiting [] => exact h
  | waiting (i :: rest) =>
    obtain ⟨before, rfl, hpart, hsame⟩ := h
    have hi : i < w.emitters.length := hin i (List.mem_append_right _ (List.mem_cons_self ..))
    have he : w.emitters[i]? = some (w.emitters[i]) := List.getElem?_eq_getElem hi
    generalize w.emitters[i] = e at he
    have hget : r.emitters[i]? = some e := (hpart.untouched i (List.mem_cons_self ..)).trans he
    simp only [Task.advance, hget]
    cases hbegin : e.begin with
    | none =>
      exact ⟨before, rest, e, e, rfl, hpart.tail, he, hget, fun _ => ⟨e.machine, rfl⟩⟩
    | some st =>
      refine ⟨before, e, (w.solo before).sets, rfl, hpart, he, Emitter.begin_of hbegin, hsame, ?_⟩
      rw [Emitter.tick_eq_run, hbegin]
  | ticking i st rest =>
    obtain ⟨before, e, sets, rfl, hpart, he, hst, hsame, hrun⟩ := h
    have hi : i ∉ before ++ rest := (List.nodup_cons.mp (List.nodup_middle.mp hnodup)).1
    have hget : r.emitters[i]? = some e := (hpart.untouched i (List.mem_cons_self ..)).trans he
    have hlt := (List.getElem?_eq_some_iff.mp hget).1
    have huses : ∀ v, e.Touches v → w.GroupUses (before ++ i :: rest) v :=
      fun v hv => ⟨i, List.mem_append_right _ (List.mem_cons_self ..), e, he, hv⟩
    have hof := Stand.step_of r.stop r.sets hst
    have hfollows := Stand.step_follows_of_going r.stop hst huses hsame
    rw [hrun] at hfollows
    simp only [Task.advance]
    generalize st.step r.stop r.sets = turn at hof hfollows ⊢
    obtain ⟨turn, sets'⟩ := turn
    cases turn with
    | going st' =>
      obtain ⟨sets'', hsame', htick⟩ := hfollows fun _ _ => Turn.noConfusion
      exact ⟨before, e, sets'', rfl, ⟨hpart.succeeded, hpart.done, hpart.untouched⟩, he, hof, hsame',
        htick.symm⟩
    | finished e' =>
      obtain ⟨sets'', hsame', htick⟩ := hfollows fun _ _ => Turn.noConfusion
      obtain ⟨hpart', hsets⟩ := hpart.snoc hi he htick sets'
      refine ⟨before ++ [i], by simp, hpart', ?_⟩
      rw [hsets]
      exact hsame'
    | failed e' f =>
      refine ⟨before, rest, e, e', rfl, hpart.tail.set hi e' sets', he, ?_, hof.2⟩
      exact List.getElem?_set_self hlt
  | failing i f =>
    obtain ⟨before, rest, e, e', hg, hpart, he, hget, hkept⟩ := h
    have hemitters : (r.fail f).emitters = r.emitters := r.fail_emitters f
    refine ⟨before, rest, e, e', hg, hpart.congr ?_ ?_, he, ?_, hkept⟩
    · exact fun j _ => congrArg (·[j]?) hemitters
    · exact fun j _ => congrArg (·[j]?) hemitters
    · exact (congrArg (·[i]?) hemitters).trans hget
  | failed i f => exact h

theorem Task.advance_waiting (rest : List Nat) : ((Task.waiting rest).advance r).2 = r := by
  cases rest with
  | nil => rfl
  | cons i rest =>
    simp only [Task.advance]
    cases r.emitters[i]? with
    | none => rfl
    | some e =>
      dsimp only
      cases e.begin <;> rfl

structure Task.Leaves (w : World) (g : List Nat) (r r' : World.Run) : Prop where
  emitters : ∀ i, i ∉ g → r'.emitters[i]? = r.emitters[i]?
  sets : SameSets (fun v => ¬ w.GroupUses g v) r'.sets r.sets
  uses : r'.emitters.map Emitter.uses = r.emitters.map Emitter.uses

theorem Task.Follows.leaves (h : t.Follows w g r) : Task.Leaves w g r (t.advance r).2 := by
  match t with
  | waiting rest =>
    rw [Task.advance_waiting]
    exact ⟨fun _ _ => rfl, .refl _ _, rfl⟩
  | ticking i st rest =>
    obtain ⟨before, e, sets, rfl, hpart, he, hst, -, -⟩ := h
    have hget : r.emitters[i]? = some e := (hpart.untouched i (List.mem_cons_self ..)).trans he
    have hmem : i ∈ before ++ i :: rest := List.mem_append_right _ (List.mem_cons_self ..)
    have hset : ∀ e' : Emitter, e'.uses = e.uses →
        (∀ j, j ∉ before ++ i :: rest → (r.emitters.set i e')[j]? = r.emitters[j]?) ∧
          (r.emitters.set i e').map Emitter.uses = r.emitters.map Emitter.uses := by
      intro e' huses
      constructor
      · intro j hj
        have hne : i ≠ j := fun heq => hj (heq ▸ hmem)
        exact List.getElem?_set_ne hne
      · have hmap : (r.emitters.map Emitter.uses)[i]? = some e.uses := by
          rw [List.getElem?_map, hget, Option.map_some]
        obtain ⟨hlt, huses'⟩ := List.getElem?_eq_some_iff.mp hmap
        rw [List.map_set, huses, ← huses', List.set_getElem_self]
    have hsets : SameSets (fun v => ¬ w.GroupUses (before ++ i :: rest) v)
        (st.step r.stop r.sets).2 r.sets :=
      ((Stand.step_elsewhere hst).mono fun v hv htouch => hv ⟨i, hmem, e, he, htouch⟩).symm
    have hof := Stand.step_of r.stop r.sets hst
    simp only [Task.advance]
    generalize st.step r.stop r.sets = turn at hof hsets ⊢
    obtain ⟨turn, sets'⟩ := turn
    cases turn with
    | going st' => exact ⟨fun _ _ => rfl, hsets, rfl⟩
    | finished e' => exact ⟨(hset e' hof).1, hsets, (hset e' hof).2⟩
    | failed e' f => exact ⟨(hset e' hof.1).1, hsets, (hset e' hof.1).2⟩
  | failing i f =>
    simp only [Task.advance]
    exact ⟨fun _ _ => by rw [World.Run.fail_emitters], by rw [World.Run.fail_sets]; exact .refl _ _,
      by rw [World.Run.fail_emitters]⟩
  | failed i f => exact ⟨fun _ _ => rfl, .refl _ _, rfl⟩

end Follows

/-! ### All groups -/

def World.Grouped (w : World) : Prop :=
  w.groups = Simulation.groups (w.emitters.map Emitter.uses)

namespace World.Grouped

variable {w : World} {g g' : List Nat} {k l i v : Nat}

theorem lt_length (h : w.Grouped) (hg : g ∈ w.groups) (hi : i ∈ g) : i < w.emitters.length := by
  rw [h] at hg
  simpa using mem_flatten_groups.mp (List.mem_flatten.mpr ⟨g, hg, hi⟩)

theorem sorted (h : w.Grouped) (hg : g ∈ w.groups) : g.Pairwise (· < ·) := by
  rw [h] at hg
  exact sorted_of_mem_groups hg

theorem nodup (h : w.Grouped) (hg : g ∈ w.groups) : g.Nodup :=
  (h.sorted hg).imp Nat.ne_of_lt

theorem exists_group (h : w.Grouped) (hi : i < w.emitters.length) : ∃ g ∈ w.groups, i ∈ g := by
  rw [h]
  exact List.mem_flatten.mp (mem_flatten_groups.mpr (by simpa using hi))

theorem not_mem_of_ne (h : w.Grouped) (hk : w.groups[k]? = some g) (hl : w.groups[l]? = some g')
    (hne : k ≠ l) (hi : i ∈ g) : i ∉ g' := by
  have hdisjoint := disjoint_groups (w.emitters.map Emitter.uses)
  rw [← h, List.pairwise_iff_getElem] at hdisjoint
  obtain ⟨hklt, rfl⟩ := List.getElem?_eq_some_iff.mp hk
  obtain ⟨hllt, rfl⟩ := List.getElem?_eq_some_iff.mp hl
  intro hi'
  rcases Nat.lt_or_gt_of_ne hne with hlt | hlt
  · exact hdisjoint k l hklt hllt hlt hi hi'
  · exact hdisjoint l k hllt hklt hlt hi' hi

theorem not_uses_of_ne (h : w.Grouped) (hk : w.groups[k]? = some g) (hl : w.groups[l]? = some g')
    (hne : k ≠ l) (hv : w.GroupUses g v) : ¬ w.GroupUses g' v := by
  rintro ⟨j, hj, e', he', hv'⟩
  obtain ⟨i, hi, e, he, hv⟩ := hv
  have hg := List.mem_of_getElem? hk
  have hg' := List.mem_of_getElem? hl
  have hmap : ∀ {i : Nat} {e : Emitter}, w.emitters[i]? = some e →
      (w.emitters.map Emitter.uses)[i]? = some e.uses := by
    intro i e he
    rw [List.getElem?_map, he, Option.map_some]
  rw [h] at hg hg'
  have heq : g = g' := eq_of_shared hg hg' hi hj (hmap he) (hmap he') (Emitter.mem_uses.mpr hv)
    (Emitter.mem_uses.mpr hv')
  exact h.not_mem_of_ne hk hl hne hi (heq ▸ hi)

end World.Grouped

structure Scene.Follows (w : World) (s : Scene) : Prop where
  length : s.tasks.length = w.groups.length
  tasks : ∀ (k : Nat) g t, w.groups[k]? = some g → s.tasks[k]? = some t → Task.Follows w g s.run t
  unused : SameSets (fun v => ∀ g ∈ w.groups, ¬ w.GroupUses g v) s.run.sets (w.sets.map View.reset)
  uses : s.run.emitters.map Emitter.uses = w.emitters.map Emitter.uses

namespace Scene

variable {w : World} {s s' : Scene}

theorem follows_start (w : World) (stop : Option Interruption) : (start w stop).Follows w where
  length := List.length_map ..
  tasks k g t hg ht := by
    have hwaiting : t = .waiting g := by
      simp only [start, List.getElem?_map, hg, Option.map_some, Option.some.injEq] at ht
      exact ht.symm
    rw [hwaiting]
    exact ⟨[], rfl, ⟨rfl, fun i hi => absurd hi List.not_mem_nil, fun _ _ => rfl⟩, .refl _ _⟩
  unused := .refl _ _
  uses := rfl

theorem Follows.exists_group (h : s.Follows w) {k : Nat} {t : Task} (ht : s.tasks[k]? = some t) :
    ∃ g, w.groups[k]? = some g ∧ t.Follows w g s.run := by
  have hlt : k < w.groups.length := h.length ▸ (List.getElem?_eq_some_iff.mp ht).1
  have hg : w.groups[k]? = some w.groups[k] := List.getElem?_eq_getElem hlt
  exact ⟨_, hg, h.tasks k _ t hg ht⟩

theorem Follows.exists_task (h : s.Follows w) {g : List Nat} (hg : g ∈ w.groups) :
    ∃ t ∈ s.tasks, t.Follows w g s.run := by
  obtain ⟨k, hk⟩ := List.mem_iff_getElem?.mp hg
  have hlt : k < s.tasks.length := h.length ▸ (List.getElem?_eq_some_iff.mp hk).1
  exact ⟨_, List.getElem_mem hlt, h.tasks k g _ hk (List.getElem?_eq_getElem hlt)⟩

theorem Follows.works (h : s.Follows w) (hw : w.Grouped) (hstep : s.Works s') : s'.Follows w := by
  -- The group at `k` takes the step; the others have no emitter and no data set in common with it.
  obtain @⟨k, t, ht, _⟩ := hstep
  have hk : k < s.tasks.length := (List.getElem?_eq_some_iff.mp ht).1
  obtain ⟨g, hg, hfollows⟩ := h.exists_group ht
  have hmem := List.mem_of_getElem? hg
  have hleaves := hfollows.leaves
  refine ⟨?_, ?_, ?_, ?_⟩
  · rw [List.length_set, h.length]
  · intro l g' t' hg' ht'
    rcases eq_or_ne k l with rfl | hne
    · obtain rfl : g = g' := Option.some.inj (hg.symm.trans hg')
      rw [List.getElem?_set_self hk] at ht'
      rw [← Option.some.inj ht']
      exact hfollows.advance (hw.nodup hmem) fun i hi => hw.lt_length hmem hi
    · rw [List.getElem?_set_ne hne] at ht'
      apply (h.tasks l g' t' hg' ht').congr
      · exact fun i hi => hleaves.emitters i (hw.not_mem_of_ne hg' hg hne.symm hi)
      · exact hleaves.sets.mono fun v hv => hw.not_uses_of_ne hg' hg hne.symm hv
  · exact (hleaves.sets.mono fun v hv => hv g hmem).trans h.unused
  · exact hleaves.uses.trans h.uses

theorem Follows.step (h : s.Follows w) (hw : w.Grouped) (hstep : s.Step s') : s'.Follows w := by
  cases hstep with
  | work hworks => exact h.works hw hworks
  | interrupt hstop i =>
    refine ⟨h.length, fun k g t hg ht => ?_, h.unused, h.uses⟩
    exact (h.tasks k g t hg ht).congr (fun _ _ => rfl) (.refl _ _)

/-- However the steps are mixed, and whatever interrupts them. -/
theorem follows_of_steps (hw : w.Grouped) {stop : Option Interruption}
    (h : ReflTransGen Step (start w stop) s) : s.Follows w := by
  induction h with
  | refl => exact follows_start w stop
  | tail _ hstep ih => exact ih.step hw hstep

end Scene

/-! ### Worlds that were bound -/

theorem World.conclude_emitters (w : World) (r : World.Run) :
    (w.conclude r).1.emitters = r.emitters := by
  unfold conclude
  split <;> rfl

theorem World.conclude_groups (w : World) (r : World.Run) : (w.conclude r).1.groups = w.groups := by
  unfold conclude
  split <;> rfl

theorem World.conclude_bound (w : World) (r : World.Run) : (w.conclude r).1.bound = w.bound := by
  unfold conclude
  split <;> rfl

/-- What a bound world can become. Ticks go any way that they can go. Between them all may change but
which data sets the emitters use: instances, data sets, the programs of scripts. -/
inductive Reached (bound : World) : World → Prop
  | refl : Reached bound bound
  | edit {w w' : World} (h : Reached bound w) (hbound : w'.bound = w.bound)
    (hgroups : w'.groups = w.groups)
    (huses : w'.emitters.map Emitter.uses = w.emitters.map Emitter.uses) : Reached bound w'
  | tick {w : World} {stop : Option Interruption} {s : Scene} (h : Reached bound w)
    (hticks : w.TicksTo stop s) : Reached bound (w.conclude s.run).1

theorem World.grouped_of_bind {w w₀ : World} (h : w.bind = (w₀, none)) :
    w₀.bound = true ∧ w₀.Grouped := by
  unfold bind at h
  split at h
  · cases h
  · obtain rfl := (Prod.mk.inj h).1
    exact ⟨rfl, rfl⟩

theorem Reached.grouped {w w₀ w₁ : World} (h : Reached w₀ w₁) (hbind : w.bind = (w₀, none)) :
    w₁.bound = true ∧ w₁.Grouped := by
  induction h with
  | refl => exact World.grouped_of_bind hbind
  | edit _ hbound hgroups huses ih =>
    obtain ⟨ih, hw⟩ := ih
    refine ⟨hbound.trans ih, ?_⟩
    rw [World.Grouped, hgroups, huses]
    exact hw
  | tick _ hticks ih =>
    obtain ⟨ih, hw⟩ := ih
    refine ⟨(World.conclude_bound _ _).trans ih, ?_⟩
    rw [World.Grouped, World.conclude_groups, World.conclude_emitters,
      (Scene.follows_of_steps hw hticks.1).uses]
    exact hw
end Quadlane.Simulation
