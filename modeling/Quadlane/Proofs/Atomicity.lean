import Quadlane.Proofs.Schedules

/-! A tick that fails leaves no emitter halfway. Whatever the order of the steps and wherever the tick
was interrupted, an emitter is as it was or as a tick that succeeds leaves it, and an emitter whose own
tick failed is as it was. -/

namespace Quadlane.Simulation

open Relation

/-- The emitter is as its tick leaves it, if nothing is interrupted and the emitters before it in its
group have been ticked. -/
def World.Completes (w : World) (i : Nat) (e e' : Emitter) : Prop :=
  ∃ g ∈ w.groups, ∃ before after, g = before ++ i :: after ∧ (w.solo before).failure = none ∧
    ∃ sets', e.tick none (w.solo before).sets = (e', sets', none)

section Settled

variable {w : World} {r : World.Run} {g before rest after : List Nat} {i : Nat} {e : Emitter}

theorem Partway.completes (h : Partway w r before rest) (hg : before ++ after ∈ w.groups)
    (hnodup : (before ++ after).Nodup) (hi : i ∈ before) (he : w.emitters[i]? = some e) :
    ∃ e', r.emitters[i]? = some e' ∧ w.Completes i e e' := by
  obtain ⟨a, b, rfl⟩ := List.append_of_mem hi
  have hsucceeded := World.Run.failure_of_append rfl h.succeeded
  obtain ⟨e', sets', htick, hget⟩ :=
    World.Run.group_done rfl (List.Nodup.of_append_left hnodup) h.succeeded he
  refine ⟨e', (h.done i hi).trans hget, _, hg, a, b ++ after, ?_, hsucceeded, sets', htick⟩
  rw [List.append_assoc, List.cons_append]

theorem Task.Follows.culprit_kept {f : TickFailure} (h : (Task.failed i f).Follows w g r)
    (he : w.emitters[i]? = some e) (hkeeps : e.KeepsInputs) :
    ∃ e', r.emitters[i]? = some e' ∧ e.Kept e' := by
  obtain ⟨_, _, e₁, e', -, -, he₁, hget, hkept⟩ := h
  obtain rfl : e = e₁ := Option.some.inj (he.symm.trans he₁)
  exact ⟨e', hget, hkept hkeeps⟩

theorem Task.Follows.settled {t : Task} (h : t.Follows w g r) (hover : t.isOver = true)
    (hg : g ∈ w.groups) (hnodup : g.Nodup) (hi : i ∈ g) (he : w.emitters[i]? = some e)
    (hkeeps : e.KeepsInputs) :
    ∃ e', r.emitters[i]? = some e' ∧ (e.Kept e' ∨ w.Completes i e e') := by
  rcases Task.eq_of_isOver hover with rfl | ⟨j, f, rfl⟩
  · obtain ⟨before, rfl, hpart, -⟩ := h
    rw [List.append_nil] at hi
    obtain ⟨e', hget, hcompletes⟩ := hpart.completes hg hnodup hi he
    exact ⟨e', hget, .inr hcompletes⟩
  · have hculprit := h
    obtain ⟨before, rest, _, _, rfl, hpart, -⟩ := h
    -- The group failed at `j`: what is before it is done, what is after it has not been started.
    rcases List.mem_append.mp hi with hbefore | hi
    · obtain ⟨e', hget, hcompletes⟩ := hpart.completes hg hnodup hbefore he
      exact ⟨e', hget, .inr hcompletes⟩
    · rcases List.mem_cons.mp hi with rfl | hrest
      · obtain ⟨e', hget, hkept⟩ := hculprit.culprit_kept he hkeeps
        exact ⟨e', hget, .inl hkept⟩
      · exact ⟨e, (hpart.untouched i hrest).trans he, .inl ⟨e.machine, rfl⟩⟩

end Settled

namespace Scene.Follows

variable {w : World} {s : Scene} {i : Nat} {e : Emitter}

theorem settled (h : s.Follows w) (hw : w.Grouped) (hover : s.IsOver)
    (he : w.emitters[i]? = some e) (hkeeps : e.KeepsInputs) :
    ∃ e', s.run.emitters[i]? = some e' ∧ (e.Kept e' ∨ w.Completes i e e') ∧
      ((∃ f, Task.failed i f ∈ s.tasks) → e.Kept e') := by
  by_cases hculprit : ∃ f, Task.failed i f ∈ s.tasks
  · obtain ⟨f, hmem⟩ := hculprit
    obtain ⟨k, hk⟩ := List.mem_iff_getElem?.mp hmem
    obtain ⟨g, -, hfollows⟩ := h.exists_group hk
    obtain ⟨e', hget, hkept⟩ := hfollows.culprit_kept he hkeeps
    exact ⟨e', hget, .inl hkept, fun _ => hkept⟩
  · obtain ⟨g, hg, hi⟩ := hw.exists_group (List.getElem?_eq_some_iff.mp he).1
    obtain ⟨t, ht, hfollows⟩ := h.exists_task hg
    obtain ⟨e', hget, hsettled⟩ :=
      hfollows.settled (hover t ht) hg (hw.nodup hg) hi he hkeeps
    exact ⟨e', hget, hsettled, fun hfailed => absurd hfailed hculprit⟩

end Scene.Follows

theorem World.conclude_error {w w' : World} {r : World.Run} {error : WorldError}
    (h : w.conclude r = (w', some error)) :
    w'.ticks = w.ticks ∧ ∃ f, r.failure = some f ∧ error = .tick w.ticks f := by
  unfold conclude at h
  split at h
  · next f hf =>
    obtain ⟨hworld, herror⟩ := Prod.mk.inj h
    rw [← hworld]
    exact ⟨rfl, f, hf, (Option.some.inj herror).symm⟩
  · cases h

/-- However a tick goes that fails, it is not counted, its error is that of the tick of an emitter, and
every emitter is kept or completes; those whose tick failed are kept. -/
theorem failing_tick_atomic {w w₀ w₁ : World} (hbind : w.bind = (w₀, none))
    (hreached : Reached w₀ w₁) (hkeeps : ∀ e ∈ w₁.emitters, e.KeepsInputs)
    (stop : Option Interruption) :
    (∃ s, w₁.TicksTo stop s ∧ w₁.conclude s.run = w₁.tick stop) ∧
    ∀ s, w₁.TicksTo stop s → ∀ w₂ error, w₁.conclude s.run = (w₂, some error) →
      w₂.ticks = w₁.ticks ∧
      (∃ i f, Task.failed i f ∈ s.tasks ∧ error = .tick w₁.ticks f) ∧
      ∀ i e, w₁.emitters[i]? = some e → ∃ e', w₂.emitters[i]? = some e' ∧
        (e.Kept e' ∨ w₁.Completes i e e') ∧ ((∃ f, Task.failed i f ∈ s.tasks) → e.Kept e') := by
  obtain ⟨hbound, hw⟩ := hreached.grouped hbind
  refine ⟨World.tick_ticksTo hbound stop, ?_⟩
  rintro s ⟨hsteps, hover⟩ w₂ error herror
  obtain ⟨hticks, f, hfailure, hreport⟩ := World.conclude_error herror
  obtain ⟨i, hblamed⟩ := (Scene.reports_of_steps hsteps).blamed f hfailure
  refine ⟨hticks, ⟨i, f, hblamed, hreport⟩, ?_⟩
  intro i e he
  have hemitters : w₂.emitters = s.run.emitters := by
    rw [← w₁.conclude_emitters s.run, herror]
  rw [hemitters]
  exact (Scene.follows_of_steps hw hsteps).settled hw hover he
    (hkeeps e (List.mem_of_getElem? he))

def stoked (o : Options) (m : Nat → Machine) : World :=
  { kindled o m with emitters := (kindled o m).emitters.map fun e => (e.spawn 1).2 }

theorem reached_stoked (o : Options) (m : Nat → Machine) : Reached (kindled o m) (stoked o m) := by
  refine .edit .refl rfl rfl ?_
  rw [stoked, List.map_map]
  rfl

theorem stoked_keepsInputs (o : Options) (m : Nat → Machine) :
    ∀ e ∈ (stoked o m).emitters, e.KeepsInputs := by
  have hnoting : ∀ ins ∈ Code.body Machine.noting.bytes, ∀ i,
      splitRegister ins.destination ≠ some (.input, i) := by
    have hall : (Code.body Machine.noting.bytes).all
        (fun ins => (splitRegister ins.destination).all (·.1 ≠ .input)) = true := by
      cbv
    intro ins hins i hi
    have hne := List.all_eq_true.mp hall ins hins
    simp [hi] at hne
  intro e he s hs
  simp only [stoked, kindled, List.map_cons, List.map_nil, List.mem_cons, List.not_mem_nil,
    or_false] at he
  rcases he with rfl | rfl | rfl
  · cases hs
  · rw [List.mem_singleton.mp hs]
    exact .inl rfl
  · rw [List.mem_singleton.mp hs]
    exact .inr hnoting

theorem stoked_canceled :
    ∃ w₀ w₁ w₂ s, (kindling {}).bind = (w₀, none) ∧ Reached w₀ w₁ ∧
      (∀ e ∈ w₁.emitters, e.KeepsInputs) ∧ w₁.TicksTo (some .canceled) s ∧
      w₁.tick (some .canceled) = (w₂, some (.tick 0 (.interrupted .canceled))) ∧
      w₁.emitters.map Emitter.live = [1, 1, 1] ∧ w₂.emitters.map Emitter.live = [2, 1, 1] ∧
      w₂.ticks = w₁.ticks ∧
      ∀ i e, w₁.emitters[i]? = some e → ∃ e', w₂.emitters[i]? = some e' ∧
        (e.Kept e' ∨ w₁.Completes i e e') ∧ ((∃ f, Task.failed i f ∈ s.tasks) → e.Kept e') := by
  -- The tick is canceled before it starts. Smoke completes. The embers fail at their first
  -- script, and the flame after the dead one was removed and another one was spawned.
  obtain ⟨m, hbind⟩ := exists_kindled
  obtain ⟨⟨s, hticks, hs⟩, hatomic⟩ := failing_tick_atomic hbind (reached_stoked {} m)
    (stoked_keepsInputs {} m) (some .canceled)
  have herror : ∀ o, ((stoked o m).tick (some .canceled)).2 =
      some (.tick 0 (.interrupted .canceled)) := by
    intro o
    cbv
  have hlive : ∀ o, ((stoked o m).tick (some .canceled)).1.emitters.map Emitter.live = [2, 1, 1] := by
    intro o
    cbv
  have htick : (stoked {} m).tick (some .canceled) =
      (((stoked {} m).tick (some .canceled)).1, some (.tick 0 (.interrupted .canceled))) :=
    Prod.ext rfl (herror {})
  obtain ⟨hcount, -, hemitters⟩ := hatomic s hticks _ _ (hs.trans htick)
  exact ⟨_, _, _, s, hbind, reached_stoked {} m, stoked_keepsInputs {} m, hticks, htick, rfl,
    hlive {}, hcount, hemitters⟩

end Quadlane.Simulation
