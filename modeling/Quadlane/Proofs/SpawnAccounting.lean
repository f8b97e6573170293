import Quadlane.Proofs.Chunks
import Quadlane.Proofs.Lifetime

/-! How many instances a tick spawns. It asks for those it spawns in every tick and one for each event,
and gets as many as there is room for beside the survivors. The sum is taken in 64-bit arithmetic:
where it overflows, which takes a count right below `2 ^ 63`, nothing is spawned at all, so that
asking for more can leave fewer instances. -/

namespace Quadlane.Simulation

/-! ### What scripts do not ask for -/

def Emitter.asking (e : Emitter) (n : Int) : Emitter :=
  { e with spawnCount := n }

namespace Progress

variable {p p' : Progress} {sets sets' : Array OwnedView} {first count : Nat}
variable {scripts : List Script}

def asking (p : Progress) (n : Int) : Progress :=
  { p with emitter := p.emitter.asking n }

theorem runScript_asking (p : Progress) (n : Int) (sets : Array OwnedView) (s : Script)
    (first count : Nat) : (p.asking n).runScript sets s first count =
      ((p.runScript sets s first count).1.asking n, (p.runScript sets s first count).2) := by
  have hwindows : (p.asking n).hasWindows s first count = p.hasWindows s first count := rfl
  rw [runScript, runScript, hwindows]
  split <;> rfl

theorem runScripts_asking (p : Progress) (n : Int) (stop : Option Interruption)
    (sets : Array OwnedView) (first count : Nat) (scripts : List Script) :
    (p.asking n).runScripts stop sets first count scripts =
      ((p.runScripts stop sets first count scripts).1.asking n,
        (p.runScripts stop sets first count scripts).2) := by
  induction scripts generalizing p sets with
  | nil => rw [runScripts_nil, runScripts_nil]
  | cons s scripts ih =>
    rw [runScripts_cons, runScripts_cons]
    cases stop with
    | some i => rfl
    | none =>
      dsimp only
      rw [runScript_asking]
      generalize p.runScript sets s first count = r
      obtain ⟨p₁, sets₁, outcome⟩ := r
      cases outcome with
      | ok => exact ih p₁ sets₁
      | error e => rfl
      | fault offset => rfl

theorem runScripts_uninterrupted {stop : Option Interruption}
    (h : p.runScripts stop sets first count scripts = (p', sets', none)) :
    p.runScripts none sets first count scripts = (p', sets', none) := by
  cases stop with
  | none => exact h
  | some i =>
    cases scripts with
    | nil => rwa [runScripts_nil] at h ⊢
    | cons s scripts =>
      rw [runScripts_cons] at h
      cases h

end Progress

namespace Stand

variable {p : Progress} {e' : Emitter} {sets sets' : Array OwnedView} {stop : Option Interruption}

theorem afterSpawns_uninterrupted {first count : Nat} {scripts : List Script}
    (h : afterSpawns count (p.runScripts stop sets first count scripts) = (e', sets', none)) :
    afterSpawns count (p.runScripts none sets first count scripts) = (e', sets', none) := by
  rcases hrun : p.runScripts stop sets first count scripts with ⟨p₁, sets₁, _ | f⟩
  · rw [hrun] at h
    rwa [Progress.runScripts_uninterrupted hrun]
  · rw [hrun] at h
    cases h

theorem runSpawning_uninterrupted (h : runSpawning stop sets p = (e', sets', none)) :
    runSpawning none sets p = (e', sets', none) := by
  unfold runSpawning at h ⊢
  dsimp only at h ⊢
  split at h
  · next hnone =>
    rw [if_pos hnone]
    exact h
  · next hsome =>
    rw [if_neg hsome]
    split at h
    · cases h
    · next hrows =>
      rw [if_neg hrows]
      exact afterSpawns_uninterrupted h

theorem run_uninterrupted {st : Stand} (h : st.run stop sets = (e', sets', none)) :
    st.run none sets = (e', sets', none) := by
  cases st with
  | updating p scripts =>
    rw [run] at h ⊢
    rcases hrun : p.runScripts stop sets 0 p.live scripts with ⟨p₁, sets₁, _ | f⟩
    · rw [hrun, afterUpdates] at h
      rw [Progress.runScripts_uninterrupted hrun, afterUpdates]
      split at h
      · cases h
      · next hcompact =>
        rw [if_neg hcompact]
        exact runSpawning_uninterrupted h
    · rw [hrun] at h
      cases h
  | spawning p => exact runSpawning_uninterrupted h
  | initializing p count scripts => exact afterSpawns_uninterrupted h

end Stand

namespace Emitter

variable {e e' : Emitter} {sets sets' : Array OwnedView} {stop : Option Interruption}

theorem tick_uninterrupted (h : e.tick stop sets = (e', sets', none)) :
    e.tick none sets = (e', sets', none) := by
  rw [tick_eq_run] at h ⊢
  cases hbegin : e.begin with
  | none =>
    rw [hbegin] at h
    cases h
  | some st =>
    rw [hbegin] at h
    exact Stand.run_uninterrupted h

/-! ### What a tick asks for -/

def updatedSets (e : Emitter) (sets : Array OwnedView) : Array OwnedView :=
  match e.machine with
  | none => sets
  | some m => ((Progress.start e m).runScripts none sets 0 e.live
      (e.scripts.filter (·.stage = .update))).2.1

def events (e : Emitter) (sets : Array OwnedView) : Int :=
  ((e.spawnSet.bind ((e.updatedSets sets)[·]?)).map (·.counter)).getD 0

/-- The instances that are asked for, with no end to the integers. -/
def due (e : Emitter) (sets : Array OwnedView) : Int :=
  e.spawnCount + e.events sets

/-- The instances after a tick that spawns what is asked for, as far as there is room. -/
def promised (e : Emitter) (sets : Array OwnedView) : Nat :=
  e.survivors sets + min (e.capacity - e.survivors sets) (max 0 (e.due sets)).toNat

theorem updates_asking (e : Emitter) (n : Int) (sets : Array OwnedView) :
    (e.asking n).updated sets = e.updated sets ∧
      (e.asking n).updatedSets sets = e.updatedSets sets := by
  have hmachine : (e.asking n).machine = e.machine := rfl
  unfold updated updatedSets
  rw [hmachine]
  cases e.machine with
  | none => exact ⟨rfl, rfl⟩
  | some m =>
    have hrun := (Progress.start e m).runScripts_asking n none sets 0 e.live
      (e.scripts.filter (·.stage = .update))
    exact ⟨congrArg (·.1.back) hrun, congrArg (·.2.1) hrun⟩

theorem survivors_asking (e : Emitter) (n : Int) (sets : Array OwnedView) :
    (e.asking n).survivors sets = e.survivors sets := by
  rw [survivors, (e.updates_asking n sets).1]
  rfl

theorem events_asking (e : Emitter) (n : Int) (sets : Array OwnedView) :
    (e.asking n).events sets = e.events sets := by
  rw [events, (e.updates_asking n sets).2]
  rfl

theorem events_mem (e : Emitter) (h : ∀ v ∈ sets, v.InRange) :
    0 ≤ e.events sets ∧ e.events sets ≤ 2 ^ 24 := by
  -- Update scripts keep the cursors in range, so there are no more events than a view has slots.
  have hrange : ∀ v ∈ e.updatedSets sets, v.InRange := by
    unfold updatedSets
    split
    · exact h
    · next m hm =>
      refine (Progress.runScripts_invariant rfl (P := fun _ sets' =>
        Settled sets' (sets.map OwnedView.extent)) ?_ ⟨rfl, h⟩).inRange
      intro s _ p sets' hsets
      exact hsets.runScript p s 0 e.live
  rw [events]
  cases hset : e.spawnSet.bind ((e.updatedSets sets)[·]?) with
  | none => simp
  | some v =>
    obtain ⟨d, -, hd⟩ := Option.bind_eq_some_iff.mp hset
    obtain ⟨lower, upper, hsize⟩ := hrange v (Array.mem_of_getElem? hd)
    exact ⟨lower, upper.trans hsize⟩

theorem survivors_le (e : Emitter) (sets : Array OwnedView) : e.survivors sets ≤ e.live := by
  unfold survivors
  split
  · exact Nat.le_refl _
  · exact List.countP_le_length.trans (Nat.le_of_eq List.length_range)

theorem demand_eq {m : Machine} {p : Progress} {sets₁ : Array OwnedView} (hm : e.machine = some m)
    (hupdate : (Progress.start e m).runScripts none sets 0 e.live
      (e.scripts.filter (·.stage = .update)) = (p, sets₁, none))
    (hcount : -2 ^ 63 ≤ e.spawnCount ∧ e.spawnCount < 2 ^ 63) :
    p.compact.demand sets₁ = wrap (e.due sets) := by
  have hemitter : p.compact.emitter = e := (Progress.runScripts_progress hupdate).1
  have hsets : e.updatedSets sets = sets₁ := by
    simp only [updatedSets, hm, hupdate]
  rw [Progress.demand, hemitter, due, events, hsets]
  cases e.spawnSet.bind (sets₁[·]?) with
  | none =>
    rw [Option.map_none, Option.getD_none, Int.add_zero]
    exact ((wrap_eq_self_iff _).mpr hcount).symm
  | some v => rfl

theorem live_of_tick (hcount : -2 ^ 63 ≤ e.spawnCount ∧ e.spawnCount < 2 ^ 63)
    (h : e.tick stop sets = (e', sets', none)) :
    e'.live = e.survivors sets + e.room (e.survivors sets) (wrap (e.due sets)) := by
  obtain ⟨m, p, sets₁, count, hm, hupdate, hcompact, hroom, hend⟩ := tick_ok (tick_uninterrupted h)
  rw [compact_live hm hupdate hcompact, demand_eq hm hupdate hcount] at hroom
  rw [← hroom, ← compact_live hm hupdate hcompact]
  rcases hend with ⟨rfl, rfl, -⟩ | ⟨p₂, hspawn, rfl⟩
  · rfl
  · exact congrArg (· + count) (Progress.runScripts_progress hspawn).2

theorem room_wrap (e : Emitter) (live : Nat) {n : Int} (lower : -2 ^ 63 ≤ n) (upper : n < 2 ^ 64) :
    e.room live (wrap n) = if n < 2 ^ 63 then min (e.capacity - live) (max 0 n).toNat else 0 := by
  -- A sum that overflows is negative, so there is nothing to spawn.
  split
  · next hfits =>
    rw [(wrap_eq_self_iff n).mpr ⟨lower, hfits⟩, room]
    omega
  · next hover =>
    rw [wrap_of_overflow (Int.not_lt.mp hover) upper, room]
    omega

theorem live_eq (hcount : -2 ^ 63 ≤ e.spawnCount ∧ e.spawnCount < 2 ^ 63)
    (hsets : ∀ v ∈ sets, v.InRange) (h : e.tick stop sets = (e', sets', none)) :
    e'.live = if e.due sets < 2 ^ 63 then e.promised sets else e.survivors sets := by
  have hevents := e.events_mem hsets
  have hlower : -2 ^ 63 ≤ e.due sets := by
    rw [due]
    omega
  have hupper : e.due sets < 2 ^ 64 := by
    rw [due]
    omega
  rw [live_of_tick hcount h, e.room_wrap _ hlower hupper, promised]
  split <;> rfl

/-- A tick that succeeds spawns exactly what is asked for as far as there is room, unless the sum
overflows. Raising what is asked for, by the number for every tick or by the events, never leaves fewer
instances but for that. -/
theorem live_eq_promised_iff (hcount : -2 ^ 63 ≤ e.spawnCount ∧ e.spawnCount < 2 ^ 63)
    (hsets : ∀ v ∈ sets, v.InRange) (h : e.tick stop sets = (e', sets', none)) :
    (0 ≤ e.events sets ∧ e.events sets ≤ 2 ^ 24) ∧
      (e'.live = e.promised sets ↔ e.due sets < 2 ^ 63 ∨ e.capacity ≤ e.survivors sets) ∧
      (2 ^ 63 ≤ e.due sets → e'.live = e.survivors sets) ∧
      (e.live ≤ e.capacity → e.survivors sets ≤ e'.live ∧ e'.live ≤ e.capacity) ∧
      ∀ (n : Int) (more : Array OwnedView) (stop' : Option Interruption) (e'' : Emitter)
        (more' : Array OwnedView), e.spawnCount ≤ n → n < 2 ^ 63 → (∀ v ∈ more, v.InRange) →
        e.survivors more = e.survivors sets → e.events sets ≤ e.events more →
        (e.asking n).tick stop' more = (e'', more', none) →
        (e'.live ≤ e''.live ↔ n + e.events more < 2 ^ 63 ∨ e.due sets ≤ 0 ∨ 2 ^ 63 ≤ e.due sets ∨
          e.capacity ≤ e.survivors sets) := by
  have hlive := live_eq hcount hsets h
  have hevents := e.events_mem hsets
  have hsurvivors := e.survivors_le sets
  refine ⟨hevents, ?_, ?_, ?_, ?_⟩
  · rw [hlive, promised]
    split <;> omega
  · intro hover
    rw [hlive, if_neg (Int.not_lt.mpr hover)]
  · intro hroom
    rw [hlive, promised]
    split <;> omega
  · intro n more stop' e'' more' hle hn hmore hsame hraised h'
    have hlower : -2 ^ 63 ≤ n := hcount.1.trans hle
    have hlive' := live_eq (e := e.asking n) ⟨hlower, hn⟩ hmore h'
    have hdue : e.due sets = e.spawnCount + e.events sets := rfl
    have hdue' : (e.asking n).due more = n + e.events more := by
      rw [due, events_asking]
      rfl
    have hcapacity : (e.asking n).capacity = e.capacity := rfl
    rw [promised, survivors_asking, hsame, hdue', hcapacity] at hlive'
    rw [hlive, hlive', promised]
    split <;> split <;> omega

def crowd (n : Int) : Emitter :=
  { name := Text.lit "crowd", attributes := [Text.lit "life"], capacity := 3, spawnCount := n
    columns := #[#[Quad.splat Lane.one, Quad.zero, Quad.zero]]
    live := 2, machine := some (.new 4 0 .standard), spawnSet := some 0, aliveColumn := some 0 }

def arrivals : Array OwnedView :=
  #[{ name := Text.lit "arrivals", size := 4, counter := 1 }]

theorem settled_arrivals : Settled arrivals (arrivals.map OwnedView.extent) := by
  refine ⟨rfl, ?_⟩
  intro v hv
  obtain rfl := List.mem_singleton.mp (Array.mem_toList_iff.mpr hv)
  exact ⟨by decide, by decide, by decide⟩

theorem survivors_crowd (n : Int) : (crowd n).survivors arrivals = 1 := by
  have hupdated : (crowd n).updated arrivals = (crowd n).columns :=
    congrArg (·.1.back) Progress.runScripts_nil
  rw [survivors, hupdated]
  rfl

theorem events_crowd (n : Int) : (crowd n).events arrivals = 1 := by
  have hsets : (crowd n).updatedSets arrivals = arrivals := congrArg (·.2.1) Progress.runScripts_nil
  rw [events, hsets]
  rfl

theorem tick_crowd (n : Int) :
    ∃ e' sets', (crowd n).tick none arrivals = (e', sets', none) := by
  have hbound : (crowd n).Bound (arrivals.map OwnedView.extent) True := by
    refine ⟨Columns.fits_iff.mpr ⟨rfl, ?_⟩, Nat.le_succ 2, ⟨_, rfl, rfl, fun _ => by decide⟩, ?_, ?_⟩
    · simp [crowd]
    · rintro a ⟨⟩
      exact Nat.one_pos
    · rintro s ⟨⟩
  obtain ⟨e', sets', f, htick, hf, -⟩ := hbound.tick settled_arrivals
  obtain rfl := hf.eq_none trivial
  exact ⟨e', sets', htick⟩

theorem crowd_filled :
    ∃ e' sets', (crowd 9223372036854775806).tick none arrivals = (e', sets', none) ∧
      e'.live = (crowd 9223372036854775806).promised arrivals ∧ e'.live = 3 := by
  -- The most that can be asked for beside one event fills the emitter.
  obtain ⟨e', sets', htick⟩ := tick_crowd 9223372036854775806
  have hdue : (crowd 9223372036854775806).due arrivals = 9223372036854775807 := by
    rw [due, events_crowd]
    rfl
  have hlive := (live_eq_promised_iff (by decide) settled_arrivals.inRange htick).2.1.mpr
    (.inl (by rw [hdue]; decide))
  refine ⟨e', sets', htick, hlive, ?_⟩
  rw [hlive, promised, survivors_crowd, hdue]
  rfl

/-- One more, and nothing is spawned. -/
theorem crowd_not_filled :
    ∃ e' sets', (crowd 9223372036854775807).tick none arrivals = (e', sets', none) ∧
      e'.live = 1 ∧ (crowd 9223372036854775807).promised arrivals = 3 := by
  obtain ⟨e', sets', htick⟩ := tick_crowd 9223372036854775807
  have hdue : (crowd 9223372036854775807).due arrivals = 9223372036854775808 := by
    rw [due, events_crowd]
    rfl
  have hlive := live_eq (by decide) settled_arrivals.inRange htick
  refine ⟨e', sets', htick, ?_, ?_⟩
  · rw [hlive, hdue, if_neg (by decide), survivors_crowd]
  · rw [promised, survivors_crowd, hdue]
    rfl

end Emitter
end Quadlane.Simulation
