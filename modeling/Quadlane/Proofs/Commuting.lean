import Quadlane.Proofs.Isolation

/-! Update scripts that keep out of each other's way can be run in any order. A script changes only its
own outputs, its own data sets and, if it draws, the random numbers; all that it reads beyond the
columns of the previous tick it may change itself. Two scripts that share none of this commute, and so
a list of such scripts can be permuted. -/

namespace Quadlane

/-! ### Random numbers -/

theorem Action.perform_stream {table : NoiseTable} {c : Chunk} {act : Action} {s : Store}
    (h : ∀ dst sources, act ≠ .kernel .random dst sources) :
    (act.perform table c s).random = s.random := by
  refine act.perform_invariant table c (P := fun t => t.random = s.random) ?_ rfl
  intro t i _ ht
  cases act with
  | skip => exact ht
  | kernel k dst sources =>
    have hk : k ≠ .random := fun hk => h dst sources (by rw [hk])
    exact (Store.assign_random ..).trans ((Kernel.apply_stream hk _ _).trans ht)
  | cursor move view dst cond =>
    rw [onInstance]
    split <;> exact (Store.assign_random ..).trans ht
  | read view var dst index => exact (Store.assign_random ..).trans ht
  | write view var index value => exact ht
  | valid view dst index => exact (Store.assign_random ..).trans ht
  | missing p dst source => exact (Store.assign_random ..).trans ht

namespace Machine

namespace Twins

variable {random random' : Prop} {known : Nat → Nat → Prop} {m m' m'' : Machine}

theorem refl (random : Prop) (known : Nat → Nat → Prop) (m : Machine) : m.Twins random known m :=
  ⟨rfl, rfl, rfl, fun _ _ _ => rfl, fun _ => rfl⟩

theorem symm (h : m.Twins random known m') : m'.Twins random known m where
  chunkSize := h.chunkSize.symm
  noise := h.noise.symm
  recovers := h.recovers.symm
  temporaries r i hknown := (h.temporaries r i hknown).symm
  random hrandom := (h.random hrandom).symm

theorem trans (h : m.Twins random known m') (h' : m'.Twins random known m'') :
    m.Twins random known m'' where
  chunkSize := h.chunkSize.trans h'.chunkSize
  noise := h.noise.trans h'.noise
  recovers := h.recovers.trans h'.recovers
  temporaries r i hknown := (h.temporaries r i hknown).trans (h'.temporaries r i hknown)
  random hrandom := (h.random hrandom).trans (h'.random hrandom)

theorem mono (h : m.Twins random known m') (hrandom : random' → random) :
    m.Twins random' known m' :=
  ⟨h.chunkSize, h.noise, h.recovers, h.temporaries, fun hdrawn => h.random (hrandom hdrawn)⟩

end Twins

theorem twins_release (m : Machine) (random : Prop) (known : Nat → Nat → Prop) (a : Arguments) :
    m.Twins random known (m.release a) :=
  ⟨rfl, rfl, rfl, fun _ _ _ => rfl, fun _ => rfl⟩

theorem twins_faulted (m : Machine) (random : Prop) (known : Nat → Nat → Prop) (memory : Memory)
    (phase : Phase) (offset : Option Nat) :
    m.Twins random known (m.faulted memory phase offset).machine := by
  unfold faulted
  split <;> exact ⟨rfl, rfl, rfl, fun _ _ _ => rfl, fun _ => rfl⟩

theorem exec_keeps (m : Machine) (code : List UInt8) (a : Arguments) (memory : Memory) :
    m.Twins (∀ ins ∈ Code.body code, ins.op ≠ .kernel .random) (fun _ _ => False)
      (m.exec code a memory).machine := by
  cases hcheck : a.check with
  | error e =>
    simp only [exec, hcheck]
    exact ⟨rfl, rfl, rfl, fun _ _ _ => rfl, fun _ => rfl⟩
  | ok _ =>
    rw [exec_eq code hcheck]
    split
    · exact (m.twins_release _ _ a).trans (twins_faulted ..)
    · have hrandom (hcode : ∀ ins ∈ Code.body code, ins.op ≠ .kernel .random) :
          (m.runChunks a code 0 (m.store memory) (m.chunkCount a.count).toNat).1.random = m.random := by
        refine runChunks_invariant code (P := fun t => t.random = m.random) ?_ 0 _ rfl
        intro c ins hins act t hact ht
        have hdraws : ∀ dst sources, act ≠ .kernel .random dst sources := by
          rintro dst sources rfl
          cases Frame.denotes_of_resolve hact with
          | kernel hop _ _ => exact hcode ins hins hop
        exact (Action.perform_stream hdraws).trans ht
      generalize m.runChunks a code 0 (m.store memory) _ = run at hrandom ⊢
      obtain ⟨t, ending⟩ := run
      have hkept : m.Twins (∀ ins ∈ Code.body code, ins.op ≠ .kernel .random) (fun _ _ => False)
          { m.release a with temporaries := t.temporaries, random := t.random } :=
        ⟨rfl, rfl, rfl, fun _ _ => False.elim, fun hcode => (hrandom hcode).symm⟩
      cases ending with
      | done => exact ⟨rfl, rfl, rfl, hkept.temporaries, hkept.random⟩
      | error e => exact ⟨rfl, rfl, rfl, hkept.temporaries, hkept.random⟩
      | fault offset => exact hkept.trans (twins_faulted ..)

end Machine

namespace Simulation

/-! ### Sights -/

namespace RowSight

structure Within (S T : RowSight) : Prop where
  rows : ∀ a row, S.rows a row → T.rows a row
  sets : ∀ v, S.sets v → T.sets v
  random : S.random → T.random

def join (S T : RowSight) : RowSight where
  rows a row := S.rows a row ∨ T.rows a row
  sets v := S.sets v ∨ T.sets v
  random := S.random ∨ T.random

def all : RowSight where
  rows _ _ := True
  sets _ := True
  random := True

end RowSight

namespace Script

def own (s : Script) : RowSight where
  rows a _ := a ∈ s.wiring.outputs
  sets v := v ∈ s.wiring.found
  random := s.Draws

def others (s : Script) : RowSight where
  rows a _ := a ∉ s.wiring.outputs
  sets v := v ∉ s.wiring.found
  random := ¬ s.Draws

def neither (s t : Script) : RowSight where
  rows a _ := a ∉ s.wiring.outputs ∧ a ∉ t.wiring.outputs
  sets v := v ∉ s.wiring.found ∧ v ∉ t.wiring.found
  random := ¬ s.Draws ∧ ¬ t.Draws

/-- The scripts have no output and no data set in common, and at most one of them draws. -/
structure Apart (s t : Script) : Prop where
  outputs : s.wiring.outputs.Disjoint t.wiring.outputs
  sets : s.wiring.found.Disjoint t.wiring.found
  random : ¬ (s.Draws ∧ t.Draws)

def SetsFirst (s : Script) : Prop :=
  SetsBeforeReading (fun _ => False) (Code.body s.code)

structure Orderly (s : Script) : Prop where
  stage : s.stage = .update
  valid : s.Validated
  setsFirst : s.SetsFirst

variable {s t : Script}

theorem Apart.symm (h : s.Apart t) : t.Apart s :=
  ⟨h.outputs.symm, h.sets.symm, fun hdraws => h.random hdraws.symm⟩

theorem Apart.own_within (h : s.Apart t) : s.own.Within t.others :=
  ⟨fun _ _ hs ht => h.outputs hs ht, fun _ hs ht => h.sets hs ht, fun hs ht => h.random ⟨hs, ht⟩⟩

theorem all_within (s t : Script) :
    RowSight.all.Within ((s.own.join t.own).join (s.neither t)) := by
  refine ⟨fun a row _ => ?_, fun v _ => ?_, fun _ => ?_⟩
  · show (a ∈ s.wiring.outputs ∨ a ∈ t.wiring.outputs) ∨
      a ∉ s.wiring.outputs ∧ a ∉ t.wiring.outputs
    tauto
  · show (v ∈ s.wiring.found ∨ v ∈ t.wiring.found) ∨ v ∉ s.wiring.found ∧ v ∉ t.wiring.found
    tauto
  · show (s.Draws ∨ t.Draws) ∨ ¬ s.Draws ∧ ¬ t.Draws
    tauto

theorem neither_within_left (s t : Script) : (s.neither t).Within s.others :=
  ⟨fun _ _ => And.left, fun _ => And.left, And.left⟩

theorem neither_within_right (s t : Script) : (s.neither t).Within t.others :=
  ⟨fun _ _ => And.right, fun _ => And.right, And.right⟩

theorem SetsFirst.temporaries (h : s.SetsFirst) :
    SetsBeforeReading (fun _ => ∀ _ : Nat, False) (Code.body s.code) := by
  simpa only [SetsFirst, forall_const] using h

theorem SetsFirst.sees_own (h : s.SetsFirst) (hstage : s.stage = .update) (first count : Nat) :
    s.Sees s.own (fun _ _ => False) first count where
  inputs hspawn := by rw [hstage] at hspawn; cases hspawn
  outputs _ ha _ _ _ := ha
  sets _ := id
  temporaries := h.temporaries
  random := id

theorem SetsFirst.sees_all (h : s.SetsFirst) (first count : Nat) :
    s.Sees .all (fun _ _ => False) first count where
  inputs _ _ _ _ _ _ := trivial
  outputs _ _ _ _ _ := trivial
  sets _ _ := trivial
  temporaries := h.temporaries
  random _ := trivial

end Script

namespace Progress

abbrev Alike (S : RowSight) (p : Progress) (sets : Array OwnedView) (p' : Progress)
    (sets' : Array OwnedView) : Prop :=
  p.Twins S (fun _ _ => False) sets p' sets'

namespace Alike

variable {S T : RowSight} {p p' p'' : Progress} {sets sets' sets'' : Array OwnedView}

theorem refl (S : RowSight) (p : Progress) (sets : Array OwnedView) : Alike S p sets p sets :=
  ⟨rfl, rfl, fun _ _ _ => rfl, rfl, fun _ _ => rfl, .refl _ _ _⟩

theorem symm (h : Alike S p sets p' sets') : Alike S p' sets' p sets where
  front := h.front.symm
  sizes := h.sizes.symm
  cell a row hrow := (h.cell a row hrow).symm
  extents := h.extents.symm
  view v hv := (h.view v hv).symm
  machine := h.machine.symm

theorem trans (h : Alike S p sets p' sets') (h' : Alike S p' sets' p'' sets'') :
    Alike S p sets p'' sets'' where
  front := h'.front.trans h.front
  sizes := h'.sizes.trans h.sizes
  cell a row hrow := (h.cell a row hrow).trans (h'.cell a row hrow)
  extents := h'.extents.trans h.extents
  view v hv := (h.view v hv).trans (h'.view v hv)
  machine := h.machine.trans h'.machine

theorem mono (h : Alike T p sets p' sets') (hwithin : S.Within T) : Alike S p sets p' sets' where
  front := h.front
  sizes := h.sizes
  cell a row hrow := h.cell a row (hwithin.rows a row hrow)
  extents := h.extents
  view v hv := h.view v (hwithin.sets v hv)
  machine := h.machine.mono hwithin.random

theorem join (h : Alike S p sets p' sets') (h' : Alike T p sets p' sets') :
    Alike (S.join T) p sets p' sets' where
  front := h.front
  sizes := h.sizes
  cell a row hrow := hrow.elim (h.cell a row) (h'.cell a row)
  extents := h.extents
  view v hv := hv.elim (h.view v) (h'.view v)
  machine := ⟨h.machine.chunkSize, h.machine.noise, h.machine.recovers, fun _ _ => False.elim,
    fun hrandom => hrandom.elim h.machine.random h'.machine.random⟩

theorem of_all (h : Alike .all p sets p' sets') (S : RowSight) : Alike S p sets p' sets' :=
  h.mono ⟨fun _ _ _ => trivial, fun _ _ => trivial, fun _ => trivial⟩

theorem back_eq (h : Alike .all p sets p' sets') : p'.back = p.back := by
  have hsize := back_size_of_sizes h.sizes
  apply Array.ext hsize
  intro a ha' ha
  have hlength := congrArg (·[a]?) h.sizes
  simp only [Array.getElem?_map, Array.getElem?_eq_getElem ha, Array.getElem?_eq_getElem ha',
    Option.map_some, Option.some.injEq] at hlength
  apply Array.ext hlength
  intro row hrow' hrow
  have hcell := h.cell a row trivial
  simpa only [Columns.cell, Array.getD_eq_getD_getElem?, Array.getElem?_eq_getElem ha,
    Array.getElem?_eq_getElem ha', Array.getElem?_eq_getElem hrow, Array.getElem?_eq_getElem hrow',
    Option.getD_some] using hcell.symm

theorem sets_eq (h : Alike .all p sets p' sets') : sets' = sets := by
  apply Array.ext_getElem?
  intro v
  exact (h.view v trivial).symm

end Alike

variable {p p' : Progress} {sets sets' : Array OwnedView} {s t : Script} {first count : Nat}

/-! ### Two scripts -/

theorem runScript_others (p : Progress) (sets : Array OwnedView) (first count : Nat)
    (hs : s.Validated) :
    Alike s.others p sets (p.runScript sets s first count).1 (p.runScript sets s first count).2.1 where
  front := runScript_front (.inr hs.keepsInputs)
  sizes := p.runScript_sizes sets s first count
  cell a row hout := by
    refine (Columns.cell_congr (p.runScript_back_size sets s first count) fun ha => ?_).symm
    exact congrArg (·.getD row Quad.zero) (runScript_column hs ha hout)
  extents := p.runScript_extents sets s first count
  view v hv := (p.runScript_elsewhere sets s first count).view v hv
  machine := by
    unfold runScript
    split
    · have hkept := p.machine.exec_keeps s.code (p.arguments s first count) (p.load sets)
      exact hkept.mono fun hdraws ins hins hop => hdraws ⟨ins, hins, hop⟩
    · exact .refl _ _ _

section Pair

variable {p₁ p₂ q₁ q₂ : Progress} {sets₁ sets₂ seen₁ seen₂ : Array OwnedView}
variable {o₁ o₂ o₁' o₂' : Outcome}
variable (hfirst : p.runScript sets s first count = (p₁, sets₁, o₁))
variable (hsecond : p₁.runScript sets₁ t first count = (p₂, sets₂, o₂))
variable (hfirst' : p'.runScript sets' t first count = (q₁, seen₁, o₁'))
variable (hsecond' : q₁.runScript seen₁ s first count = (q₂, seen₂, o₂'))
include hfirst hsecond hfirst' hsecond'

theorem runScript_comm_own (hapart : s.Apart t) (hs : s.Orderly) (ht : t.Validated)
    (hchunk : 1 ≤ p.machine.chunkSize) (hsize : p.machine.chunkSize < 2 ^ 63)
    (hcount : count < 2 ^ 63) (h : Alike .all p sets p' sets') :
    Alike s.own p₂ sets₂ q₂ seen₂ := by
  -- What `s` may change is the same whether `t` is run after it or before.
  have hlater := runScript_others p₁ sets₁ first count ht
  have hearlier := runScript_others p' sets' first count ht
  rw [hsecond] at hlater
  rw [hfirst'] at hearlier
  have hbefore : Alike s.own p sets q₁ seen₁ :=
    (h.of_all _).trans (hearlier.mono hapart.own_within)
  have hsees := hs.setsFirst.sees_own hs.stage first count
  have hafter := (runScript_twins hsees hchunk hsize hcount hbefore).2
  rw [hfirst, hsecond'] at hafter
  exact (hlater.mono hapart.own_within).symm.trans hafter

theorem runScript_comm (hapart : s.Apart t) (hs : s.Orderly) (ht : t.Orderly)
    (hchunk : 1 ≤ p.machine.chunkSize) (hsize : p.machine.chunkSize < 2 ^ 63)
    (hcount : count < 2 ^ 63) (h : Alike .all p sets p' sets') :
    Alike .all p₂ sets₂ q₂ seen₂ := by
  have hchunks : p.machine.chunkSize = p'.machine.chunkSize := h.machine.chunkSize
  have hown : Alike s.own p₂ sets₂ q₂ seen₂ := runScript_comm_own hfirst hsecond hfirst' hsecond'
    hapart hs ht.valid hchunk hsize hcount h
  have hother : Alike t.own q₂ seen₂ p₂ sets₂ := runScript_comm_own hfirst' hsecond' hfirst hsecond
    hapart.symm ht hs.valid (hchunks ▸ hchunk) (hchunks ▸ hsize) hcount (Alike.symm h)
  -- What neither may change comes through all four runs.
  have hneither : Alike (s.neither t) p₂ sets₂ q₂ seen₂ := by
    have hkept₁ := (runScript_others p sets first count hs.valid).mono (s.neither_within_left t)
    have hkept₂ := (runScript_others p₁ sets₁ first count ht.valid).mono (s.neither_within_right t)
    have hkept₁' := (runScript_others p' sets' first count ht.valid).mono (s.neither_within_right t)
    have hkept₂' := (runScript_others q₁ seen₁ first count hs.valid).mono (s.neither_within_left t)
    rw [hfirst] at hkept₁
    rw [hsecond] at hkept₂
    rw [hfirst'] at hkept₁'
    rw [hsecond'] at hkept₂'
    exact (hkept₁.trans hkept₂).symm.trans ((h.of_all _).trans (hkept₁'.trans hkept₂'))
  exact ((hown.join hother.symm).join hneither).mono (s.all_within t)

end Pair

/-! ### Scripts in any order -/

structure Able (p : Progress) (sets : Array OwnedView) (e : Emitter) (extents : Extents)
    (first count : Nat) : Prop where
  ready : p.Ready extents
  emitter : p.emitter = e
  sets : Settled sets extents
  rows : first + count ≤ e.capacity
  scratch : p.machine.hasScratch = true ∨ p.machine.chunkCount count ≤ 0

theorem During.hasWindows {R : Emitter → Prop} {extents : Extents} (h : p.During R) {program : Program}
    (hwired : s.WiredTo program p.emitter.attributes.length extents)
    (hrows : first + count ≤ p.emitter.capacity) : p.hasWindows s first count = true :=
  hasWindows_of_fits h.front h.back hwired hrows

theorem Able.runScript {e : Emitter} {extents : Extents} (h : p.Able sets e extents first count)
    {program : Program} (hwired : s.WiredTo program e.attributes.length extents) :
    ∃ p' sets', p.runScript sets s first count = (p', sets', .ok) ∧
      p'.Able sets' e extents first count := by
  obtain ⟨hready, rfl, hsets, hrows, hroom⟩ := h
  have hcode : s.code = program.bytes := by rw [Script.code, hwired.program]; rfl
  have hok : (p.runScript sets s first count).2.2 = .ok := by
    rw [Progress.runScript, if_pos (hready.hasWindows hwired hrows), runOnRows_eq, hcode]
    exact (Machine.exec_of_validate hwired.valid (arguments_matches hwired hsets) hroom).1
  have hchunk := p.runScript_chunkSize sets s first count
  refine ⟨_, _, Prod.ext rfl (Prod.ext rfl hok), hready.runScript sets s first count,
    p.runScript_emitter sets s first count, hsets.runScript p s first count, hrows, ?_⟩
  simpa only [Machine.hasScratch, Machine.scratchSize, Machine.chunkCount, hchunk] using hroom

theorem runScripts_cons_of_ok {rest : List Script} {p₁ : Progress} {sets₁ : Array OwnedView}
    (h : p.runScript sets s first count = (p₁, sets₁, .ok)) :
    p.runScripts none sets first count (s :: rest) = p₁.runScripts none sets₁ first count rest := by
  rw [runScripts_cons]
  simp only [h]

theorem Able.runScripts {e : Emitter} {extents : Extents} {scripts : List Script}
    (h : p.Able sets e extents first count)
    (hwired : ∀ s ∈ scripts, ∃ program, s.WiredTo program e.attributes.length extents) :
    ∃ p' sets', p.runScripts none sets first count scripts = (p', sets', none) := by
  induction scripts generalizing p sets with
  | nil => exact ⟨p, sets, runScripts_nil⟩
  | cons s scripts ih =>
    obtain ⟨program, hs⟩ := hwired s (List.mem_cons_self ..)
    obtain ⟨p₁, sets₁, hrun, hable⟩ := h.runScript hs
    rw [runScripts_cons_of_ok hrun]
    exact ih hable fun s hs => hwired s (List.mem_cons_of_mem _ hs)

/-- Scripts that are pairwise apart do the same in any order. -/
theorem runScripts_perm {scripts scripts' : List Script} (hperm : scripts.Perm scripts')
    {e e' : Emitter} {extents : Extents}
    (hwired : ∀ s ∈ scripts, ∃ program, s.WiredTo program e.attributes.length extents)
    (horderly : ∀ s ∈ scripts, s.Orderly) (hapart : scripts.Pairwise Script.Apart)
    (hcount : count < 2 ^ 63) (hp : p.Able sets e extents first count)
    (hp' : p'.Able sets' e' extents first count)
    (hwidth : e'.attributes.length = e.attributes.length) (h : Alike .all p sets p' sets') :
    ∃ q seen q' seen', p.runScripts none sets first count scripts = (q, seen, none) ∧
      p'.runScripts none sets' first count scripts' = (q', seen', none) ∧
      Alike .all q seen q' seen' := by
  induction hperm generalizing p p' sets sets' e e' with
  | nil => exact ⟨p, sets, p', sets', runScripts_nil, runScripts_nil, h⟩
  | cons s _ ih =>
    rw [List.forall_mem_cons] at hwired horderly
    obtain ⟨program, hs⟩ := hwired.1
    obtain ⟨p₁, sets₁, hrun, hable⟩ := hp.runScript hs
    obtain ⟨p₁', sets₁', hrun', hable'⟩ := hp'.runScript (hwidth ▸ hs)
    have hafter := (runScript_twins (horderly.1.setsFirst.sees_all first count) hp.ready.chunk
      hp.ready.size hcount h).2
    rw [hrun, hrun'] at hafter
    rw [runScripts_cons_of_ok hrun, runScripts_cons_of_ok hrun']
    exact ih hwired.2 horderly.2 hapart.of_cons hable hable' hwidth hafter
  | swap s t rest =>
    rw [List.forall_mem_cons, List.forall_mem_cons] at hwired horderly
    obtain ⟨⟨program, ht⟩, ⟨program', hs⟩, hrest⟩ := hwired
    have hts : t.Apart s := List.rel_of_pairwise_cons hapart (List.mem_cons_self ..)
    obtain ⟨p₁, sets₁, hfirst, hable₁⟩ := hp.runScript ht
    obtain ⟨p₂, sets₂, hsecond, hable₂⟩ := hable₁.runScript hs
    obtain ⟨q₁, seen₁, hfirst', hable₁'⟩ := hp'.runScript (hwidth ▸ hs)
    obtain ⟨q₂, seen₂, hsecond', hable₂'⟩ := hable₁'.runScript (hwidth ▸ ht)
    have hboth := runScript_comm hfirst hsecond hfirst' hsecond' hts horderly.1 horderly.2.1
      hp.ready.chunk hp.ready.size hcount h
    -- After the two, the same scripts are left on both sides.
    obtain ⟨p₃, sets₃, hlast⟩ := hable₂.runScripts hrest
    obtain ⟨q₃, seen₃, hlast'⟩ := hable₂'.runScripts (hwidth ▸ hrest)
    have hafter := (runScripts_twins none
      (fun s hs => (horderly.2.2 s hs).setsFirst.sees_all first count) hable₂.ready.chunk
      hable₂.ready.size hcount hboth).2
    rw [hlast, hlast'] at hafter
    rw [runScripts_cons_of_ok hfirst, runScripts_cons_of_ok hsecond, runScripts_cons_of_ok hfirst',
      runScripts_cons_of_ok hsecond']
    exact ⟨p₃, sets₃, q₃, seen₃, hlast, hlast', hafter⟩
  | trans hperm _ ih ih' =>
    -- The order in the middle is run from the first state.
    obtain ⟨q, seen, q₁, seen₁, hrun, hrun₁, halike⟩ :=
      ih hwired horderly hapart hp hp rfl (.refl .all p sets)
    obtain ⟨q₂, seen₂, q', seen', hrun₂, hrun', halike'⟩ :=
      ih' (fun s hs => hwired s (hperm.mem_iff.mpr hs))
        (fun s hs => horderly s (hperm.mem_iff.mpr hs))
        (hperm.pairwise hapart Script.Apart.symm) hp hp' hwidth h
    rw [hrun₁] at hrun₂
    obtain ⟨rfl, hpair⟩ := Prod.mk.inj hrun₂
    obtain ⟨rfl, -⟩ := Prod.mk.inj hpair
    exact ⟨q, seen, q', seen', hrun, hrun', Alike.trans halike halike'⟩

theorem During.runScripts_fails {R : Emitter → Prop} {extents : Extents} {scripts : List Script}
    {stop : Option Interruption} (h : p.During R) (hsets : Settled sets extents)
    (hwired : ∀ s ∈ scripts, ∃ program, s.WiredTo program p.emitter.attributes.length extents)
    (hrows : first + count ≤ p.emitter.capacity) (hne : scripts ≠ [])
    (hstuck : ¬ (stop = none ∧ (p.machine.hasScratch = true ∨ p.machine.chunkCount count ≤ 0))) :
    ∃ q f, p.runScripts stop sets first count scripts = (q, sets, some f) := by
  obtain ⟨s, rest, rfl⟩ := List.exists_cons_of_ne_nil hne
  rw [runScripts_cons]
  cases stop with
  | some i => exact ⟨p, _, rfl⟩
  | none =>
    obtain ⟨program, hs⟩ := hwired s (List.mem_cons_self ..)
    have hmatch : (p.arguments s first count).Matches program (p.load sets) :=
      arguments_matches hs hsets
    have hroom : p.machine.hasScratch = false := by
      by_contra hroom
      exact hstuck ⟨rfl, .inl (by simpa using hroom)⟩
    have hchunks : 0 < p.machine.chunkCount count := by
      by_contra hchunks
      exact hstuck ⟨rfl, .inr (by omega)⟩
    have hexec : p.machine.exec s.code (p.arguments s first count) (p.load sets) = _ :=
      Machine.exec_of_no_scratch s.code (hmatch.check_ok hs.valid) hroom hchunks
    generalize p.machine.release (p.arguments s first count) = m at hexec
    have hmemory : (m.faulted (p.load sets) .notStarted none).memory = p.load sets := by
      unfold Machine.faulted
      split <;> rfl
    have hrun : ∃ q o, p.runScript sets s first count = (q, sets, o) ∧ o ≠ .ok := by
      rw [Progress.runScript, if_pos (h.hasWindows hs hrows), runOnRows_eq, hexec]
      refine ⟨_, _, Prod.ext rfl (Prod.ext ?_ rfl), m.faulted_outcome_ne_ok _ _ _⟩
      show Array.map (ownView (m.faulted (p.load sets) _ _).memory) _ = sets
      rw [hmemory]
      exact p.ownView_load sets
    obtain ⟨q, o, hrun, ho⟩ := hrun
    rw [hrun]
    cases o with
    | ok => exact absurd rfl ho
    | error e => exact ⟨q, _, rfl⟩
    | fault offset => exact ⟨q, _, rfl⟩

end Progress

/-! ### Ticks -/

/-- Two ticks that end alike: with the same values, count and data sets, and both well or neither. -/
structure EndsAlike (r r' : Emitter × Array OwnedView × Option TickFailure) : Prop where
  columns : r'.1.columns = r.1.columns
  live : r'.1.live = r.1.live
  sets : r'.2.1 = r.2.1
  success : r'.2.2 = none ↔ r.2.2 = none

def Progress.withScripts (p : Progress) (scripts : List Script) (m : Machine) : Progress :=
  { p with emitter := { p.emitter with scripts }, machine := m }

theorem Progress.eq_withScripts {p p' : Progress} {scripts : List Script}
    (hemitter : p'.emitter = { p.emitter with scripts }) (hfront : p'.front = p.front)
    (hback : p'.back = p.back) (hlive : p'.live = p.live) :
    p' = p.withScripts scripts p'.machine := by
  obtain ⟨_, _, _, _, m⟩ := p'
  subst hemitter hfront hback hlive
  rfl

namespace Stand

variable {p : Progress} {scripts : List Script} {m : Machine} {extents : Extents}
variable {stop : Option Interruption} {sets : Array OwnedView}

theorem runSpawning_of_none (h : p.emitter.room p.live (p.demand sets) = 0) :
    runSpawning stop sets p = (p.finish 0, sets, none) :=
  if_pos h

theorem runSpawning_of_rows {count : Nat} (hcount : p.emitter.room p.live (p.demand sets) = count)
    (hne : count ≠ 0)
    (hrows : p.back.hasRows p.emitter.attributes.length (p.live + count) = true) :
    runSpawning stop sets p = afterSpawns count
      ((p.spawnRows count).runScripts stop sets p.live count (p.scriptsOf .spawn)) := by
  subst hcount
  simp only [runSpawning, if_neg hne, hrows, Bool.not_true, Bool.false_eq_true, if_false]

theorem afterSpawns_alike {q q' : Progress} {seen seen' : Array OwnedView}
    {f f' : Option TickFailure} (count : Nat) (h : Progress.Alike .all q seen q' seen')
    (hsuccess : f = none ↔ f' = none) (hlive : q'.live = q.live)
    (hbefore : q'.emitter.live = q.emitter.live) :
    EndsAlike (afterSpawns count (q, seen, f)) (afterSpawns count (q', seen', f')) := by
  cases f with
  | none =>
    obtain rfl : f' = none := hsuccess.mp rfl
    exact ⟨h.back_eq, congrArg (· + count) hlive, h.sets_eq, Iff.rfl⟩
  | some f =>
    cases f' with
    | none => cases hsuccess.mpr rfl
    | some g => exact ⟨h.front, hbefore, h.sets_eq, by simp [afterSpawns]⟩

theorem runSpawning_alike (stop : Option Interruption) (sets : Array OwnedView) (h : p.Ready extents)
    (hm : p.machine.Twins True (fun _ _ => False) m)
    (hspawn : scripts.filter (·.stage = .spawn) = p.scriptsOf .spawn)
    (hfirst : ∀ s ∈ p.scriptsOf .spawn, s.SetsFirst) :
    EndsAlike (runSpawning stop sets p) (runSpawning stop sets (p.withScripts scripts m)) := by
  obtain ⟨count, hcount⟩ : ∃ count, p.emitter.room p.live (p.demand sets) = count := ⟨_, rfl⟩
  have hcount' : (p.withScripts scripts m).emitter.room (p.withScripts scripts m).live
      ((p.withScripts scripts m).demand sets) = count := hcount
  by_cases hnone : count = 0
  · subst hnone
    rw [runSpawning_of_none hcount, runSpawning_of_none hcount']
    exact ⟨rfl, rfl, rfl, Iff.rfl⟩
  · have hroom := p.emitter.room_le p.live h.live (p.demand sets)
    rw [hcount] at hroom
    have hcapacity := h.emitter.capacity
    have hrows := h.back.hasRows (Nat.le_refl _) hroom
    rw [runSpawning_of_rows hcount hnone hrows, runSpawning_of_rows hcount' hnone hrows]
    have hstart : Progress.Alike .all (p.spawnRows count) sets
        ((p.withScripts scripts m).spawnRows count) sets :=
      ⟨rfl, rfl, fun _ _ _ => rfl, rfl, fun _ _ => rfl, hm⟩
    obtain ⟨hsuccess, hafter⟩ := Progress.runScripts_twins stop
      (fun s hs => (hfirst s hs).sees_all p.live count) (h.spawnRows count).chunk
      (h.spawnRows count).size (by omega) hstart
    have hkept := (p.spawnRows count).runScripts_kept stop sets p.live count (p.scriptsOf .spawn)
    have hkept' := ((p.withScripts scripts m).spawnRows count).runScripts_kept stop sets p.live count
      (p.scriptsOf .spawn)
    rw [show (p.withScripts scripts m).scriptsOf .spawn = p.scriptsOf .spawn from hspawn]
    exact afterSpawns_alike count hafter hsuccess (hkept'.2.trans hkept.2.symm)
      ((congrArg Emitter.live hkept'.1).trans (congrArg Emitter.live hkept.1).symm)

theorem afterUpdates_alike (stop : Option Interruption) (sets : Array OwnedView)
    (h : p.Ready extents) (hm : p.machine.Twins True (fun _ _ => False) m)
    (hspawn : scripts.filter (·.stage = .spawn) = p.scriptsOf .spawn)
    (hfirst : ∀ s ∈ p.scriptsOf .spawn, s.SetsFirst) :
    EndsAlike (afterUpdates stop (p, sets, none))
      (afterUpdates stop (p.withScripts scripts m, sets, none)) := by
  by_cases hcompact : p.canCompact = true
  · have hcompact' : (p.withScripts scripts m).canCompact = true := hcompact
    simp only [afterUpdates, hcompact, hcompact', Bool.not_true, Bool.false_eq_true, if_false]
    exact runSpawning_alike stop sets h.compact hm hspawn hfirst
  · have hcompact' : ¬ (p.withScripts scripts m).canCompact = true := hcompact
    simp only [afterUpdates, hcompact, hcompact', Bool.not_false, if_true]
    exact ⟨rfl, rfl, rfl, by simp⟩

end Stand

namespace Emitter

/-- Other scripts of the emitter: those of the update stage in another order. -/
structure Reordered (e : Emitter) (scripts : List Script) : Prop where
  updates : (e.scripts.filter (·.stage = .update)).Perm (scripts.filter (·.stage = .update))
  spawns : scripts.filter (·.stage = .spawn) = e.scripts.filter (·.stage = .spawn)

variable {e : Emitter} {extents : Extents} {sets : Array OwnedView} {scripts : List Script}
variable {m : Machine} {stop : Option Interruption}

theorem Reordered.mem (h : e.Reordered scripts) {s : Script} (hs : s ∈ scripts) : s ∈ e.scripts := by
  cases hstage : s.stage with
  | update =>
    have hmoved := h.updates.mem_iff.mpr (List.mem_filter.mpr ⟨hs, by simp [hstage]⟩)
    exact (List.mem_filter.mp hmoved).1
  | spawn =>
    have hkept : s ∈ scripts.filter (·.stage = .spawn) := List.mem_filter.mpr ⟨hs, by simp [hstage]⟩
    rw [h.spawns] at hkept
    exact (List.mem_filter.mp hkept).1

theorem Ready.reordered (h : e.Ready extents) (horder : e.Reordered scripts) :
    Emitter.Ready { e with scripts } extents where
  columns := h.columns
  live := h.live
  capacity := h.capacity
  machine := h.machine
  alive := h.alive
  scripts s hs := h.scripts s (horder.mem hs)

theorem Ready.tick_eq (h : e.Ready extents) (hm : e.machine = some m)
    (stop : Option Interruption) (sets : Array OwnedView) :
    e.tick stop sets = Stand.afterUpdates stop ((Progress.start e m).runScripts stop sets 0 e.live
      (e.scripts.filter (·.stage = .update))) := by
  have hrows : Columns.hasRows e.columns e.attributes.length e.live = true :=
    h.columns.hasRows (Nat.le_refl _) h.live
  have hbegin : e.begin = some (.updating (Progress.start e m)
      (e.scripts.filter (·.stage = .update))) := by
    simp [Emitter.begin, hm, Progress.start, hrows, Progress.scriptsOf]
  rw [tick_eq_run, hbegin]
  rfl

theorem Ready.tick_stuck (h : e.Ready extents) (hm : e.machine = some m)
    (hsets : Settled sets extents) (hne : e.scripts.filter (·.stage = .update) ≠ [])
    (hstuck : ¬ (stop = none ∧ (m.hasScratch = true ∨ m.chunkCount e.live ≤ 0))) :
    ∃ e' f, e.tick stop sets = (e', sets, some f) ∧ e'.columns = e.columns ∧ e'.live = e.live := by
  have hp := Progress.During.start (lasting_ready extents) h hm
  obtain ⟨q, f, hrun⟩ := hp.runScripts_fails hsets (fun s hs => h.scripts s (mem_updates hs).1)
    ((Nat.zero_add _).le.trans h.live) hne hstuck
  have hfront : q.front = e.columns := Progress.runScripts_front hrun fun s hs =>
    .inr (h.validated (mem_updates hs).1).keepsInputs
  have hemitter : q.emitter = e := (Progress.runScripts_progress hrun).1
  rw [h.tick_eq hm, show (Progress.start e m).runScripts stop sets 0 e.live _ = _ from hrun]
  refine ⟨_, f, rfl, hfront, ?_⟩
  show q.emitter.live = e.live
  rw [hemitter]

theorem Ready.tick_reordered (h : e.Ready extents) (hsets : Settled sets extents)
    (horder : e.Reordered scripts)
    (hapart : (e.scripts.filter (·.stage = .update)).Pairwise Script.Apart)
    (hfirst : ∀ s ∈ e.scripts, s.SetsFirst) (stop : Option Interruption) :
    EndsAlike (e.tick stop sets) (Emitter.tick { e with scripts } stop sets) := by
  obtain ⟨m, hm, -, -⟩ := h.machine
  have h' := h.reordered horder
  have hp := Progress.During.start (lasting_ready extents) h hm
  have hp' := Progress.During.start (lasting_ready extents) h' hm
  have hspawned : ∀ s ∈ e.scripts.filter (·.stage = .spawn), s.SetsFirst :=
    fun s hs => hfirst s (List.mem_filter.mp hs).1
  by_cases hempty : e.scripts.filter (·.stage = .update) = []
  · -- There is nothing to put in order.
    have hempty' : scripts.filter (·.stage = .update) = [] :=
      (hempty ▸ horder.updates).nil_eq.symm
    rw [h.tick_eq hm, h'.tick_eq hm, hempty, hempty', Progress.runScripts_nil,
      Progress.runScripts_nil]
    exact Stand.afterUpdates_alike stop sets hp (.refl _ _ m) horder.spawns hspawned
  by_cases hgoes : stop = none ∧ (m.hasScratch = true ∨ m.chunkCount e.live ≤ 0)
  · obtain ⟨rfl, hroom⟩ := hgoes
    have horderly : ∀ s ∈ e.scripts.filter (·.stage = .update), s.Orderly := fun s hs =>
      ⟨(mem_updates hs).2, h.validated (mem_updates hs).1, hfirst s (mem_updates hs).1⟩
    have hrows : 0 + e.live ≤ e.capacity := (Nat.zero_add _).le.trans h.live
    have hstart : Progress.Alike .all (Progress.start e m) sets
        (Progress.start { e with scripts } m) sets :=
      ⟨rfl, rfl, fun _ _ _ => rfl, rfl, fun _ _ => rfl, .refl _ _ m⟩
    obtain ⟨q, seen, q', seen', hrun, hrun', halike⟩ := Progress.runScripts_perm horder.updates
      (fun s hs => h.scripts s (mem_updates hs).1) horderly hapart (h.live.trans_lt h.capacity)
      ⟨hp, rfl, hsets, hrows, hroom⟩ ⟨hp', rfl, hsets, hrows, hroom⟩ rfl hstart
    obtain ⟨hemitter, hlive⟩ := Progress.runScripts_progress hrun
    obtain ⟨hemitter', hlive'⟩ := Progress.runScripts_progress hrun'
    replace hemitter : q.emitter = e := hemitter
    have hq' : q' = q.withScripts scripts q'.machine := by
      refine Progress.eq_withScripts ?_ halike.front halike.back_eq (hlive'.trans hlive.symm)
      rw [hemitter]
      exact hemitter'
    have hscripts : q.scriptsOf .spawn = e.scripts.filter (·.stage = .spawn) := by
      rw [Progress.scriptsOf, hemitter]
    rw [h.tick_eq hm, h'.tick_eq hm, hrun, hrun', halike.sets_eq, hq']
    exact Stand.afterUpdates_alike none seen (hp.runScripts hrun) halike.machine
      (horder.spawns.trans hscripts.symm) (hscripts ▸ hspawned)
  · obtain ⟨e₁, f, htick, hcolumns, hlive⟩ := h.tick_stuck hm hsets hempty hgoes
    obtain ⟨e₂, f', htick', hcolumns', hlive'⟩ := h'.tick_stuck hm hsets
      (fun hnil => hempty (hnil ▸ horder.updates).eq_nil) hgoes
    rw [htick, htick']
    exact ⟨hcolumns'.trans hcolumns.symm, hlive'.trans hlive.symm, rfl, by simp⟩

end Emitter

/-- In every world that a caller can get to and whose emitters are bound, whatever the data sets hold:
update scripts without common outputs, without common data sets and of which at most one draws do the
same in a tick in any order, if no script depends on temporaries that were set before it. -/
theorem update_scripts_commute {o : Options} (hsize : o.chunkSize < 2 ^ 63) {w : World}
    (hlives : Lives o true w) {e : Emitter} (he : e ∈ w.emitters) {scripts : List Script}
    (horder : e.Reordered scripts)
    (hapart : (e.scripts.filter (·.stage = .update)).Pairwise Script.Apart)
    (hfirst : ∀ s ∈ e.scripts, s.SetsFirst) {sets : Array OwnedView}
    (hsets : Settled sets (w.sets.map OwnedView.extent)) (stop : Option Interruption) :
    EndsAlike (e.tick stop sets) (Emitter.tick { e with scripts } stop sets) :=
  ((hlives.ready hsize).emitters rfl e he).tick_reordered hsets horder hapart hfirst stop

/-! ### Sprouts -/

theorem body_adding (input output : Text) : Code.body (adding input output).bytes =
    [{ op := .kernel (.binary .add), mask := 2, sources := [64, 0], destination := 128 }] := by
  cbv

theorem body_widening : Code.body widening.bytes =
    [{ op := .kernel .random, mask := 1, sources := [0] },
      { op := .kernel (.binary .add), sources := [64, 0], destination := 128 }] := by
  cbv

theorem setsFirst_sprouts : ∀ s ∈ sproutScripts, s.SetsFirst := by
  have hadding (input output : Text) :
      SetsBeforeReading (fun _ => False) (Code.body (adding input output).bytes) := by
    rw [body_adding]
    refine ⟨?_, trivial⟩
    rintro (_ | _ | j) b hb hkind hlt
    · obtain rfl := Option.some.inj hb
      exact absurd hlt (by decide)
    · exact absurd hkind (by decide)
    · cases hb
  have hwidening : SetsBeforeReading (fun _ => False) (Code.body widening.bytes) := by
    rw [body_widening]
    refine ⟨?_, ?_, trivial⟩
    · rintro (_ | j) b hb hkind hlt
      · exact absurd hkind (by decide)
      · cases hb
    · rintro (_ | _ | j) b hb hkind hlt
      · obtain rfl := Option.some.inj hb
        exact absurd hlt (by decide)
      · obtain rfl := Option.some.inj hb
        exact .inr ⟨rfl, rfl⟩
      · cases hb
  intro s hs
  simp only [sproutScripts, List.mem_cons, List.not_mem_nil, or_false] at hs
  rcases hs with rfl | rfl | rfl
  · exact hadding (Text.lit "height") (Text.lit "height")
  · exact hwidening
  · exact hadding (Text.lit "width") (Text.lit "height")

theorem apart_sprouts : (grow (sproutWiring 0 0)).Apart (widen (sproutWiring 1 1)) := by
  refine ⟨by simp [grow, widen, sproutWiring], List.disjoint_nil_left _, ?_⟩
  rintro ⟨⟨ins, hins, hop⟩, -⟩
  replace hins : ins ∈ Code.body (adding (Text.lit "height") (Text.lit "height")).bytes := hins
  rw [body_adding] at hins
  obtain rfl := List.mem_singleton.mp hins
  cases hop

theorem sprouting_commutes :
    ∃ (w : World) (e : Emitter) (scripts : List Script), Lives { chunkSize := 3 } true w ∧
      e ∈ w.emitters ∧ e.Reordered scripts ∧ scripts ≠ e.scripts ∧
      (e.scripts.filter (·.stage = .update)).Pairwise Script.Apart ∧
      (∀ s ∈ e.scripts, s.SetsFirst) ∧ Settled w.sets (w.sets.map OwnedView.extent) ∧
      (e.tick none w.sets).2.2 = none ∧
      EndsAlike (e.tick none w.sets) (Emitter.tick { e with scripts } none w.sets) := by
  -- The sprout grows and widens, or widens and grows.
  let m : Machine := Machine.new 3 (wrap (0 + (0 : Nat))) NoiseTable.standard
  have hbind := bind_garden (o := { chunkSize := 3 }) (m := m) rfl (sized_threes _ _).scratch
  obtain ⟨extents, hsound⟩ := sound_sprouting (o := { chunkSize := 3 }) hbind
  have hmem : sprout m ∈ (sprouting { chunkSize := 3 } m).emitters := List.mem_singleton.mpr rfl
  obtain ⟨e', sets', f, htick, hf, -⟩ := (hsound.emitters _ hmem).tick hsound.sets
  obtain rfl := hf.eq_none fun _ => by decide
  have horder : (sprout m).Reordered
      [widen (sproutWiring 1 1), seed (sproutWiring 1 0), grow (sproutWiring 0 0)] :=
    ⟨.swap _ _ _, rfl⟩
  have hapart : ((sprout m).scripts.filter (·.stage = .update)).Pairwise Script.Apart :=
    List.pairwise_pair.mpr apart_sprouts
  have hsets : Settled (sprouting { chunkSize := 3 } m).sets
      ((sprouting { chunkSize := 3 } m).sets.map OwnedView.extent) := ⟨rfl, hsound.sets.inRange⟩
  have halike := update_scripts_commute (by decide) (lives_sprouting hbind) hmem horder hapart
    setsFirst_sprouts hsets none
  have hdiffer : [widen (sproutWiring 1 1), seed (sproutWiring 1 0), grow (sproutWiring 0 0)] ≠
      (sprout m).scripts := by
    intro heq
    have hnames := congrArg (List.map Script.name) heq
    exact absurd hnames (by decide)
  exact ⟨_, sprout m, _, lives_sprouting hbind, hmem, horder, hdiffer, hapart, setsFirst_sprouts,
    hsets, by rw [htick], halike⟩

end Simulation
end Quadlane
