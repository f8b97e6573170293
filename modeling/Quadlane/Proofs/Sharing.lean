import Quadlane.Proofs.Footprint
import Quadlane.Proofs.Loading

/-! Scripts share nothing but data sets. Running a script depends on the data sets that it is wired to
and changes no others, and the columns of the previous tick change only if the code has an input
register for a destination. -/

namespace Quadlane.Simulation

/-- Data sets with as many variables each that are the same where it matters. -/
structure SameSets (used : Nat → Prop) (sets sets' : Array OwnedView) : Prop where
  widths : sets.map (·.vars.size) = sets'.map (·.vars.size)
  view : ∀ v, used v → sets[v]? = sets'[v]?

namespace SameSets

variable {used used' : Nat → Prop} {sets sets' sets'' : Array OwnedView}

theorem refl (used : Nat → Prop) (sets : Array OwnedView) : SameSets used sets sets :=
  ⟨rfl, fun _ _ => rfl⟩

theorem symm (h : SameSets used sets sets') : SameSets used sets' sets :=
  ⟨h.widths.symm, fun v hv => (h.view v hv).symm⟩

theorem trans (h : SameSets used sets sets') (h' : SameSets used sets' sets'') :
    SameSets used sets sets'' :=
  ⟨h.widths.trans h'.widths, fun v hv => (h.view v hv).trans (h'.view v hv)⟩

theorem mono (h : SameSets used sets sets') (hsub : ∀ v, used' v → used v) :
    SameSets used' sets sets' :=
  ⟨h.widths, fun v hv => h.view v (hsub v hv)⟩

end SameSets

def Script.code (s : Script) : List UInt8 :=
  (s.program.map Program.bytes).getD []

def Script.KeepsInputs (s : Script) : Prop :=
  ∀ ins ∈ Code.body s.code, ∀ i, splitRegister ins.destination ≠ some (.input, i)

namespace Progress

/-! ### Numbers of buffers -/

section Numbers

variable {base u v : Nat} {b : BufferId} {x y : Text} {l l' : List OwnedView}
variable {view view' : View (Option BufferId)}

theorem numberViews_congr (hwidths : l.map (·.vars.size) = l'.map (·.vars.size))
    (hv : l[v]? = l'[v]?) : (numberViews base l)[v]? = (numberViews base l')[v]? := by
  induction l generalizing l' base v with
  | nil =>
    obtain rfl : l' = [] := by simpa using hwidths.symm
    rfl
  | cons w l ih =>
    cases l' with
    | nil => simp at hwidths
    | cons w' l' =>
      obtain ⟨hfirst, hrest⟩ := List.cons.inj hwidths
      cases v with
      | zero =>
        obtain rfl : w = w' := by simpa using hv
        rfl
      | succ v =>
        dsimp only at hfirst
        rw [numberViews, numberViews, List.getElem?_cons_succ, List.getElem?_cons_succ, hfirst]
        exact ih hrest hv

theorem le_of_numberViews (hview : (numberViews base l)[v]? = some view)
    (hvar : (x, some b) ∈ view.vars) : base ≤ b := by
  induction l generalizing base v with
  | nil => cases hview
  | cons w l ih =>
    cases v with
    | zero =>
      obtain rfl := Option.some.inj hview
      obtain ⟨i, hi, heq⟩ := Array.mem_mapIdx.mp hvar
      obtain rfl : base + i = b := Option.some.inj (Prod.mk.inj heq).2
      exact Nat.le_add_right base i
    | succ v => exact Nat.le_trans (Nat.le_add_right base _) (ih hview)

theorem numberViews_injective (hu : (numberViews base l)[u]? = some view)
    (hx : (x, some b) ∈ view.vars) (hv : (numberViews base l)[v]? = some view')
    (hy : (y, some b) ∈ view'.vars) : u = v := by
  induction l generalizing base u v with
  | nil => cases hu
  | cons w l ih =>
    -- The numbers of the first data set are below those of the others.
    have hfirst : ∀ {z : Text} {view : View (Option BufferId)},
        (numberViews base (w :: l))[0]? = some view → (z, some b) ∈ view.vars →
          b < base + w.vars.size := by
      intro z view hview hz
      obtain rfl := Option.some.inj hview
      obtain ⟨i, hi, heq⟩ := Array.mem_mapIdx.mp hz
      obtain rfl : base + i = b := Option.some.inj (Prod.mk.inj heq).2
      exact Nat.add_lt_add_left hi base
    cases u with
    | zero =>
      cases v with
      | zero => rfl
      | succ v => exact absurd (hfirst hu hx) (Nat.not_lt.mpr (le_of_numberViews hv hy))
    | succ u =>
      cases v with
      | zero => exact absurd (hfirst hv hy) (Nat.not_lt.mpr (le_of_numberViews hu hx))
      | succ v => exact congrArg (· + 1) (ih hu hv)

end Numbers

/-! ### Loaded memories -/

section Load

variable {p : Progress} {sets sets' : Array OwnedView} {used : Nat → Prop} {v : Nat}
variable {b : BufferId} {x : Text} {view : View (Option BufferId)}

theorem load_view (p : Progress) (sets : Array OwnedView) (v : Nat) :
    (p.load sets).views[v]? =
      (numberViews (p.front.size + p.back.size) sets.toList)[v]? := by
  rw [load, List.getElem?_toArray]

def footprint (p : Progress) (sets : Array OwnedView) (used : Nat → Prop) : Footprint where
  buffers b := b < p.front.size + p.back.size ∨
    ∃ v view x, used v ∧ (p.load sets).views[v]? = some view ∧ (x, some b) ∈ view.vars
  views := used

theorem footprint_closed (p : Progress) (sets : Array OwnedView) (used : Nat → Prop) :
    (p.footprint sets used).Closed (p.load sets) :=
  fun v view x _ hv hview hvar => .inr ⟨v, view, x, hv, hview, hvar⟩

theorem not_footprint (hv : ¬ used v) (hview : (p.load sets).views[v]? = some view)
    (hvar : (x, some b) ∈ view.vars) : ¬ (p.footprint sets used).buffers b := by
  rw [load_view] at hview
  rintro (hlt | ⟨u, view', y, hu, hview', hy⟩)
  · exact absurd hlt (Nat.not_lt.mpr (le_of_numberViews hview hvar))
  · rw [load_view] at hview'
    obtain rfl := numberViews_injective hview hvar hview' hy
    exact hv hu

theorem load_buffer_of_lt (p : Progress) (sets : Array OwnedView)
    (hb : b < p.front.size + p.back.size) :
    (p.load sets).buffer b = (p.front ++ p.back).getD b #[] := by
  have hlt : b < (p.front ++ p.back).size := by
    rw [Array.size_append]
    exact hb
  rw [Memory.buffer, load, Array.getD_eq_getD_getElem?, Array.getElem?_append_left hlt,
    Array.getD_eq_getD_getElem?]

theorem ownView_congr {m m' : Memory}
    (h : ∀ x b, (x, some b) ∈ view.vars → m.buffer b = m'.buffer b) :
    ownView m view = ownView m' view := by
  have hvars : view.vars.map (fun x => (x.1, (x.2.map fun b => m.buffers.getD b #[]).getD #[])) =
      view.vars.map fun x => (x.1, (x.2.map fun b => m'.buffers.getD b #[]).getD #[]) := by
    refine Array.map_congr_left ?_
    rintro ⟨x, _ | b⟩ hx
    · rfl
    · exact congrArg (x, ·) (h x b hx)
  exact congrArg (fun vars => { view with vars }) hvars

theorem buffer_of_ownView {m m' : Memory} (h : ownView m view = ownView m' view)
    (hvar : (x, some b) ∈ view.vars) : m.buffer b = m'.buffer b := by
  have hvars := Array.map_inj_left.mp (congrArg View.vars h) (x, some b) hvar
  exact (Prod.mk.inj hvars).2

theorem load_agrees (h : SameSets used sets sets') :
    Memory.Agrees (p.footprint sets used) (p.load sets) (p.load sets') := by
  have hviews : ∀ v, used v → (p.load sets).views[v]? = (p.load sets').views[v]? := by
    intro v hv
    rw [load_view, load_view]
    apply numberViews_congr
    · rw [← Array.toList_map, ← Array.toList_map, h.widths]
    · rw [Array.getElem?_toList, Array.getElem?_toList, h.view v hv]
  refine ⟨?_, hviews⟩
  rintro b (hlt | ⟨v, view, x, hv, hview, hvar⟩)
  · rw [load_buffer_of_lt p sets hlt, load_buffer_of_lt p sets' hlt]
  · -- The data set is the same, and its variables have the same numbers.
    have hown : ∀ sets, (p.load sets).views[v]? = some view →
        sets[v]? = some (ownView (p.load sets) view) := by
      intro sets hload
      have hget := congrArg (·[v]?) (p.ownView_load sets)
      rw [← hget, Array.getElem?_map, hload, Option.map_some]
    have hsame := h.view v hv
    rw [hown sets hview, hown sets' (hviews v hv ▸ hview)] at hsame
    exact buffer_of_ownView (Option.some.inj hsame) hvar

end Load

/-! ### One script -/

section RunScript

variable {p : Progress} {sets sets' : Array OwnedView} {used : Nat → Prop} {s : Script}
variable {first count : Nat}

theorem extract_congr {m m' : Memory} {size i j : Nat} (hm : size ≤ m.buffers.size)
    (hm' : size ≤ m'.buffers.size) (hj : j ≤ size) (h : ∀ b, i ≤ b → b < j → m.buffer b = m'.buffer b) :
    m.buffers.extract i j = m'.buffers.extract i j := by
  apply Array.ext
  · simp only [Array.size_extract]
    omega
  · intro k hk hk'
    rw [Array.size_extract] at hk hk'
    rw [Array.getElem_extract, Array.getElem_extract]
    have hsame := h (i + k) (Nat.le_add_right i k) (by omega)
    simpa only [Memory.buffer, Array.getD_eq_getD_getElem?,
      Array.getElem?_eq_getElem (show i + k < m.buffers.size by omega),
      Array.getElem?_eq_getElem (show i + k < m'.buffers.size by omega),
      Option.getD_some] using hsame

theorem buffers_size_of_shape {m : Memory} (h : m.shape = (p.load sets).shape) :
    p.front.size + p.back.size ≤ m.buffers.size := by
  have hsizes : m.buffers.map Array.size = (p.load sets).buffers.map Array.size :=
    congrArg Prod.fst h
  have hsize : m.buffers.size = (p.load sets).buffers.size := by
    simpa using congrArg Array.size hsizes
  rw [hsize, load, Array.size_append, Array.size_append]
  exact Nat.le_add_right _ _

theorem widths_of_shape {m : Memory} (h : m.shape = (p.load sets).shape) :
    (m.views.map (ownView m)).map (·.vars.size) = sets.map (·.vars.size) := by
  have hextent := extent_ownView h
  rw [p.ownView_load sets] at hextent
  have hwidths := congrArg (Array.map fun x => x.2.2.size) hextent
  simpa [Function.comp_def, OwnedView.extent] using hwidths

theorem mem_found {w : Wiring} {v : Nat} : v ∈ w.found ↔ some v ∈ w.sets := by
  simp [Wiring.found]

theorem arguments_within (h : p.hasWindows s first count = true)
    (hsets : ∀ v ∈ s.wiring.found, used v) :
    (p.arguments s first count).frame.Within (p.footprint sets used) := by
  have hcolumn : ∀ (columns : Columns) (a : Nat), columns.hasWindow first count a = true →
      a < columns.size := by
    intro columns a ha
    unfold Columns.hasWindow at ha
    split at ha
    · next b hb => exact (Array.getElem?_eq_some_iff.mp hb).1
    · cases ha
  rw [hasWindows, Bool.and_eq_true, List.all_eq_true, List.all_eq_true] at h
  refine Arguments.frame_within ?_ ?_ (fun _ hlent => by cases hlent) fun v hv =>
    hsets v (mem_found.mpr hv)
  · intro w hw
    obtain ⟨a, ha, rfl⟩ := List.mem_map.mp hw
    have hlt := hcolumn _ a (h.1 a ha)
    have hid : (if s.stage = .spawn then p.front.size + a else a) <
        p.front.size + p.back.size := by
      by_cases hstage : s.stage = .spawn
      · rw [if_pos hstage] at hlt ⊢
        omega
      · rw [if_neg hstage] at hlt ⊢
        omega
    exact .inl hid
  · intro w hw
    obtain ⟨a, ha, rfl⟩ := List.mem_map.mp hw
    have hlt := hcolumn _ a (h.2 a ha)
    exact .inl (Nat.add_lt_add_left hlt _)

def unload (p : Progress) (r : Machine.Result) : Progress × Array OwnedView × Outcome :=
  ({ p with
      front := r.memory.buffers.extract 0 p.front.size
      back := r.memory.buffers.extract p.front.size (p.front.size + p.back.size)
      machine := r.machine },
    r.memory.views.map (ownView r.memory), r.outcome)

theorem runOnRows_eq (p : Progress) (sets : Array OwnedView) (s : Script) (first count : Nat) :
    p.runOnRows sets s first count =
      p.unload (p.machine.exec s.code (p.arguments s first count) (p.load sets)) :=
  rfl

/-- A script does the same on data sets that are the same as far as it uses them. -/
theorem runScript_same (p : Progress) (first count : Nat) (h : SameSets used sets sets')
    (hsets : ∀ v ∈ s.wiring.found, used v) :
    (p.runScript sets s first count).1 = (p.runScript sets' s first count).1 ∧
      (p.runScript sets s first count).2.2 = (p.runScript sets' s first count).2.2 ∧
      SameSets used (p.runScript sets s first count).2.1
        (p.runScript sets' s first count).2.1 := by
  unfold runScript
  split
  · next hwindows =>
    have hwithin : (p.arguments s first count).frame.Within (p.footprint sets used) :=
      arguments_within hwindows hsets
    have hclosed := p.footprint_closed sets used
    obtain ⟨houtcome, hmachine, hmemory⟩ :=
      Machine.exec_agrees (m := p.machine) hwithin hclosed (load_agrees h) s.code
    have hshape := Machine.exec_shape (m := p.machine) (a := p.arguments s first count) s.code
      (p.load sets)
    have hshape' := Machine.exec_shape (m := p.machine) (a := p.arguments s first count) s.code
      (p.load sets')
    rw [runOnRows_eq, runOnRows_eq]
    generalize p.machine.exec s.code (p.arguments s first count) (p.load sets) = r at *
    generalize p.machine.exec s.code (p.arguments s first count) (p.load sets') = r' at *
    have hcolumns : ∀ b < p.front.size + p.back.size, r.memory.buffer b = r'.memory.buffer b :=
      fun b hb => hmemory.buffer b (.inl hb)
    have hsize := buffers_size_of_shape hshape
    have hsize' := buffers_size_of_shape hshape'
    have hfront := extract_congr (i := 0) (j := p.front.size) hsize hsize' (Nat.le_add_right _ _)
      fun b _ hb => hcolumns b (by omega)
    have hback := extract_congr (i := p.front.size) (j := p.front.size + p.back.size) hsize hsize'
      (Nat.le_refl _) fun b _ hb => hcolumns b hb
    refine ⟨?_, houtcome, ?_, ?_⟩
    · simp only [unload, hfront, hback, hmachine]
    · rw [unload, unload, widths_of_shape hshape, widths_of_shape hshape', h.widths]
    · intro v hv
      rw [unload, unload, Array.getElem?_map, Array.getElem?_map, ← hmemory.view v hv]
      cases hview : r.memory.views[v]? with
      | none => rw [Option.map_none, Option.map_none]
      | some view =>
        rw [Option.map_some, Option.map_some]
        refine congrArg some (ownView_congr fun x b hvar => ?_)
        exact hmemory.buffer b ((hclosed.of_shape hshape) v view x b hv hview hvar)
  · exact ⟨rfl, rfl, h⟩

theorem runScript_elsewhere (p : Progress) (sets : Array OwnedView) (s : Script) (first count : Nat) :
    SameSets (· ∉ s.wiring.found) sets (p.runScript sets s first count).2.1 := by
  unfold runScript
  split
  · next hwindows =>
    have hwithin : (p.arguments s first count).frame.Within
        (p.footprint sets (· ∈ s.wiring.found)) := arguments_within hwindows fun _ => id
    have hmemory := Machine.exec_outside (m := p.machine) (a := p.arguments s first count)
      (W := p.footprint sets (· ∈ s.wiring.found)) hwithin.sets (p.footprint_closed sets _) s.code
      fun ins _ => hwithin.slots ins.destination
    have hshape := Machine.exec_shape (m := p.machine) (a := p.arguments s first count) s.code
      (p.load sets)
    rw [runOnRows_eq]
    generalize p.machine.exec s.code (p.arguments s first count) (p.load sets) = r at *
    refine ⟨(widths_of_shape hshape).symm, ?_⟩
    intro v hv
    have hget := congrArg (·[v]?) (p.ownView_load sets)
    rw [← hget, unload, Array.getElem?_map, Array.getElem?_map, ← hmemory.view v hv]
    cases hview : (p.load sets).views[v]? with
    | none => rw [Option.map_none, Option.map_none]
    | some view =>
      rw [Option.map_some, Option.map_some]
      refine congrArg some (ownView_congr fun x b hvar => ?_)
      exact hmemory.buffer b (not_footprint hv hview hvar)
  · exact .refl _ _

def writable (p : Progress) (sets : Array OwnedView) (used : Nat → Prop) : Footprint where
  buffers b := p.front.size ≤ b ∧ (p.footprint sets used).buffers b
  views := used

theorem writable_closed (p : Progress) (sets : Array OwnedView) (used : Nat → Prop) :
    (p.writable sets used).Closed (p.load sets) := by
  intro v view x b hv hview hvar
  refine ⟨?_, p.footprint_closed sets used v view x b hv hview hvar⟩
  rw [load_view] at hview
  exact Nat.le_trans (Nat.le_add_right _ _) (le_of_numberViews hview hvar)

theorem slot_writable (hwindows : p.hasWindows s first count = true)
    (hsets : ∀ v ∈ s.wiring.found, used v) {b : UInt8} {slot : Slot}
    (hb : s.stage = .spawn ∨ ∀ i, splitRegister b ≠ some (.input, i))
    (hslot : (p.arguments s first count).frame.slot? b = some slot) :
    slot.Within (p.writable sets used) := by
  have hwithin : slot.Within (p.footprint sets used) :=
    (arguments_within hwindows hsets).slots b slot hslot
  cases slot with
  | temporary r => exact trivial
  | unbound => exact trivial
  | bound w =>
    refine ⟨?_, hwithin⟩
    have hwindow : ∀ (columns : List Nat) (i : Nat),
        Slot.ofWindow (columns.map fun a => (⟨p.front.size + a, first, count⟩ : Window))[i]? =
          .bound w → p.front.size ≤ w.buffer := by
      intro columns i hi
      rw [List.getElem?_map] at hi
      cases ha : columns[i]? with
      | none => simp [ha, Slot.ofWindow, Slot.rebind] at hi
      | some a =>
        simp only [ha, Option.map_some, Slot.ofWindow, Slot.rebind, Slot.bound.injEq] at hi
        rw [← hi]
        exact Nat.le_add_right _ _
    rw [Arguments.frame_slot, Arguments.slot?] at hslot
    split at hslot
    · cases hslot
    · next i hinput =>
      rcases hb with hstage | hb
      · simp only [arguments, hstage, if_true, Option.some.injEq] at hslot
        exact hwindow _ i hslot
      · exact absurd hinput (hb i)
    · next i _ => exact hwindow _ i (Option.some.inj hslot)
    · cases hslot

theorem runScript_front (hs : s.stage = .spawn ∨ s.KeepsInputs) :
    (p.runScript sets s first count).1.front = p.front := by
  unfold runScript
  split
  · next hwindows =>
    have hdst : ∀ ins ∈ Code.body s.code, ∀ slot,
        (p.arguments s first count).frame.slot? ins.destination = some slot →
          slot.Within (p.writable sets (· ∈ s.wiring.found)) := by
      intro ins hins slot
      exact slot_writable hwindows (fun _ => id) (hs.imp_right fun hkeeps => hkeeps ins hins)
    have hmemory := Machine.exec_outside (m := p.machine) (a := p.arguments s first count)
      (W := p.writable sets (· ∈ s.wiring.found)) (fun _ => mem_found.mpr)
      (p.writable_closed sets _) s.code hdst
    have hshape := Machine.exec_shape (m := p.machine) (a := p.arguments s first count) s.code
      (p.load sets)
    rw [runOnRows_eq]
    generalize p.machine.exec s.code (p.arguments s first count) (p.load sets) = r at *
    have hsize := buffers_size_of_shape (p := p) (m := p.load sets) rfl
    have hcolumns := extract_congr (i := 0) (j := p.front.size) hsize
      (buffers_size_of_shape hshape) (Nat.le_add_right _ _)
      fun b _ hb => hmemory.buffer b fun hw => Nat.not_lt.mpr hw.1 hb
    have hload : (p.load sets).buffers.extract 0 p.front.size = p.front := by
      simp [load, Array.extract_append]
    exact hcolumns.symm.trans hload
  · rfl

section Kept

variable (p : Progress) (sets : Array OwnedView) (s : Script) (first count : Nat)

theorem runScript_emitter : (p.runScript sets s first count).1.emitter = p.emitter := by
  unfold runScript
  split <;> rfl

theorem runScript_live : (p.runScript sets s first count).1.live = p.live := by
  unfold runScript
  split <;> rfl

end Kept

end RunScript
end Progress
end Quadlane.Simulation
