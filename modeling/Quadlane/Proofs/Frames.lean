import Mathlib
import Quadlane.Machine.Exec

/-! The table of registers over the calls of a machine. Attaching clears what an earlier call bound and
binding sets the rest, so the frame of a call is the same whatever the table held before. -/

namespace Quadlane

namespace Constants

theorem length_values (k : Constants) (m : Memory) : (k.values m).length = k.length := by
  cases k with
  | own values => rfl
  | lent w => simp [values, length]

theorem values_congr {k : Constants} {m m' : Memory}
    (h : ∀ w, k = .lent w → ∀ i < w.length,
      m.cell w.buffer (w.start + i) = m'.cell w.buffer (w.start + i)) :
    k.values m = k.values m' := by
  cases k with
  | own values => rfl
  | lent w => exact List.map_congr_left fun i hi => h w rfl i (List.mem_range.mp hi)

end Constants

namespace Frame

theorem remake_getElem? (table : Array Slot) (g : Nat → Slot → Slot) (i : Nat) :
    (remake table g)[i]? = if i < size then some (g i (table.getD i .unbound)) else none := by
  rw [remake, List.getElem?_toArray, List.getElem?_map]
  split
  · next h => rw [List.getElem?_range h, Option.map_some]
  · next h => rw [List.getElem?_eq_none (by simpa using h), Option.map_none]

theorem attach_cleared (f : Frame) (a : Arguments) {i : Nat} (h : ¬i < RegisterGroup.input.first) :
    (f.attach a).table.getD i .unbound = .unbound := by
  rw [attach, Array.getD_eq_getD_getElem?, remake_getElem?, if_neg h]
  split <;> rfl

/-- Once a call is attached and bound, nothing of an earlier one is left. -/
theorem bind_attach (f : Frame) (a : Arguments) : (f.attach a).bind = a.frame := by
  refine congrArg (Frame.mk · a.inputs a.outputs a.constants a.sets) (Array.ext_getElem? fun i => ?_)
  rw [remake_getElem?, remake_getElem?]
  by_cases h : i < RegisterGroup.input.first
  · rw [if_pos h, if_pos h]
  · rw [attach_cleared f a h, attach_cleared {} a h]
    rfl

end Frame

namespace Arguments

variable (a : Arguments)

@[simp] theorem frame_inputs : a.frame.inputs = a.inputs := rfl

@[simp] theorem frame_outputs : a.frame.outputs = a.outputs := rfl

@[simp] theorem frame_constants : a.frame.constants = a.constants := rfl

@[simp] theorem frame_sets : a.frame.sets = a.sets := rfl

theorem frame_slot (b : UInt8) : a.frame.slot? b = a.slot? b := by
  have hsize : Frame.size = 192 := rfl
  have hinput : RegisterGroup.input.first = 64 := rfl
  have houtput : RegisterGroup.output.first = 128 := rfl
  rw [Frame.slot?, frame, Frame.bind, Frame.remake_getElem?, slot?, splitRegister, hsize, hinput,
    houtput]
  simp only [UInt8.lt_iff_toNat_lt, UInt8.reduceToNat]
  by_cases htemporary : b.toNat < 64
  · rw [if_pos (by omega), if_pos htemporary, if_pos htemporary]
  · rw [Frame.attach_cleared {} a htemporary, if_neg htemporary, if_neg htemporary]
    by_cases hbelow : b.toNat < 128
    · rw [if_pos (by omega), if_pos hbelow, if_pos hbelow]
      rfl
    · rw [if_neg hbelow, if_neg hbelow]
      split <;> rfl

def windows : List Window :=
  a.inputs ++ a.outputs

end Arguments

namespace Frame

variable {a : Arguments} {b : UInt8} {dst : Slot}

theorem slot_of_lt (h : b < 64) : a.frame.slot? b = some (.temporary b.toNat) := by
  rw [a.frame_slot, Arguments.slot?, splitRegister, if_pos h]

theorem slot_of_ge (h : ¬ b < 64) (hdst : a.frame.slot? b = some dst) :
    ∃ o : Option Window, dst = .ofWindow o ∧ ∀ w, o = some w → w ∈ a.windows := by
  rw [a.frame_slot, Arguments.slot?, splitRegister, if_neg h] at hdst
  by_cases hin : b < 128
  · rw [if_pos hin] at hdst
    refine ⟨_, (Option.some.inj hdst).symm, ?_⟩
    intro w hw
    exact List.mem_append_left _ (List.mem_of_getElem? hw)
  · rw [if_neg hin] at hdst
    by_cases hout : b < 192
    · rw [if_pos hout] at hdst
      refine ⟨_, (Option.some.inj hdst).symm, ?_⟩
      intro w hw
      exact List.mem_append_right _ (List.mem_of_getElem? hw)
    · rw [if_neg hout] at hdst
      simp at hdst

theorem lt_of_slot_temporary {t : Nat} (h : a.frame.slot? b = some (.temporary t)) :
    b < 64 ∧ t = b.toNat := by
  by_cases hb : b < 64
  · rw [slot_of_lt hb] at h
    exact ⟨hb, by simpa using h.symm⟩
  · obtain ⟨o, ho, -⟩ := slot_of_ge hb h
    cases o <;> simp [Slot.ofWindow, Slot.rebind] at ho

theorem mem_of_slot_bound {w : Window} (h : a.frame.slot? b = some (.bound w)) :
    ¬ b < 64 ∧ w ∈ a.windows := by
  have hb : ¬ b < 64 := by
    intro hb
    simp [slot_of_lt hb] at h
  obtain ⟨o, ho, hmem⟩ := slot_of_ge hb h
  cases o with
  | none => simp [Slot.ofWindow, Slot.rebind] at ho
  | some w' =>
    have hw : w = w' := by simpa [Slot.ofWindow, Slot.rebind] using ho
    exact ⟨hb, hw ▸ hmem w' rfl⟩

theorem ge_of_slot_unbound (h : a.frame.slot? b = some .unbound) : ¬ b < 64 := by
  intro hb
  simp [slot_of_lt hb] at h

end Frame

theorem Machine.bound_eq (m : Machine) (a : Arguments) : m.bound a = a.frame :=
  m.frame.bind_attach a

end Quadlane
