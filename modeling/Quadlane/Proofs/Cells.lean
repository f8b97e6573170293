import Mathlib
import Quadlane.Machine.Action

/-! Reading back what was written, cell by cell: in the buffers of a memory and in the temporaries of
a machine, which grow as far as they are written. -/

namespace Quadlane

namespace Memory

theorem cell_setCell (m : Memory) (b b' : BufferId) (i i' : Nat) (q : Quad) :
    (m.setCell b i q).cell b' i' =
      if b' = b ∧ i' = i ∧ i < m.bufferSize b then q else m.cell b' i' := by
  simp only [cell, setCell, bufferSize, Array.getD_eq_getD_getElem?, Array.getElem?_modify]
  by_cases hb : b = b'
  · subst hb
    cases hbuffer : m.buffers[b]? with
    | none => simp
    | some buffer =>
      simp only [if_true, Option.map_some, Option.getD_some, Array.getElem?_setIfInBounds,
        true_and]
      by_cases hi : i = i'
      · subst hi
        by_cases hlt : i < buffer.size
        · simp [hlt]
        · simp [hlt]
      · rw [if_neg hi, if_neg fun h => hi h.1.symm]
  · rw [if_neg hb, if_neg fun h => hb h.1.symm]

end Memory

namespace Temporaries

theorem getD_setInRow (row : Buffer) (i j : Nat) (q : Quad) :
    (setInRow row i q).getD j Quad.zero = if j = i then q else row.getD j Quad.zero := by
  unfold setInRow
  simp only [Array.getD_eq_getD_getElem?]
  split
  · next hlt =>
    rw [Array.getElem?_setIfInBounds]
    by_cases hj : i = j
    · subst hj
      simp [hlt]
    · rw [if_neg hj, if_neg (Ne.symm hj)]
  · next hge =>
    rw [Array.getElem?_push]
    have hsize : (row ++ Array.replicate (i - row.size) Quad.zero).size = i := by
      simp
      omega
    rw [hsize]
    by_cases hj : j = i
    · simp [hj]
    · rw [if_neg hj, if_neg hj, Array.getElem?_append, Array.getElem?_replicate]
      by_cases hrow : j < row.size
      · rw [if_pos hrow]
      · rw [if_neg hrow, Array.getElem?_eq_none (by omega)]
        split <;> rfl

theorem getD_rows_extended (rows : Array Buffer) (n r : Nat) :
    (rows ++ Array.replicate n #[]).getD r #[] = rows.getD r #[] := by
  simp only [Array.getD_eq_getD_getElem?, Array.getElem?_append, Array.getElem?_replicate]
  split
  · rfl
  · next hge =>
    rw [Array.getElem?_eq_none (by omega)]
    split <;> rfl

theorem get_set (t : Temporaries) (r r' i i' : Nat) (q : Quad) :
    (t.set r i q).get r' i' = if r' = r ∧ i' = i then q else t.get r' i' := by
  have hrows : ∀ rows : Array Buffer, r < rows.size →
      (∀ k, rows.getD k #[] = t.rows.getD k #[]) →
      ((rows.modify r (setInRow · i q)).getD r' #[]).getD i' Quad.zero =
        if r' = r ∧ i' = i then q else t.get r' i' := by
    intro rows hr hsame
    have hrow : rows.getD r' #[] = rows[r']?.getD #[] := Array.getD_eq_getD_getElem?
    have hmodified : (rows.modify r (setInRow · i q)).getD r' #[] =
        (if r = r' then rows[r']?.map (setInRow · i q) else rows[r']?).getD #[] := by
      rw [Array.getD_eq_getD_getElem?, Array.getElem?_modify]
    rw [get, ← hsame r', hmodified, hrow]
    by_cases heq : r = r'
    · subst heq
      rw [if_pos rfl, Array.getElem?_eq_getElem hr]
      simp only [Option.map_some, Option.getD_some, getD_setInRow, true_and]
    · rw [if_neg heq, if_neg fun h => heq h.1.symm]
  simp only [set, get] at hrows ⊢
  split
  · next hr => exact hrows t.rows hr fun _ => rfl
  · refine hrows _ ?_ fun k => getD_rows_extended t.rows _ k
    simp
    omega

end Temporaries
end Quadlane
