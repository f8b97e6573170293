import Quadlane.Proofs.Shape
import Quadlane.Simulation.Tick

/-! The columns of an emitter and the data sets are put into one memory before a script runs and are
taken out of it afterwards. Taking them out undoes putting them in, and since no call changes the
shape of a memory, a script changes neither how long a column is nor what a data set declares. -/

namespace Quadlane

/-- What a data set declares: its name, its size, and its variables with the lengths of their
buffers. -/
def OwnedView.extent (v : OwnedView) : Text × Int × Array (Text × Nat) :=
  (v.name, v.size, v.vars.map fun (name, b) => (name, b.size))

namespace Simulation

def Columns.Fits (c : Columns) (width rows : Nat) : Prop :=
  c.map Array.size = Array.replicate width rows

namespace Progress

theorem ownView_numberViews {m : Memory} {base : Nat} {sets : List OwnedView}
    (h : ∀ k, m.buffers[base + k]? = (sets.flatMap fun v => (v.vars.map (·.2)).toList)[k]?) :
    (numberViews base sets).map (ownView m) = sets := by
  induction sets generalizing base with
  | nil => rfl
  | cons v sets ih =>
    have hrest : (numberViews (base + v.vars.size) sets).map (ownView m) = sets := by
      refine ih fun k => ?_
      rw [Nat.add_assoc, h, List.flatMap_cons, List.getElem?_append_right (by simp)]
      congr 1
      simp
    have hfirst : (v.vars.mapIdx fun i (name, _) => (name, some (base + i))).map
        (fun (name, id) => (name, (id.map fun b => m.buffers.getD b #[]).getD #[])) = v.vars := by
      apply Array.ext
      · simp
      · intro i hi hi'
        have hbuffer := h i
        rw [List.flatMap_cons, List.getElem?_append_left (by simpa using hi')] at hbuffer
        simp only [Array.getElem_map, Array.getElem_mapIdx, Option.map_some, Option.getD_some,
          Array.getD_eq_getD_getElem?, hbuffer]
        simp [hi']
    rw [numberViews, List.map_cons, hrest]
    congr 1
    exact congrArg (fun vars => { v with vars }) hfirst

theorem ownView_load (p : Progress) (sets : Array OwnedView) :
    (p.load sets).views.map (ownView (p.load sets)) = sets := by
  have hbuffers : ∀ k, (p.load sets).buffers[p.front.size + p.back.size + k]? =
      (sets.toList.flatMap fun v => (v.vars.map (·.2)).toList)[k]? := by
    intro k
    rw [load, Array.getElem?_append_right (by simp), ← Array.toList_flatMap,
      Array.getElem?_toList, Array.size_append, Nat.add_sub_cancel_left]
  have hviews := ownView_numberViews hbuffers
  apply Array.toList_inj.mp
  simpa [load] using hviews

theorem extent_ownView {m m' : Memory} (h : m'.shape = m.shape) :
    (m'.views.map (ownView m')).map OwnedView.extent =
      (m.views.map (ownView m)).map OwnedView.extent := by
  have houtline : ∀ m' : Memory, m'.shape = m.shape →
      (m'.views.map (ownView m')).map OwnedView.extent =
      (m'.views.map View.outline).map fun v =>
        (v.1, v.2.1, v.2.2.map fun x => (x.1, (x.2.map fun b => m.bufferSize b).getD 0)) := by
    intro m' h
    rw [Array.map_map, Array.map_map]
    congr 1
    funext v
    simp only [Function.comp, OwnedView.extent, ownView, View.outline, Array.map_map]
    congr 2
    congr 1
    apply funext
    rintro ⟨x, id⟩
    cases id with
    | none => rfl
    | some b =>
      have hsize : (m'.buffers.getD b #[]).size = m.bufferSize b := Memory.bufferSize_of_shape h b
      exact congrArg (x, ·) hsize
  have hviews : m'.views.map View.outline = m.views.map View.outline := congrArg Prod.snd h
  rw [houtline m' h, houtline m rfl, hviews]

theorem columns_of_shape {p : Progress} {sets : Array OwnedView} {m : Memory}
    (h : m.shape = (p.load sets).shape) :
    (m.buffers.extract 0 p.front.size).map Array.size = p.front.map Array.size ∧
    (m.buffers.extract p.front.size (p.front.size + p.back.size)).map Array.size =
      p.back.map Array.size := by
  have hbuffers : m.buffers.map Array.size = (p.load sets).buffers.map Array.size :=
    congrArg Prod.fst h
  rw [Array.map_extract, Array.map_extract, hbuffers]
  constructor
  · simp [load, Array.extract_append]
  · have hfront :
        (p.front.map Array.size).extract p.front.size (p.front.size + p.back.size) = #[] :=
      Array.extract_empty_of_size_le_start (by simp)
    have hback : (p.back.map Array.size).extract 0 p.back.size = p.back.map Array.size :=
      Array.extract_eq_self_of_le (by simp)
    simp [load, Array.extract_append, hfront, hback]

end Progress
end Simulation
end Quadlane
