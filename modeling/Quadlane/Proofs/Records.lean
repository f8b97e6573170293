import Quadlane.Proofs.CursorRuns
import Quadlane.Proofs.Footprint
import Quadlane.Simulation.Tick

/-! A view is a partial map from variables and indices to records, of a domain that never changes.
Whoever only reads, writes and moves the cursor cannot tell it from one: not in a view that owns its
buffers, not by the cells that the places outside are redirected to, and not in a memory, as long as
the variables of the view do not share a buffer. -/

namespace Quadlane

inductive Access where
  | read (var : Nat) (i : Int)
  | write (var : Nat) (i : Int) (q : Quad)
  | cursor (c : CursorCall)

namespace Access

def Within (count : Nat) : Access → Prop
  | read var _ => var < count
  | write var _ _ => var < count
  | cursor _ => True

def written (var : Nat) (i : Int) : Access → Option Quad
  | write var' i' q => if var' = var ∧ i' = i then some q else none
  | _ => none

/-- What accesses answer one after the other, which is something for reads only; none if one of them
is not possible. -/
def answers {σ : Type} (step : σ → Access → Option (Option Quad × σ)) (s : σ) :
    List Access → Option (List (Option Quad))
  | [] => some []
  | a :: rest => (step s a).bind fun r => (answers step r.2 rest).map (r.1 :: ·)

end Access

def lastWritten (var : Nat) (i : Int) (accesses : List Access) : Option Quad :=
  (accesses.filterMap (Access.written var i)).getLast?

theorem lastWritten_cons (var : Nat) (i : Int) (a : Access) (rest : List Access) (q : Quad) :
    (lastWritten var i (a :: rest)).getD q =
      (lastWritten var i rest).getD ((a.written var i).getD q) := by
  unfold lastWritten
  cases hwritten : a.written var i with
  | none => rw [List.filterMap_cons_none hwritten, Option.getD_none]
  | some x =>
    rw [List.filterMap_cons_some hwritten, List.getLast?_cons, Option.getD_some, Option.getD_some]

/-! ### Partial maps -/

abbrev Records := Nat → Int → Option Quad

namespace Records

def put (r : Records) (var : Nat) (i : Int) (q : Quad) : Records := fun var' i' =>
  if var = var' ∧ i = i' then (r var' i').map fun _ => q else r var' i'

def access (r : Records) : Access → Option Quad × Records
  | .read var i => (some ((r var i).getD Quad.zero), r)
  | .write var i q => (none, r.put var i q)
  | .cursor _ => (none, r)

def after (r : Records) : List Access → Records
  | [] => r
  | a :: rest => (r.access a).2.after rest

def answers (r : Records) : List Access → List (Option Quad)
  | [] => []
  | a :: rest => (r.access a).1 :: (r.access a).2.answers rest

variable {r : Records} {var : Nat} {i : Int}

theorem access_apply (r : Records) (a : Access) (var : Nat) (i : Int) :
    (r.access a).2 var i = (r var i).map fun q => (a.written var i).getD q := by
  cases a with
  | read | cursor => exact (Option.map_id' ..).symm
  | write var' i' q =>
    simp only [access, put, Access.written]
    split
    · rfl
    · exact (Option.map_id' ..).symm

theorem after_apply (r : Records) (accesses : List Access) (var : Nat) (i : Int) :
    r.after accesses var i = (r var i).map fun q => (lastWritten var i accesses).getD q := by
  induction accesses generalizing r with
  | nil => exact (Option.map_id' ..).symm
  | cons a rest ih =>
    rw [after, ih, access_apply, Option.map_map]
    simp only [Function.comp_def, lastWritten_cons]

theorem put_of_none (h : r var i = none) (q : Quad) : r.put var i q = r := by
  funext var' i'
  unfold put
  split
  · next hsame =>
    obtain ⟨rfl, rfl⟩ := hsame
    rw [h, Option.map_none]
  · rfl

theorem length_answers (r : Records) (accesses : List Access) :
    (r.answers accesses).length = accesses.length := by
  induction accesses generalizing r with
  | nil => rfl
  | cons a rest ih => rw [answers, List.length_cons, List.length_cons, ih]

theorem answers_append (r : Records) (before rest : List Access) :
    r.answers (before ++ rest) = r.answers before ++ (r.after before).answers rest := by
  induction before generalizing r with
  | nil => rfl
  | cons a before ih => exact congrArg ((r.access a).1 :: ·) (ih (r.access a).2)

theorem getElem?_answers (r : Records) (before rest : List Access) (k : Nat) :
    (r.answers (before ++ rest))[before.length + k]? = ((r.after before).answers rest)[k]? := by
  rw [answers_append, ← r.length_answers before, List.getElem?_append_right (Nat.le_add_right ..),
    Nat.add_sub_cancel_left]

/-- What takes the same steps as a partial map gives the same answers. -/
theorem answers_eq {σ : Type} {step : σ → Access → Option (Option Quad × σ)} {count : Nat}
    {R : σ → Records → Prop}
    (hstep : ∀ s r a, R s r → a.Within count →
      ∃ s', step s a = some ((r.access a).1, s') ∧ R s' (r.access a).2)
    {s : σ} {r : Records} (h : R s r) {accesses : List Access}
    (hwithin : ∀ a ∈ accesses, a.Within count) :
    Access.answers step s accesses = some (r.answers accesses) := by
  induction accesses generalizing s r with
  | nil => rfl
  | cons a rest ih =>
    obtain ⟨s', hs', h'⟩ := hstep s r a h (hwithin a (List.mem_cons_self ..))
    rw [Access.answers, hs', Option.bind_some, ih h' fun a ha => hwithin a (List.mem_cons_of_mem _ ha)]
    rfl

end Records

/-! ### Views that own their buffers -/

theorem View.call_kept {β : Type} (v : View β) (c : CursorCall) :
    (v.call c).2.size = v.size ∧ (v.call c).2.vars = v.vars := by
  cases c with
  | reset => exact ⟨rfl, rfl⟩
  | move c =>
    cases c with
    | acquire | acquireWrap | consume | consumeWrap =>
      simp only [call, move, acquire, acquireWrap, consume, consumeWrap]
      split <;> exact ⟨rfl, rfl⟩

namespace OwnedView

def buffer (v : OwnedView) (var : Nat) : Buffer :=
  (v.vars[var]?.map (·.2)).getD #[]

def Has (v : OwnedView) (var : Nat) (i : Int) : Prop :=
  0 ≤ i ∧ i < v.size ∧ i < (v.buffer var).size

instance (v : OwnedView) (var : Nat) (i : Int) : Decidable (v.Has var i) :=
  inferInstanceAs (Decidable (_ ∧ _ ∧ _))

def records (v : OwnedView) : Records := fun var i =>
  if v.Has var i then some ((v.buffer var).getD i.toNat Quad.zero) else none

def access? (v : OwnedView) : Access → Option (Option Quad × OwnedView)
  | .read var i => (v.read? var i).map fun q => (some q, v)
  | .write var i q => (v.write? var i q).map fun v' => (none, v')
  | .cursor c => some (none, (v.call c).2)

variable {v : OwnedView} {var : Nat} {i : Int} {name : Text} {b : Buffer}

theorem buffer_eq (h : v.vars[var]? = some (name, b)) : v.buffer var = b := by
  rw [buffer, h]
  rfl

theorem holds_iff (h : v.vars[var]? = some (name, b)) : v.holds b i = true ↔ v.Has var i := by
  rw [holds, View.isValid, Has, buffer_eq h]
  simp [and_assoc]

theorem read?_eq (h : v.vars[var]? = some (name, b)) (i : Int) :
    v.read? var i = some ((v.records var i).getD Quad.zero) := by
  rw [read?, h, Option.map_some]
  simp only [holds_iff h, records, buffer_eq h]
  split <;> rfl

theorem write?_of_has (h : v.vars[var]? = some (name, b)) (hhas : v.Has var i) (q : Quad) :
    v.write? var i q =
      some { v with vars := v.vars.setIfInBounds var (name, b.setIfInBounds i.toNat q) } := by
  rw [write?, h, Option.map_some]
  simp only [holds_iff h, if_pos hhas]

theorem write?_of_not_has (h : v.vars[var]? = some (name, b)) (hhas : ¬v.Has var i) (q : Quad) :
    v.write? var i q = some { v with discard := q } := by
  rw [write?, h, Option.map_some]
  simp only [holds_iff h, if_neg hhas]

theorem buffer_setVar (h : var < v.vars.size) (name : Text) (b : Buffer) (var' : Nat) :
    OwnedView.buffer { v with vars := v.vars.setIfInBounds var (name, b) } var' =
      if var = var' then b else v.buffer var' := by
  simp only [buffer, Array.getElem?_setIfInBounds]
  by_cases hsame : var = var'
  · subst hsame
    simp [h]
  · simp [hsame]

theorem records_of_write {v' : OwnedView} {q : Quad} (hhas : v.Has var i) (hsize : v'.size = v.size)
    (hbuffer : ∀ var', v'.buffer var' =
      if var = var' then (v.buffer var).setIfInBounds i.toNat q else v.buffer var') :
    v'.records = v.records.put var i q := by
  funext var' i'
  have hiff : v'.Has var' i' ↔ v.Has var' i' := by
    rw [Has, Has, hsize, hbuffer]
    split
    · next hsame => rw [← hsame, Array.size_setIfInBounds]
    · rfl
  simp only [records, Records.put, hiff, hbuffer]
  by_cases hi' : v.Has var' i'
  · rw [if_pos hi', if_pos hi', Option.map_some]
    by_cases hvar : var = var'
    · subst hvar
      rw [if_pos rfl, Array.getD_eq_getD_getElem?, Array.getElem?_setIfInBounds]
      obtain ⟨hlower, -, hupper⟩ := hi'
      have hlt : i'.toNat < (v.buffer var).size := by omega
      by_cases hsame : i = i'
      · subst hsame
        simp [hlt]
      · have hne : i.toNat ≠ i'.toNat := by
          have hfirst := hhas.1
          omega
        simp [hsame, hne]
    · simp [hvar]
  · simp [if_neg hi']

theorem records_congr {v' : OwnedView} (hsize : v'.size = v.size) (hvars : v'.vars = v.vars) :
    v'.records = v.records := by
  have hbuffer : v'.buffer = v.buffer := by
    funext var
    rw [buffer, hvars]
    rfl
  funext var i
  have hiff : v'.Has var i ↔ v.Has var i := by
    rw [Has, hsize, hbuffer]
    rfl
  simp only [records, hiff, hbuffer]

structure Shows (count : Nat) (v : OwnedView) (r : Records) : Prop where
  vars : v.vars.size = count
  records : v.records = r

theorem Shows.access? {count : Nat} {r : Records} (h : v.Shows count r) {a : Access}
    (ha : a.Within count) :
    ∃ v', v.access? a = some ((r.access a).1, v') ∧ v'.Shows count (r.access a).2 := by
  obtain ⟨hsize, rfl⟩ := h
  have hexists {var : Nat} (hvar : var < count) : ∃ name b, v.vars[var]? = some (name, b) :=
    ⟨_, _, Array.getElem?_eq_getElem (hsize ▸ hvar)⟩
  cases a with
  | read var i =>
    obtain ⟨name, b, hvar⟩ := hexists ha
    refine ⟨v, ?_, hsize, rfl⟩
    rw [OwnedView.access?, read?_eq hvar]
    rfl
  | write var i q =>
    obtain ⟨name, b, hvar⟩ := hexists ha
    by_cases hhas : v.Has var i
    · refine ⟨{ v with vars := v.vars.setIfInBounds var (name, b.setIfInBounds i.toNat q) }, ?_,
        (Array.size_setIfInBounds ..).trans hsize, ?_⟩
      · rw [OwnedView.access?, write?_of_has hvar hhas]
        rfl
      · refine records_of_write hhas rfl ?_
        rw [buffer_eq hvar]
        exact buffer_setVar (hsize ▸ ha) name _
    · refine ⟨{ v with discard := q }, ?_, hsize, (Records.put_of_none (if_neg hhas) q).symm⟩
      rw [OwnedView.access?, write?_of_not_has hvar hhas]
      rfl
  | cursor c =>
    obtain ⟨hkept, hvars⟩ := v.call_kept c
    exact ⟨_, rfl, hvars ▸ hsize, records_congr hkept hvars⟩

end OwnedView

/-! ### The cells behind a view -/

/-- A view with the cell that is shown where it holds nothing. What is written there goes to its
discard. -/
structure Cells where
  view : OwnedView
  blank : Quad

inductive Pointer where
  | record (var k : Nat)
  | blank
  | discard

namespace Cells

def toRead (cells : Cells) (var : Nat) (i : Int) : Option (Pointer × Cells) :=
  cells.view.vars[var]?.map fun x =>
    if cells.view.holds x.2 i then (.record var i.toNat, cells)
    else (.blank, { cells with blank := Quad.zero })

def toWrite (cells : Cells) (var : Nat) (i : Int) : Option Pointer :=
  cells.view.vars[var]?.map fun x => if cells.view.holds x.2 i then .record var i.toNat else .discard

def load (cells : Cells) : Pointer → Quad
  | .record var k => (cells.view.buffer var).getD k Quad.zero
  | .blank => cells.blank
  | .discard => cells.view.discard

def store (cells : Cells) (q : Quad) : Pointer → Cells
  | .record var k =>
    let vars := cells.view.vars.modify var fun x => (x.1, x.2.setIfInBounds k q)
    { cells with view := { cells.view with vars } }
  | .blank => { cells with blank := q }
  | .discard => { cells with view := { cells.view with discard := q } }

def access? (cells : Cells) : Access → Option (Option Quad × Cells)
  | .read var i => (cells.toRead var i).map fun x => (some (x.2.load x.1), x.2)
  | .write var i q => (cells.toWrite var i).map fun x => (none, cells.store q x)
  | .cursor c => some (none, { cells with view := (cells.view.call c).2 })

theorem modify_eq_setIfInBounds {α : Type} {xs : Array α} {k : Nat} {x : α} (h : xs[k]? = some x)
    (f : α → α) : xs.modify k f = xs.setIfInBounds k (f x) := by
  apply Array.ext_getElem?
  intro j
  rw [Array.getElem?_modify, Array.getElem?_setIfInBounds]
  by_cases hj : k = j
  · subst hj
    rw [if_pos rfl, if_pos rfl, h, if_pos (Array.getElem?_eq_some_iff.mp h).1]
    rfl
  · rw [if_neg hj, if_neg hj]

theorem access?_view (cells : Cells) (a : Access) :
    (cells.access? a).map (fun x => (x.1, x.2.view)) = cells.view.access? a := by
  cases a with
  | cursor c => rfl
  | read var i =>
    rw [access?, toRead, OwnedView.access?, OwnedView.read?]
    cases hvar : cells.view.vars[var]? with
    | none => rfl
    | some x =>
      simp only [Option.map_some]
      split
      · rw [load, OwnedView.buffer_eq hvar]
      · rfl
  | write var i q =>
    rw [access?, toWrite, OwnedView.access?, OwnedView.write?]
    cases hvar : cells.view.vars[var]? with
    | none => rfl
    | some x =>
      simp only [Option.map_some]
      split
      · simp only [store, modify_eq_setIfInBounds hvar]
      · rfl

theorem access?_shows (cells : Cells) {count : Nat} {r : Records}
    (h : cells.view.Shows count r) {a : Access} (ha : a.Within count) :
    ∃ cells', cells.access? a = some ((r.access a).1, cells') ∧
      cells'.view.Shows count (r.access a).2 := by
  obtain ⟨v', hv', hshows⟩ := h.access? ha
  rw [← access?_view, Option.map_eq_some_iff] at hv'
  obtain ⟨⟨q, cells'⟩, hcells, heq⟩ := hv'
  obtain ⟨rfl, rfl⟩ := Prod.mk.inj heq
  exact ⟨cells', hcells, hshows⟩

end Cells

/-! ### Views of a memory -/

def View.Separate (view : View (Option BufferId)) : Prop :=
  ∀ (j k : Nat) (x y : Text) (b : BufferId), view.vars[j]? = some (x, some b) →
    view.vars[k]? = some (y, some b) → j = k

namespace Memory

open Simulation.Progress

def Owns (m : Memory) (id : Nat) (v : OwnedView) : Prop :=
  ∃ view, m.views[id]? = some view ∧ view.Separate ∧ ownView m view = v

def access (m : Memory) (id : Nat) : Access → Option Quad × Memory
  | .read var i => (some (m.readRecord id var i), m)
  | .write var i q => (none, m.writeRecord id var i q)
  | .cursor (.move c) => (none, (m.moveCursor id c).2)
  | .cursor .reset => (none, (m.views[id]?.map fun view => m.setView id view.reset).getD m)

variable {m : Memory} {id var : Nat} {i : Int} {view : View (Option BufferId)} {v : OwnedView}
variable {name : Text} {b : Option BufferId}

theorem vars_ownView (m : Memory) (view : View (Option BufferId)) (k : Nat) :
    (ownView m view).vars[k]? =
      view.vars[k]?.map fun x => (x.1, (x.2.map m.buffer).getD #[]) := by
  rw [ownView, Array.getElem?_map]
  rfl

theorem locate_eq (h : view.vars[var]? = some (name, b)) (i : Int) :
    m.locate view var i =
      if (ownView m view).Has var i then b.map fun b => (b, i.toNat) else none := by
  have hvar := vars_ownView m view var
  rw [h, Option.map_some] at hvar
  cases b with
  | none => simp [locate, h]
  | some b =>
    rw [locate, h]
    simp only [← OwnedView.holds_iff hvar]
    rfl

theorem ownView_setCell {b : BufferId} (hseparate : view.Separate)
    (h : view.vars[var]? = some (name, some b)) (k : Nat) (q : Quad) :
    ownView (m.setCell b k q) view = { ownView m view with
      vars := (ownView m view).vars.setIfInBounds var
        (name, (m.buffer b).setIfInBounds k q) } := by
  have hvars : (ownView (m.setCell b k q) view).vars = (ownView m view).vars.setIfInBounds var
      (name, (m.buffer b).setIfInBounds k q) := by
    apply Array.ext_getElem?
    intro j
    rw [Array.getElem?_setIfInBounds, vars_ownView, vars_ownView]
    by_cases hj : var = j
    · subst hj
      have hlt : var < (ownView m view).vars.size := by
        rw [ownView, Array.size_map]
        exact (Array.getElem?_eq_some_iff.mp h).1
      rw [h, if_pos rfl, if_pos hlt]
      simp only [Option.map_some, Option.getD_some, buffer_setCell, if_true]
    · rw [if_neg hj]
      rcases hother : view.vars[j]? with _ | ⟨x, _ | b'⟩
      · rfl
      · rfl
      · have hne : b' ≠ b := by
          rintro rfl
          exact hj (hseparate var j name x b' h hother)
        simp only [Option.map_some, buffer_setCell, if_neg hne]
  exact congrArg (fun vars => { ownView m view with vars }) hvars

theorem call_ownView (m : Memory) (view : View (Option BufferId)) (c : CursorCall) :
    ((ownView m view).call c).2 = ownView m (view.call c).2 := by
  cases c with
  | reset => rfl
  | move c =>
    cases c with
    | acquire | acquireWrap | consume | consumeWrap =>
      simp only [View.call, View.move, View.acquire, View.acquireWrap, View.consume,
        View.consumeWrap, apply_ite Prod.snd]
      rw [apply_ite (ownView m)]
      rfl

theorem exists_buffer (h : view.vars[var]? = some (name, b)) (hhas : (ownView m view).Has var i) :
    ∃ k, b = some k ∧ (ownView m view).buffer var = m.buffer k := by
  have hvar := vars_ownView m view var
  rw [h, Option.map_some] at hvar
  have hbuffer := OwnedView.buffer_eq hvar
  cases b with
  | some k => exact ⟨k, rfl, hbuffer⟩
  | none =>
    -- Without a buffer there is no index to be had.
    obtain ⟨hlower, -, hupper⟩ := hhas
    rw [hbuffer] at hupper
    exact absurd hupper (Int.not_lt.mpr hlower)

theorem readRecord_eq (hview : m.views[id]? = some view) (h : view.vars[var]? = some (name, b))
    (i : Int) : m.readRecord id var i = ((ownView m view).records var i).getD Quad.zero := by
  simp only [readRecord, hview, locate_eq h, OwnedView.records]
  by_cases hhas : (ownView m view).Has var i
  · obtain ⟨k, rfl, hbuffer⟩ := exists_buffer h hhas
    rw [if_pos hhas, if_pos hhas, hbuffer]
    rfl
  · rw [if_neg hhas, if_neg hhas]
    rfl

theorem access_cursor (hview : m.views[id]? = some view) (c : CursorCall) :
    m.access id (.cursor c) = (none, m.setView id (view.call c).2) := by
  cases c with
  | move c => simp only [access, moveCursor, hview, View.call]
  | reset => simp only [access, hview, View.call, Option.map_some, Option.getD_some]

theorem Owns.access (h : m.Owns id v) {a : Access} (ha : a.Within v.vars.size) :
    ∃ v', v.access? a = some ((m.access id a).1, v') ∧ (m.access id a).2.Owns id v' := by
  obtain ⟨view, hview, hseparate, rfl⟩ := h
  have hset (view' : View (Option BufferId)) (hvars : view'.vars = view.vars) :
      (m.setView id view').Owns id (ownView m view') := by
    refine ⟨view', ?_, ?_, rfl⟩
    · exact Array.getElem?_setIfInBounds_self_of_lt (Array.getElem?_eq_some_iff.mp hview).1
    · rw [View.Separate, hvars]
      exact hseparate
  have hexists {var : Nat} (hvar : var < (ownView m view).vars.size) :
      ∃ name b, view.vars[var]? = some (name, b) ∧ (ownView m view).vars[var]? =
        some (name, (b.map m.buffer).getD #[]) := by
    rw [ownView, Array.size_map] at hvar
    refine ⟨_, _, Array.getElem?_eq_getElem hvar, ?_⟩
    rw [vars_ownView, Array.getElem?_eq_getElem hvar]
    rfl
  cases a with
  | read var i =>
    obtain ⟨name, b, hvar, howned⟩ := hexists ha
    refine ⟨ownView m view, ?_, view, hview, hseparate, rfl⟩
    rw [OwnedView.access?, OwnedView.read?_eq howned, Memory.access, readRecord_eq hview hvar]
    rfl
  | write var i q =>
    obtain ⟨name, b, hvar, howned⟩ := hexists ha
    by_cases hhas : (ownView m view).Has var i
    · obtain ⟨k, rfl, -⟩ := exists_buffer hvar hhas
      have hwrite : m.writeRecord id var i q = m.setCell k i.toNat q := by
        simp only [writeRecord, hview, locate_eq hvar, if_pos hhas, Option.map_some]
      refine ⟨ownView (m.setCell k i.toNat q) view, ?_, ?_⟩
      · rw [OwnedView.access?, OwnedView.write?_of_has howned hhas, ownView_setCell hseparate hvar]
        rfl
      · rw [Memory.access, hwrite]
        exact ⟨view, hview, hseparate, rfl⟩
    · have hwrite : m.writeRecord id var i q = m.setView id { view with discard := q } := by
        simp only [writeRecord, hview, locate_eq hvar, if_neg hhas]
      refine ⟨ownView m { view with discard := q }, ?_, ?_⟩
      · rw [OwnedView.access?, OwnedView.write?_of_not_has howned hhas]
        rfl
      · rw [Memory.access, hwrite]
        exact hset _ rfl
  | cursor c =>
    rw [access_cursor hview]
    refine ⟨_, rfl, ?_⟩
    rw [call_ownView]
    exact hset _ (view.call_kept c).2

theorem access_shows {count : Nat} {r : Records} (h : ∃ v, m.Owns id v ∧ v.Shows count r)
    {a : Access} (ha : a.Within count) :
    (m.access id a).1 = (r.access a).1 ∧
      ∃ v, (m.access id a).2.Owns id v ∧ v.Shows count (r.access a).2 := by
  obtain ⟨v, howns, hshows⟩ := h
  obtain ⟨v', hv', howns'⟩ := howns.access (hshows.vars ▸ ha)
  obtain ⟨v'', hv'', hshows'⟩ := hshows.access? ha
  obtain ⟨hanswer, rfl⟩ := Prod.mk.inj (Option.some.inj (hv'.symm.trans hv''))
  exact ⟨hanswer, v', howns', hshows'⟩

end Memory

/-! ### Behaviour -/

/-- Accesses to the variables of the view are answered as by a partial map: its domain is that of the
view, and what it holds at first are the records of the view. -/
structure ActsAsMap (v : OwnedView) (answers : List Access → Option (List (Option Quad))) : Prop where
  /-- A read gives what was written last to the place, or else the first record; outside it gives
  zero. -/
  read : ∀ before var i after, (∀ a ∈ before ++ .read var i :: after, a.Within v.vars.size) →
    ∃ xs, answers (before ++ .read var i :: after) = some xs ∧
      xs[before.length]? = some (some (if v.Has var i then
        (lastWritten var i before).getD ((v.buffer var).getD i.toNat Quad.zero) else Quad.zero))
  /-- A write outside might as well be left out. -/
  outside : ∀ before var i q after,
    (∀ a ∈ before ++ .write var i q :: after, a.Within v.vars.size) → ¬v.Has var i →
    ∃ xs, answers (before ++ .write var i q :: after) = some xs ∧
      answers (before ++ after) = some (xs.eraseIdx before.length)
  /-- Only a write to a place of the domain changes what a read of that place gives. -/
  frame : ∀ before a var i,
    (∀ x ∈ before ++ [.read var i, a, .read var i], x.Within v.vars.size) →
    (v.Has var i → a.written var i = none) →
    ∃ xs x, answers (before ++ [.read var i, a, .read var i]) = some xs ∧
      xs[before.length]? = some (some x) ∧ xs[before.length + 2]? = some (some x)

theorem OwnedView.actsAsMap {v : OwnedView} {answers : List Access → Option (List (Option Quad))}
    (h : ∀ accesses, (∀ a ∈ accesses, a.Within v.vars.size) →
      answers accesses = some (v.records.answers accesses)) : ActsAsMap v answers where
  read before var i after hwithin := by
    refine ⟨_, h _ hwithin, ?_⟩
    have hget := v.records.getElem?_answers before (.read var i :: after) 0
    rw [Nat.add_zero] at hget
    rw [hget, Records.answers, List.getElem?_cons_zero, Records.access, Records.after_apply, records]
    split <;> rfl
  outside before var i q after hwithin hhas := by
    refine ⟨_, h _ hwithin, ?_⟩
    have hrest : ∀ a ∈ before ++ after, a.Within v.vars.size := fun a ha =>
      hwithin a (((List.sublist_cons_self ..).append_left before).subset ha)
    have hnone : v.records.after before var i = none := by
      rw [Records.after_apply, records, if_neg hhas, Option.map_none]
    rw [h _ hrest, Records.answers_append, Records.answers_append, Records.answers, Records.access,
      Records.put_of_none hnone, ← v.records.length_answers before,
      List.eraseIdx_append_of_length_le le_rfl, Nat.sub_self, List.eraseIdx_cons_zero]
  frame before a var i hwithin hkept := by
    refine ⟨_, _, h _ hwithin, v.records.getElem?_answers before _ 0, ?_⟩
    have hsame : ((v.records.after before).access a).2 var i = v.records.after before var i := by
      rw [Records.access_apply]
      by_cases hhas : v.Has var i
      · rw [hkept hhas]
        exact Option.map_id' ..
      · rw [Records.after_apply, records, if_neg hhas, Option.map_none, Option.map_none]
    rw [v.records.getElem?_answers before _ 2]
    exact congrArg (fun q => some (some (q.getD Quad.zero))) hsame

/-- A view is a bounded partial map. It does not show what is in its discard, what somebody stores to its
blank before an access, or that its buffers are those of a memory. -/
theorem OwnedView.acts_as_partial_map (v : OwnedView) :
    ActsAsMap v (Access.answers OwnedView.access? v) ∧
      (∀ (dirt : Cells → Quad) (blank discard : Quad),
        ActsAsMap v (Access.answers
          (fun (cells : Cells) a => (cells.store (dirt cells) .blank).access? a)
          ⟨{ v with discard }, blank⟩)) ∧
      ∀ (m : Memory) (id : Nat), m.Owns id v →
        ActsAsMap v (Access.answers (fun m a => some (m.access id a)) m) := by
  refine ⟨actsAsMap fun accesses hwithin => ?_, ?_, ?_⟩
  · exact Records.answers_eq (R := Shows v.vars.size) (fun _ _ _ hshows ha => hshows.access? ha)
      ⟨rfl, rfl⟩ hwithin
  · intro dirt blank discard
    refine actsAsMap fun accesses hwithin => ?_
    refine Records.answers_eq (R := fun (cells : Cells) => Shows v.vars.size cells.view) ?_
      ⟨rfl, rfl⟩ hwithin
    intro cells r a hshows ha
    exact Cells.access?_shows (cells.store (dirt cells) .blank) hshows ha
  · intro m id howns
    refine actsAsMap fun accesses hwithin => ?_
    refine Records.answers_eq (R := fun (m : Memory) r => ∃ u, m.Owns id u ∧ Shows v.vars.size u r) ?_
      ⟨v, howns, rfl, rfl⟩ hwithin
    intro m r a hshows ha
    obtain ⟨hanswer, hshows'⟩ := Memory.access_shows hshows ha
    exact ⟨_, congrArg some (Prod.ext hanswer rfl), hshows'⟩

def gauges : View (Option BufferId) :=
  { name := Text.lit "gauges", size := 2
    vars := #[(Text.lit "short", some 0), (Text.lit "absent", none), (Text.lit "long", some 1)] }

def gaugeMemory : Memory :=
  { buffers := #[#[Quad.zero], #[Quad.zero, Quad.splat Lane.one, Quad.zero]], views := #[gauges] }

def gaugeRecords : OwnedView :=
  { name := Text.lit "gauges", size := 2
    vars := #[(Text.lit "short", #[Quad.zero]), (Text.lit "absent", #[]),
      (Text.lit "long", #[Quad.zero, Quad.splat Lane.one, Quad.zero])] }

theorem gaugeMemory_owns : gaugeMemory.Owns 0 gaugeRecords := by
  refine ⟨gauges, rfl, ?_, ?_⟩
  · intro j k x y b hj hk
    -- The buffers are those of every other variable, in order.
    have hplace {n : Nat} {z : Text} (hn : gauges.vars[n]? = some (z, some b)) : n = 2 * b := by
      rcases n with _ | _ | _ | n <;> simp [gauges] at hn
      · exact hn.2 ▸ rfl
      · exact hn.2 ▸ rfl
    rw [hplace hj, hplace hk]
  · simp [Simulation.Progress.ownView, gauges, gaugeMemory, gaugeRecords]

theorem gauges_kept :
    let answers := Access.answers (fun (m : Memory) a => some (m.access 0 a)) gaugeMemory
    let one := Quad.splat Lane.one
    gaugeMemory.Owns 0 gaugeRecords ∧
      (∃ xs, answers [.write 0 0 one, .cursor .reset, .read 0 0] = some xs ∧
        xs[2]? = some (some one)) ∧
      (∃ xs, answers [.write 1 0 one, .cursor .reset, .read 1 0] = some xs ∧
        xs[2]? = some (some Quad.zero)) ∧
      ∃ xs, answers [.write 2 2 one, .cursor .reset, .read 2 2] = some xs ∧
        xs[2]? = some (some Quad.zero) := by
  -- What is written to the one record of the short variable is there afterwards; what is written
  -- where there is no buffer, or beyond the view, is not.
  have hmap := gaugeRecords.acts_as_partial_map.2.2 gaugeMemory 0 gaugeMemory_owns
  have hread (var : Nat) (hvar : var < gaugeRecords.vars.size) (i : Int) :=
    hmap.read [.write var i (Quad.splat Lane.one), .cursor .reset] var i []
      (by simp [Access.Within, hvar])
  exact ⟨gaugeMemory_owns, hread 0 (by decide) 0, hread 1 (by decide) 0, hread 2 (by decide) 2⟩

end Quadlane
