import Quadlane.Proofs.Ticking
import Quadlane.Simulation.World

/-! What binding establishes. A world that could be bound has emitters whose scripts are valid programs,
wired to columns and data sets that exist; their machines let faults out, and have room for
temporaries as long as the chunk size of the world gives them any. -/

namespace Quadlane.Simulation

/-! ### Scripts -/

section Scripts

variable {e : Emitter} {sets : Array OwnedView}

theorem attributeIndex_lt {name : Text} {i : Nat} (h : e.attributeIndex? name = some i) :
    i < e.attributes.length :=
  (List.findIdx?_eq_some_iff_getElem.mp h).1

theorem resolveAttributes_ok {names : List Text} {columns : List Nat}
    (h : resolveAttributes e names = .ok columns) :
    columns.length = names.length ∧ ∀ a ∈ columns, a < e.attributes.length := by
  induction names generalizing columns with
  | nil =>
    obtain rfl : [] = columns := Except.ok.inj h
    exact ⟨rfl, fun _ ha => absurd ha List.not_mem_nil⟩
  | cons name names ih =>
    unfold resolveAttributes at h
    split at h
    · simp at h
    · next i hi =>
      cases hrest : resolveAttributes e names with
      | error err => simp [hrest, Except.map] at h
      | ok rest =>
        obtain rfl : i :: rest = columns := by simpa [hrest, Except.map] using h
        obtain ⟨hlength, hcolumns⟩ := ih hrest
        refine ⟨by rw [List.length_cons, List.length_cons, hlength], ?_⟩
        intro a ha
        rcases List.mem_cons.mp ha with rfl | ha
        · exact attributeIndex_lt hi
        · exact hcolumns a ha

theorem misplacedVariable_none {v : OwnedView} {place : Nat} {vars : List Text}
    (h : misplacedVariable? v place vars = none) :
    vars = [] ∨ place + vars.length ≤ v.vars.size := by
  induction vars generalizing place with
  | nil => exact .inl rfl
  | cons x vars ih =>
    right
    unfold misplacedVariable? at h
    split at h
    · next hplace =>
      have hlt : place < v.vars.size := (Array.findIdx?_eq_some_iff_getElem.mp hplace).1
      rcases ih h with rfl | hrest
      · exact hlt
      · rw [List.length_cons]
        omega
    · simp at h

theorem resolveSet_ok {d : SetDeclaration} {id : Nat} (h : resolveSet sets d = .ok id) :
    ∃ x, (sets.map OwnedView.extent)[id]? = some x ∧ d.vars.length ≤ x.2.2.size := by
  unfold resolveSet at h
  split at h
  · simp at h
  · next i hi =>
    obtain ⟨hlt, -⟩ := Array.findIdx?_eq_some_iff_getElem.mp hi
    split at h
    · simp at h
    · next hplaced =>
      obtain rfl : i = id := Except.ok.inj h
      rw [Array.getElem?_eq_getElem hlt, Option.bind_some] at hplaced
      refine ⟨sets[i].extent, by simp [hlt], ?_⟩
      rw [OwnedView.extent, Array.size_map]
      rcases misplacedVariable_none hplaced with hnil | hle
      · rw [hnil]
        exact Nat.zero_le _
      · omega

theorem resolveSets_ok {declared : List SetDeclaration} {found : List (Option Nat)}
    (h : resolveSets sets declared = (found, none)) :
    found.length = declared.length ∧
      ∀ (i : Nat) (d : SetDeclaration) (set : Option Nat), declared[i]? = some d →
        found[i]? = some set → ∃ id x, set = some id ∧
          (sets.map OwnedView.extent)[id]? = some x ∧ d.vars.length ≤ x.2.2.size := by
  induction declared generalizing found with
  | nil =>
    obtain rfl : [] = found := (Prod.mk.inj h).1
    exact ⟨rfl, by simp⟩
  | cons d declared ih =>
    unfold resolveSets at h
    split at h
    · simp at h
    · next id hid =>
      obtain ⟨rfl, herror⟩ := Prod.mk.inj h
      obtain ⟨hlength, hrest⟩ := ih (Prod.ext rfl herror)
      refine ⟨by rw [List.length_cons, List.length_cons, hlength], ?_⟩
      intro i d' set hd' hset
      cases i with
      | zero =>
        obtain rfl : d = d' := by simpa using hd'
        obtain rfl : some id = set := by simpa using hset
        obtain ⟨x, hx, hvars⟩ := resolveSet_ok hid
        exact ⟨id, x, rfl, hx, hvars⟩
      | succ i => exact hrest i d' set (by simpa using hd') (by simpa using hset)

theorem bindScript_ok {s s' : Script} (h : bindScript e sets s = (s', none)) :
    ∃ program, s'.WiredTo program e.attributes.length (sets.map OwnedView.extent) := by
  unfold bindScript at h
  split at h
  · simp at h
  · next p hprogram =>
    split at h
    · simp at h
    · next hvalid =>
      split at h
      · simp at h
      · next table htable =>
        dsimp only at h
        split at h
        · simp at h
        · split at h
          · simp at h
          · next inputs hinputs =>
            split at h
            · simp at h
            · next outputs houtputs =>
              obtain ⟨rfl, herror⟩ := Prod.mk.inj h
              obtain ⟨hin, hincolumns⟩ := resolveAttributes_ok hinputs
              obtain ⟨hout, houtcolumns⟩ := resolveAttributes_ok houtputs
              obtain ⟨hcount, hsets⟩ := resolveSets_ok (Prod.ext rfl herror)
              have hconstants : table.declared = p.constants := by
                unfold ConstantTable.ofDeclared at htable
                split at htable
                · rw [← Except.ok.inj htable]
                · simp at htable
              exact ⟨p, hprogram, hvalid, congrArg List.length hconstants, hin, hincolumns, hout,
                houtcolumns, hcount, hsets⟩

theorem bindScripts_ok {scripts scripts' : List Script}
    (h : bindScripts e sets scripts = (scripts', none)) :
    ∀ s ∈ scripts', ∃ program, s.WiredTo program e.attributes.length
      (sets.map OwnedView.extent) := by
  induction scripts generalizing scripts' with
  | nil =>
    obtain rfl : [] = scripts' := (Prod.mk.inj h).1
    exact fun _ hs => absurd hs List.not_mem_nil
  | cons s scripts ih =>
    unfold bindScripts at h
    split at h
    · simp at h
    · next s' hs' =>
      obtain ⟨rfl, herror⟩ := Prod.mk.inj h
      intro t ht
      rcases List.mem_cons.mp ht with rfl | ht
      · exact bindScript_ok hs'
      · exact ih (Prod.ext rfl herror) t ht

end Scripts

/-! ### Emitters -/

namespace Options

def chunk (o : Options) : Int :=
  if o.chunkSize ≤ 0 then Machine.defaultChunkSize else o.chunkSize

/-- The number of cells of all temporaries does not wrap around to one that a machine can have. -/
def Roomy (o : Options) : Prop :=
  Buffer.canHold (wrap (Limit.temporaries * o.chunk)) = true →
    Limit.temporaries * o.chunk < 2 ^ 63

theorem chunk_pos (o : Options) : 1 ≤ o.chunk := by
  unfold chunk
  split
  · decide
  · omega

theorem usable_new {o : Options} (seed : Int)
    (hexists : (Machine.new o.chunkSize seed o.noise).canExist = true) :
    Usable (Machine.new o.chunkSize seed o.noise) o.Roomy := by
  have hchunk : (Machine.new o.chunkSize seed o.noise).chunkSize = o.chunk := by
    simp only [Machine.new, chunk]
  simp only [Machine.canExist, Machine.scratchSize, hchunk] at hexists
  refine ⟨rfl, ?_⟩
  intro hroom
  rw [Machine.hasScratch_iff (hchunk ▸ o.chunk_pos), hchunk]
  exact hroom hexists

end Options

namespace Emitter

variable {e e' : Emitter} {o : Options} {sets : Array OwnedView}

structure Pooled (e : Emitter) : Prop where
  columns : Columns.Fits e.columns e.attributes.length e.capacity
  live : e.live ≤ e.capacity

theorem bindAlive_ok (h : e.bindAlive = (e', none)) :
    ∃ aliveColumn, e' = { e with aliveColumn } ∧
      ∀ a, aliveColumn = some a → a < e.attributes.length := by
  unfold bindAlive at h
  split at h
  · exact ⟨none, (Prod.mk.inj h).1.symm, by simp⟩
  · split at h
    · next i hi =>
      refine ⟨some i, (Prod.mk.inj h).1.symm, ?_⟩
      intro a ha
      obtain rfl := Option.some.inj ha
      exact attributeIndex_lt hi
    · simp at h

theorem bindSpawnSet_ok (h : e.bindSpawnSet sets = (e', none)) :
    ∃ spawnSet, e' = { e with spawnSet } := by
  unfold bindSpawnSet at h
  split at h
  · exact ⟨none, (Prod.mk.inj h).1.symm⟩
  · split at h
    · next i _ => exact ⟨some i, (Prod.mk.inj h).1.symm⟩
    · simp at h

theorem bind_of_steps {index : Nat} {m : Machine} {e₁ e₂ : Emitter} {scripts : List Script}
    (hm : Machine.new o.chunkSize (wrap (o.seed + index)) o.noise = m)
    (hexists : m.canExist = true) (halive : bindAlive { e with machine := some m } = (e₁, none))
    (hspawn : e₁.bindSpawnSet sets = (e₂, none))
    (hdefaults : (e₂.defaults.find? fun (name, _) => (e₂.attributeIndex? name).isNone) = none)
    (hscripts : bindScripts e₂ sets e₂.scripts = (scripts, none)) :
    e.bind o sets index = ({ e₂ with scripts }, none) := by
  unfold Emitter.bind
  simp only [hm, hexists, halive, hspawn, hdefaults, hscripts, Bool.not_true, Bool.false_eq_true,
    if_false, Option.map_none]

theorem bind_ok {index : Nat} (h : e.bind o sets index = (e', none)) :
    ∃ m aliveColumn spawnSet scripts,
      Machine.new o.chunkSize (wrap (o.seed + index)) o.noise = m ∧ m.canExist = true ∧
      e' = { e with machine := some m, aliveColumn, spawnSet, scripts } ∧
      (∀ a, aliveColumn = some a → a < e.attributes.length) ∧
      ∀ s ∈ scripts, ∃ program, s.WiredTo program e.attributes.length
        (sets.map OwnedView.extent) := by
  unfold Emitter.bind at h
  dsimp only at h
  split at h
  · simp at h
  · next hexists =>
    split at h
    · simp at h
    · next e₁ halive =>
      obtain ⟨aliveColumn, rfl, hcolumn⟩ := bindAlive_ok halive
      split at h
      · simp at h
      · next e₂ hspawn =>
        obtain ⟨spawnSet, rfl⟩ := bindSpawnSet_ok hspawn
        split at h
        · simp at h
        · obtain ⟨rfl, herror⟩ := Prod.mk.inj h
          have hscripts := bindScripts_ok (Prod.ext rfl (Option.map_eq_none_iff.mp herror))
          exact ⟨_, aliveColumn, spawnSet, _, rfl, by simpa using hexists, rfl, hcolumn, hscripts⟩

theorem Pooled.bind {index : Nat} (h : e.Pooled) (hbind : e.bind o sets index = (e', none)) :
    e'.Bound (sets.map OwnedView.extent) o.Roomy ∧ e'.outline = e.outline := by
  obtain ⟨m, aliveColumn, spawnSet, scripts, rfl, hexists, rfl, hcolumn, hscripts⟩ := bind_ok hbind
  have husable := Options.usable_new (wrap (o.seed + index)) hexists
  exact ⟨⟨h.columns, h.live, ⟨_, rfl, husable⟩, hcolumn, hscripts⟩, rfl⟩

end Emitter

theorem bindEmitters_cons {o : Options} {sets : Array OwnedView} {index : Nat} {e e' : Emitter}
    {rest rest' : List Emitter} (he : e.bind o sets index = (e', none))
    (hrest : bindEmitters o sets (index + 1) rest = (rest', none)) :
    bindEmitters o sets index (e :: rest) = (e' :: rest', none) := by
  rw [bindEmitters.eq_def]
  simp only [he, hrest]

theorem bindEmitters_ok {o : Options} {sets : Array OwnedView} {index : Nat}
    {emitters emitters' : List Emitter} (h : ∀ e ∈ emitters, e.Pooled)
    (hbind : bindEmitters o sets index emitters = (emitters', none)) :
    (∀ e ∈ emitters', e.Bound (sets.map OwnedView.extent) o.Roomy) ∧
      emitters'.map Emitter.outline = emitters.map Emitter.outline := by
  induction emitters generalizing emitters' index with
  | nil =>
    obtain rfl : [] = emitters' := (Prod.mk.inj hbind).1
    exact ⟨fun _ he => absurd he List.not_mem_nil, rfl⟩
  | cons e emitters ih =>
    unfold bindEmitters at hbind
    split at hbind
    · simp at hbind
    · next e' he' =>
      obtain ⟨rfl, herror⟩ := Prod.mk.inj hbind
      obtain ⟨hbound, houtline⟩ := (h e (List.mem_cons_self ..)).bind he'
      obtain ⟨hrest, houtlines⟩ :=
        ih (fun e he => h e (List.mem_cons_of_mem _ he)) (Prod.ext rfl herror)
      refine ⟨?_, by rw [List.map_cons, List.map_cons, houtline, houtlines]⟩
      intro t ht
      rcases List.mem_cons.mp ht with rfl | ht
      · exact hbound
      · exact hrest t ht

end Quadlane.Simulation
