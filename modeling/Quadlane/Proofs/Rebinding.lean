import Quadlane.Proofs.Binding

/-! What remains of a failed binding. Binding reads declarations and sets what is resolved from them,
so a binding that failed fails in the same way again. Whether a tick binds first is decided by a
flag; over every history of operations it says whether all names were resolved since the last
addition. It survives a binding that fails, and then the next tick runs on emitters that are bound in
part. -/

namespace Quadlane.Simulation

/-! ### What binding reads and what it sets -/

def Script.bare (s : Script) : Script :=
  { s with wiring := {} }

def Emitter.bare (e : Emitter) : Emitter :=
  { e with
    scripts := e.scripts.map Script.bare
    machine := none
    spawnSet := none
    aliveColumn := none }

def Emitter.declared (e : Emitter) : Emitter :=
  { e.bare with columns := #[], live := 0 }

section

variable (e : Emitter) (sets : Array OwnedView)

theorem resolveAttributes_declared (names : List Text) :
    resolveAttributes e.declared names = resolveAttributes e names := by
  induction names with
  | nil => rfl
  | cons name names ih =>
    rw [resolveAttributes, resolveAttributes, ih]
    rfl

theorem bindScript_bare (s : Script) : (bindScript e sets s).1.bare = s.bare := by
  unfold bindScript
  split
  · rfl
  · split
    · rfl
    · split
      · rfl
      · dsimp only
        split
        · rfl
        · split
          · rfl
          · split <;> rfl

theorem bindScript_error (s : Script) :
    (bindScript e.declared sets s.bare).2 = (bindScript e sets s).2 := by
  simp only [bindScript, resolveAttributes_declared, Script.bare]
  split
  · rfl
  · split
    · rfl
    · split
      · rfl
      · split
        · rfl
        · split
          · rfl
          · split <;> rfl

theorem bindScripts_bare (scripts : List Script) :
    (bindScripts e sets scripts).1.map Script.bare = scripts.map Script.bare := by
  induction scripts with
  | nil => rfl
  | cons s scripts ih =>
    have hs := bindScript_bare e sets s
    unfold bindScripts
    split
    · next h => rw [h] at hs; rw [List.map_cons, List.map_cons, ← hs]
    · next h => rw [h] at hs; rw [List.map_cons, List.map_cons, ih, ← hs]

theorem bindScripts_cons_error (s : Script) (scripts : List Script) :
    (bindScripts e sets (s :: scripts)).2 =
      ((bindScript e sets s).2.map fun err => (s.name, err)).or (bindScripts e sets scripts).2 := by
  have hname := congrArg Script.name (bindScript_bare e sets s)
  rw [bindScripts.eq_2]
  rcases h : bindScript e sets s with ⟨s', _ | err⟩ <;> rw [h] at hname
  · rfl
  · exact congrArg (fun name => some (name, err)) hname

theorem bindScripts_error (scripts : List Script) :
    (bindScripts e.declared sets (scripts.map Script.bare)).2 = (bindScripts e sets scripts).2 := by
  induction scripts with
  | nil => rfl
  | cons s scripts ih =>
    rw [List.map_cons, bindScripts_cons_error, bindScripts_cons_error, bindScript_error, ih]
    rfl

end

namespace Emitter

abbrev BindStep := Emitter → Emitter × Option BindError

/-- A step that changes no declaration, and fails or not because of declarations only. -/
structure BindStep.Steady (f : BindStep) : Prop where
  keeps : ∀ e, (f e).1.bare = e.bare
  error : ∀ e, (f e.declared).2 = (f e).2

def BindStep.andThen (f g : BindStep) : BindStep := fun e =>
  match f e with
  | (e, some err) => (e, some err)
  | (e, none) => g e

theorem declared_of_bare {e e' : Emitter} (h : e.bare = e'.bare) : e.declared = e'.declared := by
  rw [declared, h, declared]

theorem declared_declared (e : Emitter) : e.declared.declared = e.declared := by
  have hscripts : e.declared.scripts.map Script.bare = e.scripts.map Script.bare :=
    List.map_map.trans (List.map_congr_left fun _ _ => rfl)
  rw [declared, bare, hscripts]
  rfl

namespace BindStep.Steady

variable {f g : BindStep}

theorem congr (h : f.Steady) {e e' : Emitter} (hdeclared : e.declared = e'.declared) :
    (f e).2 = (f e').2 := by
  rw [← h.error e, hdeclared, h.error]

theorem andThen (hf : f.Steady) (hg : g.Steady) : (f.andThen g).Steady where
  keeps e := by
    have hkeeps := hf.keeps e
    unfold BindStep.andThen
    split
    · next h => rwa [h] at hkeeps
    · next h =>
      rw [h] at hkeeps
      exact (hg.keeps _).trans hkeeps
  error e := by
    have hkeeps := hf.keeps e
    have hkeeps' := hf.keeps e.declared
    have herror := hf.error e
    unfold BindStep.andThen
    split
    · next h' =>
      rw [h'] at herror
      split
      · next h =>
        rw [h] at herror
        exact herror
      · next h =>
        rw [h] at herror
        cases herror
    · next h' =>
      rw [h'] at herror hkeeps'
      split
      · next h =>
        rw [h] at herror
        cases herror
      · next h =>
        rw [h] at hkeeps
        refine hg.congr ((declared_of_bare hkeeps').trans ?_)
        exact e.declared_declared.trans (declared_of_bare hkeeps).symm

end BindStep.Steady

variable (o : Options) (sets : Array OwnedView) (index : Nat)

theorem bindAlive_steady : BindStep.Steady bindAlive where
  keeps e := by
    unfold bindAlive
    split
    · rfl
    · split <;> rfl
  error e := by
    have hindex : e.declared.attributeIndex? e.declared.alive = e.attributeIndex? e.alive := rfl
    have halive : e.declared.alive = e.alive := rfl
    rw [bindAlive, bindAlive, hindex, halive]
    split
    · rfl
    · split <;> rfl

theorem bindSpawnSet_steady : BindStep.Steady (bindSpawnSet · sets) where
  keeps e := by
    unfold bindSpawnSet
    split
    · rfl
    · split <;> rfl
  error e := by
    have hspawn : e.declared.spawnFrom = e.spawnFrom := rfl
    simp only [bindSpawnSet, hspawn]
    split
    · rfl
    · split <;> rfl

def checkDefaults : BindStep := fun e =>
  (e, (e.defaults.find? fun d => (e.attributeIndex? d.1).isNone).map (.unknownDefault ·.1))

theorem checkDefaults_steady : checkDefaults.Steady :=
  ⟨fun _ => rfl, fun _ => rfl⟩

def wire (sets : Array OwnedView) : BindStep := fun e =>
  ({ e with scripts := (bindScripts e sets e.scripts).1 },
    (bindScripts e sets e.scripts).2.map fun x => .script x.1 x.2)

theorem wire_steady : (wire sets).Steady where
  keeps e := by
    simp only [wire, bare, bindScripts_bare]
  error e := congrArg (Option.map _) (bindScripts_error e sets e.scripts)

theorem bind_steady : BindStep.Steady (bind · o sets index) := by
  obtain ⟨m, hm⟩ : ∃ m, Machine.new o.chunkSize (wrap (o.seed + index)) o.noise = m := ⟨_, rfl⟩
  cases hexists : m.canExist with
  | false =>
    simp only [Emitter.bind, hm, hexists]
    exact ⟨fun _ => rfl, fun _ => rfl⟩
  | true =>
    have hsteps : (bind · o sets index) =
        BindStep.andThen (fun e => ({ e with machine := some m }, none))
          (BindStep.andThen bindAlive (BindStep.andThen (bindSpawnSet · sets)
            (checkDefaults.andThen (wire sets)))) := by
      funext e
      simp only [Emitter.bind, hm, hexists, BindStep.andThen]
      rcases bindAlive { e with machine := some m } with ⟨e₁, _ | err⟩
      · dsimp only
        rcases e₁.bindSpawnSet sets with ⟨e₂, _ | err⟩
        · simp only [checkDefaults]
          cases e₂.defaults.find? fun d => (e₂.attributeIndex? d.1).isNone <;> rfl
        · rfl
      · rfl
    rw [hsteps]
    exact .andThen ⟨fun _ => rfl, fun _ => rfl⟩
      (bindAlive_steady.andThen ((bindSpawnSet_steady sets).andThen
        (checkDefaults_steady.andThen (wire_steady sets))))

end Emitter

section

variable (o : Options) (sets : Array OwnedView)

theorem bindEmitters_bare (index : Nat) (emitters : List Emitter) :
    (bindEmitters o sets index emitters).1.map Emitter.bare = emitters.map Emitter.bare := by
  induction emitters generalizing index with
  | nil => rfl
  | cons e emitters ih =>
    have he := (Emitter.bind_steady o sets index).keeps e
    unfold bindEmitters
    split
    · next h => rw [h] at he; rw [List.map_cons, List.map_cons, ← he]
    · next h => rw [h] at he; rw [List.map_cons, List.map_cons, ih, ← he]

theorem bindEmitters_cons_error (index : Nat) (e : Emitter) (emitters : List Emitter) :
    (bindEmitters o sets index (e :: emitters)).2 =
      ((e.bind o sets index).2.map fun err => (e.name, err)).or
        (bindEmitters o sets (index + 1) emitters).2 := by
  have hbare : (e.bind o sets index).1.bare = e.bare := (Emitter.bind_steady o sets index).keeps e
  conv_lhs => unfold bindEmitters
  rcases h : e.bind o sets index with ⟨e', _ | err⟩ <;> rw [h] at hbare
  · rfl
  · have hname : e'.bare.name = e.bare.name := congrArg Emitter.name hbare
    exact congrArg (fun name => some (name, err)) hname

theorem bindEmitters_error (index : Nat) (emitters : List Emitter) :
    (bindEmitters o sets index (emitters.map Emitter.declared)).2 =
      (bindEmitters o sets index emitters).2 := by
  induction emitters generalizing index with
  | nil => rfl
  | cons e emitters ih =>
    rw [List.map_cons, bindEmitters_cons_error, bindEmitters_cons_error,
      (Emitter.bind_steady o sets index).error e, ih]
    rfl

end

namespace World

theorem bind_failed {w w' : World} {e : WorldError} (h : w.bind = (w', some e)) :
    w' = { w with emitters := w'.emitters } ∧
      w'.emitters.map Emitter.bare = w.emitters.map Emitter.bare ∧
      ∃ name cause, e = .bind name cause := by
  have hbare := bindEmitters_bare w.options w.sets 0 w.emitters
  unfold bind at h
  split at h
  · next hbind =>
    obtain ⟨rfl, he⟩ := Prod.mk.inj h
    rw [hbind] at hbare
    exact ⟨rfl, hbare, _, _, (Option.some.inj he).symm⟩
  · cases h

theorem bind_bound {w w' : World} (h : w.bind = (w', none)) : w'.bound = true := by
  unfold bind at h
  split at h
  · cases h
  · exact (congrArg bound (Prod.mk.inj h).1).symm

theorem bind_error_congr {w w' : World} (hoptions : w'.options = w.options)
    (hsets : w'.sets = w.sets)
    (hemitters : w'.emitters.map Emitter.declared = w.emitters.map Emitter.declared) :
    w'.bind.2 = w.bind.2 := by
  have hbind (w : World) : w.bind.2 =
      (bindEmitters w.options w.sets 0 w.emitters).2.map fun x => .bind x.1 x.2 := by
    unfold bind
    split <;> next h => rw [h]; rfl
  rw [hbind, hbind, ← bindEmitters_error, hoptions, hsets, hemitters, bindEmitters_error]

end World

/-! ### Histories -/

inductive Operation where
  | addDataSet (v : OwnedView)
  | addEmitter (e : Emitter)
  | bind
  | tick (stop : Option Interruption)
  | spawn (emitter : Text) (n : Int)
  | configure (emitter : Text) (spawnCount : Int) (spawnFrom alive : Text) (defaults : Bindings)
  | rewrite (emitter : Text) (script : Nat) (program : Option Program) (constants : Bindings)

namespace World

def perform (w : World) : Operation → World × Option WorldError
  | .addDataSet v => w.addDataSet v
  | .addEmitter e => w.addEmitter e
  | .bind => w.bind
  | .tick stop => w.advance stop
  | .spawn name n => (w.modifyEmitter name fun e => (e.spawn n).2, none)
  | .configure name spawnCount spawnFrom alive defaults =>
    (w.modifyEmitter name fun e => { e with spawnCount, spawnFrom, alive, defaults }, none)
  | .rewrite name script program constants =>
    (w.modifyEmitter name fun e =>
      { e with scripts := e.scripts.modify script fun s => { s with program, constants } }, none)

def after (w : World) (operations : List Operation) : World :=
  operations.foldl (fun w op => (w.perform op).1) w

end World

namespace Operation

def Resolves (w : World) : Operation → Prop
  | bind => w.bind.2 = none
  | tick stop => ∀ name e, (w.advance stop).2 ≠ some (.bind name e)
  | _ => False

def isEdit : Operation → Bool
  | bind | tick _ | spawn _ _ => false
  | _ => true

end Operation

namespace World

variable {w : World} {o : Options}

theorem tick_of_bound (h : w.bound = true) (stop : Option Interruption) :
    w.tick stop = w.tickBound stop := by
  rw [tick, if_pos h]

theorem advance_cases (w : World) (stop : Option Interruption) :
    w.advance stop = w.tick stop ∨ ∃ n, (w.tick stop).2 = some (.tick n .fault) ∧
      w.advance stop = ({ (w.tick stop).1 with ticks := (w.tick stop).1.ticks + 1 }, none) := by
  unfold advance
  split
  · next n h => exact .inr ⟨n, by rw [h], by rw [h]⟩
  · exact .inl rfl

theorem after_snoc (w : World) (history : List Operation) (op : Operation) :
    w.after (history ++ [op]) = ((w.after history).perform op).1 := by
  rw [after, List.foldl_append]
  rfl

structure Blocked (w : World) (e : WorldError) : Prop where
  unbound : w.bound = false
  fails : w.bind.2 = some e

namespace Blocked

variable {e : WorldError}

theorem bind_eq (h : w.Blocked e) : w.bind = (w.bind.1, some e) :=
  Prod.ext rfl h.fails

theorem tick_eq (h : w.Blocked e) (stop : Option Interruption) : w.tick stop = w.bind := by
  rw [World.tick, h.unbound, h.bind_eq]
  rfl

theorem advance_eq (h : w.Blocked e) (stop : Option Interruption) : w.advance stop = w.bind := by
  obtain ⟨-, -, name, cause, rfl⟩ := bind_failed h.bind_eq
  rw [World.advance, h.tick_eq, h.bind_eq]

theorem of_declared {w' : World} (h : w.Blocked e) (hbound : w'.bound = w.bound)
    (hoptions : w'.options = w.options) (hsets : w'.sets = w.sets)
    (hemitters : w'.emitters.map Emitter.declared = w.emitters.map Emitter.declared) :
    w'.Blocked e :=
  ⟨hbound.trans h.unbound, (bind_error_congr hoptions hsets hemitters).trans h.fails⟩

theorem bind (h : w.Blocked e) : w.bind.1.Blocked e := by
  obtain ⟨hw, hbare, -⟩ := bind_failed h.bind_eq
  refine h.of_declared (by rw [hw]) (by rw [hw]) (by rw [hw]) ?_
  have hstrip := congrArg (List.map fun e : Emitter => { e with columns := #[], live := 0 }) hbare
  rwa [List.map_map, List.map_map] at hstrip

theorem perform (h : w.Blocked e) {op : Operation} (hop : op.isEdit = false) :
    (w.perform op).1.Blocked e := by
  cases op with
  | bind => exact h.bind
  | tick stop =>
    rw [World.perform, h.advance_eq]
    exact h.bind
  | spawn name n =>
    refine h.of_declared rfl rfl rfl ?_
    simp only [World.perform, modifyEmitter, List.map_map]
    refine List.map_congr_left fun e _ => ?_
    rw [Function.comp_apply]
    split <;> rfl
  | addDataSet v => cases hop
  | addEmitter e => cases hop
  | configure name spawnCount spawnFrom alive defaults => cases hop
  | rewrite name script program constants => cases hop

theorem after {operations : List Operation} (h : w.Blocked e)
    (hops : ∀ op ∈ operations, op.isEdit = false) : (w.after operations).Blocked e := by
  induction operations generalizing w with
  | nil => exact h
  | cons op operations ih =>
    exact ih (h.perform (hops op (List.mem_cons_self ..)))
      fun op' hop' => hops op' (List.mem_cons_of_mem op hop')

end Blocked

end World

def unknownAlive : WorldError :=
  .bind (Text.lit "e") (.unknownAlive (Text.lit "nope"))

end Quadlane.Simulation
