import Mathlib.Logic.Relation
import WorkflowEngine.Lib.Fallible
import WorkflowEngine.Lib.OrderedMap

/-!
# Booting the plugins of a sandbox

`sandbox()` validates the plugin descriptors on the main thread
(`serializePluginDescriptors`) and hands them to the worker, which loads every
module, runs each `worker()`, installs the WASI hooks and the guest functions,
evaluates the guest sources and deletes the private functions. Plugin modules and
the guest VM are parameters; a thrown value is known by its message.
-/

namespace WorkflowEngine.Sandbox.PluginBoot

set_option autoImplicit false

open Lib

/-! ## Descriptors and their validation -/

inductive ForbiddenKind where
  | function
  | symbol
  | bigint
  deriving DecidableEq, Repr

def ForbiddenKind.typeof : ForbiddenKind → String
  | .function => "function"
  | .symbol => "symbol"
  | .bigint => "bigint"

/-- The prototype of an object: `Object.prototype` or null, or another one with its constructor's name. -/
inductive Proto where
  | plain
  | other (constructorName : Option String)
  deriving DecidableEq, Repr

/-- What stands under `config`. Arrays and objects carry their identity: two occurrences of
one object have the same `id`. -/
inductive ConfigValue where
  | undefined
  | null
  | boolean (b : Bool)
  | number (numeral : String)
  | string (s : String)
  | forbidden (kind : ForbiddenKind)
  | array (id : Nat) (items : List ConfigValue)
  | object (id : Nat) (proto : Proto) (fields : List (String × ConfigValue))

structure PluginDescriptor where
  name : String
  workerSource : String
  guestSource : Option String
  config : Option ConfigValue
  dependsOn : Option (List String)

def PluginDescriptor.dependencies (d : PluginDescriptor) : List String := d.dependsOn.getD []

inductive BootPhase where
  | load
  | worker
  | sourceEval
  deriving DecidableEq, Repr

def BootPhase.text : BootPhase → String
  | .load => "load"
  | .worker => "worker"
  | .sourceEval => "source-eval"

inductive WasiHook where
  | clockTimeGet
  | randomGet
  | fdWrite
  deriving DecidableEq, Repr

def WasiHook.text : WasiHook → String
  | .clockTimeGet => "clockTimeGet"
  | .randomGet => "randomGet"
  | .fdWrite => "fdWrite"

inductive BootError where
  | typeError (text : String)
  | configSerialization (pluginName : String) (path : List String) (kind : String)
  | nameCollision (pluginName : String)
  | missingDependency (pluginName missing : String)
  | nameMismatch (expected actual : String)
  | pluginFailed (pluginName : String) (phase : BootPhase) (text : String)
  | wasiHookCollision (hook : WasiHook)
  | guestFunctionNameCollision (functionName firstPlugin secondPlugin : String)
  | userSource (text : String)
  deriving DecidableEq, Repr

def formatPath (path : List String) : String :=
  if path = [] then "<root>" else ".".intercalate path

def BootError.message : BootError → String
  | .typeError text => text
  | .configSerialization pluginName path kind =>
    s!"plugin \"{pluginName}\" config contains non-serializable value at {formatPath path} ({kind})"
  | .nameCollision pluginName => s!"plugin name \"{pluginName}\" is registered more than once"
  | .missingDependency pluginName missing =>
    s!"plugin \"{pluginName}\" declares dependsOn: \"{missing}\" but no such plugin is registered"
  | .nameMismatch expected actual =>
    s!"plugin \"{expected}\" module exported a plugin with mismatching name \"{actual}\""
  | .pluginFailed pluginName phase text =>
    s!"plugin \"{pluginName}\" failed during {phase.text}: {text}"
  | .wasiHookCollision hook =>
    s!"multiple plugins registered a wasi hook for \"{hook.text}\" — only one is allowed"
  | .guestFunctionNameCollision functionName firstPlugin secondPlugin =>
    s!"guest function name \"{functionName}\" is registered by both plugins \"{firstPlugin}\" and \"{secondPlugin}\""
  | .userSource text => text

def assertPlainObjectProto (pluginName : String) (path : List String) :
    Proto → Except BootError Unit
  | .plain => .ok ()
  | .other constructorName =>
    .error (.configSerialization pluginName path (constructorName.getD "non-plain-object"))

mutual

/-- The walk over a config value. `seen` holds the objects met so far and is never shrunk, so
an object that is merely shared is refused as well. -/
def assertSerializableConfig (pluginName : String) (path : List String) (seen : List Nat) :
    ConfigValue → Except BootError (List Nat)
  | .undefined | .null | .boolean _ | .number _ | .string _ => .ok seen
  | .forbidden kind => .error (.configSerialization pluginName path kind.typeof)
  | .array id items =>
    if id ∈ seen then .error (.configSerialization pluginName path "circular-reference")
    else assertArrayElementsSerializable pluginName path (id :: seen) 0 items
  | .object id proto fields =>
    if id ∈ seen then .error (.configSerialization pluginName path "circular-reference")
    else
      match assertPlainObjectProto pluginName path proto with
      | .error e => .error e
      | .ok () => assertObjectEntriesSerializable pluginName path (id :: seen) fields

def assertArrayElementsSerializable (pluginName : String) (path : List String) (seen : List Nat)
    (i : Nat) : List ConfigValue → Except BootError (List Nat)
  | [] => .ok seen
  | value :: items =>
    match assertSerializableConfig pluginName (path ++ [toString i]) seen value with
    | .error e => .error e
    | .ok seen => assertArrayElementsSerializable pluginName path seen (i + 1) items

def assertObjectEntriesSerializable (pluginName : String) (path : List String) (seen : List Nat) :
    List (String × ConfigValue) → Except BootError (List Nat)
  | [] => .ok seen
  | (key, value) :: fields =>
    match assertSerializableConfig pluginName (path ++ [key]) seen value with
    | .error e => .error e
    | .ok seen => assertObjectEntriesSerializable pluginName path seen fields

end

def validateDependsOn (d : PluginDescriptor) : Except BootError Unit :=
  match d.dependsOn with
  | none => .ok ()
  | some deps =>
    if "" ∈ deps then
      .error (.typeError s!"plugin \"{d.name}\" dependsOn entries must be non-empty strings")
    else .ok ()

def validateDescriptor (d : PluginDescriptor) : Except BootError Unit := do
  if d.name = "" then
    throw (.typeError "plugin descriptor must have a non-empty name")
  if d.workerSource = "" then
    throw (.typeError s!"plugin \"{d.name}\" must have a non-empty workerSource")
  if d.guestSource = some "" then
    throw (.typeError s!"plugin \"{d.name}\" guestSource, when present, must be a non-empty string")
  validateDependsOn d
  match d.config with
  | none => return ()
  | some value =>
    let _ ← assertSerializableConfig d.name [] [] value
    return ()

/-- The first loop of `serializePluginDescriptors`: every descriptor, then its name. -/
def collectNames (seenNames : List String) : List PluginDescriptor → Except BootError (List String)
  | [] => .ok seenNames
  | d :: ds =>
    match validateDescriptor d with
    | .error e => .error e
    | .ok () =>
      if d.name ∈ seenNames then .error (.nameCollision d.name)
      else collectNames (seenNames ++ [d.name]) ds

/-- The second loop: every declared dependency is a plugin of the list. -/
def checkDependencies (seenNames : List String) : List PluginDescriptor → Except BootError Unit
  | [] => .ok ()
  | d :: ds =>
    match d.dependencies.find? (· ∉ seenNames) with
    | some missing => .error (.missingDependency d.name missing)
    | none => checkDependencies seenNames ds

/-- The descriptors come back in the order in which they were given. -/
def serializePluginDescriptors (ds : List PluginDescriptor) :
    Except BootError (List PluginDescriptor) := do
  let seenNames ← collectNames [] ds
  checkDependencies seenNames ds
  return ds

theorem collectNames_ok {ds : List PluginDescriptor} :
    ∀ {seen names : List String}, collectNames seen ds = .ok names → seen.Nodup →
      names = seen ++ ds.map (·.name) ∧ names.Nodup := by
  induction ds with
  | nil =>
    intro seen names h hseen
    cases h
    exact ⟨by simp, hseen⟩
  | cons d ds ih =>
    intro seen names h hseen
    simp only [collectNames] at h
    split at h
    · cases h
    · split at h
      · cases h
      · rename_i hfresh
        have hseen' : (seen ++ [d.name]).Nodup := by
          apply List.nodup_append'.mpr
          exact ⟨hseen, by simp, by simpa using hfresh⟩
        obtain ⟨hnames, hnodup⟩ := ih h hseen'
        exact ⟨by simp [hnames], hnodup⟩

theorem checkDependencies_ok {names : List String} {ds : List PluginDescriptor}
    (h : checkDependencies names ds = .ok ()) :
    ∀ d ∈ ds, ∀ q ∈ d.dependencies, q ∈ names := by
  induction ds with
  | nil => simp
  | cons d ds ih =>
    simp only [checkDependencies] at h
    split at h
    · cases h
    · rename_i hnone
      intro e he q hq
      rcases List.mem_cons.mp he with rfl | he
      · simpa using List.find?_eq_none.mp hnone q hq
      · exact ih h e he q hq

theorem serializePluginDescriptors_ok {ds vs : List PluginDescriptor}
    (h : serializePluginDescriptors ds = .ok vs) :
    vs = ds ∧ (ds.map (·.name)).Nodup ∧
      ∀ d ∈ ds, ∀ q ∈ d.dependencies, q ∈ ds.map (·.name) := by
  obtain ⟨names, hnames, h⟩ := bind_eq_ok h
  obtain ⟨u, hdeps, h⟩ := bind_eq_ok h
  cases h
  obtain ⟨rfl, hnodup⟩ := collectNames_ok hnames List.nodup_nil
  refine ⟨rfl, by simpa using hnodup, ?_⟩
  simpa using checkDependencies_ok hdeps

/-! ## The boot pipeline of the worker -/

structure GuestFunction where
  name : String
  isPublic : Option Bool
  deriving DecidableEq, Repr

structure WasiHooks where
  clockTimeGet : Bool
  randomGet : Bool
  fdWrite : Bool
  deriving DecidableEq, Repr

/-- What `worker()` returns; `E` is the type of the exports. -/
structure PluginSetup (E : Type) where
  exports : Option E
  guestFunctions : Option (List GuestFunction)
  wasiHooks : Option WasiHooks

abbrev DepsMap (E : Type) := OrderedMap String E

structure Plugin (E : Type) where
  name : String
  worker : DepsMap E → Option ConfigValue → Except String (Option (PluginSetup E))

structure LoadedPlugin (E : Type) where
  descriptor : PluginDescriptor
  plugin : Plugin E

/-- The plugin modules and the guest VM. -/
structure Host (E : Type) where
  loader : PluginDescriptor → Except String (Plugin E)
  evalCode : String → String → Except String Unit

variable {E : Type}

def loadModule (loader : PluginDescriptor → Except String (Plugin E)) (d : PluginDescriptor) :
    Except BootError (LoadedPlugin E) :=
  match loader d with
  | .ok plugin => .ok ⟨d, plugin⟩
  | .error text => .error (.pluginFailed d.name .load text)

/-- The loop after the loads: every module exports the plugin its descriptor names. -/
def checkModuleNames : List (LoadedPlugin E) → Except BootError Unit
  | [] => .ok ()
  | l :: ls =>
    if l.plugin.name ≠ l.descriptor.name then
      .error (.nameMismatch l.descriptor.name l.plugin.name)
    else checkModuleNames ls

def loadPluginModules (loader : PluginDescriptor → Except String (Plugin E))
    (ds : List PluginDescriptor) : Except BootError (List (LoadedPlugin E)) := do
  let loaded ← ds.mapM (loadModule loader)
  checkModuleNames loaded
  return loaded

/-- One call of a plugin's `worker()`: whose it was and the exports it was handed. -/
structure WorkerCall (E : Type) where
  plugin : String
  deps : DepsMap E

/-- The locals of `runPhaseWorker`, with the calls it has made. -/
structure Phase1 (E : Type) where
  setups : OrderedMap String (PluginSetup E)
  order : List String
  exportsByName : OrderedMap String E
  calls : List (WorkerCall E)

def Phase1.start : Phase1 E := ⟨.empty, [], .empty, []⟩

def depsOf (exportsByName : OrderedMap String E) (dependsOn : List String) : DepsMap E :=
  dependsOn.foldl
    (fun deps depName =>
      match exportsByName.get? depName with
      | some depExports => deps.set depName depExports
      | none => deps)
    .empty

def Phase1.record (p : Phase1 E) (name : String) (deps : DepsMap E) (setup : Option (PluginSetup E)) :
    Phase1 E where
  setups := match setup with
    | some s => p.setups.set name s
    | none => p.setups
  order := p.order ++ [name]
  exportsByName := match setup with
    | some s => match s.exports with
      | some e => p.exportsByName.set name e
      | none => p.exportsByName
    | none => p.exportsByName
  calls := p.calls ++ [⟨name, deps⟩]

@[simp] theorem Phase1.record_calls (p : Phase1 E) (name : String) (deps : DepsMap E)
    (setup : Option (PluginSetup E)) :
    (p.record name deps setup).calls = p.calls ++ [⟨name, deps⟩] := rfl

def runPhaseWorker (p : Phase1 E) : List (LoadedPlugin E) → Except BootError (Phase1 E)
  | [] => .ok p
  | l :: ls =>
    let deps := depsOf p.exportsByName l.descriptor.dependencies
    match l.plugin.worker deps l.descriptor.config with
    | .error text => .error (.pluginFailed l.descriptor.name .worker text)
    | .ok setup => runPhaseWorker (p.record l.descriptor.name deps setup) ls

structure WasiSlots where
  clockTimeGet : Bool
  randomGet : Bool
  fdWrite : Bool
  deriving DecidableEq, Repr

def installWasiHooks (slots : WasiSlots) (hooks : WasiHooks) : Except BootError WasiSlots :=
  if hooks.clockTimeGet && slots.clockTimeGet then .error (.wasiHookCollision .clockTimeGet)
  else if hooks.randomGet && slots.randomGet then .error (.wasiHookCollision .randomGet)
  else if hooks.fdWrite && slots.fdWrite then .error (.wasiHookCollision .fdWrite)
  else .ok ⟨hooks.clockTimeGet || slots.clockTimeGet, hooks.randomGet || slots.randomGet,
    hooks.fdWrite || slots.fdWrite⟩

/-- The loop of phase 1b over the plugins in the order they ran. -/
def installAllWasiHooks (p : Phase1 E) : List String → WasiSlots → Except BootError WasiSlots
  | [], slots => .ok slots
  | name :: names, slots =>
    match (p.setups.get? name).bind (·.wasiHooks) with
    | none => installAllWasiHooks p names slots
    | some hooks =>
      match installWasiHooks slots hooks with
      | .error e => .error e
      | .ok slots => installAllWasiHooks p names slots

structure GuestFunctionEntry where
  pluginName : String
  descriptor : GuestFunction
  deriving DecidableEq, Repr

def Phase1.guestFunctionsOf (p : Phase1 E) (name : String) : List GuestFunction :=
  ((p.setups.get? name).bind (·.guestFunctions)).getD []

def collectGuestFunctions (p : Phase1 E) : List GuestFunctionEntry :=
  p.order.flatMap fun name => (p.guestFunctionsOf name).map fun g => ⟨name, g⟩

def runPhaseSourceEval (evalCode : String → String → Except String Unit)
    (ds : List PluginDescriptor) : List String → Except BootError Unit
  | [] => .ok ()
  | name :: names =>
    match (ds.find? (·.name = name)).bind (·.guestSource) with
    | none => runPhaseSourceEval evalCode ds names
    | some source =>
      match evalCode source s!"<plugin:{name}>" with
      | .error text => .error (.pluginFailed name .sourceEval text)
      | .ok () => runPhaseSourceEval evalCode ds names

def runPhasePrivateDelete (p : Phase1 E) : List String :=
  p.order.flatMap fun name =>
    ((p.guestFunctionsOf name).filter fun g => g.isPublic ≠ some true).map (·.name)

structure Boot (E : Type) where
  phase1 : Phase1 E
  guestFunctions : List GuestFunctionEntry
  deleted : List String

def runPluginBootPipeline (host : Host E) (ds : List PluginDescriptor) : Except BootError (Boot E) := do
  let loaded ← loadPluginModules host.loader ds
  let phase1 ← runPhaseWorker .start loaded
  let _ ← installAllWasiHooks phase1 phase1.order ⟨false, false, false⟩
  let guestFunctions := collectGuestFunctions phase1
  runPhaseSourceEval host.evalCode ds phase1.order
  return ⟨phase1, guestFunctions, runPhasePrivateDelete phase1⟩

/-- `sandbox()` up to the `ready` message: validation on the main thread, the boot pipeline
and the user source in the worker. -/
def sandbox (host : Host E) (source filename : String) (plugins : List PluginDescriptor) :
    Except BootError (Boot E) := do
  let validatedPlugins ← serializePluginDescriptors plugins
  let boot ← runPluginBootPipeline host validatedPlugins
  match host.evalCode source filename with
  | .error text => throw (.userSource text)
  | .ok () => return boot

/-- A check of `plugin-compose.ts` that the pipeline does not make. -/
def assertGuestFunctionNamesUnique (firstOccurrence : OrderedMap String String) :
    List GuestFunctionEntry → Except BootError Unit
  | [] => .ok ()
  | ⟨pluginName, g⟩ :: entries =>
    match firstOccurrence.get? g.name with
    | some prior =>
      if prior ≠ pluginName then .error (.guestFunctionNameCollision g.name prior pluginName)
      else assertGuestFunctionNamesUnique firstOccurrence entries
    | none => assertGuestFunctionNamesUnique (firstOccurrence.set g.name pluginName) entries

/-! ## Inverting a successful boot -/

theorem loadModule_descriptor {loader : PluginDescriptor → Except String (Plugin E)}
    {d : PluginDescriptor} {l : LoadedPlugin E} (h : loadModule loader d = .ok l) :
    l.descriptor = d := by
  unfold loadModule at h
  split at h
  · cases h
    rfl
  · cases h

theorem loadPluginModules_descriptors {loader : PluginDescriptor → Except String (Plugin E)}
    {ds : List PluginDescriptor} {loaded : List (LoadedPlugin E)}
    (h : loadPluginModules loader ds = .ok loaded) : loaded.map (·.descriptor) = ds := by
  obtain ⟨ls, hload, hchecked⟩ := bind_eq_ok h
  obtain ⟨u, -, hreturn⟩ := bind_eq_ok hchecked
  cases hreturn
  have hall := mapM_eq_ok hload
  clear h hload hchecked
  induction hall with
  | nil => rfl
  | cons hd _ ih => rw [List.map_cons, loadModule_descriptor hd, ih]

/-- What the plugins hand back when the worker runs them, as a flat list of guest functions. -/
def pluginGuestFunctions (host : Host E) (ds : List PluginDescriptor) : List GuestFunctionEntry :=
  match loadPluginModules host.loader ds >>= runPhaseWorker .start with
  | .ok phase1 => collectGuestFunctions phase1
  | .error _ => []

theorem sandbox_ok {host : Host E} {source filename : String} {ds : List PluginDescriptor}
    {b : Boot E} (h : sandbox host source filename ds = .ok b) :
    (ds.map (·.name)).Nodup ∧ (∀ d ∈ ds, ∀ q ∈ d.dependencies, q ∈ ds.map (·.name)) ∧
      b.guestFunctions = pluginGuestFunctions host ds ∧
      ∃ loaded, loaded.map (·.descriptor) = ds ∧ runPhaseWorker .start loaded = .ok b.phase1 := by
  obtain ⟨vs, hvs, hrest⟩ := bind_eq_ok h
  obtain ⟨hvs, hnodup, hdeps⟩ := serializePluginDescriptors_ok hvs
  rw [hvs] at hrest
  obtain ⟨boot, hboot, huser⟩ := bind_eq_ok hrest
  have hb : boot = b := by
    split at huser
    · cases huser
    · cases huser
      rfl
  rw [hb] at hboot
  obtain ⟨loaded, hload, hboot⟩ := bind_eq_ok hboot
  obtain ⟨phase1, hphase, hboot⟩ := bind_eq_ok hboot
  obtain ⟨slots, -, hboot⟩ := bind_eq_ok hboot
  obtain ⟨u, -, hreturn⟩ := bind_eq_ok hboot
  cases hreturn
  refine ⟨hnodup, hdeps, ?_, loaded, loadPluginModules_descriptors hload, hphase⟩
  have hrun : (loadPluginModules host.loader ds >>= runPhaseWorker .start) = .ok phase1 := by
    rw [hload]
    exact hphase
  rw [pluginGuestFunctions, hrun]

/-! ## What the worker loop has done after a prefix of the plugins -/

theorem get?_foldl_deps (exportsByName : OrderedMap String E) (q : String) (dependsOn : List String) :
    ∀ deps : DepsMap E,
      (dependsOn.foldl
          (fun deps depName =>
            match exportsByName.get? depName with
            | some depExports => deps.set depName depExports
            | none => deps)
          deps).get? q =
        if q ∈ dependsOn then (exportsByName.get? q).or (deps.get? q) else deps.get? q := by
  induction dependsOn with
  | nil => simp
  | cons d ds ih =>
    intro deps
    rw [List.foldl_cons, ih]
    cases hd : exportsByName.get? d with
    | none =>
      by_cases hqd : q = d
      · subst hqd
        simp [hd]
      · simp [hqd]
    | some e =>
      by_cases hqd : q = d
      · subst hqd
        simp [hd]
      · simp [hqd, OrderedMap.get?_set_of_ne]

theorem get?_depsOf (exportsByName : OrderedMap String E) (dependsOn : List String) (q : String) :
    (depsOf exportsByName dependsOn).get? q =
      if q ∈ dependsOn then exportsByName.get? q else none := by
  rw [depsOf, get?_foldl_deps]
  simp

def Phase1.exportsOf (p : Phase1 E) (q : String) : Option E :=
  (p.setups.get? q).bind (·.exports)

def names (ls : List (LoadedPlugin E)) : List String := ls.map (·.descriptor.name)

/-- The loop has run the plugins `ls`: their calls stand in this order, and each was handed
what its declared dependencies among the earlier ones exported. -/
structure Ran (p : Phase1 E) (ls : List (LoadedPlugin E)) : Prop where
  called : p.calls.map (·.plugin) = names ls
  setups : ∀ q, q ∉ names ls → p.setups.get? q = none
  exportsByName : ∀ q, p.exportsByName.get? q = p.exportsOf q
  handed : ∀ i c l, p.calls[i]? = some c → ls[i]? = some l → ∀ q,
    c.deps.get? q =
      if q ∈ l.descriptor.dependencies ∧ q ∈ names (ls.take i) then p.exportsOf q else none

theorem ran_start : Ran (.start : Phase1 E) [] := by
  refine ⟨rfl, ?_, ?_, ?_⟩
  · intro q _
    rfl
  · intro q
    rfl
  · intro i c l hc
    cases hc

theorem Phase1.record_get?_of_ne (p : Phase1 E) {name q : String} (deps : DepsMap E)
    (setup : Option (PluginSetup E)) (h : q ≠ name) :
    (p.record name deps setup).setups.get? q = p.setups.get? q := by
  cases setup with
  | none => rfl
  | some s => exact OrderedMap.get?_set_of_ne _ _ _ h

theorem Phase1.record_exportsOf_of_ne (p : Phase1 E) {name q : String} (deps : DepsMap E)
    (setup : Option (PluginSetup E)) (h : q ≠ name) :
    (p.record name deps setup).exportsOf q = p.exportsOf q := by
  rw [exportsOf, p.record_get?_of_ne deps setup h, exportsOf]

theorem Phase1.record_exportsByName (p : Phase1 E) {name : String} (deps : DepsMap E)
    (setup : Option (PluginSetup E)) (hfresh : p.setups.get? name = none)
    (h : ∀ q, p.exportsByName.get? q = p.exportsOf q) (q : String) :
    (p.record name deps setup).exportsByName.get? q = (p.record name deps setup).exportsOf q := by
  cases setup with
  | none => exact h q
  | some s =>
    by_cases hq : q = name
    · subst hq
      have hnone : p.exportsByName.get? q = none := by rw [h q, exportsOf, hfresh]; rfl
      cases he : s.exports with
      | none => simp [record, exportsOf, he, hnone]
      | some e => simp [record, exportsOf, he]
    · rw [p.record_exportsOf_of_ne deps (some s) hq, ← h q]
      cases he : s.exports with
      | none => simp [record, he]
      | some e => simp [record, he, OrderedMap.get?_set_of_ne _ _ _ hq]

theorem Ran.record {p : Phase1 E} {ls : List (LoadedPlugin E)} (h : Ran p ls) {l : LoadedPlugin E}
    (hfresh : l.descriptor.name ∉ names ls) (setup : Option (PluginSetup E)) :
    Ran
      (p.record l.descriptor.name (depsOf p.exportsByName l.descriptor.dependencies) setup)
      (ls ++ [l]) := by
  have hlen : p.calls.length = ls.length := by
    have hlen := congrArg List.length h.called
    simpa [names] using hlen
  refine ⟨?_, ?_, ?_, ?_⟩
  · simp [Phase1.record, h.called, names]
  · intro q hq
    simp only [names, List.map_append, List.mem_append, not_or] at hq
    rw [p.record_get?_of_ne _ _ (by simpa using hq.2)]
    exact h.setups q hq.1
  · exact p.record_exportsByName _ setup (h.setups _ hfresh) h.exportsByName
  · intro i c l' hc hl' q
    -- an earlier plugin is never the one that has just run, so its exports stay
    have hexports : ∀ q ∈ names ls,
        (p.record l.descriptor.name (depsOf p.exportsByName l.descriptor.dependencies) setup).exportsOf q =
          p.exportsOf q := by
      intro q hq
      apply p.record_exportsOf_of_ne
      intro heq
      exact hfresh (heq ▸ hq)
    have htake : ∀ q ∈ names (ls.take i), q ∈ names ls := by
      intro q hq
      rw [names, List.map_take] at hq
      exact List.mem_of_mem_take hq
    rcases Nat.lt_or_ge i ls.length with hi | hi
    · have hc' : p.calls[i]? = some c := by
        rwa [Phase1.record_calls, List.getElem?_append_left (by omega)] at hc
      have hl'' : ls[i]? = some l' := by rwa [List.getElem?_append_left hi] at hl'
      rw [h.handed i c l' hc' hl'' q, List.take_append_of_le_length (by omega)]
      by_cases hq : q ∈ l'.descriptor.dependencies ∧ q ∈ names (ls.take i)
      · rw [if_pos hq, if_pos hq, hexports q (htake q hq.2)]
      · rw [if_neg hq, if_neg hq]
    · have hi' : i = ls.length := by
        have hlt := (List.getElem?_eq_some_iff.mp hl').1
        simp only [List.length_append, List.length_singleton] at hlt
        omega
      subst hi'
      have hcl : c = ⟨l.descriptor.name, depsOf p.exportsByName l.descriptor.dependencies⟩ := by
        rw [Phase1.record_calls, ← hlen, List.getElem?_concat_length] at hc
        exact (Option.some.inj hc).symm
      have hll : l' = l := by
        rw [List.getElem?_concat_length] at hl'
        exact (Option.some.inj hl').symm
      subst hcl hll
      rw [List.take_left, get?_depsOf, h.exportsByName]
      by_cases hq : q ∈ names ls
      · simp [hq, hexports q hq]
      · have hnone : p.exportsOf q = none := by rw [Phase1.exportsOf, h.setups q hq]; rfl
        simp [hq, hnone]

theorem ran_runPhaseWorker {ls : List (LoadedPlugin E)} :
    ∀ {p p' : Phase1 E} {before : List (LoadedPlugin E)}, Ran p before →
      (names (before ++ ls)).Nodup → runPhaseWorker p ls = .ok p' → Ran p' (before ++ ls) := by
  induction ls with
  | nil =>
    intro p p' before h _ hrun
    cases hrun
    simpa using h
  | cons l ls ih =>
    intro p p' before h hnodup hrun
    simp only [runPhaseWorker] at hrun
    split at hrun
    · cases hrun
    · rename_i setup _
      have hfresh : l.descriptor.name ∉ names before := by
        simp only [names, List.map_append, List.map_cons] at hnodup
        intro hmem
        exact (List.nodup_append.mp hnodup).2.2 _ hmem _ List.mem_cons_self rfl
      have hnext := ih (h.record hfresh setup) (by simpa using hnodup) hrun
      simpa using hnext

/-! ## The guest function check -/

/-- The check passes exactly when each name has one owner, the one that was seen first. -/
theorem assertGuestFunctionNamesUnique_ok_iff {entries : List GuestFunctionEntry} :
    ∀ {first : OrderedMap String String},
      assertGuestFunctionNamesUnique first entries = .ok () ↔
        ∃ owner : String → String, (∀ name prior, first.get? name = some prior → owner name = prior) ∧
          ∀ e ∈ entries, owner e.descriptor.name = e.pluginName := by
  induction entries with
  | nil =>
    intro first
    refine ⟨fun _ => ⟨fun name => (first.get? name).getD name, ?_, by simp⟩, fun _ => rfl⟩
    intro name prior hprior
    dsimp only
    rw [hprior]
    rfl
  | cons e entries ih =>
    intro first
    obtain ⟨pluginName, g⟩ := e
    cases hprior : first.get? g.name with
    | some prior =>
      by_cases hsame : prior = pluginName
      · subst hsame
        simp only [assertGuestFunctionNamesUnique, hprior, ne_eq, not_true_eq_false, if_false, ih]
        constructor
        · intro h
          obtain ⟨owner, hfirst, howner⟩ := h
          exact ⟨owner, hfirst, List.forall_mem_cons.mpr ⟨hfirst _ _ hprior, howner⟩⟩
        · intro h
          obtain ⟨owner, hfirst, howner⟩ := h
          exact ⟨owner, hfirst, (List.forall_mem_cons.mp howner).2⟩
      · simp only [assertGuestFunctionNamesUnique, hprior, ne_eq, hsame, not_false_eq_true, if_true]
        constructor
        · intro h
          cases h
        · intro h
          obtain ⟨owner, hfirst, howner⟩ := h
          exact absurd ((hfirst _ _ hprior).symm.trans (List.forall_mem_cons.mp howner).1) hsame
    | none =>
      simp only [assertGuestFunctionNamesUnique, hprior, ih]
      constructor
      · intro h
        obtain ⟨owner, hfirst, howner⟩ := h
        have hself : owner g.name = pluginName := hfirst _ _ (OrderedMap.get?_set_self _ _ _)
        refine ⟨owner, ?_, List.forall_mem_cons.mpr ⟨hself, howner⟩⟩
        intro name prior hname
        have hne : name ≠ g.name := by
          rintro rfl
          rw [hprior] at hname
          cases hname
        apply hfirst
        rwa [OrderedMap.get?_set_of_ne _ _ _ hne]
      · intro h
        obtain ⟨owner, hfirst, howner⟩ := h
        obtain ⟨hself, howner⟩ := List.forall_mem_cons.mp howner
        refine ⟨owner, ?_, howner⟩
        intro name prior hname
        by_cases heq : name = g.name
        · rw [heq, OrderedMap.get?_set_self] at hname
          rw [heq, hself]
          exact Option.some.inj hname
        · rw [OrderedMap.get?_set_of_ne _ _ _ heq] at hname
          exact hfirst name prior hname

theorem namesUnique_iff {entries : List GuestFunctionEntry} :
    assertGuestFunctionNamesUnique .empty entries = .ok () ↔
      ∀ e ∈ entries, ∀ f ∈ entries, e.descriptor.name = f.descriptor.name → e.pluginName = f.pluginName := by
  rw [assertGuestFunctionNamesUnique_ok_iff]
  constructor
  · intro ⟨owner, _, howner⟩ e he f hf hname
    rw [← howner e he, ← howner f hf, hname]
  · intro hagree
    refine ⟨fun name => ((entries.find? (·.descriptor.name = name)).map (·.pluginName)).getD name, by simp, ?_⟩
    intro e he
    cases hfind : entries.find? (·.descriptor.name = e.descriptor.name) with
    | none => simpa using List.find?_eq_none.mp hfind e he
    | some f =>
      have hname : f.descriptor.name = e.descriptor.name := by
        simpa using List.find?_some hfind
      dsimp only
      rw [hfind]
      exact hagree f (List.mem_of_find?_eq_some hfind) e he hname

/-! ## The composition contract -/

def DependsOn (ds : List PluginDescriptor) (p q : String) : Prop :=
  ∃ d ∈ ds, d.name = p ∧ q ∈ d.dependencies

/-- Every declared dependency of a plugin stands before it in the list. -/
def DependenciesFirst (ds : List PluginDescriptor) : Prop :=
  ∀ i < ds.length, ∀ d ∈ ds[i]?, ∀ q ∈ d.dependencies, q ∈ (ds.take i).map (·.name)

instance (ds : List PluginDescriptor) : Decidable (DependenciesFirst ds) :=
  inferInstanceAs (Decidable (∀ i < ds.length, ∀ d ∈ ds[i]?, ∀ q ∈ d.dependencies,
    q ∈ (ds.take i).map (·.name)))

/-- What composing plugins is for: workers in dependency order, each with the exports of its
dependencies; no cycle and no guest function of two plugins gets through. -/
structure Composes (host : Host E) (source filename : String) (ds : List PluginDescriptor) : Prop where
  everyWorkerRuns : ∀ b, sandbox host source filename ds = .ok b →
    ∀ d ∈ ds, ∃ c ∈ b.phase1.calls, c.plugin = d.name
  afterDependencies : ∀ b, sandbox host source filename ds = .ok b →
    ∀ i : Nat, ∀ c ∈ b.phase1.calls[i]?, ∀ q, Relation.TransGen (DependsOn ds) c.plugin q →
      ∃ j < i, ∃ c' ∈ b.phase1.calls[j]?, c'.plugin = q
  receivesExports : ∀ b, sandbox host source filename ds = .ok b →
    ∀ c ∈ b.phase1.calls, ∀ q, DependsOn ds c.plugin q →
      ∀ e, b.phase1.exportsOf q = some e → c.deps.get? q = some e
  cycleRejected : (∃ p, Relation.TransGen (DependsOn ds) p p) →
    ∀ b, sandbox host source filename ds ≠ .ok b
  sharedNameRejected :
    (∃ e ∈ pluginGuestFunctions host ds, ∃ f ∈ pluginGuestFunctions host ds,
      e.descriptor.name = f.descriptor.name ∧ e.pluginName ≠ f.pluginName) →
    ∀ b, sandbox host source filename ds ≠ .ok b

section Accepted

variable {ds : List PluginDescriptor} {p : Phase1 E} {loaded : List (LoadedPlugin E)}

theorem names_eq (hloaded : loaded.map (·.descriptor) = ds) : names loaded = ds.map (·.name) := by
  rw [← hloaded, List.map_map]
  rfl

/-- The `i`-th call is the call of the `i`-th plugin of the list. -/
theorem Ran.call_at (h : Ran p loaded) (hloaded : loaded.map (·.descriptor) = ds) {i : Nat}
    {c : WorkerCall E} (hc : p.calls[i]? = some c) :
    ∃ d, ds[i]? = some d ∧ d.name = c.plugin := by
  have hname : (ds.map (·.name))[i]? = some c.plugin := by
    rw [← names_eq hloaded, ← h.called, List.getElem?_map, hc]
    rfl
  rw [List.getElem?_map] at hname
  exact Option.map_eq_some_iff.mp hname

theorem Ran.called_at (h : Ran p loaded) (hloaded : loaded.map (·.descriptor) = ds) {i : Nat}
    {d : PluginDescriptor} (hd : ds[i]? = some d) :
    ∃ c, p.calls[i]? = some c ∧ c.plugin = d.name := by
  have hname : (p.calls.map (·.plugin))[i]? = some d.name := by
    rw [h.called, names_eq hloaded, List.getElem?_map, hd]
    rfl
  rw [List.getElem?_map] at hname
  exact Option.map_eq_some_iff.mp hname

/-- The dependencies of the plugin called at `i` are those of the `i`-th descriptor. -/
theorem dependencies_at (hnodup : (ds.map (·.name)).Nodup) {i : Nat} {d : PluginDescriptor}
    (hd : ds[i]? = some d) {q : String} (hdep : DependsOn ds d.name q) : q ∈ d.dependencies := by
  obtain ⟨d', hd', hname, hq⟩ := hdep
  have heq := List.inj_on_of_nodup_map hnodup hd' (List.mem_of_getElem? hd) hname
  rwa [heq] at hq

theorem Ran.direct_before (h : Ran p loaded) (hloaded : loaded.map (·.descriptor) = ds)
    (hnodup : (ds.map (·.name)).Nodup) (hfirst : DependenciesFirst ds) {i : Nat} {c : WorkerCall E}
    (hc : p.calls[i]? = some c) {q : String} (hdep : DependsOn ds c.plugin q) :
    ∃ j < i, ∃ c' ∈ p.calls[j]?, c'.plugin = q := by
  obtain ⟨d, hd, hname⟩ := h.call_at hloaded hc
  rw [← hname] at hdep
  have hlt := (List.getElem?_eq_some_iff.mp hd).1
  have hq := hfirst i hlt d hd q (dependencies_at hnodup hd hdep)
  obtain ⟨d', hd', hname'⟩ := List.mem_map.mp hq
  obtain ⟨j, hj, hget⟩ := List.mem_take_iff_getElem.mp hd'
  have hdj : ds[j]? = some d' := by
    rw [List.getElem?_eq_some_iff]
    exact ⟨by omega, hget⟩
  obtain ⟨c', hc', hplugin⟩ := h.called_at hloaded hdj
  exact ⟨j, by omega, c', hc', hplugin.trans hname'⟩

theorem Ran.transitive_before (h : Ran p loaded) (hloaded : loaded.map (·.descriptor) = ds)
    (hnodup : (ds.map (·.name)).Nodup) (hfirst : DependenciesFirst ds) {i : Nat} {c : WorkerCall E}
    (hc : p.calls[i]? = some c) {q : String}
    (hdep : Relation.TransGen (DependsOn ds) c.plugin q) :
    ∃ j < i, ∃ c' ∈ p.calls[j]?, c'.plugin = q := by
  induction hdep with
  | single hq => exact h.direct_before hloaded hnodup hfirst hc hq
  | tail _ hq ih =>
    obtain ⟨j, hj, c', hc', rfl⟩ := ih
    obtain ⟨k, hk, c'', hc'', hplugin⟩ := h.direct_before hloaded hnodup hfirst hc' hq
    exact ⟨k, by omega, c'', hc'', hplugin⟩

theorem Ran.not_cyclic (h : Ran p loaded) (hloaded : loaded.map (·.descriptor) = ds)
    (hnodup : (ds.map (·.name)).Nodup) (hfirst : DependenciesFirst ds) (q : String) :
    ¬Relation.TransGen (DependsOn ds) q q := by
  intro hcycle
  obtain ⟨_, ⟨d, hd, rfl, _⟩, _⟩ := Relation.TransGen.head'_iff.mp hcycle
  obtain ⟨i, hi⟩ := List.mem_iff_getElem?.mp hd
  obtain ⟨c, hc, hplugin⟩ := h.called_at hloaded hi
  rw [← hplugin] at hcycle
  obtain ⟨j, hj, c', hc', hplugin'⟩ := h.transitive_before hloaded hnodup hfirst hc hcycle
  -- the plugin would have two places in the list
  obtain ⟨d', hd', hname'⟩ := h.call_at hloaded hc'
  have hij : (ds.map (·.name))[i]? = (ds.map (·.name))[j]? := by
    rw [List.getElem?_map, List.getElem?_map, hi, hd', Option.map_some, Option.map_some, hname',
      hplugin', hplugin]
  have hlt : i < (ds.map (·.name)).length := by
    rw [List.length_map]
    exact (List.getElem?_eq_some_iff.mp hi).1
  have heq := (List.getElem?_inj hlt hnodup).mp hij
  omega

theorem Ran.receives (h : Ran p loaded) (hloaded : loaded.map (·.descriptor) = ds)
    (hnodup : (ds.map (·.name)).Nodup) (hfirst : DependenciesFirst ds) {c : WorkerCall E}
    (hc : c ∈ p.calls) {q : String} (hdep : DependsOn ds c.plugin q) :
    c.deps.get? q = p.exportsOf q := by
  obtain ⟨i, hi⟩ := List.mem_iff_getElem?.mp hc
  obtain ⟨d, hd, hname⟩ := h.call_at hloaded hi
  rw [← hname] at hdep
  have hq := dependencies_at hnodup hd hdep
  have hlt := (List.getElem?_eq_some_iff.mp hd).1
  rw [← hloaded, List.getElem?_map] at hd
  obtain ⟨l, hl, rfl⟩ := Option.map_eq_some_iff.mp hd
  have htake : q ∈ names (loaded.take i) := by
    have hbefore := hfirst i hlt l.descriptor (by rw [← hloaded, List.getElem?_map, hl]; rfl) q hq
    rw [← hloaded, ← List.map_take, List.map_map] at hbefore
    exact hbefore
  rw [h.handed i c l hi hl q, if_pos ⟨hq, htake⟩]

end Accepted

section Contract

variable {host : Host E} {source filename : String} {ds : List PluginDescriptor}

def Accepted (host : Host E) (source filename : String) (ds : List PluginDescriptor) : Prop :=
  ∃ b, sandbox host source filename ds = .ok b

theorem accepted_of_toBool (h : (sandbox host source filename ds).toBool = true) :
    Accepted host source filename ds := by
  cases hs : sandbox host source filename ds with
  | error e => rw [hs] at h; cases h
  | ok b => exact ⟨b, hs⟩

theorem ran_of_sandbox_ok {b : Boot E} (h : sandbox host source filename ds = .ok b) :
    ∃ loaded, loaded.map (·.descriptor) = ds ∧ Ran b.phase1 loaded := by
  obtain ⟨hnodup, -, -, loaded, hloaded, hrun⟩ := sandbox_ok h
  have hran : Ran b.phase1 ([] ++ loaded) := by
    apply ran_runPhaseWorker ran_start _ hrun
    rw [List.nil_append, names_eq hloaded]
    exact hnodup
  exact ⟨loaded, hloaded, hran⟩

theorem Composes.dependenciesFirst (h : Composes host source filename ds)
    (haccepted : Accepted host source filename ds) : DependenciesFirst ds := by
  obtain ⟨b, hb⟩ := haccepted
  obtain ⟨loaded, hloaded, hran⟩ := ran_of_sandbox_ok hb
  intro i hi d hd q hq
  obtain ⟨c, hc, hplugin⟩ := hran.called_at hloaded hd
  have hdep : DependsOn ds c.plugin q := ⟨d, List.mem_of_getElem? hd, hplugin.symm, hq⟩
  obtain ⟨j, hj, c', hc', rfl⟩ := h.afterDependencies b hb i c hc q (.single hdep)
  obtain ⟨d', hd', hname⟩ := hran.call_at hloaded hc'
  apply List.mem_map.mpr
  refine ⟨d', ?_, hname⟩
  rw [List.mem_iff_getElem?]
  exact ⟨j, by rwa [List.getElem?_take_of_lt hj]⟩

theorem Composes.namesUnique (h : Composes host source filename ds)
    (haccepted : Accepted host source filename ds) :
    assertGuestFunctionNamesUnique .empty (pluginGuestFunctions host ds) = .ok () := by
  obtain ⟨b, hb⟩ := haccepted
  rw [namesUnique_iff]
  intro e he f hf hname
  by_contra hne
  exact h.sharedNameRejected ⟨e, he, f, hf, hname, hne⟩ b hb

theorem composes_of_accepted (haccepted : Accepted host source filename ds)
    (hfirst : DependenciesFirst ds)
    (hunique : assertGuestFunctionNamesUnique .empty (pluginGuestFunctions host ds) = .ok ()) :
    Composes host source filename ds := by
  obtain ⟨b₀, hb₀⟩ := haccepted
  obtain ⟨hnodup, -, -, -⟩ := sandbox_ok hb₀
  refine ⟨?_, ?_, ?_, ?_, ?_⟩
  · intro b hb d hd
    obtain ⟨loaded, hloaded, hran⟩ := ran_of_sandbox_ok hb
    obtain ⟨i, hi⟩ := List.mem_iff_getElem?.mp hd
    obtain ⟨c, hc, hplugin⟩ := hran.called_at hloaded hi
    exact ⟨c, List.mem_of_getElem? hc, hplugin⟩
  · intro b hb i c hc q hdep
    obtain ⟨loaded, hloaded, hran⟩ := ran_of_sandbox_ok hb
    exact hran.transitive_before hloaded hnodup hfirst hc hdep
  · intro b hb c hc q hdep e he
    obtain ⟨loaded, hloaded, hran⟩ := ran_of_sandbox_ok hb
    rw [hran.receives hloaded hnodup hfirst hc hdep, he]
  · intro ⟨q, hcycle⟩ b hb
    obtain ⟨loaded, hloaded, hran⟩ := ran_of_sandbox_ok hb
    exact hran.not_cyclic hloaded hnodup hfirst q hcycle
  · intro ⟨e, he, f, hf, hname, hne⟩
    exact absurd (namesUnique_iff.mp hunique e he f hf hname) hne

theorem composes_of_not_accepted (h : ¬Accepted host source filename ds) :
    Composes host source filename ds := by
  have hrejected : ∀ b, sandbox host source filename ds ≠ .ok b := fun b hb => h ⟨b, hb⟩
  refine ⟨?_, ?_, ?_, fun _ => hrejected, fun _ => hrejected⟩
  · intro b hb
    exact absurd hb (hrejected b)
  · intro b hb
    exact absurd hb (hrejected b)
  · intro b hb
    exact absurd hb (hrejected b)

end Contract

/-- Plugins that export a value and install one guest function `log`. -/
def logHost : Host Unit where
  loader d := .ok
    { name := d.name
      worker := fun _ _ => .ok (some ⟨some (), some [⟨"log", none⟩], none⟩) }
  evalCode _ _ := .ok ()

def plugin (name : String) (dependsOn : List String) : PluginDescriptor :=
  ⟨name, "export default () => {}", none, none, some dependsOn⟩

end WorkflowEngine.Sandbox.PluginBoot
