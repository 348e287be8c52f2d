import CopyPatch.Build.Session
import CopyPatch.Proofs.Loading
import CopyPatch.Proofs.Workers.Images

/-! Builds do not see the process they run in. The addresses that a process has for open names, and
which names it knows, go into a part of the load map that nothing reads again: registration and
reverse resolution give the same without it. So that part can be erased after every step, and two
builds in different processes are the same build. -/
namespace CopyPatch

namespace LoadMap

variable {p q : String → Option Nat} {moduleName : String}

/-- A map without the addresses of open names. -/
def erase (map : LoadMap) : LoadMap := { map with nextExternal := 0, externals := [] }

theorem erase_resolveExternal (map : LoadMap) (process : String → Option Nat) (name : String) :
    (map.resolveExternal process name).erase = map.erase := by
  unfold resolveExternal
  split
  · rfl
  · split <;> rfl

theorem erase_declare (map : LoadMap) (name : String) :
    (map.declare name).erase = map.erase.declare name := by
  have same : map.erase.isDeclared name = map.isDeclared name := rfl
  rw [declare, declare, same]
  split <;> rfl

theorem erase_define (map : LoadMap) (name : String) (address : Nat) :
    (map.define name address).erase = map.erase.define name address := rfl

theorem Effect.erase_apply {a b : LoadMap} (same : a.erase = b.erase) (effect : Effect) :
    (effect.apply p moduleName a).map erase = (effect.apply q moduleName b).map erase := by
  cases effect with
  | refuse => rfl
  | fault cause => rfl
  | define name address =>
    simp only [apply, Except.map, erase_define, erase_declare, same]
  | leaveOpen name =>
    simp only [apply, Except.map, erase_resolveExternal, erase_declare, same]
  | nothing => simp only [apply, Except.map, same]

theorem loadSymbols_erase {placed : List PlacedSection} (symbols : List Object.Symbol)
    {a b : LoadMap} (same : a.erase = b.erase) :
    (loadSymbols p moduleName placed symbols a).1 = (loadSymbols q moduleName placed symbols b).1 ∧
      (loadSymbols p moduleName placed symbols a).2.erase =
        (loadSymbols q moduleName placed symbols b).2.erase := by
  induction symbols generalizing a b with
  | nil => exact ⟨rfl, same⟩
  | cons symbol rest ih =>
    -- both runs take the effect that the symbol has in every process
    obtain ⟨effect, _, step⟩ := loadSymbol_eq moduleName placed symbol
    have alike : (effect.apply p moduleName a).map erase =
        (effect.apply q moduleName b).map erase := effect.erase_apply same
    rw [loadSymbols, loadSymbols, step p a, step q b]
    cases first : effect.apply p moduleName a with
    | error failure =>
      rw [first] at alike
      rw [Outcome.map_eq_error.mp alike.symm]
      exact ⟨rfl, same⟩
    | ok next =>
      rw [first] at alike
      obtain ⟨other, second, erased⟩ := Outcome.map_eq_ok.mp alike.symm
      rw [second]
      exact ih erased.symm

theorem layout_erase (sections : List Object.Section) (map : LoadMap) :
    layout sections map.erase = ((layout sections map).1, (layout sections map).2.erase) := by
  induction sections generalizing map with
  | nil => rfl
  | cons s rest ih =>
    have start : map.erase.nextCode = map.nextCode := rfl
    rw [layout, layout, start]
    cases placeNext s map.nextCode with
    | error fault => rfl
    | ok place =>
      have later : layout rest { map.erase with nextCode := place.2 } = _ :=
        ih { map with nextCode := place.2 }
      simp only [later]

/-- Loading gives the same answer in every process, and maps that differ only in what is erased. -/
theorem load_erase (file : ObjectFile) {a b : LoadMap} (same : a.erase = b.erase) :
    (load p moduleName file a).1 = (load q moduleName file b).1 ∧
      (load p moduleName file a).2.erase = (load q moduleName file b).2.erase := by
  have first := layout_erase file.properSections a
  rw [same, layout_erase] at first
  obtain ⟨placed, erased⟩ := Prod.mk.inj first
  cases laidFirst : layout file.properSections a with
  | mk placedFirst left =>
    cases laidSecond : layout file.properSections b with
    | mk placedSecond right =>
      rw [laidFirst, laidSecond] at placed erased
      obtain rfl : placedSecond = placedFirst := placed
      rw [load, load, laidFirst, laidSecond]
      cases placedSecond with
      | error fault => exact ⟨rfl, erased.symm⟩
      | ok found => exact loadSymbols_erase _ erased.symm

end LoadMap

/-- A prepared module without the addresses of open names. -/
def PreparedModule.erase (prepared : PreparedModule) : PreparedModule :=
  { prepared with map := prepared.map.erase }

/-- Finishing a module does not read what is erased. -/
theorem PreparedModule.finish_erase (prepared : PreparedModule) (seed : Option UInt64) :
    prepared.erase.finish seed = prepared.finish seed := rfl

theorem FamilyDecl.register_erase (decl : FamilyDecl) (moduleName : String) (map : LoadMap) :
    decl.register moduleName map.erase = decl.register moduleName map := rfl

theorem Manifest.prepare_erase (manifest : Manifest) (file : ObjectFile)
    (p q : String → Option Nat) :
    (manifest.prepare file p).map PreparedModule.erase =
      (manifest.prepare file q).map PreparedModule.erase := by
  have erased : ∀ process : String → Option Nat,
      (manifest.prepare file process).map PreparedModule.erase =
        (LoadMap.load process manifest.moduleName file {}).1 >>= fun _ =>
          (manifest.families.mapM fun decl : FamilyDecl => decl.register manifest.moduleName
            (LoadMap.load process manifest.moduleName file {}).2.erase).map fun registrations =>
              ⟨manifest, file, (LoadMap.load process manifest.moduleName file {}).2.erase,
                registrations⟩ := by
    intro process
    rw [Manifest.prepare]
    cases LoadMap.load process manifest.moduleName file {} with
    | mk loaded map =>
      cases loaded with
      | error failure => rfl
      | ok done =>
        show Except.map _ ((manifest.families.mapM fun decl =>
          decl.register manifest.moduleName map) >>= _) = Except.map _ _
        simp only [FamilyDecl.register_erase]
        cases manifest.families.mapM fun decl : FamilyDecl =>
          decl.register manifest.moduleName map <;> rfl
  obtain ⟨answer, maps⟩ := LoadMap.load_erase (p := p) (q := q) file (rfl : LoadMap.erase {} = _)
  rw [erased p, erased q, answer, maps]

theorem ModuleSource.prepare_erase (source : ModuleSource) (p q : String → Option Nat) :
    (source.prepare p).map PreparedModule.erase = (source.prepare q).map PreparedModule.erase :=
  Outcome.map_bind_congr fun manifest =>
    Outcome.map_bind_congr fun file => manifest.prepare_erase file p q

/-- What follows preparation may as well start from what is left after erasing. -/
theorem bind_erase {α : Type} (run : Outcome BuildError α) (erase : α → α) {β : Type}
    {next : α → Outcome BuildError β} (blind : ∀ a, next (erase a) = next a) :
    run.map erase >>= next = run >>= next := by
  cases run with
  | error failure => rfl
  | ok a => exact blind a

/-- Compiling a module does not depend on the process. -/
theorem ModuleSource.compile_process (source : ModuleSource) (p q : String → Option Nat)
    (seed : Option UInt64) : source.compile p seed = source.compile q seed := by
  have blind : ∀ prepared : PreparedModule, prepared.erase.finish seed = prepared.finish seed :=
    fun prepared => prepared.finish_erase seed
  calc source.compile p seed = (source.prepare p).map PreparedModule.erase >>= (·.finish seed) :=
        (bind_erase _ _ blind).symm
    _ = (source.prepare q).map PreparedModule.erase >>= (·.finish seed) := by
        rw [source.prepare_erase p q]
    _ = source.compile q seed := bind_erase _ _ blind

/-- Where a manifest comes from is not seen in the module it gives. -/
theorem Manifest.toOption_parse (first second text : String) :
    (Manifest.parse first text).toOption = (Manifest.parse second text).toOption := by
  unfold Manifest.parse
  split <;> rfl

theorem ModuleSource.toOption_compile (first second manifest : String) (object : Bytes)
    (process : String → Option Nat) (seed : Option UInt64) :
    ((⟨first, manifest, object⟩ : ModuleSource).compile process seed).toOption =
      ((⟨second, manifest, object⟩ : ModuleSource).compile process seed).toOption := by
  have read : ∀ origin : String,
      ((⟨origin, manifest, object⟩ : ModuleSource).compile process seed).toOption =
        (Manifest.parse origin manifest).toOption.bind fun checked =>
          ((Outcome.ofReporting (Object.acceptFor checked.moduleName object) >>= fun file =>
            checked.prepare file process) >>= fun prepared => prepared.finish seed).toOption := by
    intro origin
    rw [ModuleSource.compile, ModuleSource.prepare]
    cases Manifest.parse origin manifest <;> rfl
  rw [read first, read second, Manifest.toOption_parse first second]

namespace Session

theorem complete_erase (seed : Option UInt64) (inputs : List LoadedInput)
    (prepared : List PreparedModule) :
    complete seed inputs (prepared.map PreparedModule.erase) = complete seed inputs prepared := by
  induction inputs generalizing prepared with
  | nil => rfl
  | cons input rest ih =>
    cases found : input.cached with
    | some record =>
      simp only [complete, found, ih]
    | none =>
      cases prepared with
      | nil => rfl
      | cons first others =>
        simp only [complete, found, List.map_cons, PreparedModule.finish_erase, ih]

/-- A build plans the same in every process. -/
theorem plan_process (config : BuildConfig) (tool : Option String) (p q : String → Option Nat)
    (read : Reading) : plan config tool p read = plan config tool q read := by
  -- the inputs are read before the process is asked for anything
  refine bind_congr fun inputs => ?_
  have workers (count : Nat) :
      (Pool.runAll (·.prepare p) count (tasks inputs)).map (List.map PreparedModule.erase) =
        (Pool.runAll (·.prepare q) count (tasks inputs)).map (List.map PreparedModule.erase) := by
    rw [← Pool.runAll_map, ← Pool.runAll_map]
    simp only [ModuleSource.prepare_erase _ p q]
  have blind {rest : List CompiledModule → Outcome BuildError BuildPlan}
      (prepared : List PreparedModule) :
      complete config.seed inputs (prepared.map PreparedModule.erase) >>= rest =
        complete config.seed inputs prepared >>= rest := by
    rw [complete_erase]
  exact (bind_erase _ _ blind).symm.trans
    ((congrArg (· >>= _) (workers _)).trans (bind_erase _ _ blind))

theorem run_process (config : BuildConfig) (tool : Option String) (p q : String → Option Nat)
    (tree : Files.Tree) : run config tool p tree = run config tool q tree := by
  rw [run, run, plan_process config tool p q]

end Session

/-- Builds are the same in all processes. What a manifest and an object compile to depends neither
on what the process knows nor on where the manifest comes from; the errors depend only on the
latter. The whole build, with its answer and all it writes, depends on neither of the processes. -/
theorem builds_do_not_see_process (p q : String → Option Nat) :
    (∀ (first second manifest : String) (object : Bytes) (seed : Option UInt64)
      (compiled : CompiledModule),
      (⟨first, manifest, object⟩ : ModuleSource).compile p seed = .ok compiled ↔
        (⟨second, manifest, object⟩ : ModuleSource).compile q seed = .ok compiled) ∧
    (∀ (source : ModuleSource) (seed : Option UInt64),
      source.compile p seed = source.compile q seed) ∧
    ∀ (config : BuildConfig) (tool : Option String) (tree : Files.Tree),
      Session.run config tool p tree = Session.run config tool q tree := by
  refine ⟨fun first second manifest object seed compiled => ?_,
    fun source seed => source.compile_process p q seed,
    fun config tool tree => Session.run_process config tool p q tree⟩
  rw [ModuleSource.compile_process _ p q, ← Outcome.toOption_eq_some,
    ModuleSource.toOption_compile first second, Outcome.toOption_eq_some]

end CopyPatch
