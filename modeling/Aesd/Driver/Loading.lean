import Aesd.Driver.Forgotten

/-! The module over its loads and unloads: what it registers with the kernel, the files
that are open, and the memory that outlives it. -/
namespace Aesd.Driver

open Aesd.Library

/-- `MKDEV`. -/
def mkdev (major minor : UInt32) : UInt32 := (major <<< 20) ||| minor

/-- `MAJOR`. -/
def majorOf (dev : UInt32) : UInt32 := dev >>> 20

def aesdMinor : UInt32 := 0

/-- An error code of the kernel. -/
structure Errno where
  code : Int32
  negative : code.toInt < 0

/-- `regions` are the device numbers that the module has from the kernel, `cdev` is the
one its device was added under. -/
structure KernelModule where
  loaded : Bool
  aesdMajor : UInt32
  regions : List UInt32
  cdev : Option UInt32
  files : List Nat
  driver : DriverState

/-- Loading comes with what `alloc_chrdev_region` and `cdev_add` return. -/
inductive ModuleCall where
  | insmod (region : Except Errno UInt32) (added : Option Errno)
  | rmmod
  | openFile (filp : Nat)
  | releaseFile (filp : Nat)
  | call (call : Call)

inductive ModuleReply where
  | result (code : Int32)
  | removed
  | reply (reply : Reply)
deriving DecidableEq

theorem Errno.code_ne_zero (err : Errno) : err.code ≠ 0 := by
  intro zero
  have negative := err.negative
  rw [zero] at negative
  exact absurd negative (by decide)

namespace KernelModule

/-- Never loaded so far. -/
def unloaded : KernelModule := ⟨false, 0, [], none, [], Driver.aesdInitModule⟩

/-- The number of the device, as two of the functions compute it. -/
def devno (module : KernelModule) : UInt32 := mkdev module.aesdMajor aesdMinor

def aesdSetupCdev (module : KernelModule) : Option Errno → Int32 × KernelModule
  | none => (0, { module with cdev := some module.devno })
  | some err => (err.code, module)

def aesdInitModule (module : KernelModule) (added : Option Errno) :
    Except Errno UInt32 → Int32 × KernelModule
  | .error result => (result.code, { module with aesdMajor := majorOf 0 })
  | .ok major =>
    let dev := mkdev major aesdMinor
    let module := { module with
      aesdMajor := majorOf dev
      regions := dev :: module.regions
      driver := { module.driver with dev := Driver.aesdInitModule.dev } }
    let (result, module) := module.aesdSetupCdev added
    if result ≠ 0 then (result, { module with regions := module.regions.erase dev })
    else (result, module)

def aesdCleanupModule (module : KernelModule) : KernelModule :=
  { module with
    cdev := none
    driver := (Driver.aesdCleanupModule.run module.driver).2
    regions := module.regions.erase module.devno }

/-- A new file starts at its beginning. `aesd_open` points it to the device and succeeds. -/
def aesdOpen (module : KernelModule) (filp : Nat) : Int32 × KernelModule :=
  (0, { module with
    files := filp :: module.files
    driver := { module.driver with fPos := Function.update module.driver.fPos filp 0 } })

def aesdRelease (module : KernelModule) (filp : Nat) : Int32 × KernelModule :=
  (0, { module with files := module.files.erase filp })

/-- A load with the flag that the kernel keeps for a module whose init returned zero. -/
def insmod (module : KernelModule) (region : Except Errno UInt32) (added : Option Errno) :
    KernelModule :=
  { (module.aesdInitModule added region).2 with
    loaded := (module.aesdInitModule added region).1 == 0 }

def rmmod (module : KernelModule) : KernelModule :=
  { module.aesdCleanupModule with loaded := false }

/-- The kernel does not unload the module as long as a file of its device is open. -/
def step (module : KernelModule) : ModuleCall → Option (ModuleReply × KernelModule)
  | .insmod region added =>
    if module.loaded = false then
      some (.result (module.aesdInitModule added region).1, module.insmod region added)
    else none
  | .rmmod =>
    if module.loaded = true ∧ module.files = [] then
      some (.removed, module.rmmod)
    else none
  | .openFile filp =>
    if module.loaded = true ∧ filp ∉ module.files then
      some (.result (module.aesdOpen filp).1, (module.aesdOpen filp).2)
    else none
  | .releaseFile filp =>
    if filp ∈ module.files then
      some (.result (module.aesdRelease filp).1, (module.aesdRelease filp).2)
    else none
  | .call call =>
    if call.filp ∈ module.files then
      some (.reply (call.run module.driver).1,
        { module with driver := (call.run module.driver).2 })
    else none

end KernelModule

def kernelModule : Machine KernelModule ModuleCall ModuleReply where
  step := KernelModule.step

theorem mkdev_majorOf (major : UInt32) :
    mkdev (majorOf (mkdev major aesdMinor)) aesdMinor = mkdev major aesdMinor := by
  have shifted : ∀ number : UInt32, (mkdev number aesdMinor).toNat = number.toNat * 2 ^ 20 % 2 ^ 32 := by
    intro number
    simp [mkdev, aesdMinor, Nat.shiftLeft_eq]
  apply UInt32.toNat_inj.mp
  rw [shifted, shifted]
  simp only [majorOf, UInt32.toNat_shiftRight, shifted, Nat.shiftRight_eq_div_pow]
  have := major.toNat_lt
  simp
  omega

namespace KernelModule

/-- The blocks the module can reach. -/
def references (module : KernelModule) : List Nat :=
  if module.loaded then module.driver.memory.references else []

/-- The blocks that lose their last pointer; unloading does not look at the pending entry. -/
def forgets (module : KernelModule) : ModuleCall → List Nat
  | .rmmod => module.driver.dev.entry.buffptr.toList
  | .call call => module.driver.memory.forgets call
  | .insmod _ _ | .openFile _ | .releaseFile _ => []

/-- What the module has registered with the kernel. -/
def Registered (module : KernelModule) : Prop :=
  if module.loaded then module.regions = [module.devno] ∧ module.cdev = some module.devno
  else module.regions = [] ∧ module.cdev = none ∧ module.files = []

/-- Registered when loaded and only then, and every block of the kernel is reachable
or was forgotten. -/
structure Orderly (module : KernelModule) (lost : List Nat) : Prop where
  registered : module.Registered
  valid : module.loaded = true → module.driver.memory.Valid
  tidy : module.driver.heap.Tidy
  accounted : module.driver.heap.blocks.Perm (module.references ++ lost)

variable {module after : KernelModule} {lost : List Nat} {reply : ModuleReply}

theorem Orderly.start : unloaded.Orderly [] where
  registered := ⟨rfl, rfl, rfl⟩
  valid := by
    intro impossible
    cases impossible
  tidy := Heap.tidy_empty
  accounted := .nil

/-- Init either fails and leaves no registration behind, or leaves an empty device that
is registered under the number that the other functions compute. -/
theorem init_cases (module : KernelModule) (region : Except Errno UInt32) (added : Option Errno) :
    (∃ (err : Errno) (aesdMajor : UInt32) (dev : AesdDev),
      module.aesdInitModule added region =
        (err.code, { module with aesdMajor, driver := { module.driver with dev } })) ∨
    ∃ aesdMajor : UInt32, module.aesdInitModule added region =
      (0, { module with
        aesdMajor
        regions := mkdev aesdMajor aesdMinor :: module.regions
        cdev := some (mkdev aesdMajor aesdMinor)
        driver := { module.driver with dev := Driver.aesdInitModule.dev } }) := by
  cases region with
  | error err => exact .inl ⟨err, 0, module.driver.dev, rfl⟩
  | ok major =>
    cases added with
    | some err =>
      refine .inl ⟨err, majorOf (mkdev major aesdMinor), Driver.aesdInitModule.dev, ?_⟩
      simp [aesdInitModule, aesdSetupCdev, err.code_ne_zero]
    | none =>
      refine .inr ⟨majorOf (mkdev major aesdMinor), ?_⟩
      simp [aesdInitModule, aesdSetupCdev, devno, mkdev_majorOf]

theorem Registered.idle (registered : module.Registered) (idle : module.loaded = false) :
    module.regions = [] ∧ module.cdev = none ∧ module.files = [] := by
  rwa [Registered, idle] at registered

theorem Registered.running (registered : module.Registered) (running : module.loaded = true) :
    module.regions = [module.devno] ∧ module.cdev = some module.devno := by
  rwa [Registered, running] at registered

theorem Orderly.insmod (orderly : module.Orderly lost) (region : Except Errno UInt32)
    (added : Option Errno) (idle : module.loaded = false) :
    (module.insmod region added).Orderly lost := by
  obtain ⟨noRegion, noDevice, noFile⟩ := orderly.registered.idle idle
  have accounted := orderly.accounted
  rw [references, idle] at accounted
  unfold KernelModule.insmod
  rcases module.init_cases region added with ⟨err, major, dev, same⟩ | ⟨major, same⟩
  · rw [same, beq_eq_false_iff_ne.mpr err.code_ne_zero]
    refine ⟨⟨noRegion, noDevice, noFile⟩, ?_, orderly.tidy, accounted⟩
    intro impossible
    cases impossible
  · rw [same, noRegion]
    refine ⟨⟨rfl, rfl⟩, fun _ => ?_, orderly.tidy, accounted⟩
    exact (Memory.Clean.empty module.driver.heap module.driver.fPos).valid

@[simp] theorem rmmod_loaded (module : KernelModule) : module.rmmod.loaded = false := rfl

@[simp] theorem rmmod_regions (module : KernelModule) :
    module.rmmod.regions = module.regions.erase module.devno := rfl

@[simp] theorem rmmod_cdev (module : KernelModule) : module.rmmod.cdev = none := rfl

@[simp] theorem rmmod_files (module : KernelModule) : module.rmmod.files = module.files := rfl

theorem rmmod_heap (module : KernelModule) : module.rmmod.driver.heap =
    module.driver.heap.freeAll module.driver.dev.buffer.pointers := by
  rw [rmmod, aesdCleanupModule, cleanup_heap]

theorem cleanupRounds_fPos (rounds : List Nat) (state : DriverState) :
    ((cleanupRounds rounds).run state).2.fPos = state.fPos := by
  induction rounds generalizing state with
  | nil => rfl
  | cons index rest ih =>
    simp only [cleanupRounds, Program.run_bind, ih]
    unfold kfree
    split
    · rfl
    · rfl

theorem rmmod_fPos (module : KernelModule) : module.rmmod.driver.fPos = module.driver.fPos := by
  rw [rmmod, aesdCleanupModule, Driver.aesdCleanupModule, cleanupRounds_fPos]

theorem Orderly.rmmod (orderly : module.Orderly lost) (running : module.loaded = true)
    (nothingOpen : module.files = []) :
    module.rmmod.Orderly (lost ++ module.driver.dev.entry.buffptr.toList) := by
  have valid := orderly.valid running
  obtain ⟨added, ring⟩ := valid.ring
  have slots := ring.pointers_perm
  have distinct := valid.nodup_pointers
  have present : ∀ block ∈ module.driver.dev.buffer.pointers, module.driver.heap.live block :=
    fun block member => valid.references_live block (List.mem_append_left _ (slots.mem_iff.mp member))
  constructor
  · rw [Registered, rmmod_loaded]
    refine ⟨?_, rfl, nothingOpen⟩
    rw [rmmod_regions, (orderly.registered.running running).1, List.erase_cons_head]
  · rw [rmmod_loaded]
    intro impossible
    cases impossible
  · rw [rmmod_heap]
    exact orderly.tidy.freeAll distinct present
  · have accounted := orderly.accounted
    rw [references, running] at accounted
    have kept : module.rmmod.driver.heap.blocks.Perm (module.driver.heap.blocks.filter fun block =>
        decide (block ∉ module.driver.dev.buffer.pointers)) := by
      refine Heap.blocks_filter fun block => ?_
      rw [rmmod_heap, Heap.freeAll_live, decide_eq_true_iff]
    have whole : module.driver.heap.blocks.Perm (module.driver.dev.buffer.pointers ++
        (module.driver.dev.entry.buffptr.toList ++ lost)) := by
      refine accounted.trans ?_
      rw [if_pos rfl, Memory.references, List.append_assoc]
      exact slots.symm.append_right _
    have apart := List.disjoint_of_nodup_append
      (whole.nodup_iff.mp module.driver.heap.nodup_blocks)
    have rest : (module.driver.dev.buffer.pointers ++
        (module.driver.dev.entry.buffptr.toList ++ lost)).filter
          (fun block => decide (block ∉ module.driver.dev.buffer.pointers)) =
            module.driver.dev.entry.buffptr.toList ++ lost := by
      rw [List.filter_append, List.filter_eq_nil_iff.mpr, List.nil_append, List.filter_eq_self.mpr]
      · exact fun block member => decide_eq_true fun freed => apart freed member
      · intro block freed kept
        exact of_decide_eq_true kept freed
    refine kept.trans ((whole.filter _).trans ?_)
    rw [rest, references, rmmod_loaded]
    exact List.perm_append_comm

theorem Orderly.openFile (orderly : module.Orderly lost) (running : module.loaded = true)
    (filp : Nat) : (module.aesdOpen filp).2.Orderly lost := by
  have valid := orderly.valid running
  refine ⟨?_, fun _ => ?_, orderly.tidy, orderly.accounted⟩
  · have registered := orderly.registered
    rw [Registered, running] at registered
    rw [Registered, show (module.aesdOpen filp).2.loaded = true from running]
    exact registered
  · exact ⟨valid.ring, valid.entrySize, valid.entryBlock, valid.slotBlock, valid.slotNewline,
      valid.slotSize, valid.distinct⟩

theorem Orderly.releaseFile (orderly : module.Orderly lost) (filp : Nat) :
    (module.aesdRelease filp).2.Orderly lost := by
  refine ⟨?_, orderly.valid, orderly.tidy, orderly.accounted⟩
  cases running : module.loaded with
  | true =>
    have registered := orderly.registered.running running
    rw [Registered, show (module.aesdRelease filp).2.loaded = true from running]
    exact registered
  | false =>
    obtain ⟨noRegion, noDevice, noFile⟩ := orderly.registered.idle running
    rw [Registered, show (module.aesdRelease filp).2.loaded = false from running]
    refine ⟨noRegion, noDevice, ?_⟩
    rw [aesdRelease, noFile]
    rfl

theorem Orderly.call (orderly : module.Orderly lost) (running : module.loaded = true)
    (call : Call) : ({ module with driver := (call.run module.driver).2 } : KernelModule).Orderly
      (lost ++ module.driver.memory.forgets call) := by
  have valid := orderly.valid running
  have accounted := orderly.accounted
  obtain ⟨_, memory⟩ := run_effect call module.driver
  have heap : (call.run module.driver).2.heap = (module.driver.memory.effect call).2.heap :=
    congrArg Memory.heap memory
  rw [references, if_pos running] at accounted
  have next := Memory.Accounted.effect valid accounted call
  refine ⟨?_, fun _ => ?_, ?_, ?_⟩
  · exact orderly.registered
  · rw [memory]
    exact valid.effect call
  · rw [heap]
    exact valid.effect_tidy orderly.tidy call
  · rw [heap, references, if_pos (show _ = true from running), memory]
    exact next

theorem Registered.loaded_of_open (registered : module.Registered) {filp : Nat}
    (isOpen : filp ∈ module.files) : module.loaded = true := by
  by_contra idle
  rw [(registered.idle (Bool.eq_false_iff.mpr idle)).2.2] at isOpen
  exact List.not_mem_nil isOpen

theorem Orderly.step (orderly : module.Orderly lost) {call : ModuleCall}
    (taken : module.step call = some (reply, after)) : after.Orderly (lost ++ module.forgets call) := by
  cases call with
  | insmod region added =>
    obtain ⟨idle, same⟩ := Option.ite_none_right_eq_some.mp taken
    cases same
    rw [forgets, List.append_nil]
    exact orderly.insmod region added idle
  | rmmod =>
    obtain ⟨⟨running, nothingOpen⟩, same⟩ := Option.ite_none_right_eq_some.mp taken
    cases same
    exact orderly.rmmod running nothingOpen
  | openFile filp =>
    obtain ⟨⟨running, _⟩, same⟩ := Option.ite_none_right_eq_some.mp taken
    cases same
    rw [forgets, List.append_nil]
    exact orderly.openFile running filp
  | releaseFile filp =>
    obtain ⟨_, same⟩ := Option.ite_none_right_eq_some.mp taken
    cases same
    rw [forgets, List.append_nil]
    exact orderly.releaseFile filp
  | call call =>
    obtain ⟨isOpen, same⟩ := Option.ite_none_right_eq_some.mp taken
    cases same
    exact orderly.call (orderly.registered.loaded_of_open isOpen) call

end KernelModule

/-- Over any number of loads and unloads, whatever fails in the kernel: the module holds
its device number and its device when it is loaded and nothing otherwise, no block is
freed twice or while it is not live, and the live blocks are those that the device points
to and those that one call or one unload has left without a pointer. -/
theorem module_accounts {trace : List (ModuleCall × ModuleReply)} {module : KernelModule}
    (run : kernelModule.Run .unloaded trace module) :
    module.Registered ∧ module.driver.heap.Sound ∧
      module.driver.heap.blocks.Perm (module.references ++
        kernelModule.collect KernelModule.forgets .unloaded (trace.map Prod.fst)) := by
  have orderly : module.Orderly
      (kernelModule.collect KernelModule.forgets .unloaded (trace.map Prod.fst)) := by
    induction run with
    | start => exact .start
    | next earlier taken ih =>
      rw [earlier.collect_next]
      exact ih.step taken
  exact ⟨orderly.registered, orderly.tidy.toSound, orderly.accounted⟩

/-- Two loads that fail, one that ends with an unfinished command, and one after it. -/
def reloaded : List ModuleCall :=
  [.insmod (.error ⟨-16, by decide⟩) none, .insmod (.ok 240) (some ⟨-12, by decide⟩),
   .insmod (.ok 240) none, .openFile 0, .call ⟨0, .smooth, .write (.bytes [115] (by decide))⟩,
   .releaseFile 0, .rmmod, .insmod (.ok 241) none, .openFile 0,
   .call ⟨0, .smooth, .read false 8⟩]

/-- The block of the unfinished command is left over. -/
theorem reloaded_accounts : ∃ trace module,
    kernelModule.exec .unloaded reloaded = some (trace, module) ∧
      module.driver.heap.Sound ∧ module.driver.heap.blocks.Perm [0] := by
  obtain ⟨⟨trace, module⟩, computed, nothing⟩ := (Option.any_eq_true _ _).mp
    (by decide +kernel : ((kernelModule.exec .unloaded reloaded).any fun result =>
      result.2.references == []) = true)
  obtain ⟨_, sound, accounted⟩ := module_accounts (.of_exec computed)
  have lost : kernelModule.collect KernelModule.forgets .unloaded reloaded = [0] := by
    decide +kernel
  rw [eq_of_beq nothing, Machine.exec_inputs computed, lost] at accounted
  exact ⟨trace, module, computed, sound, accounted⟩

end Aesd.Driver
