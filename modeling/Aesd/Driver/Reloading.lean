import Aesd.Driver.CommandDevice
import Aesd.Driver.Loading

/-! Every load begins with an empty device: the module refines a device that is put away
and taken out again. -/
namespace Aesd.Driver

open Aesd.Library

/-- The module without registrations and blocks. -/
structure LoadedDevice where
  loaded : Bool
  files : List Nat
  device : CommandDevice

/-- The device without its commands; the positions are the files'. -/
def CommandDevice.emptied (device : CommandDevice) : CommandDevice :=
  { fresh with position := device.position }

namespace LoadedDevice

def unloaded : LoadedDevice := ⟨false, [], .fresh⟩

def loadResult : Except Errno UInt32 → Option Errno → Int32
  | .error err, _ => err.code
  | .ok _, some err => err.code
  | .ok _, none => 0

/-- Unloading empties the device, so that every load begins with an empty one. -/
def step (state : LoadedDevice) : ModuleCall → Option (ModuleReply × LoadedDevice)
  | .insmod region added =>
    if state.loaded = false then
      some (.result (loadResult region added),
        { state with loaded := loadResult region added == 0 })
    else none
  | .rmmod =>
    if state.loaded = true ∧ state.files = [] then
      some (.removed, { state with loaded := false, device := state.device.emptied })
    else none
  | .openFile filp =>
    if state.loaded = true ∧ filp ∉ state.files then
      some (.result 0, { state with
        files := filp :: state.files
        device := state.device.moved filp 0 })
    else none
  | .releaseFile filp =>
    if filp ∈ state.files then
      some (.result 0, { state with files := state.files.erase filp })
    else none
  | .call call =>
    if call.filp ∈ state.files then
      some (.reply (state.device.step call).1,
        { state with device := (state.device.step call).2 })
    else none

end LoadedDevice

def loadedDevice : Machine LoadedDevice ModuleCall ModuleReply where
  step := LoadedDevice.step

namespace KernelModule

variable {module after : KernelModule} {reply : ModuleReply}

def standsFor (module : KernelModule) : LoadedDevice :=
  ⟨module.loaded, module.files,
    if module.loaded then module.driver.memory.device else module.driver.memory.device.emptied⟩

/-- In order, and with no byte of an unfinished command lost. -/
structure Whole (module : KernelModule) : Prop where
  orderly : ∃ lost, module.Orderly lost
  clean : module.loaded = true → module.driver.memory.Clean

/-- No allocation fails with an unfinished command at stake. -/
def Spared (before : KernelModule) (_ : ModuleCall) (reply : ModuleReply) (_ : KernelModule) :
    Prop :=
  ∀ inner, reply = .reply inner → inner.retval = -ENOMEM → before.driver.memory.pending = []

theorem standsFor_running (running : module.loaded = true) :
    module.standsFor = ⟨true, module.files, module.driver.memory.device⟩ := by
  rw [standsFor, running, if_pos rfl]

theorem standsFor_idle (idle : module.loaded = false) :
    module.standsFor = ⟨false, module.files, module.driver.memory.device.emptied⟩ := by
  rw [standsFor, idle, if_neg Bool.false_ne_true]

theorem init_result (module : KernelModule) (region : Except Errno UInt32) (added : Option Errno) :
    (module.aesdInitModule added region).1 = LoadedDevice.loadResult region added := by
  cases region with
  | error err => rfl
  | ok major =>
    cases added with
    | some err => simp [aesdInitModule, aesdSetupCdev, err.code_ne_zero, LoadedDevice.loadResult]
    | none => rfl

/-- A load begins with an empty device, whatever the memory held before. -/
theorem insmod_standsFor (idle : module.loaded = false) (region : Except Errno UInt32)
    (added : Option Errno) : (module.insmod region added).standsFor =
      { module.standsFor with loaded := LoadedDevice.loadResult region added == 0 } := by
  rw [standsFor_idle idle, ← module.init_result]
  rcases module.init_cases region added with ⟨err, major, dev, same⟩ | ⟨major, same⟩
  · rw [insmod, same, beq_eq_false_iff_ne.mpr err.code_ne_zero]
    rfl
  · rw [insmod, same]
    rfl

theorem rmmod_standsFor (module : KernelModule) (running : module.loaded = true) :
    module.rmmod.standsFor = { module.standsFor with
      loaded := false, device := module.standsFor.device.emptied } := by
  rw [standsFor_running running, standsFor_idle module.rmmod_loaded, rmmod_files]
  simp only [CommandDevice.emptied, Memory.device, DriverState.memory, rmmod_fPos]

theorem Whole.start : unloaded.Whole where
  orderly := ⟨[], .start⟩
  clean := by
    intro impossible
    cases impossible

theorem Whole.insmod_clean (module : KernelModule) (region : Except Errno UInt32)
    (added : Option Errno) (running : (module.insmod region added).loaded = true) :
    (module.insmod region added).driver.memory.Clean := by
  rcases module.init_cases region added with ⟨err, major, dev, same⟩ | ⟨major, same⟩
  · rw [KernelModule.insmod, same, beq_eq_false_iff_ne.mpr err.code_ne_zero] at running
    cases running
  · rw [KernelModule.insmod, same]
    exact Memory.Clean.empty module.driver.heap module.driver.fPos

theorem simulates : kernelModule.Simulates loadedDevice standsFor Whole Spared where
  step := by
    intro before call reply after ⟨⟨lost, orderly⟩, clean⟩ spared taken
    have kept : ∃ lost, after.Orderly lost := ⟨_, orderly.step taken⟩
    cases call with
    | insmod region added =>
      obtain ⟨idle, same⟩ := Option.ite_none_right_eq_some.mp taken
      cases same
      refine ⟨⟨kept, Whole.insmod_clean before region added⟩, ?_⟩
      rw [insmod_standsFor idle, standsFor_idle idle, init_result]
      rfl
    | rmmod =>
      obtain ⟨⟨running, nothingOpen⟩, same⟩ := Option.ite_none_right_eq_some.mp taken
      cases same
      refine ⟨⟨kept, ?_⟩, ?_⟩
      · intro impossible
        cases impossible
      · rw [before.rmmod_standsFor running, standsFor_running running]
        exact if_pos ⟨rfl, nothingOpen⟩
    | openFile filp =>
      obtain ⟨⟨running, new⟩, same⟩ := Option.ite_none_right_eq_some.mp taken
      cases same
      have whole := clean running
      obtain ⟨_, opened⟩ := kept
      refine ⟨⟨⟨_, opened⟩, fun stays => ?_⟩, ?_⟩
      · exact ⟨opened.valid stays, whole.intact, whole.unfinished⟩
      · have runs : (before.aesdOpen filp).2.loaded = true := running
        rw [standsFor_running running, standsFor_running runs]
        exact if_pos ⟨rfl, new⟩
    | releaseFile filp =>
      obtain ⟨isOpen, same⟩ := Option.ite_none_right_eq_some.mp taken
      cases same
      have running := orderly.registered.loaded_of_open isOpen
      have runs : (before.aesdRelease filp).2.loaded = true := running
      refine ⟨⟨kept, clean⟩, ?_⟩
      rw [standsFor_running running, standsFor_running runs]
      exact if_pos isOpen
    | call call =>
      obtain ⟨isOpen, same⟩ := Option.ite_none_right_eq_some.mp taken
      cases same
      have running := orderly.registered.loaded_of_open isOpen
      obtain ⟨sameReply, sameMemory⟩ := run_effect call before.driver
      have spares : (before.driver.memory.effect call).1.retval = -ENOMEM →
          before.driver.memory.pending = [] := by
        intro failed
        exact spared _ rfl (sameReply ▸ failed)
      obtain ⟨cleanAfter, stepped⟩ := (clean running).step_device call spares
      refine ⟨⟨kept, fun _ => ?_⟩, ?_⟩
      · rw [sameMemory]
        exact cleanAfter
      · have runs : ({ before with driver := (call.run before.driver).2 } : KernelModule).loaded =
            true := running
        rw [standsFor_running running, standsFor_running runs]
        refine (if_pos isOpen).trans ?_
        rw [stepped, sameMemory, sameReply]

end KernelModule

/-- Every run of the module over loads and unloads in which no allocation fails in the
middle of a command is a run of a device that is empty after every load: no command, no
unfinished command and no position of an earlier load is ever seen again. -/
theorem module_refines_device {trace : List (ModuleCall × ModuleReply)} {module : KernelModule}
    (run : kernelModule.Run .unloaded trace module)
    (spared : kernelModule.EachStep .unloaded trace KernelModule.Spared) :
    loadedDevice.Run .unloaded trace module.standsFor :=
  (KernelModule.simulates.run run .start spared).2

def ModuleReply.noMemory : ModuleReply → Bool
  | .reply inner => inner.retval == -ENOMEM
  | .result _ | .removed => false

theorem reloaded_refines : ∃ trace module,
    kernelModule.exec .unloaded reloaded = some (trace, module) ∧
      loadedDevice.Run .unloaded trace module.standsFor := by
  obtain ⟨⟨trace, module⟩, computed, granted⟩ := (Option.any_eq_true _ _).mp
    (by decide +kernel : ((kernelModule.exec .unloaded reloaded).any fun result =>
      result.1.all fun step => !step.2.noMemory) = true)
  refine ⟨trace, module, computed, module_refines_device (.of_exec computed) ?_⟩
  intro past call reply before after inside passed taken inner isReply failed
  have member : (call, reply) ∈ trace :=
    inside.subset (List.mem_append_right _ (List.mem_singleton_self _))
  have given := List.all_eq_true.mp granted _ member
  rw [isReply, ModuleReply.noMemory, failed] at given
  cases given

end Aesd.Driver
