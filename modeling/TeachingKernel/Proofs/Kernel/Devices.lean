import TeachingKernel.Kernel.Trap

/-!
# Steps on the devices

What the events of a step tell of the devices: the uses that were made of them, and the exits that
the host was told of. Most of what a trap does for a process goes on at the devices alone: such a
step always answers, and what it does is decided by the devices.

A step leads from one kernel to another, with its answer and the uses that it makes of the devices;
the notices do not count.
-/

namespace TeachingKernel

variable {φ η χ ω α β : Type}

def Event.use? : Event η → Option (DeviceUse η)
  | device use => some use
  | notice _ => none

/-- The exit of a process, if the use is to tell the host of it. -/
def DeviceUse.exitOf? (pid : Pid) : DeviceUse η → Option Int32
  | exited q status => if q = pid then some status else none
  | _ => none

def deviceUses (events : List (Event η)) : List (DeviceUse η) := events.filterMap Event.use?

/-- The statuses with which the host was told of the exit of a process. -/
def exitsTold (pid : Pid) (events : List (Event η)) : List Int32 :=
  (deviceUses events).filterMap (·.exitOf? pid)

/-- The host is told of nobody's exit. -/
def TellsNoExit (events : List (Event η)) : Prop := ∀ pid, exitsTold pid events = []

section Events

variable {events before after : List (Event η)} {pid : Pid}

@[simp] theorem deviceUses_nil : deviceUses ([] : List (Event η)) = [] := rfl

@[simp] theorem deviceUses_append :
    deviceUses (before ++ after) = deviceUses before ++ deviceUses after :=
  List.filterMap_append

@[simp] theorem deviceUses_cons_notice (n : Notice) :
    deviceUses (.notice n :: events) = deviceUses events := rfl

@[simp] theorem deviceUses_cons_device (use : DeviceUse η) :
    deviceUses (.device use :: events) = use :: deviceUses events := rfl

@[simp] theorem deviceUses_notices (ns : List Notice) :
    deviceUses (ns.map .notice : List (Event η)) = [] := by
  induction ns with
  | nil => rfl
  | cons n ns ih => exact ih

@[simp] theorem deviceUses_devices (use : α → DeviceUse η) (as : List α) :
    deviceUses (as.map fun a => .device (use a)) = as.map use := by
  induction as with
  | nil => rfl
  | cons a as ih => exact congrArg (use a :: ·) ih

@[simp] theorem exitsTold_append :
    exitsTold pid (before ++ after) = exitsTold pid before ++ exitsTold pid after := by
  rw [exitsTold, deviceUses_append, List.filterMap_append]
  rfl

theorem tellsNoExit_of_deviceUses (h : deviceUses events = []) : TellsNoExit events := by
  intro pid
  rw [exitsTold, h]
  rfl

theorem tellsNoExit_nil : TellsNoExit ([] : List (Event η)) := fun _ => rfl

theorem TellsNoExit.append (h : TellsNoExit before) (h' : TellsNoExit after) :
    TellsNoExit (before ++ after) := by
  intro pid
  rw [exitsTold_append, h pid, h' pid]
  rfl

end Events

namespace KernelM

variable {k k₁ k₂ : Kernel φ η χ ω} {uses uses' : List (DeviceUse η)}

/-- The step leads from one kernel to another, with this answer and these uses of the devices. -/
def Leads (x : KernelM φ η χ ω α) (k : Kernel φ η χ ω) (a : α) (k' : Kernel φ η χ ω)
    (uses : List (DeviceUse η)) : Prop :=
  ∃ events, x.run k = .ok (a, k', events) ∧ deviceUses events = uses

theorem run_get_bind (f : Kernel φ η χ ω → KernelM φ η χ ω β) :
    (get >>= f).run k = (f k).run k := by
  simp only [run, bind, KernelM.get]
  cases f k k with
  | error d => rfl
  | ok r => rfl

theorem leads_pure (a : α) : (pure a : KernelM φ η χ ω α).Leads k a k [] := ⟨[], rfl, rfl⟩

theorem leads_notice (n : Notice) : (notice n : KernelM φ η χ ω Unit).Leads k () k [] :=
  ⟨_, rfl, rfl⟩

theorem leads_modify (f : Kernel φ η χ ω → Kernel φ η χ ω) : (modify f).Leads k () (f k) [] :=
  ⟨[], rfl, rfl⟩

theorem leads_ofChecked {x : Checked α} {a : α} (h : x = .ok a) :
    (ofChecked x : KernelM φ η χ ω α).Leads k a k [] := ⟨[], by rw [h]; rfl, rfl⟩

theorem leads_get_bind {f : Kernel φ η χ ω → KernelM φ η χ ω α} {a : α}
    (h : (f k).Leads k a k₁ uses) : (get >>= f).Leads k a k₁ uses := by
  unfold Leads
  rw [run_get_bind]
  exact h

theorem Leads.bind {x : KernelM φ η χ ω α} {f : α → KernelM φ η χ ω β} {a : α} {b : β}
    (hx : x.Leads k a k₁ uses) (hf : (f a).Leads k₁ b k₂ uses') :
    (x >>= f).Leads k b k₂ (uses ++ uses') := by
  obtain ⟨before, hrun, rfl⟩ := hx
  obtain ⟨after, hrun', rfl⟩ := hf
  exact ⟨_, run_bind_eq_ok.mpr ⟨a, k₁, before, after, hrun, hrun', rfl⟩, deviceUses_append⟩

/-- What follows uses no device. -/
theorem Leads.bind_quiet {x : KernelM φ η χ ω α} {f : α → KernelM φ η χ ω β} {a : α} {b : β}
    (hx : x.Leads k a k₁ uses) (hf : (f a).Leads k₁ b k₂ []) : (x >>= f).Leads k b k₂ uses := by
  rw [← List.append_nil uses]
  exact hx.bind hf

/-- A step leads to one kernel, with one answer. -/
theorem Leads.unique {x : KernelM φ η χ ω α} {a b : α} (h : x.Leads k a k₁ uses)
    (h' : x.Leads k b k₂ uses') : a = b ∧ k₁ = k₂ ∧ uses = uses' := by
  obtain ⟨events, hrun, rfl⟩ := h
  obtain ⟨events', hrun', rfl⟩ := h'
  cases hrun.symm.trans hrun'
  exact ⟨rfl, rfl, rfl⟩

end KernelM

namespace TrapM

open KernelM

variable {k k₁ k₂ : Kernel φ η χ ω} {uses uses' : List (DeviceUse η)}

theorem run_get_bind (f : Kernel φ η χ ω → TrapM φ η χ ω β) :
    (Kernel.lift get >>= f).run.run k = (f k).run.run k := by
  rw [ExceptT.run_bind, Kernel.lift, ExceptT.run_lift, map_eq_pure_bind, bind_assoc]
  simp only [pure_bind]
  exact KernelM.run_get_bind _

theorem lift_ofChecked_ok (a : α) :
    (Kernel.lift (ofChecked (.ok a)) : TrapM φ η χ ω α) = pure a :=
  rfl

theorem leads_bind {x : TrapM φ η χ ω α} {f : α → TrapM φ η χ ω β} {a : α}
    {answer : Except TrapError β} (hx : x.run.Leads k (.ok a) k₁ uses)
    (hf : (f a).run.Leads k₁ answer k₂ uses') :
    (x >>= f).run.Leads k answer k₂ (uses ++ uses') := by
  rw [ExceptT.run_bind]
  exact hx.bind hf

/-- What comes before uses no device. -/
theorem leads_bind_nil {x : TrapM φ η χ ω α} {f : α → TrapM φ η χ ω β} {a : α}
    {answer : Except TrapError β} (hx : x.run.Leads k (.ok a) k₁ [])
    (hf : (f a).run.Leads k₁ answer k₂ uses) : (x >>= f).run.Leads k answer k₂ uses :=
  leads_bind hx hf

theorem leads_bind_quiet {x : TrapM φ η χ ω α} {f : α → TrapM φ η χ ω β} {a : α}
    {answer : Except TrapError β} (hx : x.run.Leads k (.ok a) k₁ uses)
    (hf : (f a).run.Leads k₁ answer k₂ []) : (x >>= f).run.Leads k answer k₂ uses := by
  rw [ExceptT.run_bind]
  exact hx.bind_quiet hf

theorem leads_bind_error {x : TrapM φ η χ ω α} {f : α → TrapM φ η χ ω β} {error : TrapError}
    (hx : x.run.Leads k (.error error) k₁ uses) :
    (x >>= f).run.Leads k (.error error) k₁ uses := by
  rw [ExceptT.run_bind, ← List.append_nil uses]
  exact hx.bind (leads_pure _)

theorem leads_lift {x : KernelM φ η χ ω α} {a : α} (hx : x.Leads k a k₁ uses) :
    (Kernel.lift x).run.Leads k (.ok a) k₁ uses := by
  rw [Kernel.lift, ExceptT.run_lift, map_eq_pure_bind, ← List.append_nil uses]
  exact hx.bind (leads_pure _)

theorem leads_get_bind {f : Kernel φ η χ ω → TrapM φ η χ ω β} {answer : Except TrapError β}
    (h : (f k).run.Leads k answer k₁ uses) :
    (Kernel.lift get >>= f).run.Leads k answer k₁ uses := by
  unfold Leads
  rw [run_get_bind]
  exact h

theorem leads_ofTrapChecked {x : TrapChecked α} {answer : Except TrapError α}
    (h : x.run = .ok answer) : (Kernel.ofTrapChecked x).run.Leads k answer k [] :=
  ⟨[], by rw [Kernel.ofTrapChecked, ExceptT.run_mk, h, run_ofChecked_ok], rfl⟩

end TrapM

namespace Kernel

open KernelM

/-- The step answers and changes nothing but the devices; what it does is decided by them, and the
host is told of nobody's exit. -/
def OnDevices (x : KernelM φ η χ ω α) : Prop :=
  ∀ files console host, ∃ a files' console' host' events, TellsNoExit events ∧
    ∀ frames processes, x.run ⟨frames, processes, files, console, host⟩ =
      .ok (a, ⟨frames, processes, files', console', host'⟩, events)

namespace OnDevices

theorem pure (a : α) : OnDevices (pure a : KernelM φ η χ ω α) := fun files console host =>
  ⟨a, files, console, host, [], tellsNoExit_nil, fun _ _ => rfl⟩

theorem bind {x : KernelM φ η χ ω α} {f : α → KernelM φ η χ ω β} (hx : OnDevices x)
    (hf : ∀ a, OnDevices (f a)) : OnDevices (x >>= f) := by
  intro files console host
  obtain ⟨a, files₁, console₁, host₁, before, hbefore, hrun⟩ := hx files console host
  obtain ⟨b, files₂, console₂, host₂, after, hafter, hrun'⟩ := hf a files₁ console₁ host₁
  refine ⟨b, files₂, console₂, host₂, _, hbefore.append hafter, fun frames processes => ?_⟩
  exact run_bind_eq_ok.mpr ⟨a, _, before, after, hrun frames processes, hrun' frames processes, rfl⟩

/-- From a given kernel. -/
theorem run {x : KernelM φ η χ ω α} (hx : OnDevices x) (k : Kernel φ η χ ω) :
    ∃ a files console host events, TellsNoExit events ∧
      x.run k = .ok (a, { k with files, console, host }, events) := by
  obtain ⟨a, files, console, host, events, htells, hrun⟩ := hx k.files k.console k.host
  exact ⟨a, files, console, host, events, htells, hrun k.frames k.processes⟩

end OnDevices

theorem onDevices_notice (n : Notice) : OnDevices (notice n : KernelM φ η χ ω Unit) :=
  fun files console host => ⟨(), files, console, host, [.notice n], fun _ => rfl, fun _ _ => rfl⟩

section Files

variable [FileSystem φ η]

theorem onDevices_create (name : String) (size : UInt32) :
    OnDevices (Files.create name size : KernelM φ η χ ω Bool) :=
  fun files console host =>
    let r := FileSystem.createFile files name size
    ⟨r.1, r.2, console, host, [.device (.create name size r.1)], fun _ => rfl, fun _ _ => rfl⟩

theorem onDevices_openNamed (name : String) :
    OnDevices (Files.openNamed name : KernelM φ η χ ω (Option η)) :=
  fun files console host =>
    let r := FileSystem.openFile files name
    ⟨r.1, r.2, console, host, [.device (.open name r.1)], fun _ => rfl, fun _ _ => rfl⟩

def openText (name : Scratch) : KernelM φ η χ ω (Option η) :=
  match name.text? with
  | none => return none
  | some text => Files.openNamed text

theorem onDevices_openText (name : Scratch) :
    OnDevices (openText name : KernelM φ η χ ω (Option η)) := by
  unfold openText
  split
  · exact .pure _
  · exact onDevices_openNamed _

theorem onDevices_remove (name : String) :
    OnDevices (Files.remove name : KernelM φ η χ ω Bool) :=
  fun files console host =>
    let r := FileSystem.removeFile files name
    ⟨r.1, r.2, console, host, [.device (.remove name r.1)], fun _ => rfl, fun _ _ => rfl⟩

theorem onDevices_length (handle : η) :
    OnDevices (Files.length handle : KernelM φ η χ ω UInt32) :=
  fun files console host =>
    let r := FileSystem.length files handle
    ⟨r, files, console, host, [.device (.length handle r)], fun _ => rfl, fun _ _ => rfl⟩

theorem onDevices_read (handle : η) (buffer : Bytes) :
    OnDevices (Files.read handle buffer : KernelM φ η χ ω (Bytes × Nat)) :=
  fun files console host =>
    let r := FileSystem.read files handle buffer
    ⟨r.1, r.2, console, host, [.device (.read handle buffer.length (r.1.1.take r.1.2))],
      fun _ => rfl, fun _ _ => rfl⟩

theorem onDevices_write (handle : η) (bytes : Bytes) :
    OnDevices (Files.write handle bytes : KernelM φ η χ ω Nat) :=
  fun files console host =>
    let r := FileSystem.write files handle bytes
    ⟨r.1, r.2, console, host, [.device (.write handle bytes r.1)], fun _ => rfl, fun _ _ => rfl⟩

theorem onDevices_seek (handle : η) (position : UInt32) :
    OnDevices (Files.seek handle position : KernelM φ η χ ω Unit) :=
  fun files console host =>
    ⟨(), FileSystem.seek files handle position, console, host,
      [.device (.seek handle position)], fun _ => rfl, fun _ _ => rfl⟩

theorem onDevices_tell (handle : η) :
    OnDevices (Files.tell handle : KernelM φ η χ ω UInt32) :=
  fun files console host =>
    let r := FileSystem.tell files handle
    ⟨r, files, console, host, [.device (.tell handle r)], fun _ => rfl, fun _ _ => rfl⟩

theorem leads_close (k : Kernel φ η χ ω) (handle : η) :
    (Files.close handle).Leads k () { k with files := FileSystem.close k.files handle }
      [.close handle] := ⟨[.device (.close handle)], rfl, rfl⟩

theorem onDevices_close (handle : η) :
    OnDevices (Files.close handle : KernelM φ η χ ω Unit) :=
  fun files console host =>
    ⟨(), FileSystem.close files handle, console, host, [.device (.close handle)], fun _ => rfl,
      fun _ _ => rfl⟩

/-- To close files uses them one after the other, and does nothing else. -/
theorem run_closeAll (handles : List η) (k : Kernel φ η χ ω) :
    (closeAll handles).run k = .ok ((), { k with files := handles.foldl FileSystem.close k.files },
      handles.map fun handle => .device (.close handle)) := by
  induction handles generalizing k with
  | nil => rfl
  | cons handle handles ih =>
    exact run_bind_eq_ok.mpr ⟨(), _, _, _, rfl,
      ih { k with files := FileSystem.close k.files handle }, rfl⟩

end Files

section Console

variable [Console χ]

theorem onDevices_put (bytes : Bytes) :
    OnDevices (Terminal.put bytes : KernelM φ η χ ω Unit) :=
  fun files console host =>
    ⟨(), files, Console.putBytes console bytes, host, [.device (.putBytes bytes)], fun _ => rfl,
      fun _ _ => rfl⟩

theorem onDevices_getByte : OnDevices (Terminal.getByte : KernelM φ η χ ω (Option UInt8)) :=
  fun files console host =>
    let r := Console.getByte console
    ⟨r.1, files, r.2, host, [.device (.getByte r.1)], fun _ => rfl, fun _ _ => rfl⟩

end Console

section Host

variable [Host ω]

theorem onDevices_waitLoaded (child : Pid) :
    OnDevices (Scheduler.waitLoaded child : KernelM φ η χ ω Bool) :=
  fun files console host =>
    let r := Host.waitLoaded host child
    ⟨r.1, files, console, r.2, [.device (.waitLoaded child r.1)], fun _ => rfl, fun _ _ => rfl⟩

theorem onDevices_wait (parent child : Pid) :
    OnDevices (Scheduler.wait parent child : KernelM φ η χ ω Int32) :=
  fun files console host =>
    let r := Host.wait host parent child
    ⟨r.1, files, console, r.2, [.device (.wait parent child r.1)], fun _ => rfl, fun _ _ => rfl⟩

theorem onDevices_powerOff : OnDevices (Scheduler.powerOff : KernelM φ η χ ω Unit) :=
  fun files console host =>
    ⟨(), files, console, Host.powerOff host, [.device .powerOff], fun _ => rfl, fun _ _ => rfl⟩

theorem onDevices_executeHost (parent : Pid) (command : String) :
    OnDevices (Scheduler.execute parent command : KernelM φ η χ ω (Option Pid)) :=
  fun files console host =>
    let r := Host.execute host parent command
    ⟨r.1, files, console, r.2, [.device (.execute parent command r.1)], fun _ => rfl,
      fun _ _ => rfl⟩

def awaitLoaded : Option Pid → KernelM φ η χ ω Int32
  | none => return failed
  | some child => do
    if ← Scheduler.waitLoaded child then return child.toInt32
    else
      notice (.loadFailed child)
      return failed

theorem execute_eq (pid : Pid) (command : Scratch) :
    (execute pid command : KernelM φ η χ ω Int32) =
      (match command.text? with
        | none => pure none
        | some text => Scheduler.execute pid text) >>= awaitLoaded := by
  unfold execute
  cases command.text? with
  | none => rfl
  | some text => rfl

theorem onDevices_execute (pid : Pid) (command : Scratch) :
    OnDevices (execute pid command : KernelM φ η χ ω Int32) := by
  rw [execute_eq]
  refine .bind ?_ fun child => ?_
  · split
    · exact .pure _
    · exact onDevices_executeHost pid _
  · cases child with
    | none => exact .pure _
    | some child =>
      refine .bind (onDevices_waitLoaded child) fun loaded => ?_
      split
      · exact .pure _
      · exact .bind (onDevices_notice _) fun _ => .pure _

end Host

theorem onDevices_unsupported (request : Request) (reply : Reply) :
    OnDevices (unsupported request reply : KernelM φ η χ ω Reply) :=
  .bind (onDevices_notice _) fun _ => .bind (onDevices_notice _) fun _ => .pure _

end Kernel

end TeachingKernel
