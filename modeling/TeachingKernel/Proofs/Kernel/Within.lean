import Mathlib.Order.Defs.Unbundled
import TeachingKernel.Proofs.Kernel.Devices

/-!
# How far a step reaches

A step stays within a relation between kernels if it leads from a kernel only to related ones. If
the relation is a preorder, steps that follow each other stay within it if each does.

What a trap does to the kernel is cut into pieces this way. To read a call changes nothing. To carry
a request out stays within every preorder that does not look at the devices and allows for what is
done for a process, and the host is told of nobody's exit. Besides, a trap may end the process.
-/

namespace TeachingKernel

variable {φ η χ ω : Type}

namespace KernelM

variable {R : Kernel φ η χ ω → Kernel φ η χ ω → Prop} {k : Kernel φ η χ ω} {α β : Type}

/-- If the step ends, it ends in a kernel that is related to the one where it began, and the host
was told of nobody's exit on the way. -/
def Within (R : Kernel φ η χ ω → Kernel φ η χ ω → Prop) (k : Kernel φ η χ ω)
    (x : KernelM φ η χ ω α) : Prop :=
  ∀ ⦃a k' events⦄, x.run k = .ok (a, k', events) → R k k' ∧ TellsNoExit events

theorem within_bind [IsTrans _ R] {x : KernelM φ η χ ω α} {f : α → KernelM φ η χ ω β}
    (hx : Within R k x) (hf : ∀ a k', Within R k' (f a)) : Within R k (x >>= f) := by
  intro b k' events h
  obtain ⟨a, middle, before, after, h₁, h₂, rfl⟩ := run_bind_eq_ok.mp h
  obtain ⟨hR, hbefore⟩ := hx h₁
  obtain ⟨hR', hafter⟩ := hf a middle h₂
  exact ⟨trans_of R hR hR', hbefore.append hafter⟩

theorem within_pure [Std.Refl R] (a : α) : Within R k (pure a : KernelM φ η χ ω α) := by
  intro b k' events h
  cases h
  exact ⟨refl_of R k, tellsNoExit_nil⟩

/-- A step that answers ends in some kernel. -/
theorem exists_run_eq {x : KernelM φ η χ ω α} {a : α} (h : (x.run k).map Prod.fst = .ok a) :
    ∃ k' events, x.run k = .ok (a, k', events) := by
  cases hx : x.run k with
  | error d =>
    rw [hx] at h
    contradiction
  | ok r =>
    rw [hx] at h
    cases h
    exact ⟨r.2.1, r.2.2, rfl⟩

/-- What comes after a look at the kernel knows the kernel. -/
theorem within_get_bind {f : Kernel φ η χ ω → KernelM φ η χ ω β} (h : Within R k (f k)) :
    Within R k (get >>= f) := by
  intro b k' events hr
  rw [run_get_bind] at hr
  exact h hr

theorem within_modify {f : Kernel φ η χ ω → Kernel φ η χ ω} (h : R k (f k)) :
    Within R k (modify f) := by
  intro b k' events hr
  cases hr
  exact ⟨h, tellsNoExit_nil⟩

theorem within_notice [Std.Refl R] (n : Notice) :
    Within R k (notice n : KernelM φ η χ ω Unit) := by
  intro b k' events h
  cases h
  exact ⟨refl_of R k, fun _ => rfl⟩

theorem within_ofChecked [Std.Refl R] (x : Checked α) :
    Within R k (ofChecked x : KernelM φ η χ ω α) := by
  intro b k' events h
  cases x with
  | error d => contradiction
  | ok a =>
    cases h
    exact ⟨refl_of R k, tellsNoExit_nil⟩

/-- What comes after an answer knows the answer. -/
theorem within_ofChecked_bind {x : Checked α} {f : α → KernelM φ η χ ω β}
    (h : ∀ a, x = .ok a → Within R k (f a)) : Within R k (ofChecked x >>= f) := by
  intro b k' events hr
  obtain ⟨a, middle, before, after, h₁, h₂, rfl⟩ := run_bind_eq_ok.mp hr
  cases x with
  | error d => contradiction
  | ok a =>
    cases h₁
    exact h a rfl h₂

end KernelM

namespace TrapM

open KernelM

variable {R : Kernel φ η χ ω → Kernel φ η χ ω → Prop} {k : Kernel φ η χ ω} {α β : Type}

def Within (R : Kernel φ η χ ω → Kernel φ η χ ω → Prop) (k : Kernel φ η χ ω)
    (x : TrapM φ η χ ω α) : Prop :=
  KernelM.Within R k x.run

theorem within_bind [Std.Refl R] [IsTrans _ R] {x : TrapM φ η χ ω α} {f : α → TrapM φ η χ ω β}
    (hx : Within R k x) (hf : ∀ a k', Within R k' (f a)) : Within R k (x >>= f) := by
  rw [Within, ExceptT.run_bind]
  apply KernelM.within_bind hx
  intro answer k'
  cases answer with
  | error e => exact KernelM.within_pure _
  | ok a => exact hf a k'

theorem within_pure [Std.Refl R] (a : α) : Within R k (pure a : TrapM φ η χ ω α) :=
  KernelM.within_pure _

theorem within_throw [Std.Refl R] (e : TrapError) : Within R k (throw e : TrapM φ η χ ω α) :=
  KernelM.within_pure _

theorem within_lift [Std.Refl R] [IsTrans _ R] {x : KernelM φ η χ ω α}
    (hx : KernelM.Within R k x) : Within R k (Kernel.lift x) := by
  rw [Within, Kernel.lift, ExceptT.run_lift, map_eq_pure_bind]
  exact KernelM.within_bind hx fun a k' => KernelM.within_pure _

theorem within_get_bind {f : Kernel φ η χ ω → TrapM φ η χ ω β} (h : Within R k (f k)) :
    Within R k (Kernel.lift get >>= f) := by
  intro b k' events hr
  rw [TrapM.run_get_bind] at hr
  exact h hr

/-- What comes after an answer knows the answer. -/
theorem within_ofChecked_bind {x : Checked α} {f : α → TrapM φ η χ ω β}
    (h : ∀ a, x = .ok a → Within R k (f a)) : Within R k (Kernel.lift (ofChecked x) >>= f) := by
  rw [Within, ExceptT.run_bind, Kernel.lift, ExceptT.run_lift, map_eq_pure_bind, bind_assoc]
  simp only [pure_bind]
  exact KernelM.within_ofChecked_bind h

theorem within_ofTrapChecked [Std.Refl R] (x : TrapChecked α) :
    Within R k (Kernel.ofTrapChecked x : TrapM φ η χ ω α) :=
  KernelM.within_ofChecked _

end TrapM

namespace Kernel

open KernelM

variable {R : Kernel φ η χ ω → Kernel φ η χ ω → Prop} {k : Kernel φ η χ ω}

/-! ## Looking things up -/

theorem within_knownProcess [Std.Refl R] (pid : Pid) : TrapM.Within R k (knownProcess pid) := by
  apply TrapM.within_get_bind
  split
  · exact TrapM.within_throw _
  · exact TrapM.within_pure _

/-- What comes after a process was looked up knows the process. -/
theorem within_knownProcess_bind [Std.Refl R] {α : Type} {pid : Pid}
    {f : UserProcess η → TrapM φ η χ ω α}
    (h : ∀ p, k.processes.get? pid = some p → TrapM.Within R k (f p)) :
    TrapM.Within R k (knownProcess pid >>= f) := by
  unfold knownProcess
  rw [bind_assoc]
  apply TrapM.within_get_bind
  cases hp : k.processes.get? pid with
  | none => exact TrapM.within_throw _
  | some p =>
    rw [pure_bind]
    exact h p hp

theorem within_runningMemory [Std.Refl R] (pid : Pid) : TrapM.Within R k (runningMemory pid) := by
  apply TrapM.within_get_bind
  split
  · exact TrapM.within_throw _
  · exact TrapM.within_pure _

/-- To read a call leaves the kernel as it is. -/
theorem within_decode [Std.Refl R] [IsTrans _ R] (pid : Pid) (sp : VirtAddr) :
    TrapM.Within R k (decode pid sp) :=
  TrapM.within_bind (within_runningMemory pid) fun _ _ =>
    TrapM.within_bind (TrapM.within_ofTrapChecked _) fun _ _ =>
      TrapM.within_bind (TrapM.within_lift (within_notice _)) fun _ _ =>
        TrapM.within_ofTrapChecked _

theorem within_fileOf? [Std.Refl R] [IsTrans _ R] (pid : Pid) (fd : Int32) :
    TrapM.Within R k (fileOf? pid fd) :=
  TrapM.within_bind (within_knownProcess pid) fun _ _ => TrapM.within_pure _

theorem within_isOpen [Std.Refl R] [IsTrans _ R] (pid : Pid) (console fd : Int32) :
    TrapM.Within R k (isOpen pid console fd) := by
  unfold isOpen
  split
  · exact TrapM.within_pure _
  · exact TrapM.within_bind (within_fileOf? pid fd) fun _ _ => TrapM.within_pure _

theorem within_bufferAt [Std.Refl R] (buffer : VirtAddr) (done : Nat) :
    TrapM.Within R k (bufferAt buffer done) := by
  unfold bufferAt
  split
  · exact TrapM.within_throw _
  · exact TrapM.within_pure _

/-! ## Devices, open files and memory -/

class Indifferent (R : Kernel φ η χ ω → Kernel φ η χ ω → Prop) : Prop extends
    Std.Refl R, IsTrans _ R where
  setDevices : ∀ k files console host, R k { k with files, console, host }

class AllowsStores (R : Kernel φ η χ ω → Kernel φ η χ ω → Prop) (pid : Pid) : Prop where
  setPool : ∀ k p va bytes answer pool, k.processes.get? pid = some p →
    (k.memoryOf p).copyOut va bytes = .ok (answer, pool) →
    R k { k with frames := { k.frames with pool } }

/-- The relation allows for what is done for a process: besides, its open files may change. -/
class Allows (R : Kernel φ η χ ω → Kernel φ η χ ω → Prop) (pid : Pid) : Prop extends
    AllowsStores R pid where
  setDescriptors : ∀ k (files : Descriptors η),
    R k { k with processes := k.processes.modify pid ({ · with files }) }

variable [Indifferent R]

theorem within_onDevices {α : Type} {x : KernelM φ η χ ω α} (hx : OnDevices x) :
    Within R k x := by
  intro a k' events h
  obtain ⟨_, files, console, host, _, htells, hrun⟩ := hx.run k
  cases hrun.symm.trans h
  exact ⟨Indifferent.setDevices k files console host, htells⟩

theorem within_lift_onDevices {α : Type} {x : KernelM φ η χ ω α} (hx : OnDevices x) :
    TrapM.Within R k (lift x) :=
  TrapM.within_lift (within_onDevices hx)

/-! ## Requests -/

theorem within_askFile (pid : Pid) (fd : Int32) {ask : η → KernelM φ η χ ω UInt32}
    (ha : ∀ handle, OnDevices (ask handle)) : TrapM.Within R k (askFile pid fd ask) := by
  refine TrapM.within_bind (within_fileOf? pid fd) fun handle k' => ?_
  split
  · exact TrapM.within_pure _
  · exact TrapM.within_bind (within_lift_onDevices (ha _)) fun _ _ => TrapM.within_pure _

section Requests

variable [FileSystem φ η]

def installFile (pid : Pid) : Option η → TrapM φ η χ ω Int32
  | none => return failed
  | some handle => do
    match (← lift get).processes.get? pid with
    | none =>
      lift (Files.close handle)
      throw (.noSuchProcess pid)
    | some p =>
      match p.files.install? handle with
      | some (fd, files) =>
        lift (setProcesses ((← lift get).processes.modify pid ({ · with files })))
        return fd
      | none =>
        lift (notice (.descriptorsExhausted pid))
        lift (Files.close handle)
        return failed

theorem openFile_eq (pid : Pid) (name : Scratch) :
    (openFile pid name : TrapM φ η χ ω Int32) = lift (openText name) >>= installFile pid := by
  unfold openFile openText
  cases name.text? with
  | none => rfl
  | some text => rfl

theorem within_openFile (pid : Pid) [Allows R pid] (name : Scratch) :
    TrapM.Within R k (openFile pid name) := by
  rw [openFile_eq]
  refine TrapM.within_bind (within_lift_onDevices (onDevices_openText name)) fun handle k' => ?_
  cases handle with
  | none => exact TrapM.within_pure _
  | some handle =>
    apply TrapM.within_get_bind
    split
    · exact TrapM.within_bind (within_lift_onDevices (onDevices_close _)) fun _ _ =>
        TrapM.within_throw _
    · split
      · apply TrapM.within_get_bind
        exact TrapM.within_bind
          (TrapM.within_lift (within_modify (Allows.setDescriptors k' _))) fun _ _ =>
            TrapM.within_pure _
      · exact TrapM.within_bind (TrapM.within_lift (within_notice _)) fun _ _ =>
          TrapM.within_bind (within_lift_onDevices (onDevices_close _)) fun _ _ =>
            TrapM.within_pure _

theorem within_seekFile (pid : Pid) (fd : Int32) (position : UInt32) :
    TrapM.Within R k (seekFile pid fd position) := by
  refine TrapM.within_bind (within_fileOf? pid fd) fun handle k' => ?_
  split
  · exact TrapM.within_pure _
  · exact within_lift_onDevices (onDevices_seek _ _)

theorem within_closeFile (pid : Pid) [Allows R pid] (fd : Int32) :
    Within R k (closeFile pid fd) := by
  apply within_get_bind
  split
  · exact within_notice _
  · exact within_bind (within_modify (Allows.setDescriptors k _)) fun _ _ =>
      within_onDevices (onDevices_close _)

end Requests

/-! ## Data -/

theorem within_copyOut (pid : Pid) [AllowsStores R pid] (va : VirtAddr) (bytes : Bytes) :
    TrapM.Within R k (copyOut pid va bytes) := by
  unfold copyOut
  split
  · exact TrapM.within_pure _
  · apply within_knownProcess_bind
    intro p hp
    apply TrapM.within_get_bind
    apply TrapM.within_ofChecked_bind
    intro answer hanswer
    exact TrapM.within_bind
      (TrapM.within_lift (within_modify (AllowsStores.setPool k p va bytes _ _ hp hanswer)))
      fun _ _ => TrapM.within_ofTrapChecked _

section Transfers

variable [FileSystem φ η] [Console χ]

theorem within_putChunk (pid : Pid) (fd : Int32) (chunk : Bytes) :
    TrapM.Within R k (putChunk pid fd chunk) := by
  unfold putChunk
  split
  · exact TrapM.within_bind (within_lift_onDevices (onDevices_put _)) fun _ _ =>
      TrapM.within_pure _
  · refine TrapM.within_bind (within_fileOf? pid fd) fun handle k' => ?_
    split
    · exact TrapM.within_pure _
    · exact within_lift_onDevices (onDevices_write _ _)

theorem within_writeChunks (pid : Pid) (fd : Int32) (buffer : VirtAddr) (length done : Nat)
    (scratch : Bytes) : TrapM.Within R k (writeChunks pid fd buffer length done scratch) := by
  induction hn : length - done using Nat.strongRecOn generalizing done scratch k with
  | ind n ih =>
    rw [writeChunks]
    split
    · rename_i hlt
      have hpos := chunkSize_pos
      refine TrapM.within_bind (within_bufferAt buffer done) fun va _ => ?_
      refine TrapM.within_bind (within_runningMemory pid) fun m _ => ?_
      refine TrapM.within_bind (TrapM.within_lift (within_ofChecked _)) fun room _ => ?_
      refine TrapM.within_bind (TrapM.within_lift (within_ofChecked _)) fun filled _ => ?_
      refine TrapM.within_bind (TrapM.within_ofTrapChecked _) fun _ _ => ?_
      refine TrapM.within_bind (within_putChunk pid fd _) fun taken _ => ?_
      split
      · exact TrapM.within_pure _
      · rename_i htaken
        refine TrapM.within_bind (TrapM.within_lift (within_ofChecked _)) fun scratch _ => ?_
        exact ih _ (by omega) _ _ rfl
    · exact TrapM.within_pure _

theorem within_write (pid : Pid) (fd : Int32) (buffer : VirtAddr) (length : Nat) :
    TrapM.Within R k (write pid fd buffer length) := by
  unfold write
  split
  · exact TrapM.within_pure _
  · refine TrapM.within_bind (within_isOpen pid consoleOutput fd) fun _ _ => ?_
    split
    · exact TrapM.within_bind (within_writeChunks pid fd buffer length 0 _) fun _ _ =>
        TrapM.within_pure _
    · exact TrapM.within_pure _

omit [FileSystem φ η] in
theorem within_fill (count : Nat) (chunk : Bytes) (got : Nat) :
    Within R k (Terminal.fill count chunk got) := by
  induction hn : count - got using Nat.strongRecOn generalizing chunk got k with
  | ind n ih =>
    rw [Terminal.fill]
    split
    · refine within_bind (within_onDevices onDevices_getByte) fun byte _ => ?_
      cases byte with
      | none => exact within_pure _
      | some byte => exact within_bind (within_ofChecked _) fun _ _ => ih _ (by omega) _ _ rfl
    · exact within_pure _

theorem within_takeChunk (pid : Pid) (fd : Int32) (count : Nat) (chunk : Bytes) :
    TrapM.Within R k (takeChunk pid fd count chunk) := by
  unfold takeChunk
  split
  · exact TrapM.within_lift (within_fill count chunk 0)
  · refine TrapM.within_bind (within_fileOf? pid fd) fun handle k' => ?_
    split
    · exact TrapM.within_pure _
    · exact within_lift_onDevices (onDevices_read _ _)

theorem within_readChunks (pid : Pid) [AllowsStores R pid] (fd : Int32) (buffer : VirtAddr)
    (length done : Nat) (scratch : Bytes) :
    TrapM.Within R k (readChunks pid fd buffer length done scratch) := by
  induction hn : length - done using Nat.strongRecOn generalizing done scratch k with
  | ind n ih =>
    rw [readChunks]
    split
    · rename_i hlt
      have hpos := chunkSize_pos
      refine TrapM.within_bind (TrapM.within_lift (within_ofChecked _)) fun room _ => ?_
      refine TrapM.within_bind (within_takeChunk pid fd _ room) fun filled _ => ?_
      refine TrapM.within_bind (TrapM.within_lift (within_ofChecked _)) fun scratch _ => ?_
      refine TrapM.within_bind (within_bufferAt buffer done) fun va _ => ?_
      refine TrapM.within_bind (TrapM.within_lift (within_ofChecked _)) fun piece _ => ?_
      refine TrapM.within_bind (within_copyOut pid va piece) fun _ _ => ?_
      split
      · exact TrapM.within_pure _
      · exact ih _ (by omega) _ _ rfl
    · exact TrapM.within_pure _

theorem within_read (pid : Pid) [AllowsStores R pid] (fd : Int32) (buffer : VirtAddr)
    (length : Nat) : TrapM.Within R k (read pid fd buffer length) := by
  unfold read
  split
  · exact TrapM.within_pure _
  · refine TrapM.within_bind (within_isOpen pid consoleInput fd) fun _ _ => ?_
    split
    · exact TrapM.within_bind (within_readChunks pid fd buffer length 0 _) fun _ _ =>
        TrapM.within_pure _
    · exact TrapM.within_pure _

end Transfers

/-- To carry out a request. -/
theorem within_dispatch [FileSystem φ η] [Console χ] [Host ω] (pid : Pid) [Allows R pid]
    (request : Request) : TrapM.Within R k (dispatch pid request) := by
  cases request with
  | halt => exact TrapM.within_pure _
  | exit status => exact TrapM.within_pure _
  | exec command =>
    exact TrapM.within_bind (within_lift_onDevices (onDevices_execute pid command)) fun _ _ =>
      TrapM.within_pure _
  | wait child =>
    exact TrapM.within_bind (within_lift_onDevices (onDevices_wait pid child)) fun _ _ =>
      TrapM.within_pure _
  | create name size =>
    simp only [dispatch]
    split
    · exact TrapM.within_pure _
    · exact TrapM.within_bind (within_lift_onDevices (onDevices_create _ _)) fun _ _ =>
        TrapM.within_pure _
  | remove name =>
    simp only [dispatch]
    split
    · exact TrapM.within_pure _
    · exact TrapM.within_bind (within_lift_onDevices (onDevices_remove _)) fun _ _ =>
        TrapM.within_pure _
  | «open» name =>
    exact TrapM.within_bind (within_openFile pid name) fun _ _ => TrapM.within_pure _
  | filesize fd =>
    exact TrapM.within_bind (within_askFile pid fd onDevices_length) fun _ _ =>
      TrapM.within_pure _
  | read fd buffer length =>
    exact TrapM.within_bind (within_read pid fd buffer length) fun _ _ => TrapM.within_pure _
  | write fd buffer length =>
    exact TrapM.within_bind (within_write pid fd buffer length) fun _ _ => TrapM.within_pure _
  | seek fd position =>
    exact TrapM.within_bind (within_seekFile pid fd position) fun _ _ => TrapM.within_pure _
  | tell fd =>
    exact TrapM.within_bind (within_askFile pid fd onDevices_tell) fun _ _ =>
      TrapM.within_pure _
  | close fd =>
    exact TrapM.within_bind (TrapM.within_lift (within_closeFile pid fd)) fun _ _ =>
      TrapM.within_pure _
  | mmap fd address => exact within_lift_onDevices (onDevices_unsupported _ _)
  | munmap mapping => exact within_lift_onDevices (onDevices_unsupported _ _)
  | chdir dir =>
    exact TrapM.within_bind (TrapM.within_lift (within_notice _)) fun _ _ => TrapM.within_pure _
  | mkdir dir =>
    exact TrapM.within_bind (TrapM.within_lift (within_notice _)) fun _ _ => TrapM.within_pure _
  | readdir fd name => exact within_lift_onDevices (onDevices_unsupported _ _)
  | isdir fd => exact within_lift_onDevices (onDevices_unsupported _ _)
  | inumber fd => exact within_lift_onDevices (onDevices_unsupported _ _)

/-! ## Traps -/

/-- To kill a process is to end it, after a notice. -/
theorem kill_cases [FileSystem φ η] [Host ω] {pid : Pid} {error : TrapError}
    {registers registers' : Registers} {verdict : Verdict} {k' : Kernel φ η χ ω}
    {events : List (Event η)}
    (h : (do return (← kill pid error, registers)).run k =
      .ok ((verdict, registers'), k', events)) :
    ∃ before after, TellsNoExit before ∧ events = before ++ after ∧
      (terminate pid killedStatus).run k = .ok (verdict, k', after) := by
  obtain ⟨_, middle, _, _, hkill, hret, rfl⟩ := run_bind_eq_ok.mp h
  cases hret
  obtain ⟨_, _, before, after, hnotice, hterm, rfl⟩ := run_bind_eq_ok.mp hkill
  cases hnotice
  exact ⟨_, after, fun _ => rfl, List.append_nil _, hterm⟩

section Traps

variable [FileSystem φ η] [Console χ] [Host ω]

/-- What a trap comes to: either what was done for the process stays within the relation and the
process goes on, or the process ends at last. Nothing but that end is told to the host as an exit.
-/
theorem trap_cases (pid : Pid) [Allows R pid] {registers registers' : Registers}
    {verdict : Verdict} {k' : Kernel φ η χ ω} {events : List (Event η)}
    (h : (trap pid registers).run k = .ok ((verdict, registers'), k', events)) :
    (verdict = .resume ∨ verdict = .halt) ∧ R k k' ∧ TellsNoExit events ∨
      ∃ middle status before after, R k middle ∧ TellsNoExit before ∧ events = before ++ after ∧
        (terminate pid status).run middle = .ok (verdict, k', after) := by
  obtain ⟨decoded, k₁, before₁, after, hdecode, h₁, rfl⟩ := run_bind_eq_ok.mp h
  obtain ⟨rfl, htells⟩ : k = k₁ ∧ TellsNoExit before₁ :=
    within_decode pid registers.stackPointer hdecode
  cases decoded with
  | error error =>
    obtain ⟨before, after, hbefore, rfl, hterm⟩ := kill_cases h₁
    exact .inr ⟨k, _, before₁ ++ before, after, refl_of R k, htells.append hbefore,
      (List.append_assoc ..).symm, hterm⟩
  | ok request =>
    obtain ⟨_, k₂, _, after', hnotice, h₂, rfl⟩ := run_bind_eq_ok.mp h₁
    cases hnotice
    obtain ⟨reply, k₃, before₂, after₂, hdispatch, h₃, rfl⟩ := run_bind_eq_ok.mp h₂
    obtain ⟨hR, htells'⟩ : R k k₃ ∧ TellsNoExit before₂ := within_dispatch pid request hdispatch
    have htold : TellsNoExit (before₁ ++ [.notice (.requested pid request)] ++ before₂) :=
      (htells.append fun _ => rfl).append htells'
    simp only [← List.append_assoc]
    cases reply with
    | error error =>
      obtain ⟨before, after, hbefore, rfl, hterm⟩ := kill_cases h₃
      exact .inr ⟨k₃, _, _, after, hR, htold.append hbefore, (List.append_assoc ..).symm, hterm⟩
    | ok reply =>
      cases reply with
      | value n =>
        cases h₃
        exact .inl ⟨.inl rfl, hR, htold.append tellsNoExit_nil⟩
      | nothing =>
        cases h₃
        exact .inl ⟨.inl rfl, hR, htold.append tellsNoExit_nil⟩
      | exit status =>
        obtain ⟨_, k₄, _, _, hterm, hret, rfl⟩ := run_bind_eq_ok.mp h₃
        cases hret
        exact .inr ⟨k₃, status, _, _, hR, htold, by rw [List.append_nil], hterm⟩
      | halt =>
        obtain ⟨_, _, _, _, hnotice, h₄, rfl⟩ := run_bind_eq_ok.mp h₃
        cases hnotice
        obtain ⟨_, k₅, _, _, hoff, hret, rfl⟩ := run_bind_eq_ok.mp h₄
        cases hret
        obtain ⟨hR', htells''⟩ : R k₃ k' ∧ TellsNoExit _ := within_onDevices onDevices_powerOff hoff
        exact .inl ⟨.inr rfl, trans_of R hR hR',
          htold.append (TellsNoExit.append (fun _ => rfl) (htells''.append tellsNoExit_nil))⟩

end Traps

end Kernel

end TeachingKernel
