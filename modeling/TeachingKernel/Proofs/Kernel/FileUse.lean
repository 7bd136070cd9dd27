import TeachingKernel.Proofs.Kernel.Exits
import TeachingKernel.Proofs.Kernel.OpenFiles

/-!
# Work on open files

Most of what the kernel does leaves the open files alone. What it asks of the file system then
concerns one handle at most: the one that the process has under the descriptor that it named. This
is shown piece by piece, down to the loops that read and write.
-/

namespace TeachingKernel

variable {φ η χ ω α β : Type} {D : OpenFiles η} {P : DeviceUse η → Prop}

/-- The handle on which a request works: the one that the process has under the descriptor. -/
def Request.target (D : OpenFiles η) (pid : Pid) : Request → Option η
  | .filesize fd | .read fd _ _ | .write fd _ _ | .seek fd _ | .tell fd => D.held pid fd
  | _ => none

namespace KernelM

/-- Whenever these are the open files they are left as they are, and the devices are used in no
other way than this. -/
def Works (D : OpenFiles η) (P : DeviceUse η → Prop) (x : KernelM φ η χ ω α) : Prop :=
  ∀ ⦃k a k' events⦄, k.openFiles = D → x.run k = .ok (a, k', events) →
    k'.openFiles = D ∧ ∀ use ∈ deviceUses events, P use

theorem works_bind {x : KernelM φ η χ ω α} {f : α → KernelM φ η χ ω β} (hx : Works D P x)
    (hf : ∀ a, Works D P (f a)) : Works D P (x >>= f) := by
  intro k b k' events hk h
  obtain ⟨a, middle, before, after, h₁, h₂, rfl⟩ := run_bind_eq_ok.mp h
  obtain ⟨hmiddle, hbefore⟩ := hx hk h₁
  obtain ⟨hk', hafter⟩ := hf a hmiddle h₂
  rw [deviceUses_append]
  exact ⟨hk', List.forall_mem_append.mpr ⟨hbefore, hafter⟩⟩

/-- A step without a use of a device. -/
theorem works_of_no_use {x : KernelM φ η χ ω α}
    (h : ∀ {k a k' events}, k.openFiles = D → x.run k = .ok (a, k', events) →
      k'.openFiles = D ∧ deviceUses events = []) : Works D P x := by
  intro k a k' events hk hrun
  obtain ⟨hk', huses⟩ := h hk hrun
  exact ⟨hk', by simp [huses]⟩

theorem works_pure (a : α) : Works D P (pure a : KernelM φ η χ ω α) := by
  apply works_of_no_use
  rintro k _ _ _ hk ⟨⟩
  exact ⟨hk, rfl⟩

theorem works_notices (ns : List Notice) : Works D P (notices ns : KernelM φ η χ ω Unit) := by
  apply works_of_no_use
  rintro k _ _ _ hk ⟨⟩
  exact ⟨hk, deviceUses_notices ns⟩

theorem works_notice (n : Notice) : Works D P (notice n : KernelM φ η χ ω Unit) :=
  works_notices [n]

theorem works_modify {f : Kernel φ η χ ω → Kernel φ η χ ω}
    (hf : ∀ k, k.openFiles = D → (f k).openFiles = D) : Works D P (modify f) := by
  apply works_of_no_use
  rintro k _ _ _ hk ⟨⟩
  exact ⟨hf k hk, rfl⟩

/-- What comes after a look at the kernel knows its open files. -/
theorem works_get_bind {f : Kernel φ η χ ω → KernelM φ η χ ω β}
    (hf : ∀ k, k.openFiles = D → Works D P (f k)) : Works D P (get >>= f) := by
  intro k b k' events hk h
  rw [run_get_bind] at h
  exact hf k hk hk h

theorem works_ofChecked (x : Checked α) : Works D P (ofChecked x : KernelM φ η χ ω α) := by
  cases x with
  | error d => exact fun _ _ _ _ _ h => nomatch h
  | ok a => exact works_pure a

/-- One use of a device. -/
theorem works_of_use {x : KernelM φ η χ ω α} (hx : ∀ k, ∃ a files console host use,
    x.run k = .ok (a, { k with files, console, host }, [.device use]) ∧ P use) : Works D P x := by
  intro k a k' events hk h
  obtain ⟨_, _, _, _, use, hrun, huse⟩ := hx k
  cases hrun.symm.trans h
  exact ⟨hk, by simpa using huse⟩

variable {target : Option η} {handle : η}

/-- One use of a handle. -/
theorem works_of_use_on {x : KernelM φ η χ ω α} (h : target = some handle)
    (hx : ∀ k, ∃ a files console host use,
      x.run k = .ok (a, { k with files, console, host }, [.device use]) ∧
        use.passage? = none ∧ use.worksOn? = some handle) : Works D (·.WorksOn target) x := by
  apply works_of_use
  intro k
  obtain ⟨a, files, console, host, use, hrun, hp, hw⟩ := hx k
  exact ⟨a, files, console, host, use, hrun, DeviceUse.worksOn_of_eq_some hp hw h⟩

/-- One use of a device without a handle. -/
theorem works_of_use_elsewhere {x : KernelM φ η χ ω α}
    (hx : ∀ k, ∃ a files console host use,
      x.run k = .ok (a, { k with files, console, host }, [.device use]) ∧
        use.passage? = none ∧ use.worksOn? = none) : Works D (·.WorksOn target) x := by
  apply works_of_use
  intro k
  obtain ⟨a, files, console, host, use, hrun, hp, hw⟩ := hx k
  exact ⟨a, files, console, host, use, hrun, DeviceUse.worksOn_of_eq_none hp hw⟩

end KernelM

namespace TrapM

open KernelM

def Works (D : OpenFiles η) (P : DeviceUse η → Prop) (x : TrapM φ η χ ω α) : Prop :=
  KernelM.Works D P x.run

theorem works_bind {x : TrapM φ η χ ω α} {f : α → TrapM φ η χ ω β} (hx : Works D P x)
    (hf : ∀ a, Works D P (f a)) : Works D P (x >>= f) := by
  rw [Works, ExceptT.run_bind]
  apply KernelM.works_bind hx
  intro answer
  cases answer with
  | error e => exact KernelM.works_pure _
  | ok a => exact hf a

theorem works_pure (a : α) : Works D P (pure a : TrapM φ η χ ω α) := KernelM.works_pure _

theorem works_throw (e : TrapError) : Works D P (throw e : TrapM φ η χ ω α) :=
  KernelM.works_pure _

theorem works_lift {x : KernelM φ η χ ω α} (hx : KernelM.Works D P x) :
    Works D P (Kernel.lift x) := by
  rw [Works, Kernel.lift, ExceptT.run_lift, map_eq_pure_bind]
  exact KernelM.works_bind hx fun a => KernelM.works_pure _

theorem works_get_bind {f : Kernel φ η χ ω → TrapM φ η χ ω β}
    (hf : ∀ k, k.openFiles = D → Works D P (f k)) : Works D P (Kernel.lift get >>= f) := by
  intro k b k' events hk h
  rw [TrapM.run_get_bind] at h
  exact hf k hk hk h

theorem works_ofChecked (x : Checked α) :
    Works D P (Kernel.lift (ofChecked x) : TrapM φ η χ ω α) :=
  works_lift (KernelM.works_ofChecked x)

theorem works_ofTrapChecked (x : TrapChecked α) :
    Works D P (Kernel.ofTrapChecked x : TrapM φ η χ ω α) :=
  KernelM.works_ofChecked _

end TrapM

namespace Kernel

open KernelM

variable {pid : Pid}

/-! ## Looking things up -/

theorem works_knownProcess_bind {f : UserProcess η → TrapM φ η χ ω α}
    (hf : ∀ p, D pid = some p.files → TrapM.Works D P (f p)) :
    TrapM.Works D P (knownProcess pid >>= f) := by
  unfold knownProcess
  rw [bind_assoc]
  apply TrapM.works_get_bind
  intro k hk
  cases hp : k.processes.get? pid with
  | none => exact TrapM.works_throw _
  | some p =>
    rw [pure_bind]
    exact hf p (hk ▸ Processes.openFiles_of_get? hp)

theorem works_runningMemory (pid : Pid) :
    TrapM.Works D P (runningMemory pid : TrapM φ η χ ω UserMemory) := by
  apply TrapM.works_get_bind
  intro k _
  split
  · exact TrapM.works_throw _
  · exact TrapM.works_pure _

/-- What comes after a look at the file under a descriptor knows its handle. -/
theorem works_fileOf?_bind {fd : Int32} {f : Option η → TrapM φ η χ ω α}
    (hf : TrapM.Works D P (f (D.held pid fd))) :
    TrapM.Works D P (fileOf? pid fd >>= f) := by
  unfold fileOf?
  rw [bind_assoc]
  apply works_knownProcess_bind
  intro p hp
  rw [pure_bind, ← OpenFiles.held_of_eq_some hp]
  exact hf

theorem works_isOpen (pid : Pid) (console fd : Int32) :
    TrapM.Works D P (isOpen pid console fd : TrapM φ η χ ω Bool) := by
  unfold isOpen
  split
  · exact TrapM.works_pure _
  · exact works_fileOf?_bind (TrapM.works_pure _)

theorem works_bufferAt (buffer : VirtAddr) (done : Nat) :
    TrapM.Works D P (bufferAt buffer done : TrapM φ η χ ω VirtAddr) := by
  unfold bufferAt
  split
  · exact TrapM.works_throw _
  · exact TrapM.works_pure _

theorem works_setPool (pool : PagePool) :
    Works D P (setPool pool : KernelM φ η χ ω Unit) := works_modify fun _ => id

theorem works_setFrames (frames : FrameLedger) :
    Works D P (setFrames frames : KernelM φ η χ ω Unit) := works_modify fun _ => id

theorem works_copyOut (pid : Pid) (va : VirtAddr) (bytes : Bytes) :
    TrapM.Works D P (copyOut pid va bytes : TrapM φ η χ ω Unit) := by
  unfold copyOut
  split
  · exact TrapM.works_pure _
  · apply works_knownProcess_bind
    intro p _
    apply TrapM.works_get_bind
    intro k _
    refine TrapM.works_bind (TrapM.works_ofChecked _) fun answer => ?_
    exact TrapM.works_bind (TrapM.works_lift (works_setPool _)) fun _ =>
      TrapM.works_ofTrapChecked _

/-! ## Console and host -/

variable {target : Option η}

section Console

variable [Console χ]

theorem works_put (bytes : Bytes) :
    Works D (·.WorksOn target) (Terminal.put bytes : KernelM φ η χ ω Unit) :=
  works_of_use_elsewhere fun _ => ⟨_, _, _, _, _, rfl, rfl, rfl⟩

theorem works_fill (count : Nat) (chunk : Bytes) (got : Nat) :
    Works D (·.WorksOn target)
      (Terminal.fill count chunk got : KernelM φ η χ ω (Bytes × Nat)) := by
  induction hn : count - got using Nat.strongRecOn generalizing chunk got with
  | ind n ih =>
    rw [Terminal.fill]
    split
    · have hbyte : Works D (·.WorksOn target)
          (Terminal.getByte : KernelM φ η χ ω (Option UInt8)) :=
        works_of_use_elsewhere fun _ => ⟨_, _, _, _, _, rfl, rfl, rfl⟩
      refine works_bind hbyte fun byte => ?_
      cases byte with
      | none => exact works_pure _
      | some byte => exact works_bind (works_ofChecked _) fun _ => ih _ (by omega) _ _ rfl
    · exact works_pure _

end Console

section Host

variable [Host ω]

theorem works_wait (parent child : Pid) :
    Works D (·.WorksOn target) (Scheduler.wait parent child : KernelM φ η χ ω Int32) :=
  works_of_use_elsewhere fun _ => ⟨_, _, _, _, _, rfl, rfl, rfl⟩

theorem works_execute (pid : Pid) (command : Scratch) :
    Works D (·.WorksOn target) (execute pid command : KernelM φ η χ ω Int32) := by
  rw [execute_eq]
  refine works_bind ?_ fun child => ?_
  · split
    · exact works_pure _
    · exact works_of_use_elsewhere fun _ => ⟨_, _, _, _, _, rfl, rfl, rfl⟩
  · cases child with
    | none => exact works_pure _
    | some child =>
      have hwait : Works D (·.WorksOn target)
          (Scheduler.waitLoaded child : KernelM φ η χ ω Bool) :=
        works_of_use_elsewhere fun _ => ⟨_, _, _, _, _, rfl, rfl, rfl⟩
      refine works_bind hwait fun loaded => ?_
      split
      · exact works_pure _
      · exact works_bind (works_notice _) fun _ => works_pure _

end Host

theorem works_unsupported (request : Request) (reply : Reply) :
    Works D P (unsupported request reply : KernelM φ η χ ω Reply) :=
  works_bind (works_notice _) fun _ => works_bind (works_notice _) fun _ => works_pure _

/-! ## Files -/

theorem works_askFile {fd : Int32} {ask : η → KernelM φ η χ ω UInt32}
    (ha : ∀ handle, D.held pid fd = some handle → Works D P (ask handle)) :
    TrapM.Works D P (askFile pid fd ask) := by
  apply works_fileOf?_bind
  cases hheld : D.held pid fd with
  | none => exact TrapM.works_pure _
  | some handle =>
    exact TrapM.works_bind (TrapM.works_lift (ha handle hheld)) fun _ => TrapM.works_pure _

section Files

variable [FileSystem φ η] {handle : η}

theorem works_create (name : String) (size : UInt32) :
    Works D (·.WorksOn target) (Files.create name size : KernelM φ η χ ω Bool) :=
  works_of_use_elsewhere fun _ => ⟨_, _, _, _, _, rfl, rfl, rfl⟩

theorem works_remove (name : String) :
    Works D (·.WorksOn target) (Files.remove name : KernelM φ η χ ω Bool) :=
  works_of_use_elsewhere fun _ => ⟨_, _, _, _, _, rfl, rfl, rfl⟩

theorem works_length (h : target = some handle) :
    Works D (·.WorksOn target) (Files.length handle : KernelM φ η χ ω UInt32) :=
  works_of_use_on h fun _ => ⟨_, _, _, _, _, rfl, rfl, rfl⟩

theorem works_tell (h : target = some handle) :
    Works D (·.WorksOn target) (Files.tell handle : KernelM φ η χ ω UInt32) :=
  works_of_use_on h fun _ => ⟨_, _, _, _, _, rfl, rfl, rfl⟩

theorem works_readHandle (h : target = some handle) (buffer : Bytes) :
    Works D (·.WorksOn target) (Files.read handle buffer : KernelM φ η χ ω (Bytes × Nat)) :=
  works_of_use_on h fun _ => ⟨_, _, _, _, _, rfl, rfl, rfl⟩

theorem works_writeHandle (h : target = some handle) (bytes : Bytes) :
    Works D (·.WorksOn target) (Files.write handle bytes : KernelM φ η χ ω Nat) :=
  works_of_use_on h fun _ => ⟨_, _, _, _, _, rfl, rfl, rfl⟩

theorem works_seekFile (pid : Pid) (fd : Int32) (position : UInt32) :
    TrapM.Works D (·.WorksOn (D.held pid fd)) (seekFile pid fd position : TrapM φ η χ ω Unit) := by
  apply works_fileOf?_bind
  cases hheld : D.held pid fd with
  | none => exact TrapM.works_pure _
  | some handle =>
    exact TrapM.works_lift (works_of_use_on rfl fun _ => ⟨_, _, _, _, _, rfl, rfl, rfl⟩)

variable [Console χ]

theorem works_putChunk (pid : Pid) (fd : Int32) (chunk : Bytes) :
    TrapM.Works D (·.WorksOn (D.held pid fd)) (putChunk pid fd chunk : TrapM φ η χ ω Nat) := by
  unfold putChunk
  split
  · exact TrapM.works_bind (TrapM.works_lift (works_put _)) fun _ => TrapM.works_pure _
  · apply works_fileOf?_bind
    cases hheld : D.held pid fd with
    | none => exact TrapM.works_pure _
    | some handle => exact TrapM.works_lift (works_writeHandle rfl chunk)

theorem works_writeChunks (pid : Pid) (fd : Int32) (buffer : VirtAddr) (length done : Nat)
    (scratch : Bytes) :
    TrapM.Works D (·.WorksOn (D.held pid fd))
      (writeChunks pid fd buffer length done scratch : TrapM φ η χ ω Nat) := by
  induction hn : length - done using Nat.strongRecOn generalizing done scratch with
  | ind n ih =>
    rw [writeChunks]
    split
    · rename_i hlt
      have hpos := chunkSize_pos
      refine TrapM.works_bind (works_bufferAt buffer done) fun va => ?_
      refine TrapM.works_bind (works_runningMemory pid) fun m => ?_
      refine TrapM.works_bind (TrapM.works_ofChecked _) fun room => ?_
      refine TrapM.works_bind (TrapM.works_ofChecked _) fun filled => ?_
      refine TrapM.works_bind (TrapM.works_ofTrapChecked _) fun _ => ?_
      refine TrapM.works_bind (works_putChunk pid fd _) fun taken => ?_
      split
      · exact TrapM.works_pure _
      · rename_i htaken
        refine TrapM.works_bind (TrapM.works_ofChecked _) fun scratch => ?_
        exact ih _ (by omega) _ _ rfl
    · exact TrapM.works_pure _

theorem works_write (pid : Pid) (fd : Int32) (buffer : VirtAddr) (length : Nat) :
    TrapM.Works D (·.WorksOn (D.held pid fd))
      (write pid fd buffer length : TrapM φ η χ ω Int32) := by
  unfold write
  split
  · exact TrapM.works_pure _
  · refine TrapM.works_bind (works_isOpen pid consoleOutput fd) fun _ => ?_
    split
    · exact TrapM.works_bind (works_writeChunks pid fd buffer length 0 _) fun _ =>
        TrapM.works_pure _
    · exact TrapM.works_pure _

theorem works_takeChunk (pid : Pid) (fd : Int32) (count : Nat) (chunk : Bytes) :
    TrapM.Works D (·.WorksOn (D.held pid fd))
      (takeChunk pid fd count chunk : TrapM φ η χ ω (Bytes × Nat)) := by
  unfold takeChunk
  split
  · exact TrapM.works_lift (works_fill count chunk 0)
  · apply works_fileOf?_bind
    cases hheld : D.held pid fd with
    | none => exact TrapM.works_pure _
    | some handle => exact TrapM.works_lift (works_readHandle rfl chunk)

theorem works_readChunks (pid : Pid) (fd : Int32) (buffer : VirtAddr) (length done : Nat)
    (scratch : Bytes) :
    TrapM.Works D (·.WorksOn (D.held pid fd))
      (readChunks pid fd buffer length done scratch : TrapM φ η χ ω Nat) := by
  induction hn : length - done using Nat.strongRecOn generalizing done scratch with
  | ind n ih =>
    rw [readChunks]
    split
    · rename_i hlt
      have hpos := chunkSize_pos
      refine TrapM.works_bind (TrapM.works_ofChecked _) fun room => ?_
      refine TrapM.works_bind (works_takeChunk pid fd _ room) fun filled => ?_
      refine TrapM.works_bind (TrapM.works_ofChecked _) fun scratch => ?_
      refine TrapM.works_bind (works_bufferAt buffer done) fun va => ?_
      refine TrapM.works_bind (TrapM.works_ofChecked _) fun piece => ?_
      refine TrapM.works_bind (works_copyOut pid va piece) fun _ => ?_
      split
      · exact TrapM.works_pure _
      · exact ih _ (by omega) _ _ rfl
    · exact TrapM.works_pure _

theorem works_read (pid : Pid) (fd : Int32) (buffer : VirtAddr) (length : Nat) :
    TrapM.Works D (·.WorksOn (D.held pid fd))
      (read pid fd buffer length : TrapM φ η χ ω Int32) := by
  unfold read
  split
  · exact TrapM.works_pure _
  · refine TrapM.works_bind (works_isOpen pid consoleInput fd) fun _ => ?_
    split
    · exact TrapM.works_bind (works_readChunks pid fd buffer length 0 _) fun _ =>
        TrapM.works_pure _
    · exact TrapM.works_pure _

variable [Host ω]

/-- A request that neither opens nor closes a file works on the handle that the process has under
the descriptor, and on no other. -/
theorem works_dispatch (pid : Pid) {request : Request} (hopen : ∀ name, request ≠ .open name)
    (hclose : ∀ fd, request ≠ .close fd) :
    TrapM.Works D (·.WorksOn (request.target D pid))
      (dispatch pid request : TrapM φ η χ ω Reply) := by
  cases request with
  | halt => exact TrapM.works_pure _
  | exit status => exact TrapM.works_pure _
  | exec command =>
    exact TrapM.works_bind (TrapM.works_lift (works_execute pid command)) fun _ =>
      TrapM.works_pure _
  | wait child =>
    exact TrapM.works_bind (TrapM.works_lift (works_wait pid child)) fun _ => TrapM.works_pure _
  | create name size =>
    simp only [dispatch]
    split
    · exact TrapM.works_pure _
    · exact TrapM.works_bind (TrapM.works_lift (works_create _ size)) fun _ => TrapM.works_pure _
  | remove name =>
    simp only [dispatch]
    split
    · exact TrapM.works_pure _
    · exact TrapM.works_bind (TrapM.works_lift (works_remove _)) fun _ => TrapM.works_pure _
  | «open» name => exact absurd rfl (hopen name)
  | filesize fd =>
    exact TrapM.works_bind (works_askFile fun _ => works_length) fun _ => TrapM.works_pure _
  | read fd buffer length =>
    exact TrapM.works_bind (works_read pid fd buffer length) fun _ => TrapM.works_pure _
  | write fd buffer length =>
    exact TrapM.works_bind (works_write pid fd buffer length) fun _ => TrapM.works_pure _
  | seek fd position =>
    exact TrapM.works_bind (works_seekFile pid fd position) fun _ => TrapM.works_pure _
  | tell fd =>
    exact TrapM.works_bind (works_askFile fun _ => works_tell) fun _ => TrapM.works_pure _
  | close fd => exact absurd rfl (hclose fd)
  | mmap fd address => exact TrapM.works_lift (works_unsupported _ _)
  | munmap mapping => exact TrapM.works_lift (works_unsupported _ _)
  | chdir dir =>
    exact TrapM.works_bind (TrapM.works_lift (works_notice _)) fun _ => TrapM.works_pure _
  | mkdir dir =>
    exact TrapM.works_bind (TrapM.works_lift (works_notice _)) fun _ => TrapM.works_pure _
  | readdir fd name => exact TrapM.works_lift (works_unsupported _ _)
  | isdir fd => exact TrapM.works_lift (works_unsupported _ _)
  | inumber fd => exact TrapM.works_lift (works_unsupported _ _)

end Files

/-! ## Frames and pages -/

theorem works_releaseMapping (holder : Holder) (frame : PhysAddr) :
    Works D P (releaseMapping holder frame : KernelM φ η χ ω Release) := by
  apply works_get_bind
  intro k _
  refine works_bind (works_ofChecked _) fun answer => ?_
  exact works_bind (works_setFrames _) fun _ =>
    works_bind (works_notices _) fun _ => works_pure _

/-- What changes the page table of a process leaves its files alone. -/
theorem works_setTable {k : Kernel φ η χ ω} (hk : k.openFiles = D) (pid : Pid)
    (pageTable : PageTable) :
    Works D P (setProcesses (k.processes.modify pid ({ · with pageTable })) :
      KernelM φ η χ ω Unit) := by
  apply works_modify
  intro _ _
  rw [openFiles, Processes.openFiles_modify_of_files_eq]
  · exact hk
  · exact fun _ => rfl

theorem works_backPage (pid : Pid) (va : VirtAddr) (writable : Bool)
    (lent : Except FrameError PhysAddr) :
    Works D P (backPage pid va writable lent :
      KernelM φ η χ ω (Except KernelError PhysAddr)) := by
  cases lent with
  | error error => exact works_pure _
  | ok frame =>
    apply works_get_bind
    intro k hk
    cases k.processes.get? pid with
    | none => exact works_pure _
    | some p =>
      cases hm : p.pageTable.map va frame writable with
      | ok table =>
        simp only [hm]
        exact works_bind (works_setTable hk pid table) fun _ => works_pure _
      | error error =>
        simp only [hm]
        exact works_bind (works_releaseMapping _ _) fun _ => works_pure _

theorem works_unmapPage (pid : Pid) (va : VirtAddr) :
    Works D P (unmapPage pid va : KernelM φ η χ ω (Except KernelError Release)) := by
  apply works_get_bind
  intro k hk
  cases k.processes.get? pid with
  | none => exact works_pure _
  | some p =>
    cases hm : p.pageTable.unmap va with
    | error error =>
      simp only [hm]
      exact works_pure _
    | ok found =>
      simp only [hm]
      exact works_bind (works_setTable hk pid found.2) fun _ =>
        works_bind (works_releaseMapping _ _) fun _ => works_pure _

theorem works_copyTo (pid : Pid) (va : VirtAddr) (bytes : Bytes) :
    Works D P (copyTo pid va bytes : KernelM φ η χ ω (Except KernelError Unit)) := by
  apply works_get_bind
  intro k _
  cases k.processes.get? pid with
  | none => exact works_pure _
  | some p =>
    exact works_bind (works_ofChecked _) fun answer =>
      works_bind (works_setPool _) fun _ => works_pure _

theorem works_copyFrom (pid : Pid) (va : VirtAddr) (dst : Bytes) :
    Works D P (copyFrom pid va dst : KernelM φ η χ ω (Bytes × Except KernelError Unit)) := by
  apply works_get_bind
  intro k _
  cases k.processes.get? pid with
  | none => exact works_pure _
  | some p => exact works_bind (works_ofChecked _) fun _ => works_pure _

theorem works_touch (pid : Pid) (va : VirtAddr) (write : Bool) :
    Works D P (touch pid va write : KernelM φ η χ ω Unit) := by
  apply works_modify
  intro k hk
  rw [openFiles, Processes.openFiles_modify_of_files_eq]
  · exact hk
  · exact fun _ => rfl

theorem works_tick (ticks : Nat) : Works D P (tick ticks : KernelM φ η χ ω Unit) :=
  works_modify fun _ => id

/-- The open files are as they were, and no device was used. -/
def LeavesFiles (k k' : Kernel φ η χ ω) (events : List (Event η)) : Prop :=
  k'.openFiles = k.openFiles ∧ deviceUses events = []

theorem leavesFiles_of_works {k k' : Kernel φ η χ ω} {x : KernelM φ η χ ω α} {a : α}
    {events : List (Event η)} (hx : Works k.openFiles (fun _ => False) x)
    (hrun : x.run k = .ok (a, k', events)) : LeavesFiles k k' events := by
  obtain ⟨hk', huses⟩ := hx rfl hrun
  exact ⟨hk', List.eq_nil_iff_forall_not_mem.mpr huses⟩

/-- To lend a frame may take a mark from a process, but no file. -/
theorem leavesFiles_lendFrame {k k' : Kernel φ η χ ω} {es : List (Nat × Loan)} {holder : Holder}
    {answer : Except FrameError PhysAddr} {events : List (Event η)} (h : Coherent k es)
    (hrun : (lendFrame holder).run k = .ok (answer, k', events)) : LeavesFiles k k' events := by
  rcases h.keeps.lend holder k.processes with ⟨hl, _⟩ | ⟨_, _, _, _, _, hl, _⟩ |
    ⟨_, _, _, _, _, _, hpick, hl⟩
  all_goals
    cases (run_lendFrame hl).symm.trans hrun
    refine ⟨?_, deviceUses_notices _⟩
  · rfl
  · rfl
  · exact hpick.marks (fun ps => ps.openFiles = k.processes.openFiles)
      (fun ps holder hps => (ps.openFiles_clearAccessed holder).trans hps) rfl

theorem leavesFiles_mapPage {k k' : Kernel φ η χ ω} {es : List (Nat × Loan)} (h : Coherent k es)
    {pid : Pid} {va : VirtAddr} {writable : Bool} {answer : Except KernelError PhysAddr}
    {events : List (Event η)}
    (hrun : (mapPage pid va writable).run k = .ok (answer, k', events)) :
    LeavesFiles k k' events := by
  by_cases hp : k.processes.state? pid = some .running
  · rw [run_mapPage_of_running hp] at hrun
    obtain ⟨lent, middle, before, after, hlend, hback, rfl⟩ := run_bind_eq_ok.mp hrun
    obtain ⟨hmiddle, hbefore⟩ := leavesFiles_lendFrame h hlend
    obtain ⟨hk', hafter⟩ := leavesFiles_of_works (works_backPage pid va writable lent) hback
    exact ⟨hk'.trans hmiddle, by rw [deviceUses_append, hbefore, hafter]; rfl⟩
  · cases (run_mapPage_of_not_running hp).symm.trans hrun
    exact ⟨rfl, rfl⟩

/-- A new process has no files. -/
theorem openFiles_of_run_spawn {k k' : Kernel φ η χ ω} {es : List (Nat × Loan)} (h : Coherent k es)
    {name : String} {pid : Pid} {events : List (Event η)}
    (hrun : (spawn name).run k = .ok (pid, k', events)) :
    k.openFiles pid = none ∧
      k'.openFiles = Function.update k.openFiles pid (some .empty) ∧ deviceUses events = [] := by
  unfold spawn at hrun
  rw [run_get_bind] at hrun
  cases hs : k.processes.spawn name with
  | error d =>
    rw [hs] at hrun
    contradiction
  | ok found =>
    rw [hs] at hrun
    cases hrun
    refine ⟨?_, ?_, rfl⟩
    · rw [openFiles, Processes.openFiles, h.get?_next hs]
      rfl
    · funext q
      rw [openFiles, Processes.openFiles, (Processes.of_spawn_eq_ok hs).2.2,
        Function.update_apply]
      split
      · rfl
      · rfl

end Kernel

end TeachingKernel
