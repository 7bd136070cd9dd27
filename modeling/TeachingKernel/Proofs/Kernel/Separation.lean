import TeachingKernel.Proofs.Kernel.Parallel
import TeachingKernel.Proofs.Kernel.Serving

/-!
# A trap depends on its own process

What a trap does is decided by the devices and by what its process has. From two kernels that agree
on these it comes to the same, whatever else they hold and whichever frames they use.
-/

namespace TeachingKernel.Kernel

open KernelM FrameLedger

variable {φ η χ ω α : Type} {k k' : Kernel φ η χ ω} {pid : Pid}

/-! ## Requests -/

theorem parallel_decode (h : Twins pid k k') (sp : VirtAddr) :
    TrapM.Parallel (Twins pid) k k' (decode pid sp) (decode pid sp) := by
  refine parallel_runningMemory_bind h fun m m' hagree => ?_
  rw [hagree.readCall_eq]
  refine (TrapM.parallel_ofTrapChecked _ h).bind fun call k₁ k₁' h₁ => ?_
  refine (parallel_lift_onDevices (onDevices_notice _) h₁).bind fun _ k₂ k₂' h₂ => ?_
  rw [hagree.ofCall_eq]
  exact TrapM.parallel_ofTrapChecked _ h₂

theorem parallel_bufferAt (h : Twins pid k k') (buffer : VirtAddr) (done : Nat) :
    TrapM.Parallel (Twins pid) k k' (bufferAt buffer done) (bufferAt buffer done) := by
  unfold bufferAt
  split
  · exact TrapM.parallel_throw _ h
  · exact TrapM.parallel_pure _ h

theorem parallel_askFile (h : Twins pid k k') (fd : Int32) {ask : η → KernelM φ η χ ω UInt32}
    (ha : ∀ handle, OnDevices (ask handle)) :
    TrapM.Parallel (Twins pid) k k' (askFile pid fd ask) (askFile pid fd ask) := by
  refine (parallel_fileOf? h fd).bind fun handle k₁ k₁' h₁ => ?_
  cases handle with
  | none => exact TrapM.parallel_pure _ h₁
  | some handle =>
    exact (parallel_lift_onDevices (ha handle) h₁).bind fun _ _ _ h₂ => TrapM.parallel_pure _ h₂

section Files

variable [FileSystem φ η]

theorem parallel_openFile (h : Twins pid k k') (name : Scratch) :
    TrapM.Parallel (Twins pid) k k' (openFile pid name) (openFile pid name) := by
  rw [openFile_eq]
  refine (parallel_lift_onDevices (onDevices_openText name) h).bind fun handle k₁ k₁' h₁ => ?_
  cases handle with
  | none => exact TrapM.parallel_pure _ h₁
  | some handle =>
    apply TrapM.parallel_get_bind
    rcases h₁.cases with ⟨hp, hp'⟩ | ⟨p, p', hp, hp', _, hfiles, _⟩
    · rw [hp, hp']
      exact (parallel_lift_onDevices (onDevices_close handle) h₁).bind fun _ _ _ h₂ =>
        TrapM.parallel_throw _ h₂
    · simp only [hp, hp', hfiles]
      cases p'.files.install? handle with
      | none =>
        exact (parallel_lift_onDevices (onDevices_notice _) h₁).bind fun _ _ _ h₂ =>
          (parallel_lift_onDevices (onDevices_close handle) h₂).bind fun _ _ _ h₃ =>
            TrapM.parallel_pure _ h₃
      | some found =>
        obtain ⟨fd, files⟩ := found
        apply TrapM.parallel_get_bind
        have hset : KernelM.Parallel (Twins pid) k₁ k₁'
            (setProcesses (k₁.processes.modify pid ({ · with files })))
            (setProcesses (k₁'.processes.modify pid ({ · with files }))) :=
          parallel_of_leads (leads_modify _) (leads_modify _) (h₁.setDescriptors files)
        exact (TrapM.parallel_lift hset).bind fun _ _ _ h₂ => TrapM.parallel_pure _ h₂

theorem parallel_seekFile (h : Twins pid k k') (fd : Int32) (position : UInt32) :
    TrapM.Parallel (Twins pid) k k' (seekFile pid fd position) (seekFile pid fd position) := by
  refine (parallel_fileOf? h fd).bind fun handle k₁ k₁' h₁ => ?_
  cases handle with
  | none => exact TrapM.parallel_pure _ h₁
  | some handle => exact parallel_lift_onDevices (onDevices_seek handle position) h₁

theorem parallel_closeFile (h : Twins pid k k') (fd : Int32) :
    KernelM.Parallel (Twins pid) k k' (closeFile pid fd) (closeFile pid fd) := by
  have hsame : (k.processes.get? pid).bind (·.files.remove? fd) =
      (k'.processes.get? pid).bind (·.files.remove? fd) := by
    rcases h.cases with ⟨hp, hp'⟩ | ⟨p, p', hp, hp', _, hfiles, _⟩
    · rw [hp, hp']
    · rw [hp, hp', Option.bind_some, Option.bind_some, hfiles]
  apply parallel_get_bind
  rw [hsame]
  cases (k'.processes.get? pid).bind (·.files.remove? fd) with
  | none => exact parallel_onDevices (onDevices_notice _) h
  | some found =>
    obtain ⟨handle, files⟩ := found
    exact (parallel_of_leads (leads_modify _) (leads_modify _) (h.setDescriptors files)).bind
      fun _ _ _ h₁ => parallel_onDevices (onDevices_close handle) h₁

end Files

/-! ## Data -/

theorem parallel_copyOut (h : Twins pid k k') (va : VirtAddr) (bytes : Bytes) :
    TrapM.Parallel (Twins pid) k k' (copyOut pid va bytes) (copyOut pid va bytes) := by
  unfold copyOut
  split
  · exact TrapM.parallel_pure _ h
  · refine parallel_knownProcess_bind h fun p p' hp hp' _ hagree => ?_
    obtain ⟨_, hk, hs⟩ := h.orderly
    obtain ⟨_, hk', hs'⟩ := h.orderly'
    obtain ⟨answer, pool, pool', hrun, hrun'⟩ :=
      hagree.copyOut_cases (hk.separate hs hp) (hk'.separate hs' hp') va bytes
    apply TrapM.parallel_get_bind
    simp only [hrun, hrun', TrapM.lift_ofChecked_ok, pure_bind]
    have hset : KernelM.Parallel (Twins pid) k k' (setPool pool) (setPool pool') :=
      parallel_of_leads (leads_modify _) (leads_modify _) (h.setPool hp hp' hrun hrun')
    exact (TrapM.parallel_lift hset).bind fun _ _ _ h₁ => TrapM.parallel_ofTrapChecked _ h₁

section Transfers

variable [FileSystem φ η] [Console χ]

theorem parallel_putChunk (h : Twins pid k k') (fd : Int32) (chunk : Bytes) :
    TrapM.Parallel (Twins pid) k k' (putChunk pid fd chunk) (putChunk pid fd chunk) := by
  unfold putChunk
  split
  · exact (parallel_lift_onDevices (onDevices_put chunk) h).bind fun _ _ _ h₁ =>
      TrapM.parallel_pure _ h₁
  · refine (parallel_fileOf? h fd).bind fun handle k₁ k₁' h₁ => ?_
    cases handle with
    | none => exact TrapM.parallel_pure _ h₁
    | some handle => exact parallel_lift_onDevices (onDevices_write handle chunk) h₁

theorem parallel_writeChunks (h : Twins pid k k') (fd : Int32) (buffer : VirtAddr)
    (length done : Nat) (scratch : Bytes) :
    TrapM.Parallel (Twins pid) k k' (writeChunks pid fd buffer length done scratch)
      (writeChunks pid fd buffer length done scratch) := by
  induction hn : length - done using Nat.strongRecOn generalizing done scratch k k' with
  | ind n ih =>
    rw [writeChunks]
    split
    · rename_i hlt
      have hpos := chunkSize_pos
      refine (parallel_bufferAt h buffer done).bind fun va k₁ k₁' h₁ => ?_
      refine parallel_runningMemory_bind h₁ fun m m' hagree => ?_
      refine (TrapM.parallel_lift (parallel_ofChecked _ h₁)).bind fun room k₂ k₂' h₂ => ?_
      rw [hagree.copyIn_eq]
      refine (TrapM.parallel_lift (parallel_ofChecked _ h₂)).bind fun filled k₃ k₃' h₃ => ?_
      refine (TrapM.parallel_ofTrapChecked _ h₃).bind fun _ k₄ k₄' h₄ => ?_
      refine (parallel_putChunk h₄ fd filled.bytes).bind fun taken k₅ k₅' h₅ => ?_
      split
      · exact TrapM.parallel_pure _ h₅
      · refine (TrapM.parallel_lift (parallel_ofChecked _ h₅)).bind fun scratch k₆ k₆' h₆ => ?_
        exact ih _ (by omega) h₆ _ _ rfl
    · exact TrapM.parallel_pure _ h

theorem parallel_write (h : Twins pid k k') (fd : Int32) (buffer : VirtAddr) (length : Nat) :
    TrapM.Parallel (Twins pid) k k' (write pid fd buffer length)
      (write pid fd buffer length) := by
  unfold write
  split
  · exact TrapM.parallel_pure _ h
  · refine (parallel_isOpen h consoleOutput fd).bind fun _ k₁ k₁' h₁ => ?_
    split
    · exact (parallel_writeChunks h₁ fd buffer length 0 _).bind fun _ _ _ h₂ =>
        TrapM.parallel_pure _ h₂
    · exact TrapM.parallel_pure _ h₁

omit [FileSystem φ η] in
theorem parallel_fill (h : Twins pid k k') (count : Nat) (chunk : Bytes) (got : Nat) :
    KernelM.Parallel (Twins pid) k k' (Terminal.fill count chunk got)
      (Terminal.fill count chunk got) := by
  induction hn : count - got using Nat.strongRecOn generalizing chunk got k k' with
  | ind n ih =>
    rw [Terminal.fill]
    split
    · refine (parallel_onDevices onDevices_getByte h).bind fun byte k₁ k₁' h₁ => ?_
      cases byte with
      | none => exact parallel_pure _ h₁
      | some byte =>
        exact (parallel_ofChecked _ h₁).bind fun _ _ _ h₂ => ih _ (by omega) h₂ _ _ rfl
    · exact parallel_pure _ h

theorem parallel_takeChunk (h : Twins pid k k') (fd : Int32) (count : Nat) (chunk : Bytes) :
    TrapM.Parallel (Twins pid) k k' (takeChunk pid fd count chunk)
      (takeChunk pid fd count chunk) := by
  unfold takeChunk
  split
  · exact TrapM.parallel_lift (parallel_fill h count chunk 0)
  · refine (parallel_fileOf? h fd).bind fun handle k₁ k₁' h₁ => ?_
    cases handle with
    | none => exact TrapM.parallel_pure _ h₁
    | some handle => exact parallel_lift_onDevices (onDevices_read handle chunk) h₁

theorem parallel_readChunks (h : Twins pid k k') (fd : Int32) (buffer : VirtAddr)
    (length done : Nat) (scratch : Bytes) :
    TrapM.Parallel (Twins pid) k k' (readChunks pid fd buffer length done scratch)
      (readChunks pid fd buffer length done scratch) := by
  induction hn : length - done using Nat.strongRecOn generalizing done scratch k k' with
  | ind n ih =>
    rw [readChunks]
    split
    · rename_i hlt
      have hpos := chunkSize_pos
      refine (TrapM.parallel_lift (parallel_ofChecked _ h)).bind fun room k₁ k₁' h₁ => ?_
      refine (parallel_takeChunk h₁ fd _ room).bind fun filled k₂ k₂' h₂ => ?_
      refine (TrapM.parallel_lift (parallel_ofChecked _ h₂)).bind fun scratch k₃ k₃' h₃ => ?_
      refine (parallel_bufferAt h₃ buffer done).bind fun va k₄ k₄' h₄ => ?_
      refine (TrapM.parallel_lift (parallel_ofChecked _ h₄)).bind fun piece k₅ k₅' h₅ => ?_
      refine (parallel_copyOut h₅ va piece).bind fun _ k₆ k₆' h₆ => ?_
      split
      · exact TrapM.parallel_pure _ h₆
      · exact ih _ (by omega) h₆ _ _ rfl
    · exact TrapM.parallel_pure _ h

theorem parallel_read (h : Twins pid k k') (fd : Int32) (buffer : VirtAddr) (length : Nat) :
    TrapM.Parallel (Twins pid) k k' (read pid fd buffer length) (read pid fd buffer length) := by
  unfold read
  split
  · exact TrapM.parallel_pure _ h
  · refine (parallel_isOpen h consoleInput fd).bind fun _ k₁ k₁' h₁ => ?_
    split
    · exact (parallel_readChunks h₁ fd buffer length 0 _).bind fun _ _ _ h₂ =>
        TrapM.parallel_pure _ h₂
    · exact TrapM.parallel_pure _ h₁

end Transfers

section Ends

variable [FileSystem φ η] [Host ω]

/-- The end of the process. -/
theorem parallel_terminate (h : Twins pid k k') (status : Int32) :
    KernelM.Parallel (Twins pid) k k' (terminate pid status) (terminate pid status) := by
  obtain ⟨es, hk, hs⟩ := h.orderly
  obtain ⟨es', hk', hs'⟩ := h.orderly'
  obtain ⟨k₁, uses, hterm, hends⟩ := leads_terminate hk pid status
  obtain ⟨k₁', uses', hterm', hends'⟩ := leads_terminate hk' pid status
  have hrunning : k.processes.running? pid = none ↔ k'.processes.running? pid = none := by
    rw [Processes.running?_eq_none_iff, Processes.running?_eq_none_iff, h.alike.state_eq]
  cases hends with
  | dead hp =>
    cases hends' with
    | dead => exact parallel_of_leads hterm hterm' h
    | ended hp' => simp [hrunning.mp hp] at hp'
  | @ended p frames hp =>
    cases hends' with
    | dead hp' => simp [hrunning.mpr hp'] at hp
    | @ended p' frames' hp' =>
      have hget := get?_of_running? hp
      have hget' := get?_of_running? hp'
      have hfiles : p.files = p'.files := by
        have := h.alike.descriptors_eq
        rw [hget, hget'] at this
        exact Option.some.inj this
      obtain ⟨_, hrun, _⟩ := id hterm
      obtain ⟨_, hrun', _⟩ := id hterm'
      obtain ⟨es₁, hk₁, hs₁, _, hm⟩ := hk.emptied hs hrun
      obtain ⟨es₁', hk₁', hs₁', _, hm'⟩ := hk'.emptied hs' hrun'
      rw [← hfiles] at hterm' hk₁' hm'
      refine parallel_of_leads hterm hterm' ⟨⟨?_, ?_, ?_, ?_, ?_, ?_⟩, ⟨es₁, hk₁, hs₁⟩,
        ⟨es₁', hk₁', hs₁'⟩⟩
      · rw [h.alike.files_eq]
      · exact h.alike.console_eq
      · rw [h.alike.host_eq]
      · rw [Processes.state?_exit, Processes.state?_exit, if_pos rfl, if_pos rfl,
          h.alike.state_eq]
      · simp [hget, hget', UserProcess.exit, hfiles]
      · rw [hm, hm', Memories.emptied, Memories.emptied, Function.update_self,
          Function.update_self, h.alike.memory_eq]

theorem parallel_kill (h : Twins pid k k') (error : TrapError) :
    KernelM.Parallel (Twins pid) k k' (kill pid error) (kill pid error) :=
  (parallel_onDevices (onDevices_notice _) h).bind fun _ _ _ h₁ => parallel_terminate h₁ _

end Ends

section Traps

variable [FileSystem φ η] [Console χ] [Host ω]

/-- To carry out a request. -/
theorem parallel_dispatch (h : Twins pid k k') (request : Request) :
    TrapM.Parallel (Twins pid) k k' (dispatch pid request) (dispatch pid request) := by
  cases request with
  | halt => exact TrapM.parallel_pure _ h
  | exit status => exact TrapM.parallel_pure _ h
  | exec command =>
    exact (parallel_lift_onDevices (onDevices_execute pid command) h).bind fun _ _ _ h₁ =>
      TrapM.parallel_pure _ h₁
  | wait child =>
    exact (parallel_lift_onDevices (onDevices_wait pid child) h).bind fun _ _ _ h₁ =>
      TrapM.parallel_pure _ h₁
  | create name size =>
    simp only [dispatch]
    split
    · exact TrapM.parallel_pure _ h
    · exact (parallel_lift_onDevices (onDevices_create _ size) h).bind fun _ _ _ h₁ =>
        TrapM.parallel_pure _ h₁
  | remove name =>
    simp only [dispatch]
    split
    · exact TrapM.parallel_pure _ h
    · exact (parallel_lift_onDevices (onDevices_remove _) h).bind fun _ _ _ h₁ =>
        TrapM.parallel_pure _ h₁
  | «open» name =>
    exact (parallel_openFile h name).bind fun _ _ _ h₁ => TrapM.parallel_pure _ h₁
  | filesize fd =>
    exact (parallel_askFile h fd onDevices_length).bind fun _ _ _ h₁ => TrapM.parallel_pure _ h₁
  | read fd buffer length =>
    exact (parallel_read h fd buffer length).bind fun _ _ _ h₁ => TrapM.parallel_pure _ h₁
  | write fd buffer length =>
    exact (parallel_write h fd buffer length).bind fun _ _ _ h₁ => TrapM.parallel_pure _ h₁
  | seek fd position =>
    exact (parallel_seekFile h fd position).bind fun _ _ _ h₁ => TrapM.parallel_pure _ h₁
  | tell fd =>
    exact (parallel_askFile h fd onDevices_tell).bind fun _ _ _ h₁ => TrapM.parallel_pure _ h₁
  | close fd =>
    exact (TrapM.parallel_lift (parallel_closeFile h fd)).bind fun _ _ _ h₁ =>
      TrapM.parallel_pure _ h₁
  | chdir dir =>
    exact (parallel_lift_onDevices (onDevices_notice _) h).bind fun _ _ _ h₁ =>
      TrapM.parallel_pure _ h₁
  | mkdir dir =>
    exact (parallel_lift_onDevices (onDevices_notice _) h).bind fun _ _ _ h₁ =>
      TrapM.parallel_pure _ h₁
  | mmap | munmap | readdir | isdir | inumber =>
    exact parallel_lift_onDevices (onDevices_unsupported _ _) h

theorem parallel_serve (h : Twins pid k k') (registers : Registers) (request : Request) :
    KernelM.Parallel (Twins pid) k k' (serve pid registers request)
      (serve pid registers request) := by
  refine KernelM.Parallel.bind (parallel_dispatch h request) fun reply k₁ k₁' h₁ => ?_
  cases reply with
  | error error =>
    exact (parallel_kill h₁ error).bind fun _ _ _ h₂ => parallel_pure _ h₂
  | ok reply =>
    cases reply with
    | value n => exact parallel_pure _ h₁
    | nothing => exact parallel_pure _ h₁
    | exit status =>
      exact (parallel_terminate h₁ status).bind fun _ _ _ h₂ => parallel_pure _ h₂
    | halt =>
      exact (parallel_onDevices (onDevices_notice _) h₁).bind fun _ _ _ h₂ =>
        (parallel_onDevices onDevices_powerOff h₂).bind fun _ _ _ h₃ => parallel_pure _ h₃

/-- A trap goes the same way from kernels that are alike for its process. -/
theorem parallel_trap (h : Twins pid k k') (registers : Registers) :
    KernelM.Parallel (Twins pid) k k' (trap pid registers) (trap pid registers) := by
  refine KernelM.Parallel.bind (parallel_decode h registers.stackPointer)
    fun decoded k₁ k₁' h₁ => ?_
  cases decoded with
  | error error =>
    exact (parallel_kill h₁ error).bind fun _ _ _ h₂ => parallel_pure _ h₂
  | ok request =>
    exact (parallel_onDevices (onDevices_notice _) h₁).bind fun _ _ _ h₂ =>
      parallel_serve h₂ registers request

/-- From any two states that runs since boot have come to, a trap of a process on which they agree,
as they do on the devices, goes the same way: the same verdict, the same registers, the same uses of
the devices with the same answers, and states that agree again. The one other way is that the same
defect ends both, and that takes a file system that counts more bytes than its buffer holds. -/
theorem trap_depends_on_own_process (config config' : Config) (files files' : φ)
    (console console' : χ) (host host' : ω)
    (hfits : poolBase + config.frames * pageSize ≤ addressBound)
    (hfits' : poolBase + config'.frames * pageSize ≤ addressBound)
    {steps steps' : List ((op : Operation) × op.Answer)}
    (hr : Performs (boot config files console host).1 steps k)
    (hr' : Performs (boot config' files' console' host').1 steps' k')
    (h : Alike pid k k') (registers : Registers) :
    (∃ verdict registers' k₁ k₁' uses,
      (trap pid registers).Leads k (verdict, registers') k₁ uses ∧
      (trap pid registers).Leads k' (verdict, registers') k₁' uses ∧ Alike pid k₁ k₁') ∨
    ¬ LawfulFileSystem φ ∧ ∃ defect, (trap pid registers).run k = .error defect ∧
      (trap pid registers).run k' = .error defect := by
  obtain ⟨es, hk, hs, _⟩ := hr.coherent hfits
  obtain ⟨es', hk', hs', _⟩ := hr'.coherent hfits'
  have htwins : Twins pid k k' := ⟨h, ⟨es, hk, hs⟩, ⟨es', hk', hs'⟩⟩
  rcases parallel_trap htwins registers with
    ⟨defect, hd, hd'⟩ | ⟨⟨verdict, registers'⟩, k₁, k₁', uses, hleads, hleads', h₁⟩
  · refine .inr ⟨fun hlawful => ?_, defect, hd, hd'⟩
    obtain ⟨_, _, _, _, hrun, _⟩ := exists_leads_trap hk hs pid registers
    rw [hd] at hrun
    contradiction
  · exact .inl ⟨verdict, registers', k₁, k₁', uses, hleads, hleads', h₁.alike⟩

end Traps

set_option synthInstance.maxSize 512 in
/-- The same process with another neighbour and on another frame: its page of zeros asks for a
halt. -/
theorem trap_depends_on_own_process_of_neighbour :
    poolBase + 1 * pageSize ≤ addressBound ∧ poolBase + 2 * pageSize ≤ addressBound ∧
      ∃ (k k' : Kernel MemoryFileSystem FileHandle BufferConsole ScriptedHost)
        (steps steps' : List ((op : Operation) × op.Answer)) (registers : Registers),
        Performs (boot ⟨1, .clock⟩ {} {} {}).1 steps k ∧
        Performs (boot ⟨2, .clock⟩ {} {} {}).1 steps' k' ∧ Alike ⟨1⟩ k k' ∧
        ∃ verdict registers' k₁ k₁' uses,
          (trap ⟨1⟩ registers).Leads k (verdict, registers') k₁ uses ∧
          (trap ⟨1⟩ registers).Leads k' (verdict, registers') k₁' uses ∧ Alike ⟨1⟩ k₁ k₁' := by
  have hfits : poolBase + 1 * pageSize ≤ addressBound := by decide
  have hfits' : poolBase + 2 * pageSize ≤ addressBound := by decide
  -- the answers of both runs and what they leave at the devices and of the process
  have hanswers : ((do
      let first ← spawn "first"
      let mapped ← mapPage ⟨1⟩ (.ofNat 0x1000) true
      let k ← get
      return ((first, mapped), (k.files, k.console, k.host), k.processes.state? ⟨1⟩,
        (k.processes.get? ⟨1⟩).map (·.files)) :
        KernelM MemoryFileSystem FileHandle BufferConsole ScriptedHost _).run
      (boot ⟨1, .clock⟩ {} {} {}).1).map Prod.fst =
        .ok ((⟨1⟩, .ok (.ofNat poolBase)), ({}, {}, {}), some .running, some {}) := by
    decide +kernel
  have hanswers' : ((do
      let first ← spawn "first"
      let second ← spawn "second"
      let neighbour ← mapPage ⟨2⟩ (.ofNat 0x5000) false
      let mapped ← mapPage ⟨1⟩ (.ofNat 0x1000) true
      let k ← get
      return ((first, second, neighbour, mapped), (k.files, k.console, k.host),
        k.processes.state? ⟨1⟩, (k.processes.get? ⟨1⟩).map (·.files)) :
        KernelM MemoryFileSystem FileHandle BufferConsole ScriptedHost _).run
      (boot ⟨2, .clock⟩ {} {} {}).1).map Prod.fst =
        .ok ((⟨1⟩, ⟨2⟩, .ok (.ofNat poolBase), .ok (.ofNat 0x101000)), ({}, {}, {}),
          some .running, some {}) := by
    decide +kernel
  obtain ⟨_, _, hrun⟩ := exists_run_eq hanswers
  obtain ⟨_, _, _, _, hfirst, hrun, _⟩ := run_bind_eq_ok.mp hrun
  obtain ⟨_, k, _, _, hmap, hrun, _⟩ := run_bind_eq_ok.mp hrun
  rw [run_get_bind] at hrun
  simp only [run_pure, Except.ok.injEq, Prod.mk.injEq] at hrun
  obtain ⟨⟨⟨rfl, rfl⟩, ⟨hfiles, hconsole, hhost⟩, hstate, hdescriptors⟩, _⟩ := hrun
  obtain ⟨_, _, hrun⟩ := exists_run_eq hanswers'
  obtain ⟨_, _, _, _, hfirst', hrun, _⟩ := run_bind_eq_ok.mp hrun
  obtain ⟨_, _, _, _, hsecond', hrun, _⟩ := run_bind_eq_ok.mp hrun
  obtain ⟨_, _, _, _, hneighbour', hrun, _⟩ := run_bind_eq_ok.mp hrun
  obtain ⟨_, k', _, _, hmap', hrun, _⟩ := run_bind_eq_ok.mp hrun
  rw [run_get_bind] at hrun
  simp only [run_pure, Except.ok.injEq, Prod.mk.injEq] at hrun
  obtain ⟨⟨⟨rfl, rfl, rfl, rfl⟩, ⟨hfiles', hconsole', hhost'⟩, hstate', hdescriptors'⟩, _⟩ := hrun
  have hr : Performs (boot ⟨1, .clock⟩ {} {} {}).1 [⟨.spawn "first", (⟨1⟩ : Pid)⟩,
      ⟨.mapPage ⟨1⟩ (.ofNat 0x1000) true, Except.ok (.ofNat poolBase)⟩] k :=
    .cons hfirst (.cons hmap (.nil _))
  have hr' : Performs (boot ⟨2, .clock⟩ {} {} {}).1 [⟨.spawn "first", (⟨1⟩ : Pid)⟩,
      ⟨.spawn "second", (⟨2⟩ : Pid)⟩,
      ⟨.mapPage ⟨2⟩ (.ofNat 0x5000) false, Except.ok (.ofNat poolBase)⟩,
      ⟨.mapPage ⟨1⟩ (.ofNat 0x1000) true, Except.ok (.ofNat 0x101000)⟩] k' :=
    .cons hfirst' (.cons hsecond' (.cons hneighbour' (.cons hmap' (.nil _))))
  -- the memory of the process is one page of zeros in both
  have hmemory : k.memory? ⟨1⟩ = some (PrivateMemory.empty.set 1 (some (.zero true))) := by
    obtain ⟨_, _, _, hrun⟩ := hr.coherent hfits
    obtain ⟨_, hspawn, hrun⟩ := hrun.of_cons
    obtain ⟨_, hmapped, hrun⟩ := hrun.of_cons
    obtain ⟨m, hm, hk⟩ := hmapped.of_mapPage_ok
    rw [hspawn.of_spawn, Function.update_self] at hm
    rw [hrun.of_nil, hk, Function.update_self, ← Option.some.inj hm]
    rfl
  have hmemory' : k'.memory? ⟨1⟩ = some (PrivateMemory.empty.set 1 (some (.zero true))) := by
    obtain ⟨_, _, _, hrun⟩ := hr'.coherent hfits'
    obtain ⟨_, hspawn, hrun⟩ := hrun.of_cons
    obtain ⟨_, hspawn', hrun⟩ := hrun.of_cons
    obtain ⟨_, hmapped, hrun⟩ := hrun.of_cons
    obtain ⟨_, hmapped', hrun⟩ := hrun.of_cons
    obtain ⟨m, hm, hk⟩ := hmapped.of_mapPage_ok
    obtain ⟨m', hm', hk'⟩ := hmapped'.of_mapPage_ok
    have hother : (⟨1⟩ : Pid) ≠ ⟨2⟩ := by decide
    rw [hk, hspawn'.of_spawn, hspawn.of_spawn, Function.update_of_ne hother,
      Function.update_of_ne hother, Function.update_self] at hm'
    rw [hrun.of_nil, hk', Function.update_self, ← Option.some.inj hm']
    rfl
  have halike : Alike ⟨1⟩ k k' := ⟨hfiles.trans hfiles'.symm, hconsole.trans hconsole'.symm,
    hhost.trans hhost'.symm, hstate.trans hstate'.symm, hdescriptors.trans hdescriptors'.symm,
    hmemory.trans hmemory'.symm⟩
  let registers : Registers := ⟨.ofNat 0x1000, 0⟩
  rcases trap_depends_on_own_process ⟨1, .clock⟩ ⟨2, .clock⟩ _ _ _ _ _ _ hfits hfits' hr hr' halike
    registers with hsame | ⟨hlawful, _⟩
  · exact ⟨hfits, hfits', k, k', _, _, registers, hr, hr', halike, hsame⟩
  · exact (hlawful inferInstance).elim

end TeachingKernel.Kernel
