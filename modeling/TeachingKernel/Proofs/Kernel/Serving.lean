import TeachingKernel.Proofs.Kernel.Input
import TeachingKernel.Proofs.Kernel.Validation

/-!
# Serving a request

Once a trap is decoded nothing can go wrong any more: the request is carried out to its end,
whatever the devices answer, as long as the file system counts no more bytes than its buffers hold.
The buffers were checked before the first byte is moved, and moving bytes takes no page
away, so each chunk is found where it was found then.
-/

namespace TeachingKernel

variable {φ η χ ω α β : Type}

namespace TrapM

open KernelM

variable {k : Kernel φ η χ ω} {Q : α → Kernel φ η χ ω → Prop} {Q' : β → Kernel φ η χ ω → Prop}

/-- The step succeeds: it answers and leads to a kernel as told. -/
def Yields (x : TrapM φ η χ ω α) (k : Kernel φ η χ ω) (Q : α → Kernel φ η χ ω → Prop) : Prop :=
  ∃ a k' uses, x.run.Leads k (.ok a) k' uses ∧ Q a k'

theorem Yields.bind {x : TrapM φ η χ ω α} {f : α → TrapM φ η χ ω β} (hx : x.Yields k Q)
    (hf : ∀ a k', Q a k' → (f a).Yields k' Q') : (x >>= f).Yields k Q' := by
  obtain ⟨a, k₁, uses, hleads, ha⟩ := hx
  obtain ⟨b, k₂, uses', hleads', hb⟩ := hf a k₁ ha
  exact ⟨b, k₂, uses ++ uses', leads_bind hleads hleads', hb⟩

theorem yields_pure {a : α} (h : Q a k) : (pure a : TrapM φ η χ ω α).Yields k Q :=
  ⟨a, k, [], leads_pure _, h⟩

theorem yields_lift {x : KernelM φ η χ ω α} {a : α} {k' : Kernel φ η χ ω}
    {uses : List (DeviceUse η)} (h : x.Leads k a k' uses) (ha : Q a k') :
    (Kernel.lift x).Yields k Q := ⟨a, k', uses, leads_lift h, ha⟩

theorem yields_get_bind {f : Kernel φ η χ ω → TrapM φ η χ ω β} (h : (f k).Yields k Q') :
    (Kernel.lift get >>= f).Yields k Q' := by
  obtain ⟨b, k', uses, hleads, hb⟩ := h
  exact ⟨b, k', uses, leads_get_bind hleads, hb⟩

/-- What comes after an answer knows the answer. -/
theorem yields_ofChecked_bind {x : Checked α} {a : α} {f : α → TrapM φ η χ ω β} (h : x = .ok a)
    (hf : (f a).Yields k Q') : (Kernel.lift (ofChecked x) >>= f).Yields k Q' := by
  obtain ⟨b, k', uses, hleads, hb⟩ := hf
  exact ⟨b, k', uses, leads_bind (leads_lift (KernelM.leads_ofChecked h)) hleads, hb⟩

theorem yields_ofFault {answer : Except Fault α} {a : α} (h : answer = .ok a) (ha : Q a k) :
    (Kernel.ofTrapChecked (.ofFault answer)).Yields k Q := by
  rw [h]
  exact ⟨a, k, [], leads_ofTrapChecked rfl, ha⟩

end TrapM

def Request.verdict : Request → Verdict
  | exit status => .exit status
  | halt => .halt
  | _ => .resume

def Reply.verdict : Reply → Verdict
  | exit status => .exit status
  | halt => .halt
  | _ => .resume

namespace Kernel

open KernelM TrapM FrameLedger

variable {k k' : Kernel φ η χ ω} {pid : Pid} {request : Request}

/-- The process runs, its memory is its own, and it has the buffers that the request names. -/
def Ready (pid : Pid) (request : Request) (k : Kernel φ η χ ω) : Prop :=
  ∃ es p, Coherent k es ∧ Sole es ∧ k.processes.running? pid = some p ∧
    (k.memoryOf p).contents.Admits request

namespace Ready

/-- What is done for the process leaves it ready. -/
theorem step (h : Ready pid request k) (hsteady : Steady k k') (hconfined : Confined pid k k') :
    Ready pid request k' := by
  obtain ⟨es, p, hk, hs, hp, ha⟩ := h
  obtain ⟨hk', _, hown⟩ := hconfined es hk hs
  have hrunning : (k'.processes.running? pid).isSome = true := by
    rw [hsteady.1.running?_isSome_eq, hp]
    rfl
  obtain ⟨p', hp'⟩ := Option.isSome_iff_exists.mp hrunning
  rw [memory?_of_get? (get?_of_running? hp), memory?_of_get? (get?_of_running? hp')] at hown
  cases hown with
  | some hstored => exact ⟨es, p', hk', hs, hp', hstored.admits ha⟩

theorem setDevices (h : Ready pid request k) (files : φ) (console : χ) (host : ω) :
    Ready pid request { k with files, console, host } :=
  h.step (Indifferent.setDevices k files console host)
    (Indifferent.setDevices k files console host)

theorem setDescriptors (h : Ready pid request k) (files : Descriptors η) :
    Ready pid request { k with processes := k.processes.modify pid ({ · with files }) } :=
  h.step ((inferInstance : Allows Steady pid).setDescriptors k files)
    ((inferInstance : Allows (Confined pid) pid).setDescriptors k files)

theorem setPool (h : Ready pid request k) {p : UserProcess η} {va : VirtAddr} {bytes : Bytes}
    {answer : Except Fault Unit} {pool : PagePool} (hp : k.processes.get? pid = some p)
    (hrun : (k.memoryOf p).copyOut va bytes = .ok (answer, pool)) :
    Ready pid request { k with frames := { k.frames with pool } } :=
  h.step ((inferInstance : Allows Steady pid).setPool k p va bytes answer pool hp hrun)
    ((inferInstance : Allows (Confined pid) pid).setPool k p va bytes answer pool hp hrun)

end Ready

/-! ## Devices and open files -/

theorem yields_onDevices {x : KernelM φ η χ ω α} (hx : OnDevices x) (h : Ready pid request k) :
    (lift x).Yields k fun _ k' => Ready pid request k' := by
  obtain ⟨a, files, console, host, events, _, hrun⟩ := hx.run k
  exact yields_lift ⟨events, hrun, rfl⟩ (h.setDevices files console host)

theorem yields_knownProcess (h : Ready pid request k) :
    (knownProcess pid).Yields k fun p k' => k = k' ∧ k.processes.get? pid = some p := by
  obtain ⟨es, p, _, _, hp, _⟩ := h
  have hget := get?_of_running? hp
  exact ⟨p, k, [], leads_knownProcess hget, rfl, hget⟩

theorem yields_fileOf? (h : Ready pid request k) (fd : Int32) :
    (fileOf? pid fd).Yields k fun _ k' => k = k' :=
  (yields_knownProcess h).bind fun _ _ hp => yields_pure hp.1

variable {Q : α → Kernel φ η χ ω → Prop}

/-- What follows a look at the file under a descriptor. -/
theorem yields_fileOf?_bind {fd : Int32} {f : Option η → TrapM φ η χ ω α}
    (h : Ready pid request k) (hf : ∀ handle, (f handle).Yields k Q) :
    (fileOf? pid fd >>= f).Yields k Q :=
  (yields_fileOf? h fd).bind fun handle _ hk => hk ▸ hf handle

theorem yields_isOpen (h : Ready pid request k) (console fd : Int32) :
    (isOpen pid console fd).Yields k fun _ k' => k = k' := by
  unfold isOpen
  split
  · exact yields_pure rfl
  · exact yields_fileOf?_bind h fun _ => yields_pure rfl

theorem yields_askFile (h : Ready pid request k) (fd : Int32) {ask : η → KernelM φ η χ ω UInt32}
    (ha : ∀ handle, OnDevices (ask handle)) :
    (askFile pid fd ask).Yields k fun _ k' => Ready pid request k' := by
  refine yields_fileOf?_bind h fun handle => ?_
  cases handle with
  | none => exact yields_pure h
  | some handle => exact (yields_onDevices (ha handle) h).bind fun _ _ h' => yields_pure h'

section Files

variable [FileSystem φ η]

theorem yields_openFile (h : Ready pid request k) (name : Scratch) :
    (openFile pid name).Yields k fun _ k' => Ready pid request k' := by
  rw [openFile_eq]
  refine (yields_onDevices (onDevices_openText name) h).bind fun handle k' h' => ?_
  cases handle with
  | none => exact yields_pure h'
  | some handle =>
    obtain ⟨_, p, _, _, hp, _⟩ := id h'
    apply yields_get_bind
    simp only [get?_of_running? hp]
    split
    · rename_i fd files _
      apply yields_get_bind
      exact (yields_lift (leads_modify _) (h'.setDescriptors files)).bind fun _ _ h₁ =>
        yields_pure h₁
    · exact (yields_lift (leads_notice _) h').bind fun _ _ h₁ =>
        (yields_onDevices (onDevices_close handle) h₁).bind fun _ _ h₂ => yields_pure h₂

theorem yields_seekFile (h : Ready pid request k) (fd : Int32) (position : UInt32) :
    (seekFile pid fd position).Yields k fun _ k' => Ready pid request k' := by
  refine yields_fileOf?_bind h fun handle => ?_
  cases handle with
  | none => exact yields_pure h
  | some handle => exact yields_onDevices (onDevices_seek handle position) h

/-- To close a file that is open takes it from under its descriptor first. -/
theorem leads_closeFile {fd : Int32} {handle : η} {files : Descriptors η}
    (hd : (k.processes.get? pid).bind (·.files.remove? fd) = some (handle, files)) :
    (closeFile pid fd).Leads k ()
      { k with
        processes := k.processes.modify pid ({ · with files })
        files := FileSystem.close k.files handle } [.close handle] := by
  apply KernelM.leads_get_bind
  simp only [hd]
  exact (leads_modify _).bind (leads_close _ handle)

theorem leads_closeFile_of_none {fd : Int32}
    (hd : (k.processes.get? pid).bind (·.files.remove? fd) = none) :
    (closeFile pid fd).Leads k () k [] := by
  apply KernelM.leads_get_bind
  simp only [hd]
  exact leads_notice _

theorem yields_closeFile (h : Ready pid request k) (fd : Int32) :
    (lift (closeFile pid fd)).Yields k fun _ k' => Ready pid request k' := by
  cases hd : (k.processes.get? pid).bind (·.files.remove? fd) with
  | none => exact yields_lift (leads_closeFile_of_none hd) h
  | some found =>
    exact yields_lift (leads_closeFile hd)
      ((h.setDescriptors found.2).setDevices _ k.console k.host)

end Files

/-! ## Data -/

theorem yields_bufferAt {buffer : VirtAddr} {done : Nat} (h : buffer.toNat + done < userTop) :
    (bufferAt buffer done).Yields k fun va k' => k = k' ∧ va.toNat = buffer.toNat + done := by
  have hbound : buffer.toNat + done < addressBound := by
    simp only [userTop, addressBound] at h ⊢
    omega
  simp only [bufferAt, Address.add?, dif_pos hbound]
  exact yields_pure ⟨rfl, rfl⟩

/-- The memory of a process that is ready. -/
theorem yields_runningMemory (h : Ready pid request k) :
    (runningMemory pid).Yields k fun m k' =>
      k = k' ∧ m.WholeFrames ∧ m.contents.Admits request := by
  obtain ⟨_, p, hk, _, hp, ha⟩ := h
  exact ⟨_, k, [], leads_runningMemory hp, rfl, hk.wholeFrames (get?_of_running? hp), ha⟩

theorem lt_userTop_of_isSome_byte? {m : UserMemory} {n : Nat}
    (h : (m.contents.byte? n).isSome = true) : n < userTop := by
  by_contra hc
  rw [m.byte?_of_userTop_le (by omega)] at h
  contradiction

theorem lt_userTop_of_isWritable {m : UserMemory} {n : Nat}
    (h : m.contents.isWritable n = true) : n < userTop := by
  by_contra hc
  rw [m.isWritable_of_userTop_le (by omega)] at h
  contradiction

section Transfers

variable [FileSystem φ η] [LawfulFileSystem φ] [Console χ]

theorem yields_putChunk (h : Ready pid request k) (fd : Int32) (chunk : Bytes) :
    (putChunk pid fd chunk).Yields k fun taken k' =>
      taken ≤ chunk.length ∧ Ready pid request k' := by
  unfold putChunk
  split
  · exact (yields_onDevices (onDevices_put chunk) h).bind fun _ _ h' =>
      yields_pure ⟨Nat.le_refl _, h'⟩
  · refine yields_fileOf?_bind h fun handle => ?_
    cases handle with
    | none => exact yields_pure ⟨Nat.zero_le _, h⟩
    | some handle =>
      exact yields_lift ⟨_, rfl, rfl⟩
        ⟨LawfulFileSystem.write_le k.files handle chunk, h.setDevices _ _ _⟩

/-- What is left of a buffer that passed the check is written to its end, or until a chunk is not
taken whole. -/
theorem yields_writeChunks {fd fd' : Int32} {buffer : VirtAddr} {length done : Nat}
    {scratch : Bytes} (h : Ready pid (.write fd' buffer length) k)
    (hscratch : scratch.length = chunkSize) :
    (writeChunks pid fd buffer length done scratch).Yields k fun _ k' =>
      Ready pid (.write fd' buffer length) k' := by
  induction hn : length - done using Nat.strongRecOn generalizing done scratch k with
  | ind n ih =>
    rw [writeChunks]
    split
    · rename_i hlt
      have hpos := chunkSize_pos
      obtain ⟨count, hcount⟩ : ∃ count, min chunkSize (length - done) = count := ⟨_, rfl⟩
      simp only [hcount]
      have huser : buffer.toNat + done < userTop := by
        obtain ⟨_, _, _, _, _, ha⟩ := h
        exact lt_userTop_of_isSome_byte? (ha done hlt)
      refine (yields_bufferAt huser).bind fun va _ hva => ?_
      obtain ⟨rfl, hva⟩ := hva
      refine (yields_runningMemory h).bind fun m _ hm => ?_
      obtain ⟨rfl, hw, ha⟩ := hm
      have hslice := Bytes.slice_zero (show count ≤ scratch.length by omega)
      have hroom := Bytes.length_of_slice hslice
      refine yields_ofChecked_bind hslice ?_
      obtain ⟨filled, hrun, hfilled⟩ := UserMemory.copyIn_spec hw va (scratch.front count _)
      have hresult : filled.result = .ok () := by
        rw [hfilled.ok_iff, hroom, hva]
        intro i hi
        rw [Nat.add_assoc]
        exact ha (done + i) (by omega)
      have hlength : filled.bytes.length = count := hfilled.length_eq.trans hroom
      refine yields_ofChecked_bind hrun ?_
      refine (yields_ofFault (Q := fun _ k' => k = k') hresult rfl).bind fun _ _ hk => ?_
      subst hk
      refine (yields_putChunk h fd filled.bytes).bind fun taken k' ht => ?_
      obtain ⟨htaken, h'⟩ := ht
      split
      · exact yields_pure h'
      · have hover := Bytes.overwrite_zero (show filled.bytes.length ≤ scratch.length by omega)
        have hscratch' := (Bytes.length_of_overwrite hover).trans hscratch
        exact yields_ofChecked_bind hover (ih _ (by omega) h' hscratch' rfl)
    · exact yields_pure h

/-- A chunk keeps its length, and no more comes in than it holds. -/
theorem yields_takeChunk (h : Ready pid request k) (fd : Int32) {count : Nat} {chunk : Bytes}
    (hchunk : chunk.length = count) :
    (takeChunk pid fd count chunk).Yields k fun filled k' =>
      filled.1.length = count ∧ filled.2 ≤ count ∧ Ready pid request k' := by
  subst hchunk
  unfold takeChunk
  split
  · obtain ⟨bytes, c, hbytes⟩ : ∃ bytes c,
        Console.takeBytes k.console chunk.length = (bytes, c) := ⟨_, _, rfl⟩
    have hle : bytes.length ≤ chunk.length := Console.length_le_of_takeBytes hbytes
    refine yields_lift (leads_fill_chunk k chunk hbytes) ⟨?_, hle, h.setDevices k.files c k.host⟩
    rw [List.length_append, List.length_drop]
    omega
  · refine yields_fileOf?_bind h fun handle => ?_
    cases handle with
    | none => exact yields_pure ⟨rfl, Nat.zero_le _, h⟩
    | some handle =>
      exact yields_lift ⟨_, rfl, rfl⟩ ⟨FileSystem.length_read k.files handle chunk,
        LawfulFileSystem.read_le k.files handle chunk, h.setDevices _ _ _⟩

end Transfers

/-- A store where the memory is writable. -/
theorem yields_copyOut (h : Ready pid request k) {va : VirtAddr} {bytes : Bytes}
    (hw : ∀ m : PrivateMemory, m.Admits request →
      ∀ i < bytes.length, m.isWritable (va.toNat + i) = true) :
    (copyOut pid va bytes).Yields k fun _ k' => Ready pid request k' := by
  unfold copyOut
  split
  · exact yields_pure h
  · refine (yields_knownProcess h).bind fun p _ hp => ?_
    obtain ⟨rfl, hp⟩ := hp
    apply yields_get_bind
    obtain ⟨es, p', hk, hs, hp', ha⟩ := id h
    obtain rfl : p = p' := Option.some.inj (hp.symm.trans (get?_of_running? hp'))
    rcases UserMemory.copyOut_spec (hk.separate hs hp) (hk.backedMemory hp) va bytes with
      ⟨_, pool, hrun, _⟩ | ⟨hnot, _⟩
    · refine yields_ofChecked_bind hrun ?_
      exact (yields_lift (leads_modify _) (h.setPool hp hrun)).bind fun _ _ h' =>
        yields_ofFault rfl h'
    · exact absurd (hw _ ha) hnot

section Transfers

variable [FileSystem φ η] [LawfulFileSystem φ] [Console χ]

/-- What is left of a buffer that passed the check is filled to its end, or until a chunk comes in
short. -/
theorem yields_readChunks {fd fd' : Int32} {buffer : VirtAddr} {length done : Nat}
    {scratch : Bytes} (h : Ready pid (.read fd' buffer length) k)
    (hscratch : scratch.length = chunkSize) :
    (readChunks pid fd buffer length done scratch).Yields k fun _ k' =>
      Ready pid (.read fd' buffer length) k' := by
  induction hn : length - done using Nat.strongRecOn generalizing done scratch k with
  | ind n ih =>
    rw [readChunks]
    split
    · rename_i hlt
      have hpos := chunkSize_pos
      obtain ⟨count, hcount⟩ : ∃ count, min chunkSize (length - done) = count := ⟨_, rfl⟩
      simp only [hcount]
      have huser : buffer.toNat + done < userTop := by
        obtain ⟨_, _, _, _, _, ha⟩ := h
        exact lt_userTop_of_isWritable (ha done hlt)
      have hroom : count ≤ scratch.length := by omega
      refine yields_ofChecked_bind (Bytes.slice_zero hroom) ?_
      refine (yields_takeChunk h fd (List.length_take_of_le hroom)).bind fun filled k₁ hfilled => ?_
      obtain ⟨chunk, got⟩ := filled
      obtain ⟨hlength, hgot, h₁⟩ := hfilled
      simp only at hlength hgot
      -- the chunk goes back to the front of the page, and what came in is sliced off the page again
      have hover := Bytes.overwrite_zero (show chunk.length ≤ scratch.length by omega)
      have hscratch' := (Bytes.length_of_overwrite hover).trans hscratch
      refine yields_ofChecked_bind hover ?_
      refine (yields_bufferAt huser).bind fun va _ hva => ?_
      obtain ⟨rfl, hva⟩ := hva
      refine yields_ofChecked_bind (Bytes.slice_zero (show got ≤ _ by omega)) ?_
      have hw : ∀ m : PrivateMemory, m.Admits (.read fd' buffer length) →
          ∀ i < (List.take got (chunk ++ scratch.drop chunk.length)).length,
            m.isWritable (va.toNat + i) = true := by
        intro m hm i hi
        rw [List.length_take] at hi
        rw [hva, Nat.add_assoc]
        exact hm (done + i) (by omega)
      refine (yields_copyOut h₁ hw).bind fun _ _ h₂ => ?_
      split
      · exact yields_pure h₂
      · exact ih _ (by omega) h₂ hscratch' rfl
    · exact yields_pure h

theorem yields_write {fd fd' : Int32} {buffer : VirtAddr} {length : Nat}
    (h : Ready pid (.write fd' buffer length) k) :
    (write pid fd buffer length).Yields k fun _ k' =>
      Ready pid (.write fd' buffer length) k' := by
  unfold write
  split
  · exact yields_pure h
  · refine (yields_isOpen h consoleOutput fd).bind fun _ _ hk => ?_
    subst hk
    split
    · exact (yields_writeChunks h Scratch.blank.page.length_bytes).bind fun _ _ h' =>
        yields_pure h'
    · exact yields_pure h

theorem yields_read {fd fd' : Int32} {buffer : VirtAddr} {length : Nat}
    (h : Ready pid (.read fd' buffer length) k) :
    (read pid fd buffer length).Yields k fun _ k' =>
      Ready pid (.read fd' buffer length) k' := by
  unfold read
  split
  · exact yields_pure h
  · refine (yields_isOpen h consoleInput fd).bind fun _ _ hk => ?_
    subst hk
    split
    · exact (yields_readChunks h Scratch.blank.page.length_bytes).bind fun _ _ h' =>
        yields_pure h'
    · exact yields_pure h

variable [Host ω]

/-- Every request is carried out, and the reply says of the process what the request does. -/
theorem yields_dispatch (h : Ready pid request k) :
    (dispatch pid request).Yields k fun reply k' =>
      reply.verdict = request.verdict ∧ Ready pid request k' := by
  -- what comes to a reply that resumes
  have hresume : ∀ {β : Type} {x : TrapM φ η χ ω β} {reply : β → Reply},
      (∀ b, (reply b).verdict = Verdict.resume) → (x.Yields k fun _ k' => Ready pid request k') →
      (do return reply (← x)).Yields k fun r k' =>
        r.verdict = Verdict.resume ∧ Ready pid request k' := fun hreply hx =>
    hx.bind fun b _ h' => yields_pure ⟨hreply b, h'⟩
  have hunsupported : ∀ request' reply, reply.verdict = Verdict.resume →
      (lift (unsupported request' reply)).Yields k fun r k' =>
        r.verdict = Verdict.resume ∧ Ready pid request k' := fun request' reply hreply =>
    yields_lift ((leads_notice _).bind ((leads_notice _).bind (leads_pure _))) ⟨hreply, h⟩
  cases request with
  | halt => exact yields_pure ⟨rfl, h⟩
  | exit status => exact yields_pure ⟨rfl, h⟩
  | exec command =>
    exact hresume (fun _ => rfl) (yields_onDevices (onDevices_execute pid command) h)
  | wait child => exact hresume (fun _ => rfl) (yields_onDevices (onDevices_wait pid child) h)
  | create name size =>
    simp only [dispatch]
    split
    · exact yields_pure ⟨rfl, h⟩
    · exact hresume (fun _ => rfl) (yields_onDevices (onDevices_create _ size) h)
  | remove name =>
    simp only [dispatch]
    split
    · exact yields_pure ⟨rfl, h⟩
    · exact hresume (fun _ => rfl) (yields_onDevices (onDevices_remove _) h)
  | «open» name => exact hresume (fun _ => rfl) (yields_openFile h name)
  | filesize fd => exact hresume (fun _ => rfl) (yields_askFile h fd onDevices_length)
  | read fd buffer length => exact hresume (fun _ => rfl) (yields_read h)
  | write fd buffer length => exact hresume (fun _ => rfl) (yields_write h)
  | seek fd position => exact hresume (fun _ => rfl) (yields_seekFile h fd position)
  | tell fd => exact hresume (fun _ => rfl) (yields_askFile h fd onDevices_tell)
  | close fd => exact hresume (fun _ => rfl) (yields_closeFile h fd)
  | mmap fd address => exact hunsupported _ _ rfl
  | munmap mapping => exact hunsupported _ _ rfl
  | chdir dir => exact hresume (fun _ => rfl) (yields_lift (leads_notice _) h)
  | mkdir dir => exact hresume (fun _ => rfl) (yields_lift (leads_notice _) h)
  | readdir fd name => exact hunsupported _ _ rfl
  | isdir fd => exact hunsupported _ _ rfl
  | inumber fd => exact hunsupported _ _ rfl

end Transfers

/-! ## Traps -/

section Traps

variable [FileSystem φ η] [Console χ] [Host ω]

/-- After the reply only the process itself may come to its end. -/
theorem leads_serve (registers : Registers) {reply : Reply} {uses : List (DeviceUse η)}
    (hdispatch : (dispatch pid request).run.Leads k (.ok reply) k' uses)
    (h : Ready pid request k') :
    ∃ registers' k₁ uses',
      (serve pid registers request).Leads k (reply.verdict, registers') k₁ uses' := by
  cases reply with
  | value n => exact ⟨_, k', _, hdispatch.bind (leads_pure _)⟩
  | nothing => exact ⟨registers, k', _, hdispatch.bind (leads_pure _)⟩
  | exit status =>
    obtain ⟨_, _, hk, _⟩ := h
    obtain ⟨k₁, uses', hterm, _⟩ := leads_terminate hk pid status
    exact ⟨registers, k₁, _, hdispatch.bind (hterm.bind (leads_pure _))⟩
  | halt =>
    have hoff : Scheduler.powerOff.Leads k' () { k' with host := Host.powerOff k'.host }
        [.powerOff] := ⟨[.device .powerOff], rfl, rfl⟩
    exact ⟨registers, _, _,
      hdispatch.bind ((leads_notice _).bind (hoff.bind (leads_pure _)))⟩

variable [LawfulFileSystem φ]

/-- A trap that is decoded comes to what the request asks for. -/
theorem leads_trap_of_ready {registers : Registers} (h : Ready pid request k)
    (hdecode : (decode pid registers.stackPointer).run.Leads k (.ok request) k []) :
    (∃ reply k' uses, (dispatch pid request).run.Leads k (.ok reply) k' uses) ∧
      ∃ registers' k' uses, (trap pid registers).Leads k (request.verdict, registers') k' uses := by
  obtain ⟨reply, k', uses, hdispatch, hverdict, h'⟩ := yields_dispatch h
  obtain ⟨registers', k₁, uses', hserve⟩ := leads_serve registers hdispatch h'
  rw [hverdict] at hserve
  exact ⟨⟨reply, k', uses, hdispatch⟩, registers', k₁, _,
    hdecode.bind ((leads_notice _).bind hserve)⟩

/-- Every trap comes to an end. -/
theorem exists_leads_trap {es : List (Nat × Loan)} (hk : Coherent k es) (hs : Sole es) (pid : Pid)
    (registers : Registers) : ∃ answer k' uses, (trap pid registers).Leads k answer k' uses := by
  rcases decode_cases hk pid registers.stackPointer with
    ⟨error, hdecode, _⟩ | ⟨p, request, hp, hdecode, _, ha⟩
  · obtain ⟨k', uses, hterm, _⟩ := leads_terminate hk pid killedStatus
    exact ⟨_, k', uses, leads_trap_of_error hdecode hterm⟩
  · obtain ⟨_, _, k', uses, htrap⟩ := leads_trap_of_ready ⟨es, p, hk, hs, hp, ha⟩ hdecode
    exact ⟨_, k', uses, htrap⟩

/-- Whatever was performed since boot, a trap that was decoded is served: its request is carried out
without an error, so the process is not killed, and the verdict is that of the request, to exit for
an exit, to halt for a halt and to resume for everything else. No address overflows on the way, nor
does one while the trap is decoded. -/
theorem decoded_trap_is_served (config : Config) (files : φ) (console : χ) (host : ω)
    (hfits : poolBase + config.frames * pageSize ≤ addressBound)
    {steps : List ((op : Operation) × op.Answer)}
    (hr : Performs (boot config files console host).1 steps k) (pid : Pid)
    (registers : Registers) {decoded : Except TrapError Request} {k₁ : Kernel φ η χ ω}
    {uses : List (DeviceUse η)}
    (hdecode : (decode pid registers.stackPointer).run.Leads k decoded k₁ uses) :
    decoded ≠ .error (.badAddress .overflow) ∧ ∀ request, decoded = .ok request →
      (∃ reply k' uses', (dispatch pid request).run.Leads k₁ (.ok reply) k' uses') ∧
      ∃ registers' k' uses',
        (trap pid registers).Leads k (request.verdict, registers') k' uses' := by
  obtain ⟨es, h, hs, _⟩ := hr.coherent hfits
  rcases decode_cases h pid registers.stackPointer with
    ⟨error, hdecode', hover, _⟩ | ⟨p, request, hp, hdecode', _, ha⟩
  · obtain ⟨rfl, _, _⟩ := hdecode.unique hdecode'
    exact ⟨fun hc => hover (Except.error.inj hc), nofun⟩
  · obtain ⟨rfl, rfl, rfl⟩ := hdecode.unique hdecode'
    refine ⟨nofun, ?_⟩
    rintro _ ⟨⟩
    exact leads_trap_of_ready ⟨es, p, h, hs, hp, ha⟩ hdecode

end Traps

/-- A program writes the call that it has laid out to the console. -/
theorem decoded_trap_is_served_of_write :
    poolBase + 1 * pageSize ≤ addressBound ∧
      ∃ (k k₁ k' : Kernel MemoryFileSystem FileHandle BufferConsole ScriptedHost)
        (steps : List ((op : Operation) × op.Answer)) (registers registers' : Registers)
        (fd : Int32) (buffer : VirtAddr) (length : Nat) (uses uses' : List (DeviceUse FileHandle)),
        Performs (boot ⟨1, .clock⟩ {} {} {}).1 steps k ∧
        (decode ⟨1⟩ registers.stackPointer).run.Leads k (.ok (.write fd buffer length)) k₁ uses ∧
        (trap ⟨1⟩ registers).Leads k (.resume, registers') k' uses' := by
  have hfits : poolBase + 1 * pageSize ≤ addressBound := by decide
  -- the run, and what comes of the decoding, computed at once
  have hanswers : ((do
      let pid ← spawn "writer"
      let mapped ← mapPage ⟨1⟩ (.ofNat 0x1000) true
      let stored ← copyTo ⟨1⟩ (.ofNat 0x1000) (Call.write.stackImage [1, 0x1000, 16])
      let decoded ← (decode ⟨1⟩ (.ofNat 0x1000)).run
      return ((pid, mapped, stored),
        match decoded with
        | .error _ => none
        | .ok (.write _ _ length) => some length
        | .ok _ => none) :
        KernelM MemoryFileSystem FileHandle BufferConsole ScriptedHost _).run
      (boot ⟨1, .clock⟩ {} {} {}).1).map Prod.fst =
        .ok ((⟨1⟩, .ok (.ofNat poolBase), .ok ()), some 16) := by
    decide +kernel
  obtain ⟨_, _, hrun⟩ := exists_run_eq hanswers
  obtain ⟨_, _, _, _, hspawn, hrun, _⟩ := run_bind_eq_ok.mp hrun
  obtain ⟨_, _, _, _, hmap, hrun, _⟩ := run_bind_eq_ok.mp hrun
  obtain ⟨_, k, _, _, hstore, hrun, _⟩ := run_bind_eq_ok.mp hrun
  obtain ⟨decoded, k₁, events, _, hdecode, hrun, _⟩ := run_bind_eq_ok.mp hrun
  simp only [run_pure, Except.ok.injEq, Prod.mk.injEq] at hrun
  obtain ⟨⟨⟨rfl, rfl, rfl⟩, hwrite⟩, _⟩ := hrun
  let registers : Registers := ⟨.ofNat 0x1000, 0⟩
  have hr : Performs (boot ⟨1, .clock⟩ {} {} {}).1 [⟨.spawn "writer", (⟨1⟩ : Pid)⟩,
      ⟨.mapPage ⟨1⟩ (.ofNat 0x1000) true, Except.ok (.ofNat poolBase)⟩,
      ⟨.copyTo ⟨1⟩ (.ofNat 0x1000) (Call.write.stackImage [1, 0x1000, 16]), Except.ok ()⟩] k :=
    .cons hspawn (.cons hmap (.cons hstore (.nil _)))
  have hleads : (decode ⟨1⟩ registers.stackPointer).run.Leads k decoded k₁ (deviceUses events) :=
    ⟨events, hdecode, rfl⟩
  split at hwrite
  · contradiction
  · rename_i fd buffer length
    obtain ⟨_, hserved⟩ := decoded_trap_is_served ⟨1, .clock⟩ _ _ _ hfits hr ⟨1⟩ registers hleads
    obtain ⟨_, registers', k', uses', htrap⟩ := hserved _ rfl
    exact ⟨hfits, k, k₁, k', _, registers, registers', fd, buffer, length, _, uses', hr, hleads,
      htrap⟩
  · contradiction

end Kernel

end TeachingKernel
