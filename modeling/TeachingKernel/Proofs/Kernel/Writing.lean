import TeachingKernel.Proofs.Kernel.Requests

/-!
# What is written

The bytes of a buffer are handed on chunk by chunk, and the first chunk that is not taken whole is
the last.

Main statement: `write_delivers_buffer`.
-/

namespace TeachingKernel

/-! ## Handing on -/

section HandsOn

variable {σ : Type}

/-- Bytes are handed on, chunk by chunk, to something that tells how many bytes of a chunk it takes.
It ends when all bytes are taken, or with the first chunk that is not taken whole. What was handed
on are the chunks, each with the number of its bytes that were taken. -/
inductive HandsOn (put : σ → Bytes → Nat × σ) : σ → Bytes → List (Bytes × Nat) → σ → Prop
  | done {s : σ} : HandsOn put s [] [] s
  | short {s s' : σ} {data : Bytes} {taken : Nat} (hput : put s (data.take chunkSize) = (taken, s'))
      (hshort : taken < (data.take chunkSize).length) :
      HandsOn put s data [(data.take chunkSize, taken)] s'
  | whole {s s₁ s' : σ} {data : Bytes} {taken : Nat} {calls : List (Bytes × Nat)}
      (hdata : data ≠ []) (hput : put s (data.take chunkSize) = (taken, s₁))
      (hwhole : taken = (data.take chunkSize).length)
      (hrest : HandsOn put s₁ (data.drop chunkSize) calls s') :
      HandsOn put s data ((data.take chunkSize, taken) :: calls) s'

def accepted : List (Bytes × Nat) → Nat
  | [] => 0
  | call :: calls => call.2 + accepted calls

theorem accepted_cons (chunk : Bytes) (taken : Nat) (calls : List (Bytes × Nat)) :
    accepted ((chunk, taken) :: calls) = taken + accepted calls := rfl

namespace HandsOn

variable {put : σ → Bytes → Nat × σ} {s s' : σ} {data : Bytes} {calls : List (Bytes × Nat)}

/-- Something that takes whatever it is handed takes all. -/
theorem all_of_whole {next : σ → Bytes → σ}
    (hput : ∀ s chunk, put s chunk = (chunk.length, next s chunk))
    (h : HandsOn put s data calls s') :
    (calls.map Prod.fst).flatten = data ∧ accepted calls = data.length ∧
      s' = (calls.map Prod.fst).foldl next s := by
  induction h with
  | done => exact ⟨rfl, rfl, rfl⟩
  | short hshort hlt =>
    rw [hput] at hshort
    obtain ⟨rfl, -⟩ := Prod.mk.inj hshort
    exact absurd hlt (Nat.lt_irrefl _)
  | @whole s s₁ s' data taken calls _ hfirst hwhole _ ih =>
    rw [hput] at hfirst
    obtain ⟨-, rfl⟩ := Prod.mk.inj hfirst
    obtain ⟨hflatten, hsum, rfl⟩ := ih
    refine ⟨?_, ?_, rfl⟩
    · rw [List.map_cons, List.flatten_cons, hflatten, List.take_append_drop]
    · rw [accepted_cons, hsum, hwhole, ← List.length_append, List.take_append_drop]

end HandsOn

end HandsOn

namespace Kernel

open KernelM FrameLedger TrapM

variable {φ η χ ω σ : Type} {k : Kernel φ η χ ω} {pid : Pid} {fd : Int32} {buffer : VirtAddr}

variable [FileSystem φ η] [Console χ]

/-- The next chunk of a buffer that is there is handed on. What comes then is up to how much of it
was taken. -/
theorem leads_writeChunks_of_chunk {k₁ k₂ : Kernel φ η χ ω} {m : UserMemory}
    {data chunk scratch : Bytes} {done taken : Nat} {uses uses' : List (DeviceUse η)}
    {answer : Except TrapError Nat}
    (hmemory : (runningMemory pid).run.Leads k (.ok m) k []) (hw : m.WholeFrames)
    (hdata : m.contents.bytes? buffer.toNat data.length = some data) (hlt : done < data.length)
    (hchunk : (data.drop done).take chunkSize = chunk) (hscratch : scratch.length = chunkSize)
    (hput : (putChunk pid fd chunk).run.Leads k (.ok taken) k₁ uses)
    (hshort : taken < chunk.length →
      (pure (done + taken) : TrapM φ η χ ω Nat).run.Leads k₁ answer k₂ uses')
    (hwhole : ¬ taken < chunk.length → ∀ scratch : Bytes, scratch.length = chunkSize →
      (writeChunks pid fd buffer data.length (done + taken) scratch).run.Leads k₁ answer k₂ uses') :
    (writeChunks pid fd buffer data.length done scratch).run.Leads k answer k₂ (uses ++ uses') := by
  obtain ⟨count, hcount⟩ : ∃ count, min chunkSize (data.length - done) = count := ⟨_, rfl⟩
  have hlength : chunk.length = count := by
    rw [← hchunk, List.length_take, List.length_drop, hcount]
  have hthere : m.contents.bytes? (buffer.toNat + done) count = some chunk := by
    rw [PrivateMemory.bytes?_of_part hdata (by omega), ← hchunk, ← hcount, ← List.length_drop,
      ← List.take_eq_take_min]
  obtain ⟨va, hva⟩ : ∃ va, buffer.add? done = some va := by
    refine exists_add?_of_lt_userTop (lt_userTop_of_isSome_byte? (m := m) ?_)
    rw [(PrivateMemory.of_bytes?_eq_some hdata).2 done hlt, List.getElem?_eq_getElem hlt]
    rfl
  obtain ⟨room, hslice⟩ : ∃ room, scratch.slice 0 count = .ok room := ⟨_, if_pos (by omega)⟩
  have hroom := Bytes.length_of_slice hslice
  have hcopy : m.copyIn va room = .ok ⟨chunk, .ok ()⟩ := by
    apply UserMemory.copyIn_of_bytes? hw
    rw [Address.toNat_of_add? hva, hroom]
    exact hthere
  rw [writeChunks, if_pos hlt]
  simp only [hcount]
  refine leads_bind_nil (leads_bufferAt hva) (leads_bind_nil hmemory (leads_bind_nil
    (leads_ofChecked hslice) (leads_bind_nil (leads_ofChecked hcopy) (leads_bind_nil
      (leads_ofTrapChecked rfl) (leads_bind hput ?_)))))
  by_cases htaken : taken < count
  · rw [if_pos htaken]
    exact hshort (hlength ▸ htaken)
  · rw [if_neg htaken]
    obtain ⟨scratch', hover⟩ : ∃ scratch', scratch.overwrite 0 chunk = .ok scratch' :=
      Bytes.exists_overwrite (by omega)
    exact leads_bind_nil (leads_ofChecked hover)
      (hwhole (hlength ▸ htaken) scratch' ((Bytes.length_of_overwrite hover).trans hscratch))

/-- What is left of a buffer is handed on chunk by chunk. The chunks go to a state `σ` of the
kernel, the memory of the process stays as it is, and what the scratch page holds does not matter.
-/
theorem leads_writeChunks (embed : σ → Kernel φ η χ ω) (put : σ → Bytes → Nat × σ)
    (use : Bytes → Nat → DeviceUse η) {m : UserMemory} {data : Bytes}
    (hput : ∀ s chunk, (putChunk pid fd chunk).run.Leads (embed s) (.ok (put s chunk).1)
      (embed (put s chunk).2) [use chunk (put s chunk).1])
    (hle : ∀ s chunk, (put s chunk).1 ≤ chunk.length)
    (hmemory : ∀ s, (runningMemory pid).run.Leads (embed s) (.ok m) (embed s) [])
    (hw : m.WholeFrames) (hdata : m.contents.bytes? buffer.toNat data.length = some data)
    {done : Nat} (hdone : done ≤ data.length) (s : σ) :
    ∃ calls s', HandsOn put s (data.drop done) calls s' ∧
      ∀ scratch : Bytes, scratch.length = chunkSize →
        (writeChunks pid fd buffer data.length done scratch).run.Leads (embed s)
          (.ok (done + accepted calls)) (embed s') (calls.map fun call => use call.1 call.2) := by
  induction hn : data.length - done using Nat.strongRecOn generalizing done s with
  | ind n ih =>
    rcases Nat.eq_or_lt_of_le hdone with rfl | hlt
    · refine ⟨[], s, ?_, fun scratch _ => ?_⟩
      · rw [List.drop_length]
        exact .done
      · rw [writeChunks, if_neg (Nat.lt_irrefl _)]
        exact leads_pure _
    have hpos := chunkSize_pos
    obtain ⟨chunk, hchunk⟩ : ∃ chunk, (data.drop done).take chunkSize = chunk := ⟨_, rfl⟩
    obtain ⟨taken, s₁, hs₁⟩ : ∃ taken s₁, put s chunk = (taken, s₁) := ⟨_, _, rfl⟩
    have htaken := hle s chunk
    have hcall := hput s chunk
    rw [hs₁] at htaken hcall
    by_cases hshort : taken < chunk.length
    · refine ⟨[(chunk, taken)], s₁, ?_, fun scratch hscratch => ?_⟩
      · subst hchunk
        exact .short hs₁ hshort
      · exact leads_writeChunks_of_chunk (hmemory s) hw hdata hlt hchunk hscratch hcall
          (fun _ => leads_pure _) fun hwhole => absurd hshort hwhole
    · obtain rfl : taken = chunk.length := Nat.le_antisymm htaken (Nat.le_of_not_lt hshort)
      have hlength : chunk.length = min chunkSize (data.length - done) := by
        rw [← hchunk, List.length_take, List.length_drop]
      obtain ⟨calls, s', hon, hrest⟩ := ih (data.length - (done + chunk.length)) (by omega)
        (show done + chunk.length ≤ data.length by omega) s₁ rfl
      refine ⟨(chunk, chunk.length) :: calls, s', ?_, fun scratch hscratch => ?_⟩
      · have hdata' : data.drop done ≠ [] := by
          rw [Ne, List.drop_eq_nil_iff]
          omega
        -- behind the last chunk there is nothing, even if that chunk is shorter than a page
        have hdrop : data.drop (done + chunk.length) = (data.drop done).drop chunkSize := by
          rw [← List.drop_drop, ← hchunk, List.length_take, ← List.drop_eq_drop_min]
        rw [hdrop] at hon
        subst hchunk
        exact .whole hdata' hs₁ rfl hon
      · rw [List.map_cons, accepted_cons, ← Nat.add_assoc]
        exact leads_writeChunks_of_chunk (hmemory s) hw hdata hlt hchunk hscratch hcall
          (fun hlt => absurd hlt hshort) fun _ => hrest

/-! ## Where the chunks go -/

theorem leads_putChunk_of_console (k : Kernel φ η χ ω) (pid : Pid) (chunk : Bytes) :
    (putChunk pid consoleOutput chunk).run.Leads k (.ok chunk.length)
      { k with console := Console.putBytes k.console chunk } [.putBytes chunk] := by
  have hput : (Terminal.put chunk).Leads k () { k with console := Console.putBytes k.console chunk }
      [.putBytes chunk] := ⟨_, rfl, rfl⟩
  rw [putChunk, if_pos rfl]
  exact leads_bind (leads_lift hput) (leads_pure _)

theorem leads_putChunk_of_file {p : UserProcess η} {handle : η}
    (hp : k.processes.get? pid = some p) (hout : fd ≠ consoleOutput)
    (hfile : p.files.get? fd = some handle) (chunk : Bytes) :
    (putChunk pid fd chunk).run.Leads k (.ok (FileSystem.write k.files handle chunk).1)
      { k with files := (FileSystem.write k.files handle chunk).2 }
      [.write handle chunk (FileSystem.write k.files handle chunk).1] := by
  have hwrite : (Files.write handle chunk).Leads k (FileSystem.write k.files handle chunk).1
      { k with files := (FileSystem.write k.files handle chunk).2 }
      [.write handle chunk (FileSystem.write k.files handle chunk).1] := ⟨_, rfl, rfl⟩
  have hopen := leads_fileOf? hp fd
  rw [hfile] at hopen
  rw [putChunk, if_neg hout]
  exact leads_bind_nil hopen (leads_lift hwrite)

theorem leads_write_of_refused {p : UserProcess η} {length : Nat}
    (hp : k.processes.get? pid = some p)
    (h : fd = consoleInput ∨ fd ≠ consoleOutput ∧ p.files.get? fd = none) :
    (write pid fd buffer length).run.Leads k (.ok failed) k [] := by
  unfold write
  by_cases hin : fd = consoleInput
  · rw [if_pos hin]
    exact leads_pure _
  · rw [if_neg hin]
    obtain ⟨hout, hnone⟩ := h.resolve_left hin
    exact leads_bind_nil (leads_isOpen_of_none hp hout hnone) (leads_pure _)

theorem leads_write_of_chunks {p : UserProcess η} {length total : Nat} {k' : Kernel φ η χ ω}
    {uses : List (DeviceUse η)} (hp : k.processes.get? pid = some p) (hin : fd ≠ consoleInput)
    (hopen : fd ≠ consoleOutput → (p.files.get? fd).isSome = true)
    (hchunks : (writeChunks pid fd buffer length 0 Scratch.blank.bytes).run.Leads k (.ok total) k'
      uses) :
    (write pid fd buffer length).run.Leads k (.ok (byteCount total)) k' uses := by
  unfold write
  rw [if_neg hin]
  exact leads_bind_nil (leads_isOpen hp hopen) (leads_bind_quiet hchunks (leads_pure _))

omit [FileSystem φ η] in
/-- Output that grows by each piece grows by all of them. -/
theorem output_foldl_putBytes {output : χ → Bytes}
    (hput : ∀ c bytes, output (Console.putBytes c bytes) = output c ++ bytes) (pieces : List Bytes)
    (c : χ) : output (pieces.foldl Console.putBytes c) = output c ++ pieces.flatten := by
  induction pieces generalizing c with
  | nil => rw [List.foldl_nil, List.flatten_nil, List.append_nil]
  | cons piece pieces ih => rw [List.foldl_cons, ih, hput, List.flatten_cons, List.append_assoc]

/-- What becomes of bytes that a process writes under a descriptor, in the result, the kernel and
the uses of the devices. The console takes them all, piece by piece. A file that is open takes them
chunk by chunk up to the first that it does not take whole. Nothing else takes any. -/
inductive Written (k : Kernel φ η χ ω) (p : UserProcess η) (fd : Int32) (data : Bytes) :
    UInt32 → Kernel φ η χ ω → List (DeviceUse η) → Prop
  | console {pieces : List Bytes} {result : UInt32} (hfd : fd = consoleOutput)
      (hpieces : pieces.flatten = data) (hresult : result.toNat = min data.length 2147483647) :
      Written k p fd data result
        { k with console := pieces.foldl Console.putBytes k.console } (pieces.map .putBytes)
  | file {handle : η} {calls : List (Bytes × Nat)} {files : φ} {result : UInt32}
      (hin : fd ≠ consoleInput) (hout : fd ≠ consoleOutput) (hopen : p.files.get? fd = some handle)
      (hcalls : HandsOn (FileSystem.write · handle) k.files data calls files)
      (hresult : result.toNat = min (accepted calls) 2147483647) :
      Written k p fd data result { k with files }
        (calls.map fun call => .write handle call.1 call.2)
  | refused {result : UInt32}
      (hfd : fd = consoleInput ∨ fd ≠ consoleOutput ∧ p.files.get? fd = none)
      (hresult : result.toInt32 = -1) : Written k p fd data result k []

/-- Bytes that are there are written as told. -/
theorem exists_leads_write
    (hle : ∀ (fs : φ) (handle : η) bytes, (FileSystem.write fs handle bytes).1 ≤ bytes.length)
    {p : UserProcess η} {data : Bytes} (hp : k.processes.running? pid = some p)
    (hw : (k.memoryOf p).WholeFrames)
    (hdata : (k.memoryOf p).contents.bytes? buffer.toNat data.length = some data) (fd : Int32) :
    ∃ n k' uses, (write pid fd buffer data.length).run.Leads k (.ok n) k' uses ∧
      Written k p fd data n.toUInt32 k' uses := by
  have hget := get?_of_running? hp
  have hblank : Scratch.blank.bytes.length = chunkSize := Scratch.blank.page.length_bytes
  by_cases hout : fd = consoleOutput
  · -- the console takes every chunk whole
    subst hout
    obtain ⟨calls, console, hon, hchunks⟩ := leads_writeChunks
      (fun console => { k with console })
      (fun console chunk => (chunk.length, Console.putBytes console chunk))
      (fun chunk _ => .putBytes chunk)
      (fun console chunk => leads_putChunk_of_console { k with console } pid chunk)
      (fun _ _ => Nat.le_refl _)
      (fun console => leads_runningMemory (k := { k with console }) hp) hw hdata (Nat.zero_le _)
      k.console
    obtain ⟨hpieces, htotal, rfl⟩ := hon.all_of_whole fun _ _ => rfl
    rw [List.drop_zero] at hpieces htotal
    have hwrite := leads_write_of_chunks hget (by decide) (fun h => absurd rfl h)
      (hchunks Scratch.blank.bytes hblank)
    have huses : calls.map (fun call => (.putBytes call.1 : DeviceUse η)) =
        (calls.map Prod.fst).map .putBytes := by
      rw [List.map_map]
      rfl
    rw [huses] at hwrite
    refine ⟨_, _, _, hwrite, .console rfl hpieces ?_⟩
    rw [toNat_toUInt32_byteCount, Nat.zero_add, htotal]
  by_cases hrefused : fd = consoleInput ∨ p.files.get? fd = none
  · have hrefused' : fd = consoleInput ∨ fd ≠ consoleOutput ∧ p.files.get? fd = none :=
      hrefused.imp_right fun hnone => ⟨hout, hnone⟩
    exact ⟨_, k, [], leads_write_of_refused hget hrefused', .refused hrefused' (by decide)⟩
  · obtain ⟨hin, hopen⟩ := not_or.mp hrefused
    obtain ⟨handle, hfile⟩ := Option.ne_none_iff_exists'.mp hopen
    obtain ⟨calls, files, hon, hchunks⟩ := leads_writeChunks
      (fun files => { k with files }) (FileSystem.write · handle ·) (.write handle)
      (fun files chunk => leads_putChunk_of_file (k := { k with files }) hget hout hfile chunk)
      (fun files chunk => hle files handle chunk)
      (fun files => leads_runningMemory (k := { k with files }) hp) hw hdata (Nat.zero_le _)
      k.files
    rw [List.drop_zero] at hon
    have hwrite := leads_write_of_chunks hget hin (fun _ => by rw [hfile]; rfl)
      (hchunks Scratch.blank.bytes hblank)
    refine ⟨_, _, _, hwrite, .file hin hout hfile hon ?_⟩
    rw [toNat_toUInt32_byteCount, Nat.zero_add]

/-! ## The trap -/

section Traps

variable [Host ω]

/-- Whatever was performed since boot, a trap that is decoded as a write is one whose words say so.
The bytes of the buffer are all there, and they are written in their order: the console takes each
of them, a file takes them chunk by chunk up to the first chunk that it does not take whole, and
nothing is written under a descriptor without an open file. How many were taken goes into the result
register. The frames, the processes and with them all memories stay as they are. -/
theorem write_delivers_buffer (config : Config) (files : φ) (console : χ) (host : ω)
    (hfits : poolBase + config.frames * pageSize ≤ addressBound)
    {steps : List ((op : Operation) × op.Answer)}
    (hr : Performs (boot config files console host).1 steps k) (pid : Pid) (registers : Registers)
    {fd : Int32} {buffer : VirtAddr} {length : Nat} {k₁ : Kernel φ η χ ω}
    {uses₁ : List (DeviceUse η)}
    (hle : ∀ (fs : φ) (handle : η) bytes, (FileSystem.write fs handle bytes).1 ≤ bytes.length)
    (hdecode : (decode pid registers.stackPointer).run.Leads k (.ok (.write fd buffer length)) k₁
      uses₁) :
    ∃ p m c data, k.processes.running? pid = some p ∧ k.memory? pid = some m ∧
      (m.rawCall? registers.stackPointer.toNat = some c ∧ c.call = .write ∧
        fd = c.first.toInt32 ∧ buffer = wordAddress c.second ∧ length = c.third.toNat) ∧
      m.bytes? buffer.toNat length = some data ∧
      ∃ result k' uses, (trap pid registers).Leads k (.resume, { registers with result }) k' uses ∧
        Written k p fd data result k' uses ∧
        (fd = consoleOutput → result.toNat = min length 2147483647 ∧
          ∀ output : χ → Bytes, (∀ c bytes, output (Console.putBytes c bytes) = output c ++ bytes) →
            output k'.console = output k.console ++ data) ∧
        k'.frames = k.frames ∧ k'.processes = k.processes ∧ k'.memory? = k.memory? := by
  obtain ⟨es, h, hs, _⟩ := hr.coherent hfits
  obtain ⟨rfl, rfl, p, c, hasks⟩ := asks_of_decode h hdecode
  have hget := get?_of_running? hasks.running
  obtain ⟨data, hdata⟩ := PrivateMemory.exists_bytes? hasks.admits
  obtain rfl : data.length = length := (PrivateMemory.of_bytes?_eq_some hdata).1
  obtain ⟨n, k', uses, hwrite, hwritten⟩ :=
    exists_leads_write hle hasks.running (h.wholeFrames hget) hdata fd
  have hdispatch : (dispatch pid (.write fd buffer data.length)).run.Leads k₁ (.ok (.value n)) k'
      uses := leads_bind_quiet hwrite (leads_pure _)
  refine ⟨p, _, c, data, hasks.running, memory?_of_get? hget,
    ⟨hasks.call, Request.args_of_write hasks.granted⟩, hdata, _, k', uses,
    leads_trap_of_value hdecode hdispatch, hwritten, fun hout => ?_, ?_⟩
  · cases hwritten with
    | console _ hpieces hresult =>
      refine ⟨hresult, fun output hput => ?_⟩
      rw [← hpieces]
      exact output_foldl_putBytes hput _ _
    | file _ hout' => exact absurd hout hout'
    | refused hfd =>
      rcases hfd with hin | ⟨hout', _⟩
      · exact absurd (hout.symm.trans hin) (by decide)
      · exact absurd hout hout'
  · cases hwritten <;> exact ⟨rfl, rfl, rfl⟩

end Traps

set_option synthInstance.maxSize 512 in
/-- A program writes the sixteen bytes of its own call to the console. -/
theorem write_delivers_buffer_of_own_call :
    poolBase + 1 * pageSize ≤ addressBound ∧
      ∃ (k k' : Kernel MemoryFileSystem FileHandle BufferConsole ScriptedHost)
        (steps : List ((op : Operation) × op.Answer)) (registers : Registers) (result : UInt32)
        (uses : List (DeviceUse FileHandle)),
        Performs (boot ⟨1, .clock⟩ {} {} {}).1 steps k ∧
        (trap ⟨1⟩ registers).Leads k (.resume, { registers with result }) k' uses ∧
        result.toNat = 16 ∧ k'.console.output = Call.write.stackImage [1, 0x1000, 16] := by
  have hfits : poolBase + 1 * pageSize ≤ addressBound := by decide
  -- the run, what is there before the trap, and what comes of the decoding, computed at once
  have hanswers : ((do
      let pid ← spawn "writer"
      let mapped ← mapPage ⟨1⟩ (.ofNat 0x1000) true
      let stored ← copyTo ⟨1⟩ (.ofNat 0x1000) (Call.write.stackImage [1, 0x1000, 16])
      let k ← get
      let decoded ← (decode ⟨1⟩ (.ofNat 0x1000)).run
      return ((pid, mapped, stored), k.console.output, (k.memory? ⟨1⟩).bind (·.rawCall? 0x1000),
        (k.memory? ⟨1⟩).bind (·.bytes? 0x1000 16), decoded.toOption.map Request.call) :
        KernelM MemoryFileSystem FileHandle BufferConsole ScriptedHost _).run
      (boot ⟨1, .clock⟩ {} {} {}).1).map Prod.fst =
        .ok ((⟨1⟩, .ok (.ofNat poolBase), .ok ()), [], some ⟨.write, 1, 0x1000, 16⟩,
          some (Call.write.stackImage [1, 0x1000, 16]), some .write) := by
    decide +kernel
  obtain ⟨_, _, hrun⟩ := exists_run_eq hanswers
  obtain ⟨_, _, _, _, hspawn, hrun, _⟩ := run_bind_eq_ok.mp hrun
  obtain ⟨_, _, _, _, hmap, hrun, _⟩ := run_bind_eq_ok.mp hrun
  obtain ⟨_, k, _, _, hstore, hrun, _⟩ := run_bind_eq_ok.mp hrun
  rw [KernelM.run_get_bind] at hrun
  obtain ⟨decoded, k₁, events, _, hdecode, hrun, _⟩ := run_bind_eq_ok.mp hrun
  simp only [run_pure, Except.ok.injEq, Prod.mk.injEq] at hrun
  obtain ⟨⟨⟨rfl, rfl, rfl⟩, houtput, hraw, hbytes, hcall⟩, _⟩ := hrun
  let registers : Registers := ⟨.ofNat 0x1000, 0⟩
  have hr : Performs (boot ⟨1, .clock⟩ {} {} {}).1 [⟨.spawn "writer", (⟨1⟩ : Pid)⟩,
      ⟨.mapPage ⟨1⟩ (.ofNat 0x1000) true, Except.ok (.ofNat poolBase)⟩,
      ⟨.copyTo ⟨1⟩ (.ofNat 0x1000) (Call.write.stackImage [1, 0x1000, 16]), Except.ok ()⟩] k :=
    .cons hspawn (.cons hmap (.cons hstore (.nil _)))
  obtain ⟨request, rfl, hcall⟩ := Request.eq_ok_of_map_call hcall
  cases request with
  | write fd buffer length =>
    have hleads : (decode ⟨1⟩ registers.stackPointer).run.Leads k (.ok (.write fd buffer length)) k₁
        (deviceUses events) := ⟨events, hdecode, rfl⟩
    obtain ⟨_, m, c, data, _, hm, ⟨hc, _, rfl, rfl, rfl⟩, hdata, result, k', uses, htrap, _,
        hconsole, _⟩ := write_delivers_buffer ⟨1, .clock⟩ _ _ _ hfits hr ⟨1⟩ registers
      LawfulFileSystem.write_le hleads
    rw [hm, Option.bind_some] at hraw hbytes
    obtain rfl : c = ⟨.write, 1, 0x1000, 16⟩ := Option.some.inj (hc.symm.trans hraw)
    obtain rfl : data = Call.write.stackImage [1, 0x1000, 16] :=
      Option.some.inj (hdata.symm.trans hbytes)
    obtain ⟨hresult, hgrows⟩ := hconsole rfl
    refine ⟨hfits, k, k', _, registers, result, uses, hr, htrap, hresult, ?_⟩
    rw [hgrows BufferConsole.output fun _ _ => rfl, houtput, List.nil_append]
  | _ => cases hcall

end Kernel

end TeachingKernel
