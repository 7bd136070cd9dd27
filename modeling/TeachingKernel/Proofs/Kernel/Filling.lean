import TeachingKernel.Proofs.Kernel.Requests

/-!
# What is read

A buffer is filled with what comes in, chunk by chunk, and the first chunk that comes in short is
the last. Each chunk goes to the buffer behind the one before it, and nowhere else.

The chunks come in through one scratch page, at the front of which every chunk is lent out. A chunk
that comes in short leaves bytes of earlier chunks behind it on the page, and these stay there: what
goes to the buffer is what came in.

Main statement: `read_fills_buffer`.
-/

namespace TeachingKernel

/-! ## Drawing -/

section Draws

variable {σ : Type} {draw : σ → Nat → Bytes × σ} {lend : σ → Bytes → (Bytes × Nat) × σ} {s s' : σ}
  {page : Bytes} {n : Nat} {calls : List (Nat × Bytes)}

/-- So many bytes are drawn in, chunk by chunk, from something that answers a count with bytes. It
ends when all have come in, or with the first chunk that comes in short. What was drawn are the
chunks, each with the count that was asked for. -/
inductive DrawsIn (draw : σ → Nat → Bytes × σ) : σ → Nat → List (Nat × Bytes) → σ → Prop
  | done {s : σ} : DrawsIn draw s 0 [] s
  | short {s s' : σ} {n : Nat} {chunk : Bytes} (hdraw : draw s (min chunkSize n) = (chunk, s'))
      (hshort : chunk.length < min chunkSize n) :
      DrawsIn draw s n [(min chunkSize n, chunk)] s'
  | whole {s s₁ s' : σ} {n : Nat} {chunk : Bytes} {calls : List (Nat × Bytes)} (hpos : 0 < n)
      (hdraw : draw s (min chunkSize n) = (chunk, s₁)) (hwhole : chunk.length = min chunkSize n)
      (hrest : DrawsIn draw s₁ (n - chunk.length) calls s') :
      DrawsIn draw s n ((min chunkSize n, chunk) :: calls) s'

/-- The same through a page, from something that is lent a buffer and gives it back with a count. It
is lent the front of the page, which is afterwards what was given back. What came in with a call is
as much of that as the call counts. -/
inductive DrawsThrough (lend : σ → Bytes → (Bytes × Nat) × σ) :
    σ → Bytes → Nat → List (Nat × Bytes) → σ → Prop
  | done {s : σ} {page : Bytes} : DrawsThrough lend s page 0 [] s
  | short {s s' : σ} {page chunk : Bytes} {n got : Nat}
      (hlend : lend s (page.take (min chunkSize n)) = ((chunk, got), s'))
      (hshort : got < min chunkSize n) :
      DrawsThrough lend s page n [(min chunkSize n, chunk.take got)] s'
  | whole {s s₁ s' : σ} {page chunk : Bytes} {n got : Nat} {calls : List (Nat × Bytes)}
      (hpos : 0 < n) (hlend : lend s (page.take (min chunkSize n)) = ((chunk, got), s₁))
      (hwhole : got = min chunkSize n)
      (hrest : DrawsThrough lend s₁ (chunk ++ page.drop (min chunkSize n)) (n - got) calls s') :
      DrawsThrough lend s page n ((min chunkSize n, chunk.take got) :: calls) s'

/-- What came in. -/
def drawn (calls : List (Nat × Bytes)) : Bytes := (calls.map Prod.snd).flatten

@[simp] theorem drawn_cons (count : Nat) (chunk : Bytes) (calls : List (Nat × Bytes)) :
    drawn ((count, chunk) :: calls) = chunk ++ drawn calls := rfl

theorem drawn_singleton (count : Nat) (chunk : Bytes) : drawn [(count, chunk)] = chunk :=
  List.append_nil chunk

/-- No more comes in than was asked for. -/
theorem DrawsThrough.length_le (h : DrawsThrough lend s page n calls s') :
    (drawn calls).length ≤ n := by
  induction h with
  | done => exact Nat.le_refl 0
  | short _ hshort =>
    rw [drawn_singleton, List.length_take]
    omega
  | whole _ _ hwhole _ ih =>
    rw [drawn_cons, List.length_append, List.length_take]
    omega

/-- Whatever a buffer held before, it is filled with the bytes that an answer to its length would
be. -/
def Gives (draw : σ → Nat → Bytes × σ) (lend : σ → Bytes → (Bytes × Nat) × σ) : Prop :=
  ∀ s buffer, (lend s buffer).1.1.take (lend s buffer).1.2 = (draw s buffer.length).1 ∧
    (lend s buffer).2 = (draw s buffer.length).2

theorem length_take_chunkSize (hpage : page.length = chunkSize) (n : Nat) :
    (page.take (min chunkSize n)).length = min chunkSize n :=
  List.length_take_of_le (hpage.symm ▸ Nat.min_le_left _ _)

/-- Nothing that the page held before comes in: what is drawn in through it are the answers. -/
theorem DrawsThrough.drawsIn (hgives : Gives draw lend)
    (hkeeps : ∀ s buffer, (lend s buffer).1.1.length = buffer.length)
    (h : DrawsThrough lend s page n calls s') (hpage : page.length = chunkSize) :
    DrawsIn draw s n calls s' := by
  induction h with
  | done => exact .done
  | @short s s' page chunk n got hlend hshort =>
    obtain ⟨hchunk, hnext⟩ := hgives s (page.take (min chunkSize n))
    rw [hlend, length_take_chunkSize hpage] at hchunk hnext
    exact .short (Prod.ext hchunk.symm hnext.symm) (by rw [List.length_take]; omega)
  | @whole s s₁ s' page chunk n got calls hpos hlend hwhole _ ih =>
    obtain ⟨hchunk, hnext⟩ := hgives s (page.take (min chunkSize n))
    have hlength := hkeeps s (page.take (min chunkSize n))
    rw [hlend, length_take_chunkSize hpage] at hchunk hnext hlength
    have htake : (chunk.take got).length = got :=
      List.length_take_of_le (Nat.le_of_eq (hwhole.trans hlength.symm))
    have hrest := ih (by rw [List.length_append, List.length_drop, hlength]; omega)
    exact .whole hpos (Prod.ext hchunk.symm hnext.symm) (htake.trans hwhole) (htake.symm ▸ hrest)

/-- An answer is put at the front of the buffer, and the rest of it stays as it is. -/
def pour (draw : σ → Nat → Bytes × σ) (s : σ) (buffer : Bytes) : (Bytes × Nat) × σ :=
  let bytes := (draw s buffer.length).1
  ((bytes ++ buffer.drop bytes.length, bytes.length), (draw s buffer.length).2)

theorem gives_pour (draw : σ → Nat → Bytes × σ) : Gives draw (pour draw) :=
  fun _ _ => ⟨List.take_left, rfl⟩

/-- A file in memory gives its contents from the handle's position on. -/
theorem MemoryFileSystem.gives_read (handle : FileHandle) :
    Gives (fun (fs : MemoryFileSystem) count =>
      let start := (fs.use handle).position
      let bytes := (fs.body handle).read start (capped fs.readLimit count)
      (bytes, fs.move handle (start + bytes.length))) (FileSystem.read · handle ·) :=
  gives_pour _

theorem length_pour {buffer : Bytes} (h : (draw s buffer.length).1.length ≤ buffer.length) :
    (pour draw s buffer).1.1.length = buffer.length := by
  simp only [pour, List.length_append, List.length_drop]
  omega

end Draws

section Console

variable {χ : Type} [Console χ]

/-- Chunks that are drawn in from a console are its next bytes, and no byte is asked for that is not
among them, but one in vain at the end of the input. -/
theorem DrawsIn.takeBytes {η : Type} {c c' : χ} {n : Nat} {calls : List (Nat × Bytes)}
    (h : DrawsIn Console.takeBytes c n calls c') :
    Console.takeBytes c n = (drawn calls, c') ∧
      calls.flatMap (fun call => inputUses call.1 call.2) =
        (inputUses n (drawn calls) : List (DeviceUse η)) := by
  induction h with
  | done => exact ⟨rfl, rfl⟩
  | @short c c' n chunk hdraw hshort =>
    have hadd := Console.takeBytes_add c (min chunkSize n) (n - min chunkSize n)
    rw [hdraw, if_pos hshort, Nat.add_sub_cancel' (Nat.min_le_right _ _)] at hadd
    have hlt : chunk.length < n := Nat.lt_of_lt_of_le hshort (Nat.min_le_right _ _)
    rw [drawn_singleton, List.flatMap_singleton, inputUses, inputUses, if_pos hshort, if_pos hlt]
    exact ⟨hadd, rfl⟩
  | @whole c c₁ c' n chunk calls hpos hdraw hwhole _ ih =>
    obtain ⟨htake, huses⟩ := ih
    have hle : chunk.length ≤ n := hwhole ▸ Nat.min_le_right _ _
    have hadd := Console.takeBytes_add c (min chunkSize n) (n - min chunkSize n)
    rw [hdraw, if_neg (Nat.not_lt.mpr hwhole.ge), Nat.add_sub_cancel' (Nat.min_le_right _ _),
      ← hwhole, htake] at hadd
    refine ⟨hadd, ?_⟩
    have hiff : (drawn calls).length < n - chunk.length ↔ (chunk ++ drawn calls).length < n := by
      rw [List.length_append]
      omega
    rw [List.flatMap_cons, huses, drawn_cons, inputUses, inputUses, inputUses, ← hwhole,
      if_neg (Nat.lt_irrefl _), List.append_nil, List.map_append, List.append_assoc]
    simp only [hiff]

end Console

namespace Kernel

open KernelM FrameLedger TrapM

variable {φ η χ ω σ : Type} {k k' : Kernel φ η χ ω} {es : List (Nat × Loan)} {pid : Pid}
  {p : UserProcess η} {fd : Int32} {buffer : VirtAddr}

/-- The kernel with another file system, another console and another pool. -/
def withDevices (k : Kernel φ η χ ω) (files : φ) (console : χ) (pool : PagePool) :
    Kernel φ η χ ω :=
  { k with files, console, frames := { k.frames with pool } }

/-- The books do not speak of the devices. -/
theorem Coherent.withDevices {files files' : φ} {console console' : χ} {pool : PagePool}
    (h : Coherent (k.withDevices files console pool) es) :
    Coherent (k.withDevices files' console' pool) es :=
  Steady.coherent (Indifferent.setDevices (k.withDevices files console pool) files' console' k.host)
    h

/-! ## Storing a chunk -/

/-- The memory of a process ends where the user addresses end. -/
theorem exists_add?_of_isWritable {m : PrivateMemory} {done : Nat}
    (hp : k.processes.get? pid = some p) (hm : k.memory? pid = some m)
    (hw : m.isWritable (buffer.toNat + done) = true) : ∃ va, buffer.add? done = some va := by
  obtain rfl := Option.some.inj (hm.symm.trans (memory?_of_get? hp))
  exact exists_add?_of_lt_userTop (lt_userTop_of_isWritable hw)

/-- A store where the memory of the process is writable. -/
theorem leads_copyOut (h : Coherent k es) (hs : Sole es) (hp : k.processes.get? pid = some p)
    {m : PrivateMemory} (hm : k.memory? pid = some m) {va : VirtAddr} {bytes : Bytes}
    (hw : ∀ i < bytes.length, m.isWritable (va.toNat + i) = true) :
    ∃ pool, (copyOut pid va bytes).run.Leads k (.ok ())
        { k with frames := { k.frames with pool } } [] ∧
      Coherent { k with frames := { k.frames with pool } } es ∧
      memory? { k with frames := { k.frames with pool } } =
        Function.update k.memory? pid (some (m.store va.toNat bytes)) := by
  obtain rfl := Option.some.inj (hm.symm.trans (memory?_of_get? hp))
  cases bytes with
  | nil =>
    refine ⟨k.frames.pool, leads_pure _, h, ?_⟩
    rw [PrivateMemory.store_nil, ← hm, Function.update_eq_self]
  | cons byte bytes =>
    rcases UserMemory.copyOut_spec (h.separate hs hp) (h.backedMemory hp) va (byte :: bytes) with
      ⟨_, pool, hrun, _⟩ | ⟨hnot, _⟩
    · have hsteady : Steady k { k with frames := { k.frames with pool } } :=
        (inferInstance : Allows Steady pid).setPool k p va _ _ pool hp hrun
      refine ⟨pool, ?_, hsteady.coherent h, ?_⟩
      · exact leads_bind_nil (leads_knownProcess hp) (TrapM.leads_get_bind
          (leads_bind_nil (leads_ofChecked hrun) (leads_bind_nil (leads_lift (leads_modify _))
            (leads_ofTrapChecked rfl))))
      · rcases memory?_setPool h hs hp hrun with ⟨_, _, hm⟩ | ⟨hnot, _⟩
        · exact hm
        · exact absurd hw hnot
    · exact absurd hw hnot

variable [FileSystem φ η] [Console χ]

/-- The next chunk of a buffer is filled with what comes in. What comes then is up to how much that
is. -/
theorem leads_readChunks_of_chunk {k₁ k₂ : Kernel φ η χ ω} {scratch chunk : Bytes}
    {length done count got : Nat} {uses uses' : List (DeviceUse η)} {answer : Except TrapError Nat}
    {va : VirtAddr} (hlt : done < length) (hcount : min chunkSize (length - done) = count)
    (hscratch : scratch.length = chunkSize) (hva : buffer.add? done = some va)
    (htake : (takeChunk pid fd count (scratch.take count)).run.Leads k (.ok (chunk, got)) k' uses)
    (hlength : chunk.length = count) (hgot : got ≤ count)
    (hcopy : (copyOut pid va (chunk.take got)).run.Leads k' (.ok ()) k₁ [])
    (hshort : got < count →
      (pure (done + got) : TrapM φ η χ ω Nat).run.Leads k₁ answer k₂ uses')
    (hwhole : ¬ got < count →
      (readChunks pid fd buffer length (done + got) (chunk ++ scratch.drop count)).run.Leads k₁
        answer k₂ uses') :
    (readChunks pid fd buffer length done scratch).run.Leads k answer k₂ (uses ++ uses') := by
  have hroom : count ≤ scratch.length := by omega
  have hover : scratch.overwrite 0 chunk = .ok (chunk ++ scratch.drop count) := by
    rw [Bytes.overwrite_zero (hlength.symm ▸ hroom), hlength]
  have hpiece : (chunk ++ scratch.drop count).slice 0 got = .ok (chunk.take got) := by
    have hle : got ≤ chunk.length := hlength.symm ▸ hgot
    rw [Bytes.slice_zero (by rw [List.length_append]; omega), Bytes.front_eq_take,
      List.take_append_of_le_length hle]
  rw [readChunks, if_pos hlt]
  simp only [hcount]
  refine leads_bind_nil (leads_ofChecked (Bytes.slice_zero hroom)) (leads_bind htake
    (leads_bind_nil (leads_ofChecked hover) (leads_bind_nil (leads_bufferAt hva)
      (leads_bind_nil (leads_ofChecked hpiece) (leads_bind_nil hcopy ?_)))))
  split
  · rename_i hless
    exact hshort hless
  · rename_i hnot
    exact hwhole hnot

/-- What is left of a buffer is filled chunk by chunk. The chunks come from a state `σ` of the
devices, and all that came in is stored in the buffer, one chunk behind the other. -/
theorem leads_readChunks (files : σ → φ) (console : σ → χ) (lend : σ → Bytes → (Bytes × Nat) × σ)
    (use : Nat → Bytes → List (DeviceUse η)) {m : PrivateMemory} {length done : Nat}
    (htake : ∀ s pool chunk, (takeChunk pid fd chunk.length chunk).run.Leads
      (k.withDevices (files s) (console s) pool) (.ok (lend s chunk).1)
      (k.withDevices (files (lend s chunk).2) (console (lend s chunk).2) pool)
      (use chunk.length ((lend s chunk).1.1.take (lend s chunk).1.2)))
    (hkeeps : ∀ s chunk, (lend s chunk).1.1.length = chunk.length)
    (hle : ∀ s chunk, (lend s chunk).1.2 ≤ chunk.length) (hs : Sole es)
    (hp : k.processes.get? pid = some p)
    (hw : ∀ i < length, m.isWritable (buffer.toNat + i) = true) (hdone : done ≤ length) (s : σ)
    {scratch : Bytes} (hscratch : scratch.length = chunkSize)
    (pool : PagePool) (h : Coherent (k.withDevices (files s) (console s) pool) es)
    (hm : (k.withDevices (files s) (console s) pool).memory? pid = some m) :
    ∃ calls s' pool', DrawsThrough lend s scratch (length - done) calls s' ∧
      (readChunks pid fd buffer length done scratch).run.Leads
        (k.withDevices (files s) (console s) pool)
        (.ok (done + (drawn calls).length)) (k.withDevices (files s') (console s') pool')
        (calls.flatMap fun call => use call.1 call.2) ∧
      (k.withDevices (files s') (console s') pool').memory? =
        Function.update (k.withDevices (files s) (console s) pool).memory? pid
          (some (m.store (buffer.toNat + done) (drawn calls))) := by
  induction hn : length - done using Nat.strongRecOn generalizing done s scratch pool m with
  | ind n ih =>
    subst hn
    rcases Nat.eq_or_lt_of_le hdone with rfl | hlt
    · refine ⟨[], s, pool, ?_, ?_, ?_⟩
      · rw [Nat.sub_self]
        exact .done
      · rw [readChunks, if_neg (Nat.lt_irrefl _)]
        exact leads_pure _
      · have hnil : drawn [] = [] := rfl
        rw [hnil, PrivateMemory.store_nil, ← hm, Function.update_eq_self]
    have hpos := chunkSize_pos
    obtain ⟨count, hcount⟩ : ∃ count, min chunkSize (length - done) = count := ⟨_, rfl⟩
    have hroom : (scratch.take count).length = count := hcount ▸ length_take_chunkSize hscratch _
    obtain ⟨chunk, got, s₁, hs₁⟩ : ∃ chunk got s₁,
        lend s (scratch.take count) = ((chunk, got), s₁) := ⟨_, _, _, rfl⟩
    have hlength : chunk.length = count := by
      have := hkeeps s (scratch.take count)
      rwa [hs₁, hroom] at this
    have hgot : got ≤ count := by
      have := hle s (scratch.take count)
      rwa [hs₁, hroom] at this
    have hcall := htake s pool (scratch.take count)
    rw [hs₁, hroom] at hcall
    -- what came in is all of the bytes that were counted
    have htaken : (chunk.take got).length = got := List.length_take_of_le (hlength.symm ▸ hgot)
    obtain ⟨va, hva⟩ : ∃ va, buffer.add? done = some va :=
      exists_add?_of_isWritable (k := k.withDevices (files s) (console s) pool) hp hm (hw done hlt)
    have hva' := Address.toNat_of_add? hva
    -- the chunk is stored where the buffer goes on
    have hstores : ∀ i < (chunk.take got).length, m.isWritable (va.toNat + i) = true := by
      intro i hi
      rw [htaken] at hi
      rw [hva', Nat.add_assoc]
      exact hw _ (by omega)
    obtain ⟨pool₁, hcopy, h₁, hstored⟩ :=
      leads_copyOut (k := k.withDevices (files s₁) (console s₁) pool) h.withDevices hs hp hm hstores
    have hm₁ : (k.withDevices (files s₁) (console s₁) pool₁).memory? =
        Function.update (k.withDevices (files s) (console s) pool).memory? pid
          (some (m.store (buffer.toNat + done) (chunk.take got))) := by
      rw [← hva']
      exact hstored
    by_cases hshort : got < count
    · refine ⟨[(count, chunk.take got)], s₁, pool₁, ?_, ?_, ?_⟩
      · subst hcount
        exact .short hs₁ hshort
      · rw [drawn_singleton, htaken]
        exact leads_readChunks_of_chunk hlt hcount hscratch hva hcall hlength hgot hcopy
          (fun _ => leads_pure _) fun hnot => absurd hshort hnot
      · rw [drawn_singleton]
        exact hm₁
    · have hwhole : got = count := Nat.le_antisymm hgot (Nat.le_of_not_lt hshort)
      have hself := congrFun hm₁ pid
      rw [Function.update_self] at hself
      have hw₁ : ∀ i < length, (m.store (buffer.toNat + done) (chunk.take got)).isWritable
          (buffer.toNat + i) = true := fun i hi => (m.isWritable_store _ _ _).trans (hw i hi)
      have hscratch₁ : (chunk ++ scratch.drop count).length = chunkSize := by
        rw [List.length_append, List.length_drop]
        omega
      obtain ⟨calls, s', pool', hdraws, hrest, hm'⟩ :=
        ih (length - (done + got)) (by omega) hw₁ (by omega) s₁ hscratch₁ pool₁ h₁ hself rfl
      refine ⟨(count, chunk.take got) :: calls, s', pool', ?_, ?_, ?_⟩
      · subst hcount
        rw [← Nat.sub_sub] at hdraws
        exact .whole (by omega) hs₁ hwhole hdraws
      · rw [drawn_cons, List.length_append, htaken, ← Nat.add_assoc]
        exact leads_readChunks_of_chunk hlt hcount hscratch hva hcall hlength hgot hcopy
          (fun hless => absurd hless hshort) fun _ => hrest
      · have hnext : buffer.toNat + (done + got) =
            buffer.toNat + done + (chunk.take got).length := by omega
        rw [hm', hm₁, Function.update_idem, hnext, PrivateMemory.store_store, drawn_cons]

/-! ## Where the chunks come from -/

theorem leads_takeChunk_of_console (k : Kernel φ η χ ω) (pid : Pid) (chunk : Bytes) :
    (takeChunk pid consoleInput chunk.length chunk).run.Leads k
      (.ok (pour Console.takeBytes k.console chunk).1)
      { k with console := (pour Console.takeBytes k.console chunk).2 }
      (inputUses chunk.length ((pour Console.takeBytes k.console chunk).1.1.take
        (pour Console.takeBytes k.console chunk).1.2)) := by
  rw [takeChunk, if_pos rfl, (gives_pour Console.takeBytes k.console chunk).1]
  exact leads_lift (leads_fill_chunk k chunk rfl)

theorem leads_takeChunk_of_file {handle : η} (hp : k.processes.get? pid = some p)
    (hin : fd ≠ consoleInput) (hfile : p.files.get? fd = some handle) (chunk : Bytes) :
    (takeChunk pid fd chunk.length chunk).run.Leads k
      (.ok (FileSystem.read k.files handle chunk).1)
      { k with files := (FileSystem.read k.files handle chunk).2 }
      [.read handle chunk.length ((FileSystem.read k.files handle chunk).1.1.take
        (FileSystem.read k.files handle chunk).1.2)] := by
  have hread : (Files.read handle chunk).Leads k (FileSystem.read k.files handle chunk).1
      { k with files := (FileSystem.read k.files handle chunk).2 }
      [.read handle chunk.length ((FileSystem.read k.files handle chunk).1.1.take
        (FileSystem.read k.files handle chunk).1.2)] := ⟨_, rfl, rfl⟩
  have hopen := leads_fileOf? hp fd
  rw [hfile] at hopen
  rw [takeChunk, if_neg hin]
  exact leads_bind_nil hopen (leads_lift hread)

theorem leads_read_of_refused {length : Nat} (hp : k.processes.get? pid = some p)
    (h : fd = consoleOutput ∨ fd ≠ consoleInput ∧ p.files.get? fd = none) :
    (read pid fd buffer length).run.Leads k (.ok failed) k [] := by
  unfold read
  by_cases hout : fd = consoleOutput
  · rw [if_pos hout]
    exact leads_pure _
  · rw [if_neg hout]
    obtain ⟨hin, hnone⟩ := h.resolve_left hout
    exact leads_bind_nil (leads_isOpen_of_none hp hin hnone) (leads_pure _)

theorem leads_read_of_chunks {length total : Nat} {uses : List (DeviceUse η)}
    (hp : k.processes.get? pid = some p) (hout : fd ≠ consoleOutput)
    (hopen : fd ≠ consoleInput → (p.files.get? fd).isSome = true)
    (hchunks : (readChunks pid fd buffer length 0 Scratch.blank.bytes).run.Leads k (.ok total) k'
      uses) :
    (read pid fd buffer length).run.Leads k (.ok (byteCount total)) k' uses := by
  unfold read
  rw [if_neg hout]
  exact leads_bind_nil (leads_isOpen hp hopen) (leads_bind_quiet hchunks (leads_pure _))

/-- What becomes of a read of so many bytes under a descriptor: the bytes that came in, the result,
the kernel and the uses of the devices. The console gives the next bytes of its input. A file that
is open gives bytes chunk by chunk through a scratch page that is blank at first, up to the first
chunk that comes in short. Nothing else gives any. -/
inductive Drawn (k : Kernel φ η χ ω) (p : UserProcess η) (fd : Int32) (length : Nat) :
    Bytes → UInt32 → Kernel φ η χ ω → List (DeviceUse η) → Prop
  | console {bytes : Bytes} {console : χ} {pool : PagePool} {result : UInt32}
      (hfd : fd = consoleInput) (htake : Console.takeBytes k.console length = (bytes, console))
      (hresult : result.toNat = min bytes.length 2147483647) :
      Drawn k p fd length bytes result (k.withDevices k.files console pool) (inputUses length bytes)
  | file {handle : η} {calls : List (Nat × Bytes)} {files : φ} {pool : PagePool} {result : UInt32}
      (hin : fd ≠ consoleInput) (hout : fd ≠ consoleOutput) (hopen : p.files.get? fd = some handle)
      (hcalls : DrawsThrough (FileSystem.read · handle ·) k.files Scratch.blank.bytes length calls
        files)
      (hresult : result.toNat = min (drawn calls).length 2147483647) :
      Drawn k p fd length (drawn calls) result (k.withDevices files k.console pool)
        (calls.map fun call => .read handle call.1 call.2)
  | refused {result : UInt32}
      (hfd : fd = consoleOutput ∨ fd ≠ consoleInput ∧ p.files.get? fd = none)
      (hresult : result.toInt32 = -1) : Drawn k p fd length [] result k []

theorem Drawn.length_le {length : Nat} {bytes : Bytes}
    {result : UInt32} {uses : List (DeviceUse η)}
    (h : Drawn k p fd length bytes result k' uses) : bytes.length ≤ length := by
  cases h with
  | console _ htake => exact Console.length_le_of_takeBytes htake
  | file _ _ _ hcalls => exact hcalls.length_le
  | refused => exact Nat.zero_le _

/-- A buffer that is writable is filled as told. -/
theorem exists_leads_read
    (hle : ∀ (fs : φ) (handle : η) buffer,
      (FileSystem.read fs handle buffer).1.2 ≤ buffer.length)
    (h : Coherent k es) (hs : Sole es) (hp : k.processes.running? pid = some p) {length : Nat}
    (hw : ∀ i < length, (k.memoryOf p).contents.isWritable (buffer.toNat + i) = true) (fd : Int32) :
    ∃ n k' bytes uses, (read pid fd buffer length).run.Leads k (.ok n) k' uses ∧
      Drawn k p fd length bytes n.toUInt32 k' uses ∧
      k'.memory? = Function.update k.memory? pid
        (some ((k.memoryOf p).contents.store buffer.toNat bytes)) := by
  have hget := get?_of_running? hp
  have hm := memory?_of_get? hget
  have hblank : Scratch.blank.bytes.length = chunkSize := Scratch.blank.page.length_bytes
  by_cases hin : fd = consoleInput
  · subst hin
    have hfill : ∀ (c : χ) (chunk : Bytes),
        (Console.takeBytes c chunk.length).1.length ≤ chunk.length :=
      fun c chunk => Console.length_takeBytes_le c chunk.length
    obtain ⟨calls, console, pool, hdraws, hchunks, hmemory⟩ := leads_readChunks (k := k)
      (fun _ => k.files) id (pour Console.takeBytes) inputUses
      (fun c pool chunk => leads_takeChunk_of_console (k.withDevices k.files c pool) pid chunk)
      (fun c chunk => length_pour (hfill c chunk)) hfill hs hget hw (Nat.zero_le _) k.console hblank
      k.frames.pool h hm
    obtain ⟨htakes, huses⟩ := (hdraws.drawsIn (gives_pour _)
      (fun c chunk => length_pour (hfill c chunk)) hblank).takeBytes
    rw [huses] at hchunks
    rw [Nat.add_zero] at hmemory
    have hread := leads_read_of_chunks hget (by decide) (fun h => absurd rfl h) hchunks
    refine ⟨_, _, _, _, hread, .console rfl htakes ?_, hmemory⟩
    rw [toNat_toUInt32_byteCount, Nat.zero_add]
  by_cases hrefused : fd = consoleOutput ∨ p.files.get? fd = none
  · have hrefused' : fd = consoleOutput ∨ fd ≠ consoleInput ∧ p.files.get? fd = none :=
      hrefused.imp_right fun hnone => ⟨hin, hnone⟩
    refine ⟨_, k, [], [], leads_read_of_refused hget hrefused', .refused hrefused' (by decide), ?_⟩
    rw [PrivateMemory.store_nil, ← hm, Function.update_eq_self]
  · obtain ⟨hout, hopen⟩ := not_or.mp hrefused
    obtain ⟨handle, hfile⟩ := Option.ne_none_iff_exists'.mp hopen
    obtain ⟨calls, files, pool, hdraws, hchunks, hmemory⟩ := leads_readChunks (k := k)
      id (fun _ => k.console) (FileSystem.read · handle ·)
      (fun count bytes => [.read handle count bytes])
      (fun files pool chunk =>
        leads_takeChunk_of_file (k := k.withDevices files k.console pool) hget hin hfile chunk)
      (fun files chunk => FileSystem.length_read files handle chunk)
      (fun files chunk => hle files handle chunk) hs hget hw (Nat.zero_le _) k.files hblank
      k.frames.pool h hm
    rw [Nat.add_zero] at hmemory
    have hread := leads_read_of_chunks hget hout (fun _ => by rw [hfile]; rfl) hchunks
    rw [← List.map_eq_flatMap] at hread
    refine ⟨_, _, _, _, hread, .file hin hout hfile hdraws ?_, hmemory⟩
    rw [toNat_toUInt32_byteCount, Nat.zero_add]

/-! ## The trap -/

/-- Whatever was performed since boot, a trap that is decoded as a read is one whose words say so.
The bytes that come in are stored at the front of the buffer, in their order, and no other byte of
any memory changes. They are the next bytes of the console, or what a file reads chunk by chunk into
the scratch page up to the first chunk that comes in short; under a descriptor without an open file
nothing comes in. How many came in goes into the result register. A console that serves a queue of
input hands out the front of the queue, and the rest stays queued. A file that gives bytes whatever
the page held before has these bytes read, and none that a chunk before has left on the page. -/
theorem read_fills_buffer [Host ω] (config : Config) (files : φ) (console : χ) (host : ω)
    (hfits : poolBase + config.frames * pageSize ≤ addressBound)
    {steps : List ((op : Operation) × op.Answer)}
    (hr : Performs (boot config files console host).1 steps k) (pid : Pid) (registers : Registers)
    {fd : Int32} {buffer : VirtAddr} {length : Nat} {k₁ : Kernel φ η χ ω}
    {uses₁ : List (DeviceUse η)}
    (hle : ∀ (fs : φ) (handle : η) buffer,
      (FileSystem.read fs handle buffer).1.2 ≤ buffer.length)
    (hdecode : (decode pid registers.stackPointer).run.Leads k (.ok (.read fd buffer length)) k₁
      uses₁) :
    ∃ p m c, k.processes.running? pid = some p ∧ k.memory? pid = some m ∧
      (m.rawCall? registers.stackPointer.toNat = some c ∧ c.call = .read ∧
        fd = c.first.toInt32 ∧ buffer = wordAddress c.second ∧ length = c.third.toNat) ∧
      ∃ bytes result k' uses,
        (trap pid registers).Leads k (.resume, { registers with result }) k' uses ∧
        Drawn k p fd length bytes result k' uses ∧ bytes.length ≤ length ∧
        k'.memory? = Function.update k.memory? pid (some (m.store buffer.toNat bytes)) ∧
        (m.store buffer.toNat bytes).bytes? buffer.toNat bytes.length = some bytes ∧
        (∀ n, (n < buffer.toNat ∨ buffer.toNat + bytes.length ≤ n) →
          (m.store buffer.toNat bytes).byte? n = m.byte? n) ∧
        (∀ queue : χ → Bytes, (∀ c, (Console.getByte c).1 = (queue c).head? ∧
            queue (Console.getByte c).2 = (queue c).tail) →
          fd = consoleInput → bytes = (queue k.console).take length ∧
            queue k'.console = (queue k.console).drop length ∧
            result.toNat = min (min length (queue k.console).length) 2147483647) ∧
        ∀ (handle : η) (contents : φ → Nat → Bytes × φ), fd ≠ consoleInput → fd ≠ consoleOutput →
          p.files.get? fd = some handle → Gives contents (FileSystem.read · handle ·) →
          ∃ calls, DrawsIn contents k.files length calls k'.files ∧ bytes = drawn calls ∧
            uses = calls.map fun call => .read handle call.1 call.2 := by
  obtain ⟨es, h, hs, _⟩ := hr.coherent hfits
  obtain ⟨rfl, rfl, p, c, hasks⟩ := asks_of_decode h hdecode
  have hget := get?_of_running? hasks.running
  obtain ⟨n, k', bytes, uses, hread, hdrawn, hmemory⟩ :=
    exists_leads_read hle h hs hasks.running hasks.admits fd
  have hdispatch : (dispatch pid (.read fd buffer length)).run.Leads k₁ (.ok (.value n)) k' uses :=
    leads_bind_quiet hread (leads_pure _)
  refine ⟨p, _, c, hasks.running, memory?_of_get? hget,
    ⟨hasks.call, Request.args_of_read hasks.granted⟩, bytes, _, k', uses,
    leads_trap_of_value hdecode hdispatch, hdrawn, ?_, hmemory, ?_, ?_, ?_, ?_⟩
  · exact hdrawn.length_le
  · exact PrivateMemory.bytes?_store fun i hi => hasks.admits i (hi.trans_le hdrawn.length_le)
  · exact fun n hn => PrivateMemory.byte?_store_of_outside hn
  · intro queue hqueue hin
    cases hdrawn with
    | console _ htake hresult =>
      obtain ⟨hfront, hrest⟩ := Console.takeBytes_of_queue hqueue k₁.console length
      rw [htake] at hfront hrest
      have hbytes : bytes = (queue k₁.console).take length := hfront
      refine ⟨hbytes, hrest, ?_⟩
      rw [hresult, hbytes, List.length_take]
    | file hin' => exact absurd hin hin'
    | refused hfd =>
      rcases hfd with hout | ⟨hin', _⟩
      · exact absurd (hin.symm.trans hout) (by decide)
      · exact absurd hin hin'
  · intro handle contents hin hout hfile hgives
    cases hdrawn with
    | console hin' => exact absurd hin' hin
    | @file handle' calls files _ _ _ _ hopen hcalls =>
      obtain rfl : handle' = handle := Option.some.inj (hopen.symm.trans hfile)
      exact ⟨calls, hcalls.drawsIn hgives (FileSystem.length_read · handle' ·)
        Scratch.blank.page.length_bytes, rfl, rfl⟩
    | refused hfd =>
      rcases hfd with hout' | ⟨_, hnone⟩
      · exact absurd hout' hout
      · rw [hfile] at hnone
        contradiction

set_option synthInstance.maxSize 512 in
/-- A program reads two of three bytes that are queued at the console. -/
theorem read_fills_buffer_of_queued_input :
    poolBase + 1 * pageSize ≤ addressBound ∧
      ∃ (k k' : Kernel MemoryFileSystem FileHandle BufferConsole ScriptedHost)
        (steps : List ((op : Operation) × op.Answer)) (registers : Registers) (result : UInt32)
        (uses : List (DeviceUse FileHandle)) (m : PrivateMemory),
        Performs (boot ⟨1, .clock⟩ {} { input := [7, 8, 9] } {}).1 steps k ∧
        (trap ⟨1⟩ registers).Leads k (.resume, { registers with result }) k' uses ∧
        result.toNat = 2 ∧ k'.memory? ⟨1⟩ = some m ∧ m.bytes? 0x1100 2 = some [7, 8] ∧
        k'.console.queue = [9] := by
  have hfits : poolBase + 1 * pageSize ≤ addressBound := by decide
  -- the run, what is there before the trap, and what comes of the decoding, computed at once
  have hanswers : ((do
      let pid ← spawn "reader"
      let mapped ← mapPage ⟨1⟩ (.ofNat 0x1000) true
      let stored ← copyTo ⟨1⟩ (.ofNat 0x1000) (Call.read.stackImage [0, 0x1100, 2])
      let k ← get
      let decoded ← (decode ⟨1⟩ (.ofNat 0x1000)).run
      return ((pid, mapped, stored), k.console.queue, (k.memory? ⟨1⟩).bind (·.rawCall? 0x1000),
        decoded.toOption.map Request.call) :
        KernelM MemoryFileSystem FileHandle BufferConsole ScriptedHost _).run
      (boot ⟨1, .clock⟩ {} { input := [7, 8, 9] } {}).1).map Prod.fst =
        .ok ((⟨1⟩, .ok (.ofNat poolBase), .ok ()), [7, 8, 9], some ⟨.read, 0, 0x1100, 2⟩,
          some .read) := by
    decide +kernel
  obtain ⟨_, _, hrun⟩ := exists_run_eq hanswers
  obtain ⟨_, _, _, _, hspawn, hrun, _⟩ := run_bind_eq_ok.mp hrun
  obtain ⟨_, _, _, _, hmap, hrun, _⟩ := run_bind_eq_ok.mp hrun
  obtain ⟨_, k, _, _, hstore, hrun, _⟩ := run_bind_eq_ok.mp hrun
  rw [KernelM.run_get_bind] at hrun
  obtain ⟨decoded, k₁, events, _, hdecode, hrun, _⟩ := run_bind_eq_ok.mp hrun
  simp only [run_pure, Except.ok.injEq, Prod.mk.injEq] at hrun
  obtain ⟨⟨⟨rfl, rfl, rfl⟩, hqueue, hraw, hcall⟩, _⟩ := hrun
  let registers : Registers := ⟨.ofNat 0x1000, 0⟩
  have hr : Performs (boot ⟨1, .clock⟩ {} { input := [7, 8, 9] } {}).1
      [⟨.spawn "reader", (⟨1⟩ : Pid)⟩,
        ⟨.mapPage ⟨1⟩ (.ofNat 0x1000) true, Except.ok (.ofNat poolBase)⟩,
        ⟨.copyTo ⟨1⟩ (.ofNat 0x1000) (Call.read.stackImage [0, 0x1100, 2]), Except.ok ()⟩] k :=
    .cons hspawn (.cons hmap (.cons hstore (.nil _)))
  obtain ⟨request, rfl, hcall⟩ := Request.eq_ok_of_map_call hcall
  cases request with
  | read fd buffer length =>
    have hleads : (decode ⟨1⟩ registers.stackPointer).run.Leads k (.ok (.read fd buffer length)) k₁
        (deviceUses events) := ⟨events, hdecode, rfl⟩
    obtain ⟨_, m, c, _, hm, ⟨hc, _, rfl, rfl, rfl⟩, bytes, result, k', uses, htrap, _, _, hmemory,
        hfilled, _, hqueued, _⟩ := read_fills_buffer ⟨1, .clock⟩ _ _ _ hfits hr ⟨1⟩ registers
      LawfulFileSystem.read_le hleads
    rw [hm, Option.bind_some] at hraw
    obtain rfl : c = ⟨.read, 0, 0x1100, 2⟩ := Option.some.inj (hc.symm.trans hraw)
    obtain ⟨rfl, hrest, hresult⟩ := hqueued BufferConsole.queue BufferConsole.getByte_queue rfl
    rw [hqueue] at hrest hresult hmemory hfilled
    refine ⟨hfits, k, k', _, registers, result, uses, _, hr, htrap, hresult, ?_, hfilled, hrest⟩
    rw [hmemory, Function.update_self]
  | _ => cases hcall

end Kernel

end TeachingKernel
