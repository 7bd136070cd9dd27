import TeachingKernel.Proofs.Kernel.Exits
import TeachingKernel.Proofs.Ledger.Runs

/-!
# No defect

A kernel that was booted meets no defect, whatever is asked of it. Every operation answers, and the
books that it leaves let every later one answer: no slot of the ring is followed that holds nothing,
no frame goes back to the pool that is not handed out, no piece of a byte sequence reaches past its
end, and no count goes below zero.

There is one exception. Identifiers of processes are counted upwards in 32 bits, so a process cannot
be entered once they are used up.
-/

namespace TeachingKernel.Kernel

open KernelM FrameLedger

def Operation.isSpawn : Operation → Bool
  | .spawn _ => true
  | _ => false

def spawns (ops : List Operation) : Nat := ops.countP (·.isSpawn)

theorem spawns_cons (op : Operation) (ops : List Operation) :
    spawns (op :: ops) = spawns ops + if op.isSpawn then 1 else 0 := List.countP_cons ..

variable {φ η χ ω : Type} {k k' : Kernel φ η χ ω} {es : List (Nat × Loan)} {pid : Pid}
  {events : List (Event η)}

/-! ## The numbers of processes -/

/-- A process is entered under the next number, or the numbers are used up. -/
theorem spawn_cases (k : Kernel φ η χ ω) (name : String) :
    (∃ pid k' events, (spawn name).run k = .ok (pid, k', events) ∧
        k'.processes.next.toNat = k.processes.next.toNat + 1) ∨
      (spawn name).run k = .error .pidsExhausted ∧ k.processes.next.toNat + 1 = UInt32.size := by
  unfold spawn
  rw [run_get_bind]
  cases hs : k.processes.spawn name with
  | ok found =>
    obtain ⟨pid, processes⟩ := found
    exact .inl ⟨pid, _, _, rfl, (Processes.of_spawn_eq_ok hs).2.1⟩
  | error d =>
    unfold Processes.spawn at hs
    split at hs
    · rename_i hnext
      cases hs
      have hwrap := congrArg UInt32.toNat hnext
      have hlt := k.processes.next.toNat_lt
      rw [UInt32.toNat_add] at hwrap
      simp only [UInt32.reduceToNat] at hwrap
      have hsize : UInt32.size = 4294967296 := rfl
      exact .inr ⟨rfl, by omega⟩
    · contradiction

variable [FileSystem φ η] [Host ω]

/-- The end of a process leaves the numbers alone. -/
theorem next_eq_of_terminate (h : Coherent k es) {status : Int32} {verdict : Verdict}
    (hrun : (terminate pid status).run k = .ok (verdict, k', events)) :
    k'.processes.next = k.processes.next := by
  obtain ⟨_, _, hleads, hends⟩ := leads_terminate h pid status
  obtain ⟨_, rfl, _⟩ := hleads.unique ⟨events, hrun, rfl⟩
  cases hends with
  | dead => rfl
  | ended => rfl

variable [Console χ]

/-- Only to enter a process uses a number up. -/
theorem next_eq_of_perform (h : Coherent k es) {op : Operation} (hspawn : op.isSpawn = false)
    {answer : op.Answer} (hrun : op.perform.run k = .ok (answer, k', events)) :
    k'.processes.next = k.processes.next := by
  cases op with
  | spawn name => contradiction
  | mapPage pid va writable =>
    obtain ⟨_, _, _, _, hrun', _, _, hcases⟩ := mapPage_cases h pid va writable
    cases hrun'.symm.trans hrun
    rcases hcases with ⟨_, hsame⟩ | ⟨_, _, hg, _⟩
    · exact hsame.layout.next_eq
    · exact hg.maps.next_eq
  | unmapPage pid va =>
    obtain ⟨_, _, _, _, hrun', _, _, hcases⟩ := unmapPage_cases h pid va
    cases hrun'.symm.trans hrun
    rcases hcases with ⟨_, rfl, _⟩ | ⟨_, _, _, hl⟩
    · rfl
    · exact hl.unmaps.next_eq
  | copyTo pid va bytes =>
    have hsteady : Steady k k' := (within_copyTo pid va bytes hrun).1
    exact hsteady.1.next_eq
  | copyFrom pid va dst =>
    have hsteady : Steady k k' := (within_copyFrom pid va dst hrun).1
    exact hsteady.1.next_eq
  | touch pid va write => exact (steady_touch k pid va write hrun).1.1.next_eq
  | tick ticks => exact (steady_tick k ticks hrun).1.1.next_eq
  | terminate pid status => exact next_eq_of_terminate h hrun
  | trap pid registers =>
    obtain ⟨verdict, registers'⟩ := answer
    rcases trap_cases (R := Steady) pid hrun with
      ⟨_, hs, _⟩ | ⟨middle, status, _, _, hs, _, _, hterm⟩
    · exact hs.1.next_eq
    · exact (next_eq_of_terminate (hs.coherent h) hterm).trans hs.1.next_eq

/-! ## Runs -/

variable [LawfulFileSystem φ]

/-- One operation. -/
theorem Coherent.perform_cases (h : Coherent k es) (hs : Sole es) (op : Operation) :
    (∃ answer k' events, op.perform.run k = .ok (answer, k', events) ∧ Orderly k' ∧
        k'.processes.next.toNat = k.processes.next.toNat + if op.isSpawn then 1 else 0) ∨
      op.isSpawn = true ∧ op.perform.run k = .error .pidsExhausted ∧
        k.processes.next.toNat + 1 = UInt32.size := by
  have hanswers : ∀ {answer : op.Answer} {k' : Kernel φ η χ ω} {events : List (Event η)},
      op.perform.run k = .ok (answer, k', events) → Orderly k' := by
    intro answer k' events hrun
    obtain ⟨es', h', hs', _⟩ := h.allows hs hrun
    exact ⟨es', h', hs'⟩
  cases hop : op.isSpawn with
  | true =>
    obtain ⟨name, rfl⟩ : ∃ name, op = .spawn name := by
      cases op with
      | spawn name => exact ⟨name, rfl⟩
      | _ => contradiction
    rcases spawn_cases k name with ⟨pid, k', events, hrun, hnext⟩ | ⟨hrun, hnext⟩
    · exact .inl ⟨pid, k', events, hrun, hanswers hrun, hnext⟩
    · exact .inr ⟨rfl, hrun, hnext⟩
  | false =>
    have hspawn : ∀ name, op ≠ .spawn name := by
      rintro name rfl
      contradiction
    obtain ⟨answer, k', events, hrun⟩ :
        ∃ answer k' events, op.perform.run k = .ok (answer, k', events) := by
      by_cases htrap : ∃ pid registers, op = .trap pid registers
      · obtain ⟨pid, registers, rfl⟩ := htrap
        obtain ⟨answer, k', _, events, hrun, _⟩ := exists_leads_trap h hs pid registers
        exact ⟨answer, k', events, hrun⟩
      · exact h.exists_answer hs hspawn fun pid registers heq => htrap ⟨pid, registers, heq⟩
    refine .inl ⟨answer, k', events, hrun, hanswers hrun, ?_⟩
    rw [next_eq_of_perform h hop hrun]
    rfl

/-- Any number of operations. -/
theorem Orderly.performAll_cases (ho : Orderly k) (ops : List Operation) :
    (∃ k' events, (performAll ops).run k = .ok ((), k', events) ∧ Orderly k' ∧
        k'.processes.next.toNat = k.processes.next.toNat + spawns ops) ∨
      (performAll ops).run k = .error .pidsExhausted ∧
        UInt32.size ≤ k.processes.next.toNat + spawns ops := by
  induction ops generalizing k with
  | nil => exact .inl ⟨k, [], rfl, ho, rfl⟩
  | cons op ops ih =>
    obtain ⟨es, h, hs⟩ := ho
    rw [spawns_cons]
    rcases h.perform_cases hs op with
      ⟨_, middle, before, hrun, ho', hnext⟩ | ⟨hspawn, hrun, hnext⟩
    · rcases ih ho' with ⟨k', after, hrun', ho'', hnext'⟩ | ⟨hrun', hnext'⟩
      · refine .inl ⟨k', before ++ after, ?_, ho'', by omega⟩
        exact run_bind_eq_ok.mpr ⟨_, middle, before, after, hrun, hrun', rfl⟩
      · refine .inr ⟨?_, by omega⟩
        rw [performAll, run_bind_of_ok hrun, hrun']
        rfl
    · refine .inr ⟨run_bind_of_error hrun, ?_⟩
      rw [hspawn, if_pos rfl]
      omega

/-- A kernel that was booted meets no defect: whatever is performed, with whatever arguments and
whatever the user programs have put into their memory, every operation answers, unless the numbers
of processes are used up. The pool and the ledger count every frame, and no byte behind a page is
out of the reach of an address. -/
theorem run_meets_no_defect (config : Config) (files : φ) (console : χ) (host : ω)
    (hfits : poolBase + config.frames * pageSize ≤ addressBound) (ops : List Operation) :
    (∃ (k : Kernel φ η χ ω) (events : List (Event η)),
        (performAll ops).run (boot config files console host).1 = .ok ((), k, events) ∧
        k.frames.pool.free + k.frames.size = k.frames.pool.total ∧
        ∀ pid va frame writable, k.processes.mapping? pid va = some (frame, writable) →
          frame.toNat + pageSize ≤ addressBound) ∨
      (performAll ops).run (boot config files console host : Kernel φ η χ ω × List (Event η)).1 =
        .error .pidsExhausted ∧ UInt32.size ≤ spawns ops + 1 := by
  have hboot : (boot config files console host :
      Kernel φ η χ ω × List (Event η)).1.processes.next.toNat = 1 := rfl
  rcases (orderly_boot config files console host hfits).performAll_cases ops with
    ⟨k, events, hrun, ⟨es, h, _⟩, _⟩ | ⟨hrun, hnext⟩
  · refine .inl ⟨k, events, hrun, ?_, fun pid va frame writable hm => ?_⟩
    · rw [h.keeps.size_eq]
      exact h.keeps.books.free_add_length
    · obtain ⟨e, he, rfl, _⟩ := h.backed pid va frame writable hm
      obtain ⟨i, _, hf⟩ := h.keeps.books.lent e.2 (List.mem_map_of_mem he)
      rw [hf]
      exact PagePool.frameAddress_add_pageSize_le h.keeps.books.sound i
  · rw [hboot, Nat.add_comm] at hnext
    exact .inr ⟨hrun, hnext⟩

/-- One frame is asked for twice, data is stored where no memory is, a process traps with its stack
at the end of the address space, and what is gone or was never there is ended and unmapped. -/
theorem run_meets_no_defect_of_misuse :
    poolBase + 1 * pageSize ≤ addressBound ∧
      ∃ (k : Kernel MemoryFileSystem FileHandle BufferConsole ScriptedHost)
        (events : List (Event FileHandle)),
        (performAll [.spawn "first", .mapPage ⟨1⟩ (.ofNat 0x1000) true,
          .mapPage ⟨1⟩ (.ofNat 0x2000) true, .copyTo ⟨1⟩ (.ofNat 0x1fff) [1, 2],
          .trap ⟨1⟩ ⟨.ofNat (addressBound - 1), 0⟩, .unmapPage ⟨1⟩ (.ofNat 0x1000),
          .terminate ⟨1⟩ 0, .terminate ⟨7⟩ 0]).run (boot ⟨1, .clock⟩ {} {} {}).1 =
            .ok ((), k, events) ∧
        k.frames.pool.free + k.frames.size = k.frames.pool.total := by
  have hfits : poolBase + 1 * pageSize ≤ addressBound := by decide
  refine ⟨hfits, ?_⟩
  rcases run_meets_no_defect ⟨1, .clock⟩ ({} : MemoryFileSystem) ({} : BufferConsole)
      ({} : ScriptedHost) hfits
      [.spawn "first", .mapPage ⟨1⟩ (.ofNat 0x1000) true, .mapPage ⟨1⟩ (.ofNat 0x2000) true,
        .copyTo ⟨1⟩ (.ofNat 0x1fff) [1, 2], .trap ⟨1⟩ ⟨.ofNat (addressBound - 1), 0⟩,
        .unmapPage ⟨1⟩ (.ofNat 0x1000), .terminate ⟨1⟩ 0, .terminate ⟨7⟩ 0] with
    ⟨k, events, hrun, hcount, _⟩ | ⟨_, hspawns⟩
  · exact ⟨k, events, hrun, hcount⟩
  · exact absurd hspawns (by decide)

end TeachingKernel.Kernel
