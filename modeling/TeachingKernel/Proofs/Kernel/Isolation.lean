import TeachingKernel.Proofs.Kernel.Copies
import TeachingKernel.Proofs.Kernel.Runs

/-!
# Private memories

The memories of the processes as a machine of their own, without frames, page tables and a ledger:
an operation changes the memory of one process at most. Every run of the kernel in which no frame is
shared is a run of this machine.
-/

namespace TeachingKernel

/-- The private memories of the processes that are known. -/
abbrev Memories := Pid → Option PrivateMemory

namespace Memories

open Kernel (Operation)

/-- The memories after the memory of a process, if it is known, lost all its pages. -/
def emptied (M : Memories) (pid : Pid) : Memories :=
  Function.update M pid ((M pid).map fun _ => .empty)

/-- Only whether a process is known matters of the memory that is emptied. -/
theorem emptied_congr {M M' : Memories} {pid : Pid} {r : PrivateMemory → PrivateMemory → Prop}
    (hothers : ∀ q, q ≠ pid → M' q = M q) (hown : Option.Rel r (M pid) (M' pid)) :
    M'.emptied pid = M.emptied pid := by
  funext q
  by_cases hq : q = pid
  · rw [hq, emptied, emptied, Function.update_self, Function.update_self]
    generalize M pid = m, M' pid = m' at hown
    cases hown with
    | none => rfl
    | some _ => rfl
  · rw [emptied, emptied, Function.update_of_ne hq, Function.update_of_ne hq, hothers q hq]

inductive Allows (M : Memories) : (op : Operation) → op.Answer → Memories → Prop
  | spawn {name : String} {pid : Pid} (hn : M pid = none) :
      Allows M (.spawn name) pid (Function.update M pid (some .empty))
  /-- A new page is a page of zeros. -/
  | mapPage {pid : Pid} {va : VirtAddr} {writable : Bool} {frame : PhysAddr} {m : PrivateMemory}
      (hm : M pid = some m) (hn : m va.pageNumber = none) :
      Allows M (.mapPage pid va writable) (Except.ok frame)
        (Function.update M pid (some (m.set va.pageNumber (some (.zero writable)))))
  | mapPage_refused {pid : Pid} {va : VirtAddr} {writable : Bool} {error : KernelError} :
      Allows M (.mapPage pid va writable) (Except.error error) M
  /-- Any address in the page names it. -/
  | unmapPage {pid : Pid} {va : VirtAddr} {release : Release} {m : PrivateMemory}
      (hm : M pid = some m) (hp : (m va.pageNumber).isSome = true) :
      Allows M (.unmapPage pid va) (Except.ok release)
        (Function.update M pid (some (m.set va.pageNumber none)))
  | unmapPage_refused {pid : Pid} {va : VirtAddr} {error : KernelError}
      (hn : ∀ m, M pid = some m → m va.pageNumber = none) :
      Allows M (.unmapPage pid va) (Except.error error) M
  | copyTo {pid : Pid} {va : VirtAddr} {bytes : Bytes} {m : PrivateMemory} (hm : M pid = some m)
      (hw : ∀ i < bytes.length, m.isWritable (va.toNat + i) = true) :
      Allows M (.copyTo pid va bytes) (Except.ok ())
        (Function.update M pid (some (m.store va.toNat bytes)))
  | copyTo_refused {pid : Pid} {va : VirtAddr} {bytes : Bytes} {error : KernelError}
      (hn : ∀ m, M pid = some m → ¬ ∀ i < bytes.length, m.isWritable (va.toNat + i) = true) :
      Allows M (.copyTo pid va bytes) (Except.error error) M
  /-- What is read are the bytes that are there. -/
  | copyFrom {pid : Pid} {va : VirtAddr} {dst bytes : Bytes} {m : PrivateMemory}
      (hm : M pid = some m) (hl : bytes.length = dst.length)
      (hb : ∀ i < dst.length, m.byte? (va.toNat + i) = bytes[i]?) :
      Allows M (.copyFrom pid va dst) (bytes, Except.ok ()) M
  | copyFrom_refused {pid : Pid} {va : VirtAddr} {dst bytes : Bytes} {error : KernelError}
      (hn : ∀ m, M pid = some m →
        ¬ ∀ i < dst.length, (m.byte? (va.toNat + i)).isSome = true) :
      Allows M (.copyFrom pid va dst) (bytes, Except.error error) M
  | touch {pid : Pid} {va : VirtAddr} {write : Bool} : Allows M (.touch pid va write) () M
  | tick {ticks : Nat} : Allows M (.tick ticks) () M
  | terminate {pid : Pid} {status : Int32} :
      Allows M (.terminate pid status) (Verdict.exit status) (M.emptied pid)
  /-- A process that goes on may have had data stored where its memory is writable. -/
  | trap {pid : Pid} {registers registers' : Registers} {verdict : Verdict} {M' : Memories}
      (hv : verdict = .resume ∨ verdict = .halt) (hothers : ∀ q, q ≠ pid → M' q = M q)
      (hown : Option.Rel PrivateMemory.Stored (M pid) (M' pid)) :
      Allows M (.trap pid registers) (verdict, registers') M'
  | trap_exit {pid : Pid} {registers registers' : Registers} {status : Int32} :
      Allows M (.trap pid registers) (Verdict.exit status, registers') (M.emptied pid)

inductive Run : Memories → List ((op : Operation) × op.Answer) → Memories → Prop
  | nil (M : Memories) : Run M [] M
  | cons {M M₁ M' : Memories} {op : Operation} {answer : op.Answer}
      {steps : List ((op : Operation) × op.Answer)} (h : M.Allows op answer M₁)
      (hr : Run M₁ steps M') : Run M (⟨op, answer⟩ :: steps) M'

variable {M M' : Memories} {pid : Pid}

theorem Allows.of_spawn {name : String} (h : M.Allows (.spawn name) pid M') :
    M' = Function.update M pid (some .empty) := by
  cases h with
  | spawn => rfl

theorem Allows.of_mapPage_ok {va : VirtAddr} {writable : Bool} {frame : PhysAddr}
    (h : M.Allows (.mapPage pid va writable) (Except.ok frame) M') :
    ∃ m, M pid = some m ∧
      M' = Function.update M pid (some (m.set va.pageNumber (some (.zero writable)))) := by
  cases h with
  | mapPage hm => exact ⟨_, hm, rfl⟩

theorem Run.of_nil (h : M.Run [] M') : M' = M := by
  cases h with
  | nil => rfl

theorem Run.of_cons {op : Operation} {answer : op.Answer}
    {steps : List ((op : Operation) × op.Answer)} (h : M.Run (⟨op, answer⟩ :: steps) M') :
    ∃ M₁, M.Allows op answer M₁ ∧ M₁.Run steps M' := by
  cases h with
  | cons h hr => exact ⟨_, h, hr⟩

end Memories

namespace Kernel

open KernelM FrameLedger

variable {φ η χ ω : Type} {k k' : Kernel φ η χ ω} {es : List (Nat × Loan)}

/-- The books agree, and no frame has two holders. -/
def Orderly (k : Kernel φ η χ ω) : Prop := ∃ es, Coherent k es ∧ Sole es

theorem orderly_boot (config : Config) (files : φ) (console : χ) (host : ω)
    (hfits : poolBase + config.frames * pageSize ≤ addressBound) :
    Orderly (boot config files console host : Kernel φ η χ ω × List (Event η)).1 :=
  ⟨[], coherent_boot config files console host hfits, fun _ _ _ hl => absurd hl not_lends_nil⟩

theorem Orderly.steady (h : Orderly k) (hs : Steady k k') : Orderly k' := by
  obtain ⟨es, hk, hsole⟩ := h
  exact ⟨es, hs.coherent hk, hsole⟩

theorem memory?_spawned {pid : Pid} {es' : List (Nat × Loan)} (h : Coherent k es)
    (hn : k.processes.state? pid = none) (hframes : k'.frames = k.frames)
    (hr : Resets k k' es es' pid (some .running)) :
    k.memory? pid = none ∧ k'.memory? = Function.update k.memory? pid (some .empty) := by
  constructor
  · rw [memory?_eq, hn]
    rfl
  · exact hr.memory?_eq h fun f _ _ => by rw [hframes]

variable [FileSystem φ η] [Host ω]

/-- The end of a process. -/
theorem Coherent.emptied (h : Coherent k es) (hs : Sole es) {pid : Pid} {status : Int32}
    {verdict : Verdict} {events : List (Event η)}
    (hrun : (Kernel.terminate pid status).run k = .ok (verdict, k', events)) :
    ∃ es', Coherent k' es' ∧ Sole es' ∧ verdict = .exit status ∧
      k'.memory? = Memories.emptied k.memory? pid := by
  obtain ⟨_, _, es', hrun', hk, hpages, hcases⟩ := terminate_cases h pid status
  cases hrun'.symm.trans hrun
  rcases hcases with ⟨hp, rfl, rfl⟩ | ⟨hp, hr⟩
  · refine ⟨_, h, hs, rfl, ?_⟩
    rw [Memories.emptied, ← h.memory?_of_not_running hp, Function.update_eq_self]
  · refine ⟨es', hr.coherent h hk, hr.sole hs, rfl, ?_⟩
    rw [hr.memory?_eq h fun f _ _ => hpages f, Memories.emptied, memory?_eq, hp]
    rfl

variable [Console χ]

/-- One operation. -/
theorem Coherent.allows (h : Coherent k es) (hs : Sole es) {op : Operation} {answer : op.Answer}
    {events : List (Event η)} (hrun : op.perform.run k = .ok (answer, k', events)) :
    ∃ es', Coherent k' es' ∧ Sole es' ∧ Memories.Allows k.memory? op answer k'.memory? := by
  cases op with
  | spawn name =>
    obtain ⟨hframes, hn, hr⟩ := of_run_spawn h hrun
    obtain ⟨hnone, hm⟩ := memory?_spawned h hn hframes hr
    rw [hm]
    exact ⟨es, hr.coherent h (hframes ▸ h.keeps), hr.sole hs, .spawn hnone⟩
  | mapPage pid va writable =>
    obtain ⟨_, _, _, es', hrun', hk, hb, hcases⟩ := mapPage_cases h pid va writable
    cases hrun'.symm.trans hrun
    rcases hcases with ⟨⟨error, rfl⟩, hsame⟩ | ⟨frame, rfl, hg, hfree, hzero⟩
    · rw [hsame.memory?_eq h hb]
      exact ⟨es', hsame.coherent h hk, hsame.sole hs, .mapPage_refused⟩
    · obtain ⟨m, hm, hn, hm'⟩ := hg.memory?_eq h hb hzero
      rw [hm', Page.byte_zero]
      exact ⟨es', hg.coherent h hk, hg.sole hfree hs, .mapPage hm hn⟩
  | unmapPage pid va =>
    obtain ⟨_, _, _, es', hrun', hk, hpages, hcases⟩ := unmapPage_cases h pid va
    cases hrun'.symm.trans hrun
    rcases hcases with ⟨⟨error, rfl⟩, rfl, rfl, hnone⟩ | ⟨release, frame, rfl, hl⟩
    · refine ⟨_, h, hs, .unmapPage_refused fun m hm => ?_⟩
      rw [eq_view_of_memory? hm]
      exact view_eq_none hnone
    · obtain ⟨m, hm, hp, hm'⟩ := hl.memory?_eq h fun f _ _ => hpages f
      rw [hm']
      exact ⟨es', hl.coherent h hk, hl.sole hs, .unmapPage hm hp⟩
  | copyTo pid va bytes =>
    obtain ⟨_, _, _, hrun', hcases⟩ := copyTo_cases h hs pid va bytes
    have hsteady : Steady k k' := (within_copyTo pid va bytes hrun).1
    have h' := hsteady.coherent h
    cases hrun'.symm.trans hrun
    rcases hcases with ⟨m, hm, hw, rfl, hm'⟩ | ⟨hn, ⟨error, rfl⟩, hm'⟩
    · rw [hm']
      exact ⟨es, h', hs, .copyTo hm hw⟩
    · rw [hm']
      exact ⟨es, h', hs, .copyTo_refused hn⟩
  | copyFrom pid va dst =>
    obtain ⟨bytes, result, _, hrun', hok, hbytes⟩ := copyFrom_cases h pid va dst
    cases hrun'.symm.trans hrun
    refine ⟨es, h, hs, ?_⟩
    cases result with
    | error error =>
      apply Memories.Allows.copyFrom_refused
      intro m hm hall
      have := hok.mpr ⟨m, hm, hall⟩
      contradiction
    | ok _ =>
      obtain ⟨m, hm, _⟩ := hok.mp rfl
      obtain ⟨hl, hb⟩ := hbytes rfl
      exact .copyFrom hm hl fun i hi => (hb m hm i hi).symm
  | touch pid va write =>
    have hsteady := (steady_touch k pid va write hrun).1
    cases hrun
    rw [hsteady.memory?_eq rfl h]
    exact ⟨es, hsteady.coherent h, hs, .touch⟩
  | tick ticks =>
    have hsteady := (steady_tick k ticks hrun).1
    cases hrun
    rw [hsteady.memory?_eq rfl h]
    exact ⟨es, hsteady.coherent h, hs, .tick⟩
  | terminate pid status =>
    obtain ⟨es', h', hs', rfl, hm⟩ := h.emptied hs hrun
    rw [hm]
    exact ⟨es', h', hs', .terminate⟩
  | trap pid registers =>
    obtain ⟨verdict, registers'⟩ := answer
    rcases trap_cases (R := Confined pid) pid hrun with
      ⟨hv, hc, _⟩ | ⟨middle, status, _, _, hc, _, _, hterm⟩
    · obtain ⟨h', hothers, hown⟩ := hc es h hs
      exact ⟨es, h', hs, .trap hv hothers hown⟩
    · obtain ⟨h₁, hothers, hown⟩ := hc es h hs
      obtain ⟨es', h', hs', rfl, hm⟩ := h₁.emptied hs hterm
      rw [hm, Memories.emptied_congr hothers hown]
      exact ⟨es', h', hs', .trap_exit⟩

/-- The operations that read and change memory always answer. -/
theorem Coherent.exists_answer (h : Coherent k es) (hs : Sole es) {op : Operation}
    (hspawn : ∀ name, op ≠ .spawn name) (htrap : ∀ pid registers, op ≠ .trap pid registers) :
    ∃ answer k' events, op.perform.run k = .ok (answer, k', events) := by
  cases op with
  | spawn name => exact absurd rfl (hspawn name)
  | mapPage pid va writable =>
    obtain ⟨_, _, _, _, hrun, _⟩ := mapPage_cases h pid va writable
    exact ⟨_, _, _, hrun⟩
  | unmapPage pid va =>
    obtain ⟨_, _, _, _, hrun, _⟩ := unmapPage_cases h pid va
    exact ⟨_, _, _, hrun⟩
  | copyTo pid va bytes =>
    obtain ⟨_, _, _, hrun, _⟩ := copyTo_cases h hs pid va bytes
    exact ⟨_, _, _, hrun⟩
  | copyFrom pid va dst =>
    obtain ⟨_, _, _, hrun, _⟩ := copyFrom_cases h pid va dst
    exact ⟨_, _, _, hrun⟩
  | touch pid va write => exact ⟨_, _, _, rfl⟩
  | tick ticks => exact ⟨_, _, _, rfl⟩
  | terminate pid status =>
    obtain ⟨_, _, _, hrun, _⟩ := terminate_cases h pid status
    exact ⟨_, _, _, hrun⟩
  | trap pid registers => exact absurd rfl (htrap pid registers)

inductive Performs : Kernel φ η χ ω → List ((op : Operation) × op.Answer) → Kernel φ η χ ω → Prop
  | nil (k : Kernel φ η χ ω) : Performs k [] k
  | cons {k middle k' : Kernel φ η χ ω} {op : Operation} {answer : op.Answer}
      {events : List (Event η)} {steps : List ((op : Operation) × op.Answer)}
      (h : op.perform.run k = .ok (answer, middle, events)) (hr : Performs middle steps k') :
      Performs k (⟨op, answer⟩ :: steps) k'

/-- Any number of operations. -/
theorem Coherent.memories_run (h : Coherent k es) (hs : Sole es)
    {steps : List ((op : Operation) × op.Answer)} (hr : Performs k steps k') :
    ∃ es', Coherent k' es' ∧ Sole es' ∧ Memories.Run k.memory? steps k'.memory? := by
  induction hr generalizing es with
  | nil => exact ⟨es, h, hs, .nil _⟩
  | cons hrun _ ih =>
    obtain ⟨es₁, h₁, hs₁, hallows⟩ := h.allows hs hrun
    obtain ⟨es', h', hs', hrest⟩ := ih h₁ hs₁
    exact ⟨es', h', hs', .cons hallows hrest⟩

/-- Whatever was performed since boot, the books agree, no frame has two holders, and the memories
are what the operations have made of them. -/
theorem Performs.coherent {config : Config} {files : φ} {console : χ} {host : ω}
    {steps : List ((op : Operation) × op.Answer)}
    (hr : Performs (boot config files console host).1 steps k)
    (hfits : poolBase + config.frames * pageSize ≤ addressBound) :
    ∃ es, Coherent k es ∧ Sole es ∧ Memories.Run (fun _ => none) steps k.memory? := by
  obtain ⟨_, hboot, hsole⟩ := orderly_boot config files console host hfits
  have hnone : (boot config files console host : Kernel φ η χ ω × List (Event η)).1.memory? =
      fun _ => none := by
    funext pid
    simp [memory?, boot]
  rw [← hnone]
  exact hboot.memories_run hsole hr

/-- The kernel gives each process a memory of its own: whatever operations were performed since
boot, their answers are those of private memories that began empty and are now what the page tables,
the ledger and the pool amount to. None of the operations that read and change memory ever fails to
answer. -/
theorem memories_private (config : Config) (files : φ) (console : χ) (host : ω)
    (hfits : poolBase + config.frames * pageSize ≤ addressBound)
    {steps : List ((op : Operation) × op.Answer)}
    (hr : Performs (boot config files console host).1 steps k) :
    Memories.Run (fun _ => none) steps k.memory? ∧
      ∀ op : Operation, (∀ name, op ≠ .spawn name) → (∀ pid registers, op ≠ .trap pid registers) →
        ∃ answer k' events, op.perform.run k = .ok (answer, k', events) := by
  have hboot : Coherent (boot config files console host : Kernel φ η χ ω × List (Event η)).1 [] :=
    coherent_boot config files console host hfits
  have hnone : (boot config files console host : Kernel φ η χ ω × List (Event η)).1.memory? =
      fun _ => none := by
    funext pid
    simp [memory?, boot]
  obtain ⟨es, h, hs, hrun⟩ := hboot.memories_run (fun _ _ _ hl => absurd hl not_lends_nil) hr
  rw [hnone] at hrun
  exact ⟨hrun, fun op hspawn htrap => h.exists_answer hs hspawn htrap⟩

set_option synthInstance.maxSize 512 in
/-- A process stores a byte and goes; the frame comes to another process, which finds a zero. -/
theorem memories_private_of_one_frame :
    poolBase + 1 * pageSize ≤ addressBound ∧
      ∃ (k : Kernel MemoryFileSystem FileHandle BufferConsole ScriptedHost)
        (steps : List ((op : Operation) × op.Answer)),
        steps = [⟨.spawn "first", (⟨1⟩ : Pid)⟩, ⟨.spawn "second", (⟨2⟩ : Pid)⟩,
          ⟨.mapPage ⟨1⟩ (.ofNat 0x1000) true, Except.ok (.ofNat poolBase)⟩,
          ⟨.copyTo ⟨1⟩ (.ofNat 0x1004) [7], Except.ok ()⟩,
          ⟨.copyFrom ⟨1⟩ (.ofNat 0x1004) [0], ([7], Except.ok ())⟩,
          ⟨.terminate ⟨1⟩ 0, Verdict.exit 0⟩,
          ⟨.mapPage ⟨2⟩ (.ofNat 0x2000) false, Except.ok (.ofNat poolBase)⟩,
          ⟨.copyFrom ⟨2⟩ (.ofNat 0x2004) [9], ([0], Except.ok ())⟩] ∧
        Performs (boot ⟨1, .clock⟩ {} {} {}).1 steps k ∧
        Memories.Run (fun _ => none) steps k.memory? := by
  have hfits : poolBase + 1 * pageSize ≤ addressBound := by decide
  -- the answers of the whole run, computed at once
  have hanswers : ((do
      let first ← spawn "first"
      let second ← spawn "second"
      let mapped ← mapPage ⟨1⟩ (.ofNat 0x1000) true
      let stored ← copyTo ⟨1⟩ (.ofNat 0x1004) [7]
      let own ← copyFrom ⟨1⟩ (.ofNat 0x1004) [0]
      let verdict ← terminate ⟨1⟩ 0
      let mapped' ← mapPage ⟨2⟩ (.ofNat 0x2000) false
      let other ← copyFrom ⟨2⟩ (.ofNat 0x2004) [9]
      return (((first, second), mapped, stored), (own, verdict), mapped', other) :
        KernelM MemoryFileSystem FileHandle BufferConsole ScriptedHost _).run
      (boot ⟨1, .clock⟩ {} {} {}).1).map Prod.fst =
        .ok (((⟨1⟩, ⟨2⟩), .ok (.ofNat poolBase), .ok ()), (([7], .ok ()), .exit 0),
          .ok (.ofNat poolBase), ([0], .ok ())) := by
    decide +kernel
  obtain ⟨k, _, hrun⟩ := exists_run_eq hanswers
  obtain ⟨_, _, _, _, hfirst, hrun, _⟩ := run_bind_eq_ok.mp hrun
  obtain ⟨_, _, _, _, hsecond, hrun, _⟩ := run_bind_eq_ok.mp hrun
  obtain ⟨_, _, _, _, hmap, hrun, _⟩ := run_bind_eq_ok.mp hrun
  obtain ⟨_, _, _, _, hstore, hrun, _⟩ := run_bind_eq_ok.mp hrun
  obtain ⟨_, _, _, _, hown, hrun, _⟩ := run_bind_eq_ok.mp hrun
  obtain ⟨_, _, _, _, hexit, hrun, _⟩ := run_bind_eq_ok.mp hrun
  obtain ⟨_, _, _, _, hmap', hrun, _⟩ := run_bind_eq_ok.mp hrun
  obtain ⟨_, last, _, _, hother, hrun, _⟩ := run_bind_eq_ok.mp hrun
  simp only [run_pure, Except.ok.injEq, Prod.mk.injEq] at hrun
  obtain ⟨⟨⟨⟨rfl, rfl⟩, rfl, rfl⟩, ⟨rfl, rfl⟩, rfl, rfl⟩, rfl, _⟩ := hrun
  refine ⟨hfits, last, _, rfl, ?hr, (memories_private ⟨1, .clock⟩ _ _ _ hfits ?hr).1⟩
  exact .cons hfirst (.cons hsecond (.cons hmap (.cons hstore (.cons hown (.cons hexit
    (.cons hmap' (.cons hother (.nil _))))))))

end Kernel

end TeachingKernel
