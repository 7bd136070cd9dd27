import TeachingKernel.Proofs.Kernel.Validation
import TeachingKernel.Proofs.Memory.Agreement

/-!
# Two kernels side by side

Two kernels may differ in all that a process cannot see: the other processes, and the frames behind
its own pages. If they agree on the devices and on what the process has, then whatever is done for
the process goes the same way from both: the same answers, the same uses of the devices, and kernels
that agree again.
-/

namespace TeachingKernel

variable {φ η χ ω α β : Type}

namespace KernelM

variable {R : Kernel φ η χ ω → Kernel φ η χ ω → Prop} {k k' : Kernel φ η χ ω}

/-- From two kernels the steps go the same way: either both meet the same defect, or they answer
alike, use the devices alike and lead to kernels that are related. -/
def Parallel (R : Kernel φ η χ ω → Kernel φ η χ ω → Prop) (k k' : Kernel φ η χ ω)
    (x x' : KernelM φ η χ ω α) : Prop :=
  (∃ d, x.run k = .error d ∧ x'.run k' = .error d) ∨
    ∃ a k₁ k₁' uses, x.Leads k a k₁ uses ∧ x'.Leads k' a k₁' uses ∧ R k₁ k₁'

theorem parallel_of_leads {x x' : KernelM φ η χ ω α} {a : α} {k₁ k₁' : Kernel φ η χ ω}
    {uses : List (DeviceUse η)} (hx : x.Leads k a k₁ uses) (hx' : x'.Leads k' a k₁' uses)
    (h : R k₁ k₁') : Parallel R k k' x x' :=
  .inr ⟨a, k₁, k₁', uses, hx, hx', h⟩

theorem parallel_pure (a : α) (h : R k k') : Parallel R k k' (pure a) (pure a) :=
  parallel_of_leads (leads_pure a) (leads_pure a) h

theorem Parallel.bind {x x' : KernelM φ η χ ω α} {f f' : α → KernelM φ η χ ω β}
    (hx : Parallel R k k' x x') (hf : ∀ a k₁ k₁', R k₁ k₁' → Parallel R k₁ k₁' (f a) (f' a)) :
    Parallel R k k' (x >>= f) (x' >>= f') := by
  rcases hx with ⟨d, hd, hd'⟩ | ⟨a, k₁, k₁', uses, hleads, hleads', hR⟩
  · exact .inl ⟨d, run_bind_of_error hd, run_bind_of_error hd'⟩
  · rcases hf a k₁ k₁' hR with ⟨d, hd, hd'⟩ | ⟨b, k₂, k₂', uses', hnext, hnext', hR'⟩
    · obtain ⟨_, hrun, _⟩ := hleads
      obtain ⟨_, hrun', _⟩ := hleads'
      refine .inl ⟨d, ?_, ?_⟩
      · rw [run_bind_of_ok hrun, hd]
        rfl
      · rw [run_bind_of_ok hrun', hd']
        rfl
    · exact parallel_of_leads (hleads.bind hnext) (hleads'.bind hnext') hR'

theorem parallel_get_bind {f f' : Kernel φ η χ ω → KernelM φ η χ ω α}
    (h : Parallel R k k' (f k) (f' k')) : Parallel R k k' (get >>= f) (get >>= f') := by
  unfold Parallel Leads
  simp only [run_get_bind]
  exact h

theorem parallel_ofChecked (x : Checked α) (h : R k k') :
    Parallel R k k' (ofChecked x) (ofChecked x) := by
  cases x with
  | error d => exact .inl ⟨d, rfl, rfl⟩
  | ok a => exact parallel_of_leads ⟨[], rfl, rfl⟩ ⟨[], rfl, rfl⟩ h

end KernelM

namespace TrapM

open KernelM

variable {R : Kernel φ η χ ω → Kernel φ η χ ω → Prop} {k k' : Kernel φ η χ ω}

def Parallel (R : Kernel φ η χ ω → Kernel φ η χ ω → Prop) (k k' : Kernel φ η χ ω)
    (x x' : TrapM φ η χ ω α) : Prop :=
  KernelM.Parallel R k k' x.run x'.run

theorem parallel_pure (a : α) (h : R k k') : Parallel R k k' (pure a) (pure a) :=
  KernelM.parallel_pure _ h

theorem parallel_throw (error : TrapError) (h : R k k') :
    Parallel R k k' (throw error : TrapM φ η χ ω α) (throw error) :=
  KernelM.parallel_pure _ h

theorem Parallel.bind {x x' : TrapM φ η χ ω α} {f f' : α → TrapM φ η χ ω β}
    (hx : Parallel R k k' x x') (hf : ∀ a k₁ k₁', R k₁ k₁' → Parallel R k₁ k₁' (f a) (f' a)) :
    Parallel R k k' (x >>= f) (x' >>= f') := by
  unfold Parallel
  rw [ExceptT.run_bind, ExceptT.run_bind]
  refine KernelM.Parallel.bind hx fun answer k₁ k₁' hR => ?_
  cases answer with
  | error error => exact KernelM.parallel_pure _ hR
  | ok a => exact hf a k₁ k₁' hR

theorem parallel_lift {x x' : KernelM φ η χ ω α} (hx : KernelM.Parallel R k k' x x') :
    Parallel R k k' (Kernel.lift x) (Kernel.lift x') := by
  unfold Parallel Kernel.lift
  rw [ExceptT.run_lift, ExceptT.run_lift, map_eq_pure_bind, map_eq_pure_bind]
  exact hx.bind fun _ _ _ hR => KernelM.parallel_pure _ hR

theorem parallel_get_bind {f f' : Kernel φ η χ ω → TrapM φ η χ ω α}
    (h : Parallel R k k' (f k) (f' k')) :
    Parallel R k k' (Kernel.lift get >>= f) (Kernel.lift get >>= f') := by
  unfold Parallel KernelM.Parallel Leads
  simp only [TrapM.run_get_bind]
  exact h

theorem parallel_ofTrapChecked (x : TrapChecked α) (h : R k k') :
    Parallel R k k' (Kernel.ofTrapChecked x) (Kernel.ofTrapChecked x) :=
  KernelM.parallel_ofChecked _ h

end TrapM

namespace Kernel

open KernelM FrameLedger

variable {k k' : Kernel φ η χ ω} {pid : Pid}

/-- The kernels agree on the devices and on all that a process has: whether it runs or how it
exited, its descriptors and its memory. -/
structure Alike (pid : Pid) (k k' : Kernel φ η χ ω) : Prop where
  files_eq : k.files = k'.files
  console_eq : k.console = k'.console
  host_eq : k.host = k'.host
  state_eq : k.processes.state? pid = k'.processes.state? pid
  descriptors_eq :
    (k.processes.get? pid).map (·.files) = (k'.processes.get? pid).map (·.files)
  memory_eq : k.memory? pid = k'.memory? pid

structure Twins (pid : Pid) (k k' : Kernel φ η χ ω) : Prop where
  alike : Alike pid k k'
  orderly : Orderly k
  orderly' : Orderly k'

namespace Twins

/-- A process is known to both kernels or to none. -/
theorem cases (h : Twins pid k k') :
    k.processes.get? pid = none ∧ k'.processes.get? pid = none ∨
      ∃ p p', k.processes.get? pid = some p ∧ k'.processes.get? pid = some p' ∧
        p.state = p'.state ∧ p.files = p'.files ∧ (k.memoryOf p).Agree (k'.memoryOf p') := by
  have hstate := h.alike.state_eq
  have hfiles := h.alike.descriptors_eq
  have hmemory := h.alike.memory_eq
  cases hp : k.processes.get? pid with
  | none =>
    rw [Processes.state?, hp, Option.map_none, Processes.state?, eq_comm,
      Option.map_eq_none_iff] at hstate
    exact .inl ⟨rfl, hstate⟩
  | some p =>
    cases hp' : k'.processes.get? pid with
    | none =>
      rw [hp, hp'] at hfiles
      contradiction
    | some p' =>
      rw [Processes.state?, Processes.state?, hp, hp'] at hstate
      rw [hp, hp'] at hfiles
      rw [memory?_of_get? hp, memory?_of_get? hp'] at hmemory
      obtain ⟨es, hk, hs⟩ := h.orderly
      obtain ⟨es', hk', hs'⟩ := h.orderly'
      exact .inr ⟨p, p', rfl, rfl, Option.some.inj hstate, Option.some.inj hfiles,
        hk.wholeFrames hp, hk'.wholeFrames hp', hk.backedMemory hp, hk'.backedMemory hp',
        Option.some.inj hmemory⟩

theorem setDevices (h : Twins pid k k') (files : φ) (console : χ) (host : ω) :
    Twins pid { k with files, console, host } { k' with files, console, host } where
  alike := { h.alike with files_eq := rfl, console_eq := rfl, host_eq := rfl }
  orderly := h.orderly.steady (Indifferent.setDevices k files console host)
  orderly' := h.orderly'.steady (Indifferent.setDevices k' files console host)

theorem setDescriptors (h : Twins pid k k') (files : Descriptors η) :
    Twins pid { k with processes := k.processes.modify pid ({ · with files }) }
      { k' with processes := k'.processes.modify pid ({ · with files }) } := by
  have hsteady := (inferInstance : Allows Steady pid).setDescriptors k files
  have hsteady' := (inferInstance : Allows Steady pid).setDescriptors k' files
  obtain ⟨es, hk, _⟩ := h.orderly
  obtain ⟨es', hk', _⟩ := h.orderly'
  constructor
  · constructor
    · exact h.alike.files_eq
    · exact h.alike.console_eq
    · exact h.alike.host_eq
    · rw [hsteady.1.state_eq, hsteady'.1.state_eq, h.alike.state_eq]
    · simp only [Processes.get?_modify, if_true, Option.map_map, Function.comp_def]
      rcases h.cases with ⟨hp, hp'⟩ | ⟨p, p', hp, hp', _⟩
      · rw [hp, hp']
      · rw [hp, hp']
        rfl
    · rw [hsteady.memory?_eq rfl hk, hsteady'.memory?_eq rfl hk', h.alike.memory_eq]
  · exact h.orderly.steady hsteady
  · exact h.orderly'.steady hsteady'

/-- The same store in both memories. -/
theorem setPool (h : Twins pid k k') {p p' : UserProcess η} {va : VirtAddr} {bytes : Bytes}
    {answer : Except Fault Unit} {pool pool' : PagePool} (hp : k.processes.get? pid = some p)
    (hp' : k'.processes.get? pid = some p')
    (hrun : (k.memoryOf p).copyOut va bytes = .ok (answer, pool))
    (hrun' : (k'.memoryOf p').copyOut va bytes = .ok (answer, pool')) :
    Twins pid { k with frames := { k.frames with pool } }
      { k' with frames := { k'.frames with pool := pool' } } := by
  obtain ⟨es, hk, hs⟩ := h.orderly
  obtain ⟨es', hk', hs'⟩ := h.orderly'
  constructor
  · constructor
    · exact h.alike.files_eq
    · exact h.alike.console_eq
    · exact h.alike.host_eq
    · exact h.alike.state_eq
    · exact h.alike.descriptors_eq
    · have hcontents := h.alike.memory_eq
      rw [memory?_of_get? hp, memory?_of_get? hp'] at hcontents
      rcases memory?_setPool hk hs hp hrun with ⟨_, rfl, hm⟩ | ⟨_, ⟨fault, rfl⟩, rfl⟩
      · rcases memory?_setPool hk' hs' hp' hrun' with ⟨_, _, hm'⟩ | ⟨_, ⟨_, hc⟩, _⟩
        · rw [hm, hm', Function.update_self, Function.update_self, Option.some.inj hcontents]
        · contradiction
      · rcases memory?_setPool hk' hs' hp' hrun' with ⟨_, hc, _⟩ | ⟨_, _, rfl⟩
        · contradiction
        · exact h.alike.memory_eq
  · exact h.orderly.steady
      ((inferInstance : Allows Steady pid).setPool k p va bytes answer pool hp hrun)
  · exact h.orderly'.steady
      ((inferInstance : Allows Steady pid).setPool k' p' va bytes answer pool' hp' hrun')

end Twins

/-! ## Looking things up -/

theorem parallel_knownProcess_bind {f f' : UserProcess η → TrapM φ η χ ω α}
    (h : Twins pid k k')
    (hf : ∀ p p', k.processes.get? pid = some p → k'.processes.get? pid = some p' →
      p.files = p'.files → (k.memoryOf p).Agree (k'.memoryOf p') →
      TrapM.Parallel (Twins pid) k k' (f p) (f' p')) :
    TrapM.Parallel (Twins pid) k k' (knownProcess pid >>= f) (knownProcess pid >>= f') := by
  unfold knownProcess
  rw [bind_assoc, bind_assoc]
  apply TrapM.parallel_get_bind
  rcases h.cases with ⟨hp, hp'⟩ | ⟨p, p', hp, hp', _, hfiles, hagree⟩
  · rw [hp, hp']
    exact TrapM.parallel_throw _ h
  · simp only [hp, hp', pure_bind]
    exact hf p p' hp hp' hfiles hagree

/-- What follows a look at the memory of a running process. -/
theorem parallel_runningMemory_bind {f f' : UserMemory → TrapM φ η χ ω α} (h : Twins pid k k')
    (hf : ∀ m m', m.Agree m' → TrapM.Parallel (Twins pid) k k' (f m) (f' m')) :
    TrapM.Parallel (Twins pid) k k' (runningMemory pid >>= f) (runningMemory pid >>= f') := by
  unfold runningMemory
  rw [bind_assoc, bind_assoc]
  apply TrapM.parallel_get_bind
  rcases h.cases with ⟨hp, hp'⟩ | ⟨p, p', hp, hp', hstate, _, hagree⟩
  · simp only [Processes.running?, hp, hp', Option.filter_none]
    exact TrapM.parallel_throw _ h
  · simp only [Processes.running?, hp, hp', UserProcess.isRunning]
    by_cases hr : p'.state = .running
    · simp only [Option.filter_some, hstate, hr, decide_true, if_true, pure_bind]
      exact hf _ _ hagree
    · simp only [Option.filter_some, hstate, hr, decide_false, Bool.false_eq_true, if_false]
      exact TrapM.parallel_throw _ h

theorem parallel_fileOf? (h : Twins pid k k') (fd : Int32) :
    TrapM.Parallel (Twins pid) k k' (fileOf? pid fd) (fileOf? pid fd) := by
  refine parallel_knownProcess_bind h fun p p' _ _ hfiles _ => ?_
  rw [hfiles]
  exact TrapM.parallel_pure _ h

theorem parallel_isOpen (h : Twins pid k k') (console fd : Int32) :
    TrapM.Parallel (Twins pid) k k' (isOpen pid console fd) (isOpen pid console fd) := by
  unfold isOpen
  split
  · exact TrapM.parallel_pure _ h
  · exact (parallel_fileOf? h fd).bind fun _ _ _ h₁ => TrapM.parallel_pure _ h₁

/-! ## Devices and open files -/

/-- The devices are the same, so what goes on at them is. -/
theorem parallel_onDevices {x : KernelM φ η χ ω α} (hx : OnDevices x) (h : Twins pid k k') :
    KernelM.Parallel (Twins pid) k k' x x := by
  obtain ⟨a, files, console, host, events, _, hrun⟩ := hx k.files k.console k.host
  have hleads : x.Leads k a { k with files, console, host } _ :=
    ⟨events, hrun k.frames k.processes, rfl⟩
  have hleads' : x.Leads k' a { k' with files, console, host } (deviceUses events) := by
    refine ⟨events, ?_, rfl⟩
    rw [← hrun k'.frames k'.processes, h.alike.files_eq, h.alike.console_eq, h.alike.host_eq]
  exact parallel_of_leads hleads hleads' (h.setDevices files console host)

theorem parallel_lift_onDevices {x : KernelM φ η χ ω α} (hx : OnDevices x) (h : Twins pid k k') :
    TrapM.Parallel (Twins pid) k k' (lift x) (lift x) :=
  TrapM.parallel_lift (parallel_onDevices hx h)

end Kernel

end TeachingKernel
