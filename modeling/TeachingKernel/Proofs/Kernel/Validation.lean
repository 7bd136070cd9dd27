import TeachingKernel.Proofs.Kernel.Decoding
import TeachingKernel.Proofs.Kernel.Isolation

/-!
# Validation before effect

A trap that cannot be decoded kills the process that made it, and that is all it does: apart from
the files that are closed and the exit that the host is told of, no device is used, and every other
process keeps its record and its memory.
-/

namespace TeachingKernel.Kernel

open KernelM FrameLedger

variable {φ η χ ω : Type} {k k' : Kernel φ η χ ω} {es : List (Nat × Loan)} {pid q : Pid}
  {status : Int32} {uses : List (DeviceUse η)}

section Ends

variable [FileSystem φ η] [Host ω]

theorem Ends.get?_eq (h : Ends k pid status k' uses) (hq : q ≠ pid) :
    k'.processes.get? q = k.processes.get? q := by
  cases h with
  | dead => rfl
  | ended => rw [Processes.get?_modify, if_neg hq]

/-- The end of a process leaves the memories of the others alone. -/
theorem Ends.memory?_eq (h : Ends k pid status k' uses) (hq : q ≠ pid) :
    k'.memory? q = k.memory? q := by
  have hget := h.get?_eq hq
  cases h with
  | dead => rfl
  | ended _ hpages =>
    apply memory?_congr
    · rw [Processes.state?, Processes.state?, hget]
    · intro x
      rw [Processes.mapping?, Processes.mapping?, hget]
    · exact fun _ f _ _ => hpages f

end Ends

variable [FileSystem φ η] [Host ω]

theorem leads_kill {verdict : Verdict} {error : TrapError}
    (h : (terminate pid killedStatus).Leads k verdict k' uses) :
    (kill pid error).Leads k verdict k' uses :=
  (leads_notice _).bind h

variable [Console χ]

/-- A trap that is not decoded kills the process and leaves its registers as they are. -/
theorem leads_trap_of_error {registers : Registers} {error : TrapError} {verdict : Verdict}
    (hdecode : (decode pid registers.stackPointer).run.Leads k (.error error) k [])
    (hterm : (terminate pid killedStatus).Leads k verdict k' uses) :
    (trap pid registers).Leads k (verdict, registers) k' uses := by
  have hkill : (do return (← kill pid error, registers) : KernelM φ η χ ω _).Leads k
      (verdict, registers) k' (uses ++ []) := (leads_kill hterm).bind (leads_pure _)
  rw [List.append_nil] at hkill
  exact hdecode.bind hkill

/-- Whatever was performed since boot, a trap is decoded unless it is undecodable. If it is, the
process is killed before anything else has happened: its registers are as they were, its files are
closed and the host is told of its exit, if it was running, and no device is used for anything
else. All other processes keep their records and their memories. -/
theorem undecodable_trap_only_kills (config : Config) (files : φ) (console : χ) (host : ω)
    (hfits : poolBase + config.frames * pageSize ≤ addressBound)
    {steps : List ((op : Operation) × op.Answer)}
    (hr : Performs (boot config files console host).1 steps k) (pid : Pid)
    (registers : Registers) :
    (¬ k.Undecodable pid registers.stackPointer →
      ∃ request, (decode pid registers.stackPointer).run.Leads k (.ok request) k []) ∧
    (k.Undecodable pid registers.stackPointer →
      (∃ error, (decode pid registers.stackPointer).run.Leads k (.error error) k []) ∧
      ∃ k' uses, (trap pid registers).Leads k (.exit killedStatus, registers) k' uses ∧
        Ends k pid killedStatus k' uses ∧ ∀ q, q ≠ pid →
          k'.processes.get? q = k.processes.get? q ∧ k'.memory? q = k.memory? q) := by
  obtain ⟨es, h, _, _⟩ := hr.coherent hfits
  rcases decode_cases h pid registers.stackPointer with
    ⟨error, hdecode, _, hbad⟩ | ⟨p, request, hp, hdecode, hgood, _⟩
  · refine ⟨fun hgood => absurd hbad hgood, fun _ => ⟨⟨error, hdecode⟩, ?_⟩⟩
    obtain ⟨k', uses, hterm, hends⟩ := leads_terminate h pid killedStatus
    exact ⟨k', uses, leads_trap_of_error hdecode hterm, hends,
      fun q hq => ⟨hends.get?_eq hq, hends.memory?_eq hq⟩⟩
  · exact ⟨fun _ => ⟨request, hdecode⟩, fun hbad => absurd hbad hgood⟩

/-- A program asks to write four bytes of which the first two are the last of its only page. -/
theorem undecodable_trap_only_kills_of_straddling_buffer :
    poolBase + 1 * pageSize ≤ addressBound ∧
      ∃ (k k' : Kernel MemoryFileSystem FileHandle BufferConsole ScriptedHost)
        (steps : List ((op : Operation) × op.Answer)) (registers : Registers),
        Performs (boot ⟨1, .clock⟩ {} {} {}).1 steps k ∧
        k.Undecodable ⟨1⟩ registers.stackPointer ∧
        (trap ⟨1⟩ registers).Leads k (.exit killedStatus, registers) k'
          [.exited ⟨1⟩ killedStatus] := by
  have hfits : poolBase + 1 * pageSize ≤ addressBound := by decide
  -- the run, and what comes of the decoding, computed at once
  have hanswers : ((do
      let pid ← spawn "writer"
      let mapped ← mapPage ⟨1⟩ (.ofNat 0x1000) true
      let stored ← copyTo ⟨1⟩ (.ofNat 0x1000) (Call.write.stackImage [1, 0x1ffe, 4])
      let k ← get
      let decoded ← (decode ⟨1⟩ (.ofNat 0x1000)).run
      return ((pid, mapped, stored), (k.processes.running? ⟨1⟩).map (·.files.files.length),
        decoded.map fun _ => ()) :
        KernelM MemoryFileSystem FileHandle BufferConsole ScriptedHost _).run
      (boot ⟨1, .clock⟩ {} {} {}).1).map Prod.fst =
        .ok ((⟨1⟩, .ok (.ofNat poolBase), .ok ()), some 0,
          .error (.badAddress (.unmapped (.ofNat 0x2000)))) := by
    decide +kernel
  obtain ⟨_, _, hrun⟩ := exists_run_eq hanswers
  obtain ⟨_, _, _, _, hspawn, hrun, _⟩ := run_bind_eq_ok.mp hrun
  obtain ⟨_, _, _, _, hmap, hrun, _⟩ := run_bind_eq_ok.mp hrun
  obtain ⟨_, k, _, _, hstore, hrun, _⟩ := run_bind_eq_ok.mp hrun
  rw [run_get_bind] at hrun
  obtain ⟨decoded, _, _, _, hdecode, hrun, _⟩ := run_bind_eq_ok.mp hrun
  simp only [run_pure, Except.ok.injEq, Prod.mk.injEq] at hrun
  obtain ⟨⟨⟨rfl, rfl, rfl⟩, hfiles, hfault⟩, _⟩ := hrun
  let registers : Registers := ⟨.ofNat 0x1000, 0⟩
  have hr : Performs (boot ⟨1, .clock⟩ {} {} {}).1 [⟨.spawn "writer", (⟨1⟩ : Pid)⟩,
      ⟨.mapPage ⟨1⟩ (.ofNat 0x1000) true, Except.ok (.ofNat poolBase)⟩,
      ⟨.copyTo ⟨1⟩ (.ofNat 0x1000) (Call.write.stackImage [1, 0x1ffe, 4]), Except.ok ()⟩] k :=
    .cons hspawn (.cons hmap (.cons hstore (.nil _)))
  obtain ⟨hdecoded, hkills⟩ := undecodable_trap_only_kills ⟨1, .clock⟩ _ _ _ hfits hr ⟨1⟩ registers
  have hbad : k.Undecodable ⟨1⟩ registers.stackPointer := by
    by_contra hgood
    obtain ⟨request, hrequest⟩ := hdecoded hgood
    obtain ⟨rfl, _⟩ := hrequest.unique ⟨_, hdecode, rfl⟩
    contradiction
  obtain ⟨_, k', uses, htrap, hends, _⟩ := hkills hbad
  refine ⟨hfits, k, k', _, registers, hr, hbad, ?_⟩
  cases hends with
  | dead hp =>
    rw [hp] at hfiles
    contradiction
  | @ended p _ hp =>
    have hnil : p.files.files = [] := by simpa [hp, Descriptors.size] using hfiles
    simpa [hnil] using htrap

end TeachingKernel.Kernel
