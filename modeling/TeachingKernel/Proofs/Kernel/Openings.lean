import TeachingKernel.Proofs.Descriptors.History
import TeachingKernel.Proofs.Kernel.Handles

/-!
# Openings

A process that asks for a file to be opened is answered with a descriptor, or with -1 if there is no
such file or no descriptor is left. All that the kernel does with the open files of a process is to
install, to remove and to drain them, so what a process is answered are the descriptors that were
handed out in the history of its open files.

Main statement: `descriptors_never_reused`.
-/

namespace TeachingKernel

open Descriptors (handedOut Issued)

variable {φ η χ ω : Type}

/-! ## What a process is answered -/

def Request.opened? : Request → Except TrapError Reply → Option Int32
  | .open _, .ok (.value n) => some n
  | _, _ => none

namespace Kernel

/-- What a process finds in its result register after the operation, if this is a trap in which it
asks for a file to be opened. -/
def openResult? (k : Kernel φ η χ ω) (pid : Pid) : (op : Operation) → op.Answer → Option Int32
  | .trap q registers, answer =>
    if q = pid then
      match (decode q registers.stackPointer).run.run k with
      | .ok (.ok (.open _), _, _) => some answer.2.result.toInt32
      | _ => none
    else none
  | _, _ => none

/-- What a process is answered when it asks for files to be opened, in the order of its traps. -/
def openResults [FileSystem φ η] [Console χ] [Host ω] (pid : Pid) :
    List Operation → Kernel φ η χ ω → List Int32
  | [], _ => []
  | op :: ops, k =>
    match op.perform.run k with
    | .ok (answer, k', _) => (openResult? k pid op answer).toList ++ openResults pid ops k'
    | .error _ => []

end Kernel

/-- A process was answered with the descriptors that were handed out in the history of its open
files, and else that the call failed. -/
def Numbered (results : List Int32) : Option (Descriptors η) → Prop
  | none => results = []
  | some d => ∃ calls events, Descriptors.history calls .empty = (events, d) ∧
      handedOut events = results.filter (0 ≤ ·) ∧ ∀ n ∈ results, n = failed ∨ 0 ≤ n

/-! ## Histories go on -/

namespace Descriptors

variable {d d' d'' : Descriptors η}

theorem history_concat {calls : List (Call η)} {call : Call η} {events : List (Event η)}
    {event : Event η} (hcalls : history calls d = (events, d'))
    (hcall : call.perform d' = (event, d'')) :
    history (calls ++ [call]) d = (events ++ [event], d'') := by
  induction calls generalizing d events with
  | nil =>
    obtain ⟨rfl, rfl⟩ := Prod.mk.inj hcalls
    exact history_cons hcall rfl
  | cons first calls ih =>
    obtain ⟨rfl, rfl⟩ := Prod.mk.inj hcalls
    exact history_cons rfl (ih rfl)

/-- What a history from the beginning leads to. -/
theorem issued_of_history {calls : List (Call η)} {events : List (Event η)}
    (h : history calls empty = (events, d)) : Issued events d := by
  obtain ⟨events', d', hrun, hissued⟩ := issued_empty.history calls
  cases hrun.symm.trans h
  exact hissued

end Descriptors

section Numbers

variable {D D' : OpenFiles η} {d d' : Descriptors η} {pid q : Pid} {results : List Int32}
  {request : Request} {reply : Except TrapError Reply} {uses : List (DeviceUse η)}
  {moves : List (Move η)}

/-- A call on the open files, with what the process is answered for it. -/
theorem Numbered.call (h : Numbered results (some d)) {call : Descriptors.Call η}
    {event : Descriptors.Event η} (hcall : call.perform d = (event, d'))
    (hnonneg : ∀ fd, event.handedOut? = some fd → 0 ≤ fd) :
    Numbered (results ++ event.handedOut?.toList) (some d') := by
  obtain ⟨calls, events, hrun, hout, hall⟩ := h
  refine ⟨calls ++ [call], events ++ [event], Descriptors.history_concat hrun hcall, ?_, ?_⟩
  · rw [Descriptors.handedOut_concat, List.filter_append, hout]
    cases hfd : event.handedOut? with
    | none => rfl
    | some fd => simp [hnonneg fd hfd]
  · intro n hn
    rcases List.mem_append.mp hn with hn | hn
    · exact hall n hn
    · exact .inr (hnonneg n (Option.mem_toList.mp hn))

/-- A descriptor that is handed out is none of the console. -/
theorem Numbered.nonneg_of_install? (h : Numbered results (some d)) {handle : η} {fd : Int32}
    (hi : d.install? handle = some (fd, d')) : 0 ≤ fd := by
  obtain ⟨_, _, hrun, -⟩ := h
  have hone := (Descriptors.issued_of_history hrun).one_le_last
  have hfd := Descriptors.toInt_of_install? hi
  have hzero : (0 : Int32).toInt = 0 := by decide
  exact Int32.le_iff_toInt_le.mpr (by omega)

theorem Numbered.installed (h : Numbered results (some d)) {handle : η} {fd : Int32}
    (hi : d.install? handle = some (fd, d')) : Numbered (results ++ [fd]) (some d') := by
  have hcall : (Descriptors.Call.install handle).perform d = (.installed fd handle, d') := by
    rw [Descriptors.Call.perform, hi]
  refine h.call hcall fun n hn => ?_
  cases hn
  exact h.nonneg_of_install? hi

theorem Numbered.removed (h : Numbered results (some d)) {handle : η} {fd : Int32}
    (hr : d.remove? fd = some (handle, d')) : Numbered results (some d') := by
  have hcall : (Descriptors.Call.remove fd).perform d = (.removed fd handle, d') := by
    rw [Descriptors.Call.perform, hr]
  rw [← List.append_nil results]
  exact h.call hcall fun n hn => by contradiction

theorem Numbered.drained (h : Numbered results (some d)) : Numbered results (some d.drained) := by
  have hcall : Descriptors.Call.drain.perform d = (.drained d.files, d.drained) := rfl
  rw [← List.append_nil results]
  exact h.call hcall fun n hn => by contradiction

/-- The call failed. -/
theorem Numbered.failed (h : Numbered results (some d)) :
    Numbered (results ++ [TeachingKernel.failed]) (some d) := by
  obtain ⟨calls, events, hrun, hout, hall⟩ := h
  refine ⟨calls, events, hrun, ?_, ?_⟩
  · rw [List.filter_append, hout]
    simp [show ¬ (0 : Int32) ≤ TeachingKernel.failed by decide]
  · intro n hn
    rcases List.mem_append.mp hn with hn | hn
    · exact hall n hn
    · exact .inl (List.mem_singleton.mp hn)

/-! ## The answers of a process and its open files -/

theorem OpenFiles.Ends.numbered {status : Int32} (h : D.Ends q status uses moves D')
    (hn : Numbered results (D pid)) : Numbered results (D' pid) := by
  obtain ⟨hd⟩ := h
  by_cases hpid : pid = q
  · subst hpid
    rw [Function.update_self]
    exact (hd ▸ hn).drained
  · rwa [Function.update_of_ne hpid]

/-- What a process is replied when it asks for a file to be opened. -/
theorem Request.Moves.value_of_open {name : Scratch}
    (h : (Request.open name).Moves D q reply uses moves D') : ∃ n, reply = .ok (.value n) := by
  cases h with
  | opens => exact ⟨_, rfl⟩
  | turnsAway => exact ⟨_, rfl⟩
  | opensNothing => exact ⟨_, rfl⟩
  | works hopen => exact absurd rfl (hopen name)

theorem Request.opened?_of_ne_open (hopen : ∀ name, request ≠ .open name)
    (reply : Except TrapError Reply) : request.opened? reply = none := by
  cases request with
  | «open» name => exact absurd rfl (hopen name)
  | _ => rfl

/-- A request of one process, with what another one or the same is answered for it. -/
theorem Request.Moves.numbered (h : request.Moves D q reply uses moves D') (hd : D q = some d)
    (hn : Numbered results (D pid)) :
    Numbered (results ++ (if q = pid then request.opened? reply else none).toList) (D' pid) := by
  split
  · rename_i hpid
    subst hpid
    cases h with
    | opens _ hd' hi =>
      rw [Function.update_self]
      exact (hd' ▸ hn).installed hi
    | turnsAway => exact hd ▸ (hd ▸ hn).failed
    | opensNothing => exact hd ▸ (hd ▸ hn).failed
    | closes hd' hr =>
      rw [Function.update_self, Request.opened?_of_ne_open (fun _ h => by cases h),
        Option.toList_none, List.append_nil]
      exact (hd' ▸ hn).removed hr
    | closesNothing =>
      rwa [Request.opened?_of_ne_open (fun _ h => by cases h), Option.toList_none, List.append_nil]
    | works hopen =>
      rwa [Request.opened?_of_ne_open hopen, Option.toList_none, List.append_nil]
  · rename_i hpid
    have hothers : D' pid = D pid := by
      cases h with
      | opens => exact Function.update_of_ne (Ne.symm hpid) _ _
      | closes => exact Function.update_of_ne (Ne.symm hpid) _ _
      | _ => rfl
    rwa [Option.toList_none, List.append_nil, hothers]

end Numbers

namespace Kernel

open KernelM

variable {k k' : Kernel φ η χ ω} {es : List (Nat × Loan)} {pid q : Pid} {results : List Int32}
  {registers : Registers} {events : List (Event η)}

/-- A trap that cannot be decoded asks for nothing. -/
theorem openResult?_of_error {error : TrapError}
    (hdecode : (decode q registers.stackPointer).run.Leads k (.error error) k [])
    (answer : Verdict × Registers) :
    openResult? k pid (.trap q registers) answer = none := by
  obtain ⟨_, hrun, -⟩ := hdecode
  simp only [openResult?, hrun]
  split <;> rfl

/-- The value for the result register is found there. -/
theorem openResult?_of_moves {request : Request} {reply : Except TrapError Reply}
    {answer : Verdict × Registers} {D D' : OpenFiles η} {uses : List (DeviceUse η)}
    {moves : List (Move η)}
    (hdecode : (decode q registers.stackPointer).run.Leads k (.ok request) k [])
    (hmoves : request.Moves D q reply uses moves D')
    (hvalue : ∀ n, reply = .ok (.value n) → answer.2.result = n.toUInt32) :
    openResult? k pid (.trap q registers) answer =
      if q = pid then request.opened? reply else none := by
  obtain ⟨_, hrun, -⟩ := hdecode
  simp only [openResult?, hrun]
  split
  · cases request with
    | «open» name =>
      obtain ⟨n, rfl⟩ := hmoves.value_of_open
      simp only [hvalue n rfl, Int32.toInt32_toUInt32]
      rfl
    | _ => rfl
  · rfl

theorem exists_openFiles_of_running (hp : (k.processes.running? q).isSome = true) :
    ∃ d, k.openFiles q = some d := by
  obtain ⟨p, hp⟩ := Option.isSome_iff_exists.mp hp
  exact ⟨p.files, Processes.openFiles_of_get? (get?_of_running? hp)⟩

/-- One operation. -/
theorem Operation.Moves.numbered (h : Coherent k es) {op : Operation} {answer : op.Answer}
    {uses : List (DeviceUse η)} {moves : List (Move η)} {D : OpenFiles η}
    (hmoves : op.Moves k answer uses moves D) (hn : Numbered results (k.openFiles pid)) :
    Numbered (results ++ (openResult? k pid op answer).toList) (D pid) := by
  have hquiet : ∀ {D : OpenFiles η}, openResult? k pid op answer = none → Numbered results (D pid) →
      Numbered (results ++ (openResult? k pid op answer).toList) (D pid) := by
    intro D hnone hn
    rwa [hnone, Option.toList_none, List.append_nil]
  cases hmoves with
  | @spawn name q hnew =>
    refine hquiet rfl ?_
    by_cases hpid : pid = q
    · subst hpid
      have hnil : results = [] := by rwa [hnew] at hn
      rw [Function.update_self]
      exact ⟨[], [], rfl, by rw [hnil]; rfl, fun n hmem => absurd (hnil ▸ hmem) List.not_mem_nil⟩
    · rwa [Function.update_of_ne hpid]
  | aside _ _ htrap =>
    refine hquiet ?_ hn
    cases op with
    | trap q registers => exact absurd rfl (htrap q registers)
    | _ => rfl
  | terminateDead => exact hquiet rfl hn
  | terminate _ hends => exact hquiet rfl (hends.numbered hn)
  | @trapDead q registers hp =>
    refine hquiet ?_ hn
    rcases decode_cases h q registers.stackPointer with ⟨_, hdecode, -⟩ | ⟨_, _, hrunning, -⟩
    · exact openResult?_of_error hdecode _
    · rw [hp] at hrunning
      contradiction
  | trapUndecoded _ hdecode hends =>
    exact hquiet (openResult?_of_error hdecode _) (hends.numbered hn)
  | trap hp hdecode hmoves _ =>
    obtain ⟨d, hd⟩ := exists_openFiles_of_running hp
    rw [openResult?_of_moves hdecode hmoves fun n hn => by cases hn; rfl]
    exact hmoves.numbered hd hn
  | @trapExit q registers request reply status _ _ _ _ _ _ hp hdecode hmoves hstatus hends =>
    -- a process that is given a value goes on
    have hvalue : ∀ n, reply ≠ .ok (.value n) := by
      rintro n rfl
      rcases hstatus with hexit | ⟨⟨_, herror⟩, -⟩
      · cases hexit
      · cases herror
    have hnone : request.opened? reply = none := by
      apply Request.opened?_of_ne_open
      rintro name rfl
      obtain ⟨n, hn⟩ := hmoves.value_of_open
      exact hvalue n hn
    obtain ⟨d, hd⟩ := exists_openFiles_of_running hp
    have hmiddle := hmoves.numbered hd hn
    rw [hnone, ite_self, Option.toList_none, List.append_nil] at hmiddle
    refine hquiet ?_ (hends.numbered hmiddle)
    rw [openResult?_of_moves hdecode hmoves fun n hn => absurd hn (hvalue n), hnone, ite_self]

variable [FileSystem φ η] [Console χ] [Host ω]

/-- Any number of operations. -/
theorem Orderly.numbered (ho : Orderly k) (hn : Numbered results (k.openFiles pid))
    {ops : List Operation} (hrun : (performAll ops).run k = .ok ((), k', events)) :
    Numbered (results ++ openResults pid ops k) (k'.openFiles pid) := by
  induction ops generalizing k events results with
  | nil =>
    cases hrun
    rwa [openResults, List.append_nil]
  | cons op ops ih =>
    obtain ⟨answer, middle, before, after, hop, hops, rfl⟩ := run_bind_eq_ok.mp hrun
    obtain ⟨es, h, hs⟩ := ho
    obtain ⟨es', h', hs', _⟩ := h.allows hs hop
    obtain ⟨moves, hmoves⟩ := h.moves hop
    have hrest := ih ⟨es', h', hs'⟩ (hmoves.numbered h hn) hops
    simp only [openResults, hop]
    rwa [List.append_assoc] at hrest

/-- A descriptor is handed out once. Whatever is asked of the open files of a process, the next
descriptor is one above the largest that was handed out, and the first is 2. A file is found under
its descriptor from when it is stored until it is removed or all are drained; what was removed is
never found again, and its descriptor is not used again. So whatever was performed since boot, the
open files of a process have such a history, and when the process asked for files to be opened it
was answered with the descriptors that were handed out in it, which increase, or with -1. -/
theorem descriptors_never_reused (config : Config) (files : φ) (console : χ) (host : ω)
    (hfits : poolBase + config.frames * pageSize ≤ addressBound) {ops : List Operation}
    (hr : (performAll ops).run (boot config files console host).1 = .ok ((), k, events)) :
    (∀ calls : List (Descriptors.Call η), ∃ told d,
      Descriptors.history calls .empty = (told, d) ∧ Issued told d ∧
        ∀ call : Descriptors.Call η, ∃ event d', call.perform d = (event, d') ∧
          Descriptors.Answers d call event d') ∧
    ∀ pid, ∃ results, openResults pid ops (boot config files console host).1 = results ∧
      (∀ n ∈ results, n = failed ∨ 2 ≤ n) ∧ (results.filter (0 ≤ ·)).Pairwise (· < ·) ∧
      ∀ d, k.openFiles pid = some d → ∃ calls told,
        Descriptors.history calls .empty = (told, d) ∧ handedOut told = results.filter (0 ≤ ·) := by
  refine ⟨Descriptors.issued_after_history, fun pid => ⟨_, rfl, ?_⟩⟩
  have hboot : Numbered []
      ((boot config files console host : Kernel φ η χ ω × List (Event η)).1.openFiles pid) := by
    simp [boot, openFiles, Processes.openFiles, Numbered]
  have hn := (orderly_boot config files console host hfits).numbered hboot hr
  rw [List.nil_append] at hn
  cases hd : k.openFiles pid with
  | none =>
    have hnil : openResults pid ops (boot config files console host).1 = [] := by rwa [hd] at hn
    rw [hnil]
    exact ⟨fun n hmem => absurd hmem List.not_mem_nil, .nil, fun d hd => by contradiction⟩
  | some d =>
    rw [hd] at hn
    obtain ⟨calls, told, hrun, hout, hall⟩ := hn
    have hissued := Descriptors.issued_of_history hrun
    refine ⟨fun n hmem => (hall n hmem).imp_right fun hnonneg => ?_, hout ▸ hissued.increasing,
      fun d' hd' => ?_⟩
    · exact hissued.two_le n (hout ▸ List.mem_filter.mpr ⟨hmem, decide_eq_true hnonneg⟩)
    · obtain rfl : d = d' := Option.some.inj hd'
      exact ⟨calls, told, hrun, hout⟩

/-- A process opens a file and closes it, then a file that there is not, and then the first file
again. -/
theorem descriptors_never_reused_of_closing :
    poolBase + 1 * pageSize ≤ addressBound ∧
      ∃ (ops : List Operation)
        (k : Kernel MemoryFileSystem FileHandle BufferConsole ScriptedHost)
        (events : List (Event FileHandle)) (d : Descriptors FileHandle)
        (calls : List (Descriptors.Call FileHandle))
        (told : List (Descriptors.Event FileHandle)),
        ops = [.spawn "reader", .mapPage ⟨1⟩ (.ofNat 0x1000) true,
          .copyTo ⟨1⟩ (.ofNat 0x1000) (Call.open.stackImage [0x1008] ++ [97, 0]),
          .trap ⟨1⟩ ⟨.ofNat 0x1000, 0⟩,
          .copyTo ⟨1⟩ (.ofNat 0x1000) (Call.close.stackImage [2]),
          .trap ⟨1⟩ ⟨.ofNat 0x1000, 0⟩,
          .copyTo ⟨1⟩ (.ofNat 0x1000) (Call.open.stackImage [0x1008] ++ [98, 0]),
          .trap ⟨1⟩ ⟨.ofNat 0x1000, 0⟩,
          .copyTo ⟨1⟩ (.ofNat 0x1000) (Call.open.stackImage [0x1008] ++ [97, 0]),
          .trap ⟨1⟩ ⟨.ofNat 0x1000, 0⟩] ∧
        (performAll ops).run
            (boot ⟨1, .clock⟩ (({} : MemoryFileSystem).put "a" (.bytes #[7])) {} {}).1 =
          .ok ((), k, events) ∧
        openResults ⟨1⟩ ops (boot ⟨1, .clock⟩ (({} : MemoryFileSystem).put "a" (.bytes #[7]))
          ({} : BufferConsole) ({} : ScriptedHost)).1 = [2, -1, 3] ∧
        k.openFiles ⟨1⟩ = some d ∧ Descriptors.history calls .empty = (told, d) ∧
        handedOut told = [2, 3] := by
  have hfits : poolBase + 1 * pageSize ≤ addressBound := by decide
  -- the process is there at the end, computed at once
  have hanswers : ((do
      performAll [.spawn "reader", .mapPage ⟨1⟩ (.ofNat 0x1000) true,
        .copyTo ⟨1⟩ (.ofNat 0x1000) (Call.open.stackImage [0x1008] ++ [97, 0]),
        .trap ⟨1⟩ ⟨.ofNat 0x1000, 0⟩, .copyTo ⟨1⟩ (.ofNat 0x1000) (Call.close.stackImage [2]),
        .trap ⟨1⟩ ⟨.ofNat 0x1000, 0⟩,
        .copyTo ⟨1⟩ (.ofNat 0x1000) (Call.open.stackImage [0x1008] ++ [98, 0]),
        .trap ⟨1⟩ ⟨.ofNat 0x1000, 0⟩,
        .copyTo ⟨1⟩ (.ofNat 0x1000) (Call.open.stackImage [0x1008] ++ [97, 0]),
        .trap ⟨1⟩ ⟨.ofNat 0x1000, 0⟩]
      let k ← get
      return (k.openFiles ⟨1⟩).isSome :
        KernelM MemoryFileSystem FileHandle BufferConsole ScriptedHost _).run
      (boot ⟨1, .clock⟩ (({} : MemoryFileSystem).put "a" (.bytes #[7])) {} {}).1).map Prod.fst =
        .ok true := by
    decide +kernel
  obtain ⟨_, _, hrun⟩ := exists_run_eq hanswers
  obtain ⟨_, k, events, _, hr, hrun, _⟩ := run_bind_eq_ok.mp hrun
  rw [KernelM.run_get_bind] at hrun
  simp only [run_pure, Except.ok.injEq, Prod.mk.injEq] at hrun
  obtain ⟨d, hd⟩ := Option.isSome_iff_exists.mp hrun.1
  obtain ⟨-, hall⟩ := descriptors_never_reused ⟨1, .clock⟩ _ _ _ hfits hr
  obtain ⟨results, hresults, -, -, hnumbered⟩ := hall ⟨1⟩
  obtain ⟨calls, told, hhistory, hout⟩ := hnumbered d hd
  obtain rfl : [2, -1, 3] = results := by
    rw [← hresults]
    decide +kernel
  exact ⟨hfits, _, k, events, d, calls, told, rfl, hr, hresults, hd, hhistory, hout⟩

end Kernel

end TeachingKernel
