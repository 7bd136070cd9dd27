import TeachingKernel.Proofs.Kernel.FileUse

/-!
# Handles are conserved

A history says, operation by operation, how the devices were used, which handles moved and which
files were open then. Only four kinds of operation matter: a trap that opens a file, a trap that
closes one, and the end of a process, be it asked for by the process, brought about by a trap that
went wrong or demanded from outside; besides, a new process starts without files.

Every run of the kernel has such a history. It tells where each handle is: the handles that came
from the file system and went back to it are those that moved, and the moves account for the open
files.
-/

namespace TeachingKernel

open Function (update)

variable {φ η χ ω : Type}

/-! ## What moves -/

namespace OpenFiles

inductive Ends (D : OpenFiles η) (pid : Pid) (status : Int32) :
    List (DeviceUse η) → List (Move η) → OpenFiles η → Prop
  | mk {d : Descriptors η} (hd : D pid = some d) :
      Ends D pid status (d.files.map (fun file => .close file.2) ++ [.exited pid status])
        (d.files.map fun file => .dropped pid file.1 file.2) (update D pid (some d.drained))

end OpenFiles

inductive Request.Moves (D : OpenFiles η) (pid : Pid) :
    Request → Except TrapError Reply → List (DeviceUse η) → List (Move η) → OpenFiles η → Prop
  | opens {name : Scratch} {text : String} {handle : η} {fd : Int32} {d d' : Descriptors η}
      (htext : name.text? = some text) (hd : D pid = some d)
      (hi : d.install? handle = some (fd, d')) :
      Moves D pid (.open name) (.ok (.value fd)) [.open text (some handle)]
        [.taken pid fd handle] (update D pid (some d'))
  /-- No descriptor is left. -/
  | turnsAway {name : Scratch} {text : String} {handle : η} {d : Descriptors η}
      (htext : name.text? = some text) (hd : D pid = some d)
      (hfull : d.last = Int32.maxValue) :
      Moves D pid (.open name) (.ok (.value failed)) [.open text (some handle), .close handle]
        [.turnedAway handle] D
  /-- There is no such file. -/
  | opensNothing {name : Scratch} {uses : List (DeviceUse η)}
      (huses : ∀ use ∈ uses, use.WorksOn none) :
      Moves D pid (.open name) (.ok (.value failed)) uses [] D
  | closes {fd : Int32} {handle : η} {d d' : Descriptors η} (hd : D pid = some d)
      (hr : d.remove? fd = some (handle, d')) :
      Moves D pid (.close fd) (.ok .nothing) [.close handle] [.dropped pid fd handle]
        (update D pid (some d'))
  | closesNothing {fd : Int32} (hnone : D.held pid fd = none) :
      Moves D pid (.close fd) (.ok .nothing) [] [] D
  /-- Every other request works on the handle under the descriptor, or on none. -/
  | works {request : Request} {reply : Except TrapError Reply} {uses : List (DeviceUse η)}
      (hopen : ∀ name, request ≠ .open name) (hclose : ∀ fd, request ≠ .close fd)
      (huses : ∀ use ∈ uses, use.WorksOn (request.target D pid)) :
      Moves D pid request reply uses [] D

def Reply.registers (registers : Registers) : Reply → Registers
  | value n => { registers with result := n.toUInt32 }
  | _ => registers

def Reply.uses : Reply → List (DeviceUse η)
  | halt => [.powerOff]
  | _ => []

theorem Reply.worksOn_of_mem_uses {reply : Reply} {use : DeviceUse η} (h : use ∈ reply.uses) :
    use.WorksOn none := by
  cases reply with
  | halt =>
    cases List.mem_singleton.mp h
    exact DeviceUse.worksOn_of_eq_none rfl rfl
  | _ => contradiction

namespace Kernel

open KernelM

inductive Operation.Moves (k : Kernel φ η χ ω) :
    (op : Operation) → op.Answer → List (DeviceUse η) → List (Move η) → OpenFiles η → Prop
  | spawn {name : String} {pid : Pid} (hnew : k.openFiles pid = none) :
      Moves k (.spawn name) pid [] [] (update k.openFiles pid (some .empty))
  | aside {op : Operation} {answer : op.Answer} (hspawn : ∀ name, op ≠ .spawn name)
      (hend : ∀ pid status, op ≠ .terminate pid status)
      (htrap : ∀ pid registers, op ≠ .trap pid registers) :
      Moves k op answer [] [] k.openFiles
  | terminateDead {pid : Pid} {status : Int32} (hp : k.processes.running? pid = none) :
      Moves k (.terminate pid status) (.exit status) [] [] k.openFiles
  | terminate {pid : Pid} {status : Int32} {uses : List (DeviceUse η)} {moves : List (Move η)}
      {D : OpenFiles η} (hp : (k.processes.running? pid).isSome = true)
      (hends : k.openFiles.Ends pid status uses moves D) :
      Moves k (.terminate pid status) (.exit status) uses moves D
  | trapDead {pid : Pid} {registers : Registers} (hp : k.processes.running? pid = none) :
      Moves k (.trap pid registers) (.exit killedStatus, registers) [] [] k.openFiles
  /-- What cannot be decoded ends the process. -/
  | trapUndecoded {pid : Pid} {registers : Registers} {error : TrapError}
      {uses : List (DeviceUse η)} {moves : List (Move η)} {D : OpenFiles η}
      (hp : (k.processes.running? pid).isSome = true)
      (hdecode : (decode pid registers.stackPointer).run.Leads k (.error error) k [])
      (hends : k.openFiles.Ends pid killedStatus uses moves D) :
      Moves k (.trap pid registers) (.exit killedStatus, registers) uses moves D
  /-- The process goes on, unless the machine is powered off. -/
  | trap {pid : Pid} {registers : Registers} {request : Request} {reply : Reply}
      {uses : List (DeviceUse η)} {moves : List (Move η)} {D : OpenFiles η}
      (hp : (k.processes.running? pid).isSome = true)
      (hdecode : (decode pid registers.stackPointer).run.Leads k (.ok request) k [])
      (hmoves : request.Moves k.openFiles pid (.ok reply) uses moves D)
      (hgoes : ∀ status, reply ≠ .exit status) :
      Moves k (.trap pid registers) (reply.verdict, reply.registers registers)
        (uses ++ reply.uses) moves D
  /-- The process ends after its request. -/
  | trapExit {pid : Pid} {registers : Registers} {request : Request}
      {reply : Except TrapError Reply} {status : Int32} {uses uses' : List (DeviceUse η)}
      {moves moves' : List (Move η)} {middle D : OpenFiles η}
      (hp : (k.processes.running? pid).isSome = true)
      (hdecode : (decode pid registers.stackPointer).run.Leads k (.ok request) k [])
      (hmoves : request.Moves k.openFiles pid reply uses moves middle)
      (hstatus : reply = .ok (.exit status) ∨
        (∃ error, reply = .error error) ∧ status = killedStatus)
      (hends : middle.Ends pid status uses' moves' D) :
      Moves k (.trap pid registers) (.exit status, registers) (uses ++ uses') (moves ++ moves') D

inductive History [FileSystem φ η] [Console χ] [Host ω] : Kernel φ η χ ω → List Operation →
    List (DeviceUse η) → List (Move η) → Kernel φ η χ ω → Prop
  | nil (k : Kernel φ η χ ω) : History k [] [] [] k
  | cons {k middle k' : Kernel φ η χ ω} {op : Operation} {ops : List Operation}
      {answer : op.Answer} {before : List (Event η)} {uses : List (DeviceUse η)}
      {moves moves' : List (Move η)} (hrun : op.perform.run k = .ok (answer, middle, before))
      (hmoves : op.Moves k answer (deviceUses before) moves middle.openFiles)
      (hrest : History middle ops uses moves' k') :
      History k (op :: ops) (deviceUses before ++ uses) (moves ++ moves') k'

end Kernel

/-! ## Uses and moves agree -/

section Agree

variable {D D' D'' : OpenFiles η} {pid : Pid} {status : Int32} {request : Request}
  {reply : Except TrapError Reply} {uses uses' : List (DeviceUse η)}
  {past moves moves' : List (Move η)}

structure Tells (past moves : List (Move η)) (uses : List (DeviceUse η)) (D D' : OpenFiles η) :
    Prop where
  passages_eq : uses.filterMap (·.passage?) = moves.flatMap (·.passages)
  accounts : Accounts past D → Accounts (past ++ moves) D'

namespace Tells

theorem nil (past : List (Move η)) (D : OpenFiles η) : Tells past [] [] D D :=
  ⟨rfl, fun ha => (List.append_nil past).symm ▸ ha⟩

theorem append (h : Tells past moves uses D D') (h' : Tells (past ++ moves) moves' uses' D' D'') :
    Tells past (moves ++ moves') (uses ++ uses') D D'' where
  passages_eq := by
    rw [List.filterMap_append, List.flatMap_append, h.passages_eq, h'.passages_eq]
  accounts ha := List.append_assoc .. ▸ h'.accounts (h.accounts ha)

/-- Nothing moves as long as no handle comes or goes. -/
theorem of_forall_worksOn {target : Option η} (huses : ∀ use ∈ uses, use.WorksOn target) :
    Tells past [] uses D D :=
  ⟨List.filterMap_eq_nil_iff.mpr fun use hmem => (huses use hmem).1, (nil past D).accounts⟩

end Tells

theorem OpenFiles.Ends.tells (h : D.Ends pid status uses moves D') :
    Tells past moves uses D D' := by
  cases h with
  | mk hd =>
    refine ⟨?_, fun ha => ha.drained hd⟩
    simpa [DeviceUse.passage?, Move.passages, Function.comp_def, List.flatMap_map] using
      List.map_eq_flatMap

theorem Request.Moves.tells (h : request.Moves D pid reply uses moves D') :
    Tells past moves uses D D' := by
  cases h with
  | opens _ hd hi => exact ⟨rfl, fun ha => ha.taken hd hi⟩
  | turnsAway => exact ⟨rfl, fun ha => ha.turnedAway _⟩
  | opensNothing huses => exact .of_forall_worksOn huses
  | closes hd hr => exact ⟨rfl, fun ha => ha.closed hd hr⟩
  | closesNothing => exact .nil past D
  | works _ _ huses => exact .of_forall_worksOn huses

theorem Kernel.Operation.Moves.tells {k : Kernel φ η χ ω} {op : Operation} {answer : op.Answer}
    (h : op.Moves k answer uses moves D) : Tells past moves uses k.openFiles D := by
  cases h with
  | spawn hnew => exact ⟨rfl, fun ha => (List.append_nil past).symm ▸ ha.entered hnew⟩
  | aside => exact .nil past _
  | terminateDead => exact .nil past _
  | terminate _ hends => exact hends.tells
  | trapDead => exact .nil past _
  | trapUndecoded _ _ hends => exact hends.tells
  | trap _ _ hmoves =>
    rw [← List.append_nil moves]
    exact hmoves.tells.append (.of_forall_worksOn fun _ => Reply.worksOn_of_mem_uses)
  | trapExit _ _ hmoves _ hends => exact hmoves.tells.append hends.tells

theorem Kernel.History.tells [FileSystem φ η] [Console χ] [Host ω] {k k' : Kernel φ η χ ω}
    {ops : List Operation} (h : History k ops uses moves k') :
    Tells past moves uses k.openFiles k'.openFiles := by
  induction h generalizing past with
  | nil k => exact .nil past _
  | cons _ hmoves _ ih => exact hmoves.tells.append ih

end Agree

/-! ## The kernel moves handles in this way -/

namespace Kernel

open KernelM TrapM

variable {k k' : Kernel φ η χ ω} {es : List (Nat × Loan)} {pid : Pid} {p : UserProcess η}
  {status : Int32} {uses : List (DeviceUse η)} {events : List (Event η)} {handle : η}

/-- At boot no file is open. -/
theorem accounts_boot (config : Config) (files : φ) (console : χ) (host : ω) :
    Accounts [] (boot config files console host : Kernel φ η χ ω × List (Event η)).1.openFiles := by
  have hnone : (boot config files console host : Kernel φ η χ ω × List (Event η)).1.openFiles =
      fun _ => none := by
    funext pid
    simp [boot, openFiles, Processes.openFiles]
  rw [hnone]
  exact .empty

variable [FileSystem φ η]

/-- To end a running process. -/
theorem exists_ends [Host ω] (h : Coherent k es) (hp : (k.processes.running? pid).isSome = true)
    (status : Int32) :
    ∃ k' uses moves, (terminate pid status).Leads k (.exit status) k' uses ∧
      k.openFiles.Ends pid status uses moves k'.openFiles := by
  obtain ⟨k', uses, hleads, hends⟩ := leads_terminate h pid status
  cases hends with
  | dead hnone =>
    rw [hnone] at hp
    contradiction
  | @ended p _ hrunning _ =>
    have hget := get?_of_running? hrunning
    refine ⟨_, _, p.files.files.map fun file => .dropped pid file.1 file.2, hleads, ?_⟩
    rw [openFiles, openFiles, Processes.openFiles_modify hget]
    exact .mk (Processes.openFiles_of_get? hget)

/-- A handle that was opened goes under the next descriptor. -/
theorem leads_installFile {fd : Int32} {files : Descriptors η}
    (hp : k.processes.get? pid = some p) (hi : p.files.install? handle = some (fd, files)) :
    (installFile pid (some handle)).run.Leads k (.ok fd)
      { k with processes := k.processes.modify pid ({ · with files }) } [] := by
  apply TrapM.leads_get_bind
  simp only [hp, hi]
  apply TrapM.leads_get_bind
  exact leads_bind (leads_lift (leads_modify _)) (leads_pure _)

/-- If no descriptor is left it is dropped at once. -/
theorem leads_installFile_of_full (hp : k.processes.get? pid = some p)
    (hi : p.files.install? handle = none) :
    (installFile pid (some handle)).run.Leads k (.ok failed)
      { k with files := FileSystem.close k.files handle } [.close handle] := by
  apply TrapM.leads_get_bind
  simp only [hp, hi]
  exact leads_bind (leads_lift (leads_notice _))
    (leads_bind (leads_lift (leads_close k handle)) (leads_pure _))

theorem exists_leads_openText (k : Kernel φ η χ ω) {name : Scratch} {text : String}
    (htext : name.text? = some text) : ∃ handle files,
      (openText name).Leads k handle { k with files } [.open text handle] := by
  simp only [openText, htext]
  exact ⟨_, _, _, rfl, rfl⟩

/-- To open a file for a process that is known. -/
theorem moves_openFile (hp : k.processes.get? pid = some p) (name : Scratch) :
    ∃ fd k' uses moves, (openFile pid name).run.Leads k (.ok fd) k' uses ∧
      Request.Moves k.openFiles pid (.open name) (.ok (.value fd)) uses moves k'.openFiles := by
  rw [openFile_eq]
  have hd := Processes.openFiles_of_get? hp
  cases htext : name.text? with
  | none =>
    have hopen : (openText name : KernelM φ η χ ω (Option η)).Leads k none k [] := by
      simp only [openText, htext]
      exact leads_pure _
    exact ⟨failed, k, _, [], leads_bind (leads_lift hopen) (leads_pure _), .opensNothing nofun⟩
  | some text =>
    obtain ⟨opened, files, hopen⟩ := exists_leads_openText k htext
    cases opened with
    | none =>
      refine ⟨failed, _, _, [], leads_bind (leads_lift hopen) (leads_pure _), .opensNothing ?_⟩
      intro use hmem
      cases List.mem_singleton.mp hmem
      exact DeviceUse.worksOn_of_eq_none rfl rfl
    | some handle =>
      cases hi : p.files.install? handle with
      | some found =>
        have hinstall := leads_installFile (k := { k with files }) hp hi
        refine ⟨found.1, _, _, [.taken pid found.1 handle],
          leads_bind (leads_lift hopen) hinstall, ?_⟩
        rw [openFiles, openFiles, Processes.openFiles_modify hp]
        exact .opens htext hd hi
      | none =>
        have hinstall := leads_installFile_of_full (k := { k with files }) hp hi
        exact ⟨failed, _, _, _, leads_bind (leads_lift hopen) hinstall,
          .turnsAway htext hd (Descriptors.last_of_install?_eq_none hi)⟩

/-- To close a file of a process that is known. -/
theorem moves_closeFile (hp : k.processes.get? pid = some p) (fd : Int32) :
    ∃ k' uses moves, (closeFile pid fd).Leads k () k' uses ∧
      Request.Moves k.openFiles pid (.close fd) (.ok .nothing) uses moves k'.openFiles := by
  have hd := Processes.openFiles_of_get? hp
  have hfound : (k.processes.get? pid).bind (·.files.remove? fd) = p.files.remove? fd := by
    rw [hp, Option.bind_some]
  cases hr : p.files.remove? fd with
  | none =>
    have hnone := (OpenFiles.held_of_eq_some hd fd).trans (Descriptors.remove?_eq_none_iff.mp hr)
    exact ⟨k, _, _, leads_closeFile_of_none (hfound.trans hr), .closesNothing hnone⟩
  | some found =>
    refine ⟨_, _, [.dropped pid fd found.1], leads_closeFile (hfound.trans hr), ?_⟩
    rw [openFiles, openFiles, Processes.openFiles_modify hp]
    exact .closes hd hr

variable [Console χ] [Host ω]

/-- To carry a request out. -/
theorem moves_of_dispatch (hp : k.processes.get? pid = some p) {request : Request}
    {reply : Except TrapError Reply}
    (hrun : (dispatch pid request).run.run k = .ok (reply, k', events)) :
    ∃ moves, request.Moves k.openFiles pid reply (deviceUses events) moves k'.openFiles := by
  by_cases hopen : ∃ name, request = .open name
  · obtain ⟨name, rfl⟩ := hopen
    obtain ⟨fd, k₁, uses, moves, hleads, hmoves⟩ := moves_openFile hp name
    have hdispatch : (dispatch pid (.open name)).run.Leads k (.ok (.value fd)) k₁ (uses ++ []) :=
      leads_bind hleads (leads_pure _)
    obtain ⟨rfl, rfl, huses⟩ := Leads.unique ⟨events, hrun, rfl⟩ hdispatch
    rw [huses, List.append_nil]
    exact ⟨moves, hmoves⟩
  by_cases hclose : ∃ fd, request = .close fd
  · obtain ⟨fd, rfl⟩ := hclose
    obtain ⟨k₁, uses, moves, hleads, hmoves⟩ := moves_closeFile hp fd
    have hdispatch : (dispatch pid (.close fd)).run.Leads k (.ok .nothing) k₁ (uses ++ []) :=
      leads_bind (leads_lift hleads) (leads_pure _)
    obtain ⟨rfl, rfl, huses⟩ := Leads.unique ⟨events, hrun, rfl⟩ hdispatch
    rw [huses, List.append_nil]
    exact ⟨moves, hmoves⟩
  · have hopen' : ∀ name, request ≠ .open name := fun name heq => hopen ⟨name, heq⟩
    have hclose' : ∀ fd, request ≠ .close fd := fun fd heq => hclose ⟨fd, heq⟩
    obtain ⟨hk', huses⟩ := works_dispatch pid hopen' hclose' rfl hrun
    rw [hk']
    exact ⟨[], .works hopen' hclose' huses⟩

/-- To carry a request out and settle what becomes of the process. -/
theorem moves_of_serve (h : Coherent k es) (hrunning : k.processes.running? pid = some p)
    {registers : Registers} {request : Request}
    (hdecode : (decode pid registers.stackPointer).run.Leads k (.ok request) k [])
    {answer : Verdict × Registers}
    (hrun : (serve pid registers request).run k = .ok (answer, k', events)) :
    ∃ moves,
      Operation.Moves k (.trap pid registers) answer (deviceUses events) moves k'.openFiles := by
  have hp : (k.processes.running? pid).isSome = true := by rw [hrunning]; rfl
  obtain ⟨reply, middle, before, after, hdispatch, hrun, rfl⟩ := run_bind_eq_ok.mp hrun
  obtain ⟨moves, hmoves⟩ := moves_of_dispatch (get?_of_running? hrunning) hdispatch
  -- the process still runs, so it can be ended
  have hsteady : Steady k middle := (within_dispatch pid request hdispatch).1
  have hmiddle : (middle.processes.running? pid).isSome = true := by
    rw [hsteady.1.running?_isSome_eq, hp]
  rw [deviceUses_append]
  cases reply with
  | error error =>
    obtain ⟨_, _, moves', hterm, hends⟩ := exists_ends (hsteady.coherent h) hmiddle killedStatus
    obtain ⟨rfl, rfl, huses⟩ := Leads.unique ⟨after, hrun, rfl⟩
      ((leads_kill hterm).bind (leads_pure _))
    rw [huses, List.append_nil]
    exact ⟨_, .trapExit hp hdecode hmoves (.inr ⟨⟨error, rfl⟩, rfl⟩) hends⟩
  | ok reply =>
    cases reply with
    | exit status =>
      obtain ⟨_, _, moves', hterm, hends⟩ := exists_ends (hsteady.coherent h) hmiddle status
      obtain ⟨rfl, rfl, huses⟩ := Leads.unique ⟨after, hrun, rfl⟩ (hterm.bind (leads_pure _))
      rw [huses, List.append_nil]
      exact ⟨_, .trapExit hp hdecode hmoves (.inl rfl) hends⟩
    | value | nothing | halt =>
      cases hrun
      exact ⟨moves, .trap hp hdecode hmoves nofun⟩

/-- What an operation is known to lead to is what it does. -/
theorem moves_of_leads {op : Operation} {answer answer' : op.Answer} {k₁ : Kernel φ η χ ω}
    {moves : List (Move η)} (hrun : op.perform.run k = .ok (answer, k', events))
    (hleads : op.perform.Leads k answer' k₁ uses)
    (hmoves : op.Moves k answer' uses moves k₁.openFiles) :
    ∃ moves, op.Moves k answer (deviceUses events) moves k'.openFiles := by
  obtain ⟨rfl, rfl, huses⟩ := Leads.unique ⟨events, hrun, rfl⟩ hleads
  rw [huses]
  exact ⟨moves, hmoves⟩

theorem moves_of_trap (h : Coherent k es) {registers : Registers} {answer : Verdict × Registers}
    (hrun : (trap pid registers).run k = .ok (answer, k', events)) :
    ∃ moves,
      Operation.Moves k (.trap pid registers) answer (deviceUses events) moves k'.openFiles := by
  rcases decode_cases h pid registers.stackPointer with
    ⟨error, hdecode, _⟩ | ⟨p, request, hrunning, hdecode, _⟩
  · cases hp : k.processes.running? pid with
    | none =>
      have hleads :=
        leads_trap_of_not_running h (k.processes.running?_eq_none_iff.mp hp) registers
      exact moves_of_leads hrun hleads (.trapDead hp)
    | some p =>
      have hsome : (k.processes.running? pid).isSome = true := by rw [hp]; rfl
      obtain ⟨_, _, moves, hterm, hends⟩ := exists_ends h hsome killedStatus
      exact moves_of_leads hrun (leads_trap_of_error hdecode hterm)
        (.trapUndecoded hsome hdecode hends)
  · obtain ⟨_, _, before, _, hdecode', h₁, rfl⟩ := run_bind_eq_ok.mp hrun
    obtain ⟨rfl, rfl, hbefore⟩ := Leads.unique ⟨before, hdecode', rfl⟩ hdecode
    obtain ⟨_, _, _, _, hnotice, h₂, rfl⟩ := run_bind_eq_ok.mp h₁
    cases hnotice
    simp only [deviceUses_append, hbefore, deviceUses_cons_notice, deviceUses_nil, List.nil_append]
    exact moves_of_serve h hrunning hdecode h₂

/-- One operation. -/
theorem Coherent.moves (h : Coherent k es) {op : Operation} {answer : op.Answer}
    (hrun : op.perform.run k = .ok (answer, k', events)) :
    ∃ moves, op.Moves k answer (deviceUses events) moves k'.openFiles := by
  have haside : (∀ name, op ≠ .spawn name) → (∀ pid status, op ≠ .terminate pid status) →
      (∀ pid registers, op ≠ .trap pid registers) → LeavesFiles k k' events →
      ∃ moves, op.Moves k answer (deviceUses events) moves k'.openFiles := by
    rintro hspawn hend htrap ⟨hk', huses⟩
    rw [hk', huses]
    exact ⟨[], .aside hspawn hend htrap⟩
  cases op with
  | spawn name =>
    obtain ⟨hnew, hk', huses⟩ := openFiles_of_run_spawn h hrun
    rw [hk', huses]
    exact ⟨[], .spawn hnew⟩
  | mapPage pid va writable => exact haside nofun nofun nofun (leavesFiles_mapPage h hrun)
  | unmapPage pid va =>
    exact haside nofun nofun nofun (leavesFiles_of_works (works_unmapPage pid va) hrun)
  | copyTo pid va bytes =>
    exact haside nofun nofun nofun (leavesFiles_of_works (works_copyTo pid va bytes) hrun)
  | copyFrom pid va dst =>
    exact haside nofun nofun nofun (leavesFiles_of_works (works_copyFrom pid va dst) hrun)
  | touch pid va write =>
    exact haside nofun nofun nofun (leavesFiles_of_works (works_touch pid va write) hrun)
  | tick ticks =>
    exact haside nofun nofun nofun (leavesFiles_of_works (works_tick ticks) hrun)
  | terminate pid status =>
    cases hp : k.processes.running? pid with
    | none =>
      have hleads :=
        leads_terminate_of_not_running (k.processes.running?_eq_none_iff.mp hp) status
      exact moves_of_leads hrun hleads (.terminateDead hp)
    | some p =>
      have hsome : (k.processes.running? pid).isSome = true := by rw [hp]; rfl
      obtain ⟨_, _, moves, hterm, hends⟩ := exists_ends h hsome status
      exact moves_of_leads hrun hterm (.terminate hsome hends)
  | trap pid registers => exact moves_of_trap h hrun

/-- Any number of operations. -/
theorem Orderly.history (ho : Orderly k) {ops : List Operation}
    (hrun : (performAll ops).run k = .ok ((), k', events)) :
    ∃ moves, History k ops (deviceUses events) moves k' ∧ Orderly k' := by
  induction ops generalizing k events with
  | nil =>
    cases hrun
    exact ⟨[], .nil _, ho⟩
  | cons op ops ih =>
    obtain ⟨_, middle, before, after, hop, hops, rfl⟩ := run_bind_eq_ok.mp hrun
    obtain ⟨es, h, hs⟩ := ho
    obtain ⟨es', h', hs', _⟩ := h.allows hs hop
    obtain ⟨moves, hmoves⟩ := h.moves hop
    obtain ⟨moves', hhistory, ho'⟩ := ih ⟨es', h', hs'⟩ hops
    rw [deviceUses_append]
    exact ⟨moves ++ moves', .cons hop hmoves hhistory, ho'⟩

/-- Whatever was performed since boot, the handles that came from the file system and went back to
it are those that moved, in this order. Each was put under one descriptor of the process that opened
it, where nothing else ever is: the process has it there until it is dropped, which happens once. A
handle is dropped when its process closes that descriptor, or else when the process ends, before the
host is told of it; if no descriptor was left it is dropped at once. No other operation makes a
handle move, and a request on a file works on the handle that the process has under the descriptor,
or on none. Whatever is performed then goes on in the same way: what is held stays or is dropped. -/
theorem handles_are_conserved (config : Config) (files : φ) (console : χ) (host : ω)
    (hfits : poolBase + config.frames * pageSize ≤ addressBound) {ops : List Operation}
    (hr : (performAll ops).run (boot config files console host).1 = .ok ((), k, events)) :
    ∃ moves, History (boot config files console host).1 ops (deviceUses events) moves k ∧
      (deviceUses events).filterMap (·.passage?) = moves.flatMap (·.passages) ∧
      (∀ pid fd, Custody (k.openFiles.held pid fd) (passedAt pid fd moves)) ∧
      ∀ (ops' : List Operation) (k' : Kernel φ η χ ω) (events' : List (Event η)),
        (performAll ops').run k = .ok ((), k', events') →
          ∃ moves', History k ops' (deviceUses events') moves' k' ∧
            (deviceUses events').filterMap (·.passage?) = moves'.flatMap (·.passages) ∧
            ∀ pid fd, Custody (k'.openFiles.held pid fd)
              (passedAt pid fd moves ++ passedAt pid fd moves') := by
  obtain ⟨moves, hhistory, ho⟩ := (orderly_boot config files console host hfits).history hr
  have htells : Tells [] moves _ _ _ := hhistory.tells
  have haccounts : Accounts moves k.openFiles :=
    htells.accounts (accounts_boot config files console host)
  refine ⟨moves, hhistory, htells.passages_eq, haccounts.custody, fun ops' k' events' hr' => ?_⟩
  obtain ⟨moves', hhistory', _⟩ := ho.history hr'
  have htells' : Tells moves moves' _ _ _ := hhistory'.tells
  refine ⟨moves', hhistory', htells'.passages_eq, fun pid fd => ?_⟩
  rw [← passedAt_append]
  exact (htells'.accounts haccounts).custody pid fd

/-- A process opens a file twice, closes it once and ends. -/
theorem handles_are_conserved_of_two_openings :
    poolBase + 1 * pageSize ≤ addressBound ∧
      ∃ (k k' : Kernel MemoryFileSystem FileHandle BufferConsole ScriptedHost)
        (events events' : List (Event FileHandle)) (moves moves' : List (Move FileHandle)),
        (performAll [.spawn "reader", .mapPage ⟨1⟩ (.ofNat 0x1000) true,
          .copyTo ⟨1⟩ (.ofNat 0x1000) (Call.open.stackImage [0x1008] ++ [97, 0]),
          .trap ⟨1⟩ ⟨.ofNat 0x1000, 0⟩, .trap ⟨1⟩ ⟨.ofNat 0x1000, 0⟩,
          .copyTo ⟨1⟩ (.ofNat 0x1000) (Call.close.stackImage [2]),
          .trap ⟨1⟩ ⟨.ofNat 0x1000, 0⟩]).run
            (boot ⟨1, .clock⟩ (({} : MemoryFileSystem).put "a" (.bytes #[7])) {} {}).1 =
              .ok ((), k, events) ∧
        (performAll [.terminate ⟨1⟩ 0]).run k = .ok ((), k', events') ∧
        History k [.terminate ⟨1⟩ 0] (deviceUses events') moves' k' ∧
        k.openFiles.held ⟨1⟩ 2 = none ∧ k.openFiles.held ⟨1⟩ 3 = some ⟨1, "a"⟩ ∧
        passedAt ⟨1⟩ 3 moves = [.opened ⟨1, "a"⟩] ∧
        passedAt ⟨1⟩ 3 moves' = [.dropped ⟨1, "a"⟩] := by
  have hfits : poolBase + 1 * pageSize ≤ addressBound := by decide
  -- what is open before the end and after it, computed at once
  have hanswers : ((do
      performAll [.spawn "reader", .mapPage ⟨1⟩ (.ofNat 0x1000) true,
        .copyTo ⟨1⟩ (.ofNat 0x1000) (Call.open.stackImage [0x1008] ++ [97, 0]),
        .trap ⟨1⟩ ⟨.ofNat 0x1000, 0⟩, .trap ⟨1⟩ ⟨.ofNat 0x1000, 0⟩,
        .copyTo ⟨1⟩ (.ofNat 0x1000) (Call.close.stackImage [2]), .trap ⟨1⟩ ⟨.ofNat 0x1000, 0⟩]
      let k ← get
      performAll [.terminate ⟨1⟩ 0]
      let k' ← get
      return (k.openFiles.held ⟨1⟩ 2, k.openFiles.held ⟨1⟩ 3, k'.openFiles.held ⟨1⟩ 3) :
        KernelM MemoryFileSystem FileHandle BufferConsole ScriptedHost _).run
      (boot ⟨1, .clock⟩ (({} : MemoryFileSystem).put "a" (.bytes #[7])) {} {}).1).map Prod.fst =
        .ok (none, some ⟨1, "a"⟩, none) := by
    decide +kernel
  obtain ⟨_, _, hrun⟩ := exists_run_eq hanswers
  obtain ⟨_, k, events, _, hr, hrun, _⟩ := run_bind_eq_ok.mp hrun
  rw [KernelM.run_get_bind] at hrun
  obtain ⟨_, k', events', _, hr', hrun, _⟩ := run_bind_eq_ok.mp hrun
  rw [KernelM.run_get_bind] at hrun
  simp only [run_pure, Except.ok.injEq, Prod.mk.injEq] at hrun
  obtain ⟨⟨htwo, hthree, hended⟩, _⟩ := hrun
  obtain ⟨moves, _, _, hcustody, hlater⟩ := handles_are_conserved ⟨1, .clock⟩ _ _ _ hfits hr
  obtain ⟨moves', hhistory, _, hcustody'⟩ := hlater _ k' events' hr'
  have hopened := (hthree ▸ hcustody ⟨1⟩ 3).eq_opened
  have hdropped := (hopened ▸ hended ▸ hcustody' ⟨1⟩ 3).eq_dropped
  exact ⟨hfits, k, k', events, events', moves, moves', hr, hr', hhistory, htwo, hthree, hopened,
    hdropped⟩

end Kernel

end TeachingKernel
