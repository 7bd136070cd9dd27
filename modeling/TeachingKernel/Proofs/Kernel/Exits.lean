import TeachingKernel.Proofs.Kernel.Serving

/-!
# Exits

A process exits once. Every operation either spares the processes, so that each keeps its exit
status and whoever has exited is left as it is, or it ends one running process: then nothing is left
to that process, and the host is told of its exit, and of no other.

So whatever is performed, the host is told once of every process that has exited, with the status
that it has, and what was asked of an exited process comes to nothing.
-/

namespace TeachingKernel

/-! ## Processes that are over -/

namespace PageTable

@[simp] theorem modify_empty (va : VirtAddr) (f : PageEntry → PageEntry) :
    empty.modify va f = empty := by
  apply PageTable.ext
  apply Std.ExtTreeMap.ext_getElem?
  intro page
  simp [modify, empty, Std.ExtTreeMap.getElem?_modify]

@[simp] theorem touch_empty (va : VirtAddr) (write : Bool) : empty.touch va write = empty :=
  modify_empty va _

@[simp] theorem clearAccessed_empty (va : VirtAddr) : empty.clearAccessed va = empty :=
  modify_empty va _

theorem ne_empty_of_unmap {t u : PageTable} {va : VirtAddr} {frame : PhysAddr}
    (h : t.unmap va = .ok (frame, u)) : t ≠ empty := by
  rintro rfl
  obtain ⟨writable, hm⟩ := of_unmap_eq_ok h
  rw [mapping?_empty] at hm
  contradiction

end PageTable

namespace UserProcess

variable {η : Type} {p : UserProcess η}

structure IsOver (p : UserProcess η) : Prop where
  state_ne : p.state ≠ .running
  pageTable_eq : p.pageTable = .empty
  files_eq : p.files.files = []

theorem isOver_exit (p : UserProcess η) (status : Int32) : (p.exit status).IsOver where
  state_ne := nofun
  pageTable_eq := rfl
  files_eq := rfl

theorem IsOver.setTable_eq (h : p.IsOver) {table : PageTable} (ht : table = .empty) :
    { p with pageTable := table } = p := by
  rw [ht, ← h.pageTable_eq]

end UserProcess

namespace Processes

variable {η : Type} {ps ps' ps'' : Processes η} {pid q : Pid} {status : Int32}

def exitStatus? (ps : Processes η) (pid : Pid) : Option Int32 :=
  (ps.get? pid).bind (·.exitStatus?)

theorem exitStatus?_eq_some_iff :
    ps.exitStatus? pid = some status ↔ ps.state? pid = some (.exited status) := by
  rw [exitStatus?, state?]
  cases ps.get? pid with
  | none => simp
  | some p => cases hp : p.state <;> simp [UserProcess.exitStatus?, hp]

theorem exitStatus?_of_running (h : ps.state? pid = some .running) : ps.exitStatus? pid = none := by
  cases hs : ps.exitStatus? pid with
  | none => rfl
  | some status =>
    rw [exitStatus?_eq_some_iff.mp hs] at h
    cases h

structure Spares (ps ps' : Processes η) : Prop where
  exitStatus_eq : ∀ q, ps'.exitStatus? q = ps.exitStatus? q
  get_eq : ∀ q p, ps.get? q = some p → p.IsOver → ps'.get? q = some p

theorem Spares.refl (ps : Processes η) : ps.Spares ps := ⟨fun _ => rfl, fun _ _ h _ => h⟩

theorem Spares.trans (h : ps.Spares ps') (h' : ps'.Spares ps'') : ps.Spares ps'' where
  exitStatus_eq q := (h'.exitStatus_eq q).trans (h.exitStatus_eq q)
  get_eq q p hp ho := h'.get_eq q p (h.get_eq q p hp ho) ho

theorem spares_modify (pid : Pid) {f : UserProcess η → UserProcess η}
    (hs : ∀ p, (f p).state = p.state)
    (ho : ∀ p, ps.get? pid = some p → p.IsOver → f p = p) : ps.Spares (ps.modify pid f) where
  exitStatus_eq q := by
    rw [exitStatus?, exitStatus?, get?_modify]
    split
    · rw [Option.bind_map]
      congr 1
      funext p
      rw [Function.comp_apply, UserProcess.exitStatus?, hs p]
      rfl
    · rfl
  get_eq q p hp hover := by
    rw [get?_modify]
    split
    · rename_i hq
      rw [hp, Option.map_some, ho p (hq ▸ hp) hover]
    · exact hp

theorem spares_clearAccessed (ps : Processes η) (h : Holder) :
    ps.Spares (UseBits.clearAccessed ps h) :=
  spares_modify h.pid (fun _ => rfl) fun p _ ho => ho.setTable_eq (by simp [ho.pageTable_eq])

theorem spares_touch (ps : Processes η) (pid : Pid) (va : VirtAddr) (write : Bool) :
    ps.Spares (ps.modify pid fun p => { p with pageTable := p.pageTable.touch va write }) :=
  spares_modify pid (fun _ => rfl) fun p _ ho => ho.setTable_eq (by simp [ho.pageTable_eq])

/-- A new process has not exited. -/
theorem spares_spawn {name : String} (h : ps.spawn name = .ok (pid, ps'))
    (hn : ps.get? pid = none) : ps.Spares ps' where
  exitStatus_eq q := by
    rw [exitStatus?, exitStatus?, (of_spawn_eq_ok h).2.2]
    split
    · rename_i hq
      rw [hq, hn]
      rfl
    · rfl
  get_eq q p hp _ := by
    rw [(of_spawn_eq_ok h).2.2, if_neg, hp]
    rintro rfl
    rw [hn] at hp
    contradiction

theorem exitStatus?_exit :
    (ps.modify pid (·.exit status)).exitStatus? q =
      if q = pid then (ps.get? q).map fun _ => status else ps.exitStatus? q := by
  rw [exitStatus?, get?_modify]
  split
  · cases ps.get? q <;> rfl
  · rfl

end Processes

namespace Kernel

open KernelM FrameLedger

variable {φ η χ ω : Type} {k k' middle : Kernel φ η χ ω} {es : List (Nat × Loan)} {pid : Pid}
  {status : Int32} {events before after : List (Event η)}

theorem exitStatus?_eq (k : Kernel φ η χ ω) (pid : Pid) :
    k.exitStatus? pid = k.processes.exitStatus? pid := rfl

/-! ## Steps that spare the processes -/

/-- Everybody has the exit status that it had, and whoever is over is left as it is. -/
def Spares (k k' : Kernel φ η χ ω) : Prop := k.processes.Spares k'.processes

instance : Indifferent (Spares : Kernel φ η χ ω → Kernel φ η χ ω → Prop) where
  refl _ := .refl _
  trans _ _ _ := .trans
  setDevices _ _ _ _ := .refl _

instance (pid : Pid) : AllowsStores (Spares : Kernel φ η χ ω → Kernel φ η χ ω → Prop) pid where
  setPool _ _ _ _ _ _ _ _ := .refl _

/-- If a process runs it goes on, and the processes are spared. -/
def Sparing (pid : Pid) (k k' : Kernel φ η χ ω) : Prop :=
  k.processes.state? pid = some .running →
    k'.processes.state? pid = some .running ∧ Spares k k'

/-- A change of a running process that does not end it. -/
theorem sparing_modify {f : UserProcess η → UserProcess η} (hs : ∀ p, (f p).state = p.state) :
    Sparing pid k { k with processes := k.processes.modify pid f } := by
  intro hp
  constructor
  · rw [Processes.state?, Processes.get?_modify, if_pos rfl, Option.map_map, ← hp]
    congr 1
    funext p
    exact hs p
  · refine Processes.spares_modify pid hs fun p hget ho => absurd ?_ ho.state_ne
    rw [Processes.state?, hget] at hp
    exact Option.some.inj hp

theorem sparing_of_processes_eq (h : k'.processes = k.processes) : Sparing pid k k' := by
  intro hp
  rw [Spares, h]
  exact ⟨hp, .refl _⟩

instance (pid : Pid) : Indifferent (Sparing pid : Kernel φ η χ ω → Kernel φ η χ ω → Prop) where
  refl _ := sparing_of_processes_eq rfl
  trans _ _ _ h h' hp :=
    ⟨(h' (h hp).1).1, (h hp).2.trans (h' (h hp).1).2⟩
  setDevices _ _ _ _ := sparing_of_processes_eq rfl

instance (pid : Pid) : Allows (Sparing pid : Kernel φ η χ ω → Kernel φ η χ ω → Prop) pid where
  setPool _ _ _ _ _ _ _ _ := sparing_of_processes_eq rfl
  setDescriptors _ _ := sparing_modify fun _ => rfl

theorem within_spawn (h : Coherent k es) (name : String) : Within Spares k (spawn name) := by
  apply within_get_bind
  apply within_ofChecked_bind
  rintro ⟨pid, processes⟩ hs
  exact within_bind (within_modify (Processes.spares_spawn hs (h.get?_next hs))) fun _ _ =>
    within_bind (within_notice _) fun _ _ => within_pure _

theorem within_lendFrame (h : Coherent k es) (pid : Pid) (holder : Holder) :
    Within (Sparing pid) k (lendFrame holder) := by
  intro answer k' events hrun
  rcases h.keeps.lend holder k.processes with ⟨hl, _⟩ | ⟨_, _, _, _, _, hl, _⟩ |
    ⟨_, _, _, _, _, _, hpick, hl⟩
  all_goals
    cases (run_lendFrame hl).symm.trans hrun
    refine ⟨?_, tellsNoExit_of_deviceUses (deviceUses_notices _)⟩
  · exact sparing_of_processes_eq rfl
  · exact sparing_of_processes_eq rfl
  · -- to choose a victim clears marks
    intro hp
    refine hpick.marks (fun ps => ps.state? pid = some .running ∧ k.processes.Spares ps) ?_
      ⟨hp, .refl _⟩
    intro ps holder hps
    exact ⟨((Processes.sameLayout_clearAccessed ps holder).state_eq pid).trans hps.1,
      hps.2.trans (Processes.spares_clearAccessed ps holder)⟩

theorem within_releaseMapping {R : Kernel φ η χ ω → Kernel φ η χ ω → Prop} [Indifferent R]
    (hR : ∀ k frames, R k { k with frames }) (holder : Holder) (frame : PhysAddr) :
    Within R k (releaseMapping holder frame) := by
  apply within_get_bind
  apply within_ofChecked_bind
  intro answer _
  refine within_bind (within_modify (hR k _)) fun _ _ => within_bind ?_ fun _ _ => within_pure _
  rintro _ _ _ ⟨⟩
  exact ⟨refl_of R _, tellsNoExit_of_deviceUses (deviceUses_notices _)⟩

theorem within_backPage (va : VirtAddr) (writable : Bool) (lent : Except FrameError PhysAddr) :
    Within (Sparing pid) k (backPage pid va writable lent) := by
  cases lent with
  | error error => exact within_pure _
  | ok frame =>
    apply within_get_bind
    cases k.processes.get? pid with
    | none => exact within_pure _
    | some p =>
      cases hm : p.pageTable.map va frame writable with
      | ok table =>
        simp only [hm]
        exact within_bind (within_modify (sparing_modify fun _ => rfl)) fun _ _ => within_pure _
      | error error =>
        simp only [hm]
        exact within_bind (within_releaseMapping (fun _ _ => sparing_of_processes_eq rfl) _ _)
          fun _ _ => within_pure _

theorem within_mapPage (h : Coherent k es) (pid : Pid) (va : VirtAddr) (writable : Bool) :
    Within Spares k (mapPage pid va writable) := by
  intro answer k' events hrun
  by_cases hp : k.processes.state? pid = some .running
  · rw [run_mapPage_of_running hp] at hrun
    obtain ⟨hspares, htells⟩ := within_bind (within_lendFrame h pid ⟨pid, va⟩)
      (fun _ _ => within_backPage va writable _) hrun
    exact ⟨(hspares hp).2, htells⟩
  · cases (run_mapPage_of_not_running hp).symm.trans hrun
    exact ⟨.refl _, tellsNoExit_nil⟩

theorem within_unmapPage (pid : Pid) (va : VirtAddr) :
    Within Spares k (unmapPage pid va) := by
  apply within_get_bind
  cases hp : k.processes.get? pid with
  | none => exact within_pure _
  | some p =>
    cases hm : p.pageTable.unmap va with
    | error error =>
      simp only [hm]
      exact within_pure _
    | ok found =>
      obtain ⟨frame, table⟩ := found
      simp only [hm]
      have hspares :
          k.processes.Spares (k.processes.modify pid ({ · with pageTable := table })) := by
        refine Processes.spares_modify pid (fun _ => rfl) fun p' hp' ho => ?_
        cases hp.symm.trans hp'
        exact absurd ho.pageTable_eq (PageTable.ne_empty_of_unmap hm)
      exact within_bind (within_modify hspares) fun _ _ =>
        within_bind (within_releaseMapping (fun _ _ => .refl _) _ _) fun _ _ => within_pure _

theorem within_touch (pid : Pid) (va : VirtAddr) (write : Bool) :
    Within Spares k (touch pid va write) :=
  within_modify (Processes.spares_touch k.processes pid va write)

theorem within_tick (ticks : Nat) : Within Spares k (tick ticks) := within_modify (.refl _)

/-! ## The step that ends a process -/

/-- A running process ends with a status: nothing is left to it, the others are spared, and its exit
is the only one that the host is told of. -/
structure Exits (k : Kernel φ η χ ω) (pid : Pid) (status : Int32) (k' : Kernel φ η χ ω)
    (events : List (Event η)) : Prop where
  running : k.processes.state? pid = some .running
  exitStatus_eq : ∀ q, k'.processes.exitStatus? q =
    if q = pid then some status else k.processes.exitStatus? q
  get_eq : ∀ q p, k.processes.get? q = some p → p.IsOver → k'.processes.get? q = some p
  isOver : ∃ p, k'.processes.get? pid = some p ∧ p.IsOver
  told : ∀ q, exitsTold q events = if q = pid then [status] else []

/-- What was done before did no harm to anyone. -/
theorem Exits.after_sparing (h : Exits middle pid status k' after) (hs : Sparing pid k middle)
    (hp : k.processes.state? pid = some .running) (htells : TellsNoExit before) :
    Exits k pid status k' (before ++ after) where
  running := hp
  exitStatus_eq q := by
    rw [h.exitStatus_eq, (hs hp).2.exitStatus_eq]
  get_eq q p hget ho := h.get_eq q p ((hs hp).2.get_eq q p hget ho) ho
  isOver := h.isOver
  told q := by
    rw [exitsTold_append, htells q, h.told]
    rfl

/-! ## Exits and time -/

/-- Whoever has exited is over. -/
def Tidy (k : Kernel φ η χ ω) : Prop :=
  ∀ pid status, k.processes.exitStatus? pid = some status →
    ∃ p, k.processes.get? pid = some p ∧ p.IsOver

-- What may become of the exit status of a process, with the statuses that the host is told of
-- meanwhile.
inductive Fate : Option Int32 → Option Int32 → List Int32 → Prop
  | stays (status : Option Int32) : Fate status status []
  | exits (status : Int32) : Fate none (some status) [status]

theorem Fate.trans {s s' s'' : Option Int32} {told told' : List Int32} (h : Fate s s' told)
    (h' : Fate s' s'' told') : Fate s s'' (told ++ told') := by
  cases h with
  | stays => exact h'
  | exits status =>
    cases h' with
    | stays => exact .exits status

theorem Fate.told_eq {s : Option Int32} {told : List Int32} (h : Fate none s told) :
    told = s.toList := by
  cases h with
  | stays => rfl
  | exits => rfl

theorem Exits.fate (h : Exits k pid status k' events) (q : Pid) :
    Fate (k.processes.exitStatus? q) (k'.processes.exitStatus? q) (exitsTold q events) := by
  rw [h.exitStatus_eq, h.told]
  by_cases hq : q = pid
  · rw [hq, Processes.exitStatus?_of_running h.running, if_pos rfl, if_pos rfl]
    exact .exits status
  · rw [if_neg hq, if_neg hq]
    exact .stays _

structure Ages (k k' : Kernel φ η χ ω) (events : List (Event η)) : Prop where
  tidy : Tidy k'
  fate : ∀ pid,
    Fate (k.processes.exitStatus? pid) (k'.processes.exitStatus? pid) (exitsTold pid events)
  get_eq : ∀ pid p, k.processes.get? pid = some p → p.IsOver → k'.processes.get? pid = some p

theorem Tidy.ages_refl (ht : Tidy k) : Ages k k [] := ⟨ht, fun _ => .stays _, fun _ _ h _ => h⟩

theorem Ages.trans (h : Ages k middle before) (h' : Ages middle k' after) :
    Ages k k' (before ++ after) where
  tidy := h'.tidy
  fate pid := exitsTold_append ▸ (h.fate pid).trans (h'.fate pid)
  get_eq pid p hp ho := h'.get_eq pid p (h.get_eq pid p hp ho) ho

section Boot

variable (config : Config) (files : φ) (console : χ) (host : ω)

theorem exitStatus?_boot (pid : Pid) : (boot config files console host :
    Kernel φ η χ ω × List (Event η)).1.processes.exitStatus? pid = none := by
  simp [boot, Processes.exitStatus?]

theorem tidy_boot : Tidy (boot config files console host : Kernel φ η χ ω × List (Event η)).1 := by
  intro pid status hstatus
  rw [exitStatus?_boot] at hstatus
  contradiction

end Boot

/-! ## Operations -/

section Files

variable [FileSystem φ η] [Host ω]

/-- What the end of a running process leaves, whatever its frames. -/
theorem of_run_terminate {p : UserProcess η} {verdict : Verdict}
    (hp : k.processes.running? pid = some p)
    (hrun : (terminate pid status).run k = .ok (verdict, k', events)) :
    ∃ frames, verdict = .exit status ∧
      k' = ⟨frames, k.processes.modify pid (·.exit status),
        (p.files.files.map (·.2)).foldl FileSystem.close k.files, k.console,
        Host.exited k.host pid status⟩ ∧
      deviceUses events = p.files.files.map (.close ·.2) ++ [.exited pid status] := by
  cases hrelease : k.frames.releaseAll pid with
  | error d =>
    unfold terminate at hrun
    rw [run_get_bind, hp] at hrun
    obtain ⟨_, _, _, _, _, hrun, _⟩ := run_bind_eq_ok.mp hrun
    obtain ⟨_, _, _, _, hchecked, _⟩ := run_bind_eq_ok.mp hrun
    rw [hrelease] at hchecked
    contradiction
  | ok found =>
    obtain ⟨rfl, rfl, huses⟩ := Leads.unique ⟨events, hrun, rfl⟩
      (leads_terminate_of_running status hp hrelease)
    exact ⟨_, rfl, rfl, huses⟩

/-- To end a running process. -/
theorem exits_terminate {verdict : Verdict} (hp : k.processes.state? pid = some .running)
    (hrun : (terminate pid status).run k = .ok (verdict, k', events)) :
    verdict = .exit status ∧ Exits k pid status k' events := by
  obtain ⟨p, hrunning⟩ := Option.isSome_iff_exists.mp (k.processes.running?_isSome_iff.mpr hp)
  have hget := get?_of_running? hrunning
  obtain ⟨frames, rfl, rfl, huses⟩ := of_run_terminate hrunning hrun
  refine ⟨rfl, hp, fun q => ?_, fun q p' hget' ho => ?_, ?_, fun q => ?_⟩
  · rw [Processes.exitStatus?_exit]
    split
    · rename_i hq
      rw [hq, hget]
      rfl
    · rfl
  · rw [Processes.get?_modify, if_neg, hget']
    rintro rfl
    rw [Processes.state?, hget'] at hp
    exact ho.state_ne (Option.some.inj hp)
  · rw [Processes.get?_modify, if_pos rfl, hget]
    exact ⟨_, rfl, p.isOver_exit status⟩
  · have hcloses : (p.files.files.map fun handle => DeviceUse.close handle.2).filterMap
        (·.exitOf? q) = [] := by
      rw [List.filterMap_map]
      exact List.filterMap_eq_nil_iff.mpr fun _ _ => rfl
    rw [exitsTold, huses, List.filterMap_append, hcloses]
    by_cases hq : q = pid
    · simp [DeviceUse.exitOf?, hq]
    · simp [DeviceUse.exitOf?, hq, Ne.symm hq]

theorem leads_terminate_of_not_running (hp : k.processes.state? pid ≠ some .running)
    (status : Int32) : (terminate pid status).Leads k (.exit status) k [] :=
  ⟨_, run_terminate_of_not_running status hp, rfl⟩

variable [Console χ]

/-- Who does not run is killed for trapping, to no effect. -/
theorem leads_trap_of_not_running (h : Coherent k es) (hp : k.processes.state? pid ≠ some .running)
    (registers : Registers) :
    (trap pid registers).Leads k (.exit killedStatus, registers) k [] := by
  rcases decode_cases h pid registers.stackPointer with
    ⟨error, hdecode, _⟩ | ⟨p, _, hrunning, _⟩
  · exact leads_trap_of_error hdecode (leads_terminate_of_not_running hp _)
  · rw [k.processes.running?_eq_none_iff.mpr hp] at hrunning
    contradiction

/-- A process that traps goes on, or exits with the status of the verdict. -/
theorem trap_spares_or_exits {registers registers' : Registers} {verdict : Verdict}
    (hp : k.processes.state? pid = some .running)
    (hrun : (trap pid registers).run k = .ok ((verdict, registers'), k', events)) :
    (verdict = .resume ∨ verdict = .halt) ∧ Sparing pid k k' ∧ TellsNoExit events ∨
      ∃ status, verdict = .exit status ∧ Exits k pid status k' events := by
  rcases trap_cases (R := Sparing pid) pid hrun with
    h | ⟨middle, status, before, after, hs, htells, rfl, hterm⟩
  · exact .inl h
  · obtain ⟨rfl, hexits⟩ := exits_terminate (hs hp).1 hterm
    exact .inr ⟨status, rfl, hexits.after_sparing hs hp htells⟩

/-- The verdict of a trap tells what has become of the process. -/
theorem verdict_of_trap {registers registers' : Registers} {verdict : Verdict}
    (hp : k.processes.state? pid = some .running)
    (hrun : (trap pid registers).run k = .ok ((verdict, registers'), k', events)) :
    (∀ status, verdict = .exit status ↔ k'.processes.exitStatus? pid = some status) ∧
      (verdict = .resume ∨ verdict = .halt ↔ k'.processes.state? pid = some .running) := by
  rcases trap_spares_or_exits hp hrun with ⟨hv, hs, _⟩ | ⟨status, rfl, hexits⟩
  · have hp' := (hs hp).1
    rw [Processes.exitStatus?_of_running hp']
    refine ⟨fun status => ⟨?_, nofun⟩, fun _ => hp', fun _ => hv⟩
    rintro rfl
    rcases hv with hv | hv <;> contradiction
  · have hstatus : k'.processes.exitStatus? pid = some status := by
      rw [hexits.exitStatus_eq, if_pos rfl]
    rw [hstatus, Processes.exitStatus?_eq_some_iff.mp hstatus]
    refine ⟨fun status' => ?_, ?_, nofun⟩
    · rw [Verdict.exit.injEq, Option.some.injEq]
    · rintro (hc | hc) <;> contradiction

/-- Every operation spares the processes or ends one. -/
theorem perform_spares_or_exits (h : Coherent k es) {op : Operation} {answer : op.Answer}
    (hrun : op.perform.run k = .ok (answer, k', events)) :
    Spares k k' ∧ TellsNoExit events ∨ ∃ pid status, Exits k pid status k' events := by
  have hdead : ∀ {α : Type} {x : KernelM φ η χ ω α} {a b : α}, x.Leads k a k [] →
      x.run k = .ok (b, k', events) → Spares k k' ∧ TellsNoExit events := by
    intro α x a b hleads hrun
    obtain ⟨_, rfl, huses⟩ := hleads.unique ⟨events, hrun, rfl⟩
    exact ⟨.refl _, tellsNoExit_of_deviceUses huses.symm⟩
  cases op with
  | spawn name => exact .inl (within_spawn h name hrun)
  | mapPage pid va writable => exact .inl (within_mapPage h pid va writable hrun)
  | unmapPage pid va => exact .inl (within_unmapPage pid va hrun)
  | copyTo pid va bytes => exact .inl (within_copyTo pid va bytes hrun)
  | copyFrom pid va dst => exact .inl (within_copyFrom pid va dst hrun)
  | touch pid va write => exact .inl (within_touch pid va write hrun)
  | tick ticks => exact .inl (within_tick ticks hrun)
  | terminate pid status =>
    by_cases hp : k.processes.state? pid = some .running
    · exact .inr ⟨pid, status, (exits_terminate hp hrun).2⟩
    · exact .inl (hdead (leads_terminate_of_not_running hp status) hrun)
  | trap pid registers =>
    obtain ⟨verdict, registers'⟩ := answer
    by_cases hp : k.processes.state? pid = some .running
    · rcases trap_spares_or_exits hp hrun with ⟨_, hs, htells⟩ | ⟨status, _, hexits⟩
      · exact .inl ⟨(hs hp).2, htells⟩
      · exact .inr ⟨pid, status, hexits⟩
    · exact .inl (hdead (leads_trap_of_not_running h hp registers) hrun)

/-! ## Runs -/

/-- One operation. -/
theorem Tidy.perform (ht : Tidy k) (h : Coherent k es) {op : Operation} {answer : op.Answer}
    (hrun : op.perform.run k = .ok (answer, k', events)) : Ages k k' events := by
  rcases perform_spares_or_exits h hrun with ⟨hspares, htells⟩ | ⟨pid, status, hexits⟩
  · refine ⟨fun q s hq => ?_, fun q => ?_, hspares.get_eq⟩
    · rw [hspares.exitStatus_eq] at hq
      obtain ⟨p, hp, ho⟩ := ht q s hq
      exact ⟨p, hspares.get_eq q p hp ho, ho⟩
    · rw [htells q, hspares.exitStatus_eq]
      exact .stays _
  · refine ⟨fun q s hq => ?_, hexits.fate, hexits.get_eq⟩
    rw [hexits.exitStatus_eq] at hq
    split at hq
    · rename_i hpid
      exact hpid ▸ hexits.isOver
    · obtain ⟨p, hp, ho⟩ := ht q s hq
      exact ⟨p, hexits.get_eq q p hp ho, ho⟩

def performAll : List Operation → KernelM φ η χ ω Unit
  | [] => return ()
  | op :: ops => do
    let _ ← op.perform
    performAll ops

/-- Any number of operations. -/
theorem Tidy.performAll (ht : Tidy k) (ho : Orderly k) {ops : List Operation}
    (hrun : (performAll ops).run k = .ok ((), k', events)) : Ages k k' events ∧ Orderly k' := by
  induction ops generalizing k events with
  | nil =>
    cases hrun
    exact ⟨ht.ages_refl, ho⟩
  | cons op ops ih =>
    obtain ⟨_, middle, before, after, hop, hops, rfl⟩ := run_bind_eq_ok.mp hrun
    obtain ⟨es, h, hs⟩ := ho
    obtain ⟨es', h', hs', _⟩ := h.allows hs hop
    have hages := ht.perform h hop
    obtain ⟨hages', ho'⟩ := ih hages.tidy ⟨es', h', hs'⟩ hops
    exact ⟨hages.trans hages', ho'⟩

/-- A process is gone: it has neither page nor open file nor frame, and whatever is asked for it
changes nothing and uses no device. -/
structure Gone (k : Kernel φ η χ ω) (pid : Pid) : Prop where
  isOver : ∃ p, k.processes.get? pid = some p ∧ p.IsOver
  lends : ∃ es, k.frames.loans.entries = .ok es ∧ ∀ frame va, ¬ Lends es frame ⟨pid, va⟩
  trap : ∀ registers,
    (Kernel.trap pid registers).Leads k (.exit killedStatus, registers) k []
  terminate : ∀ status, (Kernel.terminate pid status).Leads k (.exit status) k []
  mapPage : ∀ va writable,
    (Kernel.mapPage pid va writable).Leads k (.error (.noSuchProcess pid)) k []

theorem Tidy.gone (ht : Tidy k) (h : Coherent k es)
    (hstatus : k.processes.exitStatus? pid = some status) : Gone k pid := by
  have hp : k.processes.state? pid ≠ some .running := by
    rw [Processes.exitStatus?_eq_some_iff.mp hstatus]
    nofun
  exact ⟨ht pid status hstatus,
    ⟨es, h.keeps.ring.entries, fun frame va hl => hp (h.running frame _ hl)⟩,
    leads_trap_of_not_running h hp, leads_terminate_of_not_running hp,
    fun _ _ => ⟨_, run_mapPage_of_not_running hp, rfl⟩⟩

/-- Who is gone stays gone. -/
theorem Ages.gone (h : Ages k k' events) (ht : Tidy k) (h' : Coherent k' es)
    (hexit : (k.processes.exitStatus? pid).isSome = true) :
    k'.processes.get? pid = k.processes.get? pid ∧ Gone k' pid := by
  obtain ⟨status, hstatus⟩ := Option.isSome_iff_exists.mp hexit
  obtain ⟨p, hget, ho⟩ := ht pid status hstatus
  have hget' := h.get_eq pid p hget ho
  have hstatus' : k'.processes.exitStatus? pid = some status := by
    rw [← hstatus, Processes.exitStatus?, hget', Processes.exitStatus?, hget]
  exact ⟨hget'.trans hget.symm, h.tidy.gone h' hstatus'⟩

/-- Whatever was performed since boot, the host was told of the exit of a process once if it has
exited, and with the status that it has, and never if it has not. Whatever is performed then, be it
one operation, may bring the exit of a process that has not exited, and this again the host is told
once. A process that has exited stays as it is, and gone. A process that runs can be ended with any
status. If it traps, it has exited afterwards exactly if the verdict is that it exits, with that
status; if the verdict is another one, it still runs. -/
theorem exit_is_final (config : Config) (files : φ) (console : χ) (host : ω)
    (hfits : poolBase + config.frames * pageSize ≤ addressBound) {ops : List Operation}
    (hr : (performAll ops).run (boot config files console host).1 = .ok ((), k, events))
    (pid : Pid) :
    exitsTold pid events = (k.exitStatus? pid).toList ∧
    (∀ (ops' : List Operation) (k' : Kernel φ η χ ω) (events' : List (Event η)),
      (performAll ops').run k = .ok ((), k', events') →
        Fate (k.exitStatus? pid) (k'.exitStatus? pid) (exitsTold pid events') ∧
        ((k.exitStatus? pid).isSome = true →
          k'.processes.get? pid = k.processes.get? pid ∧ Gone k' pid)) ∧
    ((k.processes.running? pid).isSome = true →
      (∀ status, ∃ k' events', (terminate pid status).run k = .ok (.exit status, k', events') ∧
        k'.exitStatus? pid = some status) ∧
      ∀ registers : Registers,
        (∀ verdict registers' k' events',
          (trap pid registers).run k = .ok ((verdict, registers'), k', events') →
            (∀ status, verdict = .exit status ↔ k'.exitStatus? pid = some status) ∧
            (verdict = .resume ∨ verdict = .halt ↔ (k'.processes.running? pid).isSome = true)) ∧
        (LawfulFileSystem φ → ∃ answer k' events',
          (trap pid registers).run k = .ok (answer, k', events'))) := by
  obtain ⟨hages, es, h, hs⟩ := (tidy_boot config files console host).performAll
    (orderly_boot config files console host hfits) hr
  simp only [exitStatus?_eq]
  refine ⟨?_, fun ops' k' events' hrun => ?_, fun hp =>
    ⟨fun status => ?_, fun registers => ⟨?_, fun hlawful => ?_⟩⟩⟩
  · have hfate := hages.fate pid
    rw [exitStatus?_boot] at hfate
    exact hfate.told_eq
  · obtain ⟨hages', es', h', _⟩ := hages.tidy.performAll ⟨es, h, hs⟩ hrun
    exact ⟨hages'.fate pid, hages'.gone hages.tidy h'⟩
  · obtain ⟨k', _, ⟨events', hrun, _⟩, _⟩ := leads_terminate h pid status
    obtain ⟨_, hexits⟩ := exits_terminate (k.processes.running?_isSome_iff.mp hp) hrun
    exact ⟨k', events', hrun, by rw [hexits.exitStatus_eq, if_pos rfl]⟩
  · intro verdict registers' k' events' hrun
    rw [k'.processes.running?_isSome_iff]
    exact verdict_of_trap (k.processes.running?_isSome_iff.mp hp) hrun
  · obtain ⟨answer, k', _, events', hrun, _⟩ := exists_leads_trap h hs pid registers
    exact ⟨answer, k', events', hrun⟩

end Files

/-- A process is ended twice and the first status counts; another one, without a stack, traps. -/
theorem exit_is_final_of_late_end :
    poolBase + 1 * pageSize ≤ addressBound ∧
      ∃ (k k' : Kernel MemoryFileSystem FileHandle BufferConsole ScriptedHost)
        (events events' : List (Event FileHandle)) (registers registers' : Registers),
        (performAll [.spawn "first", .spawn "second", .mapPage ⟨1⟩ (.ofNat 0x1000) true,
          .terminate ⟨1⟩ 7, .terminate ⟨1⟩ 8, .touch ⟨1⟩ (.ofNat 0x1000) true]).run
            (boot ⟨1, .clock⟩ {} {} {}).1 = .ok ((), k, events) ∧
        k.exitStatus? ⟨1⟩ = some 7 ∧ exitsTold ⟨1⟩ events = [7] ∧ Gone k ⟨1⟩ ∧
        (k.processes.running? ⟨2⟩).isSome = true ∧
        (trap ⟨2⟩ registers).run k = .ok ((.exit killedStatus, registers'), k', events') ∧
        k'.exitStatus? ⟨2⟩ = some killedStatus := by
  have hfits : poolBase + 1 * pageSize ≤ addressBound := by decide
  -- the run, and the verdict of the trap after it, computed at once
  have hanswers : ((do
      performAll [.spawn "first", .spawn "second", .mapPage ⟨1⟩ (.ofNat 0x1000) true,
        .terminate ⟨1⟩ 7, .terminate ⟨1⟩ 8, .touch ⟨1⟩ (.ofNat 0x1000) true]
      let k ← get
      let answer ← trap ⟨2⟩ ⟨.ofNat 0x1000, 0⟩
      return (k.exitStatus? ⟨1⟩, (k.processes.running? ⟨2⟩).isSome, answer.1) :
        KernelM MemoryFileSystem FileHandle BufferConsole ScriptedHost _).run
      (boot ⟨1, .clock⟩ {} {} {}).1).map Prod.fst =
        .ok (some 7, true, .exit killedStatus) := by
    decide +kernel
  obtain ⟨_, _, hrun⟩ := exists_run_eq hanswers
  obtain ⟨_, k, events, _, hr, hrun, _⟩ := run_bind_eq_ok.mp hrun
  rw [run_get_bind] at hrun
  obtain ⟨⟨verdict, registers'⟩, k', events', _, htrap, hrun, _⟩ := run_bind_eq_ok.mp hrun
  simp only [run_pure, Except.ok.injEq, Prod.mk.injEq] at hrun
  obtain ⟨⟨hstatus, hrunning, rfl⟩, rfl, _⟩ := hrun
  obtain ⟨htold, hlater, _⟩ := exit_is_final ⟨1, .clock⟩ _ _ _ hfits hr ⟨1⟩
  obtain ⟨_, _, htraps⟩ := exit_is_final ⟨1, .clock⟩ _ _ _ hfits hr ⟨2⟩
  obtain ⟨_, hgone⟩ := (hlater [] k [] rfl).2 (by rw [hstatus]; rfl)
  obtain ⟨hverdict, _⟩ := ((htraps hrunning).2 _).1 _ _ _ _ htrap
  exact ⟨hfits, k, k', events, events', _, registers', hr, hstatus, by rw [htold, hstatus]; rfl,
    hgone, hrunning, htrap, (hverdict killedStatus).mp rfl⟩

end Kernel

end TeachingKernel
