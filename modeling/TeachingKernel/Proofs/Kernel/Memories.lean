import TeachingKernel.Proofs.Kernel.Operations

/-!
# The memories of the processes

The private memory of a process is what its pages and the frames behind them amount to. As long as
no frame has two holders, every copy answers, and a store reaches no memory but the one it is made
to.
-/

namespace TeachingKernel.Kernel

open KernelM FrameLedger

variable {φ η χ ω : Type} {k k' : Kernel φ η χ ω} {es es' : List (Nat × Loan)} {pid q : Pid}
  {va : VirtAddr}

/-- The private memory of a process that the kernel knows. -/
def memory? (k : Kernel φ η χ ω) (pid : Pid) : Option PrivateMemory :=
  (k.processes.get? pid).map fun p => (k.memoryOf p).contents

/-- What the pages of a process and the frames behind them amount to. -/
def view (k : Kernel φ η χ ω) (pid : Pid) : PrivateMemory :=
  .ofPages (k.processes.mapping? pid) k.frames.pool.page?

theorem contents_memoryOf {p : UserProcess η} (hp : k.processes.get? pid = some p) :
    (k.memoryOf p).contents = k.view pid := by
  have hm : k.processes.mapping? pid = p.pageTable.mapping? :=
    funext (Processes.mapping?_of_get? hp)
  rw [UserMemory.contents, view, hm]
  rfl

theorem memory?_eq (k : Kernel φ η χ ω) (pid : Pid) :
    k.memory? pid = (k.processes.state? pid).map fun _ => k.view pid := by
  rw [memory?, Processes.state?]
  cases hp : k.processes.get? pid with
  | none => rfl
  | some p =>
    rw [Option.map_some, contents_memoryOf hp]
    rfl

theorem view_pageNumber (hu : va.isUser = true) :
    k.view q va.pageNumber = (k.processes.mapping? q va).bind fun (frame, writable) =>
      (k.frames.pool.page? frame).map fun page => ⟨page.byte, writable⟩ :=
  PrivateMemory.ofPages_pageNumber hu fun _ h => k.processes.mapping?_congr h

theorem view_of_mapping {frame : PhysAddr} {writable : Bool} {page : Page} (hu : va.isUser = true)
    (hm : k.processes.mapping? q va = some (frame, writable))
    (hp : k.frames.pool.page? frame = some page) :
    k.view q va.pageNumber = some ⟨page.byte, writable⟩ := by
  rw [view_pageNumber hu, hm]
  simp only [Option.bind_some, hp, Option.map_some]

theorem view_eq_none (hm : k.processes.mapping? q va = none) : k.view q va.pageNumber = none := by
  by_cases hu : va.isUser = true
  · rw [view_pageNumber hu, hm]
    rfl
  · rw [view, PrivateMemory.ofPages, if_neg fun hc => hu (Address.isUser_iff.mpr hc)]

theorem eq_view_of_memory? {m : PrivateMemory} (h : k.memory? pid = some m) : m = k.view pid := by
  rw [memory?_eq] at h
  obtain ⟨_, _, rfl⟩ := Option.map_eq_some_iff.mp h
  rfl

/-- If only the page that contains an address has changed, the rest of the memory is the same. -/
theorem view_eq_set (hm : ∀ x : VirtAddr, x.pageNumber ≠ va.pageNumber →
      k'.processes.mapping? q x = k.processes.mapping? q x)
    (hp : ∀ x f w, k.processes.mapping? q x = some (f, w) →
      k'.frames.pool.page? f = k.frames.pool.page? f) :
    k'.view q = (k.view q).set va.pageNumber (k'.view q va.pageNumber) := by
  funext number
  by_cases hn : number = va.pageNumber
  · rw [PrivateMemory.set, if_pos hn, hn]
  · rw [PrivateMemory.set, if_neg hn, view, view, PrivateMemory.ofPages, PrivateMemory.ofPages]
    split
    · rename_i hlt
      have hbound : number * pageSize < addressBound := by
        simp only [userTop, addressBound] at hlt ⊢
        omega
      have hother : (Address.ofPageNumber number : VirtAddr).pageNumber ≠ va.pageNumber := by
        rwa [Address.pageNumber_ofPageNumber hbound]
      rw [hm _ hother]
      cases hx : k.processes.mapping? q (.ofPageNumber number) with
      | none => rfl
      | some mapping => simp only [Option.bind_some, hp _ _ _ hx]
    · rfl

/-- What a process sees is decided by its pages and by the frames behind them. -/
theorem view_congr (hm : ∀ x, k'.processes.mapping? q x = k.processes.mapping? q x)
    (hp : ∀ x f w, k.processes.mapping? q x = some (f, w) →
      k'.frames.pool.page? f = k.frames.pool.page? f) : k'.view q = k.view q := by
  funext number
  rw [view, view, PrivateMemory.ofPages, PrivateMemory.ofPages, hm]
  cases hx : k.processes.mapping? q (.ofPageNumber number) with
  | none => rfl
  | some mapping => simp only [Option.bind_some, hp _ _ _ hx]

theorem memory?_congr (hs : k'.processes.state? q = k.processes.state? q)
    (hm : ∀ x, k'.processes.mapping? q x = k.processes.mapping? q x)
    (hp : ∀ x f w, k.processes.mapping? q x = some (f, w) →
      k'.frames.pool.page? f = k.frames.pool.page? f) : k'.memory? q = k.memory? q := by
  rw [memory?_eq, memory?_eq, hs, view_congr hm hp]

/-! ## Each way to change the holdings -/

/-- Only the frames that are lent matter. -/
theorem Coherent.memory?_congr (h : Coherent k es) (hb : SameBytes k k' es)
    (hs : k'.processes.state? q = k.processes.state? q)
    (hm : ∀ x, k'.processes.mapping? q x = k.processes.mapping? q x) :
    k'.memory? q = k.memory? q :=
  Kernel.memory?_congr hs hm fun x f w hx => hb f _ (h.backed q x f w hx)

theorem SameHoldings.memory?_eq (hs : SameHoldings k k' es es') (h : Coherent k es)
    (hb : SameBytes k k' es) : k'.memory? = k.memory? := by
  funext q
  exact h.memory?_congr hb (hs.layout.state_eq q) (hs.layout.mapping_eq q)

/-- The page that is gained is in the memory of its process, and in no other. -/
theorem Gains.memory?_eq {holder : Holder} {frame : PhysAddr} {writable : Bool} {page : Page}
    (hg : Gains k k' es es' holder frame writable) (h : Coherent k es) (hb : SameBytes k k' es)
    (hp : k'.frames.pool.page? frame = some page) :
    ∃ m, k.memory? holder.pid = some m ∧ m holder.vaddr.pageNumber = none ∧
      k'.memory? = Function.update k.memory? holder.pid
        (some (m.set holder.vaddr.pageNumber (some ⟨page.byte, writable⟩))) := by
  have hnew : k'.view holder.pid holder.vaddr.pageNumber = some ⟨page.byte, writable⟩ := by
    apply view_of_mapping hg.maps.isUser _ hp
    rw [hg.maps.mapping_eq, if_pos ⟨rfl, rfl⟩]
  refine ⟨k.view holder.pid, ?_, view_eq_none hg.maps.free, ?_⟩
  · rw [Kernel.memory?_eq, hg.running]
    rfl
  · funext q
    by_cases hq : q = holder.pid
    · have hset : k'.view q = (k.view q).set holder.vaddr.pageNumber _ := view_eq_set
        (fun x hx => by rw [hg.maps.mapping_eq, if_neg fun hc => hx hc.2])
        fun x f w hx => hb f _ (h.backed q x f w hx)
      rw [hq] at hset ⊢
      rw [Function.update_self, Kernel.memory?_eq, hg.maps.state_eq, hg.running, hset, hnew]
      rfl
    · rw [Function.update_of_ne hq]
      exact h.memory?_congr hb (hg.maps.state_eq q) fun x => by
        rw [hg.maps.mapping_eq, if_neg fun hc => hq hc.1]

/-- The page that is lost is gone from the memory of its process. -/
theorem Loses.memory?_eq {holder : Holder} {frame : PhysAddr}
    (hl : Loses k k' es es' holder frame) (h : Coherent k es) (hb : SameBytes k k' es) :
    ∃ m, k.memory? holder.pid = some m ∧ (m holder.vaddr.pageNumber).isSome = true ∧
      k'.memory? = Function.update k.memory? holder.pid
        (some (m.set holder.vaddr.pageNumber none)) := by
  obtain ⟨w, hmapped⟩ := hl.unmaps.mapped
  have hu := h.user _ _ _ hmapped
  have hlent := h.backed _ _ _ _ hmapped
  have hrunning := h.running _ _ hlent
  obtain ⟨page, hpage⟩ := h.keeps.exists_page_of_lends hlent
  have hold : (k.view holder.pid holder.vaddr.pageNumber).isSome = true := by
    rw [view_of_mapping hu hmapped hpage]
    rfl
  have hnew : k'.view holder.pid holder.vaddr.pageNumber = none := by
    apply view_eq_none
    rw [hl.unmaps.mapping_eq, if_pos ⟨rfl, rfl⟩]
  refine ⟨k.view holder.pid, ?_, hold, ?_⟩
  · rw [Kernel.memory?_eq, hrunning]
    rfl
  · funext q
    by_cases hq : q = holder.pid
    · have hset : k'.view q = (k.view q).set holder.vaddr.pageNumber _ := view_eq_set
        (fun x hx => by rw [hl.unmaps.mapping_eq, if_neg fun hc => hx hc.2])
        fun x f w hx => hb f _ (h.backed q x f w hx)
      rw [hq] at hset ⊢
      rw [Function.update_self, Kernel.memory?_eq, hl.unmaps.state_eq, hrunning, hset, hnew]
      rfl
    · rw [Function.update_of_ne hq]
      exact h.memory?_congr hb (hl.unmaps.state_eq q) fun x => by
        rw [hl.unmaps.mapping_eq, if_neg fun hc => hq hc.1]

theorem view_eq_empty (hm : ∀ x, k.processes.mapping? q x = none) : k.view q = .empty := by
  funext number
  rw [view, PrivateMemory.ofPages, hm]
  simp [PrivateMemory.empty]

/-- A process that starts anew has an empty memory, if it is known at all. -/
theorem Resets.memory?_eq {state : Option ProcessState} (hr : Resets k k' es es' pid state)
    (h : Coherent k es) (hb : SameBytes k k' es) :
    k'.memory? = Function.update k.memory? pid (state.map fun _ => .empty) := by
  funext q
  by_cases hq : q = pid
  · have hempty : k'.view q = .empty := view_eq_empty fun x => by rw [hr.mapping_eq, if_pos hq]
    rw [Kernel.memory?_eq, hr.state_eq, if_pos hq, hempty, hq, Function.update_self]
  · rw [Function.update_of_ne hq]
    exact h.memory?_congr hb (by rw [hr.state_eq, if_neg hq]) fun x => by
      rw [hr.mapping_eq, if_neg hq]

/-- Who does not run has no page. -/
theorem Coherent.memory?_of_not_running (h : Coherent k es)
    (hp : k.processes.state? pid ≠ some .running) :
    k.memory? pid = (k.memory? pid).map fun _ => .empty := by
  have hempty : k.view pid = .empty := by
    apply view_eq_empty
    intro x
    cases hx : k.processes.mapping? pid x with
    | none => rfl
    | some mapping => exact absurd (h.running _ _ (h.backed pid x _ _ hx)) hp
  rw [Kernel.memory?_eq, hempty, Option.map_map]
  rfl

end TeachingKernel.Kernel
