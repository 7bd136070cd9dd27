import TeachingKernel.Proofs.Kernel.Memories
import TeachingKernel.Proofs.Memory.Reading

/-!
# Copies to and from a process

As long as no frame has two holders, the page tables and the pool meet what the copies ask of user
memory: every copy answers, it is a copy to or from the private memory of the process, and no other
memory is changed. What a trap does before it ends is confined to the process in the same way.
-/

namespace TeachingKernel.Kernel

open KernelM FrameLedger

variable {φ η χ ω : Type} {k k' : Kernel φ η χ ω} {es es' : List (Nat × Loan)} {pid q : Pid}
  {p : UserProcess η} {va : VirtAddr}

namespace Coherent

/-- The frame behind a page is one of the pool. -/
theorem exists_frame (h : Coherent k es) {frame : PhysAddr} {writable : Bool}
    (hm : k.processes.mapping? pid va = some (frame, writable)) :
    ∃ i, frame = k.frames.pool.frameAddress i ∧ k.frames.pool.frame? frame = some i := by
  obtain ⟨i, _, rfl⟩ := h.keeps.taken_of_lends (h.backed pid va frame writable hm)
  exact ⟨i, rfl, PagePool.frame?_frameAddress h.keeps.books.sound i⟩

theorem wholeFrames (h : Coherent k es) (hp : k.processes.get? pid = some p) :
    (k.memoryOf p).WholeFrames := by
  intro va frame writable hm
  obtain ⟨i, rfl, _⟩ := h.exists_frame ((Processes.mapping?_of_get? hp va).trans hm)
  exact PagePool.isAligned_frameAddress h.keeps.books.sound i

theorem backedMemory (h : Coherent k es) (hp : k.processes.get? pid = some p) :
    (k.memoryOf p).Backed := by
  intro va frame writable hm
  obtain ⟨i, _, hi⟩ := h.exists_frame ((Processes.mapping?_of_get? hp va).trans hm)
  exact ⟨i, hi⟩

/-- Pages with a frame in common are the same page of the same process. -/
theorem eq_of_frame?_eq (h : Coherent k es) (hs : Sole es) {x : VirtAddr} {f g : PhysAddr}
    {w w' : Bool} (hm : k.processes.mapping? pid va = some (f, w))
    (hm' : k.processes.mapping? q x = some (g, w'))
    (hf : k.frames.pool.frame? f = k.frames.pool.frame? g) :
    q = pid ∧ x.pageNumber = va.pageNumber := by
  obtain ⟨i, rfl, hi⟩ := h.exists_frame hm
  obtain ⟨j, rfl, hj⟩ := h.exists_frame hm'
  rw [hi, hj] at hf
  obtain rfl := Option.some.inj hf
  have hholder := hs _ _ _ (h.backed _ _ _ _ hm') (h.backed _ _ _ _ hm)
  obtain ⟨hpid, hstart⟩ := Holder.mk.inj hholder
  constructor
  · exact hpid
  · rw [← x.pageNumber_pageStart, hstart, va.pageNumber_pageStart]

theorem separate (h : Coherent k es) (hs : Sole es) (hp : k.processes.get? pid = some p) :
    (k.memoryOf p).Separate := by
  intro va x f g w w' hm hm' i hf hg
  exact (h.eq_of_frame?_eq hs ((Processes.mapping?_of_get? hp va).trans hm)
    ((Processes.mapping?_of_get? hp x).trans hm') (hf.trans hg.symm)).2

end Coherent

theorem memory?_of_get? (hp : k.processes.get? pid = some p) :
    k.memory? pid = some (k.memoryOf p).contents := by
  rw [memory?, hp]
  rfl

theorem memory?_of_get?_none (hp : k.processes.get? pid = none) : k.memory? pid = none := by
  rw [memory?, hp]
  rfl

/-! ## Reading -/

/-- A copy from a process succeeds exactly if all of the range is there, and then it is the bytes
there. -/
theorem copyFrom_cases (h : Coherent k es) (pid : Pid) (va : VirtAddr) (dst : Bytes) :
    ∃ bytes result events, (copyFrom pid va dst).run k = .ok ((bytes, result), k, events) ∧
      (result = .ok () ↔ ∃ m, k.memory? pid = some m ∧
        ∀ i < dst.length, (m.byte? (va.toNat + i)).isSome = true) ∧
      (result = .ok () → bytes.length = dst.length ∧ ∀ m, k.memory? pid = some m →
        ∀ i < dst.length, bytes[i]? = m.byte? (va.toNat + i)) := by
  cases hp : k.processes.get? pid with
  | none =>
    refine ⟨dst, .error (.noSuchProcess pid), [], ?_, ?_, fun hc => by contradiction⟩
    · unfold copyFrom
      rw [run_get_bind, hp]
      rfl
    · rw [memory?_of_get?_none hp]
      constructor
      · intro hc
        contradiction
      · rintro ⟨m, hm, _⟩
        contradiction
  | some p =>
    obtain ⟨filled, hrun, hfilled⟩ := UserMemory.copyIn_spec (h.wholeFrames hp) va dst
    have hok : filled.result.mapError KernelError.fault = .ok () ↔ filled.result = .ok () := by
      cases filled.result with
      | error fault => simp [Except.mapError]
      | ok _ => simp [Except.mapError]
    refine ⟨filled.bytes, filled.result.mapError .fault, [], ?_, ?_, ?_⟩
    · unfold copyFrom
      rw [run_get_bind, hp]
      simp only [hrun]
      rfl
    · rw [hok, hfilled.ok_iff, memory?_of_get? hp]
      constructor
      · intro hall
        exact ⟨_, rfl, hall⟩
      · rintro ⟨m, hm, hall⟩
        cases hm
        exact hall
    · rw [hok, memory?_of_get? hp]
      intro hresult
      constructor
      · exact hfilled.length_eq
      · rintro m ⟨⟩ i hi
        rw [← hfilled.bytes_eq hresult i hi, Nat.zero_add]

/-! ## Storing -/

/-- A store in the memory of one process. -/
theorem memory?_setPool (h : Coherent k es) (hs : Sole es) (hp : k.processes.get? pid = some p)
    {bytes : Bytes} {answer : Except Fault Unit} {pool : PagePool}
    (hrun : (k.memoryOf p).copyOut va bytes = .ok (answer, pool)) :
    (∀ i < bytes.length, (k.memoryOf p).contents.isWritable (va.toNat + i) = true) ∧
        answer = .ok () ∧
        memory? { k with frames := { k.frames with pool } } =
          Function.update k.memory? pid (some ((k.memoryOf p).contents.store va.toNat bytes)) ∨
      (¬ ∀ i < bytes.length, (k.memoryOf p).contents.isWritable (va.toNat + i) = true) ∧
        (∃ fault, answer = .error fault) ∧ pool = k.frames.pool := by
  rcases UserMemory.copyOut_spec (h.separate hs hp) (h.backedMemory hp) va bytes with
    ⟨hw, pool', hrun', _, hcontents, hothers⟩ | ⟨hw, fault, hrun'⟩
  · left
    cases hrun'.symm.trans hrun
    have hm : memory? { k with frames := { k.frames with pool } } =
        Function.update k.memory? pid (some ((k.memoryOf p).contents.store va.toNat bytes)) := by
      funext q
      by_cases hq : q = pid
      · rw [hq, Function.update_self, ← hcontents]
        exact memory?_of_get? hp
      · -- no frame of another process is behind a page of this one
        have hpages : ∀ x f w, k.processes.mapping? q x = some (f, w) →
            pool.page? f = k.frames.pool.page? f := by
          intro x f w hx
          apply hothers
          intro y g w' hy i hg hf
          have hm := (Processes.mapping?_of_get? hp y).trans hy
          exact hq (h.eq_of_frame?_eq hs hm hx (hg.trans hf.symm)).1
        rw [Function.update_of_ne hq]
        exact memory?_congr rfl (fun _ => rfl) hpages
    exact ⟨hw, rfl, hm⟩
  · right
    cases hrun'.symm.trans hrun
    exact ⟨hw, ⟨fault, rfl⟩, rfl⟩

/-- A copy to a process stores all bytes, if all of the range is writable, or nothing. -/
theorem copyTo_cases (h : Coherent k es) (hs : Sole es) (pid : Pid) (va : VirtAddr)
    (bytes : Bytes) :
    ∃ answer k' events, (copyTo pid va bytes).run k = .ok (answer, k', events) ∧
      ((∃ m, k.memory? pid = some m ∧
          (∀ i < bytes.length, m.isWritable (va.toNat + i) = true) ∧ answer = .ok () ∧
          k'.memory? = Function.update k.memory? pid (some (m.store va.toNat bytes))) ∨
        (∀ m, k.memory? pid = some m →
          ¬ ∀ i < bytes.length, m.isWritable (va.toNat + i) = true) ∧
          (∃ error, answer = .error error) ∧ k'.memory? = k.memory?) := by
  cases hp : k.processes.get? pid with
  | none =>
    have hrun : (copyTo pid va bytes).run k = .ok (.error (.noSuchProcess pid), k, []) := by
      unfold copyTo
      rw [run_get_bind, hp]
      rfl
    have hn : ∀ m, k.memory? pid = some m →
        ¬ ∀ i < bytes.length, m.isWritable (va.toNat + i) = true := by
      rw [memory?_of_get?_none hp]
      intro m hm
      contradiction
    exact ⟨_, k, [], hrun, .inr ⟨hn, ⟨_, rfl⟩, rfl⟩⟩
  | some p =>
    have hanswers : ∃ answer pool, (k.memoryOf p).copyOut va bytes = .ok (answer, pool) := by
      rcases UserMemory.copyOut_spec (h.separate hs hp) (h.backedMemory hp) va bytes with
        ⟨_, pool, hrun, _⟩ | ⟨_, fault, hrun⟩
      · exact ⟨_, _, hrun⟩
      · exact ⟨_, _, hrun⟩
    obtain ⟨answer, pool, hrun⟩ := hanswers
    refine ⟨answer.mapError .fault, { k with frames := { k.frames with pool } }, [], ?_, ?_⟩
    · unfold copyTo
      rw [run_get_bind, hp]
      simp only [hrun]
      rfl
    · rcases memory?_setPool h hs hp hrun with ⟨hw, rfl, hm⟩ | ⟨hw, ⟨fault, rfl⟩, rfl⟩
      · exact .inl ⟨_, memory?_of_get? hp, hw, rfl, hm⟩
      · have hn : ∀ m, k.memory? pid = some m →
            ¬ ∀ i < bytes.length, m.isWritable (va.toNat + i) = true := by
          rw [memory?_of_get? hp]
          rintro m ⟨⟩
          exact hw
        exact .inr ⟨hn, ⟨_, rfl⟩, rfl⟩

/-! ## Confinement -/

/-- The memory of a process may have been stored to where it is writable; no other memory has
changed. -/
def Confined (pid : Pid) (k k' : Kernel φ η χ ω) : Prop :=
  ∀ es, Coherent k es → Sole es → Coherent k' es ∧ (∀ q, q ≠ pid → k'.memory? q = k.memory? q) ∧
    Option.Rel PrivateMemory.Stored (k.memory? pid) (k'.memory? pid)

theorem rel_stored_of_eq {m m' : Option PrivateMemory} (h : m' = m) :
    Option.Rel PrivateMemory.Stored m m' := by
  rw [h]
  cases m with
  | none => exact .none
  | some m => exact .some .refl

theorem rel_stored_trans {m m' m'' : Option PrivateMemory}
    (h : Option.Rel PrivateMemory.Stored m m') (h' : Option.Rel PrivateMemory.Stored m' m'') :
    Option.Rel PrivateMemory.Stored m m'' := by
  cases h with
  | none => exact h'
  | some h =>
    cases h' with
    | some h' => exact .some (h.trans h')

/-- What leaves the pool alone leaves the memories alone. -/
theorem Steady.memory?_eq (hs : Steady k k') (hpool : k'.frames.pool = k.frames.pool)
    (h : Coherent k es) : k'.memory? = k.memory? :=
  (hs.sameHoldings es).memory?_eq h fun f _ _ => by rw [hpool]

theorem Steady.confined (hs : Steady k k') (hpool : k'.frames.pool = k.frames.pool) :
    Confined pid k k' := by
  intro es h _
  have hm := hs.memory?_eq hpool h
  exact ⟨hs.coherent h, fun q _ => by rw [hm], rel_stored_of_eq (by rw [hm])⟩

instance (pid : Pid) : Indifferent (Confined pid : Kernel φ η χ ω → Kernel φ η χ ω → Prop) where
  refl k := Steady.confined (refl_of Steady k) rfl
  trans _ _ _ h h' := by
    intro es hk hs
    obtain ⟨hk₁, hothers, hown⟩ := h es hk hs
    obtain ⟨hk₂, hothers', hown'⟩ := h' es hk₁ hs
    exact ⟨hk₂, fun q hq => (hothers' q hq).trans (hothers q hq), rel_stored_trans hown hown'⟩
  setDevices k files console host :=
    Steady.confined (Indifferent.setDevices k files console host) rfl

instance (pid : Pid) : Allows (Confined pid : Kernel φ η χ ω → Kernel φ η χ ω → Prop) pid where
  setDescriptors k files :=
    Steady.confined ((inferInstance : Allows Steady pid).setDescriptors k files) rfl
  setPool k p va bytes answer pool hp hrun := by
    intro es h hs
    have hsteady : Steady k { k with frames := { k.frames with pool } } :=
      (inferInstance : Allows Steady pid).setPool k p va bytes answer pool hp hrun
    rcases memory?_setPool h hs hp hrun with ⟨hw, _, hm⟩ | ⟨_, _, hpool⟩
    · rw [hm]
      constructor
      · exact hsteady.coherent h
      · constructor
        · intro q hq
          rw [Function.update_of_ne hq]
        · rw [Function.update_self, memory?_of_get? hp]
          exact .some (.store .refl hw)
    · exact hsteady.confined hpool es h hs

end TeachingKernel.Kernel
