import TeachingKernel.Proofs.Kernel.Layout
import TeachingKernel.Proofs.Ledger.Lends
import TeachingKernel.Kernel.Step

/-!
# Page tables, ledger and processes agree

The page tables of the processes, the ledger of frames and the table of processes are changed by
separate steps. They are coherent if every frame behind a page is lent to the process at the start
of that page, if only running processes hold frames, and if the numbers of processes are used up in
order.

There are four ways in which an operation changes them: not at all, a process gains a page, a
process loses one, or a process starts anew, with no page and no frame. Each way keeps them
coherent. Two more facts are kept under a condition: that every holder has its frame behind a page,
if pages are only taken out by their start, and that no frame has two holders, if no frame is lent
twice.
-/

namespace TeachingKernel.Kernel

open FrameLedger

variable {φ η χ ω : Type} {k k' : Kernel φ η χ ω} {es es' : List (Nat × Loan)} {pid : Pid}
  {holder : Holder} {frame : PhysAddr} {writable : Bool}
  {state : Option ProcessState}

/-- The page tables, the ledger and the processes agree. -/
structure Coherent (k : Kernel φ η χ ω) (es : List (Nat × Loan)) : Prop where
  keeps : k.frames.Keeps es
  /-- The frame behind a page is lent to the process at the start of the page. -/
  backed : ∀ pid va frame writable, k.processes.mapping? pid va = some (frame, writable) →
    Lends es frame ⟨pid, va.pageStart⟩
  /-- Only user pages are mapped. -/
  user : ∀ pid va mapping, k.processes.mapping? pid va = some mapping → va.isUser = true
  /-- Only running processes hold frames. -/
  running : ∀ frame holder, Lends es frame holder → k.processes.state? holder.pid = some .running
  numbered : ∀ pid state, k.processes.state? pid = some state → pid.key < k.processes.next.toNat

/-- Every holder has its frame behind a page that starts where it holds it. -/
def Matched (k : Kernel φ η χ ω) (es : List (Nat × Loan)) : Prop :=
  ∀ frame holder, Lends es frame holder → holder.vaddr.isAligned = true ∧
    ∃ writable, k.processes.mapping? holder.pid holder.vaddr = some (frame, writable)

/-- No frame has two holders. -/
def Sole (es : List (Nat × Loan)) : Prop :=
  ∀ frame g h, Lends es frame g → Lends es frame h → g = h

/-- At boot nothing is lent and no process is known. -/
theorem coherent_boot (config : Config) (files : φ) (console : χ) (host : ω)
    (hfits : poolBase + config.frames * pageSize ≤ addressBound) :
    Coherent (boot config files console host : Kernel φ η χ ω × List (Event η)).1 [] where
  keeps := keeps_fresh (PagePool.sound_fresh rfl hfits) rfl config.policy
  backed pid va frame writable hm := by
    simp [boot, Processes.mapping?] at hm
  user pid va mapping hm := by
    simp [boot, Processes.mapping?] at hm
  running frame holder hl := absurd hl not_lends_nil
  numbered pid state hs := by
    simp [boot, Processes.state?] at hs

/-! ## Nothing changes -/

structure SameHoldings (k k' : Kernel φ η χ ω) (es es' : List (Nat × Loan)) : Prop where
  layout : k.processes.SameLayout k'.processes
  lends : ∀ f g, Lends es' f g ↔ Lends es f g

namespace SameHoldings

theorem coherent (hs : SameHoldings k k' es es') (h : Coherent k es) (hk : k'.frames.Keeps es') :
    Coherent k' es' where
  keeps := hk
  backed pid va frame writable hm := by
    rw [hs.layout.mapping_eq] at hm
    rw [hs.lends]
    exact h.backed pid va frame writable hm
  user pid va mapping hm := by
    rw [hs.layout.mapping_eq] at hm
    exact h.user pid va mapping hm
  running frame holder hl := by
    rw [hs.layout.state_eq]
    exact h.running frame holder ((hs.lends frame holder).mp hl)
  numbered pid state hp := by
    rw [hs.layout.state_eq] at hp
    rw [hs.layout.next_eq]
    exact h.numbered pid state hp

theorem matched (hs : SameHoldings k k' es es') (h : Matched k es) : Matched k' es' := by
  intro frame holder hl
  rw [hs.layout.mapping_eq]
  exact h frame holder ((hs.lends frame holder).mp hl)

theorem sole (hs : SameHoldings k k' es es') (h : Sole es) : Sole es' := by
  intro frame g h' hg hh
  exact h frame g h' ((hs.lends frame g).mp hg) ((hs.lends frame h').mp hh)

end SameHoldings

/-! ## A process gains a page -/

/-- A running process gains a page: the frame stands behind it and is lent to the process there. -/
structure Gains (k k' : Kernel φ η χ ω) (es es' : List (Nat × Loan)) (holder : Holder)
    (frame : PhysAddr) (writable : Bool) : Prop where
  maps : k.processes.Maps k'.processes holder frame writable
  running : k.processes.state? holder.pid = some .running
  lends : ∀ f g, Lends es' f g ↔ Lends es f g ∨ f = frame ∧ g = holder

namespace Gains

theorem coherent (hg : Gains k k' es es' holder frame writable) (h : Coherent k es)
    (hk : k'.frames.Keeps es') : Coherent k' es' where
  keeps := hk
  backed q x f w hm := by
    rw [hg.maps.mapping_eq] at hm
    rw [hg.lends]
    split at hm
    · rename_i hx
      obtain ⟨rfl, hpage⟩ := hx
      obtain ⟨rfl, rfl⟩ := Prod.mk.inj (Option.some.inj hm)
      have hstart : x.pageStart = holder.vaddr := by
        rw [Address.pageStart_congr hpage, Address.pageStart_of_isAligned hg.maps.isAligned]
      exact .inr ⟨rfl, by rw [hstart]⟩
    · exact .inl (h.backed q x f w hm)
  user q x mapping hm := by
    rw [hg.maps.mapping_eq] at hm
    split at hm
    · rename_i hx
      rw [Address.isUser_iff, hx.2]
      exact Address.isUser_iff.mp hg.maps.isUser
    · exact h.user q x mapping hm
  running f g hl := by
    rw [hg.maps.state_eq]
    rcases (hg.lends f g).mp hl with hl | ⟨_, rfl⟩
    · exact h.running f g hl
    · exact hg.running
  numbered q state hs := by
    rw [hg.maps.state_eq] at hs
    rw [hg.maps.next_eq]
    exact h.numbered q state hs

theorem matched (hg : Gains k k' es es' holder frame writable) (h : Matched k es) :
    Matched k' es' := by
  intro f g hl
  rw [hg.maps.mapping_eq]
  rcases (hg.lends f g).mp hl with hl | ⟨rfl, rfl⟩
  · obtain ⟨haligned, w, hm⟩ := h f g hl
    -- the page was free, so it is another one
    have hother : ¬ (g.pid = holder.pid ∧ g.vaddr.pageNumber = holder.vaddr.pageNumber) := by
      rintro ⟨hpid, hpage⟩
      rw [hpid, k.processes.mapping?_congr hpage, hg.maps.free] at hm
      contradiction
    rw [if_neg hother]
    exact ⟨haligned, w, hm⟩
  · rw [if_pos ⟨rfl, rfl⟩]
    exact ⟨hg.maps.isAligned, writable, rfl⟩

theorem sole (hg : Gains k k' es es' holder frame writable) (hn : ∀ g, ¬ Lends es frame g)
    (h : Sole es) : Sole es' := by
  intro f g g' hl hl'
  rcases (hg.lends f g).mp hl with hl | ⟨rfl, rfl⟩
  · rcases (hg.lends f g').mp hl' with hl' | ⟨rfl, _⟩
    · exact h f g g' hl hl'
    · exact absurd hl (hn g)
  · rcases (hg.lends f g').mp hl' with hl' | ⟨_, rfl⟩
    · exact absurd hl' (hn g')
    · rfl

end Gains

/-! ## A process loses a page -/

/-- A process loses the page that contains an address, and what it held at the address itself. -/
structure Loses (k k' : Kernel φ η χ ω) (es es' : List (Nat × Loan)) (holder : Holder)
    (frame : PhysAddr) : Prop where
  unmaps : k.processes.Unmaps k'.processes holder frame
  lends : ∀ f g, Lends es' f g ↔ Lends es f g ∧ ¬ (f = frame ∧ g = holder)

namespace Loses

theorem coherent (hl : Loses k k' es es' holder frame) (h : Coherent k es)
    (hk : k'.frames.Keeps es') : Coherent k' es' where
  keeps := hk
  backed q x f w hm := by
    rw [hl.unmaps.mapping_eq] at hm
    split at hm
    · contradiction
    · rename_i hx
      rw [hl.lends]
      constructor
      · exact h.backed q x f w hm
      · rintro ⟨_, rfl⟩
        exact hx ⟨rfl, x.pageNumber_pageStart.symm⟩
  user q x mapping hm := by
    rw [hl.unmaps.mapping_eq] at hm
    split at hm
    · contradiction
    · exact h.user q x mapping hm
  running f g hg := by
    rw [hl.unmaps.state_eq]
    exact h.running f g ((hl.lends f g).mp hg).1
  numbered q state hs := by
    rw [hl.unmaps.state_eq] at hs
    rw [hl.unmaps.next_eq]
    exact h.numbered q state hs

/-- Only to name the page by its start ends the loan along with the page. -/
theorem matched (hl : Loses k k' es es' holder frame) (ha : holder.vaddr.isAligned = true)
    (h : Matched k es) : Matched k' es' := by
  intro f g hg
  obtain ⟨hg, hne⟩ := (hl.lends f g).mp hg
  obtain ⟨haligned, w, hm⟩ := h f g hg
  have hother : ¬ (g.pid = holder.pid ∧ g.vaddr.pageNumber = holder.vaddr.pageNumber) := by
    rintro ⟨hpid, hpage⟩
    obtain ⟨w', hm'⟩ := hl.unmaps.mapped
    rw [hpid, k.processes.mapping?_congr hpage, hm'] at hm
    have hstart := Address.pageStart_congr hpage
    rw [Address.pageStart_of_isAligned haligned, Address.pageStart_of_isAligned ha] at hstart
    apply hne
    constructor
    · exact (Prod.mk.inj (Option.some.inj hm)).1.symm
    · obtain ⟨p, v⟩ := g
      obtain rfl : p = holder.pid := hpid
      obtain rfl : v = holder.vaddr := hstart
      rfl
  rw [hl.unmaps.mapping_eq, if_neg hother]
  exact ⟨haligned, w, hm⟩

theorem sole (hl : Loses k k' es es' holder frame) (h : Sole es) : Sole es' := by
  intro f g g' hg hg'
  exact h f g g' ((hl.lends f g).mp hg).1 ((hl.lends f g').mp hg').1

end Loses

/-! ## A process starts anew -/

structure Resets (k k' : Kernel φ η χ ω) (es es' : List (Nat × Loan)) (pid : Pid)
    (state : Option ProcessState) : Prop where
  next_le : k.processes.next.toNat ≤ k'.processes.next.toNat
  numbered : state.isSome = true → pid.key < k'.processes.next.toNat
  state_eq : ∀ q, k'.processes.state? q = if q = pid then state else k.processes.state? q
  mapping_eq : ∀ q x, k'.processes.mapping? q x =
    if q = pid then none else k.processes.mapping? q x
  lends : ∀ f g, Lends es' f g ↔ Lends es f g ∧ g.pid ≠ pid

namespace Resets

theorem coherent (hr : Resets k k' es es' pid state) (h : Coherent k es)
    (hk : k'.frames.Keeps es') : Coherent k' es' where
  keeps := hk
  backed q x f w hm := by
    rw [hr.mapping_eq] at hm
    split at hm
    · contradiction
    · rename_i hq
      rw [hr.lends]
      exact ⟨h.backed q x f w hm, hq⟩
  user q x mapping hm := by
    rw [hr.mapping_eq] at hm
    split at hm
    · contradiction
    · exact h.user q x mapping hm
  running f g hl := by
    obtain ⟨hl, hne⟩ := (hr.lends f g).mp hl
    rw [hr.state_eq, if_neg hne]
    exact h.running f g hl
  numbered q s hs := by
    rw [hr.state_eq] at hs
    split at hs
    · rename_i hq
      rw [hq]
      apply hr.numbered
      rw [hs]
      rfl
    · exact Nat.lt_of_lt_of_le (h.numbered q s hs) hr.next_le

theorem matched (hr : Resets k k' es es' pid state) (h : Matched k es) : Matched k' es' := by
  intro f g hl
  obtain ⟨hl, hne⟩ := (hr.lends f g).mp hl
  rw [hr.mapping_eq, if_neg hne]
  exact h f g hl

theorem sole (hr : Resets k k' es es' pid state) (h : Sole es) : Sole es' := by
  intro f g g' hg hg'
  exact h f g g' ((hr.lends f g).mp hg).1 ((hr.lends f g').mp hg').1

end Resets

/-- What was the same before is part of the reset. -/
theorem Resets.of_sameHoldings {middle : Kernel φ η χ ω} {es₁ : List (Nat × Loan)}
    (hr : Resets middle k' es₁ es' pid state) (hs : SameHoldings k middle es es₁) :
    Resets k k' es es' pid state where
  next_le := hs.layout.next_eq ▸ hr.next_le
  numbered := hr.numbered
  state_eq q := by rw [hr.state_eq, hs.layout.state_eq]
  mapping_eq q x := by rw [hr.mapping_eq, hs.layout.mapping_eq]
  lends f g := by rw [hr.lends, hs.lends]

/-! ## One of the four ways -/

-- One of the four ways to change the holdings. If pages are named, a page that is lost is named by
-- its start.
inductive Alters (k k' : Kernel φ η χ ω) (es es' : List (Nat × Loan)) (named : Prop) : Prop
  | same (h : SameHoldings k k' es es')
  | gains {holder : Holder} {frame : PhysAddr} {writable : Bool}
      (h : Gains k k' es es' holder frame writable)
  | loses {holder : Holder} {frame : PhysAddr} (h : Loses k k' es es' holder frame)
      (hn : named → holder.vaddr.isAligned = true)
  | resets {pid : Pid} {state : Option ProcessState} (h : Resets k k' es es' pid state)

namespace Alters

variable {named : Prop}

theorem coherent (ha : Alters k k' es es' named) (h : Coherent k es) (hk : k'.frames.Keeps es') :
    Coherent k' es' := by
  cases ha with
  | same hs => exact hs.coherent h hk
  | gains hg => exact hg.coherent h hk
  | loses hl => exact hl.coherent h hk
  | resets hr => exact hr.coherent h hk

theorem matched (ha : Alters k k' es es' named) (hn : named) (h : Matched k es) :
    Matched k' es' := by
  cases ha with
  | same hs => exact hs.matched h
  | gains hg => exact hg.matched h
  | loses hl haligned => exact hl.matched (haligned hn) h
  | resets hr => exact hr.matched h

end Alters

/-- A process that does not run holds nothing that it could lose. -/
theorem Coherent.lends_iff_of_not_running (h : Coherent k es)
    (hp : k.processes.state? pid ≠ some .running) (f : PhysAddr) (g : Holder) :
    Lends es f g ↔ Lends es f g ∧ g.pid ≠ pid := by
  constructor
  · intro hl
    constructor
    · exact hl
    · rintro rfl
      exact hp (h.running f g hl)
  · exact And.left

end TeachingKernel.Kernel
