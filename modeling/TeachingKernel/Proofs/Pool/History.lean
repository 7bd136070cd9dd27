import TeachingKernel.Proofs.Pool

/-!
# Histories of a pool

Whatever is asked of a pool, and in whatever order, the frames that are handed out are those that
were acquired and not released since. The counter, the bitmap and the bounds of the pool agree on
them, so a frame is refused only if all are handed out, and only what is handed out is taken back.

Main statement: `serves_after_history`.
-/

namespace TeachingKernel

/-- Bytes that reach past the end of a page are not stored. -/
theorem Page.overwrite_of_long (page : Page) {start : Nat} {src : Bytes}
    (h : pageSize < start + src.length) :
    page.overwrite start src = .error (.sliceOutOfRange (start + src.length) pageSize) := by
  have hbytes : page.bytes.overwrite start src =
      .error (.sliceOutOfRange (start + src.length) pageSize) := by
    rw [Bytes.overwrite, page.length_bytes, if_neg (Nat.not_le_of_lt h)]
  unfold Page.overwrite
  split
  · rename_i hd
    exact congrArg Except.error (Except.error.inj (hd.symm.trans hbytes))
  · rename_i hok
    cases hok.symm.trans hbytes

namespace PagePool

inductive Call where
  | acquire
  | release (a : PhysAddr)
  /-- Bytes are stored in the page that contains an address, from `start` on. -/
  | write (a : PhysAddr) (start : Nat) (src : Bytes)

inductive Event where
  | acquired (frame : PhysAddr)
  | exhausted
  | released (frame : PhysAddr)
  | written
  | noPage
  | defect (d : Defect)
  deriving DecidableEq

/-- What came of a call, and the pool after it. A defect leaves the pool as it was. -/
def Call.perform (p : PagePool) : Call → Event × PagePool
  | acquire =>
    match p.acquire with
    | some (a, q) => (.acquired a, q)
    | none => (.exhausted, p)
  | release a =>
    match p.release a with
    | .ok q => (.released a, q)
    | .error d => (.defect d, p)
  | write a start src =>
    match p.write? a start src with
    | .ok (some q) => (.written, q)
    | .ok none => (.noPage, p)
    | .error d => (.defect d, p)

def history : List Call → PagePool → List Event × PagePool
  | [], p => ([], p)
  | call :: calls, p =>
    let (event, p) := call.perform p
    let (events, p) := history calls p
    (event :: events, p)

def Event.after (out : Finset PhysAddr) : Event → Finset PhysAddr
  | acquired frame => insert frame out
  | released frame => out.erase frame
  | _ => out

/-- The frames that were acquired and not released since. -/
def outstanding (events : List Event) : Finset PhysAddr := events.foldl Event.after ∅

def Covers (p : PagePool) (a : PhysAddr) : Prop :=
  p.base.toNat ≤ a.toNat ∧ a.toNat < p.base.toNat + p.total * pageSize

def Full (p : PagePool) : Prop := ∀ a, p.Covers a → p.inUse a = true

inductive Serves (p : PagePool) : Call → Event → PagePool → Prop
  | exhausted (hfull : p.Full) : Serves p .acquire .exhausted p
  /-- The lowest frame that is free is handed out, zeroed. -/
  | acquired {q : PagePool} {a : PhysAddr} (ha : a.isAligned = true) (hcovers : p.Covers a)
      (hfree : p.inUse a = false)
      (hlowest : ∀ b, p.Covers b → p.inUse b = false → a.toNat ≤ b.toNat)
      (huse : ∀ b, q.inUse b = (p.inUse b || decide (b.pageStart = a)))
      (hpages : ∀ b, q.page? b = if b.pageStart = a then some Page.zero else p.page? b) :
      Serves p .acquire (.acquired a) q
  | released {q : PagePool} {a : PhysAddr} (ha : a.isAligned = true) (hcovers : p.Covers a)
      (hused : p.inUse a = true)
      (huse : ∀ b, q.inUse b = (p.inUse b && !decide (b.pageStart = a)))
      (hpages : ∀ b, q.page? b = p.page? b) : Serves p (.release a) (.released a) q
  | unaligned {a : PhysAddr} (ha : a.isAligned = false) :
      Serves p (.release a) (.defect (.unalignedRelease a)) p
  | foreign {a : PhysAddr} (ha : a.isAligned = true) (hcovers : ¬ p.Covers a) :
      Serves p (.release a) (.defect (.foreignRelease a)) p
  | double {a : PhysAddr} (ha : a.isAligned = true) (hcovers : p.Covers a)
      (hfree : p.inUse a = false) : Serves p (.release a) (.defect (.doubleRelease a)) p
  | written {q : PagePool} {a : PhysAddr} {start : Nat} {src : Bytes} {page page' : Page}
      (hpage : p.page? a = some page) (hwrite : page.overwrite start src = .ok page')
      (huse : ∀ b, q.inUse b = p.inUse b)
      (hpages : ∀ b, q.page? b = if b.pageStart = a.pageStart then some page' else p.page? b) :
      Serves p (.write a start src) .written q
  | noPage {a : PhysAddr} {start : Nat} {src : Bytes} (hcovers : ¬ p.Covers a) :
      Serves p (.write a start src) .noPage p
  /-- The bytes reach past the end of the page. -/
  | tooLong {a : PhysAddr} {start : Nat} {src : Bytes} (hcovers : p.Covers a)
      (hlong : pageSize < start + src.length) :
      Serves p (.write a start src) (.defect (.sliceOutOfRange (start + src.length) pageSize)) p

variable {p q : PagePool} {a : PhysAddr}

/-! ## The bounds of the pool -/

/-- The frames of a pool contain exactly the addresses in it. -/
theorem isSome_frame?_iff : (p.frame? a).isSome = true ↔ p.Covers a := by
  have hdiv : (a.toNat - p.base.toNat) / pageSize < p.total ↔
      a.toNat - p.base.toNat < p.total * pageSize := Nat.div_lt_iff_lt_mul pageSize_pos
  unfold frame? Covers
  split
  · rename_i hle
    simp only [Option.isSome_dite, hdiv]
    omega
  · rename_i hlt
    simp [hlt]

theorem frame?_eq_none_iff : p.frame? a = none ↔ ¬ p.Covers a := by
  rw [← isSome_frame?_iff, Option.not_isSome_iff_eq_none]

/-- A page and its start are in use together. -/
theorem inUse_of_frame? {frame : Fin p.total} (hf : p.frame? a = some frame) :
    p.inUse a = p.taken.contains frame := by
  rw [inUse, hf, Option.any_some]

/-- The address of a frame is the lowest in it. -/
theorem frameAddress_le (h : p.Sound) {frame : Fin p.total} (hf : p.frame? a = some frame) :
    (p.frameAddress frame).toNat ≤ a.toNat := by
  rw [← (frame?_eq_some_iff h).mp hf, ← a.toNat_pageStart_add_pageOffset]
  exact Nat.le_add_right _ _

theorem covers_frameAddress (h : p.Sound) (frame : Fin p.total) :
    p.Covers (p.frameAddress frame) := by
  rw [← isSome_frame?_iff, frame?_frameAddress h]
  rfl

/-- A pool is full exactly if its counter says so. -/
theorem full_iff_free (h : p.Sound) : p.Full ↔ p.free = 0 := by
  rw [← lowestFree?_eq_none_iff_free h, lowestFree?_eq_none_iff]
  constructor
  · intro hfull frame
    rw [← inUse_of_frame? (frame?_frameAddress h frame)]
    exact hfull _ (covers_frameAddress h frame)
  · intro hall a hcovers
    obtain ⟨frame, hf⟩ := Option.isSome_iff_exists.mp (isSome_frame?_iff.mpr hcovers)
    rw [inUse_of_frame? hf, hall frame]

/-! ## The frames that are handed out -/

def handedOut (p : PagePool) : Finset PhysAddr := p.taken.members.image p.frameAddress

theorem inUse_iff_mem_handedOut (h : p.Sound) :
    p.inUse a = true ↔ a.pageStart ∈ p.handedOut := by
  rw [inUse_iff h, handedOut, Finset.mem_image]
  refine exists_congr fun frame => ?_
  rw [Bitmap.mem_members, eq_comm (a := a.pageStart)]

theorem isAligned_of_mem_handedOut (h : p.Sound) (ha : a ∈ p.handedOut) : a.isAligned = true := by
  obtain ⟨frame, -, rfl⟩ := Finset.mem_image.mp ha
  exact isAligned_frameAddress h frame

theorem free_add_card_handedOut (h : p.Sound) : p.free + p.handedOut.card = p.total := by
  rw [handedOut, Finset.card_image_of_injective _ fun _ _ he => frameAddress_injective h he]
  exact h.count

theorem handedOut_handOut (frame : Fin p.total) :
    (p.handOut frame).handedOut = insert (p.frameAddress frame) p.handedOut := by
  have hmembers : (p.handOut frame).taken.members = insert frame p.taken.members :=
    Bitmap.members_insert _ _
  rw [handedOut, hmembers]
  exact Finset.image_insert _ _ _

theorem handedOut_takeBack (h : p.Sound) (frame : Fin p.total) :
    (p.takeBack frame).handedOut = p.handedOut.erase (p.frameAddress frame) := by
  have hmembers : (p.takeBack frame).taken.members = p.taken.members.erase frame :=
    Bitmap.members_erase _ _
  rw [handedOut, hmembers]
  exact Finset.image_erase (fun _ _ he => frameAddress_injective h he) _ _

theorem SameUse.handedOut_eq (h : p.SameUse q) : q.handedOut = p.handedOut := by
  obtain ⟨pages, rfl⟩ := h
  rfl

theorem SameUse.sound (h : p.SameUse q) (hp : p.Sound) : q.Sound := by
  obtain ⟨pages, rfl⟩ := h
  exact ⟨hp.aligned, hp.fits, hp.count⟩

/-- A store changes nothing but contents. -/
theorem sameUse_of_write? {start : Nat} {src : Bytes} (h : p.write? a start src = .ok (some q)) :
    p.SameUse q := by
  unfold write? at h
  split at h
  · cases h
  · rename_i frame _
    cases hs : p.store frame start src with
    | error d =>
      rw [hs] at h
      contradiction
    | ok stored =>
      rw [hs] at h
      cases h
      exact sameUse_of_store hs

/-! ## One call -/

theorem inUse_handOut (h : p.Sound) (frame : Fin p.total) (b : PhysAddr) :
    (p.handOut frame).inUse b = (p.inUse b || decide (b.pageStart = p.frameAddress frame)) := by
  simp only [← frame?_eq_some_iff h]
  change (p.frame? b).any (p.taken.insert frame).contains = _
  cases hf : p.frame? b with
  | none => simp [inUse, hf]
  | some i => simp [inUse, hf, eq_comm]

theorem inUse_takeBack (h : p.Sound) (frame : Fin p.total) (b : PhysAddr) :
    (p.takeBack frame).inUse b = (p.inUse b && !decide (b.pageStart = p.frameAddress frame)) := by
  simp only [← frame?_eq_some_iff h]
  change (p.frame? b).any (p.taken.erase frame).contains = _
  cases hf : p.frame? b with
  | none => simp [inUse, hf]
  | some i => simp [inUse, hf, eq_comm]

structure Follows (p : PagePool) (event : Event) (q : PagePool) : Prop where
  sound : q.Sound
  base_eq : q.base = p.base
  total_eq : q.total = p.total
  handedOut_eq : q.handedOut = event.after p.handedOut

theorem serves_acquire (h : p.Sound) :
    ∃ event q, Call.acquire.perform p = (event, q) ∧ Serves p .acquire event q ∧
      p.Follows event q := by
  cases ha : p.acquire with
  | none =>
    have hfull : p.Full := (full_iff_free h).mpr ((acquire_eq_none_iff h).mp ha)
    exact ⟨.exhausted, p, by rw [Call.perform, ha], .exhausted hfull, h, rfl, rfl, rfl⟩
  | some found =>
    obtain ⟨a, q⟩ := found
    obtain ⟨frame, hlowest, rfl, rfl, -⟩ := lowestFree?_of_acquire ha
    obtain ⟨hfree, hlower⟩ := p.lowestFree?_eq_some_iff.mp hlowest
    have hserves : Serves p .acquire (.acquired (p.frameAddress frame)) (p.handOut frame) := by
      refine .acquired (isAligned_frameAddress h frame) (covers_frameAddress h frame) ?_ ?_
        (inUse_handOut h frame) fun b => ?_
      · rw [inUse_of_frame? (frame?_frameAddress h frame), hfree]
      · intro b hcovers hb
        obtain ⟨i, hi⟩ := Option.isSome_iff_exists.mp (isSome_frame?_iff.mpr hcovers)
        rw [inUse_of_frame? hi] at hb
        have hle : frame ≤ i := by
          by_contra hlt
          rw [hlower i (by omega)] at hb
          contradiction
        have hstart := frameAddress_le h hi
        rw [toNat_frameAddress h] at hstart ⊢
        have := Nat.mul_le_mul_right pageSize (Fin.le_def.mp hle)
        omega
      · rw [page?_handOut]
        simp only [frame?_eq_some_iff h]
    exact ⟨.acquired (p.frameAddress frame), p.handOut frame, by rw [Call.perform, ha], hserves,
      sound_handOut h hfree, rfl, rfl, handedOut_handOut frame⟩

theorem serves_release (h : p.Sound) (a : PhysAddr) :
    ∃ event q, (Call.release a).perform p = (event, q) ∧ Serves p (.release a) event q ∧
      p.Follows event q := by
  have hdefect : ∀ {d : Defect}, p.release a = .error d → Serves p (.release a) (.defect d) p →
      ∃ event q, (Call.release a).perform p = (event, q) ∧ Serves p (.release a) event q ∧
        p.Follows event q := fun hd hserves =>
    ⟨_, p, by rw [Call.perform, hd], hserves, h, rfl, rfl, rfl⟩
  cases ha : a.isAligned with
  | false => exact hdefect (by simp [release, ha]) (.unaligned ha)
  | true =>
    cases hf : p.frame? a with
    | none => exact hdefect (by simp [release, ha, hf]) (.foreign ha (frame?_eq_none_iff.mp hf))
    | some frame =>
      have hcovers : p.Covers a := isSome_frame?_iff.mp (by rw [hf]; rfl)
      have huse := inUse_of_frame? hf
      obtain rfl : a = p.frameAddress frame := by
        rw [← (frame?_eq_some_iff h).mp hf, Address.pageStart_of_isAligned ha]
      cases ht : p.taken.contains frame with
      | false =>
        exact hdefect (by simp [release, ha, hf, ht]) (.double ha hcovers (huse.trans ht))
      | true =>
        have hserves : Serves p (.release (p.frameAddress frame))
            (.released (p.frameAddress frame)) (p.takeBack frame) :=
          .released ha hcovers (huse.trans ht) (inUse_takeBack h frame) fun _ => rfl
        exact ⟨_, _, by rw [Call.perform, release_of_taken h ht], hserves, sound_takeBack h ht, rfl,
          rfl, handedOut_takeBack h frame⟩

theorem serves_write (h : p.Sound) (a : PhysAddr) (start : Nat) (src : Bytes) :
    ∃ event q, (Call.write a start src).perform p = (event, q) ∧
      Serves p (.write a start src) event q ∧ p.Follows event q := by
  cases hf : p.frame? a with
  | none =>
    have hrun : p.write? a start src = .ok none := by rw [write?, hf]
    exact ⟨_, p, by rw [Call.perform, hrun], .noPage (frame?_eq_none_iff.mp hf), h, rfl, rfl, rfl⟩
  | some frame =>
    have hcovers : p.Covers a := isSome_frame?_iff.mp (by rw [hf]; rfl)
    by_cases hroom : start + src.length ≤ pageSize
    · obtain ⟨page, hwrite, hstore⟩ := p.exists_store frame hroom
      have hsame := sameUse_of_store hstore
      have hrun : p.write? a start src =
          .ok (some { p with pages := p.pages.set frame page }) := by
        rw [write?, hf]
        exact congrArg (Except.map some) hstore
      have hserves : Serves p (.write a start src) .written
          { p with pages := p.pages.set frame page } := by
        refine .written (by rw [page?, hf]; rfl) hwrite (fun _ => rfl) fun b => ?_
        rw [page?_set]
        simp only [frame?_eq_some_iff h, (frame?_eq_some_iff h).mp hf]
      exact ⟨.written, { p with pages := p.pages.set frame page }, by rw [Call.perform, hrun],
        hserves, hsame.sound h, rfl, rfl, hsame.handedOut_eq⟩
    · have hrun : p.write? a start src =
          .error (.sliceOutOfRange (start + src.length) pageSize) := by
        rw [write?, hf]
        simp only [store, Page.overwrite_of_long _ (Nat.lt_of_not_le hroom), bind, Except.bind]
        rfl
      exact ⟨_, p, by rw [Call.perform, hrun], .tooLong hcovers (Nat.lt_of_not_le hroom), h, rfl,
        rfl, rfl⟩

/-- Every call is served. -/
theorem serves_call (h : p.Sound) (call : Call) :
    ∃ event q, call.perform p = (event, q) ∧ Serves p call event q ∧ p.Follows event q := by
  cases call with
  | acquire => exact serves_acquire h
  | release a => exact serves_release h a
  | write a start src => exact serves_write h a start src

/-! ## Any number of calls -/

theorem history_cons {call : Call} {calls : List Call} {event : Event} {events : List Event}
    {last : PagePool} (hcall : call.perform p = (event, q))
    (hcalls : history calls q = (events, last)) :
    history (call :: calls) p = (event :: events, last) := by
  simp only [history, hcall, hcalls]

/-- After any number of calls the frames are out that the events tell. -/
theorem follows_history (h : p.Sound) (calls : List Call) :
    ∃ events q, history calls p = (events, q) ∧ q.Sound ∧ q.base = p.base ∧ q.total = p.total ∧
      q.handedOut = events.foldl Event.after p.handedOut := by
  induction calls generalizing p with
  | nil => exact ⟨[], p, rfl, h, rfl, rfl, rfl⟩
  | cons call calls ih =>
    obtain ⟨event, middle, hcall, -, hfollows⟩ := serves_call h call
    obtain ⟨events, q, hcalls, hsound, hbase, htotal, hout⟩ := ih hfollows.sound
    refine ⟨event :: events, q, history_cons hcall hcalls, hsound, hbase.trans hfollows.base_eq,
      htotal.trans hfollows.total_eq, ?_⟩
    rw [hout, hfollows.handedOut_eq, List.foldl_cons]

theorem handedOut_fresh (base : PhysAddr) (total : Nat) : (fresh base total).handedOut = ∅ := by
  apply Finset.eq_empty_of_forall_notMem
  intro a ha
  obtain ⟨frame, hm, -⟩ := Finset.mem_image.mp ha
  have hempty : (fresh base total).taken.contains frame = false := Bitmap.contains_empty frame
  rw [Bitmap.mem_members, hempty] at hm
  contradiction

/-- A pool that begins at an aligned address and ends where addresses do, or before, hands out each
of its frames to one owner at a time. After every history the pages in use are those of the frames
that were acquired and not released since, and the counter counts the others. Whatever is then asked
of the pool is served: the lowest free frame is handed out, zeroed, unless all are handed out; a
frame is taken back unless it is misaligned, outside of the pool or not in use, and then the pool
stays as it is; and a store changes the page that contains its address, and no other. -/
theorem serves_after_history {base : PhysAddr} {total : Nat} (ha : base.isAligned = true)
    (hfits : base.toNat + total * pageSize ≤ addressBound) (calls : List Call) :
    ∃ pool events p, create base total = .ok pool ∧ history calls pool = (events, p) ∧
      p.base = base ∧ p.total = total ∧
      (∀ a, p.inUse a = true ↔ a.pageStart ∈ outstanding events) ∧
      (∀ a ∈ outstanding events, a.isAligned = true) ∧
      p.free + (outstanding events).card = total ∧
      ∀ call : Call, ∃ event q, call.perform p = (event, q) ∧ Serves p call event q := by
  have hcreate : create base total = .ok (fresh base total) := by rw [create, if_pos ha]
  obtain ⟨events, p, hrun, hsound, hbase, htotal, hout⟩ :=
    follows_history (sound_fresh ha hfits) calls
  rw [handedOut_fresh] at hout
  refine ⟨_, events, p, hcreate, hrun, hbase, htotal, fun a => ?_, fun a hm => ?_, ?_,
    fun call => ?_⟩
  · rw [inUse_iff_mem_handedOut hsound, hout]
    rfl
  · exact isAligned_of_mem_handedOut hsound (hout ▸ hm)
  · have hcount := free_add_card_handedOut hsound
    rw [hout, htotal] at hcount
    exact hcount
  · obtain ⟨event, q, hcall, hserves, -⟩ := serves_call hsound call
    exact ⟨event, q, hcall, hserves⟩

/-- Both frames of a pool are handed out and a third is asked for. Then the first is given back, and
is given back again, which is a defect. -/
theorem serves_after_history_of_two_frames :
    (Address.ofNat poolBase : PhysAddr).isAligned = true ∧
      (Address.ofNat poolBase : PhysAddr).toNat + 2 * pageSize ≤ addressBound ∧
      ∃ pool events p, create (.ofNat poolBase) 2 = .ok pool ∧
        history [.acquire, .acquire, .acquire, .release (.ofNat poolBase),
          .release (.ofNat poolBase)] pool = (events, p) ∧
        events = [.acquired (.ofNat poolBase), .acquired (.ofNat (poolBase + pageSize)),
          .exhausted, .released (.ofNat poolBase), .defect (.doubleRelease (.ofNat poolBase))] ∧
        p.free = 1 ∧ p.inUse (.ofNat (poolBase + 5)) = false ∧
        p.inUse (.ofNat (poolBase + pageSize + 5)) = true ∧
        ∃ event q, Call.acquire.perform p = (event, q) ∧ Serves p .acquire event q := by
  have ha : (Address.ofNat poolBase : PhysAddr).isAligned = true := by decide
  have hfits : (Address.ofNat poolBase : PhysAddr).toNat + 2 * pageSize ≤ addressBound := by decide
  -- what came of the calls, computed at once
  have hevents : (history [.acquire, .acquire, .acquire, .release (.ofNat poolBase),
      .release (.ofNat poolBase)] (fresh (.ofNat poolBase) 2)).1 =
        [.acquired (.ofNat poolBase), .acquired (.ofNat (poolBase + pageSize)), .exhausted,
          .released (.ofNat poolBase), .defect (.doubleRelease (.ofNat poolBase))] := by
    decide +kernel
  have hout : outstanding [.acquired (.ofNat poolBase), .acquired (.ofNat (poolBase + pageSize)),
      .exhausted, .released (.ofNat poolBase), .defect (.doubleRelease (.ofNat poolBase))] =
        {.ofNat (poolBase + pageSize)} := by
    decide +kernel
  obtain ⟨pool, events, p, hcreate, hrun, _, _, huse, _, hcount, hserves⟩ :=
    serves_after_history ha hfits [.acquire, .acquire, .acquire, .release (.ofNat poolBase),
      .release (.ofNat poolBase)]
  cases hcreate.symm.trans (rfl : create (.ofNat poolBase) 2 = .ok (fresh (.ofNat poolBase) 2))
  rw [hrun] at hevents
  obtain rfl : events = _ := hevents
  rw [hout] at hcount huse
  refine ⟨ha, hfits, _, _, p, hcreate, hrun, rfl, ?_, ?_, ?_, hserves .acquire⟩
  · rw [Finset.card_singleton] at hcount
    omega
  · rw [← Bool.not_eq_true, huse]
    decide
  · rw [huse]
    decide

end PagePool

end TeachingKernel
