import TeachingKernel.Proofs.Kernel.Layout
import TeachingKernel.Proofs.Memory.Contents
import TeachingKernel.Proofs.Since

/-!
# Histories of a page table

Whatever is asked of a page table, and in whatever order, it stays a finite map from user pages to
whole frames. A page has the frame to which it was mapped last, unless it was unmapped since, and a
change of one page leaves all others. What is asked about an address is answered for its page, and
the pages are listed once each, in ascending order.

Main statement: `answers_after_history`.
-/

namespace TeachingKernel

namespace Address

variable {s : Space}

theorem toNat_ofPageNumber {number : Nat} (h : number * pageSize < addressBound) :
    (ofPageNumber number : Address s).toNat = number * pageSize :=
  Nat.mod_eq_of_lt h

theorem isAligned_ofPageNumber {number : Nat} (h : number * pageSize < addressBound) :
    (ofPageNumber number : Address s).isAligned = true := by
  rw [isAligned, pageOffset, toNat_ofPageNumber h, Nat.mul_mod_left]
  rfl

/-- An address at the start of a page is told by the page's number. -/
theorem ofPageNumber_pageNumber {a : Address s} (h : a.isAligned = true) :
    ofPageNumber a.pageNumber = a := by
  have hle : a.pageNumber * pageSize ≤ a.toNat := Nat.div_mul_le_self _ _
  ext
  rw [toNat_ofPageNumber (Nat.lt_of_le_of_lt hle a.toNat_lt)]
  exact Nat.div_mul_cancel (Nat.dvd_of_mod_eq_zero (beq_iff_eq.mp h))

theorem pageNumber_of_pageStart_eq {a b : Address s} (h : a.pageStart = b.pageStart) :
    a.pageNumber = b.pageNumber := by
  rw [← a.pageNumber_pageStart, h, b.pageNumber_pageStart]

end Address

namespace PageTable

inductive Change where
  | map (va : VirtAddr) (frame : PhysAddr) (writable : Bool)
  | unmap (va : VirtAddr)
  | touch (va : VirtAddr) (write : Bool)
  | clearAccessed (va : VirtAddr)
  | clear

inductive Event where
  | mapped (va : VirtAddr) (frame : PhysAddr) (writable : Bool)
  | unmapped (va : VirtAddr) (frame : PhysAddr)
  | refused (error : MappingError)
  | touched (va : VirtAddr) (write : Bool)
  | cooled (va : VirtAddr)
  | cleared (pages : List (VirtAddr × PhysAddr))
  deriving DecidableEq

/-- What came of a change, and the table after it. A refusal leaves the table as it was. -/
def Change.perform (t : PageTable) : Change → Event × PageTable
  | map va frame writable =>
    match t.map va frame writable with
    | .ok u => (.mapped va frame writable, u)
    | .error error => (.refused error, t)
  | unmap va =>
    match t.unmap va with
    | .ok (frame, u) => (.unmapped va frame, u)
    | .error error => (.refused error, t)
  | touch va write => (.touched va write, t.touch va write)
  | clearAccessed va => (.cooled va, t.clearAccessed va)
  | clear => (.cleared t.clear.1, t.clear.2)

def history : List Change → PageTable → List Event × PageTable
  | [], t => ([], t)
  | change :: changes, t =>
    let (event, t) := change.perform t
    let (events, t) := history changes t
    (event :: events, t)

def Event.Maps (va : VirtAddr) (frame : PhysAddr) (writable : Bool) : Event → Prop
  | mapped x f w => x.pageNumber = va.pageNumber ∧ f = frame ∧ w = writable
  | _ => False

/-- The page that contains the address was neither mapped nor unmapped. -/
def Event.Leaves (va : VirtAddr) : Event → Prop
  | mapped x _ _ => x.pageNumber ≠ va.pageNumber
  | unmapped x _ => x.pageNumber ≠ va.pageNumber
  | cleared _ => False
  | _ => True

/-- Each page for which something is found is listed once, by its start, in ascending order. -/
structure Lists {β : Type} (found? : VirtAddr → Option β) (pages : List (VirtAddr × β)) : Prop where
  ascending : pages.Pairwise fun a b => a.1.toNat < b.1.toNat
  mem_iff : ∀ va b, (va, b) ∈ pages ↔ va.isAligned = true ∧ found? va = some b

inductive Answers (past : List Event) (t : PageTable) : Change → Event → PageTable → Prop
  | kernelAddress {va : VirtAddr} {frame : PhysAddr} {writable : Bool} (hva : userTop ≤ va.toNat) :
      Answers past t (.map va frame writable) (.refused .kernelAddress) t
  | misalignedAddress {va : VirtAddr} {frame : PhysAddr} {writable : Bool}
      (hva : va.toNat < userTop) (ha : va.isAligned = false ∨ frame.isAligned = false) :
      Answers past t (.map va frame writable) (.refused .misalignedAddress) t
  | alreadyMapped {va : VirtAddr} {frame : PhysAddr} {writable : Bool} (hva : va.toNat < userTop)
      (ha : va.isAligned = true) (hf : frame.isAligned = true) (hm : t.isMapped va = true) :
      Answers past t (.map va frame writable) (.refused .alreadyMapped) t
  | mapped {u : PageTable} {va : VirtAddr} {frame : PhysAddr} {writable : Bool}
      (hva : va.toNat < userTop) (ha : va.isAligned = true) (hf : frame.isAligned = true)
      (hm : t.isMapped va = false)
      (hentries : ∀ x, u.entryAt? x =
        if x.pageNumber = va.pageNumber then some ⟨frame, .fresh writable⟩ else t.entryAt? x) :
      Answers past t (.map va frame writable) (.mapped va frame writable) u
  | notMapped {va : VirtAddr} (hm : t.isMapped va = false) :
      Answers past t (.unmap va) (.refused .notMapped) t
  /-- The frame is the one to which the page was mapped last. -/
  | unmapped {u : PageTable} {va : VirtAddr} {frame : PhysAddr} {writable : Bool}
      (hlast : Since (·.Maps va frame writable) (·.Leaves va) past)
      (hentries : ∀ x, u.entryAt? x =
        if x.pageNumber = va.pageNumber then none else t.entryAt? x) :
      Answers past t (.unmap va) (.unmapped va frame) u
  | touched {u : PageTable} {va : VirtAddr} {write : Bool}
      (hentries : ∀ x, u.entryAt? x =
        if x.pageNumber = va.pageNumber then (t.entryAt? x).map (·.touched write)
        else t.entryAt? x) :
      Answers past t (.touch va write) (.touched va write) u
  | cooled {u : PageTable} {va : VirtAddr}
      (hentries : ∀ x, u.entryAt? x =
        if x.pageNumber = va.pageNumber then (t.entryAt? x).map (·.cooled) else t.entryAt? x) :
      Answers past t (.clearAccessed va) (.cooled va) u
  | cleared {u : PageTable} {pages : List (VirtAddr × PhysAddr)}
      (hpages : Lists (fun va => (t.entryAt? va).map (·.frame)) pages)
      (hentries : ∀ x, u.entryAt? x = none) :
      Answers past t .clear (.cleared pages) u

/-- Every entry is that of a user page and of a whole frame. -/
def Sound (t : PageTable) : Prop :=
  ∀ number e, t.entries[number]? = some e →
    (number + 1) * pageSize ≤ userTop ∧ e.frame.isAligned = true ∧
      e.flags.present = true ∧ e.flags.user = true

/-- The pages and their frames are those that the events tell. -/
def Told (past : List Event) (t : PageTable) : Prop :=
  ∀ va frame writable, t.mapping? va = some (frame, writable) ↔
    Since (·.Maps va frame writable) (·.Leaves va) past

variable {t u : PageTable} {va : VirtAddr} {frame : PhysAddr} {writable write : Bool}
  {past : List Event} {event : Event}

/-! ## The entries by number -/

theorem sound_empty : empty.Sound := by
  intro number e h
  simp [empty] at h

theorem entries_of_map (h : t.map va frame writable = .ok u) :
    u.entries = t.entries.insert va.pageNumber ⟨frame, .fresh writable⟩ := by
  unfold map at h
  split at h <;> try contradiction
  split at h <;> try contradiction
  split at h <;> try contradiction
  cases h
  rfl

theorem entries_of_unmap (h : t.unmap va = .ok (frame, u)) :
    u.entries = t.entries.erase va.pageNumber := by
  unfold unmap at h
  split at h
  · contradiction
  · cases h
    rfl

theorem Sound.map (h : t.Sound) (hm : t.map va frame writable = .ok u) : u.Sound := by
  intro number e he
  rw [entries_of_map hm, Std.ExtTreeMap.getElem?_insert] at he
  split at he
  · rename_i hnumber
    obtain rfl : va.pageNumber = number := Std.LawfulEqCmp.compare_eq_iff_eq.mp hnumber
    obtain ⟨huser, -, hframe, -⟩ := of_map_eq_ok hm
    have hva : va.pageNumber * pageSize < userTop := Address.isUser_iff.mp huser
    cases he
    refine ⟨?_, hframe, rfl, rfl⟩
    simp only [pageSize, userTop] at hva ⊢
    omega
  · exact h number e he

theorem Sound.unmap (h : t.Sound) (hm : t.unmap va = .ok (frame, u)) : u.Sound := by
  intro number e he
  rw [entries_of_unmap hm, Std.ExtTreeMap.getElem?_erase] at he
  split at he
  · contradiction
  · exact h number e he

/-- A change of marks leaves what makes an entry sound. -/
theorem Sound.modify (h : t.Sound) (va : VirtAddr) {f : PageEntry → PageEntry}
    (hframe : ∀ e, (f e).frame = e.frame) (hpresent : ∀ e, (f e).flags.present = e.flags.present)
    (huser : ∀ e, (f e).flags.user = e.flags.user) : (t.modify va f).Sound := by
  intro number e he
  rw [PageTable.modify, Std.ExtTreeMap.getElem?_modify] at he
  split at he
  · rename_i hnumber
    obtain rfl : va.pageNumber = number := Std.LawfulEqCmp.compare_eq_iff_eq.mp hnumber
    obtain ⟨old, hold, rfl⟩ := Option.map_eq_some_iff.mp he
    rw [hframe, hpresent, huser]
    exact h _ old hold
  · exact h number e he

/-- What a sound table says of an address. -/
theorem Sound.entry {e : PageEntry} (h : t.Sound) (he : t.entryAt? va = some e) :
    va.pageStart.toNat + pageSize ≤ userTop ∧ e.frame.isAligned = true ∧
      e.flags.present = true ∧ e.flags.user = true := by
  obtain ⟨hva, hrest⟩ := h _ _ he
  rw [Address.toNat_pageStart, Nat.mul_comm, ← Nat.succ_mul]
  exact ⟨hva, hrest⟩

/-- The numbers of the entries are numbers of pages. -/
theorem Sound.mul_lt {number : Nat} {e : PageEntry} (h : t.Sound)
    (he : t.entries[number]? = some e) : number * pageSize < addressBound := by
  have hle := (h number e he).1
  simp only [pageSize, userTop, addressBound] at hle ⊢
  omega

theorem Sound.lists_toList (h : t.Sound) : Lists t.entryAt? t.toList where
  ascending := by
    rw [toList, List.pairwise_map]
    refine t.entries.ordered_keys_toList.imp_of_mem fun {a b} ha hb hab => ?_
    have hfound := fun {p : Nat × PageEntry} (hp : p ∈ t.entries.toList) =>
      h.mul_lt (Std.ExtTreeMap.mem_toList_iff_getElem?_eq_some.mp hp)
    rw [Address.toNat_ofPageNumber (hfound ha), Address.toNat_ofPageNumber (hfound hb)]
    exact Nat.mul_lt_mul_of_pos_right (Nat.compare_eq_lt.mp hab) pageSize_pos
  mem_iff va e := by
    rw [toList, List.mem_map]
    constructor
    · rintro ⟨⟨number, e'⟩, hmem, he⟩
      obtain ⟨rfl, rfl⟩ := Prod.mk.inj he
      have hfound := Std.ExtTreeMap.mem_toList_iff_getElem?_eq_some.mp hmem
      refine ⟨Address.isAligned_ofPageNumber (h.mul_lt hfound), ?_⟩
      rw [entryAt?, Address.pageNumber_ofPageNumber (h.mul_lt hfound), hfound]
    · rintro ⟨ha, he⟩
      exact ⟨(va.pageNumber, e), Std.ExtTreeMap.mem_toList_iff_getElem?_eq_some.mpr he,
        Prod.ext (Address.ofPageNumber_pageNumber ha) rfl⟩

/-- What is listed with each page may be changed. -/
theorem Lists.map {β γ : Type} {found? : VirtAddr → Option β} {pages : List (VirtAddr × β)}
    (h : Lists found? pages) (f : β → γ) :
    Lists (fun va => (found? va).map f) (pages.map fun (va, b) => (va, f b)) where
  ascending := by
    rw [List.pairwise_map]
    exact h.ascending
  mem_iff va c := by
    rw [List.mem_map, Option.map_eq_some_iff]
    constructor
    · rintro ⟨⟨x, b⟩, hmem, he⟩
      obtain ⟨rfl, rfl⟩ := Prod.mk.inj he
      obtain ⟨ha, hb⟩ := (h.mem_iff x b).mp hmem
      exact ⟨ha, b, hb, rfl⟩
    · rintro ⟨ha, b, hb, rfl⟩
      exact ⟨(va, b), (h.mem_iff va b).mpr ⟨ha, hb⟩, rfl⟩

theorem length_toList : t.toList.length = t.size := by
  rw [toList, List.length_map, Std.ExtTreeMap.length_toList, size]

/-! ## What the events tell -/

theorem told_empty : empty.Told [] := by
  intro va frame writable
  rw [mapping?_empty]
  exact ⟨nofun, fun h => absurd h not_since_nil⟩

/-- To tell what an event changed is enough. -/
theorem Told.concat (h : t.Told past)
    (hevent : ∀ va frame writable, u.mapping? va = some (frame, writable) ↔
      event.Maps va frame writable ∨ t.mapping? va = some (frame, writable) ∧ event.Leaves va) :
    u.Told (past ++ [event]) := by
  intro va frame writable
  rw [hevent, since_concat, h]

/-- An event that is neither of mapping nor of unmapping. -/
theorem Told.concat_of_same (h : t.Told past) (hmapping : ∀ va, u.mapping? va = t.mapping? va)
    (hevent : ∀ va frame writable, ¬ event.Maps va frame writable)
    (hleaves : ∀ va, event.Leaves va) : u.Told (past ++ [event]) := by
  refine h.concat fun va frame writable => ?_
  rw [hmapping, or_iff_right (hevent va frame writable), and_iff_left (hleaves va)]

theorem Told.map (h : t.Told past) (hm : t.map va frame writable = .ok u) :
    u.Told (past ++ [.mapped va frame writable]) := by
  refine h.concat fun x f w => ?_
  rw [mapping?_of_map hm]
  split
  · rename_i hx
    simp [Event.Maps, Event.Leaves, hx]
  · rename_i hx
    simp [Event.Maps, Event.Leaves, eq_comm (a := va.pageNumber), hx]

theorem Told.unmap (h : t.Told past) (hm : t.unmap va = .ok (frame, u)) :
    u.Told (past ++ [.unmapped va frame]) := by
  refine h.concat fun x f w => ?_
  rw [mapping?_of_unmap hm]
  split
  · rename_i hx
    simp [Event.Maps, Event.Leaves, hx]
  · rename_i hx
    simp [Event.Maps, Event.Leaves, eq_comm (a := va.pageNumber), hx]

theorem Told.clear (h : t.Told past) (pages : List (VirtAddr × PhysAddr)) :
    empty.Told (past ++ [.cleared pages]) := by
  refine h.concat fun x f w => ?_
  simp [Event.Maps, Event.Leaves]

/-! ## One change -/

structure Follows (past : List Event) (event : Event) (u : PageTable) : Prop where
  sound : u.Sound
  told : u.Told (past ++ [event])

theorem follows_refused (h : t.Sound) (ht : t.Told past) (error : MappingError) :
    Follows past (.refused error) t :=
  ⟨h, ht.concat_of_same (fun _ => rfl) (fun _ _ _ => id) fun _ => trivial⟩

theorem answers_map (h : t.Sound) (ht : t.Told past) (va : VirtAddr) (frame : PhysAddr)
    (writable : Bool) :
    ∃ event u, (Change.map va frame writable).perform t = (event, u) ∧
      Answers past t (.map va frame writable) event u ∧ Follows past event u := by
  have hrefused : ∀ {error : MappingError}, t.map va frame writable = .error error →
      Answers past t (.map va frame writable) (.refused error) t →
      ∃ event u, (Change.map va frame writable).perform t = (event, u) ∧
        Answers past t (.map va frame writable) event u ∧ Follows past event u :=
    fun hm hanswers => ⟨_, t, by rw [Change.perform, hm], hanswers, follows_refused h ht _⟩
  by_cases hva : va.toNat < userTop
  · have hkernel : va.isKernel = false := by simp [Address.isKernel, Address.isUser, hva]
    cases ha : va.isAligned with
    | false => exact hrefused (by simp [map, hkernel, ha]) (.misalignedAddress hva (.inl ha))
    | true =>
      cases hf : frame.isAligned with
      | false => exact hrefused (by simp [map, hkernel, hf]) (.misalignedAddress hva (.inr hf))
      | true =>
        cases hm : t.isMapped va with
        | true =>
          exact hrefused (by simp [map, hkernel, ha, hf, hm]) (.alreadyMapped hva ha hf hm)
        | false =>
          have hok : t.map va frame writable =
              .ok ⟨t.entries.insert va.pageNumber ⟨frame, .fresh writable⟩⟩ := by
            simp [map, hkernel, ha, hf, hm]
          exact ⟨_, _, by rw [Change.perform, hok], .mapped hva ha hf hm (entryAt?_of_map hok),
            h.map hok, ht.map hok⟩
  · have hkernel : va.isKernel = true := by simp [Address.isKernel, Address.isUser, hva]
    exact hrefused (by simp [map, hkernel]) (.kernelAddress (Nat.le_of_not_lt hva))

theorem answers_unmap (h : t.Sound) (ht : t.Told past) (va : VirtAddr) :
    ∃ event u, (Change.unmap va).perform t = (event, u) ∧
      Answers past t (.unmap va) event u ∧ Follows past event u := by
  cases hm : t.unmap va with
  | ok found =>
    obtain ⟨frame, u⟩ := found
    obtain ⟨writable, hlast⟩ := of_unmap_eq_ok hm
    exact ⟨_, u, by rw [Change.perform, hm],
      .unmapped ((ht va frame writable).mp hlast) (entryAt?_of_unmap hm), h.unmap hm, ht.unmap hm⟩
  | error error =>
    have hnone : t.entryAt? va = none := by simpa [mapping?] using of_unmap_eq_error hm
    obtain rfl : error = .notMapped := by simpa [unmap, hnone, eq_comm] using hm
    exact ⟨_, t, by rw [Change.perform, hm], .notMapped (by rw [isMapped, hnone]; rfl),
      follows_refused h ht _⟩

/-- Every change is answered. -/
theorem answers_change (h : t.Sound) (ht : t.Told past) (change : Change) :
    ∃ event u, change.perform t = (event, u) ∧ Answers past t change event u ∧
      Follows past event u := by
  cases change with
  | map va frame writable => exact answers_map h ht va frame writable
  | unmap va => exact answers_unmap h ht va
  | touch va write =>
    exact ⟨_, _, rfl, .touched (entryAt?_modify t va _),
      h.modify va (fun _ => rfl) (fun _ => rfl) fun _ => rfl,
      ht.concat_of_same (t.mapping?_touch va write) (fun _ _ _ => id) fun _ => trivial⟩
  | clearAccessed va =>
    exact ⟨_, _, rfl, .cooled (entryAt?_modify t va _),
      h.modify va (fun _ => rfl) (fun _ => rfl) fun _ => rfl,
      ht.concat_of_same (t.mapping?_clearAccessed va) (fun _ _ _ => id) fun _ => trivial⟩
  | clear =>
    exact ⟨_, _, rfl, .cleared (h.lists_toList.map (·.frame)) entryAt?_empty, sound_empty,
      ht.clear _⟩

/-! ## Any number of changes -/

theorem history_cons {change : Change} {changes : List Change} {events : List Event}
    {last : PageTable} (hchange : change.perform t = (event, u))
    (hchanges : history changes u = (events, last)) :
    history (change :: changes) t = (event :: events, last) := by
  simp only [history, hchange, hchanges]

/-- After any number of changes the table is sound, and as the events tell. -/
theorem told_history (h : t.Sound) (ht : t.Told past) (changes : List Change) :
    ∃ events u, history changes t = (events, u) ∧ u.Sound ∧ u.Told (past ++ events) := by
  induction changes generalizing t past with
  | nil => exact ⟨[], t, rfl, h, by rwa [List.append_nil]⟩
  | cons change changes ih =>
    obtain ⟨event, middle, hchange, -, hfollows⟩ := answers_change h ht change
    obtain ⟨events, u, hchanges, hsound, htold⟩ := ih hfollows.sound hfollows.told
    refine ⟨event :: events, u, history_cons hchange hchanges, hsound, ?_⟩
    rwa [List.append_assoc] at htold

/-- A finite map from user pages to whole frames, given what came of the changes that made it. -/
structure MapsPages (past : List Event) (t : PageTable) : Prop where
  /-- A page has the frame to which it was mapped last, with the permission that was given then,
  unless it was unmapped since. -/
  told : t.Told past
  /-- The page lies below `userTop`, the frame is a whole one, and user programs may use it. -/
  entry : ∀ va e, t.entryAt? va = some e →
    va.pageStart.toNat + pageSize ≤ userTop ∧ e.frame.isAligned = true ∧
      e.flags.present = true ∧ e.flags.user = true
  /-- All addresses of a page are answered alike. -/
  alike : ∀ va x : VirtAddr, x.pageStart = va.pageStart →
    t.entryAt? x = t.entryAt? va ∧ t.isMapped x = t.isMapped va ∧
      t.isAccessed x = t.isAccessed va ∧ t.isDirty x = t.isDirty va ∧
      t.isWritable x = t.isWritable va ∧
      (t.translate? x).map (·.pageStart) = (t.translate? va).map (·.pageStart)
  /-- An address stands for the frame of its page and the offset in it; their sum is an address. -/
  translate_some : ∀ va e, t.entryAt? va = some e → ∃ a, t.translate? va = some a ∧
    a.toNat = e.frame.toNat + va.pageOffset ∧ a.pageStart = e.frame ∧ a.pageOffset = va.pageOffset
  translate_none : ∀ va, t.entryAt? va = none → t.translate? va = none
  /-- Each page is listed once. -/
  lists : Lists t.entryAt? t.toList
  length : t.toList.length = t.size

theorem Sound.mapsPages (h : t.Sound) (ht : t.Told past) : MapsPages past t where
  told := ht
  entry _ _ he := h.entry he
  alike va x hx := by
    have hentry : t.entryAt? x = t.entryAt? va := by
      rw [entryAt?, entryAt?, Address.pageNumber_of_pageStart_eq hx]
    refine ⟨hentry, by rw [isMapped, isMapped, hentry], by rw [isAccessed, isAccessed, hentry],
      by rw [isDirty, isDirty, hentry], by rw [isWritable, isWritable, hentry], ?_⟩
    rw [translate?, translate?, hentry, Option.map_map, Option.map_map]
    cases he : t.entryAt? va with
    | none => rfl
    | some e =>
      have hframe := (h.entry he).2.1
      simp only [Option.map_some, Function.comp_apply,
        Address.pageStart_offset hframe (Address.pageOffset_lt _)]
  translate_some va e he := by
    have hframe := (h.entry he).2.1
    exact ⟨e.frame.offset va.pageOffset, by rw [translate?, he]; rfl,
      Address.toNat_offset hframe va.pageOffset_lt,
      Address.pageStart_offset hframe va.pageOffset_lt,
      Address.pageOffset_offset hframe va.pageOffset_lt⟩
  translate_none va he := by
    rw [translate?, he]
    rfl
  lists := h.lists_toList
  length := length_toList

/-- Whatever is asked of a page table, it is a finite map from user pages to whole frames. A page
has the frame to which it was mapped last, and may be written if it was mapped so, unless it was
unmapped since. The addresses of a page are answered alike, and stand for the addresses of its
frame. Whatever is asked of it next is answered: a page is mapped if it is a user page, both
addresses are aligned and the page is not mapped, else the reason is given and nothing changes; the
frame of a page that is unmapped is told; what is done to a page leaves all others; and a table that
is cleared tells each of its pages once, in ascending order. -/
theorem answers_after_history (changes : List Change) :
    ∃ events t, history changes empty = (events, t) ∧ MapsPages events t ∧
      ∀ change : Change, ∃ event u, change.perform t = (event, u) ∧
        Answers events t change event u := by
  obtain ⟨events, t, hrun, hsound, htold⟩ := told_history sound_empty told_empty changes
  refine ⟨events, t, hrun, hsound.mapsPages htold, fun change => ?_⟩
  obtain ⟨event, u, hchange, hanswers, -⟩ := answers_change hsound htold change
  exact ⟨event, u, hchange, hanswers⟩

end PageTable

end TeachingKernel
