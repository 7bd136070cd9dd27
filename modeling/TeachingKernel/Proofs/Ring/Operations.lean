import Mathlib.Tactic.Tauto
import TeachingKernel.Proofs.Ring.Segment

/-!
# Rings as lists of entries

Every operation of a ring is an operation on the list of its entries: what goes in is appended, what
is taken out is deleted, a changed value is changed in place, and to move the hand is to rotate the
list. As long as a ring holds a list of entries none of them meets a vacant slot.
-/

namespace TeachingKernel.CircularList

variable {α : Type} {r : CircularList α} {es : List (Nat × α)}

theorem holds_empty : (empty : CircularList α).Holds [] where
  nodup := List.nodup_nil
  closed := ⟨0, 0, rfl, rfl⟩
  hand_eq := rfl
  size_eq := rfl
  live h := by
    obtain ⟨n, hn⟩ := h
    simp [node, empty] at hn
  vacant_nodup := List.nodup_nil
  mem_vacant := by simp [empty]

/-! ## Circles -/

namespace Cycle

theorem node_of_mem (h : r.Cycle es) {slot : Nat} {value : α} (hm : (slot, value) ∈ es) :
    ∃ n, r.node slot = .ok n ∧ n.value = value := by
  obtain ⟨last, first, hs⟩ := h.closed
  exact segment_node hs hm

/-- A slot is live exactly if it is the slot of an entry. -/
theorem live_iff (h : r.Cycle es) {slot : Nat} : r.Live slot ↔ slot ∈ es.map Prod.fst := by
  constructor
  · exact h.live
  · intro hm
    obtain ⟨last, first, hs⟩ := h.closed
    exact segment_live hs hm

/-- A circle has no beginning. -/
theorem rotate {xs ys : List (Nat × α)} (h : r.Cycle (xs ++ ys)) : r.Cycle (ys ++ xs) := by
  have hp : (ys ++ xs).Perm (xs ++ ys) := List.perm_append_comm
  have hm : ∀ slot, slot ∈ (ys ++ xs).map Prod.fst ↔ slot ∈ (xs ++ ys).map Prod.fst :=
    fun slot => (hp.map Prod.fst).mem_iff
  constructor
  · exact (hp.map Prod.fst).nodup_iff.mpr h.nodup
  · exact closed_rotate h.closed
  · exact h.size_eq.trans hp.length_eq.symm
  · intro slot hl
    exact (hm slot).mpr (h.live hl)
  · exact h.vacant_nodup
  · intro slot
    rw [hm]
    exact h.mem_vacant

/-- The hand may be put on any entry: the order begins there. -/
theorem setHand (h : r.Cycle es) : Holds { r with hand := es.head?.map Prod.fst } es where
  nodup := h.nodup
  closed := by
    obtain ⟨last, first, hs⟩ := h.closed
    exact ⟨last, first, segment_of_slots_eq hs rfl⟩
  size_eq := h.size_eq
  live := h.live
  vacant_nodup := h.vacant_nodup
  mem_vacant := h.mem_vacant
  hand_eq := rfl

/-- The ring around a live slot: the entries after it and then those before it lead from the slot
back to it. -/
theorem around {xs ys : List (Nat × α)} {slot : Nat} {value : α}
    (h : r.Cycle (xs ++ (slot, value) :: ys)) :
    ∃ prev next, r.node slot = .ok ⟨value, prev, next⟩ ∧
      r.Segment slot next (ys ++ xs) prev slot := by
  obtain ⟨last, first, hs⟩ := h.closed
  obtain ⟨m, n, hx, rfl, next, hn, hy⟩ := segment_append.mp hs
  exact ⟨m, next, hn, segment_append.mpr ⟨last, first, hy, hx⟩⟩

/-- The link on from an entry leads to the entry that comes next in the circle. -/
theorem next_eq {slot : Nat} {value : α} (h : r.Cycle ((slot, value) :: es)) {n : Node α}
    (hn : r.node slot = .ok n) : (es ++ [(slot, value)]).head?.map Prod.fst = some n.next := by
  have h' : r.Cycle ([] ++ (slot, value) :: es) := h
  obtain ⟨prev, next, hnode, hs⟩ := h'.around
  rw [hnode] at hn
  cases hn
  rw [List.append_nil] at hs
  cases es with
  | nil =>
    obtain ⟨_, ha⟩ := hs
    simpa using ha
  | cons e es => simp [(segment_first hs).1]

/-- To change the value of an entry. -/
theorem modify {xs ys : List (Nat × α)} {slot : Nat} {value : α}
    (h : r.Cycle (xs ++ (slot, value) :: ys)) (f : α → α) :
    ∃ r', r.modify slot f = .ok r' ∧ r'.hand = r.hand ∧
      r'.Cycle (xs ++ (slot, f value) :: ys) := by
  have hslots : (xs ++ (slot, f value) :: ys).map Prod.fst =
      (xs ++ (slot, value) :: ys).map Prod.fst := by simp
  have hlive : r.Live slot := h.live_iff.mpr (by simp)
  obtain ⟨r', hm, hshape, hnode⟩ :=
    modifyNode_of_live hlive fun n => { n with value := f n.value }
  refine ⟨r', hm, hshape.hand_eq, ?_⟩
  constructor
  · rw [hslots]
    exact h.nodup
  · obtain ⟨last, first, hs⟩ := h.closed
    exact ⟨last, first, segment_setValue hs h.nodup f hnode⟩
  · rw [hshape.size_eq, h.size_eq]
    simp
  · intro x hx
    rw [hslots]
    exact h.live ((hshape.live_iff x).mp hx)
  · rw [hshape.vacant_eq]
    exact h.vacant_nodup
  · intro x
    rw [hshape.vacant_eq, hshape.arena_eq, hslots]
    exact h.mem_vacant

end Cycle

/-! ## Reading a ring -/

namespace Holds

theorem entries (h : r.Holds es) : r.entries = .ok es := by
  obtain ⟨last, first, hs⟩ := h.closed
  cases es with
  | nil => rw [CircularList.entries, h.size_eq]; rfl
  | cons e es =>
    have hf := (segment_first hs).1
    rw [CircularList.entries, h.size_eq, h.hand_eq]
    simpa [hf] using walk_of_segment hs

theorem toList (h : r.Holds es) : r.toList = .ok (es.map Prod.snd) := by
  simp only [CircularList.toList, h.entries, bind, Except.bind, pure, Except.pure]

theorem find? (h : r.Holds es) (test : α → Bool) :
    r.find? test = .ok ((es.find? fun e => test e.2).map Prod.fst) := by
  simp only [CircularList.find?, h.entries, bind, Except.bind, pure, Except.pure]

/-- If a search finds nothing, no value passes the test. -/
theorem find?_none (h : r.Holds es) {test : α → Bool} (hf : r.find? test = .ok none) :
    ∀ e ∈ es, test e.2 = false := by
  intro e he
  rw [h.find?, Except.ok.injEq, Option.map_eq_none_iff, List.find?_eq_none] at hf
  simpa using hf e he

/-- What a search finds is an entry that passes the test. -/
theorem find?_some (h : r.Holds es) {test : α → Bool} {slot : Nat}
    (hf : r.find? test = .ok (some slot)) :
    ∃ xs value ys, es = xs ++ (slot, value) :: ys ∧ test value = true := by
  rw [h.find?, Except.ok.injEq, Option.map_eq_some_iff] at hf
  obtain ⟨⟨s, value⟩, hs, rfl⟩ := hf
  have ht := List.find?_some hs
  obtain ⟨xs, ys, rfl⟩ := List.append_of_mem (List.mem_of_find?_eq_some hs)
  exact ⟨xs, value, ys, rfl, ht⟩

/-- To change the value of an entry. -/
theorem modify {xs ys : List (Nat × α)} {slot : Nat} {value : α}
    (h : r.Holds (xs ++ (slot, value) :: ys)) (f : α → α) :
    ∃ r', r.modify slot f = .ok r' ∧ r'.Holds (xs ++ (slot, f value) :: ys) := by
  obtain ⟨r', hm, hhand, hc⟩ := h.toCycle.modify f
  refine ⟨r', hm, hc, ?_⟩
  rw [hhand, h.hand_eq]
  cases xs <;> rfl

end Holds

/-! ## Slots of the arena -/

/-- A slot of the arena that is set holds what it was set to. -/
theorem node_of_set {slot : Nat} (h : slot < r.slots.size) (n : Node α) (x : Nat) :
    node { r with slots := r.slots.setIfInBounds slot (some n) } x =
      if x = slot then .ok n else r.node x := by
  by_cases hx : x = slot
  · subst hx
    simp [node, h]
  · simp [node, hx, Array.getElem?_setIfInBounds_ne (Ne.symm hx)]

/-- A slot that is cleared holds nothing. -/
theorem node_of_clear (r : CircularList α) (slot x : Nat) :
    node { r with slots := r.slots.setIfInBounds slot none } x =
      if x = slot then .error (.vacantSlot slot) else r.node x := by
  by_cases hx : x = slot
  · subst hx
    simp only [node, Array.getElem?_setIfInBounds, if_true]
    split <;> rename_i hs <;> split at hs <;> simp_all
  · simp [node, hx, Array.getElem?_setIfInBounds_ne (Ne.symm hx)]

/-- A live slot lies in the arena. -/
theorem lt_size_of_node {slot : Nat} {n : Node α} (h : r.node slot = .ok n) :
    slot < r.slots.size :=
  (Array.getElem?_eq_some_iff.mp ((r.node_eq_ok_iff).mp h)).1

/-! ## Inserting -/

namespace Holds

/-- A new slot is linked in at the end of the order. -/
theorem link {slot : Nat} {value : α} {p q : Nat} {r₁ : CircularList α} (h : r.Holds es)
    (hslot : slot ∉ es.map Prod.fst) (hn : r₁.node slot = .ok ⟨value, p, q⟩)
    (hnode : ∀ x, x ≠ slot → r₁.node x = r.node x) (hhand : r₁.hand = r.hand)
    (hsize : r₁.size = r.size) :
    ∃ r', r₁.link slot = .ok r' ∧ r'.vacant = r₁.vacant ∧ r'.slots.size = r₁.slots.size ∧
      (∃ last first, r'.Segment last first (es ++ [(slot, value)]) last first) ∧
      r'.hand = (es ++ [(slot, value)]).head?.map Prod.fst ∧ r'.size = es.length + 1 ∧
      ∀ x, r'.Live x ↔ r₁.Live x := by
  obtain ⟨tail, head, hs⟩ := h.closed
  have hs₁ : r₁.Segment tail head es tail head := by
    apply segment_congr _ hs
    intro e he
    apply hnode
    intro hc
    exact hslot (hc ▸ List.mem_map.mpr ⟨e, he, rfl⟩)
  cases es with
  | nil =>
    have hnone : r₁.hand = none := hhand.trans h.hand_eq
    obtain ⟨r₂, hm₂, hshape₂, hnode₂⟩ :=
      modifyNode_of_live ⟨_, hn⟩ fun n => { n with prev := slot, next := slot }
    have hslot₂ : r₂.node slot = .ok ⟨value, slot, slot⟩ := by
      rw [hnode₂, if_pos rfl, hn]
      rfl
    refine ⟨{ r₂ with hand := some slot, size := r₂.size + 1 }, ?_, hshape₂.vacant_eq,
      hshape₂.arena_eq, ⟨slot, slot, rfl, slot, hslot₂, rfl, rfl⟩, rfl, ?_, hshape₂.live_iff⟩
    · simp only [CircularList.link, hnone, hm₂, bind, Except.bind, pure, Except.pure]
    · simp [hshape₂.size_eq, hsize, h.size_eq]
  | cons e es =>
    obtain ⟨rfl, next, hhead⟩ := segment_first hs₁
    have hsome : r₁.hand = some e.1 := hhand.trans h.hand_eq
    obtain ⟨r₂, hm₂, hshape₂, hnode₂⟩ :=
      modifyNode_of_live ⟨_, hn⟩ fun n => { n with prev := tail, next := e.1 }
    have hs₂ : r₂.Segment tail e.1 (e :: es) tail e.1 := by
      apply segment_congr _ hs₁
      intro x hx
      rw [hnode₂, if_neg]
      intro hc
      exact hslot (hc ▸ List.mem_map.mpr ⟨x, hx, rfl⟩)
    obtain ⟨r₃, r₄, hm₃, hm₄, hshape₄, hs₄, hnode₄⟩ :=
      relink hs₂ (List.cons_ne_nil e es) h.nodup slot slot
    have hslot₄ : r₄.node slot = .ok ⟨value, tail, e.1⟩ := by
      rw [hnode₄ slot hslot, hnode₂, if_pos rfl, hn]
      rfl
    have hshape := hshape₂.trans hshape₄
    have hring : r₄.Segment slot e.1 (e :: es ++ [(slot, value)]) slot e.1 :=
      segment_append.mpr ⟨tail, slot, hs₄, rfl, e.1, hslot₄, rfl, rfl⟩
    refine ⟨{ r₄ with size := r₄.size + 1 }, ?_, hshape.vacant_eq, hshape.arena_eq,
      ⟨slot, e.1, segment_of_slots_eq hring rfl⟩, hshape.hand_eq.trans hsome, ?_,
      hshape.live_iff⟩
    · simp only [CircularList.link, hsome, hhead, hm₂, hm₃, hm₄, bind, Except.bind, pure,
        Except.pure]
    · simp [hshape.size_eq, hsize, h.size_eq]

/-- The slot that is used next is not live, and is no longer vacant. -/
theorem reserve (h : r.Holds es) {slot : Nat} {r₁ : CircularList α}
    (hr : r.reserve = (slot, r₁)) :
    slot ∉ es.map Prod.fst ∧ slot < r₁.slots.size ∧ (∀ x, r₁.node x = r.node x) ∧
      r₁.hand = r.hand ∧ r₁.size = r.size ∧ r₁.vacant.Nodup ∧
      ∀ x, x ∈ r₁.vacant ↔ x < r₁.slots.size ∧ x ≠ slot ∧ x ∉ es.map Prod.fst := by
  unfold CircularList.reserve at hr
  cases hv : r.vacant with
  | cons s rest =>
    rw [hv] at hr
    cases hr
    have hd := h.vacant_nodup
    rw [hv, List.nodup_cons] at hd
    have hs := h.mem_vacant.mp (hv ▸ List.mem_cons_self : slot ∈ r.vacant)
    refine ⟨hs.2, hs.1, fun _ => rfl, rfl, rfl, hd.2, ?_⟩
    intro x
    have hx : x ∈ r.vacant ↔ _ := h.mem_vacant
    rw [hv, List.mem_cons] at hx
    constructor
    · intro hm
      have := hx.mp (.inr hm)
      exact ⟨this.1, fun hc => hd.1 (hc ▸ hm), this.2⟩
    · rintro ⟨hlt, hne, hes⟩
      exact (hx.mpr ⟨hlt, hes⟩).resolve_left hne
  | nil =>
    rw [hv] at hr
    cases hr
    have hfull : ∀ x, x < r.slots.size → x ∈ es.map Prod.fst := by
      intro x hlt
      by_contra hx
      have := h.mem_vacant.mpr ⟨hlt, hx⟩
      simp [hv] at this
    have hbound : ∀ x ∈ es.map Prod.fst, x < r.slots.size := by
      intro x hx
      obtain ⟨n, hn⟩ := h.live_iff.mpr hx
      exact lt_size_of_node hn
    refine ⟨fun hc => Nat.lt_irrefl _ (hbound _ hc), by simp, ?_, rfl, rfl, List.nodup_nil, ?_⟩
    · intro x
      simp only [node, Array.getElem?_push]
      split <;> split at * <;> simp_all
    · intro x
      simp only [List.not_mem_nil, Array.size_push, false_iff]
      rintro ⟨hlt, hne, hx⟩
      exact hx (hfull x (by omega))

/-- What goes in is the last entry of the order that begins at the hand. -/
theorem insert (h : r.Holds es) (value : α) :
    ∃ slot r', r.insert value = .ok r' ∧ r'.Holds (es ++ [(slot, value)]) := by
  obtain ⟨⟨slot, r₁⟩, hr⟩ : ∃ x, r.reserve = x := ⟨_, rfl⟩
  obtain ⟨hslot, hlt, hnode, hhand, hsize, hd, hvacant⟩ := h.reserve hr
  have hset := node_of_set hlt ⟨value, slot, slot⟩
  have hn := hset slot
  rw [if_pos rfl] at hn
  have hother : ∀ x, x ≠ slot →
      node { r₁ with slots := r₁.slots.setIfInBounds slot (some ⟨value, slot, slot⟩) } x =
        r.node x := by
    intro x hx
    rw [hset, if_neg hx, hnode]
  obtain ⟨r', hl, hv', harena, hclosed, hhand', hsize', hlive⟩ :=
    h.link hslot hn hother hhand hsize
  refine ⟨slot, r', ?_, ⟨?_, hclosed, ?_, ?_, ?_, ?_⟩, hhand'⟩
  · simp only [CircularList.insert, hr, hl]
  · rw [List.map_append, List.nodup_append]
    refine ⟨h.nodup, by simp, ?_⟩
    intro x hx y hy
    simp only [List.map_cons, List.map_nil, List.mem_singleton] at hy
    rw [hy]
    exact fun hc => hslot (hc ▸ hx)
  · simp [hsize']
  · intro x hx
    obtain ⟨n, hxn⟩ := (hlive x).mp hx
    by_cases hc : x = slot
    · simp [hc]
    · have := h.live ⟨n, hother x hc ▸ hxn⟩
      simp only [List.map_append, List.mem_append]
      exact .inl this
  · rw [hv']
    exact hd
  · intro x
    rw [hv', harena, Array.size_setIfInBounds]
    simp only [hvacant, List.map_append, List.mem_append, List.map_cons, List.map_nil,
      List.mem_singleton, not_or]
    tauto

end Holds

/-! ## Removing -/

/-- The neighbours of a slot that was cleared are linked to each other, and a hand that points to
the slot moves on. -/
def closeUp (r : CircularList α) (slot prev next : Nat) : Checked (CircularList α) :=
  if next = slot then pure { r with hand := none }
  else do
    let r ← r.modifyNode prev fun m => { m with next := next }
    let r ← r.modifyNode next fun m => { m with prev := prev }
    pure (if r.hand = some slot then { r with hand := some next } else r)

/-- To take a value out is to clear its slot, to close the ring up and to keep it for later. -/
theorem remove_eq (r : CircularList α) (slot : Nat) :
    r.remove slot = do
      let n ← r.node slot
      let r ← closeUp { r with slots := r.slots.setIfInBounds slot none } slot n.prev n.next
      match r.size with
      | 0 => throw .countBelowZero
      | size + 1 => return (n.value, { r with vacant := slot :: r.vacant, size }) := by
  unfold CircularList.remove closeUp
  congr 1
  funext n
  split
  · rfl
  · symm
    exact (bind_assoc _ _ _).trans (congrArg _ (funext fun _ => bind_assoc _ _ _))

theorem closeUp_of_segment {xs ys : List (Nat × α)} {slot prev next : Nat} {value : α}
    (hs : r.Segment slot next (ys ++ xs) prev slot) (hslot : slot ∉ (ys ++ xs).map Prod.fst)
    (hd : ((ys ++ xs).map Prod.fst).Nodup)
    (hhand : r.hand = (xs ++ (slot, value) :: ys).head?.map Prod.fst) :
    ∃ r', closeUp r slot prev next = .ok r' ∧
      (∃ last first, r'.Segment last first (xs ++ ys) last first) ∧
      r'.hand = (xs ++ ys).head?.map Prod.fst ∧ r'.vacant = r.vacant ∧ r'.size = r.size ∧
      r'.slots.size = r.slots.size ∧ ∀ x, r'.Live x ↔ r.Live x := by
  cases he : ys ++ xs with
  | nil =>
    rw [he] at hs
    obtain ⟨rfl, rfl⟩ := hs
    obtain ⟨rfl, rfl⟩ := List.append_eq_nil_iff.mp he
    refine ⟨{ r with hand := none }, ?_, ⟨0, 0, rfl, rfl⟩, rfl, rfl, rfl, rfl, fun _ => Iff.rfl⟩
    rw [closeUp, if_pos rfl]
    rfl
  | cons e es =>
    rw [he] at hs hslot hd
    have hfirst := segment_first_mem hs (List.cons_ne_nil e es)
    have hne : next ≠ slot := fun hc => hslot (hc ▸ hfirst)
    obtain ⟨r₁, r₂, hm₁, hm₂, hshape, hs₂, _⟩ :=
      relink hs (List.cons_ne_nil e es) hd prev next
    have hclosed : ∃ last first, r₂.Segment last first (xs ++ ys) last first := by
      apply closed_rotate
      rw [he]
      exact ⟨prev, next, hs₂⟩
    have hrun : closeUp r slot prev next =
        .ok (if r₂.hand = some slot then { r₂ with hand := some next } else r₂) := by
      simp only [closeUp, if_neg hne, hm₁, hm₂, bind, Except.bind, pure, Except.pure]
    refine ⟨_, hrun, ?_⟩
    cases xs with
    | nil =>
      -- the hand pointed to the slot
      have hh : r₂.hand = some slot := hshape.hand_eq.trans hhand
      obtain ⟨last, first, hs₃⟩ := hclosed
      rw [if_pos hh]
      refine ⟨⟨last, first, segment_of_slots_eq hs₃ rfl⟩, ?_, hshape.vacant_eq, hshape.size_eq,
        hshape.arena_eq, hshape.live_iff⟩
      rw [List.append_nil] at he
      simp [he, (segment_first hs).1]
    | cons x xs =>
      have hx : x.1 ≠ slot := by
        intro hc
        apply hslot
        rw [← he, List.map_append]
        exact List.mem_append_right _ (by simp [hc])
      have hh : r₂.hand = some x.1 := hshape.hand_eq.trans hhand
      rw [if_neg (by simp [hh, hx])]
      exact ⟨hclosed, hh, hshape.vacant_eq, hshape.size_eq, hshape.arena_eq, hshape.live_iff⟩

/-- What is taken out is gone, and the others keep their order. If the hand was there, it moves on
to the next entry. -/
theorem Holds.remove {xs ys : List (Nat × α)} {slot : Nat} {value : α}
    (h : r.Holds (xs ++ (slot, value) :: ys)) :
    ∃ r', r.remove slot = .ok (value, r') ∧ r'.Holds (xs ++ ys) := by
  have hmem : ∀ x, x ∈ (xs ++ (slot, value) :: ys).map Prod.fst ↔
      x = slot ∨ x ∈ (xs ++ ys).map Prod.fst := by
    intro x
    simp only [List.map_append, List.map_cons, List.mem_append, List.mem_cons]
    tauto
  obtain ⟨hslot, hd⟩ : slot ∉ (xs ++ ys).map Prod.fst ∧ ((xs ++ ys).map Prod.fst).Nodup := by
    have := h.nodup
    rwa [List.map_append, List.map_cons, List.nodup_middle, List.nodup_cons,
      ← List.map_append] at this
  have hswap : ((ys ++ xs).map Prod.fst).Perm ((xs ++ ys).map Prod.fst) :=
    List.perm_append_comm.map Prod.fst
  obtain ⟨prev, next, hn, hs⟩ := h.around
  have hclear := node_of_clear r slot
  generalize hr₁ : ({ r with slots := r.slots.setIfInBounds slot none } : CircularList α) = r₁
  rw [hr₁] at hclear
  have hs₁ : r₁.Segment slot next (ys ++ xs) prev slot := by
    apply segment_congr _ hs
    intro e he
    rw [hclear, if_neg]
    intro hc
    exact hslot (hswap.mem_iff.mp (hc ▸ List.mem_map.mpr ⟨e, he, rfl⟩))
  have hhand₁ : r₁.hand = (xs ++ (slot, value) :: ys).head?.map Prod.fst := by
    rw [← hr₁]
    exact h.hand_eq
  obtain ⟨r₂, hrun, hclosed, hhand, hvacant, hsize, harena, hlive⟩ :=
    closeUp_of_segment hs₁ (fun hc => hslot (hswap.mem_iff.mp hc)) (hswap.nodup_iff.mpr hd) hhand₁
  have hsize₂ : r₂.size = (xs ++ ys).length + 1 := by
    rw [hsize, ← hr₁, h.size_eq]
    simp only [List.length_append, List.length_cons]
    omega
  have hvacant₂ : r₂.vacant = r.vacant := by rw [hvacant, ← hr₁]
  have harena₂ : r₂.slots.size = r.slots.size := by rw [harena, ← hr₁]; simp
  refine ⟨{ r₂ with vacant := slot :: r₂.vacant, size := (xs ++ ys).length }, ?_,
    ⟨hd, ?_, rfl, ?_, ?_, ?_⟩, hhand⟩
  · rw [remove_eq]
    simp only [hn, hr₁, hrun, hsize₂, bind, Except.bind, pure, Except.pure]
  · obtain ⟨last, first, hs₂⟩ := hclosed
    exact ⟨last, first, segment_of_slots_eq hs₂ rfl⟩
  · intro x hx
    obtain ⟨n, hxn⟩ := (hlive x).mp hx
    rw [hclear] at hxn
    split at hxn
    · contradiction
    · rename_i hne
      exact ((hmem x).mp (h.live ⟨n, hxn⟩)).resolve_left hne
  · rw [hvacant₂]
    exact List.nodup_cons.mpr ⟨fun hc => (h.mem_vacant.mp hc).2 ((hmem slot).mpr (.inl rfl)),
      h.vacant_nodup⟩
  · intro x
    have hx : x ∈ r.vacant ↔ _ := h.mem_vacant
    rw [hmem] at hx
    rw [hvacant₂, harena₂, List.mem_cons, hx]
    constructor
    · rintro (rfl | hx)
      · exact ⟨lt_size_of_node hn, hslot⟩
      · tauto
    · tauto

end TeachingKernel.CircularList
