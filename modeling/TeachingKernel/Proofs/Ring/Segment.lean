import Mathlib.Data.List.Nodup
import TeachingKernel.CircularList

/-!
# Segments of a ring

A segment is a stretch of live slots that are linked both ways. It is described from outside: the
slot before it, its first slot, its last slot and the slot after it. A ring is a segment that is its
own neighbour on both sides, and it stays one wherever it is cut open.

A change of one slot changes only the segments that contain the slot. The two ends of a segment can
be linked anew without a look at its inside, so no proof needs to ask how long a segment is.
-/

namespace TeachingKernel.CircularList

variable {α : Type} {r r' : CircularList α}

def Live (r : CircularList α) (slot : Nat) : Prop := ∃ n, r.node slot = .ok n

structure SameShape (r r' : CircularList α) : Prop where
  hand_eq : r'.hand = r.hand
  vacant_eq : r'.vacant = r.vacant
  size_eq : r'.size = r.size
  arena_eq : r'.slots.size = r.slots.size
  live_iff : ∀ slot, r'.Live slot ↔ r.Live slot

theorem SameShape.trans {r'' : CircularList α} (h : SameShape r r') (h' : SameShape r' r'') :
    SameShape r r'' where
  hand_eq := h'.hand_eq.trans h.hand_eq
  vacant_eq := h'.vacant_eq.trans h.vacant_eq
  size_eq := h'.size_eq.trans h.size_eq
  arena_eq := h'.arena_eq.trans h.arena_eq
  live_iff slot := (h'.live_iff slot).trans (h.live_iff slot)

/-- To change a live node succeeds and changes nothing but that node. -/
theorem modifyNode_of_live {slot : Nat} (h : r.Live slot) (f : Node α → Node α) :
    ∃ r', r.modifyNode slot f = .ok r' ∧ SameShape r r' ∧
      ∀ x, r'.node x = if x = slot then (r.node slot).map f else r.node x := by
  obtain ⟨n, hn⟩ := h
  have hm : r.modifyNode slot f =
      .ok { r with slots := r.slots.setIfInBounds slot (some (f n)) } := by
    simp only [modifyNode, hn, bind, Except.bind, pure, Except.pure]
  have hnode := node_of_modifyNode hm
  refine ⟨_, hm, ⟨rfl, rfl, rfl, Array.size_setIfInBounds, ?_⟩, hnode⟩
  intro x
  unfold Live
  rw [hnode]
  split
  · rename_i hx
    simp [hx, hn, Except.map]
  · rfl

/-- The slots of the entries are linked both ways, hold the entries' values, and stand between the
slots `before` and `after`. -/
def Segment (r : CircularList α) : Nat → Nat → List (Nat × α) → Nat → Nat → Prop
  | before, first, [], last, after => last = before ∧ after = first
  | before, first, (slot, value) :: rest, last, after =>
    first = slot ∧ ∃ next, r.node slot = .ok ⟨value, before, next⟩ ∧
      r.Segment slot next rest last after

theorem segment_append {xs ys : List (Nat × α)} {before first last after : Nat} :
    r.Segment before first (xs ++ ys) last after ↔
      ∃ m n, r.Segment before first xs m n ∧ r.Segment m n ys last after := by
  induction xs generalizing before first with
  | nil =>
    constructor
    · intro h
      exact ⟨before, first, ⟨rfl, rfl⟩, h⟩
    · rintro ⟨m, n, ⟨rfl, rfl⟩, h⟩
      exact h
  | cons e xs ih =>
    obtain ⟨slot, value⟩ := e
    constructor
    · rintro ⟨hf, next, hn, h⟩
      obtain ⟨m, n, hx, hy⟩ := ih.mp h
      exact ⟨m, n, ⟨hf, next, hn, hx⟩, hy⟩
    · rintro ⟨m, n, ⟨hf, next, hn, hx⟩, hy⟩
      exact ⟨hf, next, hn, ih.mpr ⟨m, n, hx, hy⟩⟩

/-- A segment depends on its own slots only. -/
theorem segment_congr {es : List (Nat × α)} {before first last after : Nat}
    (hr : ∀ e ∈ es, r'.node e.1 = r.node e.1) (h : r.Segment before first es last after) :
    r'.Segment before first es last after := by
  induction es generalizing before first with
  | nil => exact h
  | cons e es ih =>
    obtain ⟨slot, value⟩ := e
    obtain ⟨hf, next, hn, hs⟩ := h
    have he := hr (slot, value) (by simp)
    exact ⟨hf, next, he.trans hn, ih (fun e h => hr e (by simp [h])) hs⟩

/-- A segment does not depend on the hand, nor on the counters. -/
theorem segment_of_slots_eq {es : List (Nat × α)} {before first last after : Nat}
    (h : r.Segment before first es last after) (hr : r'.slots = r.slots) :
    r'.Segment before first es last after := by
  apply segment_congr _ h
  intro e _
  simp only [node, hr]

/-- Every slot of a segment holds its value. -/
theorem segment_node {es : List (Nat × α)} {before first last after : Nat}
    (h : r.Segment before first es last after) {slot : Nat} {value : α}
    (he : (slot, value) ∈ es) : ∃ n, r.node slot = .ok n ∧ n.value = value := by
  obtain ⟨xs, ys, rfl⟩ := List.append_of_mem he
  obtain ⟨m, n, _, hs⟩ := segment_append.mp h
  obtain ⟨_, next, hn, _⟩ := hs
  exact ⟨_, hn, rfl⟩

theorem segment_live {es : List (Nat × α)} {before first last after : Nat}
    (h : r.Segment before first es last after) {slot : Nat} (hm : slot ∈ es.map Prod.fst) :
    r.Live slot := by
  obtain ⟨⟨s, value⟩, he, rfl⟩ := List.mem_map.mp hm
  obtain ⟨n, hn, _⟩ := segment_node h he
  exact ⟨n, hn⟩

/-- The first slot of a segment that is not empty, and the link back from it. -/
theorem segment_first {e : Nat × α} {es : List (Nat × α)} {before first last after : Nat}
    (h : r.Segment before first (e :: es) last after) :
    first = e.1 ∧ ∃ next, r.node first = .ok ⟨e.2, before, next⟩ := by
  obtain ⟨hf, next, hn, _⟩ := h
  subst hf
  exact ⟨rfl, next, hn⟩

/-- The last slot of a segment that is not empty, and the link on from it. -/
theorem segment_last {e : Nat × α} {es : List (Nat × α)} {before first last after : Nat}
    (h : r.Segment before first (es ++ [e]) last after) :
    last = e.1 ∧ ∃ prev, r.node last = .ok ⟨e.2, prev, after⟩ := by
  obtain ⟨m, n, _, hs⟩ := segment_append.mp h
  obtain ⟨hf, next, hn, hl, ha⟩ := hs
  subst hl ha
  exact ⟨rfl, m, hn⟩

theorem segment_last_mem {es : List (Nat × α)} {before first last after : Nat}
    (h : r.Segment before first es last after) (he : es ≠ []) : last ∈ es.map Prod.fst := by
  obtain ⟨xs, e, rfl⟩ := (List.eq_nil_or_concat' es).resolve_left he
  have hl := (segment_last h).1
  simp [hl]

theorem segment_first_mem {es : List (Nat × α)} {before first last after : Nat}
    (h : r.Segment before first es last after) (he : es ≠ []) : first ∈ es.map Prod.fst := by
  cases es with
  | nil => contradiction
  | cons e es => simp [(segment_first h).1]

/-! ## Linking the ends anew -/

/-- The link back from the first slot may be changed. -/
theorem segment_setPrev {es : List (Nat × α)} {before first last after : Nat}
    (h : r.Segment before first es last after) (he : es ≠ []) (hd : (es.map Prod.fst).Nodup)
    (b : Nat) (hr : ∀ x, r'.node x =
      if x = first then (r.node first).map fun n => { n with prev := b } else r.node x) :
    r'.Segment b first es last after := by
  cases es with
  | nil => contradiction
  | cons e es =>
    obtain ⟨slot, value⟩ := e
    obtain ⟨rfl, next, hn, hs⟩ := h
    have hf : r'.node first = .ok ⟨value, b, next⟩ := by
      rw [hr, if_pos rfl, hn]
      rfl
    refine ⟨rfl, next, hf, segment_congr ?_ hs⟩
    intro e hm
    have hne : e.1 ≠ first := by
      intro hc
      have := (List.nodup_cons.mp hd).1
      exact this (List.mem_map.mpr ⟨e, hm, hc⟩)
    rw [hr, if_neg hne]

/-- The link on from the last slot may be changed. -/
theorem segment_setNext {es : List (Nat × α)} {before first last after : Nat}
    (h : r.Segment before first es last after) (he : es ≠ []) (hd : (es.map Prod.fst).Nodup)
    (a : Nat) (hr : ∀ x, r'.node x =
      if x = last then (r.node last).map fun n => { n with next := a } else r.node x) :
    r'.Segment before first es last a := by
  obtain ⟨xs, e, rfl⟩ := (List.eq_nil_or_concat' es).resolve_left he
  obtain ⟨hl, prev, hn⟩ := segment_last h
  subst hl
  obtain ⟨m, n, hx, hf, next, hne, hend⟩ := segment_append.mp h
  have hprev : prev = m := by
    rw [hn] at hne
    cases hne
    rfl
  subst hprev
  have hlast : r'.node e.1 = .ok ⟨e.2, prev, a⟩ := by
    rw [hr, if_pos rfl, hn]
    rfl
  have hxs : r'.Segment before first xs prev n := by
    apply segment_congr _ hx
    intro x hm
    have hne : x.1 ≠ e.1 := by
      intro hc
      rw [List.map_append, List.nodup_append] at hd
      exact hd.2.2 x.1 (List.mem_map.mpr ⟨x, hm, rfl⟩) e.1 (by simp) hc
    rw [hr, if_neg hne]
  exact segment_append.mpr ⟨prev, n, hxs, hf, a, hlast, rfl, rfl⟩

/-- The value in a slot may be changed. -/
theorem segment_setValue {xs ys : List (Nat × α)} {slot : Nat} {value : α}
    {before first last after : Nat}
    (h : r.Segment before first (xs ++ (slot, value) :: ys) last after)
    (hd : ((xs ++ (slot, value) :: ys).map Prod.fst).Nodup) (f : α → α)
    (hr : ∀ x, r'.node x =
      if x = slot then (r.node slot).map fun n => { n with value := f n.value } else r.node x) :
    r'.Segment before first (xs ++ (slot, f value) :: ys) last after := by
  obtain ⟨m, n, hx, hf, next, hn, hy⟩ := segment_append.mp h
  have hslot : r'.node slot = .ok ⟨f value, m, next⟩ := by
    rw [hr, if_pos rfl, hn]
    rfl
  have hother : ∀ e ∈ xs ++ ys, r'.node e.1 = r.node e.1 := by
    intro e hm
    have hne : e.1 ≠ slot := by
      intro hc
      rw [List.map_append, List.map_cons, List.nodup_middle, List.nodup_cons] at hd
      apply hd.1
      rw [← List.map_append]
      exact List.mem_map.mpr ⟨e, hm, hc⟩
    rw [hr, if_neg hne]
  refine segment_append.mpr ⟨m, n, segment_congr ?_ hx, hf, next, hslot, segment_congr ?_ hy⟩
  · intro e hm
    exact hother e (List.mem_append_left _ hm)
  · intro e hm
    exact hother e (List.mem_append_right _ hm)

/-- Both ends of a segment may be linked anew, the last slot first. -/
theorem relink {es : List (Nat × α)} {before first last after : Nat}
    (h : r.Segment before first es last after) (he : es ≠ []) (hd : (es.map Prod.fst).Nodup)
    (b a : Nat) :
    ∃ r₁ r₂, r.modifyNode last (fun n => { n with next := a }) = .ok r₁ ∧
      r₁.modifyNode first (fun n => { n with prev := b }) = .ok r₂ ∧ SameShape r r₂ ∧
      r₂.Segment b first es last a ∧ ∀ x, x ∉ es.map Prod.fst → r₂.node x = r.node x := by
  have hlast := segment_last_mem h he
  have hfirst := segment_first_mem h he
  obtain ⟨r₁, hm₁, hshape₁, hnode₁⟩ :=
    modifyNode_of_live (segment_live h hlast) fun n => { n with next := a }
  have hs₁ := segment_setNext h he hd a hnode₁
  obtain ⟨r₂, hm₂, hshape₂, hnode₂⟩ :=
    modifyNode_of_live (segment_live hs₁ hfirst) fun n => { n with prev := b }
  have hs₂ := segment_setPrev hs₁ he hd b hnode₂
  refine ⟨r₁, r₂, hm₁, hm₂, hshape₁.trans hshape₂, hs₂, ?_⟩
  intro x hx
  have hxf : x ≠ first := fun hc => hx (hc ▸ hfirst)
  have hxl : x ≠ last := fun hc => hx (hc ▸ hlast)
  rw [hnode₂, if_neg hxf, hnode₁, if_neg hxl]

/-! ## Walking along a segment -/

/-- A walk of as many steps as the segment has slots meets exactly the segment. -/
theorem walk_of_segment {es : List (Nat × α)} {before first last after : Nat}
    (h : r.Segment before first es last after) : r.walk es.length (some first) = .ok es := by
  induction es generalizing before first with
  | nil => rfl
  | cons e es ih =>
    obtain ⟨slot, value⟩ := e
    obtain ⟨rfl, next, hn, hs⟩ := h
    simp only [List.length_cons, walk, hn, bind, Except.bind, ih hs, pure, Except.pure]

/-- The slot that `count` links on from a slot lead to. -/
def follow (r : CircularList α) : Nat → Nat → Checked Nat
  | 0, slot => return slot
  | count + 1, slot => do r.follow count (← r.node slot).next

/-- So many links on from its first slot, a segment has the slot of that place, and after all its
slots the one that comes after it. -/
theorem follow_of_segment {xs ys : List (Nat × α)} {before first last after : Nat}
    (h : r.Segment before first (xs ++ ys) last after) :
    ∃ m n, r.follow xs.length first = .ok n ∧ r.Segment m n ys last after := by
  induction xs generalizing before first with
  | nil => exact ⟨before, first, rfl, h⟩
  | cons e xs ih =>
    obtain ⟨slot, value⟩ := e
    obtain ⟨rfl, next, hn, hs⟩ := h
    obtain ⟨m, n, hfollow, hy⟩ := ih hs
    refine ⟨m, n, ?_, hy⟩
    simp only [List.length_cons, follow, hn, bind, Except.bind, hfollow]

/-! ## Rings -/

/-- A segment that is its own neighbour on both sides may be cut open elsewhere. -/
theorem closed_rotate {xs ys : List (Nat × α)}
    (h : ∃ last first, r.Segment last first (xs ++ ys) last first) :
    ∃ last first, r.Segment last first (ys ++ xs) last first := by
  obtain ⟨last, first, hs⟩ := h
  obtain ⟨m, n, hx, hy⟩ := segment_append.mp hs
  exact ⟨m, n, segment_append.mpr ⟨last, first, hy, hx⟩⟩

/-- The live slots of the ring are those of the entries, each with its value, linked in this order
in a circle. Where the circle begins is left open. -/
structure Cycle (r : CircularList α) (es : List (Nat × α)) : Prop where
  nodup : (es.map Prod.fst).Nodup
  closed : ∃ last first, r.Segment last first es last first
  size_eq : r.size = es.length
  /-- No slot but those of the entries is live. -/
  live : ∀ {slot}, r.Live slot → slot ∈ es.map Prod.fst
  vacant_nodup : r.vacant.Nodup
  /-- The vacant slots are those of the arena that are not live. -/
  mem_vacant : ∀ {slot}, slot ∈ r.vacant ↔ slot < r.slots.size ∧ slot ∉ es.map Prod.fst

/-- The ring holds exactly these entries, in this order from the hand on. -/
structure Holds (r : CircularList α) (es : List (Nat × α)) : Prop extends Cycle r es where
  hand_eq : r.hand = es.head?.map Prod.fst

end TeachingKernel.CircularList
