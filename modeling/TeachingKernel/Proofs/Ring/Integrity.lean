import TeachingKernel.Proofs.Ring.Operations

/-!
# The integrity of a ring

What it means for a ring to be sound, told by its links alone: from the hand they lead through every
live slot and back. A ring that holds some list of entries is sound, and to read it yields exactly
what its live slots hold.
-/

namespace TeachingKernel.CircularList

variable {α : Type} {r : CircularList α} {es : List (Nat × α)}

/-- The links of a ring close it to one circle through its live slots, and its other slots are
vacant. -/
structure Intact (r : CircularList α) : Prop where
  hand_isSome : r.hand.isSome = true ↔ 0 < r.size
  hand_live : ∀ hand, r.hand = some hand → r.Live hand
  /-- The links from the hand on visit every live slot, -/
  visited : ∀ hand, r.hand = some hand →
    ∀ slot, r.Live slot ↔ ∃ i < r.size, r.follow i hand = .ok slot
  /-- each of them once, -/
  once : ∀ hand, r.hand = some hand →
    ∀ i < r.size, ∀ j < r.size, r.follow i hand = r.follow j hand → i = j
  /-- and then return to the hand. -/
  returns : ∀ hand, r.hand = some hand → r.follow r.size hand = .ok hand
  prev_next : ∀ slot n, r.node slot = .ok n → ∃ m, r.node n.next = .ok m ∧ m.prev = slot
  next_prev : ∀ slot n, r.node slot = .ok n → ∃ m, r.node n.prev = .ok m ∧ m.next = slot
  vacant_nodup : r.vacant.Nodup
  mem_vacant : ∀ slot, slot ∈ r.vacant ↔ slot < r.slots.size ∧ ¬ r.Live slot

namespace Holds

/-- So many links on from the hand comes the entry at this place. -/
theorem follow_hand {xs ys : List (Nat × α)} {slot hand : Nat} {value : α}
    (h : r.Holds (xs ++ (slot, value) :: ys)) (hh : r.hand = some hand) :
    r.follow xs.length hand = .ok slot := by
  obtain ⟨last, first, hs⟩ := h.closed
  have hfirst : first = hand := by
    have hhead := hh.symm.trans h.hand_eq
    cases xs with
    | nil =>
      obtain rfl : hand = slot := by simpa using hhead
      exact (segment_first hs).1
    | cons x xs =>
      obtain rfl : hand = x.1 := by simpa using hhead
      exact (segment_first hs).1
  obtain ⟨m, n, hfollow, hy⟩ := follow_of_segment hs
  obtain rfl : n = slot := (segment_first hy).1
  rw [← hfirst]
  exact hfollow

/-- After as many links as there are entries the hand comes again. -/
theorem follow_size {hand : Nat} (h : r.Holds es) (hh : r.hand = some hand) :
    r.follow r.size hand = .ok hand := by
  obtain ⟨last, first, hs⟩ := h.closed
  cases es with
  | nil => simp [h.hand_eq] at hh
  | cons e es =>
    have hhead := hh.symm.trans h.hand_eq
    obtain rfl : hand = e.1 := by simpa using hhead
    obtain rfl : first = e.1 := (segment_first hs).1
    have hs' : r.Segment last e.1 ((e :: es) ++ []) last e.1 := by rwa [List.append_nil]
    obtain ⟨m, n, hfollow, hy⟩ := follow_of_segment hs'
    rw [h.size_eq, hfollow, hy.2]

theorem follow_getElem {hand i : Nat} (h : r.Holds es) (hh : r.hand = some hand)
    (hi : i < es.length) : r.follow i hand = .ok es[i].1 := by
  have hsplit : es = es.take i ++ (es[i].1, es[i].2) :: es.drop (i + 1) := by
    rw [← List.drop_eq_getElem_cons hi, List.take_append_drop]
  have h' := h
  rw [hsplit] at h'
  have hf := h'.follow_hand hh
  rwa [List.length_take_of_le (Nat.le_of_lt hi)] at hf

/-- A neighbour of a live slot has the slot for its neighbour. -/
theorem neighbours {slot : Nat} {n : Node α} (h : r.Holds es) (hn : r.node slot = .ok n) :
    (∃ m, r.node n.next = .ok m ∧ m.prev = slot) ∧ ∃ m, r.node n.prev = .ok m ∧ m.next = slot := by
  obtain ⟨⟨s, value⟩, he, rfl⟩ := List.mem_map.mp (h.live ⟨n, hn⟩)
  obtain ⟨xs, ys, rfl⟩ := List.append_of_mem he
  obtain ⟨prev, next, hnode, hs⟩ := h.around
  rw [hn] at hnode
  cases hnode
  rcases List.eq_nil_or_concat' (ys ++ xs) with hnil | ⟨es, e, hlast⟩
  · -- the slot is its own neighbour
    rw [hnil] at hs
    obtain ⟨rfl, rfl⟩ := hs
    exact ⟨⟨_, hn, rfl⟩, ⟨_, hn, rfl⟩⟩
  · have hl := hs
    rw [hlast] at hl
    obtain ⟨_, before, hprev⟩ := segment_last hl
    refine ⟨?_, _, hprev, rfl⟩
    cases hfirst : ys ++ xs with
    | nil => simp [hlast] at hfirst
    | cons e' es' =>
      rw [hfirst] at hs
      obtain ⟨_, after, hnext⟩ := segment_first hs
      exact ⟨_, hnext, rfl⟩

/-- A ring that holds a list of entries is sound. -/
theorem intact (h : r.Holds es) : r.Intact where
  hand_isSome := by
    rw [h.hand_eq, h.size_eq]
    cases es <;> simp
  hand_live hand hh := by
    rw [h.hand_eq, Option.map_eq_some_iff] at hh
    obtain ⟨e, he, rfl⟩ := hh
    exact h.live_iff.mpr (List.mem_map_of_mem (List.mem_of_mem_head? he))
  visited hand hh slot := by
    rw [h.live_iff, h.size_eq]
    constructor
    · intro hm
      obtain ⟨e, he, rfl⟩ := List.mem_map.mp hm
      obtain ⟨i, hi, rfl⟩ := List.mem_iff_getElem.mp he
      exact ⟨i, hi, h.follow_getElem hh hi⟩
    · rintro ⟨i, hi, hf⟩
      rw [h.follow_getElem hh hi] at hf
      cases hf
      exact List.mem_map_of_mem (List.getElem_mem hi)
  once hand hh i hi j hj hf := by
    rw [h.size_eq] at hi hj
    rw [h.follow_getElem hh hi, h.follow_getElem hh hj, Except.ok.injEq] at hf
    have hi' : i < (es.map Prod.fst).length := by simpa using hi
    have hj' : j < (es.map Prod.fst).length := by simpa using hj
    have he : (es.map Prod.fst)[i] = (es.map Prod.fst)[j] := by simpa using hf
    exact (List.Nodup.getElem_inj_iff h.nodup).mp he
  returns _ hh := h.follow_size hh
  prev_next _ _ hn := (h.neighbours hn).1
  next_prev _ _ hn := (h.neighbours hn).2
  vacant_nodup := h.vacant_nodup
  mem_vacant slot := by
    rw [h.live_iff]
    exact h.mem_vacant

/-! ## What is read -/

/-- The entries of a ring are what its live slots hold. -/
theorem mem_iff {slot : Nat} {value : α} (h : r.Holds es) :
    (slot, value) ∈ es ↔ ∃ n, r.node slot = .ok n ∧ n.value = value := by
  constructor
  · intro hm
    exact h.node_of_mem hm
  · rintro ⟨n, hn, rfl⟩
    obtain ⟨⟨s, value⟩, he, rfl⟩ := List.mem_map.mp (h.live ⟨n, hn⟩)
    obtain ⟨m, hm, rfl⟩ := h.node_of_mem he
    rw [hn] at hm
    cases hm
    exact he

/-- A search finds a value that passes the test, if there is one in any live slot. -/
theorem find?_spec (h : r.Holds es) (test : α → Bool) :
    ∃ found, r.find? test = .ok found ∧
      (found = none ↔ ∀ slot n, r.node slot = .ok n → test n.value = false) ∧
      ∀ slot, found = some slot → ∃ n, r.node slot = .ok n ∧ test n.value = true := by
  obtain ⟨found, hf⟩ : ∃ found, r.find? test = .ok found := ⟨_, h.find? test⟩
  have hsome : ∀ slot, found = some slot → ∃ n, r.node slot = .ok n ∧ test n.value = true := by
    rintro slot rfl
    obtain ⟨xs, value, ys, rfl, ht⟩ := h.find?_some hf
    obtain ⟨n, hn, rfl⟩ := h.node_of_mem (List.mem_append_right xs List.mem_cons_self)
    exact ⟨n, hn, ht⟩
  refine ⟨found, hf, ⟨?_, ?_⟩, hsome⟩
  · rintro rfl slot n hn
    exact h.find?_none hf (slot, n.value) (h.mem_iff.mpr ⟨n, hn, rfl⟩)
  · intro hall
    cases found with
    | none => rfl
    | some slot =>
      obtain ⟨n, hn, ht⟩ := hsome slot rfl
      simp [hall slot n hn] at ht

end Holds

end TeachingKernel.CircularList
