import TeachingKernel.Defect

/-!
# Circular lists

A ring keeps values in circular order in the slots of an arena. Each live slot names its two
neighbours, slots that were vacated are used again before the arena grows, and a hand marks the
slot where the circle is considered to begin. A new value goes in just behind the hand, which is
the end of the order that begins at the hand.

`toList` is the plain reading of a ring: its values from the hand on. To follow a slot that holds
nothing is a defect.

Main statements: to change the value in a slot changes no other slot, and moves no slot.
-/

namespace TeachingKernel

structure CircularList.Node (α : Type) where
  value : α
  prev : Nat
  next : Nat

structure CircularList (α : Type) where
  slots : Array (Option (CircularList.Node α)) := #[]
  /-- The vacated slots, the last one first. -/
  vacant : List Nat := []
  /-- The slot where the circle begins. -/
  hand : Option Nat := none
  /-- How many values the ring holds. -/
  size : Nat := 0

namespace CircularList

variable {α : Type}

def empty : CircularList α := {}

instance : Inhabited (CircularList α) := ⟨empty⟩

variable (r : CircularList α)

def isEmpty : Bool := r.size == 0

def node (slot : Nat) : Checked (Node α) :=
  match r.slots[slot]? with
  | some (some n) => .ok n
  | _ => .error (.vacantSlot slot)

def modifyNode (slot : Nat) (f : Node α → Node α) : Checked (CircularList α) := do
  let n ← r.node slot
  return { r with slots := r.slots.setIfInBounds slot (some (f n)) }

/-- Changes the value in a live slot and leaves its neighbours as they are. -/
def modify (slot : Nat) (f : α → α) : Checked (CircularList α) :=
  r.modifyNode slot fun n => { n with value := f n.value }

/-- Takes a vacated slot, or else a new one at the end of the arena. -/
def reserve : Nat × CircularList α :=
  match r.vacant with
  | slot :: rest => (slot, { r with vacant := rest })
  | [] => (r.slots.size, { r with slots := r.slots.push none })

/-- Links a slot in just behind the hand. -/
def link (slot : Nat) : Checked (CircularList α) :=
  match r.hand with
  | none => do
    let r ← r.modifyNode slot fun n => { n with prev := slot, next := slot }
    return { r with hand := some slot, size := r.size + 1 }
  | some head => do
    let tail := (← r.node head).prev
    let r ← r.modifyNode slot fun n => { n with prev := tail, next := head }
    let r ← r.modifyNode tail fun n => { n with next := slot }
    let r ← r.modifyNode head fun n => { n with prev := slot }
    return { r with size := r.size + 1 }

/-- Puts a value in at the end of the order that begins at the hand. -/
def insert (value : α) : Checked (CircularList α) :=
  let (slot, r) := r.reserve
  let r := { r with slots := r.slots.setIfInBounds slot (some ⟨value, slot, slot⟩) }
  r.link slot

/-- Takes the value out of a slot. A hand that pointed there moves on to the next one. -/
def remove (slot : Nat) : Checked (α × CircularList α) := do
  let n ← r.node slot
  let r := { r with slots := r.slots.setIfInBounds slot none }
  let r ←
    if n.next = slot then pure { r with hand := none }
    else do
      let r ← r.modifyNode n.prev fun m => { m with next := n.next }
      let r ← r.modifyNode n.next fun m => { m with prev := n.prev }
      pure (if r.hand = some slot then { r with hand := some n.next } else r)
  match r.size with
  | 0 => throw .countBelowZero
  | size + 1 => return (n.value, { r with vacant := slot :: r.vacant, size })

/-- The next `count` slots and their values, from a given slot on. -/
def walk : Nat → Option Nat → Checked (List (Nat × α))
  | 0, _ => return []
  | _ + 1, none => return []
  | count + 1, some slot => do
    let n ← r.node slot
    let rest ← walk count (some n.next)
    return (slot, n.value) :: rest

/-- The live slots and their values, from the hand on. -/
def entries : Checked (List (Nat × α)) := r.walk r.size r.hand

def toList : Checked (List α) := do
  return (← r.entries).map (·.2)

def find? (test : α → Bool) : Checked (Option Nat) := do
  return ((← r.entries).find? fun (_, value) => test value).map (·.1)

def handValue? : Checked (Option α) :=
  match r.hand with
  | none => return none
  | some slot => do return some (← r.node slot).value

/-! ## Each change through `node` -/

theorem node_eq_ok_iff {slot : Nat} {n : Node α} :
    r.node slot = .ok n ↔ r.slots[slot]? = some (some n) := by
  unfold node
  split <;> simp_all

/-- A live slot that is changed holds the changed value, and no other slot is affected. -/
theorem node_of_modifyNode {r r' : CircularList α} {slot : Nat} {f : Node α → Node α}
    (h : r.modifyNode slot f = .ok r') (x : Nat) :
    r'.node x = if x = slot then (r.node slot).map f else r.node x := by
  unfold modifyNode at h
  cases hn : r.node slot with
  | error d => simp [hn, bind, Except.bind] at h
  | ok n =>
    simp only [hn, bind, Except.bind, pure, Except.pure, Except.ok.injEq] at h
    subst h
    have hlt : slot < r.slots.size :=
      (Array.getElem?_eq_some_iff.mp ((r.node_eq_ok_iff).mp hn)).1
    by_cases hx : x = slot
    · subst hx
      simp [node, hlt, Except.map]
    · simp [node, hx, Array.getElem?_setIfInBounds_ne (Ne.symm hx)]

end CircularList

end TeachingKernel
