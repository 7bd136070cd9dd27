import TeachingKernel.FrameLedger

/-!
# Choosing a victim

When the pool is empty a lent frame has to make room. The hand goes around the ring, at most
twice. A frame that one of its holders used since the hand last came by is passed over, its marks
are cleared and it counts as used now. A frame that was chosen before and not used since is passed
over too. Of the others the policy may prefer some; if it finds none to its taste, the first of
the others is the victim, and if there is none at all, the frame under the hand. In the end the
hand stands behind the victim.

Nothing is evicted here: to unmap the victim and to write it out is up to the caller.
-/

namespace TeachingKernel

variable {σ : Type} [UseBits σ]

/-- Clears the accessed marks of all holders, and tells whether there was one. -/
def takeAccessed : List Holder → σ → Bool × σ
  | [], bits => (false, bits)
  | h :: holders, bits =>
    if UseBits.isAccessed bits h then
      (true, (takeAccessed holders (UseBits.clearAccessed bits h)).2)
    else takeAccessed holders bits

/-- The policy takes a frame that was not used, rather than to look further. -/
def Policy.prefers (policy : Policy) (epoch : Nat) (bits : σ) (loan : Loan) : Bool :=
  match policy with
  | .clock => true
  | .workingSet window =>
    window < epoch - loan.lastUsed && !loan.holders.any (UseBits.isDirty bits)

/-- The loan of a frame that was just seen used. -/
def Loan.refreshed (loan : Loan) (epoch : Nat) : Loan :=
  { loan with lastUsed := epoch, chosen := false }

namespace FrameLedger

/-- Goes on for `count` slots from `slot` on. Answers with the victim, which is `fallback` if the
policy prefers none of the frames on the way, and `fallback` becomes the first frame that could be
one. -/
def scan (policy : Policy) (epoch : Nat) :
    Nat → Nat → Option Nat → CircularList Loan → σ → Checked (Option Nat × CircularList Loan × σ)
  | 0, _, fallback, loans, bits => return (fallback, loans, bits)
  | count + 1, slot, fallback, loans, bits => do
    let node ← loans.node slot
    let (isHot, bits) := takeAccessed node.value.holders bits
    if isHot then
      let loans ← loans.modify slot (·.refreshed epoch)
      scan policy epoch count node.next fallback loans bits
    else if node.value.chosen then
      scan policy epoch count node.next fallback loans bits
    else if policy.prefers epoch bits node.value then
      return (some slot, loans, bits)
    else
      scan policy epoch count node.next (fallback.or (some slot)) loans bits

/-- Chooses the frame to reclaim next; none if no frame is lent. -/
def pickVictim (l : FrameLedger) (bits : σ) :
    Checked (Option PhysAddr × FrameLedger × σ) := do
  match l.loans.hand with
  | none => return (none, l, bits)
  | some start =>
    let (found, loans, bits) ←
      scan l.policy l.epoch (2 * l.loans.size) start none l.loans bits
    let victim := found.getD start
    let loans ← loans.modify victim fun loan => { loan with chosen := true }
    let node ← loans.node victim
    return (some node.value.frame,
      { l with
        loans := { loans with hand := some node.next }
        stats := { l.stats with victimScans := l.stats.victimScans + 1 } },
      bits)

/-- Lends a zeroed frame to a holder. If the pool is empty, a victim is chosen and named in the
refusal. -/
def lend (l : FrameLedger) (h : Holder) (bits : σ) :
    Checked (Except FrameError PhysAddr × FrameLedger × σ) := do
  if (← l.slotHeld? h).isSome then return (.error (.duplicateReference h), l, bits)
  match l.pool.acquire with
  | some (frame, pool) =>
    let l ← { l with pool }.enter frame h
    return (.ok frame, l, bits)
  | none =>
    let (victim, l, bits) ← l.pickVictim bits
    return (.error (.outOfFrames victim), l, bits)

end FrameLedger

end TeachingKernel
