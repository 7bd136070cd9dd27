import TeachingKernel.Proofs.Kernel.Copies

/-!
# Decoding

A process lays a call out at its stack pointer: the number, then the argument words, some of which
point to texts or buffers. Its private memory alone decides whether that can be decoded. To decode
reads the call, checks what its arguments point to and changes nothing; it fails exactly if the call
is malformed, and never because an address overflows.
-/

namespace TeachingKernel

namespace PrivateMemory

variable (m : PrivateMemory) {sp : Nat}

/-- The call at an address with its argument words, and zeros for those that it does not take. -/
def rawCall? (sp : Nat) : Option RawCall := do
  let call ← Call.ofNumber? (← m.word? sp)
  let args ← (List.range call.arity).mapM fun slot => m.word? (sp + wordSize * (slot + 1))
  return ⟨call, args.getD 0 0, args.getD 1 0, args.getD 2 0⟩

/-- An argument of the call points to memory that is not there, or that may not be written to. -/
def Denies (c : RawCall) : Prop :=
  match c.call with
  | .exec | .create | .remove | .open | .chdir | .mkdir =>
    m.LacksText c.first.toNat (pageSize - 1)
  | .read => ∃ i < c.third.toNat, m.isWritable (c.second.toNat + i) = false
  | .write => ∃ i < c.third.toNat, m.byte? (c.second.toNat + i) = none
  | .readdir => ∃ i < longestEntryName + 1, m.isWritable (c.second.toNat + i) = false
  | _ => False

inductive Malformed (sp : Nat) : Prop
  /-- A byte of the number cannot be read, the first being the one at the stack pointer. -/
  | number {i : Nat} (hi : i < wordSize) (h : m.byte? (sp + i) = none)
  | unknown {number : UInt32} (hn : m.word? sp = some number) (h : Call.ofNumber? number = none)
  /-- A byte of an argument word cannot be read. -/
  | argument {number : UInt32} {call : Call} {slot i : Nat} (hn : m.word? sp = some number)
      (hc : Call.ofNumber? number = some call) (hslot : slot < call.arity) (hi : i < wordSize)
      (h : m.byte? (sp + wordSize * (slot + 1) + i) = none)
  | pointer {c : RawCall} (hc : m.rawCall? sp = some c) (h : m.Denies c)

variable {m}

theorem mapM_eq_none_iff {α β : Type} {f : α → Option β} {as : List α} :
    as.mapM f = none ↔ ∃ a ∈ as, f a = none := by
  induction as with
  | nil => simp
  | cons a as ih =>
    cases hf : f a with
    | none => simp [List.mapM_cons, hf]
    | some b => cases hm : as.mapM f <;> simp_all [List.mapM_cons]

/-- What is at the stack pointer is malformed if it is no call, or a call that is denied. -/
theorem malformed_iff :
    m.Malformed sp ↔ m.rawCall? sp = none ∨ ∃ c, m.rawCall? sp = some c ∧ m.Denies c := by
  constructor
  · intro h
    cases h with
    | number hi h =>
      have hn : m.word? sp = none := m.word?_eq_none_iff.mpr ⟨_, hi, h⟩
      exact .inl (by simp [rawCall?, hn])
    | unknown hn h => exact .inl (by simp [rawCall?, hn, h])
    | @argument _ call slot _ hn hc hslot hi h =>
      have hargs : (List.range call.arity).mapM (fun slot => m.word? (sp + wordSize * (slot + 1))) =
          none :=
        mapM_eq_none_iff.mpr ⟨slot, List.mem_range.mpr hslot, m.word?_eq_none_iff.mpr ⟨_, hi, h⟩⟩
      exact .inl (by simp [rawCall?, hn, hc, hargs])
    | pointer hc h => exact .inr ⟨_, hc, h⟩
  · rintro (h | ⟨c, hc, h⟩)
    · cases hn : m.word? sp with
      | none =>
        obtain ⟨i, hi, hbyte⟩ := m.word?_eq_none_iff.mp hn
        exact .number hi hbyte
      | some number =>
        cases hc : Call.ofNumber? number with
        | none => exact .unknown hn hc
        | some call =>
          have hargs : (List.range call.arity).mapM
              (fun slot => m.word? (sp + wordSize * (slot + 1))) = none := by
            rw [Option.eq_none_iff_forall_ne_some]
            intro args hargs
            simp [rawCall?, hn, hc, hargs] at h
          obtain ⟨slot, hslot, hword⟩ := mapM_eq_none_iff.mp hargs
          obtain ⟨i, hi, hbyte⟩ := m.word?_eq_none_iff.mp hword
          exact .argument hn hc (List.mem_range.mp hslot) hi hbyte
    · exact .pointer hc h

/-- The buffers of the request can be used as it asks. -/
def Admits (m : PrivateMemory) : Request → Prop
  | .read _ buffer length => ∀ i < length, m.isWritable (buffer.toNat + i) = true
  | .write _ buffer length => ∀ i < length, (m.byte? (buffer.toNat + i)).isSome = true
  | _ => True

/-- Stores take no buffer away. -/
theorem Stored.admits {m' : PrivateMemory} (h : m.Stored m') {request : Request}
    (ha : m.Admits request) : m'.Admits request := by
  cases request with
  | read _ buffer length => exact fun i hi => (h.isWritable_eq _).trans (ha i hi)
  | write _ buffer length => exact fun i hi => (h.isSome_byte?_eq _).trans (ha i hi)
  | _ => trivial

end PrivateMemory

/-! ## Answers that come from user memory -/

namespace TrapChecked

variable {α β : Type} {wrong wrong' : Prop} {Q : α → Prop} {Q' : β → Prop}

-- An answer comes if nothing is wrong, and then it is as told; if something is wrong there is an
-- error, but never an overflow.
inductive Settles (x : TrapChecked α) (wrong : Prop) (Q : α → Prop) : Prop
  | fails {error : TrapError} (hrun : x.run = .ok (.error error))
      (he : error ≠ .badAddress .overflow) (h : wrong)
  | answers {a : α} (hrun : x.run = .ok (.ok a)) (h : ¬ wrong) (ha : Q a)

namespace Settles

theorem pure {a : α} (h : ¬ wrong) (ha : Q a) : Settles (pure a) wrong Q := .answers rfl h ha

theorem throw {error : TrapError} (he : error ≠ .badAddress .overflow) (h : wrong) :
    Settles (throw error) wrong Q := .fails rfl he h

theorem bind {x : TrapChecked α} {f : α → TrapChecked β} (hx : x.Settles wrong Q)
    (hwrong : wrong → wrong') (hf : ∀ a, ¬ wrong → Q a → (f a).Settles wrong' Q') :
    (x >>= f).Settles wrong' Q' := by
  cases hx with
  | fails hrun he h =>
    refine .fails ?_ he (hwrong h)
    rw [ExceptT.run_bind, hrun]
    rfl
  | @answers a hrun h ha =>
    have hb : (x >>= f).run = (f a).run := by
      rw [ExceptT.run_bind, hrun]
      rfl
    cases hf a h ha with
    | fails hrun' he h' => exact .fails (hb.trans hrun') he h'
    | answers hrun' h' hb' => exact .answers (hb.trans hrun') h' hb'

/-- Each answer of a list is what it should be. -/
theorem mapM {f : α → TrapChecked β} {g : α → Option β} {as : List α}
    (h : ∀ a ∈ as, (f a).Settles (g a = none) (g a = some ·)) :
    (as.mapM f).Settles (as.mapM g = none) (as.mapM g = some ·) := by
  induction as with
  | nil => exact .pure nofun rfl
  | cons a as ih =>
    rw [List.mapM_cons, List.mapM_cons]
    refine (h a (.head _)).bind (fun hn => by rw [hn]; rfl) fun b _ hb => ?_
    refine (ih fun a ha => h a (.tail _ ha)).bind (fun hn => by rw [hb, hn]; rfl) fun bs _ hbs => ?_
    rw [hb, hbs]
    exact .pure nofun rfl

theorem ofFault {answer : Except Fault α} (hover : answer ≠ .error .overflow)
    (h : (∃ fault, answer = .error fault) ↔ wrong) (hQ : ∀ a, answer = .ok a → Q a) :
    (ofFault answer).Settles wrong Q := by
  cases answer with
  | error fault =>
    refine .fails rfl (fun hc => hover ?_) (h.mp ⟨fault, rfl⟩)
    rw [TrapError.badAddress.inj hc]
  | ok a => exact .answers rfl (fun hc => by simp [← h] at hc) (hQ a rfl)

theorem ofCopy {answer : Except Fault α} (h : (TrapChecked.ofFault answer).Settles wrong Q) :
    (ofCopy (.ok answer)).Settles wrong Q := h

end Settles

end TrapChecked

open TrapChecked

theorem toNat_wordAddress (w : UInt32) : (wordAddress w).toNat = w.toNat := by
  have := w.toNat_lt
  simp only [wordAddress, Address.ofNat, addressBound]
  omega

namespace UserMemory

variable {m : UserMemory} {va sp : VirtAddr}

theorem settles_readWord (hw : m.WholeFrames) (va : VirtAddr) :
    (ofCopy (m.readWord va)).Settles (m.contents.word? va.toNat = none)
      (m.contents.word? va.toNat = some ·) := by
  obtain ⟨answer, hrun, hover, hanswer⟩ := readWord_spec hw va
  rw [hrun, ← hanswer]
  refine .ofCopy (.ofFault hover ?_ ?_)
  · cases answer <;> simp [Except.toOption]
  · rintro a rfl
    rfl

/-- Behind a user address there is room for all argument words. -/
theorem settles_readArg (hw : m.WholeFrames) (hsp : sp.toNat < userTop) {slot : Nat}
    (hslot : slot < 3) :
    (m.readArg sp slot).Settles (m.contents.word? (sp.toNat + wordSize * (slot + 1)) = none)
      (m.contents.word? (sp.toNat + wordSize * (slot + 1)) = some ·) := by
  have hbound : sp.toNat + wordSize * (slot + 1) < addressBound := by
    simp only [userTop, wordSize, addressBound] at hsp ⊢
    omega
  simp only [readArg, Address.add?, dif_pos hbound]
  exact settles_readWord hw _

theorem arity_le (call : Call) : call.arity ≤ 3 := by cases call <;> decide

/-- The call that is read is the one in the private memory. -/
theorem settles_readCall (hw : m.WholeFrames) (sp : VirtAddr) :
    (m.readCall sp).Settles (m.contents.rawCall? sp.toNat = none)
      (m.contents.rawCall? sp.toNat = some ·) := by
  have hstack : (TrapChecked.ofFault (m.translate sp)).Settles (m.contents.byte? sp.toNat = none)
      fun _ => sp.toNat < userTop := by
    rcases translate_cases hw sp with ⟨ht, hbyte⟩ | ⟨bytes, ht, hlength, hbytes⟩
    · rw [ht]
      refine .ofFault (fun hc => Fault.missing_ne_overflow sp (Except.error.inj hc)) ?_ nofun
      exact ⟨fun _ => hbyte, fun _ => ⟨_, rfl⟩⟩
    · have hfirst := hbytes 0 (hlength ▸ sp.bytesToPageEnd_pos)
      have huser := toNat_lt_userTop hw ht
      rw [ht]
      refine .ofFault nofun ⟨fun ⟨_, hc⟩ => by contradiction, fun hc => ?_⟩ fun _ _ => huser
      rw [Nat.add_zero, hc, eq_comm, List.getElem?_eq_none_iff, hlength] at hfirst
      exact absurd sp.bytesToPageEnd_pos (Nat.not_lt.mpr hfirst)
  refine hstack.bind (fun hn => ?_) fun _ _ huser => ?_
  · have hword : m.contents.word? sp.toNat = none :=
      m.contents.word?_eq_none_iff.mpr ⟨0, by decide, hn⟩
    simp [PrivateMemory.rawCall?, hword]
  refine (settles_readWord hw sp).bind (fun hn => ?_) fun number _ hn => ?_
  · simp [PrivateMemory.rawCall?, hn]
  cases hc : Call.ofNumber? number with
  | none => exact .throw nofun (by simp [PrivateMemory.rawCall?, hn, hc])
  | some call =>
    have harg : ∀ slot ∈ List.range call.arity, (m.readArg sp slot).Settles
        (m.contents.word? (sp.toNat + wordSize * (slot + 1)) = none)
        (m.contents.word? (sp.toNat + wordSize * (slot + 1)) = some ·) := fun slot hslot =>
      settles_readArg hw huser (Nat.lt_of_lt_of_le (List.mem_range.mp hslot) (arity_le call))
    have hargs := Settles.mapM harg
    refine hargs.bind (fun hnone => ?_) fun args _ hsome => ?_
    · simp [PrivateMemory.rawCall?, hn, hc, hnone]
    · have hcall : m.contents.rawCall? sp.toNat =
          some ⟨call, args.getD 0 0, args.getD 1 0, args.getD 2 0⟩ := by
        simp [PrivateMemory.rawCall?, hn, hc, hsome]
      rw [hcall]
      exact .pure nofun rfl

theorem settles_readText (hw : m.WholeFrames) (arg : UInt32) :
    (m.readText arg).Settles (m.contents.LacksText arg.toNat (pageSize - 1)) fun _ => True := by
  have hlen : Scratch.blank.bytes.length = pageSize - 1 + 1 := Scratch.blank.page.length_bytes
  obtain ⟨filled, hrun, hlength, hover, hlacks⟩ := copyText_spec hw (wordAddress arg) hlen
  rw [toNat_wordAddress] at hlacks
  have hpage : filled.bytes.length = pageSize := hlength.trans hlen
  have hfilled : Settles (ExceptT.lift (m.copyText (wordAddress arg) Scratch.blank.bytes)) False
      (· = filled) := by
    rw [hrun]
    exact .answers rfl id rfl
  refine hfilled.bind False.elim fun _ _ hf => ?_
  subst hf
  refine (Settles.ofFault (Q := fun _ => True) hover hlacks fun _ _ => trivial).bind id
    fun _ hnot _ => ?_
  rw [Scratch.ofBytes?, Page.ofBytes?, dif_pos hpage]
  exact .pure hnot trivial

theorem settles_checkWritable (hb : m.Backed) (va : VirtAddr) (length : Nat) :
    (TrapChecked.ofFault (m.checkWritable va length)).Settles
      (∃ i < length, m.contents.isWritable (va.toNat + i) = false)
      fun _ => ∀ i < length, m.contents.isWritable (va.toNat + i) = true := by
  have hiff := checkWritable_eq_ok_iff hb va length
  refine .ofFault (m.checkWritable_ne_overflow va length) ?_ fun _ h => hiff.mp h
  cases hc : m.checkWritable va length with
  | error fault => simpa [hc] using hiff
  | ok _ => simpa [hc] using hiff

theorem settles_checkReadable (hw : m.WholeFrames) (va : VirtAddr) (length : Nat) :
    (TrapChecked.ofFault (m.checkReadable va length)).Settles
      (∃ i < length, m.contents.byte? (va.toNat + i) = none)
      fun _ => ∀ i < length, (m.contents.byte? (va.toNat + i)).isSome = true := by
  obtain ⟨hover, hiff⟩ := checkReadable_spec hw va length
  refine .ofFault hover ?_ fun _ h => hiff.mp h
  cases hc : m.checkReadable va length with
  | error fault => simpa [hc] using hiff
  | ok _ => simpa [hc, Option.isSome_iff_ne_none] using hiff

/-- A call becomes a request unless its arguments are denied. -/
theorem settles_ofCall (hw : m.WholeFrames) (hb : m.Backed) (c : RawCall) :
    (Request.ofCall m c).Settles (m.contents.Denies c) m.contents.Admits := by
  obtain ⟨call, first, second, third⟩ := c
  cases call with
  | exec | create | remove | «open» | chdir | mkdir =>
    exact (settles_readText hw first).bind id fun _ hnot _ => .pure hnot trivial
  | read =>
    have hcheck := settles_checkWritable hb (wordAddress second) third.toNat
    rw [toNat_wordAddress] at hcheck
    refine hcheck.bind id fun _ hnot hall => .pure hnot ?_
    simpa only [PrivateMemory.Admits, toNat_wordAddress] using hall
  | write =>
    have hcheck := settles_checkReadable hw (wordAddress second) third.toNat
    rw [toNat_wordAddress] at hcheck
    refine hcheck.bind id fun _ hnot hall => .pure hnot ?_
    simpa only [PrivateMemory.Admits, toNat_wordAddress] using hall
  | readdir =>
    have hcheck := settles_checkWritable hb (wordAddress second) (longestEntryName + 1)
    rw [toNat_wordAddress] at hcheck
    exact hcheck.bind id fun _ hnot _ => .pure hnot trivial
  | _ => exact .pure id trivial

end UserMemory

/-! ## Traps -/

namespace Kernel

open KernelM FrameLedger

variable {φ η χ ω : Type} {k : Kernel φ η χ ω} {es : List (Nat × Loan)} {pid : Pid}

/-- A trap of the process with this stack pointer cannot be decoded: the process does not run, or
there is no call with valid arguments. -/
def Undecodable (k : Kernel φ η χ ω) (pid : Pid) (sp : VirtAddr) : Prop :=
  k.processes.running? pid = none ∨ ∃ m, k.memory? pid = some m ∧ m.Malformed sp.toNat

theorem get?_of_running? {p : UserProcess η} (hp : k.processes.running? pid = some p) :
    k.processes.get? pid = some p :=
  (Option.filter_eq_some_iff.mp hp).1

theorem leads_knownProcess {p : UserProcess η} (hp : k.processes.get? pid = some p) :
    (knownProcess pid).run.Leads k (.ok p) k [] := by
  apply TrapM.leads_get_bind
  simp only [hp]
  exact leads_pure _

theorem leads_runningMemory {p : UserProcess η} (hp : k.processes.running? pid = some p) :
    (runningMemory pid : TrapM φ η χ ω UserMemory).run.Leads k (.ok (k.memoryOf p)) k [] := by
  apply TrapM.leads_get_bind
  simp only [hp]
  exact leads_pure _

/-- To decode changes nothing and uses no device. It fails exactly if the trap is undecodable. -/
theorem decode_cases (h : Coherent k es) (pid : Pid) (sp : VirtAddr) :
    (∃ error, (decode pid sp).run.Leads k (.error error) k [] ∧ error ≠ .badAddress .overflow ∧
      k.Undecodable pid sp) ∨
    ∃ p request, k.processes.running? pid = some p ∧
      (decode pid sp).run.Leads k (.ok request) k [] ∧ ¬ k.Undecodable pid sp ∧
      (k.memoryOf p).contents.Admits request := by
  cases hp : k.processes.running? pid with
  | none =>
    left
    refine ⟨.noSuchProcess pid, TrapM.leads_bind_error (TrapM.leads_get_bind ?_), nofun, .inl hp⟩
    simp only [hp]
    exact leads_pure _
  | some p =>
    have hget := get?_of_running? hp
    have hw := h.wholeFrames hget
    have hmalformed : k.Undecodable pid sp ↔ (k.memoryOf p).contents.Malformed sp.toNat := by
      simp [Undecodable, hp, memory?_of_get? hget]
    rw [hmalformed, PrivateMemory.malformed_iff]
    cases UserMemory.settles_readCall hw sp with
    | fails hcall hover hnone =>
      refine .inl ⟨_, ?_, hover, .inl hnone⟩
      exact TrapM.leads_bind (leads_runningMemory hp)
        (TrapM.leads_bind_error (TrapM.leads_ofTrapChecked hcall))
    | @answers c hcall _ hsome =>
      have hrun : ∀ answer, (Request.ofCall (k.memoryOf p) c).run = .ok answer →
          (decode pid sp).run.Leads k answer k [] := fun answer hanswer =>
        TrapM.leads_bind (leads_runningMemory hp)
          (TrapM.leads_bind (TrapM.leads_ofTrapChecked hcall)
            (TrapM.leads_bind (TrapM.leads_lift (leads_notice _))
              (TrapM.leads_ofTrapChecked hanswer)))
      cases UserMemory.settles_ofCall hw (h.backedMemory hget) c with
      | fails hrequest hover hdenies =>
        exact .inl ⟨_, hrun _ hrequest, hover, .inr ⟨c, hsome, hdenies⟩⟩
      | answers hrequest hgrants hadmits =>
        refine .inr ⟨p, _, rfl, hrun _ hrequest, ?_, hadmits⟩
        rintro (hnone | ⟨c', hc', hdenies⟩)
        · rw [hsome] at hnone
          contradiction
        · rw [hsome] at hc'
          cases hc'
          exact hgrants hdenies

end Kernel

end TeachingKernel
