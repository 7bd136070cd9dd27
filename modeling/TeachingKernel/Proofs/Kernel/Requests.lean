import TeachingKernel.Proofs.Kernel.Serving

/-!
# What a trap asks for

A trap that is decoded has a call at the stack pointer of a running process, and the request is what
this call and its argument words come to. Nothing has happened before the request is carried out,
and what it comes to goes into the result register.
-/

namespace TeachingKernel

namespace TrapChecked

variable {α β : Type}

/-- An answer that goes on after another one comes if both come. -/
theorem run_bind_eq_ok {x : TrapChecked α} {f : α → TrapChecked β} {b : β} :
    (x >>= f).run = .ok (.ok b) ↔ ∃ a, x.run = .ok (.ok a) ∧ (f a).run = .ok (.ok b) := by
  rw [ExceptT.run_bind]
  cases x.run with
  | error d => simp [bind, Except.bind]
  | ok answer => cases answer <;> simp [bind, Except.bind, pure, Except.pure]

end TrapChecked

namespace Request

variable {m : UserMemory} {c : RawCall} {request : Request} {fd : Int32} {buffer : VirtAddr}
  {length : Nat}

/-- A request is one for the call that it came from. -/
theorem call_of_ofCall (h : (ofCall m c).run = .ok (.ok request)) : request.call = c.call := by
  obtain ⟨call, first, second, third⟩ := c
  cases call with
  | exec | create | remove | «open» | chdir | mkdir | read | write | readdir =>
    obtain ⟨_, -, h⟩ := TrapChecked.run_bind_eq_ok.mp h
    cases h
    rfl
  | _ =>
    cases h
    rfl

theorem args_of_write (h : (ofCall m c).run = .ok (.ok (.write fd buffer length))) :
    c.call = .write ∧ fd = c.first.toInt32 ∧ buffer = wordAddress c.second ∧
      length = c.third.toNat := by
  have hcall := call_of_ofCall h
  obtain ⟨call, first, second, third⟩ := c
  obtain rfl : Call.write = call := hcall
  obtain ⟨_, -, h⟩ := TrapChecked.run_bind_eq_ok.mp h
  cases h
  exact ⟨rfl, rfl, rfl, rfl⟩

theorem args_of_read (h : (ofCall m c).run = .ok (.ok (.read fd buffer length))) :
    c.call = .read ∧ fd = c.first.toInt32 ∧ buffer = wordAddress c.second ∧
      length = c.third.toNat := by
  have hcall := call_of_ofCall h
  obtain ⟨call, first, second, third⟩ := c
  obtain rfl : Call.read = call := hcall
  obtain ⟨_, -, h⟩ := TrapChecked.run_bind_eq_ok.mp h
  cases h
  exact ⟨rfl, rfl, rfl, rfl⟩

/-- What came of a decoding that asks for a call. -/
theorem eq_ok_of_map_call {decoded : Except TrapError Request} {call : Call}
    (h : decoded.toOption.map Request.call = some call) :
    ∃ request, decoded = .ok request ∧ request.call = call := by
  cases decoded with
  | error => cases h
  | ok request => exact ⟨request, rfl, Option.some.inj h⟩

end Request

theorem toNat_toUInt32_byteCount (n : Nat) : (byteCount n).toUInt32.toNat = min n 2147483647 := by
  unfold byteCount
  split
  · rename_i h
    rw [Nat.min_eq_left h]
    change n % 4294967296 = n
    omega
  · rename_i h
    rw [Nat.min_eq_right (by omega)]
    rfl

namespace Kernel

open KernelM FrameLedger

variable {φ η χ ω : Type} {k k₁ k' : Kernel φ η χ ω} {es : List (Nat × Loan)} {pid : Pid}
  {p : UserProcess η} {sp : VirtAddr} {c : RawCall} {request : Request}
  {uses : List (DeviceUse η)}

/-- The process runs, it has this call at its stack pointer, and this is the request that the call
comes to. -/
structure Asks (k : Kernel φ η χ ω) (pid : Pid) (sp : VirtAddr) (p : UserProcess η) (c : RawCall)
    (request : Request) : Prop where
  running : k.processes.running? pid = some p
  call : (k.memoryOf p).contents.rawCall? sp.toNat = some c
  granted : (Request.ofCall (k.memoryOf p) c).run = .ok (.ok request)
  admits : (k.memoryOf p).contents.Admits request

theorem leads_decode (hp : k.processes.running? pid = some p)
    (hcall : ((k.memoryOf p).readCall sp).run = .ok (.ok c)) {answer : Except TrapError Request}
    (hanswer : (Request.ofCall (k.memoryOf p) c).run = .ok answer) :
    (decode pid sp).run.Leads k answer k [] :=
  TrapM.leads_bind (leads_runningMemory hp)
    (TrapM.leads_bind (TrapM.leads_ofTrapChecked hcall)
      (TrapM.leads_bind (TrapM.leads_lift (leads_notice _))
        (TrapM.leads_ofTrapChecked hanswer)))

/-- A trap that is decoded asks for what is at the stack pointer, and nothing else has happened. -/
theorem asks_of_decode (h : Coherent k es)
    (hdecode : (decode pid sp).run.Leads k (.ok request) k₁ uses) :
    k₁ = k ∧ uses = [] ∧ ∃ p c, Asks k pid sp p c request := by
  rcases decode_cases h pid sp with
    ⟨_, hdecode', _⟩ | ⟨p, request', hp, hdecode', _, hadmits⟩
  · obtain ⟨hc, -⟩ := hdecode.unique hdecode'
    contradiction
  · obtain ⟨hrequest, hk, huses⟩ := hdecode.unique hdecode'
    obtain rfl := Except.ok.inj hrequest
    refine ⟨hk, huses, p, ?_⟩
    have hget := get?_of_running? hp
    cases UserMemory.settles_readCall (h.wholeFrames hget) sp with
    | @fails error hcall =>
      have hfails : (decode pid sp).run.Leads k (.error error) k [] :=
        TrapM.leads_bind (leads_runningMemory hp)
          (TrapM.leads_bind_error (TrapM.leads_ofTrapChecked hcall))
      obtain ⟨hc, -⟩ := hdecode.unique hfails
      contradiction
    | @answers c hcall _ hsome =>
      have hrun : ∃ answer, (Request.ofCall (k.memoryOf p) c).run = .ok answer := by
        cases UserMemory.settles_ofCall (h.wholeFrames hget) (h.backedMemory hget) c with
        | fails hrun => exact ⟨_, hrun⟩
        | answers hrun => exact ⟨_, hrun⟩
      obtain ⟨answer, hanswer⟩ := hrun
      obtain ⟨rfl, -⟩ := hdecode.unique (leads_decode hp hcall hanswer)
      exact ⟨c, hp, hsome, hanswer, hadmits⟩

/-! ## Steps of a transfer -/

theorem leads_bufferAt {buffer va : VirtAddr} {done : Nat} (h : buffer.add? done = some va) :
    (bufferAt buffer done : TrapM φ η χ ω VirtAddr).run.Leads k (.ok va) k [] := by
  simp only [bufferAt, h]
  exact leads_pure _

theorem exists_add?_of_lt_userTop {buffer : VirtAddr} {done : Nat}
    (h : buffer.toNat + done < userTop) : ∃ va, buffer.add? done = some va := by
  have hbound : buffer.toNat + done < addressBound := by
    simp only [userTop, addressBound] at h ⊢
    omega
  exact ⟨_, dif_pos hbound⟩

theorem leads_ofChecked {α : Type} {x : Checked α} {a : α} (h : x = .ok a) :
    (lift (ofChecked x) : TrapM φ η χ ω α).run.Leads k (.ok a) k [] :=
  TrapM.leads_lift (KernelM.leads_ofChecked h)

theorem leads_fileOf? (hp : k.processes.get? pid = some p) (fd : Int32) :
    (fileOf? pid fd).run.Leads k (.ok (p.files.get? fd)) k [] :=
  TrapM.leads_bind_nil (leads_knownProcess hp) (leads_pure _)

theorem leads_isOpen {console : Int32} (hp : k.processes.get? pid = some p)
    (hopen : fd ≠ console → (p.files.get? fd).isSome = true) :
    (isOpen pid console fd).run.Leads k (.ok true) k [] := by
  unfold isOpen
  by_cases hfd : fd = console
  · rw [if_pos hfd]
    exact leads_pure _
  · rw [if_neg hfd, ← hopen hfd]
    exact TrapM.leads_bind_nil (leads_fileOf? hp fd) (leads_pure _)

theorem leads_isOpen_of_none {console : Int32} (hp : k.processes.get? pid = some p)
    (hfd : fd ≠ console) (hnone : p.files.get? fd = none) :
    (isOpen pid console fd).run.Leads k (.ok false) k [] := by
  have hopen := leads_fileOf? hp fd
  rw [hnone] at hopen
  rw [isOpen, if_neg hfd]
  exact TrapM.leads_bind_nil hopen (leads_pure _)

/-! ## The result -/

/-- What a request comes to goes into the result register. -/
theorem leads_trap_of_value [FileSystem φ η] [Console χ] [Host ω] {registers : Registers}
    {n : Int32}
    (hdecode : (decode pid registers.stackPointer).run.Leads k (.ok request) k [])
    (hdispatch : (dispatch pid request).run.Leads k (.ok (.value n)) k' uses) :
    (trap pid registers).Leads k (.resume, { registers with result := n.toUInt32 }) k' uses := by
  have hserve : (serve pid registers request).Leads k
      (.resume, { registers with result := n.toUInt32 }) k' uses :=
    hdispatch.bind_quiet (leads_pure _)
  exact hdecode.bind ((leads_notice _).bind hserve)

end Kernel

end TeachingKernel
