import TeachingKernel.Proofs.Kernel.TextArguments

/-!
# Stack images

A call is laid out as one sequence of bytes, and is read word by word, each through the page that it
begins in. Wherever the sequence is stored and whichever pages it falls into, the call and as many
argument words as it takes are read back, and all that lies behind them is ignored. So the trap
comes to what the call asks for with these words, or to an error of a check of what its own words
point to.

Main statement: `trap_reads_stack_image`.
-/

namespace TeachingKernel

/-- The call with these argument words, and zeros for those that it does not take. -/
def Call.withWords (call : Call) (words : List UInt32) : RawCall :=
  ⟨call, words.getD 0 0, words.getD 1 0, words.getD 2 0⟩

/-! ## Words in a row -/

theorem length_flatMap_wordBytes (words : List UInt32) :
    (words.flatMap wordBytes).length = wordSize * words.length := by
  induction words with
  | nil => rfl
  | cons word words ih =>
    rw [List.flatMap_cons, List.length_append, ih, length_wordBytes, List.length_cons,
      Nat.mul_succ, Nat.add_comm]

/-- Each word has its own four bytes. -/
theorem part_flatMap_wordBytes {words : List UInt32} {i : Nat} (hi : i < words.length) :
    ((words.flatMap wordBytes).drop (wordSize * i)).take wordSize = wordBytes words[i] := by
  induction words generalizing i with
  | nil => exact absurd hi (Nat.not_lt_zero i)
  | cons word words ih =>
    cases i with
    | zero => rfl
    | succ i =>
      have hskip : wordSize * (i + 1) = (wordBytes word).length + wordSize * i := by
        rw [length_wordBytes, Nat.mul_succ, Nat.add_comm]
      rw [List.flatMap_cons, hskip, List.drop_length_add_append, List.getElem_cons_succ]
      exact ih (Nat.lt_of_succ_lt_succ hi)

/-- The first values of a list, looked up by their places. -/
theorem mapM_range_eq_take {α : Type} {f : Nat → Option α} {as : List α} {count : Nat}
    (hcount : count ≤ as.length) (h : ∀ i < count, f i = as[i]?) :
    (List.range count).mapM f = some (as.take count) := by
  induction count with
  | zero => rfl
  | succ count ih =>
    have hlast : f count = some as[count] := by
      rw [h count (Nat.lt_succ_self _), List.getElem?_eq_getElem hcount]
    rw [List.range_succ, List.mapM_append, ih (Nat.le_of_succ_le hcount) fun i hi =>
      h i (Nat.lt_succ_of_lt hi), List.take_add_one, List.getElem?_eq_getElem hcount]
    simp [List.mapM_cons, hlast]

namespace PrivateMemory

variable {m : PrivateMemory} {n : Nat} {words : List UInt32}

/-- Words that lie in a row are read back, one by one. -/
theorem word?_of_row (h : m.bytes? n (words.flatMap wordBytes).length =
    some (words.flatMap wordBytes)) {i : Nat} (hi : i < words.length) :
    m.word? (n + wordSize * i) = some words[i] := by
  have hroom : wordSize * i + wordSize ≤ (words.flatMap wordBytes).length := by
    rw [length_flatMap_wordBytes]
    simp only [wordSize]
    omega
  rw [word?, bytes?_of_part h hroom, part_flatMap_wordBytes hi, Option.map_some, word_wordBytes]

/-- What is read where a call was laid out. -/
theorem rawCall?_of_stackImage {call : Call} {args : List UInt32}
    (hargs : call.arity ≤ args.length)
    (h : m.bytes? n (call.stackImage args).length = some (call.stackImage args)) :
    m.rawCall? n = some (call.withWords (args.take call.arity)) := by
  have hnumber : m.word? n = some call.number := word?_of_row h (Nat.succ_pos args.length)
  have hwords : (List.range call.arity).mapM (fun slot => m.word? (n + wordSize * (slot + 1))) =
      some (args.take call.arity) := by
    refine mapM_range_eq_take hargs fun slot hslot => ?_
    have hlt : slot < args.length := Nat.lt_of_lt_of_le hslot hargs
    rw [word?_of_row h (Nat.succ_lt_succ hlt), List.getElem_cons_succ,
      List.getElem?_eq_getElem hlt]
  simp [rawCall?, hnumber, Call.ofNumber?_number, hwords, Call.withWords]

end PrivateMemory

/-! ## What a call asks for -/

/-- The calls that take a descriptor and nothing else, with their requests. -/
def descriptorCalls : List (Call × (Int32 → Request)) :=
  [(.filesize, .filesize), (.tell, .tell), (.close, .close), (.munmap, .munmap), (.isdir, .isdir),
    (.inumber, .inumber)]

/-- The calls that take a text and nothing else, with their requests. -/
def textCalls : List (Call × (Scratch → Request)) :=
  [(.exec, .exec), (.remove, .remove), (.open, .open), (.chdir, .chdir), (.mkdir, .mkdir)]

inductive Request.Means (m : PrivateMemory) : Call → List UInt32 → Request → Prop
  | halt : Means m .halt [] .halt
  | exit {status : UInt32} : Means m .exit [status] (.exit status.toInt32)
  | wait {child : UInt32} : Means m .wait [child] (.wait ⟨child⟩)
  | descriptor {call : Call} {request : Int32 → Request} {fd : UInt32}
      (hcall : (call, request) ∈ descriptorCalls) : Means m call [fd] (request fd.toInt32)
  | seek {fd position : UInt32} : Means m .seek [fd, position] (.seek fd.toInt32 position)
  | mmap {fd address : UInt32} :
      Means m .mmap [fd, address] (.mmap fd.toInt32 (wordAddress address))
  | text {call : Call} {request : Scratch → Request} {pointer : UInt32} {scratch : Scratch}
      (hcall : (call, request) ∈ textCalls)
      (htext : m.text? pointer.toNat (pageSize - 1) = some scratch.textBytes) :
      Means m call [pointer] (request scratch)
  | create {pointer size : UInt32} {scratch : Scratch}
      (htext : m.text? pointer.toNat (pageSize - 1) = some scratch.textBytes) :
      Means m .create [pointer, size] (.create scratch size)
  | read {fd buffer length : UInt32} : Means m .read [fd, buffer, length]
      (.read fd.toInt32 (wordAddress buffer) length.toNat)
  | write {fd buffer length : UInt32} : Means m .write [fd, buffer, length]
      (.write fd.toInt32 (wordAddress buffer) length.toNat)
  | readdir {fd name : UInt32} :
      Means m .readdir [fd, name] (.readdir fd.toInt32 (wordAddress name))

-- What a trap with this call and these argument words comes to: what the call asks for, or the
-- fault of a check of what its own words point to.
inductive Call.Decodes (m : PrivateMemory) (call : Call) (words : List UInt32) :
    Except TrapError Request → Prop
  | granted {request : Request} (hgranted : ¬ m.Denies (call.withWords words))
      (hmeans : request.Means m call words) : Decodes m call words (.ok request)
  | denied {fault : Fault} (hdenied : m.Denies (call.withWords words))
      (hfault : fault ≠ .overflow) : Decodes m call words (.error (.badAddress fault))

namespace TrapChecked

variable {α β : Type}

/-- An answer that goes on after another one fails if either fails. -/
theorem run_bind_eq_error {x : TrapChecked α} {f : α → TrapChecked β} {error : TrapError} :
    (x >>= f).run = .ok (.error error) ↔
      x.run = .ok (.error error) ∨ ∃ a, x.run = .ok (.ok a) ∧ (f a).run = .ok (.error error) := by
  rw [ExceptT.run_bind]
  cases x.run with
  | error d => simp [bind, Except.bind]
  | ok answer => cases answer <;> simp [bind, Except.bind, pure, Except.pure]

/-- What cannot kill the process does not. -/
theorem run_lift_ne_error {x : Checked α} {error : TrapError} :
    (ExceptT.lift x : TrapChecked α).run ≠ .ok (.error error) := by
  cases x with
  | error d => exact nofun
  | ok a => exact nofun

theorem badAddress_of_ofFault {answer : Except Fault α} {error : TrapError}
    (h : (ofFault answer).run = .ok (.error error)) : ∃ fault, error = .badAddress fault := by
  cases answer with
  | error fault =>
    cases h
    exact ⟨fault, rfl⟩
  | ok a => cases h

end TrapChecked

namespace UserMemory

variable {m : UserMemory}

theorem badAddress_of_readText {arg : UInt32} {error : TrapError}
    (h : (m.readText arg).run = .ok (.error error)) : ∃ fault, error = .badAddress fault := by
  unfold readText at h
  rcases TrapChecked.run_bind_eq_error.mp h with hcopy | ⟨filled, -, h⟩
  · exact absurd hcopy TrapChecked.run_lift_ne_error
  · rcases TrapChecked.run_bind_eq_error.mp h with hfault | ⟨_, -, h⟩
    · exact TrapChecked.badAddress_of_ofFault hfault
    · split at h
      · cases h
      · exact absurd h TrapChecked.run_lift_ne_error

/-- Nothing but a user address makes a call fail. -/
theorem badAddress_of_ofCall {c : RawCall} {error : TrapError}
    (h : (Request.ofCall m c).run = .ok (.error error)) : ∃ fault, error = .badAddress fault := by
  obtain ⟨call, first, second, third⟩ := c
  cases call with
  | exec | create | remove | «open» | chdir | mkdir =>
    rcases TrapChecked.run_bind_eq_error.mp h with htext | ⟨_, -, hrest⟩
    · exact badAddress_of_readText htext
    · cases hrest
  | read | write | readdir =>
    rcases TrapChecked.run_bind_eq_error.mp h with hcheck | ⟨_, -, hrest⟩
    · exact TrapChecked.badAddress_of_ofFault hcheck
    · cases hrest
  | _ => cases h

/-- The request of a call, word by word. -/
theorem means_of_ofCall (hw : m.WholeFrames) {call : Call} {words : List UInt32}
    (hwords : words.length = call.arity) {request : Request}
    (h : (Request.ofCall m (call.withWords words)).run = .ok (.ok request)) :
    request.Means m.contents call words := by
  cases call with
  | halt =>
    obtain rfl := List.length_eq_zero_iff.mp hwords
    cases h
    exact .halt
  | exit =>
    obtain ⟨status, rfl⟩ := List.length_eq_one_iff.mp hwords
    cases h
    exact .exit
  | wait =>
    obtain ⟨child, rfl⟩ := List.length_eq_one_iff.mp hwords
    cases h
    exact .wait
  | filesize | tell | close | munmap | isdir | inumber =>
    obtain ⟨fd, rfl⟩ := List.length_eq_one_iff.mp hwords
    cases h
    exact .descriptor (by simp [descriptorCalls])
  | seek =>
    obtain ⟨fd, position, rfl⟩ := List.length_eq_two.mp hwords
    cases h
    exact .seek
  | mmap =>
    obtain ⟨fd, address, rfl⟩ := List.length_eq_two.mp hwords
    cases h
    exact .mmap
  | exec | remove | «open» | chdir | mkdir =>
    obtain ⟨pointer, rfl⟩ := List.length_eq_one_iff.mp hwords
    obtain ⟨scratch, hread, h⟩ := TrapChecked.run_bind_eq_ok.mp h
    cases h
    exact .text (by simp [textCalls]) (text?_of_readText hw hread).1
  | create =>
    obtain ⟨pointer, size, rfl⟩ := List.length_eq_two.mp hwords
    obtain ⟨scratch, hread, h⟩ := TrapChecked.run_bind_eq_ok.mp h
    cases h
    exact .create (text?_of_readText hw hread).1
  | read =>
    obtain ⟨fd, buffer, length, rfl⟩ := List.length_eq_three.mp hwords
    obtain ⟨_, -, h⟩ := TrapChecked.run_bind_eq_ok.mp h
    cases h
    exact .read
  | write =>
    obtain ⟨fd, buffer, length, rfl⟩ := List.length_eq_three.mp hwords
    obtain ⟨_, -, h⟩ := TrapChecked.run_bind_eq_ok.mp h
    cases h
    exact .write
  | readdir =>
    obtain ⟨fd, name, rfl⟩ := List.length_eq_two.mp hwords
    obtain ⟨_, -, h⟩ := TrapChecked.run_bind_eq_ok.mp h
    cases h
    exact .readdir

/-- A call becomes what it asks for, or a check of its words fails. -/
theorem exists_decodes (hw : m.WholeFrames) (hb : m.Backed) {call : Call} {words : List UInt32}
    (hwords : words.length = call.arity) :
    ∃ answer, (Request.ofCall m (call.withWords words)).run = .ok answer ∧
      call.Decodes m.contents words answer := by
  cases settles_ofCall hw hb (call.withWords words) with
  | fails hrun hover hdenied =>
    obtain ⟨fault, rfl⟩ := badAddress_of_ofCall hrun
    exact ⟨_, hrun, .denied hdenied fun hfault => hover (by rw [hfault])⟩
  | answers hrun hgranted =>
    exact ⟨_, hrun, .granted hgranted (means_of_ofCall hw hwords hrun)⟩

/-- The call that was laid out is read. -/
theorem readCall_of_stackImage (hw : m.WholeFrames) {call : Call} {args : List UInt32}
    (hargs : call.arity ≤ args.length) {sp : VirtAddr}
    (h : m.contents.bytes? sp.toNat (call.stackImage args).length = some (call.stackImage args)) :
    (m.readCall sp).run = .ok (.ok (call.withWords (args.take call.arity))) := by
  have hcall := PrivateMemory.rawCall?_of_stackImage hargs h
  cases settles_readCall hw sp with
  | fails _ _ hnone =>
    rw [hcall] at hnone
    contradiction
  | answers hrun _ hsome =>
    rw [hcall] at hsome
    cases hsome
    exact hrun

end UserMemory

namespace Kernel

open KernelM

variable {φ η χ ω : Type} [FileSystem φ η] [Console χ] [Host ω] {k k' : Kernel φ η χ ω}
  {events : List (Event η)}

/-- What a program lays out is what its trap asks for. In every state that was reached since boot,
once a call and at least as many argument words as it takes were stored somewhere in the memory of a
running process, a trap with the stack pointer there reads this call and its words, and ignores the
words behind them. What the trap comes to depends on nothing else on the stack: it is the request of
the call with these words, unless a check of what they point to fails. -/
theorem trap_reads_stack_image (config : Config) (files : φ) (console : χ) (host : ω)
    (hfits : poolBase + config.frames * pageSize ≤ addressBound)
    {steps : List ((op : Operation) × op.Answer)}
    (hr : Performs (boot config files console host).1 steps k) {pid : Pid}
    (hp : (k.processes.running? pid).isSome = true) {call : Call} {args : List UInt32}
    (hargs : call.arity ≤ args.length) {sp : VirtAddr}
    (hcopy : (copyTo pid sp (call.stackImage args)).run k = .ok (.ok (), k', events)) :
    ∃ p m answer, k'.processes.running? pid = some p ∧ k.memory? pid = some m ∧
      (k'.memoryOf p).contents = m.store sp.toNat (call.stackImage args) ∧
      ((k'.memoryOf p).readCall sp).run = .ok (.ok (call.withWords (args.take call.arity))) ∧
      (Request.ofCall (k'.memoryOf p) (call.withWords (args.take call.arity))).run = .ok answer ∧
      (decode pid sp).run.Leads k' answer k' [] ∧
      call.Decodes (k'.memoryOf p).contents (args.take call.arity) answer := by
  obtain ⟨es, h, hs, -⟩ := hr.coherent hfits
  have hsteady : Steady k k' := (within_copyTo pid sp _ hcopy).1
  have hk' := hsteady.coherent h
  obtain ⟨p, hp'⟩ : ∃ p, k'.processes.running? pid = some p := by
    rw [← Option.isSome_iff_exists, hsteady.1.running?_isSome_eq, hp]
  have hget := get?_of_running? hp'
  obtain ⟨_, _, _, hcopy', hcases⟩ := copyTo_cases h hs pid sp (call.stackImage args)
  cases hcopy'.symm.trans hcopy
  rcases hcases with ⟨m, hm, hwritable, -, hafter⟩ | ⟨-, ⟨error, herror⟩, -⟩
  · have hcontents : (k'.memoryOf p).contents = m.store sp.toNat (call.stackImage args) := by
      have hown := memory?_of_get? hget
      rw [hafter, Function.update_self] at hown
      exact (Option.some.inj hown).symm
    have hread := UserMemory.readCall_of_stackImage (hk'.wholeFrames hget) hargs
      (hcontents ▸ PrivateMemory.bytes?_store hwritable)
    have hwords : (args.take call.arity).length = call.arity :=
      List.length_take_of_le hargs
    obtain ⟨answer, hrun, hdecodes⟩ :=
      UserMemory.exists_decodes (hk'.wholeFrames hget) (hk'.backedMemory hget) hwords
    exact ⟨p, m, answer, hp', hm, hcontents, hread, hrun, leads_decode hp' hread hrun, hdecodes⟩
  · contradiction

set_option synthInstance.maxSize 512 in
/-- The number lies at the end of a page, the first word in two pages whose frames are the other way
round, and there is a word too many. -/
theorem trap_reads_stack_image_of_two_pages :
    poolBase + 2 * pageSize ≤ addressBound ∧
      ∃ (k k' : Kernel MemoryFileSystem FileHandle BufferConsole ScriptedHost)
        (steps : List ((op : Operation) × op.Answer)) (events : List (Event FileHandle)),
        steps = [⟨.spawn "init", (⟨1⟩ : Pid)⟩,
          ⟨.mapPage ⟨1⟩ (.ofNat 0x2000) true, Except.ok (.ofNat poolBase)⟩,
          ⟨.mapPage ⟨1⟩ (.ofNat 0x1000) true, Except.ok (.ofNat (poolBase + pageSize))⟩] ∧
        Performs (boot ⟨2, .clock⟩ {} {} {}).1 steps k ∧
        (k.processes.running? ⟨1⟩).isSome = true ∧ Call.seek.arity ≤ [3, 70000, 99].length ∧
        (copyTo ⟨1⟩ (.ofNat 0x1FFA) (Call.seek.stackImage [3, 70000, 99])).run k =
          .ok (.ok (), k', events) ∧
        (decode ⟨1⟩ (.ofNat 0x1FFA)).run.Leads k' (.ok (.seek 3 70000)) k' [] := by
  have hfits : poolBase + 2 * pageSize ≤ addressBound := by decide
  -- the answers of the whole run, computed at once
  have hanswers : ((do
      let pid ← (Operation.spawn "init").perform
      let upper ← (Operation.mapPage ⟨1⟩ (.ofNat 0x2000) true).perform
      let lower ← (Operation.mapPage ⟨1⟩ (.ofNat 0x1000) true).perform
      let k ← get
      let stored ← copyTo ⟨1⟩ (.ofNat 0x1FFA) (Call.seek.stackImage [3, 70000, 99])
      return ((pid, upper, lower), (k.processes.running? ⟨1⟩).isSome, stored) :
        KernelM MemoryFileSystem FileHandle BufferConsole ScriptedHost
          ((Pid × Except KernelError PhysAddr × Except KernelError PhysAddr) × Bool ×
            Except KernelError Unit)).run
      (boot ⟨2, .clock⟩ {} {} {}).1).map Prod.fst =
        .ok ((⟨1⟩, .ok (.ofNat poolBase), .ok (.ofNat (poolBase + pageSize))), true, .ok ()) := by
    decide +kernel
  obtain ⟨k', _, hrun⟩ := exists_run_eq hanswers
  obtain ⟨_, _, _, _, hspawn, hrun, _⟩ := run_bind_eq_ok.mp hrun
  obtain ⟨_, _, _, _, hupper, hrun, _⟩ := run_bind_eq_ok.mp hrun
  obtain ⟨_, k, _, _, hlower, hrun, _⟩ := run_bind_eq_ok.mp hrun
  rw [KernelM.run_get_bind] at hrun
  obtain ⟨_, _, events, _, hcopy, hrun, _⟩ := run_bind_eq_ok.mp hrun
  simp only [run_pure, Except.ok.injEq, Prod.mk.injEq] at hrun
  obtain ⟨⟨⟨rfl, rfl, rfl⟩, hp, rfl⟩, rfl, _⟩ := hrun
  have hr : Performs _ _ k := .cons hspawn (.cons hupper (.cons hlower (.nil _)))
  have hargs : Call.seek.arity ≤ [3, 70000, 99].length := by decide
  obtain ⟨_, _, _, _, _, _, _, _, hdecode, hdecodes⟩ :=
    trap_reads_stack_image ⟨2, .clock⟩ _ _ _ hfits hr hp hargs hcopy
  cases hdecodes with
  | denied hdenied => exact hdenied.elim
  | granted _ hmeans =>
    cases hmeans with
    | seek => exact ⟨hfits, k, _, _, events, rfl, hr, hp, hargs, hcopy, hdecode⟩

end Kernel

end TeachingKernel
