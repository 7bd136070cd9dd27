import TeachingKernel.Console
import TeachingKernel.FileSystem
import TeachingKernel.Host
import TeachingKernel.Kernel.Config
import TeachingKernel.Notice
import TeachingKernel.UserProcess

/-!
# The kernel and its steps

The kernel owns the ledger of frames and the table of processes, and it uses a file system, a
console and a process host. A step of the kernel answers with a value, with the kernel as it is
afterwards, and with the events of the step in order: every use of a device, with what the device
answered, and every notice.

A defect ends a step without an answer.

What no answer shows is left out. One step is over before the next one begins, so there are no
locks. The memory of the kernel itself never runs out, and what becomes of it when it is given up,
as of a scratch page that is cleared then, nobody sees. Counts have no upper bound.
-/

namespace TeachingKernel

inductive DeviceUse (η : Type) where
  | create (name : String) (size : UInt32) (done : Bool)
  | open (name : String) (handle : Option η)
  | remove (name : String) (done : Bool)
  | length (handle : η) (length : UInt32)
  | read (handle : η) (count : Nat) (bytes : Bytes)
  | write (handle : η) (bytes : Bytes) (accepted : Nat)
  | seek (handle : η) (position : UInt32)
  | tell (handle : η) (position : UInt32)
  | close (handle : η)
  | putBytes (bytes : Bytes)
  | getByte (byte : Option UInt8)
  | execute (parent : Pid) (command : String) (child : Option Pid)
  | waitLoaded (child : Pid) (loaded : Bool)
  | wait (parent child : Pid) (status : Int32)
  | exited (pid : Pid) (status : Int32)
  | powerOff

inductive Event (η : Type) where
  | device (use : DeviceUse η)
  | notice (notice : Notice)

/-- A kernel with a file system of type `φ` whose handles are of type `η`, a console of type `χ`
and a process host of type `ω`. -/
structure Kernel (φ η χ ω : Type) where
  frames : FrameLedger
  processes : Processes η
  files : φ
  console : χ
  host : ω

/-- A step of the kernel. -/
def KernelM (φ η χ ω α : Type) : Type :=
  Kernel φ η χ ω → Checked (α × Kernel φ η χ ω × List (Event η))

/-- A step that may kill the process on whose behalf it is made. -/
abbrev TrapM (φ η χ ω : Type) := ExceptT TrapError (KernelM φ η χ ω)

section Steps

variable {φ η χ ω : Type}

instance : Monad (KernelM φ η χ ω) where
  pure a := fun k => .ok (a, k, [])
  bind x f := fun k =>
    match x k with
    | .error d => .error d
    | .ok (a, k, before) =>
      match f a k with
      | .error d => .error d
      | .ok (b, k, after) => .ok (b, k, before ++ after)

namespace KernelM

def run {α : Type} (x : KernelM φ η χ ω α) (k : Kernel φ η χ ω) :
    Checked (α × Kernel φ η χ ω × List (Event η)) := x k

def get : KernelM φ η χ ω (Kernel φ η χ ω) := fun k => .ok (k, k, [])

def modify (f : Kernel φ η χ ω → Kernel φ η χ ω) : KernelM φ η χ ω Unit :=
  fun k => .ok ((), f k, [])

/-- An answer that may be a defect. -/
def ofChecked {α : Type} (x : Checked α) : KernelM φ η χ ω α :=
  fun k => x.map fun a => (a, k, [])

def emit (events : List (Event η)) : KernelM φ η χ ω Unit := fun k => .ok ((), k, events)

def notices (ns : List Notice) : KernelM φ η χ ω Unit := emit (ns.map .notice)

def notice (n : Notice) : KernelM φ η χ ω Unit := emit [.notice n]

def device (use : DeviceUse η) : KernelM φ η χ ω Unit := emit [.device use]

def setFrames (frames : FrameLedger) : KernelM φ η χ ω Unit := modify ({ · with frames })

def setProcesses (processes : Processes η) : KernelM φ η χ ω Unit :=
  modify ({ · with processes })

def setPool (pool : PagePool) : KernelM φ η χ ω Unit :=
  modify fun k => { k with frames := { k.frames with pool } }

variable {α β : Type}

@[simp] theorem run_pure (a : α) (k : Kernel φ η χ ω) :
    (pure a : KernelM φ η χ ω α).run k = .ok (a, k, []) := rfl

@[simp] theorem run_get (k : Kernel φ η χ ω) : get.run k = .ok (k, k, []) := rfl

@[simp] theorem run_modify (f : Kernel φ η χ ω → Kernel φ η χ ω) (k : Kernel φ η χ ω) :
    (modify f).run k = .ok ((), f k, []) := rfl

@[simp] theorem run_emit (events : List (Event η)) (k : Kernel φ η χ ω) :
    (emit events).run k = .ok ((), k, events) := rfl

@[simp] theorem run_ofChecked_ok (a : α) (k : Kernel φ η χ ω) :
    (ofChecked (.ok a)).run k = .ok (a, k, []) := rfl

@[simp] theorem run_ofChecked_error (d : Defect) (k : Kernel φ η χ ω) :
    (ofChecked (.error d) : KernelM φ η χ ω α).run k = .error d := rfl

/-- A step that goes on after another one answers if both do, and its events are theirs in
order. -/
theorem run_bind_eq_ok {x : KernelM φ η χ ω α} {f : α → KernelM φ η χ ω β} {k k' : Kernel φ η χ ω}
    {b : β} {events : List (Event η)} :
    (x >>= f).run k = .ok (b, k', events) ↔
      ∃ a middle before after, x.run k = .ok (a, middle, before) ∧
        (f a).run middle = .ok (b, k', after) ∧ events = before ++ after := by
  simp only [run, bind]
  cases hx : x k with
  | error d => simp
  | ok r =>
    obtain ⟨a, middle, before⟩ := r
    cases hf : f a middle with
    | error d => simp [hf]
    | ok r =>
      obtain ⟨b', k'', after⟩ := r
      simp only [Except.ok.injEq, Prod.mk.injEq]
      grind

/-- After a step that answers, the next one starts where it ended. -/
theorem run_bind_of_ok {x : KernelM φ η χ ω α} {f : α → KernelM φ η χ ω β}
    {k middle : Kernel φ η χ ω} {a : α} {before : List (Event η)}
    (h : x.run k = .ok (a, middle, before)) :
    (x >>= f).run k =
      ((f a).run middle).map fun (b, k', after) => (b, k', before ++ after) := by
  simp only [run, bind] at h ⊢
  rw [h]
  cases hf : f a middle <;> simp [hf, Except.map]

/-- A defect ends the steps that were to follow. -/
theorem run_bind_of_error {x : KernelM φ η χ ω α} {f : α → KernelM φ η χ ω β}
    {k : Kernel φ η χ ω} {d : Defect} (h : x.run k = .error d) :
    (x >>= f).run k = .error d := by
  simp only [run, bind] at h ⊢
  rw [h]

end KernelM

instance : LawfulMonad (KernelM φ η χ ω) :=
  LawfulMonad.mk' _
    (fun x => by
      funext k
      simp only [Functor.map]
      cases x k with
      | error d => rfl
      | ok r =>
        obtain ⟨a, middle, before⟩ := r
        change Except.ok (a, middle, before ++ []) = _
        rw [List.append_nil])
    (fun a f => by
      funext k
      simp only [bind, pure]
      cases f a k with
      | error d => rfl
      | ok r => rfl)
    (fun x f g => by
      funext k
      simp only [bind]
      cases x k with
      | error d => rfl
      | ok r =>
        obtain ⟨a, k₁, e₁⟩ := r
        cases hf : f a k₁ with
        | error d => simp [hf]
        | ok r =>
          obtain ⟨b, k₂, e₂⟩ := r
          cases hg : g b k₂ with
          | error d => simp [hf, hg]
          | ok r => simp [hf, hg, List.append_assoc])

/-- The kernel after boot, and the notice of it. -/
def Kernel.boot (config : Config) (files : φ) (console : χ) (host : ω) :
    Kernel φ η χ ω × List (Event η) :=
  ({ frames := .fresh (.user config.frames) config.policy, processes := .empty
     files, console, host },
    [.notice (.booted config.frames config.policy)])

end Steps

end TeachingKernel
