import TeachingKernel.Pid

/-!
# The process host

The scheduler and the loader lie outside the kernel. The kernel asks them to start processes and to
wait for them, and tells them when it is done with one.
-/

namespace TeachingKernel

class Host (ω : Type) where
  /-- Starts a process for a command line on behalf of a parent. -/
  execute : ω → Pid → String → Option Pid × ω
  /-- Waits until a process is loaded; whether it could be. -/
  waitLoaded : ω → Pid → Bool × ω
  /-- Waits until a child of a parent exits; its status. -/
  wait : ω → Pid → Pid → Int32 × ω
  /-- The kernel is done with a process that exited. -/
  exited : ω → Pid → Int32 → ω
  powerOff : ω → ω

end TeachingKernel
