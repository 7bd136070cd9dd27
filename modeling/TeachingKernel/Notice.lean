import TeachingKernel.FrameLedger.Victim
import TeachingKernel.Request

/-!
# Notices

What the kernel tells of its work, for those who watch it. A notice says what happened; its level
says for whom it matters, and its text is what a watcher reads.

The ledger of frames gives no notices itself: what it did is in its answers, and `ofLend`,
`ofRelease` and their like turn an answer into the notices that go with it.
-/

namespace TeachingKernel

inductive Level where
  | error
  | warn
  | info
  | debug
  | trace
  deriving DecidableEq, Repr

namespace Level

def all : List Level := [error, warn, info, debug, trace]

def name : Level → String
  | error => "ERROR"
  | warn => "WARN"
  | info => "INFO"
  | debug => "DEBUG"
  | trace => "TRACE"

/-- A watcher of the given level sees the notices of this one. -/
def isSeenAt (level watcher : Level) : Bool := all.idxOf level ≤ all.idxOf watcher

end Level

inductive Notice where
  | booted (frames : Nat) (policy : Policy)
  | processCreated (pid : Pid) (name : String)
  | frameLent (frame : PhysAddr) (holder : Holder)
  | outOfFrames (holder : Holder) (victim : Option PhysAddr)
  | frameShared (frame : PhysAddr) (holder : Holder)
  | releaseUntracked (frame : PhysAddr)
  | releaseUnreferenced (frame : PhysAddr)
  | frameReturned (frame : PhysAddr)
  | framesTornDown (pid : Pid) (count : Nat)
  | victimChosen (frame : PhysAddr) (policy : Policy)
  | terminateDead (pid : Pid)
  | spaceTornDown (pid : Pid) (pages frames : Nat)
  | exited (name : String) (status : Int32)
  | callRead (pid : Pid) (call : RawCall)
  | requested (pid : Pid) (request : Request)
  | killing (pid : Pid) (error : TrapError)
  | haltRequested (pid : Pid)
  | loadFailed (child : Pid)
  | descriptorsExhausted (pid : Pid)
  | closeUnknown (pid : Pid) (fd : Int32)
  /-- A call that the kernel knows but does not carry out. -/
  | unsupported (call : Call)
  /-- What such a call asked for. -/
  | unsupportedRequest (request : Request)

namespace Notice

def level : Notice → Level
  | outOfFrames .. => .error
  | releaseUnreferenced .. | terminateDead .. | killing .. | descriptorsExhausted .. => .warn
  | booted .. | exited .. | haltRequested .. | unsupported .. => .info
  | processCreated .. | frameLent .. | frameReturned .. | framesTornDown .. | spaceTornDown ..
  | loadFailed .. | closeUnknown .. | unsupportedRequest .. => .debug
  | frameShared .. | releaseUntracked .. | victimChosen .. | callRead .. | requested .. => .trace

/-- What a request for a call that is not carried out asked for. -/
def unsupportedText : Request → String
  | .mmap fd address => s!"mmap(fd {fd}, " ++ address.text ++ ")"
  | .munmap mapping => s!"munmap({mapping})"
  | .readdir fd name => s!"readdir(fd {fd}, " ++ name.text ++ ")"
  | .isdir fd => s!"isdir(fd {fd})"
  | .inumber fd => s!"inumber(fd {fd})"
  | request => request.call.name

def text : Notice → String
  | booted frames policy =>
    s!"kernel: {frames} user frames, " ++ policy.diagnostic ++ " eviction"
  | processCreated pid name => "kernel: created " ++ pid.text ++ " (" ++ name ++ ")"
  | frameLent frame h =>
    "frame: " ++ h.vaddr.text ++ " -> " ++ frame.text ++ " for " ++ h.pid.text
  | outOfFrames h victim =>
    "frame: out of frames for " ++ h.pid.text ++ " at " ++ h.vaddr.text ++ ", victim " ++
      FrameError.victimDiagnostic victim ++ " needs swap"
  | frameShared frame h =>
    "frame: " ++ frame.text ++ " shared with " ++ h.pid.text ++ " at " ++ h.vaddr.text
  | releaseUntracked frame => "frame: release of untracked " ++ frame.text
  | releaseUnreferenced frame =>
    "frame: " ++ frame.text ++ " released by a mapping that does not reference it"
  | frameReturned frame => "frame: " ++ frame.text ++ " returned to pool"
  | framesTornDown pid count => "frame: " ++ pid.text ++ s!" teardown freed {count} frames"
  | victimChosen frame policy =>
    "frame: victim " ++ frame.text ++ " (" ++ policy.diagnostic ++ ")"
  | terminateDead pid => "kernel: terminate of dead " ++ pid.text
  | spaceTornDown pid pages frames =>
    "kernel: " ++ pid.text ++ s!" unmapped {pages} pages, freed {frames} frames"
  | exited name status => name ++ s!": exit({status})"
  | callRead pid call => "syscall: " ++ pid.text ++ " " ++ call.text
  | requested pid request => "syscall: " ++ pid.text ++ " " ++ request.diagnostic
  | killing pid error => "syscall: killing " ++ pid.text ++ ": " ++ error.message
  | haltRequested pid => "syscall: halt requested by " ++ pid.text
  | loadFailed child => "syscall: " ++ child.text ++ " failed to load"
  | descriptorsExhausted pid => "syscall: " ++ pid.text ++ " has no descriptor left"
  | closeUnknown pid fd => "syscall: " ++ pid.text ++ s!" close of unknown fd {fd}"
  | unsupported call => "SYS_" ++ call.name.toUpper
  | unsupportedRequest request => "syscall: " ++ unsupportedText request ++ " is not supported"

/-! ## Notices that go with the ledger's answers -/

def ofVictim (policy : Policy) : Option PhysAddr → List Notice
  | none => []
  | some frame => [victimChosen frame policy]

def ofLend (policy : Policy) (h : Holder) : Except FrameError PhysAddr → List Notice
  | .ok frame => [frameLent frame h]
  | .error (.outOfFrames victim) => ofVictim policy victim ++ [outOfFrames h victim]
  | .error _ => []

def ofShare {α : Type} (frame : PhysAddr) (h : Holder) : Except FrameError α → List Notice
  | .ok _ => [frameShared frame h]
  | .error _ => []

def ofRelease (frame : PhysAddr) : Release → List Notice
  | .untracked => [releaseUntracked frame]
  | .notReferenced => [releaseUnreferenced frame]
  | .shared _ => []
  | .freed => [frameReturned frame]

def ofReleaseAll (pid : Pid) (frames : List PhysAddr) : List Notice :=
  frames.map frameReturned ++ [framesTornDown pid frames.length]

end Notice

end TeachingKernel
