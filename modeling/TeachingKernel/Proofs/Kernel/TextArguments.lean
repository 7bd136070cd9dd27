import TeachingKernel.Proofs.Kernel.Handles
import TeachingKernel.Proofs.Kernel.Requests
import TeachingKernel.Proofs.Memory.Texts

/-!
# Texts that reach a device

A call that takes a text names an address. The bytes there up to the first zero byte, cut where the
scratch page ends, are the text if they are UTF-8, and the device is asked for this text and no
other, once. If they are not, no device is asked for anything.

Main statement: `text_reaches_device`.
-/

namespace TeachingKernel

def utf8 (text : String) : Bytes := text.toUTF8.data.toList

theorem utf8_injective : Function.Injective utf8 := fun _ _ h =>
  String.toByteArray_inj.mp (ByteArray.ext (Array.toList_inj.mp h))

/-- Bytes are read as a text exactly if they are the bytes of that text. -/
theorem Scratch.text?_eq_some_iff {s : Scratch} {text : String} :
    s.text? = some text ↔ utf8 text = s.textBytes := by
  have hbytes : utf8 text = s.textBytes ↔ text.toUTF8 = ⟨s.textBytes.toArray⟩ := by
    rw [utf8, ByteArray.ext_iff, ← Array.toList_inj]
  rw [hbytes, text?, String.fromUTF8?]
  split
  · rename_i hvalid
    rw [Option.some.injEq, ← String.toByteArray_inj, eq_comm]
    rfl
  · rename_i hinvalid
    refine ⟨nofun, fun h => ?_⟩
    rw [← h] at hinvalid
    exact absurd text.isValidUTF8 hinvalid

/-! ## The text at an address -/

/-- The bytes at an address before the first zero byte, cut after so many, if none of them is
missing. -/
def PrivateMemory.text? (m : PrivateMemory) (n : Nat) : Nat → Option Bytes
  | 0 => some []
  | limit + 1 => do
    let byte ← m.byte? n
    if byte = 0 then return []
    else return byte :: (← m.text? (n + 1) limit)

theorem PrivateMemory.text?_eq_some {m : PrivateMemory} {n limit : Nat} {text : Bytes}
    (hbyte : ∀ i < text.length, m.byte? (n + i) = text[i]?) (hne : ∀ byte ∈ text, byte ≠ 0)
    (hstop : text.length = limit ∨ text.length < limit ∧ m.byte? (n + text.length) = some 0) :
    m.text? n limit = some text := by
  induction text generalizing n limit with
  | nil =>
    rcases hstop with rfl | ⟨hlt, hzero⟩
    · rfl
    · obtain ⟨limit, rfl⟩ := Nat.exists_eq_succ_of_ne_zero (Nat.ne_of_gt hlt)
      have hfirst : m.byte? n = some 0 := hzero
      simp [text?, hfirst]
  | cons byte text ih =>
    obtain ⟨limit, rfl⟩ : ∃ l, limit = l + 1 :=
      Nat.exists_eq_succ_of_ne_zero (by rw [List.length_cons] at hstop; omega)
    have hfirst : m.byte? n = some byte := hbyte 0 (Nat.succ_pos _)
    have hrest : m.text? (n + 1) limit = some text := by
      refine ih (fun i hi => ?_) (fun b hb => hne b (.tail _ hb)) ?_
      · rw [Nat.add_right_comm]
        exact hbyte (i + 1) (Nat.succ_lt_succ hi)
      · rwa [List.length_cons, Nat.add_right_cancel_iff, Nat.add_lt_add_iff_right,
          ← Nat.add_assoc, Nat.add_right_comm] at hstop
    simp [text?, hfirst, hne byte (.head _), hrest]

namespace UserMemory

variable {m : UserMemory} {va : VirtAddr} {limit : Nat} {text : Bytes}

theorem byte?_of_byteFrom {i : Nat} {byte : UInt8} (h : m.byteFrom va i = .ok byte) :
    m.contents.byte? (va.toNat + i) = some byte := by
  unfold byteFrom at h
  split at h
  · contradiction
  · rename_i x hx
    rw [byteAt_eq, Address.toNat_of_add? hx] at h
    cases hb : m.contents.byte? (va.toNat + i) with
    | none =>
      rw [hb] at h
      contradiction
    | some b =>
      rw [hb] at h
      exact congrArg some (Except.ok.inj h)

/-- A text that is read to its end is the one in the private memory. -/
theorem ReadsText.text?_eq {n : Nat} (h : m.ReadsText va limit text (.ok n)) :
    m.contents.text? va.toNat limit = some text := by
  refine PrivateMemory.text?_eq_some (fun i hi => ?_) h.ne_zero ?_
  · rw [List.getElem?_eq_getElem hi]
    exact byte?_of_byteFrom (h.byte i hi)
  · cases h.stop with
    | zero hlt hzero => exact .inr ⟨hlt, byte?_of_byteFrom hzero⟩
    | bound => exact .inl rfl

/-- What is taken from the scratch page is the text that was read. Nothing that the page held behind
it is taken. -/
theorem takeWhile_written (hne : ∀ byte ∈ text, byte ≠ 0) (n : Nat) (dst : Bytes) :
    (written text (.ok n) dst).takeWhile (· ≠ 0) = text := by
  rw [written, if_neg (by simp [Except.isOk, Except.toBool]),
    List.takeWhile_append_of_pos (by simpa using hne), List.takeWhile_cons_of_neg (by simp),
    List.append_nil]

/-- A text argument that is copied to a scratch page. -/
theorem text?_of_readText (hw : m.WholeFrames) {arg : UInt32} {scratch : Scratch}
    (h : (m.readText arg).run = .ok (.ok scratch)) :
    m.contents.text? arg.toNat (pageSize - 1) = some scratch.textBytes ∧
      (∀ byte ∈ scratch.textBytes, byte ≠ 0) ∧ scratch.textBytes.length ≤ pageSize - 1 := by
  have hlength : Scratch.blank.bytes.length = pageSize - 1 + 1 := Scratch.blank.page.length_bytes
  unfold readText at h
  -- the blank page is never looked into
  generalize Scratch.blank.bytes = blank at h hlength
  obtain ⟨text, answer, hreads, -, hcopy⟩ := copyText_bytewise hw (wordAddress arg) hlength
  obtain ⟨filled, hfilled, h⟩ := TrapChecked.run_bind_eq_ok.mp h
  obtain ⟨n, hanswer, h⟩ := TrapChecked.run_bind_eq_ok.mp h
  rw [hcopy] at hfilled
  cases hfilled
  cases answer with
  | error fault => cases hanswer
  | ok n =>
    have hscratch : scratch.textBytes = text := by
      simp only [Scratch.ofBytes?, Page.ofBytes?] at h
      split at h
      · rename_i s hs
        split at hs
        · cases h
          cases hs
          exact takeWhile_written hreads.ne_zero n blank
        · contradiction
      · cases h
    rw [hscratch, ← toNat_wordAddress]
    exact ⟨hreads.text?_eq, hreads.ne_zero, hreads.stop.le⟩

end UserMemory

/-! ## The request -/

namespace Request

inductive TakesText (c : RawCall) (scratch : Scratch) : Request → Prop
  | exec (hc : c.call = .exec) : TakesText c scratch (.exec scratch)
  | create (hc : c.call = .create) : TakesText c scratch (.create scratch c.second)
  | remove (hc : c.call = .remove) : TakesText c scratch (.remove scratch)
  | open (hc : c.call = .open) : TakesText c scratch (.open scratch)

/-- The text is the one that the first argument word points to. -/
theorem takesText_of_ofCall {m : UserMemory} {c : RawCall} {request : Request}
    (h : (ofCall m c).run = .ok (.ok request))
    (hcall : request.call ∈ [Call.create, Call.remove, Call.open, Call.exec]) :
    ∃ scratch, (m.readText c.first).run = .ok (.ok scratch) ∧ TakesText c scratch request := by
  rw [call_of_ofCall h] at hcall
  obtain ⟨call, first, second, third⟩ := c
  cases call with
  | exec | create | remove | «open» =>
    obtain ⟨scratch, hread, h⟩ := TrapChecked.run_bind_eq_ok.mp h
    cases h
    exact ⟨scratch, hread, by constructor; rfl⟩
  | _ => simp at hcall

end Request

def DeviceUse.text? {η : Type} : DeviceUse η → Option String
  | create name _ _ => some name
  | .open name _ => some name
  | remove name _ => some name
  | execute _ command _ => some command
  | _ => none

namespace Kernel

open KernelM FrameLedger TrapM

variable {φ η χ ω : Type} {k k' : Kernel φ η χ ω} {pid : Pid} {p : UserProcess η} {c : RawCall}
  {scratch : Scratch} {text : String} {request : Request} {n : Int32} {uses : List (DeviceUse η)}

/-! ## What a device makes of it -/

section Conveys

variable [FileSystem φ η] [Host ω]

inductive Conveys (k : Kernel φ η χ ω) (pid : Pid) (c : RawCall) (text : String) :
    Int32 → Kernel φ η χ ω → List (DeviceUse η) → Prop
  | create {done : Bool} {files : φ} (hc : c.call = .create)
      (hasked : FileSystem.createFile k.files text c.second = (done, files)) :
      Conveys k pid c text (if done then 1 else 0) { k with files } [.create text c.second done]
  | remove {done : Bool} {files : φ} (hc : c.call = .remove)
      (hasked : FileSystem.removeFile k.files text = (done, files)) :
      Conveys k pid c text (if done then 1 else 0) { k with files } [.remove text done]
  | opensNothing {files : φ} (hc : c.call = .open)
      (hasked : FileSystem.openFile k.files text = (none, files)) :
      Conveys k pid c text failed { k with files } [.open text none]
  | opens {handle : η} {files : φ} {p : UserProcess η} {fd : Int32} {descriptors : Descriptors η}
      (hc : c.call = .open) (hasked : FileSystem.openFile k.files text = (some handle, files))
      (hp : k.processes.get? pid = some p) (hi : p.files.install? handle = some (fd, descriptors)) :
      Conveys k pid c text fd
        { k with files, processes := k.processes.modify pid ({ · with files := descriptors }) }
        [.open text (some handle)]
  | turnsAway {handle : η} {files : φ} {p : UserProcess η} (hc : c.call = .open)
      (hasked : FileSystem.openFile k.files text = (some handle, files))
      (hp : k.processes.get? pid = some p) (hi : p.files.install? handle = none) :
      Conveys k pid c text failed { k with files := FileSystem.close files handle }
        [.open text (some handle), .close handle]
  | startsNothing {host : ω} (hc : c.call = .exec)
      (hasked : Host.execute k.host pid text = (none, host)) :
      Conveys k pid c text failed { k with host } [.execute pid text none]
  | starts {child : Pid} {host host' : ω} {loaded : Bool} (hc : c.call = .exec)
      (hasked : Host.execute k.host pid text = (some child, host))
      (hloaded : Host.waitLoaded host child = (loaded, host')) :
      Conveys k pid c text (if loaded then child.toInt32 else failed) { k with host := host' }
        [.execute pid text (some child), .waitLoaded child loaded]

/-- One device is asked with a text, once, and with this one. -/
theorem Conveys.texts (h : Conveys k pid c text n k' uses) :
    uses.filterMap DeviceUse.text? = [text] := by
  cases h <;> rfl

end Conveys

section Files

variable [FileSystem φ η]

theorem leads_openText (k : Kernel φ η χ ω) (htext : scratch.text? = some text) :
    (openText scratch).Leads k (FileSystem.openFile k.files text).1
      { k with files := (FileSystem.openFile k.files text).2 }
      [.open text (FileSystem.openFile k.files text).1] := by
  simp only [openText, htext]
  exact ⟨_, rfl, rfl⟩

theorem exists_leads_openFile [Host ω] (hp : k.processes.get? pid = some p) (hc : c.call = .open)
    (htext : scratch.text? = some text) :
    ∃ n k' uses, (openFile pid scratch).run.Leads k (.ok n) k' uses ∧
      Conveys k pid c text n k' uses := by
  have hopen := leads_openText k htext
  rw [openFile_eq]
  rcases hasked : FileSystem.openFile k.files text with ⟨_ | handle, files⟩
  · rw [hasked] at hopen
    exact ⟨_, _, _, leads_bind (leads_lift hopen) (leads_pure _), .opensNothing hc hasked⟩
  · rw [hasked] at hopen
    cases hi : p.files.install? handle with
    | some found =>
      have hinstall := leads_installFile (k := { k with files }) hp hi
      exact ⟨_, _, _, leads_bind (leads_lift hopen) hinstall, .opens hc hasked hp hi⟩
    | none =>
      have hinstall := leads_installFile_of_full (k := { k with files }) hp hi
      exact ⟨_, _, _, leads_bind (leads_lift hopen) hinstall, .turnsAway hc hasked hp hi⟩

end Files

section Host

variable [Host ω]

theorem leads_awaitLoaded (k : Kernel φ η χ ω) (child : Pid) :
    (awaitLoaded (some child)).Leads k
      (if (Host.waitLoaded k.host child).1 then child.toInt32 else failed)
      { k with host := (Host.waitLoaded k.host child).2 }
      [.waitLoaded child (Host.waitLoaded k.host child).1] := by
  have hwait : (Scheduler.waitLoaded child).Leads k (Host.waitLoaded k.host child).1
      { k with host := (Host.waitLoaded k.host child).2 }
      [.waitLoaded child (Host.waitLoaded k.host child).1] := ⟨_, rfl, rfl⟩
  rcases hloaded : Host.waitLoaded k.host child with ⟨_ | _, host⟩
  · rw [hloaded] at hwait
    exact hwait.bind ((leads_notice _).bind (leads_pure _))
  · rw [hloaded] at hwait
    exact hwait.bind (leads_pure _)

theorem exists_leads_execute [FileSystem φ η] (hc : c.call = .exec)
    (htext : scratch.text? = some text) :
    ∃ n k' uses, (execute pid scratch).Leads k n k' uses ∧ Conveys k pid c text n k' uses := by
  have hstart : (Scheduler.execute pid text).Leads k (Host.execute k.host pid text).1
      { k with host := (Host.execute k.host pid text).2 }
      [.execute pid text (Host.execute k.host pid text).1] := ⟨_, rfl, rfl⟩
  rw [execute_eq, htext]
  rcases hasked : Host.execute k.host pid text with ⟨_ | child, host⟩
  · rw [hasked] at hstart
    exact ⟨_, _, _, hstart.bind (leads_pure _), .startsNothing hc hasked⟩
  · rw [hasked] at hstart
    exact ⟨_, _, _, hstart.bind (leads_awaitLoaded _ child), .starts hc hasked rfl⟩

end Host

/-! ## The trap -/

variable [FileSystem φ η] [Console χ] [Host ω]

/-- A device is asked with the text of a request. -/
theorem exists_leads_of_text (hp : k.processes.get? pid = some p)
    (htakes : request.TakesText c scratch) (htext : scratch.text? = some text) :
    ∃ n k' uses, (dispatch pid request).run.Leads k (.ok (.value n)) k' uses ∧
      Conveys k pid c text n k' uses := by
  cases htakes with
  | exec hc =>
    obtain ⟨n, k', uses, hexecute, hconveys⟩ := exists_leads_execute (k := k) hc htext
    exact ⟨n, k', uses, leads_bind_quiet (leads_lift hexecute) (leads_pure _), hconveys⟩
  | «open» hc =>
    obtain ⟨n, k', uses, hopen, hconveys⟩ := exists_leads_openFile hp hc htext
    exact ⟨n, k', uses, leads_bind_quiet hopen (leads_pure _), hconveys⟩
  | create hc =>
    have hcreate : (Files.create text c.second).Leads k
        (FileSystem.createFile k.files text c.second).1
        { k with files := (FileSystem.createFile k.files text c.second).2 }
        [.create text c.second (FileSystem.createFile k.files text c.second).1] := ⟨_, rfl, rfl⟩
    simp only [dispatch, htext]
    exact ⟨_, _, _, leads_bind (leads_lift hcreate) (leads_pure _), .create hc rfl⟩
  | remove hc =>
    have hremove : (Files.remove text).Leads k (FileSystem.removeFile k.files text).1
        { k with files := (FileSystem.removeFile k.files text).2 }
        [.remove text (FileSystem.removeFile k.files text).1] := ⟨_, rfl, rfl⟩
    simp only [dispatch, htext]
    exact ⟨_, _, _, leads_bind (leads_lift hremove) (leads_pure _), .remove hc rfl⟩

/-- What is not a text names nothing. -/
theorem exists_leads_of_no_text (htakes : request.TakesText c scratch)
    (htext : scratch.text? = none) :
    ∃ n, (dispatch pid request).run.Leads k (.ok (.value n)) k [] ∧
      (c.call = .create ∨ c.call = .remove → n = 0) ∧
      (c.call = .open ∨ c.call = .exec → n = -1) := by
  cases htakes with
  | exec hc =>
    have hexecute : (execute pid scratch).Leads k failed k [] := by
      rw [execute_eq, htext]
      exact (leads_pure _).bind (leads_pure _)
    exact ⟨_, leads_bind (leads_lift hexecute) (leads_pure _), by simp [hc], fun _ => rfl⟩
  | «open» hc =>
    have hopen : (openText scratch : KernelM φ η χ ω (Option η)).Leads k none k [] := by
      simp only [openText, htext]
      exact leads_pure _
    have hfails : (openFile pid scratch).run.Leads k (.ok failed) k [] := by
      rw [openFile_eq]
      exact leads_bind (leads_lift hopen) (leads_pure _)
    exact ⟨_, leads_bind hfails (leads_pure _), by simp [hc], fun _ => rfl⟩
  | create hc | remove hc =>
    simp only [dispatch, htext]
    exact ⟨0, leads_pure _, fun _ => rfl, by simp [hc]⟩

/-- Whatever was performed since boot, a trap that is decoded as a call with a text has the bytes of
this text at the address that its first argument word names: those before the first zero byte, cut
where the scratch page ends. If they are the bytes of a text, one device is asked with exactly this
text, once. Otherwise no device is used, the kernel stays as it is, and the call fails. -/
theorem text_reaches_device (config : Config) (files : φ) (console : χ) (host : ω)
    (hfits : poolBase + config.frames * pageSize ≤ addressBound)
    {steps : List ((op : Operation) × op.Answer)}
    (hr : Performs (boot config files console host).1 steps k) (pid : Pid) (registers : Registers)
    {k₁ : Kernel φ η χ ω} {uses₁ : List (DeviceUse η)}
    (hdecode : (decode pid registers.stackPointer).run.Leads k (.ok request) k₁ uses₁)
    (hcall : request.call ∈ [Call.create, Call.remove, Call.open, Call.exec]) :
    ∃ m c bytes, (k.processes.running? pid).isSome = true ∧ k.memory? pid = some m ∧
      m.rawCall? registers.stackPointer.toNat = some c ∧ c.call = request.call ∧
      m.text? c.first.toNat (pageSize - 1) = some bytes ∧ (∀ byte ∈ bytes, byte ≠ 0) ∧
      bytes.length ≤ pageSize - 1 ∧
      ∃ n k' uses,
        (trap pid registers).Leads k (.resume, { registers with result := n.toUInt32 }) k' uses ∧
        ((∃ text, utf8 text = bytes ∧ Conveys k pid c text n k' uses ∧
            uses.filterMap DeviceUse.text? = [text]) ∨
          (∀ text, utf8 text ≠ bytes) ∧ k' = k ∧ uses = [] ∧
            (c.call = .create ∨ c.call = .remove → n = 0) ∧
            (c.call = .open ∨ c.call = .exec → n = -1)) := by
  obtain ⟨es, h, _, _⟩ := hr.coherent hfits
  obtain ⟨rfl, rfl, p, c, hasks⟩ := asks_of_decode h hdecode
  have hget := get?_of_running? hasks.running
  obtain ⟨scratch, hread, htakes⟩ := Request.takesText_of_ofCall hasks.granted hcall
  obtain ⟨hbytes, hne, hlength⟩ := UserMemory.text?_of_readText (h.wholeFrames hget) hread
  refine ⟨_, c, scratch.textBytes, by rw [hasks.running]; rfl, memory?_of_get? hget, hasks.call,
    (Request.call_of_ofCall hasks.granted).symm, hbytes, hne, hlength, ?_⟩
  cases htext : scratch.text? with
  | some text =>
    obtain ⟨n, k', uses, hdispatch, hconveys⟩ := exists_leads_of_text hget htakes htext
    exact ⟨n, k', uses, leads_trap_of_value hdecode hdispatch,
      .inl ⟨text, Scratch.text?_eq_some_iff.mp htext, hconveys, hconveys.texts⟩⟩
  | none =>
    obtain ⟨n, hdispatch, hfails⟩ := exists_leads_of_no_text (k := k₁) htakes htext
    refine ⟨n, k₁, [], leads_trap_of_value hdecode hdispatch, .inr ⟨fun text hutf8 => ?_, rfl, rfl,
      hfails⟩⟩
    rw [Scratch.text?_eq_some_iff.mpr hutf8] at htext
    cases htext

set_option synthInstance.maxSize 512 in
/-- A program asks for a file with a name of three bytes that spell two letters. Behind the zero
byte is one more letter, which is not part of the name. -/
theorem text_reaches_device_of_two_letters :
    poolBase + 1 * pageSize ≤ addressBound ∧
      ∃ (k k' : Kernel MemoryFileSystem FileHandle BufferConsole ScriptedHost)
        (steps : List ((op : Operation) × op.Answer)) (registers : Registers) (result : UInt32)
        (uses : List (DeviceUse FileHandle)),
        Performs (boot ⟨1, .clock⟩ {} {} {}).1 steps k ∧
        (trap ⟨1⟩ registers).Leads k (.resume, { registers with result }) k' uses ∧
        uses.filterMap DeviceUse.text? = ["hé"] := by
  have hfits : poolBase + 1 * pageSize ≤ addressBound := by decide
  -- the run, what is there before the trap, and what comes of the decoding, computed at once
  have hanswers : ((do
      let pid ← spawn "creator"
      let mapped ← mapPage ⟨1⟩ (.ofNat 0x1000) true
      let stored ← copyTo ⟨1⟩ (.ofNat 0x1000)
        (Call.create.stackImage [0x100c, 7] ++ [104, 195, 169, 0, 120])
      let k ← get
      let decoded ← (decode ⟨1⟩ (.ofNat 0x1000)).run
      return ((pid, mapped, stored), (k.memory? ⟨1⟩).bind (·.rawCall? 0x1000),
        (k.memory? ⟨1⟩).bind (·.text? 0x100c 4095), decoded.toOption.map Request.call) :
        KernelM MemoryFileSystem FileHandle BufferConsole ScriptedHost _).run
      (boot ⟨1, .clock⟩ {} {} {}).1).map Prod.fst =
        .ok ((⟨1⟩, .ok (.ofNat poolBase), .ok ()), some ⟨.create, 0x100c, 7, 0⟩,
          some [104, 195, 169], some .create) := by
    decide +kernel
  obtain ⟨_, _, hrun⟩ := exists_run_eq hanswers
  obtain ⟨_, _, _, _, hspawn, hrun, _⟩ := run_bind_eq_ok.mp hrun
  obtain ⟨_, _, _, _, hmap, hrun, _⟩ := run_bind_eq_ok.mp hrun
  obtain ⟨_, k, _, _, hstore, hrun, _⟩ := run_bind_eq_ok.mp hrun
  rw [KernelM.run_get_bind] at hrun
  obtain ⟨decoded, k₁, events, _, hdecode, hrun, _⟩ := run_bind_eq_ok.mp hrun
  simp only [run_pure, Except.ok.injEq, Prod.mk.injEq] at hrun
  obtain ⟨⟨⟨rfl, rfl, rfl⟩, hraw, hname, hcreate⟩, _⟩ := hrun
  let registers : Registers := ⟨.ofNat 0x1000, 0⟩
  have hr : Performs (boot ⟨1, .clock⟩ {} {} {}).1 [⟨.spawn "creator", (⟨1⟩ : Pid)⟩,
      ⟨.mapPage ⟨1⟩ (.ofNat 0x1000) true, Except.ok (.ofNat poolBase)⟩,
      ⟨.copyTo ⟨1⟩ (.ofNat 0x1000)
        (Call.create.stackImage [0x100c, 7] ++ [104, 195, 169, 0, 120]), Except.ok ()⟩] k :=
    .cons hspawn (.cons hmap (.cons hstore (.nil _)))
  obtain ⟨request, rfl, hcall⟩ := Request.eq_ok_of_map_call hcreate
  have hleads : (decode ⟨1⟩ registers.stackPointer).run.Leads k (.ok request) k₁
      (deviceUses events) := ⟨events, hdecode, rfl⟩
  obtain ⟨m, c, bytes, _, hm, hc, _, hbytes, _, _, n, k', uses, htrap, hreaches⟩ :=
    text_reaches_device ⟨1, .clock⟩ _ _ _ hfits hr ⟨1⟩ registers hleads (by simp [hcall])
  rw [hm, Option.bind_some] at hraw hname
  obtain rfl : c = ⟨.create, 0x100c, 7, 0⟩ := Option.some.inj (hc.symm.trans hraw)
  obtain rfl : bytes = [104, 195, 169] := Option.some.inj (hbytes.symm.trans hname)
  have hletters : utf8 "hé" = [104, 195, 169] := by decide
  refine ⟨hfits, k, k', _, registers, _, uses, hr, htrap, ?_⟩
  rcases hreaches with ⟨text, hutf8, _, htexts⟩ | ⟨hnone, _⟩
  · rw [htexts, utf8_injective (hutf8.trans hletters.symm)]
  · exact absurd hletters (hnone "hé")

end Kernel

end TeachingKernel
