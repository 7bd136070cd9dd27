import Mathlib.Logic.Function.Basic
import TeachingKernel.Kernel.Step

/-!
# Handles and descriptors

A handle comes from the file system when a file is opened, and goes back to it when it is dropped.
In between a process has it under a descriptor. The moves of the handles say through which
descriptors they went: they account for the open files if every descriptor was passed by one handle
at most, once in and once out, and has that handle exactly while it was not dropped.

Descriptors are counted upwards, so no handle is put where another one has been. That is what keeps
the accounts, whatever is opened, closed or left behind at an exit.
-/

namespace TeachingKernel

variable {η : Type}

/-! ## Passages and moves -/

inductive Passage (η : Type) where
  | opened (handle : η)
  | dropped (handle : η)
  deriving DecidableEq

def DeviceUse.passage? : DeviceUse η → Option (Passage η)
  | .open _ handle => handle.map .opened
  | .close handle => some (.dropped handle)
  | _ => none

def DeviceUse.worksOn? : DeviceUse η → Option η
  | .length handle _ | .read handle _ _ | .write handle _ _ | .seek handle _ | .tell handle _ =>
    some handle
  | _ => none

/-- No handle comes or goes, and if the use works on a handle it is the target. -/
def DeviceUse.WorksOn (target : Option η) (use : DeviceUse η) : Prop :=
  use.passage? = none ∧ ∀ handle, use.worksOn? = some handle → target = some handle

theorem DeviceUse.worksOn_of_eq_some {use : DeviceUse η} {target : Option η} {handle : η}
    (hp : use.passage? = none) (hw : use.worksOn? = some handle) (h : target = some handle) :
    use.WorksOn target := by
  refine ⟨hp, fun other hother => ?_⟩
  cases hw.symm.trans hother
  exact h

theorem DeviceUse.worksOn_of_eq_none {use : DeviceUse η} {target : Option η}
    (hp : use.passage? = none) (hw : use.worksOn? = none) : use.WorksOn target := by
  refine ⟨hp, fun other hother => ?_⟩
  rw [hw] at hother
  contradiction

inductive Move (η : Type) where
  /-- It was opened for a process and is put under a descriptor. -/
  | taken (pid : Pid) (fd : Int32) (handle : η)
  /-- It is taken from under its descriptor and dropped. -/
  | dropped (pid : Pid) (fd : Int32) (handle : η)
  /-- It was opened when no descriptor was left, and is dropped at once. -/
  | turnedAway (handle : η)

namespace Move

def passages : Move η → List (Passage η)
  | taken _ _ handle => [.opened handle]
  | dropped _ _ handle => [.dropped handle]
  | turnedAway handle => [.opened handle, .dropped handle]

/-- The passage through a descriptor of a process. -/
def at? (pid : Pid) (fd : Int32) : Move η → Option (Passage η)
  | taken q n handle => if pid = q ∧ fd = n then some (.opened handle) else none
  | dropped q n handle => if pid = q ∧ fd = n then some (.dropped handle) else none
  | turnedAway _ => none

end Move

/-- What has passed through one descriptor. -/
def passedAt (pid : Pid) (fd : Int32) (moves : List (Move η)) : List (Passage η) :=
  moves.filterMap (·.at? pid fd)

theorem passedAt_append (pid : Pid) (fd : Int32) (before after : List (Move η)) :
    passedAt pid fd (before ++ after) = passedAt pid fd before ++ passedAt pid fd after :=
  List.filterMap_append

inductive Custody : Option η → List (Passage η) → Prop
  | unused : Custody none []
  | holds (handle : η) : Custody (some handle) [.opened handle]
  | ended (handle : η) : Custody none [.opened handle, .dropped handle]

theorem Custody.eq_opened {handle : η} {passed : List (Passage η)}
    (h : Custody (some handle) passed) : passed = [.opened handle] := by
  cases h
  rfl

theorem Custody.eq_dropped {handle : η} {passed : List (Passage η)}
    (h : Custody none (.opened handle :: passed)) : passed = [.dropped handle] := by
  cases h
  rfl

theorem Custody.drop {held : Option η} {passed : List (Passage η)} (h : Custody held passed) :
    Custody none (passed ++ held.toList.map .dropped) := by
  cases h with
  | unused => exact .unused
  | holds handle => exact .ended handle
  | ended handle => exact .ended handle

theorem Custody.held_eq_none {held : Option η} (h : Custody held []) : held = none := by
  cases h
  rfl

/-! ## Descriptors -/

namespace Descriptors

variable {d d' : Descriptors η} {fd n : Int32} {handle : η}

structure Sound (d : Descriptors η) : Prop where
  nodup : (d.files.map (·.1)).Nodup
  le_last : ∀ file ∈ d.files, file.1 ≤ d.last

theorem sound_empty : (empty : Descriptors η).Sound := ⟨.nil, nofun⟩

theorem sound_drained (d : Descriptors η) : d.drained.Sound := ⟨.nil, nofun⟩

theorem lt_succ (h : n ≠ Int32.maxValue) : n < n + 1 := by
  have hmax : Int32.maxValue.toInt = 2147483647 := by decide
  have hone : (1 : Int32).toInt = 1 := by decide
  rw [ne_eq, ← Int32.toInt_inj, hmax] at h
  have hle := n.toInt_le
  have hge := n.le_toInt
  rw [Int32.lt_iff_toInt_lt, Int32.toInt_add, hone, Int.bmod_eq_of_le] <;> omega

theorem of_install? (h : d.install? handle = some (fd, d')) :
    d.last < fd ∧ d' = { last := fd, files := d.files ++ [(fd, handle)] } := by
  unfold install? at h
  split at h
  · contradiction
  · rename_i hlast
    cases h
    exact ⟨lt_succ hlast, rfl⟩

theorem last_of_install?_eq_none (h : d.install? handle = none) : d.last = Int32.maxValue := by
  unfold install? at h
  split at h
  · assumption
  · contradiction

theorem of_remove? (h : d.remove? fd = some (handle, d')) :
    d.get? fd = some handle ∧ d' = { d with files := d.files.eraseP (·.1 = fd) } := by
  obtain ⟨_, hget, heq⟩ := Option.map_eq_some_iff.mp h
  cases heq
  exact ⟨hget, rfl⟩

theorem remove?_eq_none_iff : d.remove? fd = none ↔ d.get? fd = none := Option.map_eq_none_iff

theorem lookup_eq_none_of_notMem {files : List (Int32 × η)} (h : n ∉ files.map (·.1)) :
    files.lookup n = none := by
  rw [List.lookup_eq_none_iff]
  intro file hfile
  exact bne_iff_ne.mpr fun hn => h (hn ▸ List.mem_map_of_mem hfile)

/-- There is nothing under a descriptor that is still ahead. -/
theorem Sound.get?_of_last_lt (h : d.Sound) (hfd : d.last < fd) : d.get? fd = none := by
  apply lookup_eq_none_of_notMem
  intro hmem
  obtain ⟨file, hfile, rfl⟩ := List.mem_map.mp hmem
  exact Int32.lt_irrefl (Int32.lt_of_lt_of_le hfd (h.le_last file hfile))

/-- A handle goes under a descriptor of its own. -/
theorem Sound.get?_of_install? (h : d.Sound) (hi : d.install? handle = some (fd, d')) (n : Int32) :
    d'.get? n = if n = fd then some handle else d.get? n := by
  obtain ⟨hlt, rfl⟩ := of_install? hi
  have hnone := h.get?_of_last_lt hlt
  rw [get?, List.lookup_append, ← get?]
  split
  · rename_i hn
    rw [hn, hnone]
    simp
  · rename_i hn
    simp [List.lookup_cons, beq_false_of_ne hn]

theorem Sound.install? (h : d.Sound) (hi : d.install? handle = some (fd, d')) : d'.Sound := by
  obtain ⟨hlt, rfl⟩ := of_install? hi
  refine ⟨?_, fun file hfile => ?_⟩
  · rw [List.map_append, List.nodup_append]
    refine ⟨h.nodup, by simp, ?_⟩
    intro n hn n' hn'
    obtain ⟨file, hfile, rfl⟩ := List.mem_map.mp hn
    have hle := h.le_last file hfile
    simp at hn'
    grind
  · rcases List.mem_append.mp hfile with hfile | hfile
    · have hle := h.le_last file hfile
      simp
      grind
    · simp at hfile
      simp [hfile]

/-- If no key is there twice, to erase it once is to erase it. -/
theorem lookup_eraseP {files : List (Int32 × η)} (h : (files.map (·.1)).Nodup) (n : Int32) :
    (files.eraseP (·.1 = fd)).lookup n = if n = fd then none else files.lookup n := by
  induction files with
  | nil => simp
  | cons file files ih =>
    obtain ⟨key, handle⟩ := file
    rw [List.map_cons, List.nodup_cons] at h
    obtain ⟨hkey, hrest⟩ := h
    by_cases hfd : key = fd
    · have hnone : files.lookup key = none :=
        lookup_eq_none_of_notMem hkey
      rw [List.eraseP_cons_of_pos (by simpa using hfd), List.lookup_cons, ← hfd]
      split
      · rename_i hn
        rw [hn, hnone]
      · rename_i hn
        rw [beq_false_of_ne hn]
    · rw [List.eraseP_cons_of_neg (by simpa using hfd), List.lookup_cons, List.lookup_cons,
        ih hrest]
      grind

/-- Nothing is left under a descriptor that was closed, and nothing happened to the others. -/
theorem Sound.get?_of_remove? (h : d.Sound) (hr : d.remove? fd = some (handle, d')) (n : Int32) :
    d'.get? n = if n = fd then none else d.get? n := by
  obtain ⟨_, rfl⟩ := of_remove? hr
  exact lookup_eraseP h.nodup n

theorem Sound.remove? (h : d.Sound) (hr : d.remove? fd = some (handle, d')) : d'.Sound := by
  obtain ⟨_, rfl⟩ := of_remove? hr
  exact ⟨h.nodup.sublist ((List.eraseP_sublist ..).map _), fun file hfile =>
    h.le_last file (List.mem_of_mem_eraseP hfile)⟩

/-- To drop files is to drop, under each descriptor, the file that is there. -/
theorem passedAt_drop {files : List (Int32 × η)} (h : (files.map (·.1)).Nodup) (pid : Pid)
    (fd : Int32) :
    passedAt pid fd (files.map fun file => .dropped pid file.1 file.2) =
      (files.lookup fd).toList.map .dropped := by
  induction files with
  | nil => rfl
  | cons file files ih =>
    obtain ⟨key, handle⟩ := file
    rw [List.map_cons, List.nodup_cons] at h
    obtain ⟨hkey, hrest⟩ := h
    rw [List.map_cons, passedAt, List.filterMap_cons, ← passedAt, ih hrest, List.lookup_cons]
    by_cases hfd : key = fd
    · rw [← hfd, lookup_eq_none_of_notMem hkey]
      simp [Move.at?]
    · simp [Move.at?, Ne.symm hfd, beq_false_of_ne (Ne.symm hfd)]

end Descriptors

/-! ## Open files -/

abbrev OpenFiles (η : Type) := Pid → Option (Descriptors η)

def OpenFiles.held (D : OpenFiles η) (pid : Pid) (fd : Int32) : Option η :=
  (D pid).bind (·.get? fd)

variable {D : OpenFiles η} {d d' : Descriptors η} {pid q : Pid} {fd n : Int32} {handle : η}
  {moves : List (Move η)}

namespace OpenFiles

theorem held_of_eq_some (hd : D pid = some d) (fd : Int32) : D.held pid fd = d.get? fd := by
  rw [held, hd, Option.bind_some]

theorem held_update (D : OpenFiles η) (pid : Pid) (d : Descriptors η) (q : Pid) (fd : Int32) :
    OpenFiles.held (Function.update D pid (some d)) q fd =
      if q = pid then d.get? fd else D.held q fd := by
  rw [held, Function.update_apply]
  split <;> rfl

end OpenFiles

structure Accounts (moves : List (Move η)) (D : OpenFiles η) : Prop where
  custody : ∀ pid fd, Custody (D.held pid fd) (passedAt pid fd moves)
  /-- What has passed through a descriptor has used it up. -/
  used : ∀ pid fd, passedAt pid fd moves ≠ [] → ∃ d, D pid = some d ∧ fd ≤ d.last
  sound : ∀ pid d, D pid = some d → d.Sound

namespace Accounts

theorem empty : Accounts ([] : List (Move η)) fun _ => none :=
  ⟨fun _ _ => .unused, fun _ _ h => absurd rfl h, nofun⟩

theorem le_last (h : Accounts moves D) (hd : D pid = some d) (hne : passedAt pid fd moves ≠ []) :
    fd ≤ d.last := by
  obtain ⟨e, he, hle⟩ := h.used pid fd hne
  cases hd.symm.trans he
  exact hle

/-- A change of the descriptors of one process. -/
theorem update (h : Accounts moves D) {after : List (Move η)} (hsound : d'.Sound)
    (hcustody : ∀ fd, Custody (d'.get? fd) (passedAt pid fd moves ++ passedAt pid fd after))
    (hused : ∀ fd, passedAt pid fd moves ++ passedAt pid fd after ≠ [] → fd ≤ d'.last)
    (hothers : ∀ q fd, q ≠ pid → passedAt q fd after = []) :
    Accounts (moves ++ after) (Function.update D pid (some d')) where
  custody q fd := by
    rw [OpenFiles.held_update, passedAt_append]
    split
    · rename_i hq
      exact hq ▸ hcustody fd
    · rename_i hq
      rw [hothers q fd hq, List.append_nil]
      exact h.custody q fd
  used q fd hne := by
    rw [passedAt_append] at hne
    by_cases hq : q = pid
    · rw [hq, Function.update_self]
      exact ⟨d', rfl, hused fd (hq ▸ hne)⟩
    · rw [hothers q fd hq, List.append_nil] at hne
      rw [Function.update_of_ne hq]
      exact h.used q fd hne
  sound q e he := by
    by_cases hq : q = pid
    · rw [hq, Function.update_self] at he
      cases he
      exact hsound
    · rw [Function.update_of_ne hq] at he
      exact h.sound q e he

/-- A process that is new has no files. -/
theorem entered (h : Accounts moves D) (hnew : D pid = none) :
    Accounts moves (Function.update D pid (some .empty)) := by
  have hnone : ∀ fd, passedAt pid fd moves = [] := by
    intro fd
    by_contra hne
    obtain ⟨d, hd, _⟩ := h.used pid fd hne
    rw [hnew] at hd
    contradiction
  rw [← List.append_nil moves]
  refine h.update Descriptors.sound_empty (fun fd => ?_) (fun fd hne => absurd ?_ hne)
    fun _ _ _ => rfl
  · rw [hnone fd]
    exact .unused
  · rw [hnone fd]
    rfl

/-- A handle goes under a descriptor where none has been. -/
theorem taken (h : Accounts moves D) (hd : D pid = some d)
    (hi : d.install? handle = some (fd, d')) :
    Accounts (moves ++ [.taken pid fd handle]) (Function.update D pid (some d')) := by
  have hs := h.sound pid d hd
  obtain ⟨hlt, hd'⟩ := Descriptors.of_install? hi
  have hnone : passedAt pid fd moves = [] := by
    by_contra hne
    exact Int32.lt_irrefl (Int32.lt_of_lt_of_le hlt (h.le_last hd hne))
  have hat : ∀ q n, passedAt q n [.taken pid fd handle] =
      if q = pid ∧ n = fd then [.opened handle] else [] := by
    intro q n
    by_cases hqn : q = pid ∧ n = fd <;> simp [passedAt, Move.at?, hqn]
  refine h.update (hs.install? hi) (fun n => ?_) (fun n hne => ?_) fun q n hq => ?_
  · rw [hs.get?_of_install? hi, hat]
    by_cases hn : n = fd
    · rw [if_pos hn, if_pos ⟨rfl, hn⟩, hn, hnone]
      exact .holds handle
    · rw [if_neg hn, if_neg fun hc => hn hc.2, List.append_nil, ← OpenFiles.held_of_eq_some hd]
      exact h.custody pid n
  · rw [hat] at hne
    rw [hd']
    by_cases hn : n = fd
    · exact hn ▸ Int32.le_refl _
    · rw [if_neg fun hc => hn hc.2, List.append_nil] at hne
      exact Int32.le_of_lt (Int32.lt_of_le_of_lt (h.le_last hd hne) hlt)
  · rw [hat, if_neg fun hc => hq hc.1]

/-- Under every descriptor of a process the handle is dropped or stays. -/
theorem drops (h : Accounts moves D) (hd : D pid = some d) {after : List (Move η)}
    (hsound : d'.Sound) (hlast : d'.last = d.last)
    (hothers : ∀ q fd, q ≠ pid → passedAt q fd after = [])
    (hdrops : ∀ fd,
      d'.get? fd = none ∧ passedAt pid fd after = (d.get? fd).toList.map .dropped ∨
        d'.get? fd = d.get? fd ∧ passedAt pid fd after = []) :
    Accounts (moves ++ after) (Function.update D pid (some d')) := by
  have hcustody := fun fd => OpenFiles.held_of_eq_some hd fd ▸ h.custody pid fd
  refine h.update hsound (fun fd => ?_) (fun fd hne => ?_) hothers
  · rcases hdrops fd with ⟨hget, hpassed⟩ | ⟨hget, hpassed⟩
    · rw [hget, hpassed]
      exact (hcustody fd).drop
    · rw [hget, hpassed, List.append_nil]
      exact hcustody fd
  · rw [hlast]
    apply h.le_last hd
    -- what is dropped had been put there
    intro hnone
    have hget := (hnone ▸ hcustody fd).held_eq_none
    rw [hnone, List.nil_append] at hne
    rcases hdrops fd with ⟨_, hpassed⟩ | ⟨_, hpassed⟩
    · exact hne (by rw [hpassed, hget]; rfl)
    · exact hne hpassed

theorem closed (h : Accounts moves D) (hd : D pid = some d)
    (hr : d.remove? fd = some (handle, d')) :
    Accounts (moves ++ [.dropped pid fd handle]) (Function.update D pid (some d')) := by
  have hs := h.sound pid d hd
  obtain ⟨hget, hd'⟩ := Descriptors.of_remove? hr
  refine h.drops hd (hs.remove? hr) (by rw [hd']) (fun q n hq => ?_) fun n => ?_
  · simp [passedAt, Move.at?, hq]
  · rw [hs.get?_of_remove? hr]
    by_cases hn : n = fd
    · rw [if_pos hn, hn, hget]
      exact .inl ⟨rfl, by simp [passedAt, Move.at?]⟩
    · rw [if_neg hn]
      exact .inr ⟨rfl, by simp [passedAt, Move.at?, hn]⟩

/-- All files of a process are dropped. -/
theorem drained (h : Accounts moves D) (hd : D pid = some d) :
    Accounts (moves ++ d.files.map fun file => .dropped pid file.1 file.2)
      (Function.update D pid (some d.drained)) := by
  refine h.drops hd d.sound_drained rfl (fun q n hq => ?_) fun n => ?_
  · rw [passedAt, List.filterMap_map]
    exact List.filterMap_eq_nil_iff.mpr fun file _ => if_neg fun hc => hq hc.1
  · exact .inl ⟨rfl, Descriptors.passedAt_drop (h.sound pid d hd).nodup pid n⟩

theorem turnedAway (h : Accounts moves D) (handle : η) :
    Accounts (moves ++ [.turnedAway handle]) D where
  custody q n := by
    rw [passedAt_append]
    exact (List.append_nil _).symm ▸ h.custody q n
  used q n hne := by
    rw [passedAt_append] at hne
    exact h.used q n fun hnone => hne (by rw [hnone]; rfl)
  sound := h.sound

end Accounts

namespace Processes

variable {ps : Processes η} {p : UserProcess η}

def openFiles (ps : Processes η) : OpenFiles η := fun pid => (ps.get? pid).map (·.files)

theorem openFiles_of_get? (hp : ps.get? pid = some p) : ps.openFiles pid = some p.files := by
  rw [openFiles, hp, Option.map_some]

/-- A change of one process, as far as files go. -/
theorem openFiles_modify (hp : ps.get? pid = some p) (f : UserProcess η → UserProcess η) :
    (ps.modify pid f).openFiles = Function.update ps.openFiles pid (some (f p).files) := by
  funext q
  rw [openFiles, get?_modify, Function.update_apply]
  split
  · rename_i hq
    rw [hq, hp]
    rfl
  · rfl

theorem openFiles_modify_of_files_eq (ps : Processes η) (pid : Pid)
    {f : UserProcess η → UserProcess η} (hf : ∀ p, (f p).files = p.files) :
    (ps.modify pid f).openFiles = ps.openFiles := by
  funext q
  rw [openFiles, openFiles, get?_modify]
  split
  · rw [Option.map_map]
    congr 1
    funext p
    exact hf p
  · rfl

theorem openFiles_clearAccessed (ps : Processes η) (holder : Holder) :
    (UseBits.clearAccessed ps holder).openFiles = ps.openFiles :=
  openFiles_modify_of_files_eq ps holder.pid fun _ => rfl

end Processes

def Kernel.openFiles {φ χ ω : Type} (k : Kernel φ η χ ω) : OpenFiles η := k.processes.openFiles

end TeachingKernel
