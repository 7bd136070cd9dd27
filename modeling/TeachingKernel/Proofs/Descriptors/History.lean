import TeachingKernel.Proofs.Kernel.OpenFiles
import TeachingKernel.Proofs.Since

/-!
# Histories of the open files of a process

Whatever is asked of the open files, and in whatever order, a descriptor is handed out once: the
next one is above all that were handed out before, and what is removed stays removed. A file is
found under its descriptor from when it is installed until it is removed or all are drained.

Main statement: `issued_after_history`.
-/

namespace TeachingKernel.Descriptors

variable {η : Type}

inductive Call (η : Type) where
  | install (file : η)
  | get (fd : Int32)
  /-- The file under a descriptor is changed in its place. -/
  | update (fd : Int32) (f : η → η)
  | remove (fd : Int32)
  | drain

inductive Event (η : Type) where
  | installed (fd : Int32) (file : η)
  /-- No descriptor is left. -/
  | exhausted
  | found (fd : Int32) (file : η)
  | updated (fd : Int32) (file : η)
  | removed (fd : Int32) (file : η)
  /-- There is no file under the descriptor. -/
  | missing (fd : Int32)
  | drained (files : List (Int32 × η))
  deriving DecidableEq

def Call.perform (d : Descriptors η) : Call η → Event η × Descriptors η
  | install file =>
    match d.install? file with
    | some (fd, d') => (.installed fd file, d')
    | none => (.exhausted, d)
  | get fd =>
    match d.get? fd with
    | some file => (.found fd file, d)
    | none => (.missing fd, d)
  | update fd f =>
    match d.get? fd with
    | some file => (.updated fd (f file), d.modify fd f)
    | none => (.missing fd, d)
  | remove fd =>
    match d.remove? fd with
    | some (file, d') => (.removed fd file, d')
    | none => (.missing fd, d)
  | drain => (.drained d.files, d.drained)

/-- What came of calls, one after the other, and the open files after them. -/
def history : List (Call η) → Descriptors η → List (Event η) × Descriptors η
  | [], d => ([], d)
  | call :: calls, d =>
    let (event, d) := call.perform d
    let (events, d) := history calls d
    (event :: events, d)

namespace Event

def handedOut? : Event η → Option Int32
  | installed fd _ => some fd
  | _ => none

def Stores (fd : Int32) (file : η) : Event η → Prop
  | installed n stored | updated n stored => n = fd ∧ stored = file
  | _ => False

/-- The file under the descriptor, if there is one, is still there. -/
def Keeps (fd : Int32) : Event η → Prop
  | removed n _ => n ≠ fd
  | drained _ => False
  | _ => True

/-- It is still there, and as it was. -/
def Leaves (fd : Int32) : Event η → Prop
  | installed n _ | updated n _ | removed n _ => n ≠ fd
  | drained _ => False
  | _ => True

end Event

def handedOut (events : List (Event η)) : List Int32 := events.filterMap (·.handedOut?)

def Call.target? : Call η → Option Int32
  | get fd | update fd _ | remove fd => some fd
  | _ => none

inductive Answers (d : Descriptors η) : Call η → Event η → Descriptors η → Prop
  | installed {fd : Int32} {file : η} (hfd : fd.toInt = d.last.toInt + 1) :
      Answers d (.install file) (.installed fd file) ⟨fd, d.files ++ [(fd, file)]⟩
  | exhausted {file : η} (hfull : d.last = Int32.maxValue) :
      Answers d (.install file) .exhausted d
  | found {fd : Int32} {file : η} (hget : d.get? fd = some file) :
      Answers d (.get fd) (.found fd file) d
  | updated {fd : Int32} {f : η → η} {file : η} {before after : List (Int32 × η)}
      (hget : d.get? fd = some file) (hfiles : d.files = before ++ (fd, file) :: after) :
      Answers d (.update fd f) (.updated fd (f file)) ⟨d.last, before ++ (fd, f file) :: after⟩
  | removed {fd : Int32} {file : η} {before after : List (Int32 × η)}
      (hget : d.get? fd = some file) (hfiles : d.files = before ++ (fd, file) :: after) :
      Answers d (.remove fd) (.removed fd file) ⟨d.last, before ++ after⟩
  | missing {call : Call η} {fd : Int32} (hcall : call.target? = some fd)
      (hnone : d.get? fd = none) : Answers d call (.missing fd) d
  | drained : Answers d .drain (.drained d.files) ⟨d.last, []⟩

/-- The open files are listed by their descriptors, which are above those of the console and not
above the last that was handed out. -/
structure Ordered (d : Descriptors η) : Prop where
  ascending : (d.files.map (·.1)).Pairwise (· < ·)
  bounds : ∀ file ∈ d.files, 2 ≤ file.1 ∧ file.1 ≤ d.last

structure Issued (past : List (Event η)) (d : Descriptors η) : Prop extends Ordered d where
  /-- No descriptor is handed out twice. -/
  increasing : (handedOut past).Pairwise (· < ·)
  two_le : ∀ fd ∈ handedOut past, 2 ≤ fd
  /-- The counter stands at the largest that was handed out. -/
  le_last : ∀ fd ∈ handedOut past, fd ≤ d.last
  last_eq : d.last = (handedOut past).getLastD consoleOutput
  /-- A descriptor has the file that was stored under it last, unless it was removed since. -/
  stored : ∀ fd file, d.get? fd = some file ↔ Since (·.Stores fd file) (·.Leaves fd) past
  isOpen : ∀ fd, (d.get? fd).isSome = true ↔ Since (·.handedOut? = some fd) (·.Keeps fd) past
  /-- What was removed at any time is not there. -/
  gone : ∀ fd file, .removed fd file ∈ past →
    fd ≤ d.last ∧ d.get? fd = none ∧ d.remove? fd = none

variable {d d' : Descriptors η} {past : List (Event η)} {event : Event η} {fd n : Int32} {file : η}

/-! ## The order of the descriptors -/

theorem Ordered.sound (h : d.Ordered) : d.Sound :=
  ⟨h.ascending.imp Int32.ne_of_lt, fun file hfile => (h.bounds file hfile).2⟩

theorem toInt_of_install? (h : d.install? file = some (fd, d')) :
    fd.toInt = d.last.toInt + 1 := by
  unfold install? at h
  split at h
  · contradiction
  · rename_i hlast
    cases h
    have hmax : Int32.maxValue.toInt = 2147483647 := by decide
    have hone : (1 : Int32).toInt = 1 := by decide
    rw [← Int32.toInt_inj, hmax] at hlast
    have hle := d.last.toInt_le
    have hge := d.last.le_toInt
    rw [Int32.toInt_add, hone, Int.bmod_eq_of_le] <;> omega

theorem last_lt_of_toInt (h : fd.toInt = d.last.toInt + 1) : d.last < fd := by
  rw [Int32.lt_iff_toInt_lt]
  omega

theorem ordered_empty : (empty : Descriptors η).Ordered := ⟨.nil, nofun⟩

theorem ordered_drained (d : Descriptors η) : d.drained.Ordered := ⟨.nil, nofun⟩

/-- The next descriptor stands behind all others. -/
theorem Ordered.installed (h : d.Ordered) (htwo : 2 ≤ fd) (hlt : d.last < fd) :
    Ordered ⟨fd, d.files ++ [(fd, file)]⟩ where
  ascending := by
    rw [List.map_append, List.pairwise_append]
    refine ⟨h.ascending, List.pairwise_singleton _ _, fun a ha b hb => ?_⟩
    obtain ⟨other, hother, rfl⟩ := List.mem_map.mp ha
    rw [List.mem_singleton.mp hb]
    exact Int32.lt_of_le_of_lt (h.bounds other hother).2 hlt
  bounds other hother := by
    rcases List.mem_append.mp hother with hother | hother
    · obtain ⟨hlower, hle⟩ := h.bounds other hother
      exact ⟨hlower, Int32.le_of_lt (Int32.lt_of_le_of_lt hle hlt)⟩
    · rw [List.mem_singleton.mp hother]
      exact ⟨htwo, Int32.le_refl fd⟩

/-- Files may be left out. -/
theorem Ordered.sublist (h : d.Ordered) {files : List (Int32 × η)} (hs : files.Sublist d.files) :
    Ordered ⟨d.last, files⟩ :=
  ⟨h.ascending.sublist (hs.map _), fun other hother => h.bounds other (hs.subset hother)⟩

/-- Files may be changed. -/
theorem Ordered.of_keys_eq (h : d.Ordered) {files : List (Int32 × η)}
    (hkeys : files.map (·.1) = d.files.map (·.1)) : Ordered ⟨d.last, files⟩ where
  ascending := by
    rw [hkeys]
    exact h.ascending
  bounds other hother := by
    have hkey : other.1 ∈ d.files.map (·.1) := hkeys ▸ List.mem_map_of_mem hother
    obtain ⟨old, hold, heq⟩ := List.mem_map.mp hkey
    rw [← heq]
    exact h.bounds old hold

/-! ## One file in the list -/

/-- Where the file under a descriptor stands; there is no other file under this descriptor. -/
theorem Ordered.exists_split (h : d.Ordered) (hget : d.get? fd = some file) :
    ∃ before after, d.files = before ++ (fd, file) :: after ∧
      (∀ other ∈ before, other.1 ≠ fd) ∧ ∀ other ∈ after, other.1 ≠ fd := by
  obtain ⟨before, after, hfiles, -⟩ := List.lookup_eq_some_iff.mp hget
  have hasc := h.ascending
  rw [hfiles, List.map_append, List.map_cons, List.pairwise_append, List.pairwise_cons] at hasc
  obtain ⟨-, ⟨hafter, -⟩, hbefore⟩ := hasc
  refine ⟨before, after, hfiles, fun other hother => ?_, fun other hother => ?_⟩
  · exact Int32.ne_of_lt (hbefore _ (List.mem_map_of_mem hother) _ (List.mem_cons_self ..))
  · exact (Int32.ne_of_lt (hafter _ (List.mem_map_of_mem hother))).symm

/-- To change the file under a descriptor leaves the others. -/
theorem get?_modify (d : Descriptors η) (fd : Int32) (f : η → η) (n : Int32) :
    (d.modify fd f).get? n = if n = fd then (d.get? n).map f else d.get? n := by
  simp only [modify, get?]
  induction d.files with
  | nil => simp
  | cons other files ih =>
    obtain ⟨key, file⟩ := other
    rw [List.map_cons, List.lookup_cons, ih]
    by_cases hkey : key = fd
    · rw [if_pos hkey, List.lookup_cons]
      by_cases hn : n = key <;> grind
    · rw [if_neg hkey, List.lookup_cons]
      by_cases hn : n = key <;> grind

/-- It changes nothing but this file. -/
theorem modify_of_split {before after : List (Int32 × η)} (f : η → η)
    (hfiles : d.files = before ++ (fd, file) :: after) (hbefore : ∀ other ∈ before, other.1 ≠ fd)
    (hafter : ∀ other ∈ after, other.1 ≠ fd) :
    d.modify fd f = ⟨d.last, before ++ (fd, f file) :: after⟩ := by
  have hothers : ∀ files : List (Int32 × η), (∀ other ∈ files, other.1 ≠ fd) →
      ((⟨d.last, files⟩ : Descriptors η).modify fd f).files = files := by
    intro files hfiles
    refine (List.map_congr_left fun other hother => ?_).trans (List.map_id _)
    exact if_neg (hfiles other hother)
  simp only [modify] at hothers
  rw [modify, hfiles, List.map_append, List.map_cons, hothers before hbefore,
    hothers after hafter]
  simp only [if_true]

/-- To remove a file removes nothing but this file. -/
theorem remove?_of_split {before after : List (Int32 × η)} (hget : d.get? fd = some file)
    (hfiles : d.files = before ++ (fd, file) :: after)
    (hbefore : ∀ other ∈ before, other.1 ≠ fd) :
    d.remove? fd = some (file, ⟨d.last, before ++ after⟩) := by
  have herase : d.files.eraseP (·.1 = fd) = before ++ after := by
    rw [hfiles, List.eraseP_append_right _ fun other hother => by simpa using hbefore other hother,
      List.eraseP_cons_of_pos (by simp)]
  rw [remove?, hget, Option.map_some, herase]

/-! ## What the events tell -/

theorem handedOut_concat (past : List (Event η)) (event : Event η) :
    handedOut (past ++ [event]) = handedOut past ++ event.handedOut?.toList := by
  rw [handedOut, handedOut, List.filterMap_append]
  cases h : event.handedOut? <;> simp [h]

theorem issued_empty : Issued [] (empty : Descriptors η) where
  toOrdered := ordered_empty
  increasing := .nil
  two_le := nofun
  le_last := nofun
  last_eq := rfl
  stored _ _ := ⟨nofun, fun h => absurd h not_since_nil⟩
  isOpen _ := ⟨nofun, fun h => absurd h not_since_nil⟩
  gone := nofun

/-- The descriptors of the console are below all that come next. -/
theorem Issued.one_le_last (h : Issued past d) : 1 ≤ d.last.toInt := by
  have hone : (1 : Int32).toInt = 1 := by decide
  have htwo : (2 : Int32).toInt = 2 := by decide
  rw [h.last_eq]
  cases hout : (handedOut past).getLast? with
  | none =>
    rw [List.getLastD_eq_getLast?, hout]
    exact Int.le_of_eq hone.symm
  | some fd =>
    have hle := Int32.le_iff_toInt_le.mp (h.two_le fd (List.mem_of_getLast? hout))
    rw [List.getLastD_eq_getLast?, hout, Option.getD_some]
    omega

/-- What is open was handed out, and not above the counter. -/
theorem Issued.le_last_of_get? (h : Issued past d) (hget : d.get? fd = some file) :
    fd ≤ d.last := by
  obtain ⟨before, after, hfiles, -⟩ := h.exists_split hget
  exact (h.bounds (fd, file) (by rw [hfiles]; simp)).2

/-- After one more event, if what it tells is what has changed. -/
theorem Issued.concat (h : Issued past d) (ho : d'.Ordered)
    (hlast : d'.last = event.handedOut?.getD d.last)
    (hnext : ∀ fd, event.handedOut? = some fd → fd.toInt = d.last.toInt + 1)
    (hstored : ∀ fd file, d'.get? fd = some file ↔
      event.Stores fd file ∨ d.get? fd = some file ∧ event.Leaves fd)
    (hopen : ∀ fd, (d'.get? fd).isSome = true ↔
      event.handedOut? = some fd ∨ (d.get? fd).isSome = true ∧ event.Keeps fd)
    (hremoved : ∀ fd file, event = .removed fd file → fd ≤ d.last) :
    Issued (past ++ [event]) d' := by
  have hgrows : d.last ≤ d'.last := by
    rw [hlast]
    cases hout : event.handedOut? with
    | none => exact Int32.le_refl _
    | some fd => exact Int32.le_of_lt (last_lt_of_toInt (hnext fd hout))
  have hnew : ∀ fd ∈ event.handedOut?.toList, d.last < fd ∧ 2 ≤ fd ∧ fd = d'.last := by
    intro fd hfd
    rw [Option.mem_toList] at hfd
    have htwo : (2 : Int32).toInt = 2 := by decide
    have hone := h.one_le_last
    have hfd' := hnext fd hfd
    refine ⟨last_lt_of_toInt hfd', Int32.le_iff_toInt_le.mpr (by omega), ?_⟩
    rw [hlast, hfd, Option.getD_some]
  refine ⟨ho, ?_, ?_, ?_, ?_, ?_, ?_, ?_⟩
  · rw [handedOut_concat, List.pairwise_append]
    refine ⟨h.increasing, ?_, fun a ha b hb =>
      Int32.lt_of_le_of_lt (h.le_last a ha) (hnew b hb).1⟩
    cases event.handedOut? with
    | none => exact .nil
    | some fd => exact List.pairwise_singleton _ _
  · intro fd hfd
    rw [handedOut_concat] at hfd
    rcases List.mem_append.mp hfd with hfd | hfd
    · exact h.two_le fd hfd
    · exact (hnew fd hfd).2.1
  · intro fd hfd
    rw [handedOut_concat] at hfd
    rcases List.mem_append.mp hfd with hfd | hfd
    · exact Int32.le_trans (h.le_last fd hfd) hgrows
    · exact (hnew fd hfd).2.2 ▸ Int32.le_refl _
  · rw [handedOut_concat, hlast]
    cases event.handedOut? with
    | none => rw [Option.toList_none, List.append_nil]; exact h.last_eq
    | some fd => simp
  · intro fd file
    rw [hstored, since_concat, h.stored]
  · intro fd
    rw [hopen, since_concat, h.isOpen]
  · -- what was removed is not above the counter, so it is not handed out again
    intro fd file hmem
    have hclosed : ∀ fd, fd ≤ d.last → d.get? fd = none ∨ ¬ event.Keeps fd → d'.get? fd = none := by
      intro fd hle hgone
      rw [← Option.not_isSome_iff_eq_none, hopen]
      rintro (hout | ⟨hsome, hkeeps⟩)
      · exact Int32.lt_irrefl (Int32.lt_of_lt_of_le (last_lt_of_toInt (hnext fd hout)) hle)
      · rcases hgone with hnone | hkeeps'
        · rw [hnone] at hsome
          contradiction
        · exact hkeeps' hkeeps
    have hnone : fd ≤ d.last ∧ d'.get? fd = none := by
      rcases List.mem_append.mp hmem with hmem | hmem
      · obtain ⟨hle, hnone, -⟩ := h.gone fd file hmem
        exact ⟨hle, hclosed fd hle (.inl hnone)⟩
      · obtain rfl := List.mem_singleton.mp hmem
        have hle := hremoved fd file rfl
        exact ⟨hle, hclosed fd hle (.inr fun hkeeps => hkeeps rfl)⟩
    exact ⟨Int32.le_trans hnone.1 hgrows, hnone.2, remove?_eq_none_iff.mpr hnone.2⟩

/-! ## One call -/

/-- An event that is neither of storing nor of removing. -/
theorem Issued.aside (h : Issued past d) (hout : event.handedOut? = none)
    (hstores : ∀ fd file, ¬ event.Stores fd file) (hleaves : ∀ fd, event.Leaves fd)
    (hkeeps : ∀ fd, event.Keeps fd) (hremoved : ∀ fd file, event ≠ .removed fd file) :
    Issued (past ++ [event]) d := by
  refine h.concat h.toOrdered (by rw [hout]; rfl) (fun fd hfd => ?_) (fun fd file => ?_)
    (fun fd => ?_) fun fd file he => absurd he (hremoved fd file)
  · rw [hout] at hfd
    contradiction
  · rw [or_iff_right (hstores fd file), and_iff_left (hleaves fd)]
  · rw [hout, or_iff_right nofun, and_iff_left (hkeeps fd)]

theorem Issued.exhausted (h : Issued past d) : Issued (past ++ [.exhausted]) d :=
  h.aside rfl (fun _ _ => id) (fun _ => trivial) (fun _ => trivial) fun _ _ => nofun

theorem Issued.found (h : Issued past d) (fd : Int32) (file : η) :
    Issued (past ++ [.found fd file]) d :=
  h.aside rfl (fun _ _ => id) (fun _ => trivial) (fun _ => trivial) fun _ _ => nofun

theorem Issued.missing (h : Issued past d) (fd : Int32) : Issued (past ++ [.missing fd]) d :=
  h.aside rfl (fun _ _ => id) (fun _ => trivial) (fun _ => trivial) fun _ _ => nofun

theorem Issued.installed (h : Issued past d) (hi : d.install? file = some (fd, d')) :
    Issued (past ++ [.installed fd file]) d' := by
  have hfd := toInt_of_install? hi
  obtain ⟨hlt, hd'⟩ := of_install? hi
  have hnone : d.get? fd = none := h.toOrdered.sound.get?_of_last_lt hlt
  have htwo : 2 ≤ fd := by
    have htwo : (2 : Int32).toInt = 2 := by decide
    have hone := h.one_le_last
    exact Int32.le_iff_toInt_le.mpr (by omega)
  refine h.concat (by rw [hd']; exact h.toOrdered.installed htwo hlt) (by rw [hd']; rfl)
    (fun n hn => ?_) (fun n stored => ?_) (fun n => ?_) fun _ _ => nofun
  · cases hn
    exact hfd
  · rw [h.toOrdered.sound.get?_of_install? hi]
    by_cases hn : n = fd
    · simp [Event.Stores, Event.Leaves, hn]
    · simp [Event.Stores, Event.Leaves, hn, eq_comm (a := fd)]
  · rw [h.toOrdered.sound.get?_of_install? hi]
    by_cases hn : n = fd
    · simp [Event.handedOut?, hn]
    · simp [Event.handedOut?, Event.Keeps, hn, eq_comm (a := fd)]

theorem Issued.updated (h : Issued past d) (f : η → η) (hget : d.get? fd = some file) :
    Issued (past ++ [.updated fd (f file)]) (d.modify fd f) := by
  have hkeys : (d.modify fd f).files.map (·.1) = d.files.map (·.1) := by
    rw [modify, List.map_map]
    refine List.map_congr_left fun other _ => ?_
    simp only [Function.comp_apply]
    split <;> rfl
  refine h.concat (h.toOrdered.of_keys_eq hkeys) rfl nofun (fun n stored => ?_) (fun n => ?_)
    fun _ _ => nofun
  · rw [get?_modify]
    by_cases hn : n = fd
    · simp [Event.Stores, Event.Leaves, hn, hget]
    · simp [Event.Stores, Event.Leaves, hn, eq_comm (a := fd)]
  · rw [get?_modify]
    by_cases hn : n = fd <;> simp [Event.handedOut?, Event.Keeps, hn]

theorem Issued.removed (h : Issued past d) (hr : d.remove? fd = some (file, d')) :
    Issued (past ++ [.removed fd file]) d' := by
  obtain ⟨hget, hd'⟩ := of_remove? hr
  refine h.concat (by rw [hd']; exact h.toOrdered.sublist (List.eraseP_sublist ..))
    (by rw [hd']; rfl) nofun (fun n stored => ?_) (fun n => ?_) fun n stored he => ?_
  · rw [h.toOrdered.sound.get?_of_remove? hr]
    by_cases hn : n = fd
    · simp [Event.Stores, Event.Leaves, hn]
    · simp [Event.Stores, Event.Leaves, hn, eq_comm (a := fd)]
  · rw [h.toOrdered.sound.get?_of_remove? hr]
    by_cases hn : n = fd
    · simp [Event.handedOut?, Event.Keeps, hn]
    · simp [Event.handedOut?, Event.Keeps, hn, eq_comm (a := fd)]
  · cases he
    exact h.le_last_of_get? hget

theorem Issued.drained (h : Issued past d) : Issued (past ++ [.drained d.files]) d.drained := by
  refine h.concat d.ordered_drained rfl nofun (fun n stored => ?_) (fun n => ?_) fun _ _ => nofun
  · simp [Descriptors.drained, get?, Event.Stores, Event.Leaves]
  · simp [Descriptors.drained, get?, Event.handedOut?, Event.Keeps]

/-- Every call is answered. -/
theorem answers_call (h : Issued past d) (call : Call η) :
    ∃ event d', call.perform d = (event, d') ∧ Answers d call event d' ∧
      Issued (past ++ [event]) d' := by
  cases call with
  | install file =>
    cases hi : d.install? file with
    | some found =>
      obtain ⟨fd, d'⟩ := found
      refine ⟨_, d', by rw [Call.perform, hi], ?_, h.installed hi⟩
      rw [(of_install? hi).2]
      exact .installed (toInt_of_install? hi)
    | none =>
      exact ⟨_, d, by rw [Call.perform, hi], .exhausted (last_of_install?_eq_none hi), h.exhausted⟩
  | get fd =>
    cases hget : d.get? fd with
    | some file => exact ⟨_, d, by rw [Call.perform, hget], .found hget, h.found fd file⟩
    | none => exact ⟨_, d, by rw [Call.perform, hget], .missing rfl hget, h.missing fd⟩
  | update fd f =>
    cases hget : d.get? fd with
    | some file =>
      obtain ⟨before, after, hfiles, hbefore, hafter⟩ := h.exists_split hget
      refine ⟨_, d.modify fd f, by rw [Call.perform, hget], ?_, h.updated f hget⟩
      rw [modify_of_split f hfiles hbefore hafter]
      exact .updated hget hfiles
    | none => exact ⟨_, d, by rw [Call.perform, hget], .missing rfl hget, h.missing fd⟩
  | remove fd =>
    cases hget : d.get? fd with
    | some file =>
      obtain ⟨before, after, hfiles, hbefore, -⟩ := h.exists_split hget
      have hr := remove?_of_split hget hfiles hbefore
      exact ⟨_, _, by rw [Call.perform, hr], .removed hget hfiles, h.removed hr⟩
    | none =>
      have hr := remove?_eq_none_iff.mpr hget
      exact ⟨_, d, by rw [Call.perform, hr], .missing rfl hget, h.missing fd⟩
  | drain => exact ⟨_, _, rfl, .drained, h.drained⟩

/-! ## Any number of calls -/

theorem history_cons {call : Call η} {calls : List (Call η)} {events : List (Event η)}
    {last : Descriptors η} (hcall : call.perform d = (event, d'))
    (hcalls : history calls d' = (events, last)) :
    history (call :: calls) d = (event :: events, last) := by
  simp only [history, hcall, hcalls]

/-- After any number of calls the open files are as the events tell. -/
theorem Issued.history (h : Issued past d) (calls : List (Call η)) :
    ∃ events d', history calls d = (events, d') ∧ Issued (past ++ events) d' := by
  induction calls generalizing d past with
  | nil => exact ⟨[], d, rfl, by rwa [List.append_nil]⟩
  | cons call calls ih =>
    obtain ⟨event, middle, hcall, -, hmiddle⟩ := answers_call h call
    obtain ⟨events, d', hcalls, hd'⟩ := ih hmiddle
    refine ⟨event :: events, d', history_cons hcall hcalls, ?_⟩
    rwa [List.append_assoc] at hd'

/-- Whatever is asked of the open files of a process, the descriptors increase, and the files are
found that were stored last and not removed since. Whatever is asked next is answered so. -/
theorem issued_after_history (calls : List (Call η)) :
    ∃ events d, history calls empty = (events, d) ∧ Issued events d ∧
      ∀ call : Call η, ∃ event d', call.perform d = (event, d') ∧ Answers d call event d' := by
  obtain ⟨events, d, hrun, h⟩ := issued_empty.history calls
  refine ⟨events, d, hrun, h, fun call => ?_⟩
  obtain ⟨event, d', hcall, hanswers, -⟩ := answers_call h call
  exact ⟨event, d', hcall, hanswers⟩

end TeachingKernel.Descriptors
