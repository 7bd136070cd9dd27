import TeachingKernel.Proofs.Memory.Reading
import TeachingKernel.Proofs.Memory.Storing
import TeachingKernel.Request

/-!
# Memories that agree

Two memories agree if they look the same from inside, whatever frames are behind their pages. All
that is read from them, checked in them or stored to them is then the same.
-/

namespace TeachingKernel.UserMemory

variable {m m' : UserMemory} {va : VirtAddr}

structure Agree (m m' : UserMemory) : Prop where
  whole : m.WholeFrames
  whole' : m'.WholeFrames
  backed : m.Backed
  backed' : m'.Backed
  contents_eq : m.contents = m'.contents

namespace Agree

theorem translate_eq (h : m.Agree m') (va : VirtAddr) : m.translate va = m'.translate va :=
  translate_congr h.whole h.whole' h.contents_eq va

theorem spans_eq (h : m.Agree m') (va : VirtAddr) (count : Nat) :
    m.spans va count = m'.spans va count :=
  spans_congr h.whole h.whole' h.contents_eq va count

theorem copyIn_eq (h : m.Agree m') (va : VirtAddr) (dst : Bytes) :
    m.copyIn va dst = m'.copyIn va dst := by
  rw [copyIn, copyIn, h.spans_eq]

theorem checkReadable_eq (h : m.Agree m') (va : VirtAddr) (length : Nat) :
    m.checkReadable va length = m'.checkReadable va length := by
  rw [checkReadable, checkReadable, h.spans_eq]

theorem checkWritable_eq (h : m.Agree m') (va : VirtAddr) (length : Nat) :
    m.checkWritable va length = m'.checkWritable va length := by
  induction length using Nat.strongRecOn generalizing va with
  | ind length ih =>
    rw [checkWritable, checkWritable]
    by_cases hu : va.isUser = true
    · have hentry := (entryAt?_eq h.backed hu).trans
        ((h.contents_eq ▸ rfl : _ = _).trans (entryAt?_eq h.backed' hu).symm)
      have hpos := va.bytesToPageEnd_pos
      cases he : m.table.entryAt? va with
      | none =>
        rw [he] at hentry
        rw [Option.map_eq_none_iff.mp hentry.symm]
      | some e =>
        rw [he] at hentry
        obtain ⟨e', he', hflag⟩ := Option.map_eq_some_iff.mp hentry.symm
        rw [he']
        simp only [hflag]
        split
        · rfl
        · split
          · rfl
          · split
            · rfl
            · split
              · rfl
              · split
                · rfl
                · exact ih _ (by omega) _
    · simp only [Address.isKernel, hu, Bool.not_false, if_true]

theorem readCall_eq (h : m.Agree m') (sp : VirtAddr) : m.readCall sp = m'.readCall sp := by
  have hword : m.readWord = m'.readWord := by
    funext va
    rw [readWord, readWord, h.copyIn_eq]
  have harg : m.readArg = m'.readArg := by
    funext sp slot
    simp only [readArg, hword]
  simp only [readCall, readArgs, h.translate_eq, hword, harg]

theorem readText_eq (h : m.Agree m') (arg : UInt32) : m.readText arg = m'.readText arg := by
  have htext : m.copyText = m'.copyText := by
    funext va dst
    simp only [copyText, h.spans_eq]
  simp only [readText, htext]

theorem ofCall_eq (h : m.Agree m') (c : RawCall) :
    Request.ofCall m c = Request.ofCall m' c := by
  simp only [Request.ofCall, h.readText_eq, h.checkWritable_eq, h.checkReadable_eq]

/-- The same stores are made or refused. -/
theorem copyOut_cases (h : m.Agree m') (hs : m.Separate) (hs' : m'.Separate) (va : VirtAddr)
    (src : Bytes) :
    ∃ answer pool pool', m.copyOut va src = .ok (answer, pool) ∧
      m'.copyOut va src = .ok (answer, pool') := by
  simp only [copyOut, h.checkWritable_eq]
  cases hc : m'.checkWritable va src.length with
  | error fault => exact ⟨_, m.pool, m'.pool, rfl, rfl⟩
  | ok _ =>
    have hw' := (checkWritable_eq_ok_iff h.backed' va src.length).mp hc
    have hw : ∀ i < src.length, m.contents.isWritable (va.toNat + i) = true :=
      h.contents_eq ▸ hw'
    obtain ⟨pool, hrun, _⟩ := storeFrom_spec hs hw
    obtain ⟨pool', hrun', _⟩ := storeFrom_spec hs' hw'
    exact ⟨_, pool, pool', hrun, hrun'⟩

end Agree

end TeachingKernel.UserMemory
