/-!
# What has held since

A history is a list of events, the latest at its end. What is the case after it is often told by one
event: that it happened, and that nothing has undone it since.

Main statement: `since_concat`.
-/

namespace TeachingKernel

variable {ε : Type} {happened kept : ε → Prop} {events : List ε} {event : ε}

/-- An event of one kind happened, and all events after it were of another. -/
def Since (happened kept : ε → Prop) (events : List ε) : Prop :=
  ∃ before event after, events = before ++ event :: after ∧ happened event ∧ ∀ e ∈ after, kept e

theorem not_since_nil : ¬ Since happened kept [] := by
  rintro ⟨before, event, after, h, -⟩
  cases before with
  | nil => contradiction
  | cons _ _ => contradiction

/-- The latest event is the one that tells, or it leaves what was told before. -/
theorem since_concat :
    Since happened kept (events ++ [event]) ↔
      happened event ∨ Since happened kept events ∧ kept event := by
  constructor
  · rintro ⟨before, e, after, h, hhappened, hkept⟩
    rcases List.eq_nil_or_concat after with rfl | ⟨middle, last, rfl⟩
    · obtain ⟨-, he⟩ := List.append_inj' h rfl
      cases he
      exact .inl hhappened
    · rw [List.concat_eq_append] at h hkept
      have h' : events ++ [event] = (before ++ e :: middle) ++ [last] := by simpa using h
      obtain ⟨rfl, he⟩ := List.append_inj' h' rfl
      cases he
      exact .inr ⟨⟨before, e, middle, rfl, hhappened, fun x hx =>
        hkept x (List.mem_append_left _ hx)⟩, hkept _ (by simp)⟩
  · rintro (h | ⟨⟨before, e, after, rfl, hhappened, hkept⟩, h⟩)
    · exact ⟨events, event, [], rfl, h, nofun⟩
    · refine ⟨before, e, after ++ [event], by simp, hhappened, fun x hx => ?_⟩
      rcases List.mem_append.mp hx with hx | hx
      · exact hkept x hx
      · rwa [List.mem_singleton.mp hx]

end TeachingKernel
