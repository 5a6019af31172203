import Mathlib.Data.List.Induction

/-!
# Histories

A history is the list of events of a run, oldest first. `Each R` says that every event
stands in relation `R` to the events before it, which is how "only after", "never again"
and "exactly once" are stated; it grows one event at a time.
-/
namespace History

variable {α : Type}

/-- Every event is justified by what came before it. -/
def Each (R : List α → α → Prop) (history : List α) : Prop :=
  ∀ before event after, history = before ++ event :: after → R before event

theorem each_nil (R : List α → α → Prop) : Each R [] := by
  intro before event after split
  simp at split

theorem each_concat (R : List α → α → Prop) (history : List α) (event : α)
    (so_far : Each R history) (next : R history event) : Each R (history ++ [event]) := by
  intro before e after split
  rcases List.eq_nil_or_concat after with rfl | ⟨after, last, rfl⟩
  · obtain ⟨rfl, same⟩ := List.append_inj' split rfl
    cases same
    exact next
  · rw [List.concat_eq_append, ← List.cons_append, ← List.append_assoc] at split
    obtain ⟨rfl, -⟩ := List.append_inj' split rfl
    exact so_far before e after rfl

/-- Several events at once, each justified by the history and the new events before it. -/
theorem each_append (R : List α → α → Prop) (history events : List α)
    (so_far : Each R history) (next : Each (fun before => R (history ++ before)) events) :
    Each R (history ++ events) := by
  induction events using List.reverseRecOn with
  | nil => simpa using so_far
  | append_singleton events event ih =>
    rw [← List.append_assoc]
    apply each_concat
    · apply ih
      intro before e after split
      exact next before e (after ++ [event]) (by simp [split])
    · exact next events event [] rfl

variable {R : List α → α → Prop} {history before : List α}

theorem Each.earlier {events : List α} (each : Each R (history ++ events)) : Each R history := by
  intro before event after split
  exact each before event (after ++ events) (by simp [split])

/-- An event that is never justified a second time happens at most once. -/
theorem Each.count_le_one [DecidableEq α] (each : Each R history) (event : α)
    (once : ∀ before, R before event → event ∉ before) : history.count event ≤ 1 := by
  induction history using List.reverseRecOn with
  | nil => simp
  | append_singleton history last ih =>
    rw [List.count_append]
    by_cases same : last = event
    · subst same
      have fresh := once history (each history last [] rfl)
      rw [List.count_eq_zero_of_not_mem fresh]
      simp
    · have so_far := ih each.earlier
      rw [List.count_singleton, if_neg (by simpa using same)]
      exact so_far

variable {event : α}

theorem split_append {later after : List α} (split : history ++ later = before ++ event :: after)
    (absent : event ∉ later) :
    ∃ rest, history = before ++ event :: rest ∧ after = rest ++ later := by
  rcases List.append_eq_append_iff.mp split with ⟨middle, _, tail⟩ | ⟨middle, head, tail⟩
  · exact absurd (by simp [tail]) absent
  · cases middle with
    | nil =>
      rw [List.nil_append] at tail
      exact absurd (by simp [← tail]) absent
    | cons first rest =>
      obtain ⟨rfl, rfl⟩ := List.cons.inj tail
      exact ⟨rest, head, rfl⟩

theorem split_unique (P : α → Prop) {after before' after' : List α} {event' : α}
    (split : before ++ event :: after = before' ++ event' :: after') (here : P event)
    (there : P event') (once : ∀ e ∈ before ++ after, ¬P e) :
    before = before' ∧ event = event' ∧ after = after' := by
  rcases List.append_eq_append_iff.mp split with ⟨middle, head, tail⟩ | ⟨middle, head, tail⟩
  · cases middle with
    | nil =>
      obtain ⟨rfl, rfl⟩ := List.cons.inj tail
      exact ⟨by simpa using head.symm, rfl, rfl⟩
    | cons first rest =>
      obtain ⟨rfl, rfl⟩ := List.cons.inj tail
      exact absurd there (once event' (by simp))
  · cases middle with
    | nil =>
      obtain ⟨rfl, rfl⟩ := List.cons.inj tail
      exact ⟨by simpa using head, rfl, rfl⟩
    | cons first rest =>
      obtain ⟨rfl, rfl⟩ := List.cons.inj tail
      exact absurd there (once event' (by simp [head]))

/-- A part without an event lies before it or after it. -/
theorem infix_beside {after head part tail : List α}
    (split : before ++ event :: after = head ++ part ++ tail) (absent : event ∉ part) :
    part <:+: before ∨ part <:+: after := by
  rw [List.append_assoc] at split
  rcases List.append_eq_append_iff.mp split with ⟨middle, _, rest⟩ | ⟨middle, rfl, rest⟩
  · cases middle with
    | nil =>
      -- the part would have to begin with the event
      cases part with
      | nil => exact .inl List.nil_infix
      | cons first part =>
        obtain ⟨rfl, _⟩ := List.cons.inj rest
        exact absurd List.mem_cons_self absent
    | cons first middle =>
      obtain ⟨rfl, rfl⟩ := List.cons.inj rest
      exact .inr ⟨middle, tail, by simp⟩
  · rcases List.append_eq_append_iff.mp rest with ⟨more, rfl, _⟩ | ⟨middle', rfl, rest'⟩
    · exact .inl ⟨head, more, by simp⟩
    · cases middle' with
      | nil => exact .inl ⟨head, [], by simp⟩
      | cons first middle' =>
        obtain ⟨rfl, _⟩ := List.cons.inj rest'
        exact absurd (by simp) absent

end History
