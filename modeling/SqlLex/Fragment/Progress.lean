import SqlLex.Fragment.Basic
import SqlLex.LexError

namespace SqlLex

/-!
# Progress of a scan

A scan completes fragments one after the other, and those it has completed stay known when it fails
later on.

* `Progress` — the fragments completed so far, and what the scan came to.
* `Progress.andThen` — a scan followed by another that goes on from its result.
* `Progress.toExcept` — the fragments, if the scan did not fail.
* `andThen_assoc`, `pure_andThen`, `andThen_pure` — following one another is associative, and a
  scan of nothing changes nothing.
* `andThen_of_ok`, `andThen_eq_ok_iff`, `andThen_eq_error_iff` — what the parts of a scan are if it
  fails or not.
-/

/-- The fragments completed by a scan, in order, with the value or the error it ended in. -/
structure Progress (α : Type) where
  fragments : List Fragment
  outcome : Except LexError α

namespace Progress

variable {α β γ : Type}

/-- No fragment is completed. -/
def pure (a : α) : Progress α := ⟨[], .ok a⟩

/-- The scan fails before a fragment is completed. -/
def fail (e : LexError) : Progress α := ⟨[], .error e⟩

/-- Goes on from the result of `p`, unless `p` failed. -/
def andThen (p : Progress α) (f : α → Progress β) : Progress β :=
  match p.outcome with
  | .error e => ⟨p.fragments, .error e⟩
  | .ok a => ⟨p.fragments ++ (f a).fragments, (f a).outcome⟩

/-- All fragments of a scan that did not fail. -/
def toExcept (p : Progress α) : Except LexError (List Fragment) :=
  p.outcome.map fun _ => p.fragments

/-! ### Laws -/

@[simp] theorem pure_andThen (a : α) (f : α → Progress β) : (pure a).andThen f = f a := rfl

@[simp] theorem fail_andThen (e : LexError) (f : α → Progress β) :
    (fail e).andThen f = fail e := rfl

@[simp] theorem andThen_pure (p : Progress α) : p.andThen pure = p := by
  obtain ⟨fs, e | a⟩ := p <;> simp [andThen, pure]

theorem andThen_assoc (p : Progress α) (f : α → Progress β) (g : β → Progress γ) :
    (p.andThen f).andThen g = p.andThen fun a => (f a).andThen g := by
  obtain ⟨fs, e | a⟩ := p
  · rfl
  · cases h : (f a).outcome <;> simp [andThen, h]

/-- A scan that does not fail is followed by the one that its result leads to. -/
theorem andThen_of_ok {p : Progress α} {f : α → Progress β} {fs gs : List Fragment} {a : α}
    {r : Except LexError β} (hp : p = ⟨fs, .ok a⟩) (hf : f a = ⟨gs, r⟩) :
    p.andThen f = ⟨fs ++ gs, r⟩ := by
  simp [andThen, hp, hf]

/-- A scan followed by another does not fail iff neither fails. -/
theorem andThen_eq_ok_iff {p : Progress α} {f : α → Progress β} {fs : List Fragment} {b : β} :
    p.andThen f = ⟨fs, .ok b⟩ ↔
      ∃ gs a hs, p = ⟨gs, .ok a⟩ ∧ f a = ⟨hs, .ok b⟩ ∧ fs = gs ++ hs := by
  obtain ⟨gs, e | a⟩ := p
  · simp [andThen]
  · constructor
    · intro h
      obtain ⟨rfl, hr⟩ := Progress.mk.inj h
      refine ⟨gs, a, (f a).fragments, rfl, ?_, rfl⟩
      rw [← hr]
    · rintro ⟨gs', a', hs, hp, hf, rfl⟩
      cases hp
      simp [andThen, hf]

/-- A scan followed by another fails iff the first fails or leads to a failure of the second. -/
theorem andThen_eq_error_iff {p : Progress α} {f : α → Progress β} {fs : List Fragment}
    {e : LexError} :
    p.andThen f = ⟨fs, .error e⟩ ↔
      p = ⟨fs, .error e⟩ ∨
        ∃ gs a hs, p = ⟨gs, .ok a⟩ ∧ f a = ⟨hs, .error e⟩ ∧ fs = gs ++ hs := by
  obtain ⟨gs, e' | a⟩ := p
  · simp [andThen]
  · constructor
    · intro h
      obtain ⟨rfl, hr⟩ := Progress.mk.inj h
      refine .inr ⟨gs, a, (f a).fragments, rfl, ?_, rfl⟩
      rw [← hr]
    · rintro (hp | ⟨gs', a', hs, hp, hf, rfl⟩)
      · cases hp
      · cases hp
        simp [andThen, hf]

end Progress

end SqlLex
