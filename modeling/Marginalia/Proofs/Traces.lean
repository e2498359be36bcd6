import Marginalia.Fault

/-!
# Attempts and their traces

An attempt is something done to a state step by step that may be refused between two steps, such as
an edit of a workspace or an action in a session. What was changed before a refusal stays changed,
so an attempt that is refused may leave a trace. It leaves none if all that may be refused about it
comes before all that changes something: an attempt without a trace may follow one that changes
nothing (`Traceless.after_still`), and one that is never refused may follow an attempt without a
trace (`Traceless.before_sure`).

Results:
* `Attempt.run_bind`: one attempt after another.
* `Attempt.Traceless.after_still`, `Attempt.Traceless.before_sure`: attempts without a trace.
-/

namespace Marginalia

/-- Something done to a state step by step that may be refused. -/
abbrev Attempt (σ α : Type) := ExceptT Fault (StateM σ) α

namespace Attempt

variable {σ α β : Type} {a : Attempt σ α} {f : α → Attempt σ β}

/-! ## One after another -/

/-- **One attempt after another**, unless the first is refused. -/
theorem run_bind (a : Attempt σ α) (f : α → Attempt σ β) (s : σ) :
    (a >>= f).run.run s = match a.run.run s with
      | (.ok x, s') => (f x).run.run s'
      | (.error e, s') => (.error e, s') := by
  rw [ExceptT.run_bind, StateT.run_bind]
  generalize a.run.run s = outcome
  rcases outcome with ⟨x | x, s'⟩ <;> rfl

theorem run_lift (made : Except Fault α) (s : σ) :
    (liftM made : Attempt σ α).run.run s = (made, s) := by
  cases made <;> rfl

/-! ## What is left of an attempt -/

/-- An attempt that changes nothing, whether or not it is refused. -/
def Still (a : Attempt σ α) : Prop := ∀ s, (a.run.run s).2 = s

/-- An attempt that is never refused. -/
def Sure (a : Attempt σ α) : Prop := ∀ s, ∃ x, (a.run.run s).1 = .ok x

/-- An attempt that leaves the state as it was when it is refused. -/
def Traceless (a : Attempt σ α) : Prop := ∀ s e, (a.run.run s).1 = .error e → (a.run.run s).2 = s

theorem still_pure (x : α) : Still (pure x : Attempt σ α) := fun _ => rfl

theorem still_throw (e : Fault) : Still (throw e : Attempt σ α) := fun _ => rfl

theorem still_get : Still (get : Attempt σ σ) := fun _ => rfl

theorem still_lift (made : Except Fault α) : Still (liftM made : Attempt σ α) :=
  fun s => congrArg Prod.snd (run_lift made s)

theorem sure_pure (x : α) : Sure (pure x : Attempt σ α) := fun _ => ⟨x, rfl⟩

theorem sure_get : Sure (get : Attempt σ σ) := fun s => ⟨s, rfl⟩

theorem sure_modify (g : σ → σ) : Sure (modify g : Attempt σ PUnit) := fun _ => ⟨⟨⟩, rfl⟩

theorem sure_modifyGet (g : σ → α × σ) : Sure (modifyGet g : Attempt σ α) := fun s => ⟨(g s).1, rfl⟩

theorem Sure.bind (ha : Sure a) (hf : ∀ x, Sure (f x)) : Sure (a >>= f) := by
  intro s
  obtain ⟨x, hx⟩ := ha s
  rw [run_bind]
  generalize a.run.run s = outcome at hx
  obtain ⟨_, s'⟩ := outcome
  cases hx
  exact hf x s'

theorem Still.traceless (h : Still a) : Traceless a := fun s _ _ => h s

theorem Sure.traceless (h : Sure a) : Traceless a := by
  intro s e he
  obtain ⟨x, hx⟩ := h s
  cases he.symm.trans hx

/-- **Before anything is changed**, there is nothing that a refusal could leave behind. -/
theorem Traceless.after_still (ha : Still a) (hf : ∀ x, Traceless (f x)) :
    Traceless (a >>= f) := by
  intro s e he
  have hs := ha s
  rw [run_bind] at he ⊢
  generalize a.run.run s = outcome at he hs ⊢
  obtain ⟨e' | x, s'⟩ := outcome
  · exact hs
  · exact (hf x s' e he).trans hs

/-- **After the last refusal** anything may be changed. -/
theorem Traceless.before_sure (ha : Traceless a) (hf : ∀ x, Sure (f x)) :
    Traceless (a >>= f) := by
  intro s e he
  have hs := ha s
  rw [run_bind] at he ⊢
  generalize a.run.run s = outcome at he hs ⊢
  obtain ⟨e' | x, s'⟩ := outcome
  · exact hs e' rfl
  · obtain ⟨y, hy⟩ := hf x s'
    cases he.symm.trans hy

end Attempt

end Marginalia
