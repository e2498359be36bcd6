import Mathlib.Data.List.Forall2

/-!
# Traversals

Of two steps that may be refused, one after the other, both are done or one of them is refused.
Doing such a step to each item of a list, the traversal is done when each of its items is, and is
refused for one of them.

Results:
* `exists_of_bind_eq_ok`: the outcomes of two steps that are done.
* `mapM_eq_ok_iff`: the outcomes of a traversal that is done.
* `mapM_eq_error_iff`: a traversal is refused iff one of its items is.
-/

namespace Marginalia

variable {ε α β : Type} {f : α → Except ε β}

/-- Two steps, the second of which depends on the first, are done when each of them is. -/
theorem exists_of_bind_eq_ok {x : Except ε α} {b : β} (h : (x >>= f) = .ok b) :
    ∃ a, x = .ok a ∧ f a = .ok b := by
  cases x with
  | error e => cases h
  | ok a => exact ⟨a, rfl, h⟩

/-- What is made of the outcome of a step is there when the step is done. -/
theorem exists_of_map_eq_ok {x : Except ε α} {g : α → β} {b : β} (h : x.map g = .ok b) :
    ∃ a, x = .ok a ∧ g a = b := by
  cases x with
  | error e => cases h
  | ok a => exact ⟨a, rfl, Except.ok.inj h⟩

/-- A traversal is done when each of its items is. -/
theorem forall₂_of_mapM_eq_ok : ∀ {xs : List α} {ys : List β}, xs.mapM f = .ok ys →
    List.Forall₂ (fun x y => f x = .ok y) xs ys
  | [], ys, h => by
    cases h
    exact .nil
  | x :: xs, ys, h => by
    rw [List.mapM_cons] at h
    obtain ⟨y, hx, h⟩ := exists_of_bind_eq_ok h
    obtain ⟨ys', hxs, h⟩ := exists_of_bind_eq_ok h
    cases h
    exact .cons hx (forall₂_of_mapM_eq_ok hxs)

/-- Outcomes that are paired with what they come from may be asked for more on their own. -/
theorem forall₂_and_right {R : α → β → Prop} {p : β → Prop} {xs : List α} {ys : List β} :
    List.Forall₂ (fun x y => R x y ∧ p y) xs ys ↔ List.Forall₂ R xs ys ∧ ∀ y ∈ ys, p y := by
  constructor
  · intro h
    induction h with
    | nil => exact ⟨.nil, by simp⟩
    | cons hxy _ ih => exact ⟨.cons hxy.1 ih.1, List.forall_mem_cons.mpr ⟨hxy.2, ih.2⟩⟩
  · rintro ⟨h, hp⟩
    induction h with
    | nil => exact .nil
    | cons hxy _ ih =>
      rw [List.forall_mem_cons] at hp
      exact .cons ⟨hxy, hp.1⟩ (ih hp.2)

/-- What is paired with two lists in a row is two lists in a row. -/
theorem exists_of_forall₂_append {R : α → β → Prop} : ∀ {xs xs' : List α} {zs : List β},
    List.Forall₂ R (xs ++ xs') zs →
    ∃ ys ys', List.Forall₂ R xs ys ∧ List.Forall₂ R xs' ys' ∧ zs = ys ++ ys'
  | [], _, zs, h => ⟨[], zs, .nil, h, rfl⟩
  | x :: xs, xs', _, h => by
    obtain ⟨y, zs, hxy, hzs, rfl⟩ := List.forall₂_cons_left_iff.mp h
    obtain ⟨ys, ys', hys, hys', rfl⟩ := exists_of_forall₂_append hzs
    exact ⟨y :: ys, ys', .cons hxy hys, hys', rfl⟩

theorem mapM_eq_ok_iff {xs : List α} {ys : List β} :
    xs.mapM f = .ok ys ↔ List.Forall₂ (fun x y => f x = .ok y) xs ys := by
  refine ⟨forall₂_of_mapM_eq_ok, fun h => ?_⟩
  induction h with
  | nil => rfl
  | cons hx _ ih =>
    rw [List.mapM_cons, hx, ih]
    rfl

/-- A traversal is refused for one of its items. -/
theorem exists_of_mapM_eq_error : ∀ {xs : List α} {e : ε}, xs.mapM f = .error e →
    ∃ x ∈ xs, f x = .error e
  | x :: xs, e, h => by
    rw [List.mapM_cons] at h
    cases hx : f x with
    | error e' =>
      rw [hx] at h
      cases h
      exact ⟨x, List.mem_cons_self, hx⟩
    | ok y =>
      cases hxs : xs.mapM f with
      | error e' =>
        rw [hx, hxs] at h
        cases h
        obtain ⟨x', hmem, hx'⟩ := exists_of_mapM_eq_error hxs
        exact ⟨x', List.mem_cons_of_mem x hmem, hx'⟩
      | ok ys' =>
        rw [hx, hxs] at h
        cases h

theorem mapM_eq_error_iff {xs : List α} :
    (∃ e, xs.mapM f = .error e) ↔ ∃ x ∈ xs, ∃ e, f x = .error e := by
  constructor
  · rintro ⟨e, h⟩
    obtain ⟨x, hmem, hx⟩ := exists_of_mapM_eq_error h
    exact ⟨x, hmem, e, hx⟩
  · rintro ⟨x, hmem, e, hx⟩
    cases h : xs.mapM f with
    | error e' => exact ⟨e', rfl⟩
    | ok ys =>
      obtain ⟨i, hi, rfl⟩ := List.getElem_of_mem hmem
      have hall := forall₂_of_mapM_eq_ok h
      have hi' : i < ys.length := by rw [← hall.length_eq]; exact hi
      have hok := hall.get hi hi'
      rw [List.get_eq_getElem, hx] at hok
      cases hok

end Marginalia
