import Marginalia.Line.Mark
import Mathlib.Data.List.Nodup

/-!
# Items in the order of their starts

`inOrder` sorts decorations and pieces of evidence by their starts and leaves those that start
together as they came. That is what the merge sort of the standard library does
(`inOrder_eq_mergeSort`), so its lemmas carry over. Leaving some items out makes no difference to
the order of the others (`inOrder_filter`), nor does moving them all by as much (`inOrder_map`), and
items that start no later than some others come before them (`inOrder_append`). How items came does
not matter as long as those that start together came alike (`inOrder_eq_of_filter_eq`).
-/

namespace Marginalia

section Order

variable {α : Type} {start : α → Int}

/-- An item goes between those that start before it and those that do not. -/
theorem insertInOrder_append {a : α} {before after : List α}
    (hbefore : ∀ b ∈ before, start b < start a) (hafter : ∀ b ∈ after, start a ≤ start b) :
    insertInOrder start a (before ++ after) = before ++ a :: after := by
  induction before with
  | nil =>
    cases after with
    | nil => rfl
    | cons b rest => exact if_pos (hafter b List.mem_cons_self)
  | cons b rest ih =>
    have hb := hbefore b List.mem_cons_self
    rw [List.cons_append, insertInOrder, if_neg (by omega),
      ih fun c hc => hbefore c (List.mem_cons_of_mem b hc), List.cons_append]

variable (start)

theorem startLe_trans (a b c : α) (hab : decide (start a ≤ start b) = true)
    (hbc : decide (start b ≤ start c) = true) : decide (start a ≤ start c) = true := by
  simp only [decide_eq_true_eq] at *
  omega

theorem startLe_total (a b : α) :
    (decide (start a ≤ start b) || decide (start b ≤ start a)) = true := by
  simp only [Bool.or_eq_true, decide_eq_true_eq]
  omega

/-- **`inOrder` is the stable sort by start.** -/
theorem inOrder_eq_mergeSort (items : List α) :
    inOrder start items = items.mergeSort fun a b => start a ≤ start b := by
  induction items with
  | nil => exact List.mergeSort_nil.symm
  | cons a items ih =>
    obtain ⟨before, after, hcons, hrest, hbefore⟩ :=
      List.mergeSort_cons (startLe_trans start) (startLe_total start) a items
    have hsorted := List.pairwise_mergeSort (startLe_trans start) (startLe_total start) (a :: items)
    rw [hcons] at hsorted
    have hafter := (List.pairwise_cons.mp (List.pairwise_append.mp hsorted).2.1).1
    rw [hcons]
    show insertInOrder start a (inOrder start items) = _
    rw [ih, hrest]
    apply insertInOrder_append
    · intro b hb
      simpa using hbefore b hb
    · intro b hb
      simpa using hafter b hb

theorem inOrder_perm (items : List α) : (inOrder start items).Perm items := by
  rw [inOrder_eq_mergeSort]
  exact List.mergeSort_perm items _

@[simp] theorem mem_inOrder {a : α} {items : List α} : a ∈ inOrder start items ↔ a ∈ items :=
  (inOrder_perm start items).mem_iff

theorem inOrder_sorted (items : List α) :
    (inOrder start items).Pairwise fun a b => start a ≤ start b := by
  rw [inOrder_eq_mergeSort]
  refine (List.pairwise_mergeSort (startLe_trans start) (startLe_total start) items).imp ?_
  intro a b hab
  simpa using hab

/-! ## Some of the items, and items of two sorts -/

variable {start} {items others : List α}

theorem insertInOrder_of_le {a : α} (h : ∀ b ∈ items, start a ≤ start b) :
    insertInOrder start a items = a :: items := by
  have hnone : ∀ b ∈ ([] : List α), start b < start a := by simp
  exact insertInOrder_append hnone h

/-- An item that starts no later than some others comes in front of them. -/
theorem insertInOrder_append_right {a : α} (h : ∀ b ∈ others, start a ≤ start b) :
    insertInOrder start a (items ++ others) = insertInOrder start a items ++ others := by
  induction items with
  | nil => exact insertInOrder_of_le h
  | cons b rest ih =>
    rw [List.cons_append, insertInOrder, insertInOrder]
    split
    · rfl
    · rw [ih, List.cons_append]

theorem insertInOrder_filter (p : α → Bool) (a : α)
    (hsorted : items.Pairwise fun a b => start a ≤ start b) :
    (insertInOrder start a items).filter p =
      if p a then insertInOrder start a (items.filter p) else items.filter p := by
  induction items with
  | nil => simp [insertInOrder, List.filter_cons]
  | cons b rest ih =>
    have ih := ih (List.pairwise_cons.mp hsorted).2
    by_cases hab : start a ≤ start b
    · have hle : ∀ c ∈ b :: rest, start a ≤ start c := by
        intro c hc
        rcases List.mem_cons.mp hc with rfl | hc
        · exact hab
        · exact Int.le_trans hab ((List.pairwise_cons.mp hsorted).1 c hc)
      rw [insertInOrder_of_le hle, List.filter_cons,
        insertInOrder_of_le fun c hc => hle c (List.mem_filter.mp hc |>.1)]
    · rw [insertInOrder, if_neg hab, List.filter_cons, ih, List.filter_cons]
      cases p a <;> cases p b <;> simp [insertInOrder, hab]

/-- **Leaving items out keeps the order of the others.** -/
theorem inOrder_filter (p : α → Bool) (items : List α) :
    (inOrder start items).filter p = inOrder start (items.filter p) := by
  induction items with
  | nil => rfl
  | cons a items ih =>
    have hcons : inOrder start (a :: items) = insertInOrder start a (inOrder start items) := rfl
    rw [hcons, insertInOrder_filter p a (inOrder_sorted start items), ih, List.filter_cons]
    split <;> rfl

/-- **Items that start no later than some others come before them.** -/
theorem inOrder_append (h : ∀ a ∈ items, ∀ b ∈ others, start a ≤ start b) :
    inOrder start (items ++ others) = inOrder start items ++ inOrder start others := by
  induction items with
  | nil => rfl
  | cons a items ih =>
    have ih := ih fun c hc => h c (List.mem_cons_of_mem a hc)
    show insertInOrder start a (inOrder start (items ++ others)) = _
    rw [ih, insertInOrder_append_right fun b hb =>
      h a List.mem_cons_self b ((mem_inOrder start).mp hb)]
    rfl

/-- **Items are sorted by whatever goes along with their starts.** -/
theorem inOrder_map {β : Type} {start' : β → Int} (f : α → β)
    (h : ∀ a b, start a ≤ start b ↔ start' (f a) ≤ start' (f b)) (items : List α) :
    inOrder start' (items.map f) = (inOrder start items).map f := by
  rw [inOrder_eq_mergeSort, inOrder_eq_mergeSort, List.map_mergeSort]
  intro a _ b _
  simp only [h]

/-- Sorted items are those that start before some position, and then the others. -/
theorem filter_eq_append_of_sorted (hsorted : items.Pairwise fun a b => start a ≤ start b)
    (i : Int) (p : α → Prop) [DecidablePred p] :
    items.filter (fun a => p a) =
      items.filter (fun a => start a < i ∧ p a) ++ items.filter fun a => i ≤ start a ∧ p a := by
  induction items with
  | nil => rfl
  | cons a rest ih =>
    rw [List.pairwise_cons] at hsorted
    by_cases ha : start a < i
    · by_cases hp : p a <;> simp [ha, hp, Int.not_le.mpr ha, ih hsorted.2]
    · have hall : ∀ b ∈ a :: rest, i ≤ start b := by
        intro b hb
        rcases List.mem_cons.mp hb with rfl | hb
        · omega
        · have := hsorted.1 b hb
          omega
      have hnone : (a :: rest).filter (fun b => start b < i ∧ p b) = [] := by
        refine List.filter_eq_nil_iff.mpr fun b hb => ?_
        have := hall b hb
        simp only [decide_eq_true_eq]
        omega
      rw [hnone, List.nil_append]
      exact List.filter_congr fun b hb => by simp [hall b hb]

/-! ## What the order depends on -/

/-- The first of some sorted items starts no later than any item that is among them. -/
theorem start_le_of_filter_eq {a b : α}
    (hothers : (b :: others).Pairwise fun a b => start a ≤ start b)
    (h : (a :: items).filter (fun c => start c = start a) =
      (b :: others).filter fun c => start c = start a) : start b ≤ start a := by
  have ha : a ∈ (b :: others).filter fun c => start c = start a := by
    rw [← h]
    simp
  rcases List.mem_cons.mp (List.mem_filter.mp ha).1 with rfl | ha
  · exact Int.le_refl _
  · exact (List.pairwise_cons.mp hothers).1 a ha

/-- Sorted items are told by those that start at each position. -/
theorem eq_of_sorted_of_filter_eq : ∀ {items others : List α},
    items.Pairwise (fun a b => start a ≤ start b) → others.Pairwise (fun a b => start a ≤ start b) →
    (∀ i, items.filter (fun a => start a = i) = others.filter fun a => start a = i) →
    items = others
  | [], [], _, _, _ => rfl
  | [], b :: others, _, _, h => by simpa using h (start b)
  | a :: items, [], _, _, h => by simpa using h (start a)
  | a :: items, b :: others, hitems, hothers, h => by
    have hab : start b = start a := Int.le_antisymm (start_le_of_filter_eq hothers (h (start a)))
      (start_le_of_filter_eq hitems (h (start b)).symm)
    have heads := h (start a)
    rw [List.filter_cons_of_pos (by simp), List.filter_cons_of_pos (by simpa using hab)] at heads
    obtain ⟨rfl, -⟩ := List.cons.inj heads
    refine congrArg (a :: ·) (eq_of_sorted_of_filter_eq (List.pairwise_cons.mp hitems).2
      (List.pairwise_cons.mp hothers).2 fun i => ?_)
    have hi := h i
    by_cases hai : start a = i
    · rw [List.filter_cons_of_pos (by simpa using hai),
        List.filter_cons_of_pos (by simpa using hai)] at hi
      exact (List.cons.inj hi).2
    · rwa [List.filter_cons_of_neg (by simpa using hai),
        List.filter_cons_of_neg (by simpa using hai)] at hi

/-- **The order of items depends on those that start together**, for each start. -/
theorem inOrder_eq_of_filter_eq
    (h : ∀ i, items.filter (fun a => start a = i) = others.filter fun a => start a = i) :
    inOrder start items = inOrder start others := by
  refine eq_of_sorted_of_filter_eq (inOrder_sorted start items) (inOrder_sorted start others) ?_
  intro i
  rw [inOrder_filter, inOrder_filter, h i]

/-- Items that start apart may come in any order. -/
theorem inOrder_eq_of_perm (hperm : items.Perm others) (hstarts : (others.map start).Nodup) :
    inOrder start items = inOrder start others := by
  have hperm' := (inOrder_perm start items).trans (hperm.trans (inOrder_perm start others).symm)
  refine hperm'.eq_of_pairwise ?_ (inOrder_sorted start items) (inOrder_sorted start others)
  intro a b ha hb hab hba
  have ha := hperm.mem_iff.mp ((mem_inOrder start).mp ha)
  have hb := (mem_inOrder start).mp hb
  exact List.inj_on_of_nodup_map hstarts ha hb (Int.le_antisymm hab hba)

end Order

end Marginalia
