/-!
# Lists in order of first occurrence

Variables, members and keys are collected into lists that keep the place where
each item was met first and never hold an item twice.
-/

namespace RelationalSolver

variable {α : Type} [DecidableEq α]

/-- Add one item at the end, unless the list already holds it. -/
def appendNew (seen : List α) (item : α) : List α :=
  if item ∈ seen then seen else seen ++ [item]

/-- Add the items one after the other, each only if it is new. -/
def appendAllNew (seen items : List α) : List α :=
  items.foldl appendNew seen

@[simp] theorem mem_appendNew {seen : List α} {item other : α} :
    other ∈ appendNew seen item ↔ other ∈ seen ∨ other = item := by
  unfold appendNew
  split
  · constructor
    · exact Or.inl
    · rintro (member | rfl)
      · exact member
      · assumption
  · simp

@[simp] theorem mem_appendAllNew {items : List α} : ∀ {seen : List α} {other : α},
    other ∈ appendAllNew seen items ↔ other ∈ seen ∨ other ∈ items := by
  induction items with
  | nil => simp [appendAllNew]
  | cons item items ih =>
      intro seen other
      have step : appendAllNew seen (item :: items) =
          appendAllNew (appendNew seen item) items := rfl
      rw [step, ih, mem_appendNew, List.mem_cons, or_assoc]

theorem mem_foldl_appendAllNew {β : Type} {f : β → List α} {items : List β} {other : α} :
    ∀ {seen : List α}, other ∈ items.foldl (fun seen item => appendAllNew seen (f item)) seen ↔
      other ∈ seen ∨ ∃ item ∈ items, other ∈ f item := by
  induction items with
  | nil => simp
  | cons item items ih =>
      intro seen
      rw [List.foldl_cons, ih, mem_appendAllNew]
      simp [or_assoc]

end RelationalSolver
