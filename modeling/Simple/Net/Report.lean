import Mathlib.Tactic

/-! What an attempt to connect reports of itself. -/

namespace Simple.Net

inductive Report
  | handStart
  | handStop
  deriving DecidableEq

/-- At most one start, at most one stop, and no start after a stop. -/
def Report.Ordered (reports : List Report) : Prop :=
  reports.count .handStart ≤ 1 ∧ reports.count .handStop ≤ 1 ∧
    ¬[.handStop, .handStart].Sublist reports

lemma Report.ordered_of {reports : List Report} (h : reports = [] ∨ reports = [.handStart] ∨
    reports = [.handStop] ∨ reports = [.handStart, .handStop]) : Report.Ordered reports := by
  rcases h with rfl | rfl | rfl | rfl <;> exact ⟨by decide, by decide, by decide⟩

end Simple.Net
