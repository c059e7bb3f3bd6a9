/-!
# Probability domains

The domain of a clause says what its statistics are taken over: the inputs of
a configuration, the runs of one input, or the items of one output. A
specification may commit to one of them only; `merge` combines the commitments
of two parts, and two different commitments give `conflict`.
-/

namespace StatContract

/-- What the statistics of a clause are taken over. -/
inductive Domain where
  | none
  | overInputs
  | overRuns
  | overItems
  | performanceOnly
  | conflict
  deriving DecidableEq, Repr, Inhabited

namespace Domain

/-- The commitment of two parts together: no commitment is neutral, a repeated
one stays, and two different ones conflict. -/
def merge (a b : Domain) : Domain :=
  if a = none then b
  else if b = none then a
  else if a = b then a
  else conflict

/-- The wording used in messages. -/
def text : Domain → String
  | none => "none"
  | overInputs => "over inputs"
  | overRuns => "over runs"
  | overItems => "over items"
  | performanceOnly => "performance only"
  | conflict => "conflict"

/-- The one-word spelling used in machine-readable output. -/
def slug : Domain → String
  | none => "none"
  | overInputs => "over_inputs"
  | overRuns => "over_runs"
  | overItems => "over_items"
  | performanceOnly => "performance_only"
  | conflict => "conflict"

@[simp] theorem none_merge (b : Domain) : merge none b = b := by
  simp [merge]

@[simp] theorem merge_none (a : Domain) : merge a none = a := by
  cases a <;> rfl

@[simp] theorem merge_self (a : Domain) : merge a a = a := by
  cases a <;> rfl

theorem merge_comm (a b : Domain) : merge a b = merge b a := by
  cases a <;> cases b <;> rfl

theorem merge_assoc (a b c : Domain) :
    merge (merge a b) c = merge a (merge b c) := by
  cases a <;> cases b <;> cases c <;> rfl

end Domain

end StatContract
