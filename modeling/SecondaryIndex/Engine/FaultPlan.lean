import SecondaryIndex.Error

/-!
# Fault plans

An engine call may fail on its own account. A fault plan says for each kind of call which of the
next calls do: their fates are given as runs, so many calls that fail or so many that go through,
and calls beyond the last run go through. Any pattern of failures can be written in this way.
-/

namespace SecondaryIndex

/-- The fates of calls in order: whether they fail, and for how many calls in a row. -/
abbrev Fates := List (Bool × Nat)

namespace Fates

/-- Whether the next call fails, and the fates of the calls after it. -/
def next : Fates → Bool × Fates
  | [] => (false, [])
  | (_, 0) :: rest => next rest
  | (fails, n + 1) :: rest => (fails, (fails, n) :: rest)

/-- The fates of the single calls. -/
def expand (fates : Fates) : List Bool := fates.flatMap fun run => List.replicate run.2 run.1

/-- The next call has the first of the fates, or goes through if there is none. -/
theorem next_eq (fates : Fates) :
    fates.next.1 = fates.expand.headD false ∧ fates.next.2.expand = fates.expand.tail := by
  induction fates with
  | nil => simp [next, expand]
  | cons run rest ih =>
    obtain ⟨fails, n⟩ := run
    cases n with
    | zero => simpa [next, expand] using ih
    | succ n => simp [next, expand, List.replicate_succ]

end Fates

/-- Which of the coming engine calls fail. -/
structure FaultPlan where
  /-- The fates of the next calls of a kind. -/
  fates : EngineCall → Fates

namespace FaultPlan

/-- No call ever fails on its own account. -/
def healthy : FaultPlan := ⟨fun _ => []⟩

instance : Inhabited FaultPlan := ⟨healthy⟩

/-- Plans the fates of the calls of one kind. -/
def set (plan : FaultPlan) (call : EngineCall) (fates : Fates) : FaultPlan :=
  ⟨fun c => if c = call then fates else plan.fates c⟩

/-- Lets the next `skip` calls of a kind through and fails the `times` calls after them. -/
def arm (plan : FaultPlan) (call : EngineCall) (skip times : Nat) : FaultPlan :=
  plan.set call [(false, skip), (true, times)]

/-- Whether the next call of a kind fails, and the plan after it. -/
def draw (plan : FaultPlan) (call : EngineCall) : Bool × FaultPlan :=
  match plan.fates call with
  | [] => (false, plan)
  | fates => (fates.next.1, plan.set call fates.next.2)

theorem eq_healthy {plan : FaultPlan} (h : ∀ call, plan.fates call = []) : plan = healthy :=
  congrArg mk (funext h)

/-- Without faults every draw is good, and the plan stays without faults. -/
@[simp] theorem draw_healthy (call : EngineCall) : healthy.draw call = (false, healthy) := rfl

end FaultPlan

end SecondaryIndex
