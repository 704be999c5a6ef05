import TernLang.Eval

/-! # Running one computation after another -/

namespace TernLang.Eval

variable {α β : Type} {action : Eval α} {rest : α → Eval β} {machine after : Machine}

theorem bind_run (action : Eval α) (rest : α → Eval β) (machine : Machine) :
    (action >>= rest) machine =
      match action machine with
      | .ok a after => rest a after
      | .error stop after => .error stop after := by
  show EStateM.bind action rest machine = _
  unfold EStateM.bind
  cases action machine <;> rfl

theorem bind_run_ok {a : α} (run : action machine = .ok a after) :
    (action >>= rest) machine = rest a after := by
  rw [bind_run, run]

theorem bind_run_error {stop : Stop} (run : action machine = .error stop after) :
    (action >>= rest) machine = .error stop after := by
  rw [bind_run, run]

theorem of_mapStop_ok {change : Stop → Stop} {a : α}
    (ran : mapStop change action machine = .ok a after) : action machine = .ok a after := by
  unfold mapStop at ran
  split at ran
  · rename_i found
    rw [found, ran]
  · cases ran

theorem mapStop_ok {change : Stop → Stop} {a : α}
    (ran : action machine = .ok a after) : mapStop change action machine = .ok a after := by
  unfold mapStop
  rw [ran]

end TernLang.Eval
