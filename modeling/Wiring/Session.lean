/-!
# Sessions

A session gives commands to one part of the registry, one after the other, and collects the answers.
-/

namespace Wiring

/-- The answers to a list of commands, each given to what the commands before it have left. -/
def session {σ κ ρ : Type} (step : σ → κ → ρ × σ) : σ → List κ → List ρ
  | _, [] => []
  | s, c :: rest => (step s c).1 :: session step (step s c).2 rest

end Wiring
