import Octraban.Sandbox.Atomicity

/-! What the status of a session is for: `destroySession` and `pauseSession` mark it, and the
operations go by what is in memory. -/
namespace Octraban.SandboxEngine
open Transition System JavaScript

def RuntimeBundle.paused (bundle : RuntimeBundle) : RuntimeBundle := { bundle with status := "paused" }

def State.paused (s : State) : State :=
  { s with memory := s.memory.map RuntimeBundle.paused, session := { s.session with status := "paused" } }

/-- A summary shows the status. -/
def Output.paused : Output → Output
  | .summary shown => .summary { shown with status := "paused" }
  | output => output

def Plan.paused : Plan → Plan
  | .throws error => .throws error
  | .breaks bundle error => .breaks bundle.paused error
  | .appends row output => .appends row output.paused
  | .commits bundle writes output => .commits bundle.paused writes (output.map Output.paused)

variable {platform : Platform} {s t : State} {bundle : RuntimeBundle} {answers : Answers} {answer : Nat → Answer}
  {writes : List Write} {write : Write}

/-! ### Destroyed -/

end Octraban.SandboxEngine
