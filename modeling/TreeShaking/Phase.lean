/-!
# Phases of a compilation

A compilation explores the program twice: resolution finds out what the program
needs, and code generation revisits it inside the world that resolution closed.
Each phase has a queue with its own life cycle.
-/

namespace TreeShaking

/-- What the impact of a member is read for. -/
inductive UseCase where
  | resolution
  | codegen
  | deferredLoad
  | dumpInfo
deriving DecidableEq

/-- The printed form of a use case. -/
def UseCase.text : UseCase → String
  | .resolution => "Resolution"
  | .codegen => "Codegen"
  | .deferredLoad => "DeferredLoad"
  | .dumpInfo => "DumpInfo"

/-- The two explorations of a compilation. -/
inductive Phase where
  | resolution
  | codegen
deriving DecidableEq

namespace Phase

/-- The phase as messages name it. -/
def name : Phase → String
  | .resolution => "resolution"
  | .codegen => "codegen"

/-- The phase as summaries name it. -/
def label : Phase → String
  | .resolution => "Resolution"
  | .codegen => "Codegen"

/-- What impacts are read for during the phase. -/
def useCase : Phase → UseCase
  | .resolution => .resolution
  | .codegen => .codegen

end Phase

/-- The life of a queue: it is created, opened once, and closed. -/
inductive QueueState where
  | created
  | opened
  | closed
deriving DecidableEq

/-- The printed form of a queue state. -/
def QueueState.text : QueueState → String
  | .created => "Created"
  | .opened => "Open"
  | .closed => "Closed"

end TreeShaking
