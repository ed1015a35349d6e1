import LiveDoc.Document.Classified
import LiveDoc.Run.Artifact
import LiveDoc.Run.Condition

namespace LiveDoc

-- A block in a branch that is not taken stays pending.
inductive BlockState where
  | pending
  | skipped
  | running
  | succeeded
  | failed
  deriving DecidableEq, Repr

structure BlockResult where
  output : String
  artifacts : List String
  deriving DecidableEq, Repr

-- A node after the run: conditions are decided and blocks have what they produced, if they ran.
inductive Executed where
  | prose (text : String)
  | block (block : CodeBlock) (result : Option BlockResult)
  | conditional (guard : String) (included : Bool) (children : List Executed)
  deriving BEq, Repr

-- What runs the code of blocks. It may keep a state of its own.
structure Executor (σ : Type) where
  language : String
  execute : String → Calc.Session → σ → Calc.Execution × Calc.Session × σ

def Executor.calc : Executor Unit where
  language := Calc.language
  execute code session _ :=
    let (execution, session) := Calc.execute code session
    (execution, session, ())

-- What lasts over the blocks of a run, and over later runs that go on from it.
structure Progress (σ : Type) where
  host : σ
  session : Calc.Session
  store : ArtifactStore
  states : List BlockState

def Progress.start {σ : Type} (host : σ) (stem : String) : Progress σ :=
  ⟨host, .empty, .empty stem, []⟩

abbrev Running (σ α : Type) := ExceptT RunError (StateM (Progress σ)) α

def Progress.mark {σ : Type} (progress : Progress σ) (index : Nat) (state : BlockState) :
    Progress σ :=
  { progress with states := progress.states.set index state }

def runBlock {σ : Type} (executor : Executor σ) (block : CodeBlock) : Running σ Executed := do
  if !block.modifiers.executes then
    modify (·.mark block.index .skipped)
    return .block block none
  modify (·.mark block.index .running)
  let progress ← get
  let (execution, session, host) :=
    executor.execute block.content (progress.session.enter block.index) progress.host
  set { progress with session, host }
  match execution.failure with
  | some failure =>
      modify (·.mark block.index .failed)
      -- The first line of the content is the one below the opening fence.
      throw (.block block.index block.span (failure.line.map (block.span.line + ·))
        execution.captured.output failure.error)
  | none =>
      let progress ← get
      let (names, store) := progress.store.claim block.index execution.captured.artifacts
      set { progress with store }
      modify (·.mark block.index .succeeded)
      return .block block (some ⟨execution.captured.output, names⟩)

mutual

def runNode {σ : Type} (executor : Executor σ) : Node → Running σ Executed
  | .prose prose => pure (.prose prose.text)
  | .code block => runBlock executor block
  | .conditional guard source children span => do
      let progress ← get
      let included ← evaluateGuard guard source span progress.session
      let executed ← if included then runNodes executor children else pure []
      pure (.conditional source included executed)
  | .directive directive => throw (.document (.unresolved directive.path directive.span))

-- Nodes in document order, up to the first block or condition that fails.
def runNodes {σ : Type} (executor : Executor σ) : List Node → Running σ (List Executed)
  | [] => pure []
  | node :: rest => do
      let first ← runNode executor node
      let others ← runNodes executor rest
      pure (first :: others)

end

def runDocument {σ : Type} (executor : Executor σ) (classified : Classified) :
    Running σ (List Executed) := do
  if classified.language ≠ executor.language then
    throw (.language classified.language executor.language)
  modify ({ · with states := List.replicate classified.blockCount .pending })
  runNodes executor classified.document.nodes

end LiveDoc
