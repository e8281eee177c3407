import Mathlib.Tactic

/-!
# Fingerprints of build tasks

`fingerprint.rs` and `runner.rs` of the devtool: a task is skipped if its outputs exist
and every input has a recorded fingerprint that still fits. Edits by others can land
before every access to the disk: `Build.pending` says which, and `Build.tick` lets the
next ones land. Where the hash of a file is compared, the model compares values of any
type `η`; that hashing is injective is a hypothesis of the results.

`Build.origin`, `Build.past`, `Build.writes` and `Build.runs` are not read by the program. They
remember which run wrote a file last, with what that run had read, the versions a file had
before, how often it was written, and what the last run of a task that got through has read.
-/

namespace Blyt

structure DevFile where
  content : List UInt8
  mtime : Nat
  deriving DecidableEq, Repr

/-- `meta.len()`. -/
def DevFile.size (f : DevFile) : Nat := f.content.length

/-- Someone else writes a file, or removes it. -/
structure FileEdit where
  path : String
  file : Option DevFile
  deriving DecidableEq, Repr

inductive TaskInput
  | file (path : String)
  | value (val : String)
  deriving DecidableEq, Repr

/-- An input with what was found there. -/
inductive InputData
  | file (path : String) (content : Option (List UInt8))
  | value (val : String)
  deriving DecidableEq, Repr

def InputData.input : InputData → TaskInput
  | .file path _ => .file path
  | .value val => .value val

/-- A file was written by this run; `complete` unless the run failed. -/
structure FileOrigin where
  key : String
  read : List InputData
  complete : Bool
  deriving DecidableEq, Repr

/-- The last run that got through; `calm` if none of its input files was written from its start
to the end of the recording, nor during a later check that confirmed the record. -/
structure RunLog where
  read : List InputData
  calm : Bool
  deriving DecidableEq, Repr

structure FileState (η : Type) where
  size : Nat
  mtime : Nat
  hash : η
  deriving DecidableEq, Repr

structure TaskState (η : Type) where
  inputs : String → Option (FileState η)
  outputs : List String

structure Build (η : Type) where
  disk : String → Option DevFile
  pending : List (List FileEdit)
  states : String → Option (TaskState η)
  origin : String → Option FileOrigin
  past : String → List DevFile
  writes : String → Nat
  runs : String → Option RunLog

namespace Build

variable {η : Type} (b : Build η)

/-- The versions of a file, the present one first. -/
def versions (path : String) : List DevFile := (b.disk path).toList ++ b.past path

/-- A file is written: by a run of a tool, or by someone else. -/
def write (o : Option FileOrigin) (e : FileEdit) : Build η :=
  { b with disk := Function.update b.disk e.path e.file
           origin := Function.update b.origin e.path o
           past := Function.update b.past e.path (b.versions e.path)
           writes := Function.update b.writes e.path (b.writes e.path + 1) }

def edit (e : FileEdit) : Build η := b.write none e

/-- The edits that land before the next access to the disk. -/
def tick : Build η := match b.pending with
  | [] => b
  | es :: rest => { es.foldl edit b with pending := rest }

def content (path : String) : Option (List UInt8) := (b.disk path).map DevFile.content

theorem content_write (o : Option FileOrigin) (e : FileEdit) (p : String) :
    (b.write o e).content p = if p = e.path then e.file.map DevFile.content else b.content p := by
  split <;> rename_i hp
  · rw [hp]
    exact congrArg _ (Function.update_self ..)
  · exact congrArg _ (Function.update_of_ne hp ..)

theorem origin_write (o : Option FileOrigin) (e : FileEdit) (p : String) :
    (b.write o e).origin p = if p = e.path then o else b.origin p :=
  Function.update_apply ..

def look : TaskInput → InputData
  | .file path => .file path (b.content path)
  | .value val => .value val

end Build

section Model

variable {η : Type} [DecidableEq η] [Inhabited η] (hash : List UInt8 → η)

/-- The file's state now, and whether it counts as changed. -/
def checkFile (b : Build η) (path : String) (prev : Option (FileState η)) :
    (Option (FileState η) × Bool) × Build η :=
  -- `file_meta`
  let b := b.tick
  match b.disk path with
  | none => ((none, true), b)
  | some f => match prev with
    | some p =>
      if p.size = f.size ∧ p.mtime = f.mtime then ((some p, false), b)
      else
        -- `hash_file`
        let b := b.tick
        match b.content path with
        | none => ((none, true), b)
        | some c => ((some ⟨f.size, f.mtime, hash c⟩, p.hash ≠ hash c), b)
    | none =>
      let b := b.tick
      ((some ⟨f.size, f.mtime, ((b.content path).map hash).getD default⟩, true), b)

/-- Nobody has written an input file between the two. -/
def calmBetween (inputs : List TaskInput) (b b' : Build η) : Bool :=
  inputs.all fun i => match i with
    | .file path => b'.writes path == b.writes path
    | .value _ => true

/-- The key of an input in the recorded map. -/
def TaskInput.stateKey : TaskInput → String
  | .file path => path
  | .value val => "value:" ++ val

/-- One round of the loop of `check_inputs`. -/
def checkInput (prev : Option (TaskState η))
    (acc : (String → Option (FileState η)) × Bool × Build η) (input : TaskInput) :
    (String → Option (FileState η)) × Bool × Build η :=
  let prevState := prev.bind fun s => s.inputs input.stateKey
  match input with
  | .file path =>
    let r := checkFile hash acc.2.2 path prevState
    ((match r.1.1 with
      | some fs => Function.update acc.1 input.stateKey (some fs)
      | none => acc.1), acc.2.1 || r.1.2, r.2)
  | .value val =>
    (Function.update acc.1 input.stateKey (some ⟨0, 0, hash val.toUTF8.toList⟩),
      acc.2.1 || prevState.isNone, acc.2.2)

/-- The new map, and whether the task has to run. -/
def checkInputs (b : Build η) (inputs : List TaskInput) (prev : Option (TaskState η)) :
    (String → Option (FileState η)) × Bool × Build η :=
  inputs.foldl (checkInput hash prev) (fun _ => none, false, b)

def outputsExist (b : Build η) : List String → Bool × Build η
  | [] => (true, b)
  | p :: ps => if (b.tick.disk p).isSome then outputsExist b.tick ps else (false, b.tick)

/-- How a run of a tool ends: with its outputs written, or with an error after any
writes. -/
inductive ToolResult
  | done (mtime : Nat)
  | failed (writes : List FileEdit)
  deriving DecidableEq, Repr

/-- A task as one call of `run_tasks` sees it. Its inputs are asked for again after it
has run: a compiler has then written the list of the headers it read. -/
structure BuildTask where
  key : String
  inputs : List TaskInput
  inputsAfter : List TaskInput
  outputs : List String
  result : ToolResult
  deriving DecidableEq, Repr

/-- The tool reads its inputs one after the other. -/
def readInputs (b : Build η) : List TaskInput → List InputData × Build η
  | [] => ([], b)
  | i :: is =>
    let r := readInputs b.tick is
    (b.tick.look i :: r.1, r.2)

/-- What a tool makes of its inputs: the content of each of its outputs. -/
abbrev Tool := String → List InputData → String → List UInt8

/-- `task.run()`; the result is what it has read, if it got through. -/
def runTool (tool : Tool) (t : BuildTask) (inputs : List TaskInput) (b : Build η) :
    Option (List InputData) × Build η :=
  let r := readInputs b inputs
  let b := r.2.tick
  match t.result with
  | .failed writes => (none, writes.foldl (Build.write · (some ⟨t.key, r.1, false⟩)) b)
  | .done mtime => (some r.1, t.outputs.foldl (fun b p =>
    b.write (some ⟨t.key, r.1, true⟩) ⟨p, some ⟨tool t.key r.1 p, mtime⟩⟩) b)

def saveTaskState (b : Build η) (key : String) (s : TaskState η) (log : Option RunLog) :
    Build η :=
  { b with states := Function.update b.states key (some s)
           runs := Function.update b.runs key log }

/-- The blyt executable is an input of every task. -/
def effectiveInputs (exe : Option String) (inputs : List TaskInput) : List TaskInput :=
  inputs ++ (exe.map TaskInput.file).toList

/-- Whether the task is up to date; if it is, its refreshed state is saved. -/
def skipsTask (exe : Option String) (b : Build η) (t : BuildTask) : Bool × Build η :=
  let r := outputsExist b t.outputs
  if r.1 then
    let inputs := effectiveInputs exe t.inputs
    let c := checkInputs hash r.2 inputs (r.2.states t.key)
    if c.2.1 then (false, c.2.2)
    else (true, saveTaskState c.2.2 t.key ⟨c.1, t.outputs⟩
      ((r.2.runs t.key).map fun l => { l with calm := l.calm && calmBetween inputs r.2 c.2.2 }))
  else (false, r.2)

inductive TaskOutcome
  | skipped
  | ran
  | failed
  deriving DecidableEq, Repr

/-- One round of the loop of `run_tasks`. -/
def runTask (tool : Tool) (exe : Option String) (force : Bool) (b : Build η) (t : BuildTask) :
    TaskOutcome × Build η :=
  let r := if force then (false, b) else skipsTask hash exe b t
  if r.1 then (.skipped, r.2)
  else
    let inputs := effectiveInputs exe t.inputsAfter
    let ran := runTool tool t inputs r.2
    match ran.1 with
    | some read =>
      let c := checkInputs hash ran.2 inputs none
      (.ran, saveTaskState c.2.2 t.key ⟨c.1, t.outputs⟩ (some ⟨read, calmBetween inputs r.2 c.2.2⟩))
    | none => (.failed, ran.2)

/-- The first task that fails ends the call. -/
def runTasks (tool : Tool) (exe : Option String) (force : Bool) (b : Build η) :
    List BuildTask → Bool × Build η
  | [] => (true, b)
  | t :: ts =>
    let r := runTask hash tool exe force b t
    if r.1 = .failed then (false, r.2) else runTasks tool exe force r.2 ts

/-- `LinkElfTask`. The library directory and whether the cart is a Lua cart are read by the
linker too, but they are no inputs. -/
structure LinkElfTask where
  clang : String
  objFiles : List String
  rustArchive : Option String
  libArchives : List String
  ldScript : String
  output : String
  deriving DecidableEq, Repr

def LinkElfTask.inputs (l : LinkElfTask) : List TaskInput :=
  l.objFiles.map .file ++ (l.rustArchive.map .file).toList ++ l.libArchives.map .file
    ++ [.file l.ldScript, .value l.clang]

def LinkElfTask.task (l : LinkElfTask) (result : ToolResult) : BuildTask where
  key := "link"
  inputs := l.inputs
  inputsAfter := l.inputs
  outputs := [l.output]
  result := result

/-! ## Histories -/

/-- An edit between the calls, or a call with the edits that land during it. -/
inductive BuildEvent
  | edit (e : FileEdit)
  | call (tasks : List BuildTask) (exe : Option String) (force : Bool)
      (during : List (List FileEdit))
  deriving DecidableEq, Repr

def buildStep (tool : Tool) (b : Build η) : BuildEvent → Build η
  | .edit e => b.edit e
  | .call tasks exe force during =>
    { (runTasks hash tool exe force { b with pending := during } tasks).2 with pending := [] }

/-- A disk without recorded states. -/
def buildStart (disk : String → Option DevFile) : Build η where
  disk := disk
  pending := []
  states _ := none
  origin _ := none
  past _ := []
  writes _ := 0
  runs _ := none

end Model

end Blyt
