import Mathlib.Data.List.Sort
import Mathlib.Logic.Function.Basic
import Mathlib.Order.WithBot
import AioLM.Runs
import AioLM.TreeCopy

/-!
The move of earlier data into the home folder, one operation of the file system after the other:
any of them may fail, the process may stop between any two, and several processes may move at
the same time, held apart by a lock once there is something to move.
-/

set_option autoImplicit false

namespace AioLM.Home

open Branding

inductive Item where
  | config
  | mcp
  | verificationJson
  | verification
  | benchmarks
  | runtimes
  deriving DecidableEq

def items : List Item := [.config, .mcp, .verificationJson, .verification, .benchmarks, .runtimes]

/-- Where earlier releases kept them. -/
inductive Place where
  | config
  | mcp
  | replacedMcp
  | verificationJson
  | verification
  | benchmarks
  | runtimes
  deriving DecidableEq

/-- The earlier folders, the backups of the earlier configuration with their times, and the items
and staging names of the home folder. -/
structure Disk where
  previous : Place → Option Tree
  backups : KeyMap Text (Nat × Tree)
  home : Item → Option Tree
  stage : Item → Option Tree

namespace Disk

def setPrevious (d : Disk) (place : Place) (tree : Option Tree) : Disk :=
  { d with previous := Function.update d.previous place tree }

def setHome (d : Disk) (item : Item) (tree : Tree) : Disk :=
  { d with home := Function.update d.home item (some tree) }

def setStage (d : Disk) (item : Item) (tree : Option Tree) : Disk :=
  { d with stage := Function.update d.stage item tree }

/-- A backup becomes the configuration. -/
def recover (d : Disk) (name : Text) (tree : Tree) : Disk :=
  { d.setPrevious .config (some tree) with backups := d.backups.erase name }

section

variable {d : Disk} {place other : Place} {item item' : Item} {tree : Option Tree} {target : Tree}
  {name : Text}

@[simp] theorem setPrevious_self : (d.setPrevious place tree).previous place = tree :=
  Function.update_self ..

theorem setPrevious_of_ne (h : other ≠ place) :
    (d.setPrevious place tree).previous other = d.previous other :=
  Function.update_of_ne h ..

@[simp] theorem setHome_self : (d.setHome item target).home item = some target :=
  Function.update_self ..

theorem setHome_of_ne (h : item' ≠ item) : (d.setHome item target).home item' = d.home item' :=
  Function.update_of_ne h ..

@[simp] theorem setStage_self : (d.setStage item tree).stage item = tree :=
  Function.update_self ..

@[simp] theorem setPrevious_home : (d.setPrevious place tree).home = d.home := rfl

@[simp] theorem setStage_home : (d.setStage item tree).home = d.home := rfl

@[simp] theorem setStage_previous : (d.setStage item tree).previous = d.previous := rfl

@[simp] theorem setHome_previous : (d.setHome item target).previous = d.previous := rfl

@[simp] theorem recover_self : (d.recover name target).previous .config = some target := by
  simp only [recover, setPrevious_self]

theorem recover_of_ne (h : place ≠ .config) :
    (d.recover name target).previous place = d.previous place := by
  simp only [recover, setPrevious_of_ne h]

end

end Disk

/-- `Path::exists`: a link counts for what it leads to. -/
def present : Option Tree → Bool
  | none => false
  | some tree =>
    match tree.get [] with
    | none => false
    | some (.link dangling) => !dangling
    | some _ => true

/-- What a run does next; `rest` are the items that come after. -/
inductive Point where
  | lookTarget
  | lookConfig
  | listBackups
  | recover (name : Text)
  | lookMcp
  | lookReplaced
  | checkSource (rest : List Item) (anyPending : Bool)
  | checkTarget (item : Item) (rest : List Item) (anyPending : Bool)
  | takeLock
  | nextSource (rest : List Item)
  | nextTarget (item : Item) (rest : List Item)
  | lookRuntimes (rest : List Item)
  | move (rest : List Item)
  | lookStage (item : Item) (rest : List Item)
  | clearStage (item : Item) (rest : List Item)
  | lookSource (item : Item) (rest : List Item)
  | copying (item : Item) (rest : List Item) (tasks : List Task)
  | removeSource (rest : List Item)
  deriving DecidableEq

/-- A run: what there was when it started, whether another had returned by then, whether it takes
the servers of the replaced application, and what it does next. -/
structure Run where
  started : Place → Option Tree
  late : Bool
  replaced : Bool
  point : Point

def Run.sourceOf (run : Run) : Item → Place
  | .config => .config
  | .mcp => if run.replaced then .replacedMcp else .mcp
  | .verificationJson => .verificationJson
  | .verification => .verification
  | .benchmarks => .benchmarks
  | .runtimes => .runtimes

/-- What is noted of the runs: a destination that was made, with its source at that time and when
the run started, and how a run ended. -/
inductive Event where
  | created (item : Item) (target : Tree) (source started : Option Tree)
  | returned (started : Item → Option Tree)
  | failed (failure : Failure)

def Event.isReturned : Event → Bool
  | .returned _ => true
  | _ => false

structure World where
  disk : Disk
  runs : KeyMap Nat Run
  lock : Option Nat
  log : List Event

inductive Outcome where
  | done
  | failed
  | crossesDevices
  | listed (entries : List (Text × Bool))
  | wrote (count : Nat)
  | removed (path : Path)
  deriving DecidableEq

inductive Act where
  | begin (id : Nat)
  | go (id : Nat) (outcome : Outcome)
  | stop (id : Nat)

/-- The last of the entries in the order of their times; one whose time cannot be read is first. -/
def newest (backups : KeyMap Text (Nat × Tree)) (entries : List (Text × Bool)) : Option Text :=
  let modified (entry : Text × Bool) : WithBot Nat :=
    if entry.2 then ((backups.get entry.1).map Prod.fst).elim ⊥ WithBot.some else ⊥
  ((entries.insertionSort fun a b => modified a ≤ modified b).getLast?).map Prod.fst

namespace World

def goTo (w : World) (id : Nat) (run : Run) (point : Point) : World :=
  { w with runs := w.runs.insert id { run with point := point } }

/-- The run ends; the system gives its lock back. -/
def drop (w : World) (id : Nat) : World :=
  { w with
    runs := w.runs.erase id
    lock := if w.lock = some id then none else w.lock }

def fail (w : World) (id : Nat) (failure : Failure) : World :=
  let w := w.drop id
  { w with log := w.log ++ [.failed failure] }

def finish (w : World) (id : Nat) (run : Run) : World :=
  let w := w.drop id
  { w with log := w.log ++ [.returned fun item => run.started (run.sourceOf item)] }

def put (w : World) (d : Disk) : World := { w with disk := d }

def note (w : World) (event : Event) : World := { w with log := w.log ++ [event] }

end World

def remaining (tree : Tree) : Option Tree := if (tree.get []).isSome then some tree else none

def World.check (w : World) (id : Nat) (run : Run) (rest : List Item) (anyPending : Bool) : World :=
  match rest with
  | _ :: _ => w.goTo id run (.checkSource rest anyPending)
  | [] => if anyPending then w.goTo id run .takeLock else w.finish id run

def World.next (w : World) (id : Nat) (run : Run) (rest : List Item) : World :=
  match rest with
  | _ :: _ => w.goTo id run (.nextSource rest)
  | [] => w.finish id run

/-- After a copy is in place; the original of a moved folder is removed. -/
def World.committed (w : World) (id : Nat) (run : Run) (item : Item) (rest : List Item) : World :=
  if item = .runtimes then w.goTo id run (.removeSource rest) else w.next id run rest

def lookAround (w : World) (id : Nat) (run : Run) : Point → Outcome → Option World
  | .lookTarget, .done =>
    some (w.goTo id run (if present (w.disk.home .config) then .lookMcp else .lookConfig))
  | .lookTarget, .failed => some (w.goTo id run .lookConfig)
  | .lookConfig, .done =>
    some (w.goTo id run (if present (w.disk.previous .config) then .lookMcp else .listBackups))
  | .lookConfig, .failed => some (w.goTo id run .listBackups)
  | .listBackups, .listed entries =>
    if entries.all (fun entry => (w.disk.backups.get entry.1).isSome) then
      some (match newest w.disk.backups entries with
        | some name => w.goTo id run (.recover name)
        | none => w.goTo id run .lookMcp)
    else none
  | .listBackups, .failed => some (w.fail id .system)
  | .recover name, .done =>
    match w.disk.backups.get name with
    | some (_, tree) => some ((w.put (w.disk.recover name tree)).goTo id run .lookMcp)
    | none => some (w.fail id .system)
  | .recover _, .failed => some (w.fail id .system)
  | .lookMcp, .done =>
    some (if present (w.disk.previous .mcp) then w.check id { run with replaced := false } items false
      else w.goTo id run .lookReplaced)
  | .lookMcp, .failed => some (w.goTo id run .lookReplaced)
  | .lookReplaced, .done =>
    some (w.check id { run with replaced := present (w.disk.previous .replacedMcp) } items false)
  | .lookReplaced, .failed => some (w.check id { run with replaced := false } items false)
  | _, _ => none

def lookPending (w : World) (id : Nat) (run : Run) : Point → Outcome → Option World
  | .checkSource (item :: rest) anyPending, .done =>
    some (if present (w.disk.previous (run.sourceOf item)) then
        w.goTo id run (.checkTarget item rest anyPending)
      else w.check id run rest anyPending)
  | .checkTarget item rest anyPending, .done =>
    some (w.check id run rest (anyPending || !present (w.disk.home item)))
  | .takeLock, .done =>
    some (if w.lock = none then { w with lock := some id }.next id run items
      else w.fail id .alreadyRunning)
  | .nextSource (item :: rest), .done =>
    some (if present (w.disk.previous (run.sourceOf item)) then w.goTo id run (.nextTarget item rest)
      else w.next id run rest)
  | .nextTarget item rest, .done =>
    some (if present (w.disk.home item) then w.next id run rest
      else if item = .runtimes then w.goTo id run (.lookRuntimes rest)
      else w.goTo id run (.lookStage item rest))
  | .checkSource _ _, .failed => some (w.fail id .system)
  | .checkTarget _ _ _, .failed => some (w.fail id .system)
  | .takeLock, .failed => some (w.fail id .system)
  | .nextSource _, .failed => some (w.fail id .system)
  | .nextTarget _ _, .failed => some (w.fail id .system)
  | _, _ => none

/-- `move_dir` -/
def moveDir (w : World) (id : Nat) (run : Run) : Point → Outcome → Option World
  | .lookRuntimes rest, .done =>
    match (w.disk.previous .runtimes).bind fun tree => tree.get [] with
    | some (.link _) => some (w.fail id .linkedPath)
    | some _ => some (w.goTo id run (.move rest))
    | none => some (w.fail id .system)
  | .lookRuntimes _, .failed => some (w.fail id .system)
  | .move rest, .done =>
    match w.disk.previous .runtimes with
    | some tree =>
      let w := w.put ((w.disk.setHome .runtimes tree).setPrevious .runtimes none)
      let w := w.note (.created .runtimes tree (some tree) (run.started .runtimes))
      some (w.next id run rest)
    | none => some (w.fail id .cannotMove)
  | .move rest, .crossesDevices => some (w.goTo id run (.lookStage .runtimes rest))
  | .move _, .failed => some (w.fail id .cannotMove)
  | .removeSource rest, .removed path =>
    match (w.disk.previous .runtimes).bind fun tree => removeEntry tree path with
    | some tree =>
      let w := w.put (w.disk.setPrevious .runtimes (remaining tree))
      some (w.goTo id run (.removeSource rest))
    | none => none
  | .removeSource rest, .done =>
    if w.disk.previous .runtimes = none then some (w.next id run rest) else none
  | .removeSource rest, .failed => some (w.next id run rest)
  | _, _ => none

/-- `stage_for` and `copy` -/
def copy (w : World) (id : Nat) (run : Run) : Point → Outcome → Option World
  | .lookStage item rest, .done =>
    match w.disk.stage item with
    | none => some (w.goTo id run (.lookSource item rest))
    | some tree =>
      if tree.entries.any fun entry => match entry.2 with | .link _ => true | _ => false then
        some (w.fail id .linkedStage)
      else some (w.goTo id run (.clearStage item rest))
  | .clearStage item rest, .removed path =>
    match (w.disk.stage item).bind fun tree => removeEntry tree path with
    | some tree =>
      let w := w.put (w.disk.setStage item (remaining tree))
      some (w.goTo id run (.clearStage item rest))
    | none => none
  | .clearStage item rest, .done =>
    if w.disk.stage item = none then some (w.goTo id run (.lookSource item rest)) else none
  | .lookSource item rest, .done =>
    match (w.disk.previous (run.sourceOf item)).bind fun tree => tree.get [] with
    | some .dir => some (w.goTo id run (.copying item rest [.tree []]))
    | some (.link _) => some (w.fail id .linkedPath)
    | some (.file _) => some (w.goTo id run (.copying item rest [.fill []]))
    | none => some (w.fail id .system)
  | .copying item rest (task :: tasks), .done =>
    match w.disk.previous (run.sourceOf item) with
    | some source =>
      match copyStep source ((w.disk.stage item).getD KeyMap.empty) task with
      | .ok (new, tree) =>
        let w := w.put (w.disk.setStage item (some tree))
        some (w.goTo id run (.copying item rest (new ++ tasks)))
      | .error failure => some (w.fail id failure)
    | none => some (w.fail id .system)
  | .copying item rest (task :: tasks), .wrote count =>
    match w.disk.previous (run.sourceOf item) with
    | some source =>
      match writeSome source ((w.disk.stage item).getD KeyMap.empty) count task with
      | some tree =>
        let w := w.put (w.disk.setStage item (some tree))
        some (w.goTo id run (.copying item rest (task :: tasks)))
      | none => none
    | none => none
  | .copying item rest [], .done =>
    match w.disk.stage item with
    | some tree =>
      let source := run.sourceOf item
      let w := w.put ((w.disk.setHome item tree).setStage item none)
      let w := w.note (.created item tree (w.disk.previous source) (run.started source))
      some (w.committed id run item rest)
    | none => some (w.fail id .system)
  | .lookStage _ _, .failed => some (w.fail id .system)
  | .clearStage _ _, .failed => some (w.fail id .system)
  | .lookSource _ _, .failed => some (w.fail id .system)
  | .copying _ _ _, .failed => some (w.fail id .system)
  | _, _ => none

def go (w : World) (id : Nat) (run : Run) (outcome : Outcome) : Option World :=
  (lookAround w id run run.point outcome).orElse fun _ =>
    (lookPending w id run run.point outcome).orElse fun _ =>
      (moveDir w id run run.point outcome).orElse fun _ => copy w id run run.point outcome

def migrate (w : World) : Act → Option World
  | .begin id =>
    if (w.runs.get id).isSome then none
    else some { w with
      runs := w.runs.insert id
        { started := w.disk.previous
          late := w.log.any Event.isReturned
          replaced := false
          point := .lookTarget } }
  | .go id outcome => (w.runs.get id).bind fun run => go w id run outcome
  | .stop id => if (w.runs.get id).isSome then some (w.drop id) else none

end AioLM.Home
