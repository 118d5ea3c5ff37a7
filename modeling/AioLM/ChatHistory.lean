import Mathlib.Data.List.Lex
import Mathlib.Data.List.Sort
import Mathlib.Data.List.Nodup
import AioLM.KeyMap

/-!
The conversations of one window and the data folder they are kept in: loads that read the
folder and note what is stored, and saves that write and delete what differs from the note,
one after the other. Every call of the backend is one step.
-/

set_option autoImplicit false

namespace AioLM.ChatHistory

/-- The UTF-16 units of a string. -/
abbrev JsString := List Nat

def units (text : String) : JsString := text.toList.map Char.toNat

def isJsSpace (unit : Nat) : Bool :=
  decide (9 ≤ unit ∧ unit ≤ 13) || decide (0x2000 ≤ unit ∧ unit ≤ 0x200A) ||
    [0x20, 0xA0, 0x1680, 0x2028, 0x2029, 0x202F, 0x205F, 0x3000, 0xFEFF].contains unit

def persistedTextLimit : Nat := 16 * 1024

def persistedMessagesLimit : Nat := 100

def persistedThreadsLimit : Nat := 100

variable {Value Message Rest : Type}

/-- A conversation; `rest` is its other fields and the order an object lists them in. -/
structure ChatThread (Message Rest : Type) where
  id : JsString
  title : JsString
  systemPrompt : JsString
  useDefaultSystemPrompt : Option Bool
  mediaBeforeText : Option Bool
  messages : List Message
  rest : Rest

structure ChatWorkspace (Message Rest : Type) where
  activeThreadId : JsString
  threads : List (ChatThread Message Rest)

/-- How conversations are printed, stored and read. `receive` is what the data folder holds
for a conversation that was saved as a text, and what is read of a stored one depends on
the clock where it has no dates of its own. -/
structure Format (Value Message Rest : Type) where
  stringify : ChatThread Message Rest → JsString
  receive : JsString → Value
  normalizeThread : Value → Option (Nat → ChatThread Message Rest)
  safeMessage : Message → Bool → Message
  newestFirst : ChatThread Message Rest → ChatThread Message Rest → Bool
  received_id : ∀ thread read now,
    normalizeThread (receive (stringify thread)) = some read → (read now).id = thread.id

section Kept

variable (format : Format Value Message Rest)

/-- The last messages, where the very last one may keep more. -/
def Format.safeMessages (messages : List Message) : List Message :=
  let kept := messages.drop (messages.length - persistedMessagesLimit)
  kept.mapIdx fun index message => format.safeMessage message (index == kept.length - 1)

def Format.safeThread (thread : ChatThread Message Rest) : ChatThread Message Rest :=
  { thread with
    systemPrompt := thread.systemPrompt.take persistedTextLimit
    messages := format.safeMessages thread.messages }

def Format.localSafeWorkspace (workspace : ChatWorkspace Message Rest) :
    ChatWorkspace Message Rest :=
  let orderedThreads :=
    match workspace.threads.find? fun thread => thread.id == workspace.activeThreadId with
    | some active => active :: workspace.threads.filter fun thread => thread.id != active.id
    | none => workspace.threads
  { workspace with threads := (orderedThreads.take persistedThreadsLimit).map format.safeThread }

def Format.persistedWorkspace (workspace : ChatWorkspace Message Rest) :
    ChatWorkspace Message Rest :=
  let safe := format.localSafeWorkspace workspace
  let threads := safe.threads.filter fun thread =>
    !thread.messages.isEmpty || thread.id == safe.activeThreadId
  { threads := if threads.isEmpty then safe.threads.take 1 else threads
    activeThreadId :=
      if threads.any fun thread => thread.id == safe.activeThreadId then safe.activeThreadId
      else (threads.head?.map (·.id)).getD safe.activeThreadId }

def untouched (thread : ChatThread Message Rest) : Bool :=
  thread.messages.isEmpty && thread.systemPrompt.all isJsSpace &&
    thread.useDefaultSystemPrompt != some false && thread.mediaBeforeText != some true &&
      thread.title == units "New conversation"

/-- The conversations a save writes. -/
def Format.kept (workspace : ChatWorkspace Message Rest) : List (ChatThread Message Rest) :=
  (format.persistedWorkspace workspace).threads.filter fun thread => !untouched thread

def Format.keptIds (workspace : ChatWorkspace Message Rest) : List JsString :=
  (format.kept workspace).map fun thread => thread.id

def Format.readThreads (now : Nat) (stored : List Value) : List (ChatThread Message Rest) :=
  ((stored.filterMap format.normalizeThread).map fun read => read now).insertionSort
    fun left right => format.newestFirst left right

/-- `none` stands for the workspace of a new conversation. -/
def Format.loadedWorkspace (now : Nat) (active : Option JsString) (stored : List Value) :
    Option (ChatWorkspace Message Rest) :=
  let threads := format.readThreads now stored
  threads.head?.map fun first => format.persistedWorkspace {
    activeThreadId :=
      ((threads.find? fun thread => some thread.id == active).map (·.id)).getD first.id
    threads := threads }

end Kept

/-- A new entry goes to the end, one that is there keeps its place. -/
def setEntry (key value : JsString) : List (JsString × JsString) → List (JsString × JsString)
  | [] => [(key, value)]
  | (k, v) :: entries =>
    if k = key then (k, value) :: entries else (k, v) :: setEntry key value entries

def deleteEntry (key : JsString) (entries : List (JsString × JsString)) :
    List (JsString × JsString) :=
  entries.filter fun entry => entry.1 ≠ key

def newMap (entries : List (JsString × JsString)) : List (JsString × JsString) :=
  entries.foldl (fun m entry => setEntry entry.1 entry.2 m) []

inductive Load (Value Message Rest : Type) where
  | loading
  | read (stored : List Value)
  | loaded (workspace : Option (ChatWorkspace Message Rest))
  | failed

/-- A save between two calls of the backend: one is under way, or has taken effect and its
answer has not come yet. -/
inductive Task (Message Rest : Type) where
  | saving (workspace : ChatWorkspace Message Rest) (thread : ChatThread Message Rest)
      (todo : List (ChatThread Message Rest))
  | saved (workspace : ChatWorkspace Message Rest) (thread : ChatThread Message Rest)
      (todo : List (ChatThread Message Rest))
  | deleting (workspace : ChatWorkspace Message Rest) (id : JsString) (ids : List JsString)
  | deleted (workspace : ChatWorkspace Message Rest) (id : JsString) (ids : List JsString)

inductive ChatPersistenceResult where
  | native
  | unavailable
  deriving DecidableEq

/-- The folder by the ids of its conversations, what the window noted as written, and the
loads and saves of it. `covered` says that a load has replaced the note, or that there was
nothing to read to begin with; `saves` has every workspace that was to be saved. -/
structure World (Value Message Rest : Type) where
  folder : KeyMap JsString Value
  written : List (JsString × JsString) := []
  active : Option JsString := none
  loads : List (Load Value Message Rest) := []
  waiting : List (ChatWorkspace Message Rest) := []
  running : Option (Task Message Rest) := none
  finished : List (ChatWorkspace Message Rest × ChatPersistenceResult) := []
  covered : Bool
  saves : List (ChatWorkspace Message Rest) := []

inductive Action (Value Message Rest : Type) where
  | load
  | read (call : Nat) (stored : List Value)
  | fail (call : Nat)
  | adopt (call now : Nat)
  | save (workspace : ChatWorkspace Message Rest)
  | start
  | invoke (fails : Bool)
  | answer

section Steps

variable (format : Format Value Message Rest)

def Format.deleteNext (workspace : ChatWorkspace Message Rest) :
    List JsString → Option (Task Message Rest)
  | [] => none
  | id :: ids =>
    if id ∈ format.keptIds workspace then Format.deleteNext workspace ids
    else some (.deleting workspace id ids)

/-- The conversations whose text is the noted one are passed over. -/
def Format.writeNext (written : List (JsString × JsString))
    (workspace : ChatWorkspace Message Rest) :
    List (ChatThread Message Rest) → Option (Task Message Rest)
  | [] => format.deleteNext workspace (written.map (·.1))
  | thread :: todo =>
    if KeyMap.find thread.id written = some (format.stringify thread) then
      Format.writeNext written workspace todo
    else some (.saving workspace thread todo)

def World.goOn (w : World Value Message Rest) (workspace : ChatWorkspace Message Rest) :
    Option (Task Message Rest) → World Value Message Rest
  | some task => { w with running := some task }
  | none => { w with running := none, finished := (workspace, .native) :: w.finished }

def World.giveUp (w : World Value Message Rest) (workspace : ChatWorkspace Message Rest) :
    World Value Message Rest :=
  { w with running := none, finished := (workspace, .unavailable) :: w.finished }

def step [DecidableEq Value] (w : World Value Message Rest) :
    Action Value Message Rest → Option (World Value Message Rest)
  | .load => some { w with loads := w.loads ++ [.loading] }
  | .read call stored =>
    match w.loads[call]? with
    | some .loading =>
      if stored.isPerm (w.folder.entries.map (·.2)) then
        some { w with loads := w.loads.set call (.read stored) }
      else none
    | _ => none
  | .fail call =>
    match w.loads[call]? with
    | some .loading => some { w with loads := w.loads.set call .failed }
    | _ => none
  | .adopt call now =>
    match w.loads[call]? with
    | some (.read stored) =>
      let threads := format.readThreads now stored
      some { w with
        written := newMap (threads.map fun thread =>
          (thread.id, format.stringify (format.safeThread thread)))
        loads := w.loads.set call (.loaded (format.loadedWorkspace now w.active stored))
        covered := true }
    | _ => none
  | .save workspace =>
    let safe := format.persistedWorkspace workspace
    let w' := { w with active := some safe.activeThreadId, saves := workspace :: w.saves }
    -- without any conversation the filter of the untouched ones throws
    if safe.threads.isEmpty then some w'
    else some { w' with waiting := w.waiting ++ [workspace] }
  | .start =>
    match w.running, w.waiting with
    | none, workspace :: waiting =>
      some ({ w with waiting := waiting }.goOn workspace
        (format.writeNext w.written workspace (format.kept workspace)))
    | _, _ => none
  | .invoke fails =>
    match w.running with
    | some (.saving workspace thread todo) =>
      if fails then some (w.giveUp workspace)
      else some { w with
        folder := w.folder.insert thread.id (format.receive (format.stringify thread))
        running := some (.saved workspace thread todo) }
    | some (.deleting workspace id ids) =>
      if fails then some (w.giveUp workspace)
      else some { w with
        folder := w.folder.erase id
        running := some (.deleted workspace id ids) }
    | _ => none
  | .answer =>
    match w.running with
    | some (.saved workspace thread todo) =>
      let written := setEntry thread.id (format.stringify thread) w.written
      some ({ w with written := written }.goOn workspace
        (format.writeNext written workspace todo))
    | some (.deleted workspace id ids) =>
      some ({ w with written := deleteEntry id w.written }.goOn workspace
        (format.deleteNext workspace ids))
    | _ => none

def World.opened (folder : KeyMap JsString Value) : World Value Message Rest where
  folder := folder
  covered := folder.entries.all fun entry => (format.normalizeThread entry.2).isNone

end Steps

end AioLM.ChatHistory
