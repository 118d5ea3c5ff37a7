import AioLM.JsonPretty
import AioLM.Runs
import AioLM.TextBytes

/-!
The stored list of MCP servers: how it is checked, read and replaced, one operation of the
file system after the other, with the process stopping and others reading in between.
-/

set_option autoImplicit false

namespace AioLM.McpConfig

open Text

structure McpServer where
  id : Text
  name : Text
  command : Text
  args : List Text
  enabled : Bool
  deriving DecidableEq

def containsForbiddenControl (value : Text) : Bool :=
  value.any fun character => character == '\x00' || character == '\r' || character == '\n'

def validId (value : Text) : Bool :=
  decide (value ≠ []) && decide (value.utf8Len ≤ 64) &&
    value.all fun character => character.isAlphanum || character == '-' || character == '_'

def validateServer (server : McpServer) : Except Text Unit :=
  if validId server.id = false then
    .error "MCP server id must contain only letters, numbers, '-' or '_'.".toList
  else if trim server.name = [] ∨ 80 < server.name.utf8Len then
    .error "MCP server name must be between 1 and 80 characters.".toList
  else if trim server.command = [] ∨ 512 < server.command.utf8Len ∨
      containsForbiddenControl server.command ∨
      (server.command.any fun character => character ∈ ['&', '|', ';', '<', '>']) then
    .error "MCP command must be one executable path; shell operators are not allowed.".toList
  else if 64 < server.args.length ∨
      (server.args.any fun argument =>
        decide (4096 < argument.utf8Len) || containsForbiddenControl argument) then
    .error "MCP arguments must be at most 64 newline-free values.".toList
  else .ok ()

def validateServers : List McpServer → Except Text Unit
  | [] => .ok ()
  | server :: rest => do
    validateServer server
    validateServers rest

def fieldText (depth : Nat) (name : String) : Text :=
  Json.newLine depth ++ Json.quote name.toList ++ [':', ' ']

def prettyBool : Bool → Text
  | true => "true".toList
  | false => "false".toList

def McpServer.pretty (depth : Nat) (server : McpServer) : Text :=
  '{' :: fieldText (depth + 1) "id" ++ Json.quote server.id ++
    ',' :: fieldText (depth + 1) "name" ++ Json.quote server.name ++
    ',' :: fieldText (depth + 1) "command" ++ Json.quote server.command ++
    ',' :: fieldText (depth + 1) "args" ++ Json.prettyArray Json.quote (depth + 1) server.args ++
    ',' :: fieldText (depth + 1) "enabled" ++ prettyBool server.enabled ++
    Json.newLine depth ++ ['}']

/-- `serde_json::to_vec_pretty` -/
def encode (servers : List McpServer) : Bytes :=
  TextBytes.encode (Json.prettyArray (McpServer.pretty 1) 0 servers)

/-- What the model does not hold: `serde_json::from_slice`, and the system's message for a
missing file. -/
structure Packages where
  fromSlice : Bytes → Except Text (List McpServer)
  notFound : Text

def Packages.ReadsBack (pkg : Packages) : Prop :=
  ∀ servers, pkg.fromSlice (encode servers) = .ok servers

def readBool (t : Text) : Option (Bool × Text) :=
  match stripPrefix "true".toList t with
  | some rest => some (true, rest)
  | none => (stripPrefix "false".toList t).map fun rest => (false, rest)

def readServer (depth : Nat) (t : Text) : Option (McpServer × Text) := do
  let t ← stripPrefix ('{' :: fieldText (depth + 1) "id") t
  let (id, t) ← Json.readQuoted t
  let t ← stripPrefix (',' :: fieldText (depth + 1) "name") t
  let (name, t) ← Json.readQuoted t
  let t ← stripPrefix (',' :: fieldText (depth + 1) "command") t
  let (command, t) ← Json.readQuoted t
  let t ← stripPrefix (',' :: fieldText (depth + 1) "args") t
  let (args, t) ← Json.readArray Json.readQuoted (depth + 1) t
  let t ← stripPrefix (',' :: fieldText (depth + 1) "enabled") t
  let (enabled, t) ← readBool t
  let t ← stripPrefix (Json.newLine depth ++ ['}']) t
  return (⟨id, name, command, args, enabled⟩, t)

def strictPackages : Packages where
  fromSlice bytes :=
    match (TextBytes.decode bytes).bind (Json.readArray (readServer 1) 0) with
    | some (servers, []) => .ok servers
    | _ => .error "expected value at line 1 column 1".toList
  notFound := "No such file or directory (os error 2)".toList

theorem readBool_pretty (b : Bool) (rest : Text) : readBool (prettyBool b ++ rest) = some (b, rest) := by
  cases b <;> rfl

theorem readServer_pretty (depth : Nat) (server : McpServer) (rest : Text) :
    readServer depth (server.pretty depth ++ rest) = some (server, rest) := by
  obtain ⟨id, name, command, args, enabled⟩ := server
  have hargs (rest : Text) := Json.readArray_pretty Json.readQuoted_quote (depth + 1) args rest
  have hpretty : (McpServer.mk id name command args enabled).pretty depth ++ rest =
      ('{' :: fieldText (depth + 1) "id") ++ (Json.quote id ++
        ((',' :: fieldText (depth + 1) "name") ++ (Json.quote name ++
        ((',' :: fieldText (depth + 1) "command") ++ (Json.quote command ++
        ((',' :: fieldText (depth + 1) "args") ++
        (Json.prettyArray Json.quote (depth + 1) args ++
        ((',' :: fieldText (depth + 1) "enabled") ++ (prettyBool enabled ++
        ((Json.newLine depth ++ ['}']) ++ rest)))))))))) := by
    simp only [McpServer.pretty, List.cons_append, List.append_assoc]
  rw [hpretty]
  simp only [readServer, stripPrefix_append, Json.readQuoted_quote, hargs, readBool_pretty,
    Option.bind_eq_bind, Option.bind_some, Option.pure_def]

theorem strictPackages_readsBack : strictPackages.ReadsBack := by
  intro servers
  have hread := Json.readArray_pretty (readServer_pretty 1) 0 servers []
  rw [List.append_nil] at hread
  simp only [strictPackages, encode, TextBytes.decode_encode, Option.bind_some, hread]

/-- The files of the home folder that belong to the list. -/
inductive Name where
  | config
  | temp (id : Nat)
  | backup (id : Nat)
  deriving DecidableEq

abbrev Folder := Name → Option Bytes

def Folder.write (files : Folder) (name : Name) (content : Option Bytes) : Folder :=
  fun other => if other = name then content else files other

/-- A file under another name, which is free; `none` when there is no such file. -/
def Folder.rename (files : Folder) (source target : Name) : Option Folder :=
  (files source).map fun content => (files.write source none).write target (some content)

def readConfig (pkg : Packages) (files : Folder) : Except Text (List McpServer) := do
  let bytes ← match files .config with
    | some bytes => Except.ok bytes
    | none => .error ("cannot read MCP config: ".toList ++ pkg.notFound)
  let servers ← (pkg.fromSlice bytes).mapError ("cannot parse MCP config: ".toList ++ ·)
  validateServers servers
  return servers

inductive Change where
  | save (server : McpServer)
  | remove (id : Text)
  deriving DecidableEq

/-- The server in the place of the first of its name, or behind the others. -/
def put (server : McpServer) : List McpServer → List McpServer
  | [] => [server]
  | candidate :: rest =>
    if candidate.id = server.id then server :: rest else candidate :: put server rest

def Change.apply : Change → List McpServer → List McpServer
  | .save server, servers => put server servers
  | .remove id, servers => servers.filter fun server => server.id ≠ id

/-- What is checked once the list is loaded. -/
def Change.validate : Change → Except Text Unit
  | .save server => validateServer server
  | .remove _ => .ok ()

/-- What a call does next, the one that holds the lock. -/
inductive Stage where
  | look
  | read
  | createDirectory
  | stageFile
  | inspect (id : Nat)
  | setAside (id : Nat)
  | activate (id : Nat) (hadExisting : Bool)
  | removeBackup (id : Nat)
  | inspectBackup (id : Nat) (error : Text)
  | restore (id : Nat) (error : Text)
  | removeTemp (id : Nat) (error : Text)
  deriving DecidableEq

structure Call where
  change : Change
  servers : List McpServer
  stage : Stage
  deriving DecidableEq

/-- How an operation of the file system ends. A failed write may leave a part of the file. -/
inductive Outcome where
  | done
  | failed (error : Text) (left : Option Bytes)
  deriving DecidableEq

/-- The list before and after the call in progress or last interrupted. -/
structure View where
  before : List McpServer
  after : List McpServer
  deriving DecidableEq

inductive Event where
  | loaded (failed : Bool) (result : Except Text (List McpServer)) (view : View)
  | returned (change : Change) (result : Except Text (List McpServer))
  deriving DecidableEq

structure State where
  files : Folder
  fresh : Nat
  call : Option Call
  looked : Nat
  view : View
  log : List Event

inductive Step where
  | begin (change : Change)
  | go (outcome : Outcome)
  | stop
  | look (outcome : Outcome)
  | read (outcome : Outcome)
  deriving DecidableEq

def State.note (s : State) (event : Event) : State := { s with log := s.log ++ [event] }

def State.finish (s : State) (change : Change) (view : View)
    (result : Except Text (List McpServer)) : State :=
  { s with call := none, view := view, log := s.log ++ [.returned change result] }

def State.at (s : State) (call : Call) (stage : Stage) : State :=
  { s with call := some { call with stage := stage } }

def State.continue (s : State) (call : Call) (failed : Bool)
    (result : Except Text (List McpServer)) : State :=
  let s := s.note (.loaded failed result s.view)
  match result with
  | .error error => s.finish call.change s.view (.error error)
  | .ok servers =>
    match (do call.change.validate; validateServers (call.change.apply servers)) with
    | .error error => s.finish call.change ⟨servers, servers⟩ (.error error)
    | .ok () =>
      { s with
        call := some ⟨call.change, call.change.apply servers, .createDirectory⟩
        view := ⟨servers, call.change.apply servers⟩ }

def State.giveUp (s : State) (call : Call) (error : Text) : State :=
  s.finish call.change ⟨s.view.before, s.view.before⟩ (.error error)

/-- The next operation of `save_servers` and `activate_staged_file`. -/
def go (pkg : Packages) (s : State) (call : Call) (outcome : Outcome) : State :=
  match call.stage, outcome with
  | .look, .failed error _ =>
    s.continue call true (.error ("cannot inspect MCP config: ".toList ++ error))
  | .look, .done =>
    if s.files .config = none then s.continue call false (.ok []) else s.at call .read
  | .read, .failed error _ =>
    s.continue call true (.error ("cannot read MCP config: ".toList ++ error))
  | .read, .done => s.continue call false (readConfig pkg s.files)
  | .createDirectory, .failed error _ =>
    s.giveUp call ("cannot create MCP config directory: ".toList ++ error)
  | .createDirectory, .done => s.at call .stageFile
  | .stageFile, .failed error left =>
    State.giveUp
      { s with files := if left = none then s.files else s.files.write (.temp s.fresh) left }
      call ("cannot stage MCP config: ".toList ++ error)
  | .stageFile, .done =>
    State.at
      { s with
        files := s.files.write (.temp s.fresh) (some (encode call.servers))
        fresh := s.fresh + 1 }
      call (.inspect s.fresh)
  | .inspect id, .failed error _ => s.at call (.removeTemp id error)
  | .inspect id, .done =>
    s.at call (if s.files .config = none then .activate id false else .setAside id)
  | .setAside id, .failed error _ => s.at call (.removeTemp id error)
  | .setAside id, .done =>
    match s.files.rename .config (.backup id) with
    | none => s.at call (.removeTemp id pkg.notFound)
    | some files => State.at { s with files := files } call (.activate id true)
  | .activate id hadExisting, .failed error _ =>
    s.at call (if hadExisting then .inspectBackup id error else .removeTemp id error)
  | .activate id hadExisting, .done =>
    match s.files.rename (.temp id) .config with
    | none =>
      s.at call (if hadExisting then .inspectBackup id pkg.notFound else .removeTemp id pkg.notFound)
    | some files =>
      if hadExisting then State.at { s with files := files } call (.removeBackup id)
      else State.finish { s with files := files } call.change ⟨call.servers, call.servers⟩
        (.ok call.servers)
  | .removeBackup id, outcome =>
    State.finish
      { s with files := if outcome = .done then s.files.write (.backup id) none else s.files }
      call.change ⟨call.servers, call.servers⟩ (.ok call.servers)
  | .inspectBackup id error, outcome =>
    s.at call
      (if outcome = .done ∧ s.files (.backup id) ≠ none then .restore id error
      else .removeTemp id error)
  | .restore id error, outcome =>
    State.at
      { s with
        files := if outcome = .done then (s.files.rename (.backup id) .config).getD s.files
          else s.files }
      call (.removeTemp id error)
  | .removeTemp id error, outcome =>
    State.giveUp
      { s with files := if outcome = .done then s.files.write (.temp id) none else s.files }
      call ("cannot activate MCP config: ".toList ++ error)

theorem removeTemp_eq {pkg : Packages} {s : State} {call : Call} {id : Nat} {error : Text}
    (hstage : call.stage = .removeTemp id error) (outcome : Outcome) :
    go pkg s call outcome = State.giveUp
      { s with files := if outcome = .done then s.files.write (.temp id) none else s.files }
      call ("cannot activate MCP config: ".toList ++ error) := by
  simp only [go, hstage]

/-- `save`, `remove` and `list`, and the process stopping, which forgets the calls. -/
def step (pkg : Packages) (s : State) : Step → Option State
  | .begin (.remove id) =>
    if validId id = false then
      some (s.note (.returned (.remove id) (.error "invalid MCP server id".toList)))
    else if s.call = none then some { s with call := some ⟨.remove id, [], .look⟩ }
    else none
  | .begin (.save server) =>
    if s.call = none then some { s with call := some ⟨.save server, [], .look⟩ } else none
  | .go outcome => s.call.map fun call => go pkg s call outcome
  | .stop => some { s with call := none, looked := 0 }
  | .look (.failed error _) =>
    some (s.note (.loaded true (.error ("cannot inspect MCP config: ".toList ++ error)) s.view))
  | .look .done =>
    if s.files .config = none then some (s.note (.loaded false (.ok []) s.view))
    else some { s with looked := s.looked + 1 }
  | .read (.failed error _) =>
    if s.looked = 0 then none
    else some (State.note { s with looked := s.looked - 1 }
      (.loaded true (.error ("cannot read MCP config: ".toList ++ error)) s.view))
  | .read .done =>
    if s.looked = 0 then none
    else some (State.note { s with looked := s.looked - 1 }
      (.loaded false (readConfig pkg s.files) s.view))

def State.start (files : Folder) (servers : List McpServer) : State :=
  ⟨files, 0, none, 0, ⟨servers, servers⟩, []⟩

end AioLM.McpConfig
