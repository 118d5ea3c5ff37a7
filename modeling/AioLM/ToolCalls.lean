import AioLM.McpServers
import AioLM.ToolCallTable

/-!
Tool calls from their registration to the drop of it: the steps of each call between
two awaits, the cancels, and what was approved and sent.
-/

set_option autoImplicit false

namespace AioLM.Mcp

open McpConfig (containsForbiddenControl validId)

def maxToolArgumentBytes : Nat := 256 * 1024

def maxApprovalDescriptionBytes : Nat := 4096

def approvalTruncationSuffix : Text := ['\n', '…']

structure McpServer where
  id : Text
  name : Text

def takeBytes : Nat → Text → Text
  | _, [] => []
  | room, c :: rest =>
    if c.utf8Size ≤ room then c :: takeBytes (room - c.utf8Size) rest else []

def pushBounded (limit : Nat) (output : Text) : List Text → Text
  | [] => output
  | part :: parts =>
    let output' := output ++ takeBytes (limit - output.utf8Len) part
    if part.utf8Len ≤ limit - output.utf8Len then pushBounded limit output' parts else output'

def toolApprovalDescription (server : McpServer) (name serialized : Text) : Text :=
  let parts := ["Server: ".toList, server.name, " (".toList, server.id, ")\nTool: ".toList, name,
    "\nArguments: ".toList, serialized, "\n\nAllow this one-time MCP tool call?".toList]
  if (parts.map Text.utf8Len).sum ≤ maxApprovalDescriptionBytes then parts.flatten
  else
    pushBounded (maxApprovalDescriptionBytes - approvalTruncationSuffix.utf8Len) [] parts ++
      approvalTruncationSuffix

def hasType (expected : Text) (value : Json) : Bool :=
  if expected = "string".toList then value.isString
  else if expected = "number".toList then value.isNumber
  else if expected = "integer".toList then value.asI64.isSome || value.asU64.isSome
  else if expected = "boolean".toList then value.isBoolean
  else if expected = "object".toList then value.isObject
  else if expected = "array".toList then value.isArray
  else if expected = "null".toList then value.isNull
  else true

def expectedType (properties : List (Text × Json)) (field : Text) : Option Text :=
  (Json.lookup field properties).bind fun property =>
    (property.asObject.bind (Json.lookup "type".toList)).bind Json.asStr

def validateToolArguments (schema arguments : Json) : Except Text Unit :=
  match schema.asObject with
  | none => .ok ()
  | some schema =>
    match arguments.asObject with
    | none => .error "MCP tool arguments must be a JSON object".toList
    | some arguments => do
      let required := ((Json.lookup "required".toList schema).bind Json.asArray).getD []
      (required.filterMap Json.asStr).forM fun field =>
        if (Json.lookup field arguments).isSome then .ok ()
        else .error ("MCP tool argument '".toList ++ field ++ "' is required".toList)
      let properties := ((Json.lookup "properties".toList schema).bind Json.asObject).getD []
      arguments.forM fun (field, value) =>
        match expectedType properties field with
        | none => .ok ()
        | some expected =>
          if hasType expected value then .ok ()
          else .error ("MCP tool argument '".toList ++ field ++ "' must be ".toList ++ expected)

def checkTool (toolList : Json) (name : Text) (arguments : Json) : Except Text Unit :=
  let tools := ((toolList.get "tools").bind Json.asArray).getD []
  match tools.find? fun tool => (tool.get "name").bind Json.asStr == some name with
  | none =>
    .error ("MCP tool '".toList ++ name ++ "' is not declared by the server".toList)
  | some tool =>
    match tool.get "inputSchema" with
    | none => .ok ()
    | some schema => validateToolArguments schema arguments

/-- Where a call is. It is registered until it has `ended`; from `loading` to `reading` it
waits for work under the guard of its cancel. -/
inductive Phase where
  | registered
  | loading
  | spawning
  | listing
  | approving
  | checking
  | sending
  | reading
  | closing
  | returning
  | ended
  deriving DecidableEq

/-- A call with the answer it comes to; `signal` is what its cancel observes, and
`polling` says that the guard has looked at it and polls the work. -/
structure Call where
  serverId : Text
  name : Text
  arguments : Json
  callId : Text
  server : McpServer := ⟨[], []⟩
  phase : Phase := .registered
  polling : Bool := false
  signal : Bool := false
  result : Except Text Json := .ok .null

inductive Approval where
  | accepted
  | rejected (error : Text)
  | timedOut

/-- What the work of a call comes to at an await. -/
inductive Outcome where
  | loaded (servers : Except Text (List McpServer))
  | spawned (session : Except Text Unit)
  | listed (toolList : Except Text Json)
  | answered (approval : Approval)
  | checked
  | written (result : Except Text Unit)
  | read (response : Except Text Json)

inductive Event where
  | cancelled (callId : Text)
  | called (callId : Text) (admitted : Except Text Unit)
  | accepted (call : Nat) (description : Text)
  | sent (call : Nat) (name : Text) (arguments : Json)

/-- The table, the calls that were admitted, the clock that cancels and registrations
read, and what happened, the last first. -/
structure World where
  table : Calls := .empty
  calls : List Call := []
  clock : Nat := 0
  log : List Event := []

inductive Action where
  | call (serverId name : Text) (arguments : Json) (callId : Text) (now : Nat)
  | validate (call : Nat)
  | poll (call : Nat)
  | work (call : Nat) (outcome : Outcome)
  | pend (call : Nat)
  | closed (call : Nat)
  | abandon (call : Nat)
  | release (call : Nat)
  | cancel (callId : Text) (pruneAt now : Nat)
  | cancelAll

def checkCall (floatText : Float → Text) (call : Call) : Except Text Unit :=
  if call.name.isEmpty || decide (256 < call.name.utf8Len) ||
      containsForbiddenControl call.name then
    .error "invalid MCP tool name".toList
  else if !call.arguments.isObject then
    .error "MCP tool arguments must be a JSON object".toList
  else if maxToolArgumentBytes < (Json.compact floatText call.arguments).utf8Len then
    .error "MCP tool arguments exceed the 256 KiB safety limit".toList
  else .ok ()

namespace Call

def live (call : Call) : Bool := call.phase != .ended

def fail (call : Call) (error : Text) : Call :=
  { call with phase := .returning, polling := false, result := .error error }

def close (call : Call) (result : Except Text Json) : Call :=
  { call with phase := .closing, polling := false, result := result }

/-- The guard of a cancel ends the work at once. -/
def stop (call : Call) : Call :=
  if call.phase = .loading ∨ call.phase = .spawning then call.fail toolCallCancelled
  else call.close (.error toolCallCancelled)

def guarded (call : Call) : Bool :=
  [Phase.loading, .spawning, .listing, .approving, .checking, .sending, .reading].contains
    call.phase

/-- One await of the work, and what it brings about. The write of a call starts with the
check that it is not cancelled, without an await between them. -/
def work (floatText : Float → Text) (i : Nat) (call : Call) : Outcome → Option (Call × List Event)
  | .loaded servers =>
    if call.phase ≠ .loading then none
    else
      match servers with
      | .error error => some (call.fail error, [])
      | .ok servers =>
        match servers.find? fun server => server.id == call.serverId with
        | none => some (call.fail "MCP server was not found".toList, [])
        | some server =>
          some ({ call with phase := .spawning, polling := false, server := server }, [])
  | .spawned session =>
    if call.phase ≠ .spawning then none
    else
      match session with
      | .error error => some (call.fail error, [])
      | .ok () => some ({ call with phase := .listing, polling := false }, [])
  | .listed toolList =>
    if call.phase ≠ .listing then none
    else
      match toolList.bind fun toolList => checkTool toolList call.name call.arguments with
      | .error error => some (call.close (.error error), [])
      | .ok () => some ({ call with phase := .approving }, [])
  | .answered approval =>
    if call.phase ≠ .approving then none
    else
      match approval with
      | .rejected error => some (call.close (.error error), [])
      | .timedOut => some (call.close (.error "MCP tool approval timed out".toList), [])
      | .accepted =>
        some ({ call with phase := .checking },
          [.accepted i (toolApprovalDescription call.server call.name
            (Json.compact floatText call.arguments))])
  | .checked =>
    if call.phase ≠ .checking then none
    else if call.signal then some (call.close (.error toolCallCancelled), [])
    else some ({ call with phase := .sending }, [.sent i call.name call.arguments])
  | .written result =>
    if call.phase ≠ .sending then none
    else
      match result with
      | .error error => some (call.close (.error error), [])
      | .ok () => some ({ call with phase := .reading }, [])
  | .read response =>
    if call.phase ≠ .reading then none else some (call.close response, [])

end Call

namespace World

def put (w : World) (i : Nat) (call : Call) : World := { w with calls := w.calls.set i call }

def signal (w : World) (senders : List Nat) : List Call :=
  w.calls.mapIdx fun i call => if i ∈ senders then { call with signal := true } else call

end World

/-- One step; `none` when it cannot be taken. -/
def step (floatText : Float → Text) (w : World) : Action → Option World
  | .call serverId name arguments callId now =>
    if now < w.clock then none
    else if !validId callId then some w
    else
      match admitCall w.table callId w.calls.length now with
      | (.error error, table) =>
        some { w with
          table := table
          clock := now
          log := .called callId (.error error) :: w.log }
      | (.ok (), table) =>
        some { w with
          table := table
          calls := w.calls ++ [{
            serverId := serverId, name := name, arguments := arguments, callId := callId }]
          clock := now
          log := .called callId (.ok ()) :: w.log }
  | .validate i =>
    w.calls[i]?.bind fun call =>
      if call.phase ≠ .registered then none
      else
        match checkCall floatText call with
        | .error error => some (w.put i (call.fail error))
        | .ok () => some (w.put i { call with phase := .loading })
  | .poll i =>
    w.calls[i]?.bind fun call =>
      if call.guarded && !call.polling then
        some (w.put i (if call.signal then call.stop else { call with polling := true }))
      else none
  | .work i outcome =>
    w.calls[i]?.bind fun call =>
      if call.guarded && call.polling then
        (call.work floatText i outcome).map fun done =>
          { w with log := done.2 ++ w.log }.put i done.1
      else none
  | .pend i =>
    w.calls[i]?.bind fun call =>
      if call.guarded && call.polling && call.phase != .checking then
        some (w.put i { call with polling := false })
      else none
  | .closed i =>
    w.calls[i]?.bind fun call =>
      if call.phase = .closing then some (w.put i { call with phase := .returning }) else none
  | .abandon i =>
    w.calls[i]?.bind fun call =>
      if !call.polling && (call.guarded || call.phase == .closing) then
        some (w.put i { call with phase := .returning })
      else none
  | .release i =>
    w.calls[i]?.bind fun call =>
      if call.phase = .returning then
        some ({ w with table := dropRegistration w.table call.callId }.put i
          { call with phase := .ended })
      else none
  | .cancel callId pruneAt now =>
    if pruneAt < w.clock ∨ now < pruneAt then none
    else if !validId callId then some w
    else
      let recorded := recordCancel w.table callId pruneAt now
      some { w with
        table := recorded.1
        calls := w.signal recorded.2.toList
        clock := now
        log := .cancelled callId :: w.log }
  | .cancelAll => some { w with calls := w.signal (cancelActiveCalls w.table) }

end AioLM.Mcp
