import AioLM.DocumentContext

/-!
The messages of a request cut to a budget of tokens: the system message, and as many whole turns
from the end as there is room for.
-/

set_option autoImplicit false

namespace AioLM.ChatUtils

open ChatHistory (JsString units)

inductive Role where
  | system
  | user
  | assistant
  | tool
  deriving DecidableEq

inductive MediaKind where
  | image
  | audio
  | video
  deriving DecidableEq

inductive ChatContentPart where
  | text (text : JsString)
  | imageUrl (url : JsString)
  | inputAudio (data format : JsString)
  | inputVideo (data url : Option JsString)
  | videoUrl (url : JsString)
  | aiolmMedia (ref : JsString) (kind : MediaKind)
  deriving DecidableEq

inductive ChatContent where
  | text (text : JsString)
  | parts (parts : List ChatContentPart)
  deriving DecidableEq

structure ChatToolCall where
  id : JsString
  name : JsString
  arguments : JsString
  deriving DecidableEq

structure ChatMessage where
  role : Role
  content : ChatContent
  toolCallId : Option JsString := none
  name : Option JsString := none
  toolCalls : Option (List ChatToolCall) := none
  deriving DecidableEq

def codePoints : JsString → List Nat
  | [] => []
  | [unit] => [unit]
  | high :: low :: rest =>
    if 0xD800 ≤ high ∧ high ≤ 0xDBFF ∧ 0xDC00 ≤ low ∧ low ≤ 0xDFFF then
      ((high - 0xD800) * 0x400 + (low - 0xDC00) + 0x10000) :: codePoints rest
    else high :: codePoints (low :: rest)

def isCjk (code : Nat) : Bool :=
  decide (0x3400 ≤ code ∧ code ≤ 0x9fff) || decide (0x3040 ≤ code ∧ code ≤ 0x30ff) ||
    decide (0xac00 ≤ code ∧ code ≤ 0xd7af)

def isAscii (code : Nat) : Bool := !isCjk code && decide (code ≤ 0x7f)

def isOther (code : Nat) : Bool := !isCjk code && !decide (code ≤ 0x7f)

def estimateTextTokens (text : JsString) : Nat :=
  if text = [] then 0
  else
    let codes := codePoints text
    let ascii : ℚ := codes.countP isAscii
    let nonAscii : ℚ := codes.countP isOther
    let cjk : ℚ := codes.countP isCjk
    max 1 ⌈ascii / 4 + nonAscii / (5 / 2) + cjk / (9 / 5)⌉.toNat

def contentText : ChatContent → JsString
  | .text text => text
  | .parts parts => (units " ").intercalate (parts.filterMap fun part =>
      match part with
      | .text text => some text
      | _ => none)

def isImage : ChatContentPart → Bool
  | .imageUrl _ => true
  | .aiolmMedia _ kind => decide (kind = .image)
  | _ => false

def imageTokens : ChatContent → Nat
  | .text _ => 0
  | .parts parts => parts.countP isImage * 256

def estimateMessageTokens (message : ChatMessage) : Nat :=
  max 4 (estimateTextTokens (contentText message.content) + imageTokens message.content + 4)

def estimateChatTokens (messages : List ChatMessage) : Nat :=
  (messages.map estimateMessageTokens).sum

def truncationMarker : JsString := units "\n[context excerpt truncated]"

/-- The first units of a text, and the marker when it has more. -/
def excerptOf (source : JsString) (length : Nat) : JsString :=
  source.take length ++ if length < source.length then truncationMarker else []

/-- The search of `truncateMessage` between `low` and below `stop`: the last length it accepted. -/
def searchLength (fits : Nat → Bool) : Nat → Option Nat → Nat → Nat → Option Nat
  | 0, best, _, _ => best
  | fuel + 1, best, low, stop =>
    if low < stop then
      let middle := (low + (stop - 1)) / 2
      if fits middle then searchLength fits fuel (some middle) (middle + 1) stop
      else searchLength fits fuel best low middle
    else best

def ChatMessage.withText (message : ChatMessage) (text : JsString) : ChatMessage :=
  { message with content := .text text }

def truncateMessage (message : ChatMessage) (tokenBudget : Nat) : ChatMessage :=
  let budget := max 4 tokenBudget
  if estimateMessageTokens message ≤ budget then message
  else
    let source := contentText message.content
    let fits := fun length =>
      decide (estimateMessageTokens (message.withText (excerptOf source length)) ≤ budget)
    message.withText
      (((searchLength fits (source.length + 1) none 0 (source.length + 1)).map
        (excerptOf source)).getD [])

inductive Policy where
  | rollingWindow
  | truncateMiddle
  deriving DecidableEq

structure Turn where
  first : ChatMessage
  replies : List ChatMessage
  deriving DecidableEq

def Turn.messages (turn : Turn) : List ChatMessage := turn.first :: turn.replies

/-- The loop that collects the turns, the last of them first. -/
def addToTurns (turns : List Turn) (message : ChatMessage) : List Turn :=
  if message.role = .user then ⟨message, []⟩ :: turns
  else
    match turns with
    | [] => []
    | turn :: earlier => ⟨turn.first, turn.replies ++ [message]⟩ :: earlier

def keepTurns (budget : Nat) : List ChatMessage → Nat → List Turn → List ChatMessage
  | kept, _, [] => kept
  | kept, used, turn :: earlier =>
    let cost := estimateChatTokens turn.messages
    if kept ≠ [] ∧ budget < used + cost then kept
    else if kept = [] ∧ budget < used + cost then [truncateMessage turn.first (budget - used)]
    else keepTurns budget (turn.messages ++ kept) (used + cost) earlier

structure TrimResult where
  messages : List ChatMessage
  trimmed : Bool
  deriving DecidableEq

def systemMessage (messages : List ChatMessage) : Option ChatMessage :=
  messages.head?.filter fun message => decide (message.role = .system)

def cutChatHistory (messages : List ChatMessage) (budget : Nat) (policy : Policy) :
    List ChatMessage :=
  let system := systemMessage messages
  let systemBudget := max 32 (budget - 32)
  let boundedSystem := (system.map fun message =>
    if systemBudget < estimateMessageTokens message then truncateMessage message systemBudget
    else message).toList
  let rest := if system.isSome then messages.drop 1 else messages
  let turns := rest.foldl addToTurns []
  let kept := keepTurns budget [] (estimateChatTokens boundedSystem) turns
  match policy, turns.head?, turns.getLast? with
  | .truncateMiddle, some latest, some first =>
    let candidate := first.messages ++ latest.messages
    if 1 < turns.length ∧ kept.length < rest.length ∧
        estimateChatTokens candidate + estimateChatTokens boundedSystem ≤ budget then
      boundedSystem ++ candidate
    else boundedSystem ++ kept
  | _, _, _ => boundedSystem ++ kept

/-- `maxTokens` is a number or `Infinity`. -/
def trimChatHistory (messages : List ChatMessage) (maxTokens : WithTop ℚ) (policy : Policy) :
    TrimResult :=
  match budgetOf maxTokens with
  | none => ⟨messages, false⟩
  | some budget =>
    if estimateChatTokens messages ≤ budget then ⟨messages, false⟩
    else ⟨cutChatHistory messages budget policy, true⟩

/-- A message with a part of its text, or with its text alone. -/
def Shortened (message short : ChatMessage) : Prop :=
  short ≠ message ∧ ∃ length ≤ (contentText message.content).length,
    short = message.withText (excerptOf (contentText message.content) length)

def MaybeShortened (message short : ChatMessage) : Prop :=
  short = message ∨ Shortened message short

/-- The message of the user alone, where its turn is longer than the room for it: cut where the
message is too long itself, and only there. -/
def CutTo (room : Nat) (turn : Turn) (short : ChatMessage) : Prop :=
  room < estimateChatTokens turn.messages ∧
    if estimateMessageTokens turn.first ≤ room then short = turn.first
    else Shortened turn.first short

/-- The messages behind the system message, as turns; what stands before the first message of the
user belongs to none. -/
structure InTurns (rest lead : List ChatMessage) (turns : List Turn) : Prop where
  split : rest = lead ++ turns.flatMap Turn.messages
  lead : ∀ message ∈ lead, message.role ≠ .user
  first : ∀ turn ∈ turns, turn.first.role = .user
  replies : ∀ turn ∈ turns, ∀ message ∈ turn.replies, message.role ≠ .user

/-- What stays of the turns: the last ones, or with `truncateMiddle` the first and the last one, or
of the last one its message of the user, as it may be cut. -/
inductive Body (cut : Turn → ChatMessage → Prop) (policy : Policy) :
    List Turn → List ChatMessage → Prop
  | suffix (earlier later : List Turn) : later ≠ [] →
    Body cut policy (earlier ++ later) (later.flatMap Turn.messages)
  | ends (first latest : Turn) (middle : List Turn) : policy = .truncateMiddle →
    Body cut policy (first :: middle ++ [latest]) (first.messages ++ latest.messages)
  | latest (earlier : List Turn) (latest : Turn) (short : ChatMessage) : cut latest short →
    Body cut policy (earlier ++ [latest]) [short]

/-- The budget is met, messages that fit stay as they are, and of others the system message, which
may be shortened, is followed by what stays of the turns. `cut` says what may be left of the last
turn, given the room the system message leaves. -/
structure Trimmed (cut : Nat → Turn → ChatMessage → Prop) (messages : List ChatMessage)
    (limit : Option Nat) (policy : Policy) (result : TrimResult) : Prop where
  bounded : ∀ n, limit = some n → estimateChatTokens result.messages ≤ n
  fits : (∀ n, limit = some n → estimateChatTokens messages ≤ n) → result = ⟨messages, false⟩
  cut : ∀ n, limit = some n → n < estimateChatTokens messages →
    ∃ system rest lead turns short body,
      messages = system ++ rest ∧ InTurns rest lead turns ∧
      system = (systemMessage messages).toList ∧
      List.Forall₂ MaybeShortened system short ∧
      Body (cut (n - estimateChatTokens short)) policy turns body ∧
      result = ⟨short ++ body, true⟩

end AioLM.ChatUtils
