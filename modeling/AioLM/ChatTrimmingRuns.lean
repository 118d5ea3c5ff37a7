import AioLM.ChatTrimming

/-!
What the loops over a conversation keep: the search for a cut, the turns, and the budget that is
left for them.
-/

set_option autoImplicit false

namespace AioLM.ChatUtils

open ChatHistory (JsString units)

section Messages

variable {fits : Nat → Bool} {message : ChatMessage} {budget : Nat}

/-- A search that may accept the empty excerpt accepts some excerpt. -/
theorem searchLength_spec {bound : Nat} (hzero : fits 0 = true) (fuel : Nat) {best : Option Nat}
    {low stop : Nat} (hfuel : stop - low ≤ fuel) (hstop : stop ≤ bound)
    (hbest : ∀ length, best = some length → fits length = true ∧ length < bound)
    (hstart : best = none → low = 0 ∧ 0 < stop) :
    ∃ length < bound, searchLength fits fuel best low stop = some length ∧ fits length = true := by
  induction fuel generalizing best low stop with
  | zero =>
    cases best with
    | none =>
      obtain ⟨rfl, hpos⟩ := hstart rfl
      omega
    | some length => exact ⟨length, (hbest length rfl).2, rfl, (hbest length rfl).1⟩
  | succ fuel ih =>
    rw [searchLength]
    by_cases hlow : low < stop
    · rw [if_pos hlow]
      dsimp only
      by_cases hmiddle : fits ((low + (stop - 1)) / 2) = true
      · rw [if_pos hmiddle]
        refine ih (by omega) hstop ?_ ?_
        · intro length hlength
          obtain rfl := Option.some.inj hlength
          exact ⟨hmiddle, by omega⟩
        · intro hnone
          cases hnone
      · rw [if_neg hmiddle]
        refine ih (by omega) (by omega) hbest ?_
        intro hnone
        obtain ⟨rfl, hpos⟩ := hstart hnone
        refine ⟨rfl, ?_⟩
        by_contra hlast
        have hfirst : (0 + (stop - 1)) / 2 = 0 := by omega
        rw [hfirst] at hmiddle
        exact hmiddle hzero
    · rw [if_neg hlow]
      cases best with
      | none =>
        obtain ⟨rfl, hpos⟩ := hstart rfl
        exact absurd hpos hlow
      | some length => exact ⟨length, (hbest length rfl).2, rfl, (hbest length rfl).1⟩

theorem searchLength_start (fits : Nat → Bool) (hzero : fits 0 = true) (n : Nat) :
    ∃ length ≤ n, searchLength fits (n + 1) none 0 (n + 1) = some length ∧ fits length = true := by
  have hnone : ∀ length, (none : Option Nat) = some length → fits length = true ∧ length < n + 1 := by
    intro length hlength
    cases hlength
  obtain ⟨length, hlength, hsearch⟩ := searchLength_spec hzero (n + 1) (Nat.sub_le _ _) (le_refl _)
    hnone (fun _ => ⟨rfl, Nat.succ_pos n⟩)
  exact ⟨length, Nat.le_of_lt_succ hlength, hsearch⟩

theorem estimate_withText (message : ChatMessage) (text : JsString) :
    estimateMessageTokens (message.withText text) = max 4 (estimateTextTokens text + 4) := rfl

theorem estimate_marker : estimateTextTokens truncationMarker = 7 := by decide +kernel

theorem estimate_excerpt_zero (message : ChatMessage) (source : JsString) :
    estimateMessageTokens (message.withText (excerptOf source 0)) ≤ 11 := by
  rw [estimate_withText, excerptOf, List.take_zero, List.nil_append]
  split
  · rw [estimate_marker]
    decide
  · decide

theorem truncateMessage_spec (message : ChatMessage) (hbudget : 11 ≤ budget) :
    estimateMessageTokens (truncateMessage message budget) ≤ budget ∧
      if estimateMessageTokens message ≤ budget then truncateMessage message budget = message
      else Shortened message (truncateMessage message budget) := by
  have hmax : max 4 budget = budget := max_eq_right (by omega)
  unfold truncateMessage
  simp only [hmax]
  by_cases hover : estimateMessageTokens message ≤ budget
  · simp only [if_pos hover]
    exact ⟨hover, trivial⟩
  · simp only [if_neg hover]
    obtain ⟨length, hlength, hsearch, hfits⟩ := searchLength_start
      (fun length => decide (estimateMessageTokens
        (message.withText (excerptOf (contentText message.content) length)) ≤ budget))
      (decide_eq_true ((estimate_excerpt_zero message _).trans hbudget))
      (contentText message.content).length
    rw [hsearch]
    simp only [Option.map_some, Option.getD_some]
    have hshort := of_decide_eq_true hfits
    refine ⟨hshort, ?_, length, hlength, rfl⟩
    intro heq
    rw [heq] at hshort
    exact hover hshort

theorem truncateMessage_maybeShortened (message : ChatMessage) (hbudget : 11 ≤ budget) :
    MaybeShortened message (truncateMessage message budget) := by
  have hspec := (truncateMessage_spec message hbudget).2
  split at hspec
  · exact .inl hspec
  · exact .inr hspec

end Messages

section Turns

variable {messages rest lead kept : List ChatMessage} {turns : List Turn} {budget used : Nat}

theorem estimate_append (a b : List ChatMessage) :
    estimateChatTokens (a ++ b) = estimateChatTokens a + estimateChatTokens b := by
  rw [estimateChatTokens, List.map_append, List.sum_append]
  rfl

theorem inTurns_step (h : InTurns rest lead turns.reverse) (message : ChatMessage) :
    ∃ lead', InTurns (rest ++ [message]) lead' (addToTurns turns message).reverse := by
  unfold addToTurns
  by_cases huser : message.role = .user
  · rw [if_pos huser, List.reverse_cons]
    refine ⟨lead, ?_, h.lead, ?_, ?_⟩
    · rw [h.split, List.flatMap_append, List.append_assoc]
      rfl
    · intro turn hturn
      rcases List.mem_append.mp hturn with hold | hnew
      · exact h.first turn hold
      · obtain rfl := List.mem_singleton.mp hnew
        exact huser
    · intro turn hturn
      rcases List.mem_append.mp hturn with hold | hnew
      · exact h.replies turn hold
      · obtain rfl := List.mem_singleton.mp hnew
        intro reply hreply
        cases hreply
  · rw [if_neg huser]
    cases turns with
    | nil =>
      refine ⟨lead ++ [message], ?_, ?_, h.first, h.replies⟩
      · rw [h.split]
        simp
      · intro other hother
        rcases List.mem_append.mp hother with hold | hnew
        · exact h.lead other hold
        · exact List.mem_singleton.mp hnew ▸ huser
    | cons turn earlier =>
      rw [List.reverse_cons] at h ⊢
      have hlast : turn ∈ earlier.reverse ++ [turn] :=
        List.mem_append_right _ (List.mem_singleton_self turn)
      refine ⟨lead, ?_, h.lead, ?_, ?_⟩
      · rw [h.split]
        simp [Turn.messages]
      · intro other hother
        rcases List.mem_append.mp hother with hold | hnew
        · exact h.first other (List.mem_append_left _ hold)
        · obtain rfl := List.mem_singleton.mp hnew
          exact h.first turn hlast
      · intro other hother reply hreply
        rcases List.mem_append.mp hother with hold | hnew
        · exact h.replies other (List.mem_append_left _ hold) reply hreply
        · obtain rfl := List.mem_singleton.mp hnew
          rcases List.mem_append.mp hreply with hreply | hreply
          · exact h.replies turn hlast reply hreply
          · exact List.mem_singleton.mp hreply ▸ huser

theorem inTurns_foldl (rest : List ChatMessage) :
    ∃ lead, InTurns rest lead (rest.foldl addToTurns []).reverse := by
  induction rest using List.reverseRecOn with
  | nil => exact ⟨[], rfl, by simp, by simp, by simp⟩
  | append_singleton rest message ih =>
    obtain ⟨lead, h⟩ := ih
    rw [List.foldl_append]
    exact inTurns_step h message

theorem keepTurns_kept (hkept : kept ≠ []) (hused : used ≤ budget) (turns : List Turn) :
    ∃ taken left, turns = taken ++ left ∧
      keepTurns budget kept used turns = taken.reverse.flatMap Turn.messages ++ kept ∧
      used + estimateChatTokens (taken.reverse.flatMap Turn.messages) ≤ budget := by
  induction turns generalizing kept used with
  | nil => exact ⟨[], [], rfl, rfl, by simpa [estimateChatTokens] using hused⟩
  | cons turn earlier ih =>
    rw [keepTurns]
    by_cases hcost : budget < used + estimateChatTokens turn.messages
    · rw [if_pos ⟨hkept, hcost⟩]
      exact ⟨[], turn :: earlier, rfl, rfl, by simpa [estimateChatTokens] using hused⟩
    · rw [if_neg (fun h => hcost h.2), if_neg (fun h => hcost h.2)]
      obtain ⟨taken, left, rfl, hkeep, hroom⟩ :=
        ih (show turn.messages ++ kept ≠ [] by simp [Turn.messages]) (not_lt.mp hcost)
      refine ⟨turn :: taken, left, rfl, ?_, ?_⟩
      · rw [hkeep]
        simp
      · rw [List.reverse_cons, List.flatMap_append, estimate_append]
        have hlast : estimateChatTokens ([turn].flatMap Turn.messages) =
            estimateChatTokens turn.messages := by simp
        omega

theorem keepTurns_body (policy : Policy) (hused : used + 11 ≤ budget) (hturns : turns ≠ []) :
    used + estimateChatTokens (keepTurns budget [] used turns) ≤ budget ∧
      Body (CutTo (budget - used)) policy turns.reverse (keepTurns budget [] used turns) := by
  cases turns with
  | nil => exact absurd rfl hturns
  | cons turn earlier =>
    rw [keepTurns]
    rw [if_neg (fun h => h.1 rfl)]
    by_cases hcost : budget < used + estimateChatTokens turn.messages
    · rw [if_pos ⟨rfl, hcost⟩]
      obtain ⟨hfits, hshort⟩ :=
        truncateMessage_spec turn.first (show 11 ≤ budget - used by omega)
      constructor
      · rw [estimateChatTokens, List.map_singleton, List.sum_singleton]
        omega
      · rw [List.reverse_cons]
        exact .latest _ _ _ ⟨by omega, hshort⟩
    · rw [if_neg (fun h => hcost h.2), List.append_nil]
      obtain ⟨taken, left, rfl, hkeep, hroom⟩ :=
        keepTurns_kept (show turn.messages ≠ [] by simp [Turn.messages]) (not_lt.mp hcost) earlier
      have hbody : keepTurns budget turn.messages (used + estimateChatTokens turn.messages)
          (taken ++ left) = (taken.reverse ++ [turn]).flatMap Turn.messages := by
        rw [hkeep, List.flatMap_append]
        simp
      rw [hbody]
      constructor
      · rw [List.flatMap_append, estimate_append]
        have hlast : estimateChatTokens ([turn].flatMap Turn.messages) =
            estimateChatTokens turn.messages := by simp
        omega
      · rw [List.reverse_cons, List.reverse_append, List.append_assoc]
        exact .suffix _ _ (by simp)

end Turns

section Conversations

variable {messages : List ChatMessage} {budget : Nat}

theorem systemMessage_split (messages : List ChatMessage) :
    messages = (systemMessage messages).toList ++
      (if (systemMessage messages).isSome then messages.drop 1 else messages) ∧
    ∀ message, systemMessage messages = some message → message.role = .system := by
  unfold systemMessage
  cases messages with
  | nil => simp
  | cons first rest =>
    by_cases hsystem : first.role = .system
    · simp [Option.filter, hsystem]
    · simp [Option.filter, hsystem]

theorem boundedSystem_spec (hbudget : 256 ≤ budget) (system : Option ChatMessage) :
    List.Forall₂ MaybeShortened system.toList (system.map fun message =>
      if max 32 (budget - 32) < estimateMessageTokens message then
        truncateMessage message (max 32 (budget - 32))
      else message).toList ∧
    estimateChatTokens (system.map fun message =>
      if max 32 (budget - 32) < estimateMessageTokens message then
        truncateMessage message (max 32 (budget - 32))
      else message).toList + 32 ≤ budget := by
  cases system with
  | none =>
    refine ⟨.nil, ?_⟩
    simp only [Option.map_none, Option.toList_none, estimateChatTokens, List.map_nil, List.sum_nil]
    omega
  | some message =>
    have hshare : 11 ≤ max 32 (budget - 32) := by omega
    have hfits := (truncateMessage_spec message hshare).1
    have hshort := truncateMessage_maybeShortened message hshare
    simp only [Option.map_some, Option.toList_some, estimateChatTokens, List.map_singleton,
      List.sum_singleton]
    split
    · exact ⟨.cons hshort .nil, by omega⟩
    · exact ⟨.cons (.inl rfl) .nil, by omega⟩

theorem cutChatHistory_spec (policy : Policy) (hbudget : 256 ≤ budget)
    (huser : ∃ message ∈ messages, message.role = .user) :
    estimateChatTokens (cutChatHistory messages budget policy) ≤ budget ∧
      ∃ system rest lead turns short body,
        messages = system ++ rest ∧ InTurns rest lead turns ∧
        system = (systemMessage messages).toList ∧
        List.Forall₂ MaybeShortened system short ∧
        Body (CutTo (budget - estimateChatTokens short)) policy turns body ∧
        cutChatHistory messages budget policy = short ++ body := by
  obtain ⟨hsplit, hsystem⟩ := systemMessage_split messages
  obtain ⟨hshort, hroom⟩ := boundedSystem_spec hbudget (systemMessage messages)
  unfold cutChatHistory
  dsimp only
  generalize hbounded : ((systemMessage messages).map fun message =>
    if max 32 (budget - 32) < estimateMessageTokens message then
      truncateMessage message (max 32 (budget - 32))
    else message).toList = bounded at hshort hroom ⊢
  generalize hrest : (if (systemMessage messages).isSome then messages.drop 1 else messages) = rest
    at hsplit ⊢
  obtain ⟨lead, hturns⟩ := inTurns_foldl rest
  generalize rest.foldl addToTurns [] = turns at hturns ⊢
  have hne : turns ≠ [] := by
    rintro rfl
    obtain ⟨message, hmessage, hrole⟩ := huser
    rw [hsplit] at hmessage
    rcases List.mem_append.mp hmessage with hfirst | hmem
    · rw [hsystem message (Option.mem_toList.mp hfirst)] at hrole
      cases hrole
    · rw [hturns.split] at hmem
      exact hturns.lead message (by simpa using hmem) hrole
  obtain ⟨hkept, hbody⟩ := keepTurns_body policy
    (show estimateChatTokens bounded + 11 ≤ budget by omega) hne
  -- the turns that the loop kept, the result of every path but one
  have hresult : estimateChatTokens (bounded ++ keepTurns budget [] (estimateChatTokens bounded) turns) ≤
        budget ∧ ∃ system rest lead turns' short body,
        messages = system ++ rest ∧ InTurns rest lead turns' ∧
        system = (systemMessage messages).toList ∧
        List.Forall₂ MaybeShortened system short ∧
        Body (CutTo (budget - estimateChatTokens short)) policy turns' body ∧
        bounded ++ keepTurns budget [] (estimateChatTokens bounded) turns = short ++ body := by
    refine ⟨by rw [estimate_append]; exact hkept, ?_⟩
    exact ⟨_, rest, lead, _, bounded, _, hsplit, hturns, rfl, hshort, hbody, rfl⟩
  split
  · rename_i latest first hlatest hfirst
    split
    · rename_i hcandidate
      obtain ⟨hlength, -, hfits⟩ := hcandidate
      refine ⟨by rw [estimate_append]; omega, ?_⟩
      obtain ⟨middle, rfl⟩ : ∃ middle, turns = latest :: middle ++ [first] := by
        cases turns with
        | nil => cases hlatest
        | cons turn earlier =>
          obtain rfl : turn = latest := Option.some.inj hlatest
          have hearlier : earlier.getLast? = some first := by
            cases earlier with
            | nil => simp at hlength
            | cons next more => simpa using hfirst
          exact ⟨earlier.dropLast, by
            rw [List.cons_append, List.dropLast_append_getLast? first hearlier]⟩
      refine ⟨_, rest, lead, _, bounded, _, hsplit, hturns, rfl, hshort, ?_, rfl⟩
      have hreverse : (latest :: middle ++ [first]).reverse = first :: middle.reverse ++ [latest] := by
        simp
      rw [hreverse]
      exact .ends first latest middle.reverse rfl
    · exact hresult
  · exact hresult

theorem budget_le {maxTokens : WithTop ℚ} {n : Nat} (h : budgetOf maxTokens = some n) : 256 ≤ n := by
  obtain ⟨limit, -, rfl⟩ := Option.map_eq_some_iff.mp h
  exact le_max_left _ _

/-- Messages are trimmed to the budget in whole turns, but for the message of the user when the last
turn alone is too long. -/
theorem trimChatHistory_trimmed (messages : List ChatMessage) (maxTokens : WithTop ℚ)
    (policy : Policy) (huser : ∃ message ∈ messages, message.role = .user) :
    Trimmed CutTo messages (budgetOf maxTokens) policy
      (trimChatHistory messages maxTokens policy) := by
  unfold trimChatHistory
  cases hbudget : budgetOf maxTokens with
  | none =>
    refine ⟨?_, fun _ => rfl, ?_⟩
    · intro n hn
      cases hn
    · intro n hn
      cases hn
  | some budget =>
    dsimp only
    obtain ⟨hfits, hcut⟩ := cutChatHistory_spec policy (budget_le hbudget) huser
    by_cases hsmall : estimateChatTokens messages ≤ budget
    · rw [if_pos hsmall]
      refine ⟨?_, fun _ => rfl, ?_⟩
      · intro n hn
        obtain rfl := Option.some.inj hn
        exact hsmall
      · intro n hn hover
        obtain rfl := Option.some.inj hn
        exact absurd hsmall (not_le.mpr hover)
    · rw [if_neg hsmall]
      refine ⟨?_, fun h => absurd (h budget rfl) hsmall, ?_⟩
      · intro n hn
        obtain rfl := Option.some.inj hn
        exact hfits
      · intro n hn _
        obtain rfl := Option.some.inj hn
        obtain ⟨system, rest, lead, turns, short, body, hsplit, hturns, hsystem, hshort, hbody,
          hresult⟩ := hcut
        exact ⟨system, rest, lead, turns, short, body, hsplit, hturns, hsystem, hshort, hbody,
          by rw [hresult]⟩

def greeting : ChatMessage := { role := .user, content := .text (units "hi") }

def longReply : ChatMessage :=
  { role := .assistant, content := .text (List.replicate 1200 97) }

def question : ChatMessage := { role := .user, content := .text (List.replicate 800 97) }

/-- Of three turns the last two fit, or with `truncateMiddle` the first and the last. -/
theorem trimChatHistory_trimmed_three :
    (trimChatHistory [greeting, longReply, greeting, greeting] (some 256) .rollingWindow).messages =
        [greeting, greeting] ∧
      (trimChatHistory [greeting, longReply, question, greeting] (some 512) .truncateMiddle).messages =
        [greeting, longReply, greeting] ∧
      Trimmed CutTo [greeting, longReply, question, greeting] (budgetOf (some 512))
        .truncateMiddle
        (trimChatHistory [greeting, longReply, question, greeting] (some 512) .truncateMiddle) :=
  ⟨by decide +kernel, by decide +kernel,
    trimChatHistory_trimmed _ (some 512) .truncateMiddle ⟨greeting, by simp, rfl⟩⟩

/-- The last turn is too long and its message of the user is not: it stays as it is, without the
answer to it. -/
theorem latest_message_unshortened :
    (trimChatHistory [greeting, longReply] (some 256) .rollingWindow).messages = [greeting] ∧
      ¬ Trimmed (fun _ turn => Shortened turn.first) [greeting, longReply] (budgetOf (some 256)) .rollingWindow
        (trimChatHistory [greeting, longReply] (some 256) .rollingWindow) := by
  have hresult : trimChatHistory [greeting, longReply] (some 256) .rollingWindow =
      ⟨[greeting], true⟩ := by decide +kernel
  refine ⟨by rw [hresult], ?_⟩
  rw [hresult]
  intro h
  obtain ⟨system, rest, lead, turns, short, body, hsplit, hturns, rfl, hshort, hbody, heq⟩ :=
    h.cut 256 (by decide +kernel) (by decide +kernel)
  have hnone : (systemMessage [greeting, longReply]).toList = [] := by decide
  rw [hnone] at hsplit hshort
  obtain rfl := List.forall₂_nil_left_iff.mp hshort
  obtain rfl : [greeting] = body := (TrimResult.mk.inj heq).1
  have hrest : [greeting, longReply] = lead ++ turns.flatMap Turn.messages := hsplit.trans hturns.split
  generalize hbody' : [greeting] = body at hbody
  cases hbody with
  | suffix earlier later hne =>
    rw [List.flatMap_append, ← hbody', ← List.append_assoc] at hrest
    have hlast := congrArg List.getLast? hrest
    rw [List.getLast?_concat] at hlast
    exact absurd hlast (by decide)
  | ends first latest middle hpolicy => cases hpolicy
  | latest earlier latest short hcut =>
    obtain rfl : greeting = short := List.singleton_inj.mp hbody'
    have hrole := hturns.first latest (List.mem_append_right _ (List.mem_singleton_self _))
    have hmem : latest.first ∈ [greeting, longReply] := by
      rw [hrest, List.flatMap_append]
      simp [Turn.messages]
    rcases List.mem_pair.mp hmem with hfirst | hfirst
    · exact hcut.1 hfirst.symm
    · rw [hfirst] at hrole
      cases hrole

end Conversations

end AioLM.ChatUtils
