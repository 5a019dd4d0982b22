import AionCore.Conversation.RuntimeState

/-!
# Conversations: stream events and turn policies

The events that an agent streams, as far as the relay looks at them, the outcome of a relayed send,
and the policies of `turn_continuation_policy.rs`, `turn_recovery_policy.rs` and
`runtime_persistence.rs` that decide from it.
-/

namespace AionCore.Conversation

inductive AgentErrorCode where
  | aionuiConversationBusy
  | aionuiStreamBroken
  | aionuiStateInconsistent
  | aionuiPermissionError
  | aionuiInternalError
  | workspacePathRuntimeUnavailable
  | userAgentHandshakeFailed
  | userAgentHandshakeTimeout
  | userAgentAcpInitFailed
  | userAgentProtocolMismatch
  | userAgentNotInstalled
  | userAgentStartupFailed
  | userAgentOpenClawGatewayUnreachable
  | userAgentDisconnected
  | userAgentAuthRequired
  | userAgentSessionNotFound
  | userAgentNoPreviousSession
  | userAgentProtocolParseError
  | userAgentInvalidRequest
  | userAgentResourceNotFound
  | userAgentProtocolError
  | userAgentCommandNotFound
  | userAgentMissingEnv
  | userAgentUnsupportedMethod
  | userAgentInvalidParams
  | userLlmProviderAuthFailed
  | userLlmProviderAwsSsoExpired
  | userLlmProviderPermissionDenied
  | userLlmProviderBillingRequired
  | userLlmProviderConfigError
  | userLlmProviderModelNotFound
  | userLlmProviderUnsupportedModel
  | userLlmProviderEndpointNotFound
  | userLlmProviderInvalidRequest
  | userLlmProviderInvalidToolSchema
  | userLlmProviderContextTooLarge
  | userLlmProviderRateLimited
  | userLlmProviderTimeout
  | userLlmProviderNetworkError
  | userLlmProviderEmptyResponse
  | userLlmProviderGatewayError
  | unknownUpstreamError
  deriving DecidableEq

structure ErrorEventData where
  message : String
  code : Option AgentErrorCode
  retryable : Option Bool

inductive TipType where
  | error
  | info
  | success
  | warning
  deriving DecidableEq

structure TipsEventData where
  content : String
  tipType : TipType

structure ThinkingEventData where
  content : String
  status : Option String

inductive ToolCallStatus where
  | running
  | completed
  | error
  deriving DecidableEq

inductive AcpToolCallStatus where
  | pending
  | inProgress
  | completed
  | failed

/-- A tool call and the JSON that it is stored as. -/
structure ToolCallEventData where
  callId : String
  status : ToolCallStatus
  json : String

/-- An update of an ACP tool call and the JSON that it is stored as. -/
structure AcpToolCallEventData where
  toolCallId : String
  status : Option AcpToolCallStatus
  json : String

structure ToolGroupEntry where
  callId : String
  status : ToolCallStatus

/-- The data of an event that is forwarded only is left out. -/
inductive AgentStreamEvent where
  | start
  | text (content : String)
  | tips (data : TipsEventData)
  | toolCall (data : ToolCallEventData)
  | acpToolCall (data : AcpToolCallEventData)
  | toolGroup (entries : List ToolGroupEntry) (json : String)
  | agentStatus
  | thinking (data : ThinkingEventData)
  | plan
  | permission
  | acpPermission
  | skillSuggest
  | cronTrigger
  | acpModelInfo
  | acpModeInfo
  | acpConfigOption
  | acpSessionInfo
  | acpContextUsage
  | acpPromptHookWarning
  | slashCommandsUpdated
  | availableCommands
  | finish
  | error (data : ErrorEventData)
  | system
  | requestTrace
  | sessionAssigned

/-- What happened during one send. -/
structure TurnAttemptSummary where
  sawVisibleOutput : Bool := false
  sawToolOrSideEffect : Bool := false
  persistedAssistantOutput : Bool := false
  terminalError : Option ErrorEventData := none
  terminalErrorDeferred : Bool := false

namespace TurnAttemptSummary

def safeToAutoReplay (s : TurnAttemptSummary) : Bool :=
  !s.sawVisibleOutput && !s.sawToolOrSideEffect && !s.persistedAssistantOutput

def merge (s other : TurnAttemptSummary) : TurnAttemptSummary where
  sawVisibleOutput := s.sawVisibleOutput || other.sawVisibleOutput
  sawToolOrSideEffect := s.sawToolOrSideEffect || other.sawToolOrSideEffect
  persistedAssistantOutput := s.persistedAssistantOutput || other.persistedAssistantOutput
  terminalError := other.terminalError <|> s.terminalError
  terminalErrorDeferred := s.terminalErrorDeferred || other.terminalErrorDeferred

theorem safeToAutoReplay_merge (s other : TurnAttemptSummary) :
    (s.merge other).safeToAutoReplay = (s.safeToAutoReplay && other.safeToAutoReplay) := by
  obtain ⟨a, b, c, -, -⟩ := s
  obtain ⟨a', b', c', -, -⟩ := other
  cases a <;> cases b <;> cases c <;> cases a' <;> cases b' <;> cases c' <;> rfl

end TurnAttemptSummary

inductive RelayTerminal where
  | finish
  | error (code : Option AgentErrorCode) (retryable : Option Bool)
  | channelClosed

namespace RelayTerminal

def isError : RelayTerminal → Bool
  | error _ _ => true
  | finish | channelClosed => false

def code : RelayTerminal → Option AgentErrorCode
  | error code _ => code
  | finish | channelClosed => none

def retryable : RelayTerminal → Option Bool
  | error _ retryable => retryable
  | finish | channelClosed => none

end RelayTerminal

structure RelayOutcome where
  systemResponses : List String
  terminal : RelayTerminal
  attempt : TurnAttemptSummary

def MAX_SYSTEM_RESPONSE_CONTINUATIONS_PER_TURN : ℕ := 4

inductive ContinuationStopReason where
  | noSystemResponses
  | terminalNotFinish
  | lifecycleNotActive
  | limitReached

inductive ContinuationDecision where
  | continue (content : String) (nextCount : ℕ)
  | stop (reason : ContinuationStopReason)

/-- `TurnContinuationPolicy::decide`. -/
def decideContinuation (maxContinuations continuationCount : ℕ) (outcome : RelayOutcome)
    (lifecycle : RuntimeLifecycleState) : ContinuationDecision :=
  if lifecycle ≠ .active then .stop .lifecycleNotActive
  else if outcome.terminal.isError then .stop .terminalNotFinish
  else if outcome.systemResponses.isEmpty then .stop .noSystemResponses
  else if maxContinuations ≤ continuationCount then .stop .limitReached
  else .continue ("\n".intercalate outcome.systemResponses) (continuationCount + 1)

inductive AgentType where
  | acp
  | openclawGateway
  | nanobot
  | remote
  | aionrs
  | gemini
  | codex
  deriving DecidableEq

/-- `TurnRecoveryPolicy::decide`: whether the turn is replayed. -/
def decideRecovery (agentType : AgentType) (outcome : RelayOutcome)
    (lifecycle : RuntimeLifecycleState) (alreadyReplayed : Bool) : Bool :=
  lifecycle = .active && agentType = .acp && outcome.terminal.isError &&
    outcome.terminal.retryable = some true &&
    outcome.terminal.code ≠ some .userLlmProviderModelNotFound &&
    outcome.attempt.safeToAutoReplay && !alreadyReplayed

inductive RuntimeWriteKind where
  | userMessage
  | assistantTextCreate
  | assistantTextFlush
  | assistantTextFinalize
  | assistantThinkingFinalize
  | toolCallPersist
  | acpToolCallPersist
  | toolGroupPersist
  | terminalFinalize
  | conversationFinished
  | sendFailureTip
  | sessionKey
  | acpRecoveryCleanup
  | resolvedWorkspace
  | startupRecovery
  deriving DecidableEq

/-- `RuntimePersistenceCoordinator::decide`. -/
def RuntimeLifecycleState.allows (lifecycle : RuntimeLifecycleState) (kind : RuntimeWriteKind) :
    Bool :=
  match lifecycle with
  | .active => true
  | .deleting | .shuttingDown => kind = .userMessage
  | .cancelling =>
    match kind with
    | .assistantTextCreate | .assistantTextFlush | .assistantTextFinalize
    | .assistantThinkingFinalize | .toolCallPersist | .acpToolCallPersist | .toolGroupPersist
    | .terminalFinalize | .conversationFinished => true
    | .userMessage | .sendFailureTip | .sessionKey | .acpRecoveryCleanup | .resolvedWorkspace
    | .startupRecovery => false

end AionCore.Conversation
