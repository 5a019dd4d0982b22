import AionCore.Team.MemberOperationLeases
import AionCore.Team.TaskDependencies
import AionCore.Team.WorkFifo
import AionCore.Team.WorkCancellation
import AionCore.Team.RunCancellation
import AionCore.Team.MailboxDelivery
import AionCore.Team.BatchPreparation
import AionCore.Cron.RunLease
import AionCore.Cron.RunQueue
import AionCore.Cron.NextOccurrence
import AionCore.Cron.Retries
import AionCore.Cron.JobTimers
import AionCore.Cron.StoredUpdates
import AionCore.Extension.Diagnostics
import AionCore.Extension.EnabledFlags
import AionCore.Conversation.StoredModels
import AionCore.Conversation.CompactMessages
import AionCore.Conversation.Cancellation
import AionCore.Conversation.SendErrors
import AionCore.Conversation.FailedFlushes
import AionCore.Conversation.AutoReplay
import AionCore.Conversation.TerminalErrors
import AionCore.Conversation.TurnCancellation
import AionCore.Agent.TokenHistories
import AionCore.Agent.TaskCapabilities
import AionCore.Agent.TaskTokens
import AionCore.Agent.IdleScanner
import AionCore.Conversation.ToolCallRows
import AionCore.Conversation.ToolCallMerges
import AionCore.Conversation.MessageWalk
import AionCore.Conversation.MessageSearch
import AionCore.Conversation.ExtraRuns
import AionCore.Agent.AcpPrelude
import AionCore.Agent.TeamApprovals
import AionCore.Agent.HistorySanitize
import AionCore.Agent.SessionSync
import AionCore.Agent.ReconcileRuns
import AionCore.Auth.PasswordChange
import AionCore.Auth.RateWindows
import AionCore.Auth.TokenRevocation
import AionCore.Channel.PluginManager
import AionCore.Channel.StreamRelay
import AionCore.Channel.StrippedText
import AionCore.Channel.Pairing
import AionCore.Channel.ChatSessions
import AionCore.Channel.WecomConnection
import AionCore.Channel.TelegramHtml
import AionCore.Channel.Callbacks
import AionCore.Channel.WecomCallbacks
import AionCore.Channel.LarkFrames
import AionCore.Channel.MediaFiles
import AionCore.Mcp.OAuthLogins
import AionCore.Mcp.CommandLines
import AionCore.Extension.AssistantResources
import AionCore.Office.WatchManager
import AionCore.Office.PreviewHistory
import AionCore.Realtime.Connection
import AionCore.File.EntryChanges
import AionCore.File.SafeCopies
import AionCore.File.WorkspaceFiles
import AionCore.File.ZipCalls
import AionCore.File.SnapshotBaselines
import AionCore.Runtime.ToolInstalls
import AionCore.File.DiscardScope
