import IrcPlatform.Gateway.ActionLimit
import IrcPlatform.Gateway.Arrivals
import IrcPlatform.Gateway.ConnectLines
import IrcPlatform.Gateway.Connection
import IrcPlatform.Gateway.Downlink
import IrcPlatform.Gateway.Encoding
import IrcPlatform.Gateway.History
import IrcPlatform.Gateway.HistoryRuns
import IrcPlatform.Gateway.JsString
import IrcPlatform.Gateway.Limits
import IrcPlatform.Gateway.LineReading
import IrcPlatform.Gateway.MessageLine
import IrcPlatform.Gateway.Obligations
import IrcPlatform.Gateway.ParserAgreement
import IrcPlatform.Gateway.Payloads
import IrcPlatform.Gateway.PrivmsgLine
import IrcPlatform.Gateway.Receiving
import IrcPlatform.Gateway.Recording
import IrcPlatform.Gateway.Replay
import IrcPlatform.Gateway.Steps
import IrcPlatform.Gateway.System
import IrcPlatform.Irc.Accounts
import IrcPlatform.Irc.Attempts
import IrcPlatform.Irc.AuthCommands
import IrcPlatform.Irc.Channel
import IrcPlatform.Irc.ChannelCommands
import IrcPlatform.Irc.ChannelNames
import IrcPlatform.Irc.Client
import IrcPlatform.Irc.Closing
import IrcPlatform.Irc.CommandMail
import IrcPlatform.Irc.Confirmations
import IrcPlatform.Irc.Core
import IrcPlatform.Irc.Deliveries
import IrcPlatform.Irc.Departing
import IrcPlatform.Irc.Disconnection
import IrcPlatform.Irc.Dispatch
import IrcPlatform.Irc.Effects
import IrcPlatform.Irc.Entering
import IrcPlatform.Irc.EventLoop
import IrcPlatform.Irc.Followers
import IrcPlatform.Irc.Grammar
import IrcPlatform.Irc.HandlerEffects
import IrcPlatform.Irc.HandlerLines
import IrcPlatform.Irc.Informing
import IrcPlatform.Irc.IrcUtil
import IrcPlatform.Irc.Isolation
import IrcPlatform.Irc.Joining
import IrcPlatform.Irc.Kept
import IrcPlatform.Irc.KeyedJoin
import IrcPlatform.Irc.LineForm
import IrcPlatform.Irc.LineIntegrity
import IrcPlatform.Irc.LineShape
import IrcPlatform.Irc.Lines
import IrcPlatform.Irc.Mail
import IrcPlatform.Irc.Message
import IrcPlatform.Irc.MessageCommands
import IrcPlatform.Irc.Mode
import IrcPlatform.Irc.ModeReplay
import IrcPlatform.Irc.Network
import IrcPlatform.Irc.Nicknames
import IrcPlatform.Irc.Notices
import IrcPlatform.Irc.Overflow
import IrcPlatform.Irc.Parameters
import IrcPlatform.Irc.Permissions
import IrcPlatform.Irc.PollTable
import IrcPlatform.Irc.Presence
import IrcPlatform.Irc.Privmsg
import IrcPlatform.Irc.Provenance
import IrcPlatform.Irc.Reachable
import IrcPlatform.Irc.Receiving
import IrcPlatform.Irc.Registration
import IrcPlatform.Irc.Relations
import IrcPlatform.Irc.Reply
import IrcPlatform.Irc.Reservations
import IrcPlatform.Irc.SentStream
import IrcPlatform.Irc.Sequences
import IrcPlatform.Irc.Server
import IrcPlatform.Irc.Settings
import IrcPlatform.Irc.Sizes
import IrcPlatform.Irc.Steps
import IrcPlatform.Irc.Stretches
import IrcPlatform.Irc.Tables
import IrcPlatform.Irc.Tidings
import IrcPlatform.Irc.Transcript
import IrcPlatform.Irc.Views
import IrcPlatform.Irc.Welcome
import IrcPlatform.Irc.Writes
import IrcPlatform.Library.Agreement
import IrcPlatform.Library.Blocks
import IrcPlatform.Library.Bytes
import IrcPlatform.Library.CanonicalPaths
import IrcPlatform.Library.Changes
import IrcPlatform.Library.Digits
import IrcPlatform.Library.Ensures
import IrcPlatform.Library.Fields
import IrcPlatform.Library.FileChanges
import IrcPlatform.Library.FileTree
import IrcPlatform.Library.Ledger
import IrcPlatform.Library.LongerPaths
import IrcPlatform.Library.Loop
import IrcPlatform.Library.Maps
import IrcPlatform.Library.Markup
import IrcPlatform.Library.Pipeline
import IrcPlatform.Library.References
import IrcPlatform.Library.Rosters
import IrcPlatform.Library.Search
import IrcPlatform.Library.Splitting
import IrcPlatform.Library.Streams
import IrcPlatform.Library.Stripping
import IrcPlatform.Library.Tally
import IrcPlatform.Library.Transition
import IrcPlatform.Library.TreeShapes
import IrcPlatform.Library.Window
import IrcPlatform.Webserv.Accepted
import IrcPlatform.Webserv.BlockContexts
import IrcPlatform.Webserv.Bounds
import IrcPlatform.Webserv.Built
import IrcPlatform.Webserv.Children
import IrcPlatform.Webserv.Chunked
import IrcPlatform.Webserv.ChunkedAppend
import IrcPlatform.Webserv.ChunkedCompletion
import IrcPlatform.Webserv.ChunkedGrammar
import IrcPlatform.Webserv.ChunkedProgress
import IrcPlatform.Webserv.Config
import IrcPlatform.Webserv.ConfigBlocks
import IrcPlatform.Webserv.Configured
import IrcPlatform.Webserv.Connections
import IrcPlatform.Webserv.Containment
import IrcPlatform.Webserv.Creation
import IrcPlatform.Webserv.Descriptors
import IrcPlatform.Webserv.DirectiveOrder
import IrcPlatform.Webserv.DirectoryRedirects
import IrcPlatform.Webserv.Environment
import IrcPlatform.Webserv.Escapes
import IrcPlatform.Webserv.EventLoop
import IrcPlatform.Webserv.FileSystem
import IrcPlatform.Webserv.Framing
import IrcPlatform.Webserv.Guarantees
import IrcPlatform.Webserv.HandlerSteps
import IrcPlatform.Webserv.Handlers
import IrcPlatform.Webserv.HeadForm
import IrcPlatform.Webserv.Http
import IrcPlatform.Webserv.Journal
import IrcPlatform.Webserv.Lengths
import IrcPlatform.Webserv.Listings
import IrcPlatform.Webserv.MergedPaths
import IrcPlatform.Webserv.Messages
import IrcPlatform.Webserv.Operations
import IrcPlatform.Webserv.Outputs
import IrcPlatform.Webserv.Paths
import IrcPlatform.Webserv.Policies
import IrcPlatform.Webserv.ReadBack
import IrcPlatform.Webserv.Rendering
import IrcPlatform.Webserv.Reordering
import IrcPlatform.Webserv.RequestLimit
import IrcPlatform.Webserv.Response
import IrcPlatform.Webserv.RoundTrip
import IrcPlatform.Webserv.Router
import IrcPlatform.Webserv.Routes
import IrcPlatform.Webserv.ScriptFailures
import IrcPlatform.Webserv.Segments
import IrcPlatform.Webserv.SentFields
import IrcPlatform.Webserv.ServerRun
import IrcPlatform.Webserv.Serving
import IrcPlatform.Webserv.Site
import IrcPlatform.Webserv.Sources
import IrcPlatform.Webserv.Spelling
import IrcPlatform.Webserv.Stories
import IrcPlatform.Webserv.Targets
import IrcPlatform.Webserv.Text
import IrcPlatform.Webserv.Timeouts
import IrcPlatform.Webserv.TokenLines
import IrcPlatform.Webserv.UploadLocations
import IrcPlatform.Webserv.UploadedPages
import IrcPlatform.Webserv.Uploads
