import EasyGrpc.Proof.WriterSteps
import EasyGrpc.Proof.WriterInvariant
import EasyGrpc.Proof.ActionLoss
import EasyGrpc.Proof.SingleOutstanding
import EasyGrpc.Proof.StreamProtocol
import EasyGrpc.Proof.Pipeline
import EasyGrpc.Proof.CallHistory
import EasyGrpc.Proof.HandlerOutcome
import EasyGrpc.AsyncActionQueue
import EasyGrpc.Proof.QueueShutdown
import EasyGrpc.Server.AsyncServer
import EasyGrpc.Proof.ServerLifecycle
import EasyGrpc.Client.AsyncClient
import EasyGrpc.Proof.ClientSteps
import EasyGrpc.Proof.ClientInvariant
import EasyGrpc.Proof.ClientOwnership
import EasyGrpc.Proof.ClientTracking
import EasyGrpc.Proof.ClientResponses
import EasyGrpc.Proof.UnaryEndToEnd
import EasyGrpc.Proof.SubmissionOrder
import EasyGrpc.Proof.ActionFate
import EasyGrpc.Client.StreamActionAccess
import EasyGrpc.Proof.ActionAccess
import EasyGrpc.Proof.FailedWrite
import EasyGrpc.Client.AwaitingCaller
import EasyGrpc.Proof.PublishedResult
import EasyGrpc.Server.AsyncClientStreamCallHandler
import EasyGrpc.Proof.ReaderLifetime
import EasyGrpc.Proof.HandlerLifetime
import EasyGrpc.Client.ClientLifetime
import EasyGrpc.Proof.CallLifetime
import EasyGrpc.Proof.QueueDrain
import EasyGrpc.Proof.ResponseTruth
import EasyGrpc.Client.StreamUpload
import EasyGrpc.StreamExchange
import EasyGrpc.Proof.StreamProgress
import EasyGrpc.Proof.StreamEnd
import EasyGrpc.Proof.SubmissionTiming
import EasyGrpc.Client.ActionsMutex
import EasyGrpc.Proof.HandoverOrder
import EasyGrpc.Proof.ShutdownDrain
import EasyGrpc.Proof.CallStatus
import EasyGrpc.CMake.Lists
import EasyGrpc.CMake.Language
import EasyGrpc.CMake.Path
import EasyGrpc.CMake.Protoc
import EasyGrpc.CMake.ProtoTargets
import EasyGrpc.Proof.ProtocScope
import EasyGrpc.Proof.ProtocCommand
import EasyGrpc.Proof.ProtocOutputs
import EasyGrpc.Proof.SectionProgress
import EasyGrpc.Proof.ClientDrain
import EasyGrpc.Proof.StreamCompletion
import EasyGrpc.CMake.Agreement
import EasyGrpc.Proof.ProtocCallers
import EasyGrpc.Proof.ProtocEntries
import EasyGrpc.Proof.HandlerPipelines
import EasyGrpc.Proof.ProtoLibrary
import EasyGrpc.CMake.Pattern
import EasyGrpc.CMake.Version
import EasyGrpc.Proof.VersionHeader
import EasyGrpc.Proof.ClientWork
import EasyGrpc.Proof.UnaryCompletion
