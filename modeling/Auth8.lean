import Auth8.Foundations.EventRuns
import Auth8.Request.AuthRequest
import Auth8.Request.RequestSystem
import Auth8.Request.FirstDecision
import Auth8.Request.TornOutcome
import Auth8.Foundations.FixedDigits
import Auth8.Server.UniqueRequestId
import Auth8.Server.LazySingleton
import Auth8.Jaxrs.Response
import Auth8.Server.Machine
import Auth8.Server.Invariant
import Auth8.Server.Projection
import Auth8.Request.WakeUp
import Auth8.Server.Delivery
import Auth8.Server.WakeUp
import Auth8.Server.Registry
import Auth8.Aws.SnsMessageGenerator
import Auth8.Aws.SnsClientWrapper
import Auth8.Aws.SnsMobilePush
import Auth8.Aws.ConcurrentPush
import Auth8.Foundations.LikePattern
import Auth8.Foundations.KeyedTable
import Auth8.Jaxrs.V1RegDevice
import Auth8.Devices.Registrations
import Auth8.Devices.Serial
import Auth8.Foundations.UnitOfWork
import Auth8.Jaxrs.V1Settings
import Auth8.Credentials.HalfCreated
import Auth8.Credentials.FailedCommit
import Auth8.Foundations.Base64
import Auth8.Foundations.JavaArray
import Auth8.Security.EncodeBytes
import Auth8.Security.BufferLength
import Auth8.Jaxrs.DeleteUser
import Auth8.Credentials.Retirement
import Auth8.Security.Signature
import Auth8.Credentials.ExactUser
import Auth8.Devices.Retired
import Auth8.Devices.Registered
import Auth8.Server.Answers
import Auth8.Server.Endpoints
import Auth8.Jetty.Main
import Auth8.Jetty.Restart
import Auth8.Jetty.Processes
import Auth8.Jetty.SharedKey
import Auth8.Credentials.SignedRequests
import Auth8.Aws.CleanUp
import Auth8.Aws.Acceptance
import Auth8.Foundations.BigEndian
import Auth8.Foundations.Sha1
import Auth8.Foundations.JsArray
import Auth8.Playground.JsSha
import Auth8.Playground.JsShaHash
import Auth8.Foundations.Unicode
import Auth8.Playground.JsShaText
import Auth8.Playground.JsShaHmac
import Auth8.Playground.JsShaOutput
import Auth8.Playground.Signing
import Auth8.Application.System
import Auth8.Application.Provenance
import Auth8.Application.Pushes
import Auth8.Server.Pushes
import Auth8.Server.Sending
import Auth8.Application.Agreement
import Auth8.Application.Service
import Auth8.Application.Delivery
import Auth8.Foundations.FormUrl
import Auth8.Playground.PathTemplate
import Auth8.Playground.Page
import Auth8.Playground.PageRequest
import Auth8.Playground.FormatXml
import Auth8.Jetty.Lifecycle
import Auth8.Jetty.Online
import Auth8.Playground.JsShaInput
