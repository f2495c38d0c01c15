import AsioSamples.Http.Acceptance
import AsioSamples.Http.Answer
import AsioSamples.Http.Cancellation
import AsioSamples.Http.Closing
import AsioSamples.Http.Completeness
import AsioSamples.Http.DocumentRoot
import AsioSamples.Http.Failures
import AsioSamples.Http.HeaderAgreement
import AsioSamples.Http.Lifetime
import AsioSamples.Http.Ownership
import AsioSamples.Http.Parsing
import AsioSamples.Http.ResourceSize
import AsioSamples.Http.Reuse
import AsioSamples.Http.RoundTrip
import AsioSamples.Http.Verdict
import AsioSamples.LifeCycle.SyncClient
import AsioSamples.LifeCycle.Teardown
import AsioSamples.Tcp.Acceptor
import AsioSamples.Tcp.AsyncServer
import AsioSamples.Tcp.Cancellation
import AsioSamples.Tcp.Deadlock
import AsioSamples.Tcp.Draining
import AsioSamples.Tcp.RoundTrip
import AsioSamples.Tcp.Scenario
import AsioSamples.Tcp.ServerClient
import AsioSamples.Tcp.SyncRefinement
import AsioSamples.Udp.Client
import AsioSamples.Buffers.Delimiter
import AsioSamples.Buffers.Elements
import AsioSamples.Buffers.Framing
