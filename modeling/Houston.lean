import Houston.Burst
import Houston.Chunking
import Houston.Dispatcher
import Houston.Modify
import Houston.Producer
import Houston.Response
import Houston.Delivery
import Houston.Panel
import Houston.Parsing
import Houston.Streaming
import Houston.Resync
import Houston.Runs
import Houston.Transmitter
import Houston.Receiver
import Houston.Panels
import Houston.Application
import Houston.Instances
import Houston.Ring
import Houston.ScrollingBuffer
import Houston.Framing
import Houston.Refusal
import Houston.Histories
import Houston.Division
import Houston.Remainder
import Houston.Footprint
import Houston.CsvLog
import Houston.Sessions
import Houston.Commands
import Houston.Uplink
import Houston.Atomic
import Houston.Display
import Houston.Downlink
import Houston.Loop
import Houston.Rest
import Houston.Shown
import Houston.Volume
import Houston.Backlog
import Houston.Sparse
import Houston.Flips
import Houston.Ports
