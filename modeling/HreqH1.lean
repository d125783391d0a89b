import HreqH1.Support.Poll
import HreqH1.Support.Runs
import HreqH1.Model.Http11
import HreqH1.Model.Share
import HreqH1.Sending.SendData
import HreqH1.Sending.Owned
import HreqH1.Sending.ContentLength
import HreqH1.Sending.Refused
import HreqH1.Sending.Chunked
import HreqH1.Reading.Reads
import HreqH1.Reading.Streams
import HreqH1.Reading.Decode
import HreqH1.Reading.ChunkedBody
import HreqH1.Support.Delimited
import HreqH1.Reading.Framing
import HreqH1.Reading.ReadOut
import HreqH1.Model.Client
import HreqH1.Model.Server
import HreqH1.Reading.Scan
import HreqH1.Writing.Writes
import HreqH1.Writing.Operations
import HreqH1.Writing.Offers
import HreqH1.Writing.Progress
import HreqH1.Reading.Limited
import HreqH1.Reading.Terminators
import HreqH1.Reading.HeadOut
import HreqH1.Reading.WrittenHeads
import HreqH1.Reading.Operations
import HreqH1.Support.Moves
import HreqH1.Support.Simulation
import HreqH1.Support.Rounds
import HreqH1.Server.Moves
import HreqH1.Client.Moves
import HreqH1.Concurrent.Channel
import HreqH1.Concurrent.Delivery
import HreqH1.Concurrent.Closing
import HreqH1.Concurrent.Accept
import HreqH1.Framing.Fields
import HreqH1.Framing.Requests
import HreqH1.Framing.Responses
import HreqH1.Framing.Connection
import HreqH1.Framing.Messages
import HreqH1.Server.Steps
import HreqH1.Server.Reuse
import HreqH1.Server.EntireBody
import HreqH1.Server.Errors
import HreqH1.Server.Wiring
import HreqH1.Server.Flush
import HreqH1.Server.Held
import HreqH1.Server.Truncation
import HreqH1.Server.Accepting
import HreqH1.Server.Requests
import HreqH1.Server.Answers
import HreqH1.Support.Pends
import HreqH1.Reading.Flags
import HreqH1.Server.Listening
import HreqH1.Server.Wakers
import HreqH1.Server.ReadSize
import HreqH1.Client.Steps
import HreqH1.Client.Reuse
import HreqH1.Client.Ledger
import HreqH1.Client.Wire
import HreqH1.Client.Replies
import HreqH1.Client.Heads
import HreqH1.Client.Apart
import HreqH1.Concurrent.Requests
import HreqH1.Concurrent.Stranded
import HreqH1.Client.Queued
import HreqH1.Client.Streams
import HreqH1.Client.Truncation
import HreqH1.Client.Received
import HreqH1.Client.Unsendable
import HreqH1.Closing
import HreqH1.Assertions
import HreqH1.Link.Bodies
import HreqH1.Link.Given
import HreqH1.Link.Heads
import HreqH1.Link.Requests
import HreqH1.Link.Supplied
