import SmtpProj.Lib.Run
import SmtpProj.Lib.History
import SmtpProj.Lib.CString
import SmtpProj.Lib.Buffer
import SmtpProj.Lib.Path
import SmtpProj.Lib.Regex
import SmtpProj.Server.Fsm
import SmtpProj.Server.Pattern
import SmtpProj.Server.Arguments
import SmtpProj.Server.Session
import SmtpProj.Server.Protocol
import SmtpProj.Server.Worker
import SmtpProj.Server.Dialogue
import SmtpProj.Server.Projection
import SmtpProj.Server.Replies
import SmtpProj.Server.Receive
import SmtpProj.Server.Table
import SmtpProj.Server.Shutdown
import SmtpProj.Server.Segmentation
import SmtpProj.Server.Commands
import SmtpProj.Server.Answers
import SmtpProj.Server.Transparency
import SmtpProj.Server.Idle
import SmtpProj.Server.Envelope
import SmtpProj.Server.Letters
import SmtpProj.Server.Content
import SmtpProj.Server.Lines
import SmtpProj.Server.Maildir
import SmtpProj.Server.Fleet
import SmtpProj.Server.Recipient
import SmtpProj.Server.Address
import SmtpProj.Server.EndOfData
import SmtpProj.Server.Extraction
import SmtpProj.Server.Fields
import SmtpProj.Server.Overrun
import SmtpProj.Server.Saving
import SmtpProj.Client.Fsm
import SmtpProj.Client.Strings
import SmtpProj.Client.Names
import SmtpProj.Client.Child
import SmtpProj.Client.Frame
import SmtpProj.Client.Isolation
import SmtpProj.Client.Queue
import SmtpProj.Client.Spool
import SmtpProj.Client.Delivery
import SmtpProj.Client.Order
import SmtpProj.Client.Sockets
import SmtpProj.Client.Loop
import SmtpProj.Client.Master
import SmtpProj.Client.Duplicates
import SmtpProj.Client.Affinity
import SmtpProj.Client.Replies
import SmtpProj.Client.Acceptance
import SmtpProj.Client.Body
import SmtpProj.Client.Registration
import SmtpProj.Client.Agreement
import SmtpProj.Client.Packets
import SmtpProj.Client.Scan
import SmtpProj.Client.Bounds
import SmtpProj.Client.Retry
import SmtpProj.Client.Balance
import SmtpProj.Client.Rename
import SmtpProj.Client.Capacity
import SmtpProj.Client.Split
import SmtpProj.Client.Assembly
import SmtpProj.Client.Heap
import SmtpProj.Joint.RoundTrip
import SmtpProj.Joint.Wire
import SmtpProj.Joint.SpoolNames
import SmtpProj.Lib.Tree
import SmtpProj.Server.Transaction
import SmtpProj.Server.Spool
import SmtpProj.Joint.Handover
import SmtpProj.Client.GivenUp
import SmtpProj.Client.Ledger
import SmtpProj.Client.Passes
import SmtpProj.Client.Times
import SmtpProj.Joint.Relay
import SmtpProj.Server.Boot
import SmtpProj.Server.Processes
import SmtpProj.Lib.Mailbox
import SmtpProj.Server.Log
import SmtpProj.Joint.Machine
import SmtpProj.Joint.Queues
