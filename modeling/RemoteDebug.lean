import RemoteDebug.Main
import RemoteDebug.Proofs.Mirror
import RemoteDebug.Simulation.Host
import RemoteDebug.Proofs.Freshness
import RemoteDebug.Proofs.Reads
import RemoteDebug.Proofs.Written
import RemoteDebug.Proofs.Constants
import RemoteDebug.Proofs.Attributes
import RemoteDebug.Proofs.Grammar
import RemoteDebug.Proofs.Permit
import RemoteDebug.Proofs.Worlds
import RemoteDebug.Proofs.Reached
import RemoteDebug.Proofs.Correlation
import RemoteDebug.Proofs.Simulated
import RemoteDebug.Proofs.Histories
import RemoteDebug.Proofs.Unconnected
import RemoteDebug.Proofs.Standstill
import RemoteDebug.Proofs.Hits
import RemoteDebug.Proofs.Overtaken
import RemoteDebug.Proofs.Lines
import RemoteDebug.Proofs.Connections
import RemoteDebug.Proofs.Turns
import RemoteDebug.Proofs.Texts
import RemoteDebug.Proofs.Payloads
import RemoteDebug.Proofs.Truncation
import RemoteDebug.Proofs.Attended
import RemoteDebug.Proofs.LoadOrder
import RemoteDebug.Proofs.Responses
import RemoteDebug.Proofs.Plans
import RemoteDebug.Proofs.FirstRow
import RemoteDebug.Proofs.Refused
import RemoteDebug.Proofs.Watched
import RemoteDebug.Proofs.Spending
import RemoteDebug.Proofs.Deadlines
import RemoteDebug.Proofs.Stepping
import RemoteDebug.Proofs.Floor
import RemoteDebug.Proofs.PoolClosure
import RemoteDebug.Proofs.Checked
import RemoteDebug.Proofs.Diagnosis
import RemoteDebug.Proofs.Containment
