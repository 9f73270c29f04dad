import DekoponConsole.Proof.Chain
import DekoponConsole.Proof.SmokeTurns
import DekoponConsole.Proof.Frames
import DekoponConsole.Proof.Truncation
import DekoponConsole.Proof.Redact
import DekoponConsole.Proof.Assets
import DekoponConsole.Proof.Attach
import DekoponConsole.Proof.Record
import DekoponConsole.Proof.Turn
import DekoponConsole.Proof.Calls
import DekoponConsole.Proof.Overlap
import DekoponConsole.Proof.Dispatch
import DekoponConsole.Proof.Resolution
import DekoponConsole.Proof.SingleFlight
import DekoponConsole.Proof.Replay
import DekoponConsole.Proof.Protocol
import DekoponConsole.Proof.Selection
import DekoponConsole.Proof.Hop
import DekoponConsole.Proof.Window
import DekoponConsole.Proof.OpenTurns
import DekoponConsole.Proof.Composer
import DekoponConsole.Proof.Faults
import DekoponConsole.Proof.Failures
import DekoponConsole.Proof.Lines
import DekoponConsole.Proof.Reveal
import DekoponConsole.Proof.Noninterference
import DekoponConsole.Proof.Draw
import DekoponConsole.Proof.Paging
import DekoponConsole.Proof.Journal
import DekoponConsole.Proof.Header
import DekoponConsole.Proof.Transport
import DekoponConsole.Proof.Loop
import DekoponConsole.Proof.Task
import DekoponConsole.Proof.Stop
import DekoponConsole.Proof.Sealed
import DekoponConsole.Proof.Delivered
import DekoponConsole.Proof.Consumer
import DekoponConsole.Proof.Agent
import DekoponConsole.Proof.Backend
import DekoponConsole.Proof.Unseen
import DekoponConsole.Proof.Command
import DekoponConsole.Proof.FrontEnd
import DekoponConsole.Proof.LastError
