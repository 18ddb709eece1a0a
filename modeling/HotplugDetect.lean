import HotplugDetect.Controller.Script
import HotplugDetect.Main
import HotplugDetect.Proofs.Recovery
import HotplugDetect.Work.DelayedBench
import HotplugDetect.Proofs.Storm.Detection
import HotplugDetect.Proofs.Storm.Reference
import HotplugDetect.Proofs.Storm.Budget
import HotplugDetect.Proofs.PollModes
import HotplugDetect.Proofs.PollInit
import HotplugDetect.Proofs.Work.Line
import HotplugDetect.Proofs.Work.Wakeup
import HotplugDetect.Proofs.Work.Fairness
import HotplugDetect.Proofs.Backlog.Alarm
import HotplugDetect.Proofs.Dispatch.Accounts
import HotplugDetect.Proofs.Dispatch.Burst
import HotplugDetect.Proofs.Dispatch.Independence
import HotplugDetect.Proofs.Dispatch.EndToEnd
import HotplugDetect.Proofs.Starvation
import HotplugDetect.Proofs.Work.Deadline
import HotplugDetect.Proofs.Shutdown
import HotplugDetect.Proofs.Cancellation
import HotplugDetect.Proofs.Disabling
import HotplugDetect.Proofs.Work.Requests
import HotplugDetect.Proofs.Programming
import HotplugDetect.Proofs.ForcedPolling
import HotplugDetect.Proofs.RoundTrip
import HotplugDetect.Proofs.Work.Schedules
import HotplugDetect.Proofs.Quiet.Emptied
import HotplugDetect.Proofs.Quiet.Exhausted
import HotplugDetect.Proofs.ScenarioText
import HotplugDetect.Proofs.Simulation.Validity
import HotplugDetect.Proofs.Simulation.Settled
import HotplugDetect.Proofs.Simulation.Log
import HotplugDetect.Proofs.Reenabling
import HotplugDetect.Proofs.Knobs.Text
import HotplugDetect.Proofs.Knobs.Applied
import HotplugDetect.Proofs.Simulation.Faults
import HotplugDetect.Proofs.Dispatch.Registers
import HotplugDetect.Proofs.Files.Saving
import HotplugDetect.Proofs.Files.Logging
import HotplugDetect.Proofs.ScenarioPresentation
import HotplugDetect.Proofs.CommandLineGrammar
import HotplugDetect.Proofs.FiniteSets
