import FiberScheduler.Act
import FiberScheduler.Affinity
import FiberScheduler.BlockPool
import FiberScheduler.Config
import FiberScheduler.Context.Machine
import FiberScheduler.Context.Region
import FiberScheduler.Context.Script
import FiberScheduler.Counters
import FiberScheduler.Crew
import FiberScheduler.Directory
import FiberScheduler.Dispenser
import FiberScheduler.Fault
import FiberScheduler.Fiber.Arena
import FiberScheduler.Fiber.Pool
import FiberScheduler.Fiber.Script
import FiberScheduler.HandleText
import FiberScheduler.Hex
import FiberScheduler.Hub
import FiberScheduler.Inbox
import FiberScheduler.Job
import FiberScheduler.Lanes
import FiberScheduler.Notice
import FiberScheduler.Pinning
import FiberScheduler.Priority
import FiberScheduler.Proofs.Acceptance
import FiberScheduler.Proofs.Accounts
import FiberScheduler.Proofs.Acts
import FiberScheduler.Proofs.Answers
import FiberScheduler.Proofs.Balance
import FiberScheduler.Proofs.Blocks
import FiberScheduler.Proofs.Calls
import FiberScheduler.Proofs.Coherence
import FiberScheduler.Proofs.Conduct
import FiberScheduler.Proofs.Courses
import FiberScheduler.Proofs.Custody
import FiberScheduler.Proofs.Debts
import FiberScheduler.Proofs.Deliveries
import FiberScheduler.Proofs.Demands
import FiberScheduler.Proofs.Drain
import FiberScheduler.Proofs.Endings
import FiberScheduler.Proofs.Fetching
import FiberScheduler.Proofs.Fresh
import FiberScheduler.Proofs.Gather
import FiberScheduler.Proofs.Groups
import FiberScheduler.Proofs.Growth
import FiberScheduler.Proofs.Halving
import FiberScheduler.Proofs.Handles
import FiberScheduler.Proofs.Handovers
import FiberScheduler.Proofs.Intake
import FiberScheduler.Proofs.Isolation
import FiberScheduler.Proofs.Keeping
import FiberScheduler.Proofs.Latches
import FiberScheduler.Proofs.Layout
import FiberScheduler.Proofs.Ledger
import FiberScheduler.Proofs.Lending
import FiberScheduler.Proofs.Marks
import FiberScheduler.Proofs.Merging
import FiberScheduler.Proofs.Meters
import FiberScheduler.Proofs.Moves
import FiberScheduler.Proofs.Occupancy
import FiberScheduler.Proofs.Owners
import FiberScheduler.Proofs.Places
import FiberScheduler.Proofs.Queues
import FiberScheduler.Proofs.Recovery
import FiberScheduler.Proofs.Refusals
import FiberScheduler.Proofs.Regions
import FiberScheduler.Proofs.Renting
import FiberScheduler.Proofs.Requests
import FiberScheduler.Proofs.Requeues
import FiberScheduler.Proofs.Results
import FiberScheduler.Proofs.Rollback
import FiberScheduler.Proofs.Routing
import FiberScheduler.Proofs.SetUp
import FiberScheduler.Proofs.Shapes
import FiberScheduler.Proofs.Slots
import FiberScheduler.Proofs.Sound
import FiberScheduler.Proofs.Spots
import FiberScheduler.Proofs.Stages
import FiberScheduler.Proofs.Steps
import FiberScheduler.Proofs.Strides
import FiberScheduler.Proofs.Switching
import FiberScheduler.Proofs.Symmetric
import FiberScheduler.Proofs.Tallies
import FiberScheduler.Proofs.Tenancy
import FiberScheduler.Proofs.Terms
import FiberScheduler.Proofs.Tiers
import FiberScheduler.Proofs.Totals
import FiberScheduler.Proofs.Traffic
import FiberScheduler.Proofs.Turns
import FiberScheduler.Proofs.Unseen
import FiberScheduler.Proofs.Waiting
import FiberScheduler.Proofs.Wakeups
import FiberScheduler.Refusal
import FiberScheduler.Registry
import FiberScheduler.Scheduler
import FiberScheduler.Script.Action
import FiberScheduler.Script.Body
import FiberScheduler.Script.Session
import FiberScheduler.Sorting.MergeSort
import FiberScheduler.Sorting.Random
import FiberScheduler.System.Lifecycle
import FiberScheduler.System.Load
import FiberScheduler.System.Program
import FiberScheduler.System.State
import FiberScheduler.System.Step
import FiberScheduler.WaitGroup
import FiberScheduler.Word
