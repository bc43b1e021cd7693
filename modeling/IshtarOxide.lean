import IshtarOxide.Lib.Machine
import IshtarOxide.Lib.Potential
import IshtarOxide.Lib.Semaphore
import IshtarOxide.Lib.Ledger
import IshtarOxide.Lib.Aead
import IshtarOxide.Lib.Tally
import IshtarOxide.Lib.Decimal
import IshtarOxide.Lib.Seccomp
import IshtarOxide.Lib.Linux
import IshtarOxide.Lib.Result
import IshtarOxide.Lib.Wasm
import IshtarOxide.Lib.WasmTrace
import IshtarOxide.Lib.Shuffle
import IshtarOxide.Lib.Sieve
import IshtarOxide.Lib.Xorshift
import IshtarOxide.Lib.Strata
import IshtarOxide.Lib.FisherYates
import IshtarOxide.Lib.Mean
import IshtarOxide.Lib.OrderStatistic
import IshtarOxide.Lib.Groups
import IshtarOxide.Lib.Lookup
import IshtarOxide.Lib.Json
import IshtarOxide.Lib.Information
import IshtarOxide.Lib.Cyclic
import IshtarOxide.Sandbox.Setup
import IshtarOxide.Sandbox.Confinement
import IshtarOxide.Sandbox.LabConfinement
import IshtarOxide.Guest.Validate
import IshtarOxide.Guest.Components
import IshtarOxide.Guest.StreamCapitalize
import IshtarOxide.Guest.SequentialProbe
import IshtarOxide.Guest.ProbeTrace
import IshtarOxide.Guest.BenchTurn
import IshtarOxide.Lab.Basic
import IshtarOxide.Lab.RunnerProtocol
import IshtarOxide.Lab.Body
import IshtarOxide.Lab.Wasm
import IshtarOxide.Lab.Process
import IshtarOxide.Lab.StreamRunner
import IshtarOxide.Lab.TurnRunner
import IshtarOxide.Lab.ValidateRunner
import IshtarOxide.Lab.Server
import IshtarOxide.Lab.Lane
import IshtarOxide.Lab.AppendLog
import IshtarOxide.Lab.Streams
import IshtarOxide.Lab.Runners
import IshtarOxide.Lab.Unauthorized
import IshtarOxide.Lab.Slots
import IshtarOxide.Lab.Padding
import IshtarOxide.Lab.Counters
import IshtarOxide.Lab.Progress
import IshtarOxide.Lab.StreamBench
import IshtarOxide.Lab.StreamAccounts
import IshtarOxide.Lab.BenchAccounts
import IshtarOxide.Lab.TurnBench
import IshtarOxide.Lab.TurnCampaign
import IshtarOxide.Lab.StreamAgreement
import IshtarOxide.Lab.StreamText
import IshtarOxide.Scheduler.Basic
import IshtarOxide.Scheduler.Admission
import IshtarOxide.Scheduler.LiveRunners
import IshtarOxide.Scheduler.Timed
import IshtarOxide.Scheduler.Response
import IshtarOxide.Scheduler.Runner
import IshtarOxide.Scheduler.Artifact
import IshtarOxide.BenchClient.Plan
import IshtarOxide.BenchClient.Calibration
import IshtarOxide.BenchClient.Decoding
import IshtarOxide.Campaign.Permutation
import IshtarOxide.Campaign.Information
import IshtarOxide.Campaign.Seeds
import IshtarOxide.Campaign.Balance
import IshtarOxide.Campaign.Extension
import IshtarOxide.Campaign.Orders
import IshtarOxide.Campaign.Level
import IshtarOxide.Campaign.Statistics
import IshtarOxide.Lab.Statistics
import IshtarOxide.BenchClient.Report
import IshtarOxide.BenchClient.Statistics
import IshtarOxide.BenchClient.Summary
import IshtarOxide.BenchClient.RunMatrix
import IshtarOxide.BenchClient.LongBench
