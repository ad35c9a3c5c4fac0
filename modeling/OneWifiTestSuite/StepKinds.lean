import OneWifiTestSuite.StatsSteps
import OneWifiTestSuite.AgentSteps

/-!
# All step types

The step types that a test case can be decoded to, with two questions about each. An abort stays in every run
unless a thread or a handler of the step may post one (`abortStays_iff`). A step in wait or continue completes
in every run unless its execution time has been missed, or an agent or a thread is to say when it is over
(`completes_iff`).
-/

namespace OneWifiTestSuite.StepKinds

open StepTypes

/-- A decoded step: its type with its parameters. -/
inductive Kind
  | radio (current : Bool)
  | vap (current : Bool) (capture : Capture)
  | configOnewifi
  | dmlSubdoc
  | dmlReset
  | command (logged : Bool)
  | getFile (delete : Bool)
  | getPatternFiles (emptyPattern delete : Bool)
  | upgradeOrReboot (logs : ℕ)
  | timedWait (seconds : BitVec 32)
  | mgmtFrameCapture (capture : Capture) (radioIndex : ℕ) (duration : BitVec 32)
  | packetGenerator (g : WorkerSteps.PacketGenerator)
  | gatewayPerformance (g : WorkerSteps.GatewayPerformance)
  | logRedirect (start : Bool)
  | statsGet (g : StatsSteps.StatsGet)
  | statsSet (g : StatsSteps.StatsSet)
  | iperfClient (c : AgentSteps.IperfClient)
  | iperfServer (c : AgentSteps.IperfServer)
  | ethLanClient (c : AgentSteps.EthLanClient)
  | staManagement (c : AgentSteps.StaManagement)

/-- The callbacks of a decoded step. -/
def Kind.stepType : Kind → StepType
  | .radio current => ConfigSteps.radio current
  | .vap current capture => ConfigSteps.vap current capture
  | .configOnewifi => ConfigSteps.configOnewifi
  | .dmlSubdoc => ConfigSteps.dmlSubdoc
  | .dmlReset => ConfigSteps.dmlReset
  | .command logged => LocalSteps.command logged
  | .getFile delete => LocalSteps.getFile delete
  | .getPatternFiles emptyPattern delete => LocalSteps.getPatternFiles emptyPattern delete
  | .upgradeOrReboot logs => LocalSteps.upgradeOrReboot logs
  | .timedWait seconds => LocalSteps.timedWait seconds
  | .mgmtFrameCapture capture radioIndex duration => LocalSteps.mgmtFrameCapture capture radioIndex duration
  | .packetGenerator g => WorkerSteps.packetGenerator g
  | .gatewayPerformance g => WorkerSteps.gatewayPerformance g
  | .logRedirect start => WorkerSteps.logRedirect start
  | .statsGet g => StatsSteps.statsGet g
  | .statsSet g => StatsSteps.statsSet g
  | .iperfClient c => AgentSteps.iperfClient c
  | .iperfServer c => AgentSteps.iperfServer c
  | .ethLanClient c => AgentSteps.ethLanClient c
  | .staManagement c => AgentSteps.staManagement c

/-- Nothing but the test thread posts an abort of the step, and that only once. -/
def Kind.Quiet : Kind → Prop
  | .packetGenerator _ | .gatewayPerformance _ => False
  | .logRedirect start => start = false
  | .statsGet g => g.Quiet
  | _ => True

/-- The step ends by itself: its execution time is ahead of its first timeout, where one is needed, and no
external agent is asked. -/
def Kind.Bounded : Kind → Prop
  | .mgmtFrameCapture capture _ duration => capture.frames = false ∨ duration.toNat ≤ 2147483647
  | .packetGenerator g => g.Timed
  | .gatewayPerformance _ | .ethLanClient _ => False
  | .statsGet g => g.op = .timer → 0 < g.timeout.toInt
  | .iperfClient c => c.real = true
  | .iperfServer c => c.startReal = true ∨ c.op = .stop ∧ c.stopReal = true
  | .staManagement c => c.Timed
  | _ => True

/-- **Which aborts stay**: in every run, for every step type. -/
theorem abortStays_iff (k : Kind) : AbortStays k.stepType ↔ k.Quiet := by
  cases k with
  | radio current =>
      exact iff_of_true (ConfigSteps.abortStays_radio current) trivial
  | vap current capture =>
      exact iff_of_true (ConfigSteps.abortStays_vap current capture) trivial
  | configOnewifi =>
      exact iff_of_true ConfigSteps.abortStays_configOnewifi trivial
  | dmlSubdoc =>
      exact iff_of_true ConfigSteps.abortStays_dmlSubdoc trivial
  | dmlReset =>
      exact iff_of_true ConfigSteps.abortStays_dmlReset trivial
  | command logged =>
      exact iff_of_true (LocalSteps.abortStays_command logged) trivial
  | getFile delete =>
      exact iff_of_true (LocalSteps.abortStays_getFile delete) trivial
  | getPatternFiles emptyPattern delete =>
      exact iff_of_true (LocalSteps.abortStays_getPatternFiles emptyPattern delete) trivial
  | upgradeOrReboot logs =>
      exact iff_of_true (LocalSteps.abortStays_upgradeOrReboot logs) trivial
  | timedWait seconds =>
      exact iff_of_true (LocalSteps.abortStays_timedWait seconds) trivial
  | mgmtFrameCapture capture radioIndex duration =>
      exact iff_of_true (LocalSteps.abortStays_mgmtFrameCapture capture radioIndex duration) trivial
  | packetGenerator g =>
      exact iff_of_false (WorkerSteps.not_abortStays_packetGenerator g) id
  | gatewayPerformance g =>
      exact iff_of_false (WorkerSteps.not_abortStays_gatewayPerformance g) id
  | logRedirect start =>
      exact WorkerSteps.abortStays_logRedirect_iff start
  | statsGet g =>
      exact StatsSteps.abortStays_statsGet_iff g
  | statsSet g =>
      exact iff_of_true (StatsSteps.abortStays_statsSet g) trivial
  | iperfClient c =>
      exact iff_of_true (AgentSteps.abortStays_iperfClient c) trivial
  | iperfServer c =>
      exact iff_of_true (AgentSteps.abortStays_iperfServer c) trivial
  | ethLanClient c =>
      exact iff_of_true (AgentSteps.abortStays_ethLanClient c) trivial
  | staManagement c =>
      exact iff_of_true (AgentSteps.abortStays_staManagement c) trivial

/-- **Which steps end**: in every run in which their timeouts come, for every step type. -/
theorem completes_iff (k : Kind) (P : Pace k.stepType) : Completes k.stepType P ↔ k.Bounded := by
  cases k with
  | radio current =>
      exact iff_of_true (ConfigSteps.completes_radio current P) trivial
  | vap current capture =>
      exact iff_of_true (ConfigSteps.completes_vap current capture P) trivial
  | configOnewifi =>
      exact iff_of_true (ConfigSteps.completes_configOnewifi P) trivial
  | dmlSubdoc | dmlReset | command logged | getFile delete | getPatternFiles emptyPattern delete =>
      exact iff_of_true (ConfigSteps.completes_immediate P) trivial
  | upgradeOrReboot logs =>
      exact iff_of_true (LocalSteps.completes_upgradeOrReboot logs P) trivial
  | timedWait seconds =>
      exact iff_of_true (LocalSteps.completes_timedWait seconds P) trivial
  | mgmtFrameCapture capture radioIndex duration =>
      exact LocalSteps.completes_mgmtFrameCapture_iff capture radioIndex duration P
  | packetGenerator g =>
      exact WorkerSteps.completes_packetGenerator_iff g P
  | gatewayPerformance g =>
      exact iff_of_false (WorkerSteps.not_completes_gatewayPerformance g P) id
  | logRedirect start =>
      exact iff_of_true (WorkerSteps.completes_logRedirect start P) trivial
  | statsGet g =>
      exact StatsSteps.completes_statsGet_iff g P
  | statsSet g =>
      exact iff_of_true (StatsSteps.completes_statsSet g P) trivial
  | iperfClient c =>
      exact AgentSteps.completes_iperfClient_iff c P
  | iperfServer c =>
      exact AgentSteps.completes_iperfServer_iff c P
  | ethLanClient c =>
      exact iff_of_false (AgentSteps.not_completes_ethLanClient c P) id
  | staManagement c =>
      exact AgentSteps.completes_staManagement_iff c P

end OneWifiTestSuite.StepKinds
